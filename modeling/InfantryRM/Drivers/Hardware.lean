import InfantryRM.Lib.Run

/-!
# The actuator peripherals

The drivers reach the motors and the servos through `gpio_set_level` and `mcpwm_set_duty_in_us`
and let time pass with `vTaskDelay`. A driver function is the list of these calls in the order of
the source (`Effect`), and `Hardware.run` performs them. Every pin and every MCPWM unit is a
register of the run: it holds the last level or pulse that a call wrote to it
(`Hardware.run_level`, `Hardware.run_duty`).
-/

namespace InfantryRM

open Run

/-- A GPIO number. -/
abbrev Pin := Nat

/-- The MCPWM units of the gimbal: the yaw servo is on unit 0, the pitch servo on unit 1. Source:
`mcpwm_example_gpio_initialize` (`Gimbal.c:13`). -/
inductive McpwmUnit
  | unit0
  | unit1
  deriving DecidableEq, Repr

/-- A call of a driver function that the outside world can see. -/
inductive Effect
  | gpioSetLevel (pin : Pin) (level : Bool)
  | mcpwmSetDutyInUs (unit : McpwmUnit) (us : UInt32)
  | vTaskDelay (ticks : Nat)
  deriving DecidableEq, Repr

/-- The levels of the output pins and the pulse widths of the MCPWM units. -/
structure Hardware where
  level : Pin → Bool
  duty : McpwmUnit → UInt32

/-- After reset every output latch is low, and `mcpwm_init` starts with a duty of 0. Source:
`cmpr_a` (`Gimbal.h:46`). -/
def powerOn : Hardware := ⟨fun _ => false, fun _ => 0⟩

/-- One call. -/
def Hardware.apply (hw : Hardware) : Effect → Hardware
  | .gpioSetLevel pin level => { hw with level := Function.update hw.level pin level }
  | .mcpwmSetDutyInUs unit us => { hw with duty := Function.update hw.duty unit us }
  | .vTaskDelay _ => hw

/-- A sequence of calls. -/
def Hardware.run (hw : Hardware) (es : List Effect) : Hardware := es.foldl Hardware.apply hw

/-- The level that a call writes to `pin`. -/
def Effect.levelOf (pin : Pin) : Effect → Option Bool
  | .gpioSetLevel p level => if p = pin then some level else none
  | _ => none

/-- The pulse width that a call writes to `unit`. -/
def Effect.dutyOf (unit : McpwmUnit) : Effect → Option UInt32
  | .mcpwmSetDutyInUs u us => if u = unit then some us else none
  | _ => none

/-- Calls in sequence. -/
theorem Hardware.run_append (hw : Hardware) (es es' : List Effect) :
    hw.run (es ++ es') = (hw.run es).run es' :=
  List.foldl_append

/-- A pin holds the last level written to it. -/
theorem Hardware.run_level (hw : Hardware) (es : List Effect) (pin : Pin) :
    (hw.run es).level pin = (lastSome (Effect.levelOf pin) es).getD (hw.level pin) := by
  refine foldl_register (fun hw : Hardware => hw.level pin) (fun hw e => ?_) hw es
  cases e with
  | gpioSetLevel p level =>
    by_cases h : p = pin
    · subst h; simp [Hardware.apply, Effect.levelOf]
    · simp [Hardware.apply, Effect.levelOf, h, Function.update_of_ne (Ne.symm h)]
  | mcpwmSetDutyInUs | vTaskDelay => rfl

/-- An MCPWM unit holds the last pulse width written to it. -/
theorem Hardware.run_duty (hw : Hardware) (es : List Effect) (unit : McpwmUnit) :
    (hw.run es).duty unit = (lastSome (Effect.dutyOf unit) es).getD (hw.duty unit) := by
  refine foldl_register (fun hw : Hardware => hw.duty unit) (fun hw e => ?_) hw es
  cases e with
  | mcpwmSetDutyInUs u us =>
    by_cases h : u = unit
    · subst h; simp [Hardware.apply, Effect.dutyOf]
    · simp [Hardware.apply, Effect.dutyOf, h, Function.update_of_ne (Ne.symm h)]
  | gpioSetLevel | vTaskDelay => rfl

/-- Calls that write every pin of a list leave levels that do not depend on the earlier state. -/
theorem Hardware.run_map_level_eq {es : List Effect} {pins : List Pin}
    (h : ∀ pin ∈ pins, (lastSome (Effect.levelOf pin) es).isSome) (hw hw' : Hardware) :
    pins.map (hw.run es).level = pins.map (hw'.run es).level :=
  List.map_congr_left fun pin hpin => by
    obtain ⟨level, hlevel⟩ := Option.isSome_iff_exists.1 (h pin hpin)
    rw [hw.run_level, hw'.run_level, hlevel]
    rfl

end InfantryRM

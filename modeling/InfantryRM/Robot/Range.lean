import InfantryRM.Robot.Tracking

/-!
# The range of the gimbal

The tracked angles stay between the ends of the servos' range, and every pulse that the boot code or
a record writes is that of an angle in this range, so it lies between the shortest and the longest
pulse of the servo. The driver takes the angle as a `uint32_t` and computes with 32 bits; on the
range neither the conversion nor the product wraps around (`gimbal_in_range`).

The driver has two checks of its own, on the unsigned angle. They do what the signed checks of
`web_recdata` do exactly when the angle is not negative (`servoSetAngleTo_eq_clampAngle_iff`).
-/

namespace InfantryRM

open Run CString

/-- The driver calls of the records of a run, in order. -/
def Robot.driverCalls (rb : Robot) : List Job → List Effect
  | [] => []
  | j :: js => (webRecdata j rb.angles).2 ++ (rb.process j).driverCalls js

/-- The conversion of a tracked angle to `uint32_t` and the product with the range of the pulses are
those of the integers. -/
structure FitsUInt32 (a : Int) : Prop where
  conversion : ((UInt32.ofInt a).toNat : Int) = a
  product : (((servoMaxPulsewidth - servoMinPulsewidth) * UInt32.ofInt a).toNat : Int) = 2000 * a

section
variable {j : Job} {g : Angles} {unit : McpwmUnit} {us : UInt32}

/-- A run leaves the actuators as its calls do. -/
theorem Robot.run_hw (rb : Robot) (js : List Job) :
    (rb.run js).hw = rb.hw.run (rb.driverCalls js) := by
  induction js generalizing rb with
  | nil => rfl
  | cons j js ih => exact (ih (rb.process j)).trans (Hardware.run_append ..).symm

/-- An angle in the range of the servo and its product fit into 32 bits. -/
theorem fitsUInt32_of_range {a : Int} (h0 : 0 ≤ a) (h : a ≤ servoMaxDegree) : FitsUInt32 a := by
  have hnat := toNat_ofInt h0 h
  have hmax : a ≤ 270 := h
  have hsub : (servoMaxPulsewidth - servoMinPulsewidth).toNat = 2000 := rfl
  refine ⟨by omega, ?_⟩
  rw [UInt32.toNat_mul, hsub, hnat, Nat.mod_eq_of_lt (by omega)]
  omega

/-- The pulse of an angle in the range lies between the shortest and the longest. -/
theorem pulse_bounds {a : Int} (h0 : 0 ≤ a) (h : a ≤ servoMaxDegree) :
    500 ≤ (pulse a).toNat ∧ (pulse a).toNat ≤ 2500 := by
  have hpulse := pulse_toNat h0 h
  have hmax : a ≤ 270 := h
  omega

/-- A record writes pulses of angles in the range only. -/
theorem exists_pulse_of_mem_webRecdata (h : .mcpwmSetDutyInUs unit us ∈ (webRecdata j g).2) :
    ∃ a : Int, 0 ≤ a ∧ a ≤ servoMaxDegree ∧ us = pulse a := by
  have haddr : j.record.addresses = .gimbal := by
    rcases mem_webRecdata h with ⟨pin, -, level, heq⟩ | ⟨haddr, -⟩ | ⟨ticks, heq⟩
    · cases heq
    · exact haddr
    · cases heq
  have hd := URLData.addresses_eq_gimbal_iff.1 haddr
  simp only [webRecdata, hd, Cmd.andThen, Cmd.emit, gimbalBranch_eq] at h
  cases hp : gimbalPress j.myvalue with
  | none => simp [hp] at h
  | some p =>
    simp only [hp, Option.elim_some, moveAxis_eq, List.mem_append, List.mem_cons,
      Effect.mcpwmSetDutyInUs.injEq, List.not_mem_nil, or_false, reduceCtorEq] at h
    exact ⟨_, clampAngle_nonneg _, clampAngle_le _, h.2⟩

/-- So do the records of a run. -/
theorem exists_pulse_of_mem_driverCalls {rb : Robot} {js : List Job}
    (h : .mcpwmSetDutyInUs unit us ∈ rb.driverCalls js) :
    ∃ a : Int, 0 ≤ a ∧ a ≤ servoMaxDegree ∧ us = pulse a := by
  induction js generalizing rb with
  | nil => cases h
  | cons j js ih =>
    rcases List.mem_append.1 h with hmem | hmem
    · exact exists_pulse_of_mem_webRecdata hmem
    · exact ih hmem

/-- So does the boot code. -/
theorem exists_pulse_of_mem_gimbalServerStart (h : .mcpwmSetDutyInUs unit us ∈ gimbalServerStart) :
    ∃ a : Int, 0 ≤ a ∧ a ≤ servoMaxDegree ∧ us = pulse a := by
  have hboot : gimbalServerStart =
      [.mcpwmSetDutyInUs .unit0 (pulse 235), .vTaskDelay 10,
        .mcpwmSetDutyInUs .unit1 (pulse 90), .vTaskDelay 10] := by decide
  rw [hboot] at h
  simp only [List.mem_cons, Effect.mcpwmSetDutyInUs.injEq, List.not_mem_nil, or_false,
    reduceCtorEq, false_or] at h
  rcases h with ⟨-, rfl⟩ | ⟨-, rfl⟩
  · exact ⟨235, by decide, by decide, rfl⟩
  · exact ⟨90, by decide, by decide, rfl⟩

/-- The pulse of an MCPWM unit is the last one written since power-on. -/
theorem lastSome_driverCalls (js : List Job) (unit : McpwmUnit) :
    lastSome (Effect.dutyOf unit) (gimbalServerStart ++ boot.driverCalls js) =
      some ((boot.run js).hw.duty unit) := by
  have hboot : (lastSome (Effect.dutyOf unit) gimbalServerStart).isSome := by
    cases unit <;> decide
  obtain ⟨us, hus⟩ := Option.isSome_iff_exists.1 hboot
  rw [Robot.run_hw, boot, ← Hardware.run_append, Hardware.run_duty, lastSome_append, hus]
  cases lastSome (Effect.dutyOf unit) (Robot.driverCalls _ js) <;> rfl

/-- **The range of the gimbal.** After every run from boot the tracked angles lie in the range of
the servos, and fit into 32 bits as the driver uses them. Every pulse ever written lies between 500
and 2500 µs; and the last pulse written to an axis that a record has moved is that of its tracked
angle. -/
theorem gimbal_in_range (js : List Job) :
    (∀ axis, 0 ≤ (boot.run js).angles.get axis ∧ (boot.run js).angles.get axis ≤ 270 ∧
      FitsUInt32 ((boot.run js).angles.get axis)) ∧
    (∀ unit us, .mcpwmSetDutyInUs unit us ∈ gimbalServerStart ++ boot.driverCalls js →
      500 ≤ us.toNat ∧ us.toNat ≤ 2500) ∧
    ∀ axis, (∃ j ∈ js, j.Presses axis) → ∃ us,
      lastSome (Effect.dutyOf axis.unit) (gimbalServerStart ++ boot.driverCalls js) = some us ∧
        (us.toNat : Int) = 500 + 2000 * (boot.run js).angles.get axis / 270 := by
  refine ⟨?_, ?_, ?_⟩
  · intro axis
    obtain ⟨h0, h⟩ := Robot.run_angles js axis
    exact ⟨h0, h, fitsUInt32_of_range h0 h⟩
  · intro unit us hmem
    obtain ⟨a, h0, h, rfl⟩ : ∃ a : Int, 0 ≤ a ∧ a ≤ servoMaxDegree ∧ us = pulse a := by
      rcases List.mem_append.1 hmem with hboot | hrun
      · exact exists_pulse_of_mem_gimbalServerStart hboot
      · exact exists_pulse_of_mem_driverCalls hrun
    exact pulse_bounds h0 h
  · intro axis hpressed
    obtain ⟨h0, h⟩ := Robot.run_angles js axis
    refine ⟨_, lastSome_driverCalls js axis.unit, ?_⟩
    rw [(tracks_iff_pressed js axis).2 hpressed]
    exact pulse_toNat h0 h

end

/-- The yaw servo after one press. -/
theorem gimbal_in_range_press : ∃ us,
    lastSome (Effect.dutyOf .unit0) (gimbalServerStart ++ boot.driverCalls [pressJob .yaw]) =
      some us ∧
    (us.toNat : Int) = 500 + 2000 * (boot.run [pressJob .yaw]).angles.get .yaw / 270 :=
  (gimbal_in_range [pressJob .yaw]).2.2 .yaw
    ⟨_, List.mem_singleton_self _, ⟨.yaw, 10⟩, by decide, rfl⟩

/-! ## The two clamps -/

/-- **The two clamps.** For every 32-bit angle and either axis, the driver writes the pulse of the
angle that the signed checks of `web_recdata` would leave exactly when the angle is not negative. -/
theorem servoSetAngleTo_eq_clampAngle_iff {a : Int} (hlow : -2 ^ 31 ≤ a) (hhigh : a < 2 ^ 31)
    (axis : Axis) :
    servoSetAngleTo (UInt32.ofInt a) axis.motorIndex =
        [.mcpwmSetDutyInUs axis.unit (pulse (clampAngle a)), .vTaskDelay 10] ↔
      0 ≤ a := by
  have hmod := toNat_ofInt_emod a
  have hmax : servoMaxDegree = 270 := rfl
  rw [servoSetAngleTo_motorIndex]
  constructor
  · intro h
    by_contra hneg
    -- the conversion makes a negative angle a large one, which the second check cuts
    have hge : servoMaxDegree ≤ (UInt32.ofInt a).toNat := by omega
    have hzero : clampAngle a = 0 := by
      unfold clampAngle
      omega
    rw [checkedAngle_of_ge hge, hzero] at h
    revert h
    cases axis <;> decide
  · intro h0
    have hchecked : checkedAngle (UInt32.ofInt a) = UInt32.ofInt (clampAngle a) := by
      rcases le_total a servoMaxDegree with hle | hge
      · have hclamp : clampAngle a = a := by
          unfold clampAngle
          omega
        rw [checkedAngle_of_le (by omega), hclamp]
      · have hclamp : clampAngle a = servoMaxDegree := by
          unfold clampAngle
          omega
        rw [checkedAngle_of_ge (by omega), hclamp]
        rfl
    rw [hchecked, pulse]

/-- The angle -1 drives the servo to the wrong end: its pulse is the longest one. -/
theorem servoSetAngleTo_negative : ¬ ∀ (a : Int) (axis : Axis), -2 ^ 31 ≤ a → a < 2 ^ 31 →
    servoSetAngleTo (UInt32.ofInt a) axis.motorIndex =
      [.mcpwmSetDutyInUs axis.unit (pulse (clampAngle a)), .vTaskDelay 10] := by
  intro h
  have hpulse := h (-1) .yaw (by decide) (by decide)
  revert hpulse
  decide

/-- An angle beyond the range is cut to its end by both. -/
theorem servoSetAngleTo_eq_clampAngle_iff_300 :
    servoSetAngleTo (UInt32.ofInt 300) Axis.pitch.motorIndex =
        [.mcpwmSetDutyInUs Axis.pitch.unit (pulse (clampAngle 300)), .vTaskDelay 10] ↔
      (0 : Int) ≤ 300 :=
  servoSetAngleTo_eq_clampAngle_iff (by decide) (by decide) .pitch

end InfantryRM

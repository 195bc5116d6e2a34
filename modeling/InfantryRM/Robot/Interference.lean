import InfantryRM.Lib.Interference
import InfantryRM.Robot.Arguments
import InfantryRM.Robot.Tracking

/-!
# The parts of the robot do not interfere

Every record addresses one part of the robot, or none: a gimbal record whose argument selects no
button (`Job.part`). The chassis, the friction wheel and the feeder are made of pins, an axis of the
gimbal of its tracked angle and the pulse of its MCPWM unit. No register belongs to two parts
(`Part.registers_disjoint`), and what a record makes of a register depends on that register alone
(`Robot.separates_process`). So a part ends a run as if the records for the other parts had not been
there, and neighbours for different parts can be swapped (`parts_do_not_interfere`).
-/

namespace InfantryRM

open Run CString Interference

/-! ## Registers and parts -/

/-- What records can change: the level of a pin, and the tracked angle of an axis with its pulse. -/
inductive Register
  | pin (pin : Pin)
  | axis (axis : Axis)
  deriving DecidableEq, Repr

/-- The contents of a register. -/
def Robot.read (rb : Robot) : Register → Bool ⊕ Int × UInt32
  | .pin pin => .inl (rb.hw.level pin)
  | .axis axis => .inr (rb.angles.get axis, rb.hw.duty axis.unit)

inductive Part
  | chassis
  | frictionWheel
  | feeder
  | axis (axis : Axis)
  deriving DecidableEq, Repr

def Part.registers : Part → List Register
  | .chassis => Subsystem.chassis.pins.map .pin
  | .frictionWheel => Subsystem.frictionWheel.pins.map .pin
  | .feeder => Subsystem.feeder.pins.map .pin
  | .axis a => [.axis a]

/-- The state of a part. -/
def Robot.state (rb : Robot) (S : Part) : List (Bool ⊕ Int × UInt32) := S.registers.map rb.read

/-- The part that a record addresses; an unrecognised URL addresses the chassis. -/
def Job.part (j : Job) : Option Part :=
  match j.record.addresses with
  | .chassis => some .chassis
  | .frictionWheel => some .frictionWheel
  | .feeder => some .feeder
  | .gimbal => j.press.map fun p => .axis p.axis

/-- The record addresses the part that the register belongs to. -/
def Job.Touches (j : Job) (r : Register) : Prop := ∃ S, j.part = some S ∧ r ∈ S.registers

/-- The registers of different parts are different. -/
theorem Part.registers_disjoint {S T : Part} (h : S ≠ T) {r : Register} (hr : r ∈ S.registers) :
    r ∉ T.registers := by
  have hall : ∀ S T : Part, S ≠ T → ∀ r ∈ S.registers, r ∉ T.registers := by
    rintro (_ | _ | _ | (_ | _)) (_ | _ | _ | (_ | _)) <;> decide
  exact hall S T h r hr

section
variable {rb rb' : Robot} {j : Job}

/-- A register of a part is touched by the records that address the part. -/
theorem Job.touches_iff {S : Part} {r : Register} (hr : r ∈ S.registers) :
    j.Touches r ↔ j.part = some S := by
  constructor
  · rintro ⟨T, hT, hmem⟩
    by_contra hne
    exact Part.registers_disjoint (fun heq : T = S => hne (heq ▸ hT)) hmem hr
  · exact fun h => ⟨S, h, hr⟩

/-- The registers are all that records act on. -/
theorem Robot.ext_read (h : rb.read = rb'.read) : rb = rb' := by
  have haxis (axis : Axis) := Prod.mk.inj (Sum.inr.inj (congrFun h (.axis axis)))
  have hangles : rb.angles = rb'.angles := Angles.ext_get fun axis => (haxis axis).1
  have hlevel : rb.hw.level = rb'.hw.level :=
    funext fun pin => Sum.inl.inj (congrFun h (.pin pin))
  have hduty : rb.hw.duty = rb'.hw.duty := by
    funext unit
    cases unit with
    | unit0 => exact (haxis .yaw).2
    | unit1 => exact (haxis .pitch).2
  obtain ⟨angles, level, duty⟩ := rb
  obtain ⟨angles', level', duty'⟩ := rb'
  cases hangles
  cases hlevel
  cases hduty
  rfl

/-- A pin of the subsystem that a record addresses belongs to the part that it addresses. -/
theorem Job.touches_of_mem_pins {pin : Pin} (h : pin ∈ j.record.addresses.pins) :
    j.Touches (.pin pin) := by
  unfold Job.Touches Job.part
  cases ha : j.record.addresses with
  | chassis => rw [ha] at h; exact ⟨.chassis, rfl, List.mem_map_of_mem h⟩
  | frictionWheel => rw [ha] at h; exact ⟨.frictionWheel, rfl, List.mem_map_of_mem h⟩
  | feeder => rw [ha] at h; exact ⟨.feeder, rfl, List.mem_map_of_mem h⟩
  | gimbal => rw [ha] at h; cases h

/-- A press of an axis addresses the axis. -/
theorem Job.touches_of_presses {axis : Axis} (h : j.Presses axis) : j.Touches (.axis axis) := by
  obtain ⟨p, hp, rfl⟩ := h
  have haddr : j.record.addresses = .gimbal := by
    unfold Job.press at hp
    exact URLData.addresses_eq_gimbal_iff.2 (Option.ite_none_right_eq_some.1 hp).1
  refine ⟨.axis p.axis, ?_, List.mem_singleton_self _⟩
  rw [Job.part, haddr, hp]
  rfl

/-- **Separation.** What a record makes of a register depends on that register alone, and is nothing
when the register belongs to no part that the record addresses. -/
theorem Robot.separates_process : Separates Robot.process Robot.read Job.Touches where
  congr {rb rb' r} j h := by
    cases r with
    | pin pin =>
      have hlevel : rb.hw.level pin = rb'.hw.level pin := Sum.inl.inj h
      refine congrArg Sum.inl ?_
      by_cases haddr : j.record.addresses = .gimbal
      · have hpin : pin ∉ j.record.addresses.pins := by rw [haddr]; exact List.not_mem_nil
        rw [Robot.process_level hpin, Robot.process_level hpin, hlevel]
      · unfold Robot.process
        rw [webRecdata_of_not_gimbal haddr rb'.angles, Hardware.run_level, Hardware.run_level,
          hlevel]
    | axis axis =>
      have haxis := Sum.inr.inj h
      obtain ⟨hangle, hduty⟩ := Prod.mk.inj haxis
      refine congrArg Sum.inr ?_
      rw [rb.process_axis, rb'.process_axis, hangle, hduty]
  frame {j r} rb h := by
    cases r with
    | pin pin => exact congrArg Sum.inl (Robot.process_level (mt Job.touches_of_mem_pins h))
    | axis axis =>
      exact congrArg Sum.inr (rb.process_of_not_presses (mt Job.touches_of_presses h))

/-- **Noninterference.** A run leaves a part as the run of the records that address it does; and two
neighbours that address different parts can be swapped, which leaves the whole robot as it is. -/
theorem parts_do_not_interfere (rb : Robot) :
    (∀ (js : List Job) (S : Part),
      (rb.run js).state S = (rb.run (js.filter (·.part = some S))).state S) ∧
    ∀ (js js' : List Job) (j j' : Job), j.part ≠ j'.part →
      rb.run (js ++ j :: j' :: js') = rb.run (js ++ j' :: j :: js') := by
  refine ⟨?_, ?_⟩
  · intro js S
    refine List.map_congr_left fun r hr => ?_
    refine Robot.separates_process.view_foldl_filter ?_ rb js
    intro j hj
    exact decide_eq_true ((Job.touches_iff hr).1 hj)
  · intro js js' j j' hne
    refine Robot.separates_process.foldl_swap (fun _ _ => Robot.ext_read) ?_ rb js js'
    rintro r ⟨S, hS, hr⟩ hj'
    exact hne (hS.trans ((Job.touches_iff hr).1 hj').symm)

end

/-- A gimbal button and the start of the friction wheel, in either order. -/
theorem parts_do_not_interfere_blaste :
    boot.run [pressJob .yaw, ⟨targetRecord (ascii "/blaste?val=0000") (by decide), []⟩] =
      boot.run [⟨targetRecord (ascii "/blaste?val=0000") (by decide), []⟩, pressJob .yaw] :=
  (parts_do_not_interfere boot).2 [] [] _ _ (by decide)

end InfantryRM

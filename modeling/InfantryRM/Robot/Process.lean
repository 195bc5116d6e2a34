import InfantryRM.Web.Dispatch

/-!
# What one record does

Every record addresses one subsystem (`URLData.addresses`), and the driver calls of its branch stay
inside it (`mem_webRecdata`), so the other subsystems keep their state (`Robot.process_pins`,
`Robot.process_gimbal`). On the subsystem that it addresses a record acts as a register write: it
selects new levels or leaves the old ones, whatever they are (`Robot.process_chassisPins`,
`Robot.process_axis`).
-/

namespace InfantryRM

open Run CString Strtol

/-! ## Addresses -/

inductive Subsystem
  | chassis
  | frictionWheel
  | feeder
  | gimbal
  deriving DecidableEq, Repr

/-- The output pins of a subsystem; the gimbal is driven by the MCPWM units. -/
def Subsystem.pins : Subsystem → List Pin
  | .chassis => chassisPinList
  | .frictionWheel => frictionMotor.pins
  | .feeder => feederMotor.pins
  | .gimbal => []

/-- The subsystem that a command is for. -/
def Command.subsystem : Command → Subsystem
  | .gimbal => .gimbal
  | .blaste | .fireSt => .frictionWheel
  | .pluck1 | .luck2P => .feeder
  | .robott | .rocker => .chassis

/-- The subsystem that a record addresses; an unrecognised URL addresses the chassis. -/
def URLData.addresses (record : URLData) : Subsystem :=
  (dispatch record.urlBuff01).elim .chassis Command.subsystem

section
variable {j : Job} {rb : Robot} {g : Angles} {c : Command}

/-- The records of the gimbal branch address the gimbal. -/
theorem URLData.addresses_eq_gimbal_iff {record : URLData} :
    record.addresses = .gimbal ↔ dispatch record.urlBuff01 = some .gimbal := by
  unfold URLData.addresses
  cases dispatch record.urlBuff01 with
  | none => exact ⟨nofun, nofun⟩
  | some c => cases c <;> decide

/-- **What a record can do.** It writes pins of the subsystem that it addresses, moves a servo only
when it addresses the gimbal, and waits. -/
theorem mem_webRecdata {e : Effect} (he : e ∈ (webRecdata j g).2) :
    (∃ pin ∈ j.record.addresses.pins, ∃ level, e = .gpioSetLevel pin level) ∨
      (j.record.addresses = .gimbal ∧ ∃ unit us, e = .mcpwmSetDutyInUs unit us) ∨
      ∃ ticks, e = .vTaskDelay ticks := by
  have hdrive (p : ChassisPattern) (he : e ∈ p.drive) :
      ∃ pin ∈ chassisPinList, ∃ level, e = .gpioSetLevel pin level := by
    cases p <;> fin_cases he <;> exact ⟨_, by decide, _, rfl⟩
  simp only [webRecdata, Cmd.andThen, Cmd.emit, List.mem_append, List.mem_singleton] at he
  rcases he with he | he
  · unfold URLData.addresses
    cases hd : dispatch j.record.urlBuff01 with
    | none => rw [hd] at he; exact .inl (hdrive .stop he)
    | some c =>
      rw [hd] at he
      cases c with
      | gimbal =>
        simp only [gimbalBranch_eq] at he
        cases hp : gimbalPress j.myvalue with
        | none => rw [hp] at he; cases he
        | some p =>
          rw [hp, Option.elim_some, moveAxis_eq] at he
          rcases List.mem_cons.1 he with rfl | he
          · exact .inr (.inl ⟨rfl, _, _, rfl⟩)
          · exact .inr (.inr ⟨_, List.mem_singleton.1 he⟩)
      | blaste | fireSt | pluck1 | luck2P =>
        refine .inl ?_
        fin_cases he <;> exact ⟨_, by decide, _, rfl⟩
      | robott => cases he
      | rocker =>
        obtain ⟨p, hp⟩ := mem_rockerBranch he
        exact .inl (hdrive p hp)
  · exact .inr (.inr ⟨_, he⟩)

/-- A pin outside the addressed subsystem keeps its level. -/
theorem Robot.process_level {pin : Pin} (h : pin ∉ j.record.addresses.pins) :
    (rb.process j).hw.level pin = rb.hw.level pin := by
  have hnone : lastSome (Effect.levelOf pin) (webRecdata j rb.angles).2 = none := by
    refine List.findSome?_eq_none_iff.2 ?_
    intro e he
    rcases mem_webRecdata (List.mem_reverse.1 he) with
      ⟨q, hq, level, rfl⟩ | ⟨-, unit, us, rfl⟩ | ⟨ticks, rfl⟩
    · have hne : q ≠ pin := fun heq => h (heq ▸ hq)
      simp [Effect.levelOf, hne]
    · rfl
    · rfl
  rw [Robot.process, Hardware.run_level, hnone]
  rfl

/-- The pins of different subsystems are different. -/
theorem Subsystem.pins_disjoint {S T : Subsystem} (h : S ≠ T) {pin : Pin} (hpin : pin ∈ S.pins) :
    pin ∉ T.pins := by
  have hall : ∀ S T : Subsystem, S ≠ T → ∀ pin ∈ S.pins, pin ∉ T.pins := by
    intro S T
    cases S <;> cases T <;> decide
  exact hall S T h pin hpin

/-- **Frame, pins.** A record leaves the pins of every subsystem that it does not address. -/
theorem Robot.process_pins {S : Subsystem} (h : S ≠ j.record.addresses) :
    S.pins.map (rb.process j).hw.level = S.pins.map rb.hw.level :=
  List.map_congr_left fun _ hpin => Robot.process_level (Subsystem.pins_disjoint h hpin)

/-- A record that does not address the gimbal keeps the tracked angles, and makes the same calls
whatever they are. -/
theorem webRecdata_of_not_gimbal (h : j.record.addresses ≠ .gimbal) (g' : Angles) :
    webRecdata j g = (g, (webRecdata j g').2) := by
  unfold URLData.addresses at h
  unfold webRecdata Cmd.andThen
  cases hd : dispatch j.record.urlBuff01 with
  | none => rfl
  | some c =>
    cases c with
    | gimbal => rw [hd] at h; exact absurd rfl h
    | blaste | fireSt | pluck1 | luck2P | robott | rocker => rfl

/-- **Frame, gimbal.** A record that does not address the gimbal leaves the tracked angles and the
servos. -/
theorem Robot.process_gimbal (h : j.record.addresses ≠ .gimbal) :
    (rb.process j).angles = rb.angles ∧ (rb.process j).hw.duty = rb.hw.duty := by
  constructor
  · show (webRecdata j rb.angles).1 = rb.angles
    rw [webRecdata_of_not_gimbal h rb.angles]
  · funext unit
    have hnone : lastSome (Effect.dutyOf unit) (webRecdata j rb.angles).2 = none := by
      refine List.findSome?_eq_none_iff.2 ?_
      intro e he
      rcases mem_webRecdata (List.mem_reverse.1 he) with
        ⟨q, -, level, rfl⟩ | ⟨hg, -⟩ | ⟨ticks, rfl⟩
      · rfl
      · exact absurd hg h
      · rfl
    rw [Robot.process, Hardware.run_duty, hnone]
    rfl

/-! ## The chassis -/

/-- The first five bytes of the commands' literals. -/
def commandPrefixes : List (List UInt8) :=
  [ascii "/gimb", ascii "/blas", ascii "/fire", ascii "/Pluc", ascii "/luck", ascii "/robo",
    ascii "/rock"]

/-- The movement that a record selects: the stop when its first five bytes are those of no command,
the movement of its cell when it is a joystick record. -/
def Job.selects (j : Job) : Option ChassisPattern :=
  let five := j.record.myURLString.toList.take 5
  if five ∉ commandPrefixes then some .stop
  else if five = ascii "/rock" then cellPattern (chassisX j.myvalue) (chassisY j.myvalue)
  else none

/-- The prefixes are those of the commands. -/
theorem mem_commandPrefixes {five : List UInt8} :
    five ∈ commandPrefixes ↔ ∃ c : Command, five = c.literal.take 5 := by
  constructor
  · intro h
    simp only [commandPrefixes, List.mem_cons, List.not_mem_nil, or_false] at h
    rcases h with rfl | rfl | rfl | rfl | rfl | rfl | rfl
    · exact ⟨.gimbal, by decide⟩
    · exact ⟨.blaste, by decide⟩
    · exact ⟨.fireSt, by decide⟩
    · exact ⟨.pluck1, by decide⟩
    · exact ⟨.luck2P, by decide⟩
    · exact ⟨.robott, by decide⟩
    · exact ⟨.rocker, by decide⟩
  · rintro ⟨c, rfl⟩
    cases c <;> decide

/-- The movement of a record, by its branch. -/
theorem Job.selects_eq (j : Job) :
    j.selects = match dispatch j.record.urlBuff01 with
      | none => some .stop
      | some .rocker => cellPattern (chassisX j.myvalue) (chassisY j.myvalue)
      | some _ => none := by
  have hfive := j.record.take_urlBuff01
  unfold Job.selects
  rw [← hfive]
  cases hd : dispatch j.record.urlBuff01 with
  | none =>
    refine if_pos ?_
    intro hmem
    obtain ⟨c, hc⟩ := mem_commandPrefixes.1 hmem
    exact dispatch_eq_none_iff.1 hd c hc
  | some c =>
    have hc := dispatch_eq_some_iff.1 hd
    have hmem := mem_commandPrefixes.2 ⟨c, hc⟩
    rw [if_neg (not_not.2 hmem), hc]
    cases c with
    | rocker => exact if_pos (by decide)
    | gimbal | blaste | fireSt | pluck1 | luck2P | robott => exact if_neg (by decide)

/-- **The chassis is a register.** A record that selects a movement leaves exactly its levels, and
every other record leaves the levels alone. -/
theorem Robot.process_chassisPins (rb : Robot) (j : Job) :
    chassisPins (rb.process j).hw =
      (j.selects.map ChassisPattern.pins).getD (chassisPins rb.hw) := by
  rw [j.selects_eq]
  have hframe (h : Subsystem.chassis ≠ j.record.addresses) :
      chassisPins (rb.process j).hw = chassisPins rb.hw := Robot.process_pins h
  unfold URLData.addresses at hframe
  have hdelay (hw : Hardware) : chassisPins (hw.run [.vTaskDelay 6]) = chassisPins hw := rfl
  cases hd : dispatch j.record.urlBuff01 with
  | none =>
    simp only [Robot.process, webRecdata, hd, Cmd.andThen, Cmd.emit, Hardware.run_append, hdelay]
    exact ChassisPattern.stop.chassisPins_run rb.hw
  | some c =>
    cases c with
    | gimbal | blaste | fireSt | pluck1 | luck2P => exact hframe (by rw [hd]; decide)
    | robott => simp [Robot.process, webRecdata, hd, Cmd.andThen, Cmd.emit, Cmd.skip, hdelay]
    | rocker =>
      simp only [Robot.process, webRecdata, hd, Cmd.andThen, Cmd.emit, Hardware.run_append, hdelay,
        rockerBranch, chassisPins_rockerRegions]
      cases cellPattern (chassisX j.myvalue) (chassisY j.myvalue) <;> rfl

/-! ## The gimbal -/

/-- The gimbal button that a record is for. -/
def Job.press (j : Job) : Option GimbalPress :=
  if dispatch j.record.urlBuff01 = some .gimbal then gimbalPress j.myvalue else none

/-- **What a button does.** It moves its axis by its step within the range of the servo and writes
the pulse of the new angle; the other axis keeps its angle and its pulse. -/
theorem Robot.process_axis (rb : Robot) (j : Job) (axis : Axis) :
    ((rb.process j).angles.get axis, (rb.process j).hw.duty axis.unit) =
      match j.press with
      | some p =>
        if p.axis = axis then
          (clampAngle (rb.angles.get axis + p.step),
            pulse (clampAngle (rb.angles.get axis + p.step)))
        else (rb.angles.get axis, rb.hw.duty axis.unit)
      | none => (rb.angles.get axis, rb.hw.duty axis.unit) := by
  have hunit {a b : Axis} (h : a ≠ b) : a.unit ≠ b.unit := by
    cases a <;> cases b <;> first | exact absurd rfl h | decide
  have hlast (u u' : McpwmUnit) (us : UInt32) :
      lastSome (Effect.dutyOf u)
        ([.mcpwmSetDutyInUs u' us, .vTaskDelay 10] ++ [.vTaskDelay 6]) =
        if u' = u then some us else none := by
    by_cases h : u' = u <;> simp [lastSome, List.findSome?_cons, Effect.dutyOf, h]
  unfold Job.press
  by_cases hd : dispatch j.record.urlBuff01 = some .gimbal
  · rw [if_pos hd]
    simp only [Robot.process, webRecdata, hd, Cmd.andThen, Cmd.emit, gimbalBranch_eq]
    cases hp : gimbalPress j.myvalue with
    | none => rfl
    | some p =>
      simp only [Option.elim_some, moveAxis_eq, Hardware.run_duty, hlast]
      by_cases hax : p.axis = axis
      · subst hax
        simp
      · rw [if_neg hax, if_neg (hunit hax), Angles.get_set_ne _ _ (Ne.symm hax)]
        rfl
  · rw [if_neg hd]
    have haddr : j.record.addresses ≠ .gimbal := mt URLData.addresses_eq_gimbal_iff.1 hd
    have hframe : (rb.process j).angles = rb.angles ∧ (rb.process j).hw.duty = rb.hw.duty :=
      Robot.process_gimbal haddr
    rw [hframe.1, hframe.2]

end

end InfantryRM

import InfantryRM.Robot.Process
import InfantryRM.Web.Page

/-!
# Movement patterns and stop commands

Over a run of `web_recdata` the chassis is always in one whole movement, that of the latest record
that selects one (`chassis_latest_selection`): every record either writes all eight pins or none of
them.

A stop command should leave its motors standing still (`StopCommand.motors`). The launcher's two
stops and the release of the joystick do. The stop button does not: its branch is recognised but
calls no driver, so the chassis goes on with the movement that it had (`stop_iff`).
-/

namespace InfantryRM

open Run CString Strtol

/-! ## The latest movement -/

/-- A cell with a negative argument selects nothing, since C's division and remainder truncate. -/
theorem cellPattern_of_neg {v : Int} (hv : v < 0) :
    cellPattern (chassisX v) (chassisY v) = none := by
  have hdm : 100 * chassisX v + chassisY v = v := Int.mul_tdiv_add_tmod v 100
  cases h : cellPattern (chassisX v) (chassisY v) with
  | none => rfl
  | some p =>
    obtain ⟨hx, -, hy, -⟩ := cellPattern_isSome_iff.1 (Option.isSome_of_eq_some h)
    omega

/-- The chassis pins over a run: the levels of the latest selected movement. -/
theorem Robot.run_chassisPins (rb : Robot) (js : List Job) :
    chassisPins (rb.run js).hw =
      ((lastSome Job.selects js).map ChassisPattern.pins).getD (chassisPins rb.hw) := by
  induction js using List.reverseRecOn with
  | nil => rfl
  | append_singleton js j ih =>
    have hstep : rb.run (js ++ [j]) = (rb.run js).process j := List.foldl_concat ..
    rw [hstep, Robot.process_chassisPins, ih, lastSome_append_singleton]
    cases j.selects <;> rfl

/-- At boot every chassis pin is low. -/
theorem chassisPins_boot : chassisPins boot.hw = List.replicate 8 false := by decide

/-- **One whole movement.** After every run from boot the eight chassis pins are all low when no
record has selected a movement, and otherwise they are exactly the levels of the movement that the
latest selecting record selects, and of no other; a negative argument selects nothing. -/
theorem chassis_latest_selection (js : List Job) :
    (match lastSome Job.selects js with
      | none => chassisPins (boot.run js).hw = List.replicate 8 false
      | some p => chassisPins (boot.run js).hw = p.pins ∧
          chassisPins (boot.run js).hw ≠ List.replicate 8 false ∧
          ∀ q : ChassisPattern, chassisPins (boot.run js).hw = q.pins → q = p) ∧
      ∀ j : Job, j.record.myURLString.toList.take 5 = ascii "/rock" → j.myvalue < 0 →
        j.selects = none := by
  refine ⟨?_, ?_⟩
  · have hrun := Robot.run_chassisPins boot js
    cases hl : lastSome Job.selects js with
    | none =>
      rw [hl] at hrun
      exact hrun.trans chassisPins_boot
    | some p =>
      rw [hl] at hrun
      have hpins : chassisPins (boot.run js).hw = p.pins := hrun
      refine ⟨hpins, ?_, ?_⟩
      · rw [hpins]
        exact p.pins_ne_powerOn
      · intro q hq
        rw [hpins] at hq
        exact (ChassisPattern.pins_injective hq).symm
  · intro j hfive hneg
    have hmem : ascii "/rock" ∈ commandPrefixes := by decide
    unfold Job.selects
    rw [hfive, if_neg (not_not.2 hmem), if_pos rfl]
    exact cellPattern_of_neg hneg

/-! ## Stop commands -/

/-- The stop commands that the page can issue. -/
inductive StopCommand
  | stopButton
  | joystickRelease
  | fireStop
  | feederStop
  deriving DecidableEq, Repr

/-- The path and query of a stop command: three buttons, and the release of the joystick, which
requests the cell of the canvas centre. -/
def StopCommand.url : StopCommand → List UInt8
  | .stopButton => Button.robotButton.query
  | .joystickRelease => ascii "/rocker?val=0505"
  | .fireStop => Button.blasterButton1.query
  | .feederStop => Button.blasterButton3.query

/-- The motors that a stop command is meant to stop. -/
def StopCommand.motors : StopCommand → List Motor
  | .stopButton | .joystickRelease => chassisMotors
  | .fireStop => [frictionMotor]
  | .feederStop => [feederMotor]

/-- The record of a job starts with the URL of a stop command. -/
def Job.IsStop (j : Job) (c : StopCommand) : Prop := c.url <+: j.record.myURLString.toList

instance (j : Job) (c : StopCommand) : Decidable (j.IsStop c) :=
  inferInstanceAs (Decidable (c.url <+: j.record.myURLString.toList))

/-- When a stop command has its effect: the stop button when the chassis already stands still, the
release of the joystick then and when the byte after `val_Buff_02` is no digit, the launcher's stops
always. -/
def StopCommand.Effective : StopCommand → List UInt8 → Hardware → Prop
  | .stopButton, _, hw => ChassisStopped hw
  | .joystickRelease, tail, hw => (∀ b ∈ tail.head?, isDigit b = false) ∨ ChassisStopped hw
  | .fireStop, _, _ | .feederStop, _, _ => True

section
variable {j : Job} {rb : Robot}

/-- Whether the chassis stands still after a record depends on the movement it selects. -/
theorem Robot.chassisStopped_process_iff (rb : Robot) (j : Job) :
    ChassisStopped (rb.process j).hw ↔
      j.selects = some .stop ∨ (j.selects = none ∧ ChassisStopped rb.hw) := by
  have hpins := rb.process_chassisPins j
  cases hs : j.selects with
  | none =>
    rw [hs] at hpins
    simpa using chassisStopped_congr hpins
  | some p =>
    rw [hs] at hpins
    have hrun : chassisPins (rb.process j).hw = chassisPins (powerOn.run p.drive) := hpins
    rw [chassisStopped_congr hrun, p.chassisStopped_run_iff]
    simp

/-- A digit after the cell of a released joystick moves the cell out of the grid. -/
theorem cellPattern_release {b : UInt8} {t : List UInt8} (hb : isDigit b = true) :
    cellPattern (chassisX (atoi (ascii "0505" ++ b :: t)))
      (chassisY (atoi (ascii "0505" ++ b :: t))) = none := by
  have hdig : ∀ c ∈ ascii "0505", isDigit c = true := by decide +kernel
  have hle := le_atoi_digits_append (t := t) (by decide) hdig hb
  have hmin : min (10 * digitsValue (ascii "0505") : Int) longMax = 5050 := by decide
  rw [hmin] at hle
  refine Option.not_isSome_iff_eq_none.1 ?_
  intro h
  obtain ⟨-, hx, -⟩ := cellPattern_isSome_iff.1 h
  rw [chassisX_of_nonneg (by omega)] at hx
  omega

/-- The release of the joystick selects the stop, unless a digit follows its cell in memory. -/
theorem Job.selects_release (hj : j.IsStop .joystickRelease) :
    j.selects = if ∀ b ∈ j.tail.head?, isDigit b = false then some .stop else none := by
  have hd : dispatch j.record.urlBuff01 = some .rocker :=
    (URLData.dispatch_of_prefix hj (by decide)).2 (by decide)
  have hlen : (StopCommand.joystickRelease).url.length = 16 := by decide
  have hdrop : (StopCommand.joystickRelease).url.drop 12 = ascii "0505" := by decide
  have hval : j.record.valBuff02 = ascii "0505" :=
    (URLData.valBuff02_of_prefix hj hlen).trans hdrop
  have hselects : j.selects = cellPattern (chassisX j.myvalue) (chassisY j.myvalue) := by
    rw [j.selects_eq, hd]
  rw [hselects, Job.myvalue, hval]
  split
  · next htail =>
    have hdig : ∀ c ∈ ascii "0505", isDigit c = true := by decide +kernel
    have hvalue := atoi_digits_append (by decide) hdig htail (by decide)
    rw [hvalue]
    decide
  · next htail =>
    cases ht : j.tail with
    | nil =>
      rw [ht] at htail
      exact absurd (by simp) htail
    | cons b t =>
      rw [ht] at htail
      have hb : isDigit b = true := by
        by_contra hb
        exact htail fun c hc => by cases hc; exact Bool.not_eq_true _ ▸ hb
      exact cellPattern_release hb

/-- A command that only calls a driver leaves a motor with both inputs high when the driver does. -/
theorem Robot.process_stopped {es : List Effect} {m : Motor}
    (hweb : ∀ g, webRecdata j g = (g, es))
    (h1 : lastSome (Effect.levelOf m.in1) es = some true)
    (h2 : lastSome (Effect.levelOf m.in2) es = some true) :
    m.Stopped (rb.process j).hw := by
  unfold Motor.Stopped Robot.process
  simp only [hweb, Hardware.run_level, h1, h2]
  rfl

/-- **Stop commands.** After any run from boot, a record that starts with the URL of a stop command
leaves every motor that the command is meant to stop with IN1 = IN2 exactly when the command is
effective. -/
theorem stop_iff (js : List Job) {j : Job} {c : StopCommand} (hj : j.IsStop c) :
    (∀ m ∈ c.motors, m.Stopped ((boot.run js).process j).hw) ↔
      c.Effective j.tail (boot.run js).hw := by
  generalize boot.run js = rb
  have hchassis : (∀ m ∈ chassisMotors, m.Stopped (rb.process j).hw) ↔ _ :=
    rb.chassisStopped_process_iff j
  cases c with
  | stopButton =>
    have hd : dispatch j.record.urlBuff01 = some .robott :=
      (URLData.dispatch_of_prefix hj (by decide)).2 (by decide)
    have hsel : j.selects = none := by rw [j.selects_eq, hd]
    rw [hsel] at hchassis
    refine hchassis.trans ?_
    exact ⟨fun h => (h.resolve_left nofun).2, fun h => .inr ⟨rfl, h⟩⟩
  | joystickRelease =>
    rw [Job.selects_release hj] at hchassis
    refine hchassis.trans ?_
    show _ ↔ (∀ b ∈ j.tail.head?, isDigit b = false) ∨ ChassisStopped rb.hw
    split
    · next htail => exact iff_of_true (.inl rfl) (.inl htail)
    · next htail =>
      exact ⟨fun h => .inr (h.resolve_left nofun).2, fun h => .inr ⟨rfl, h.resolve_left htail⟩⟩
  | fireStop =>
    have hd : dispatch j.record.urlBuff01 = some .fireSt :=
      (URLData.dispatch_of_prefix hj (by decide)).2 (by decide)
    refine iff_of_true (fun m hm => ?_) trivial
    rw [List.mem_singleton.1 hm]
    have hweb (g : Angles) : webRecdata j g = (g, stopFireFriction ++ [.vTaskDelay 6]) := by
      simp only [webRecdata, hd, Cmd.andThen, Cmd.emit]
    exact Robot.process_stopped hweb (by decide) (by decide)
  | feederStop =>
    have hd : dispatch j.record.urlBuff01 = some .luck2P :=
      (URLData.dispatch_of_prefix hj (by decide)).2 (by decide)
    refine iff_of_true (fun m hm => ?_) trivial
    rw [List.mem_singleton.1 hm]
    have hweb (g : Angles) : webRecdata j g = (g, stopFirePluck ++ [.vTaskDelay 6]) := by
      simp only [webRecdata, hd, Cmd.andThen, Cmd.emit]
    exact Robot.process_stopped hweb (by decide) (by decide)

end

/-- The record of the joystick's cell above the centre, and that of the stop button. -/
def forwardJob : Job := ⟨targetRecord (ascii "/rocker?val=0500") (by decide), []⟩
def stopButtonJob : Job := ⟨targetRecord (ascii "/robott?val=0000") (by decide), []⟩

/-- The stop button leaves a chassis that drives forward driving. -/
theorem stopButton_drives : ¬ ∀ (js : List Job) (j : Job) (c : StopCommand), j.IsStop c →
    ∀ m ∈ c.motors, m.Stopped ((boot.run js).process j).hw := by
  intro h
  have hstop : stopButtonJob.IsStop .stopButton := by decide
  have hmotor := h [forwardJob] stopButtonJob .stopButton hstop motorA (by decide)
  revert hmotor
  decide +kernel

/-- The stop of the friction wheel works while the wheel runs. -/
theorem stop_iff_fireStop :
    (∀ m ∈ StopCommand.fireStop.motors, m.Stopped ((boot.run
      [⟨targetRecord (ascii "/blaste?val=0000") (by decide), []⟩]).process
        ⟨targetRecord (ascii "/fireSt?val=0000") (by decide), []⟩).hw) ↔
      StopCommand.fireStop.Effective [] (boot.run
        [⟨targetRecord (ascii "/blaste?val=0000") (by decide), []⟩]).hw :=
  stop_iff [⟨targetRecord (ascii "/blaste?val=0000") (by decide), []⟩]
    (j := ⟨targetRecord (ascii "/fireSt?val=0000") (by decide), []⟩) (by decide)

end InfantryRM

import InfantryRM.Robot.Process
import InfantryRM.Web.Page

/-!
# Tracked angles and servo pulses

`web_recdata` tracks the angle of each axis in its own copy of a variable that starts at 135
degrees, while the boot code moves the servos to 235 and 90 degrees without telling it. Until the
first press of a gimbal button of an axis the servo therefore stands elsewhere than the tracked
angle says; that press writes the pulse of the tracked angle, and from then on the two agree
(`tracks_iff_pressed`). The first press jumps, every later one moves the servo by at most one step
in its direction (`pressMoves_iff_tracks`).
-/

namespace InfantryRM

open Run CString Strtol

/-- The servo of an axis stands at the pulse of the tracked angle. -/
def Robot.Tracks (rb : Robot) (axis : Axis) : Prop :=
  rb.hw.duty axis.unit = pulse (rb.angles.get axis)

/-- The job presses a gimbal button of an axis. -/
def Job.Presses (j : Job) (axis : Axis) : Prop := ∃ p, j.press = some p ∧ p.axis = axis

/-- Every button press of an axis changes its pulse by at most the width of a step, and not against
the pressed direction. -/
def Robot.PressMoves (rb : Robot) (axis : Axis) : Prop :=
  ∀ (j : Job) (p : GimbalPress), j.press = some p → p.axis = axis →
    |(((rb.process j).hw.duty axis.unit).toNat : Int) - (rb.hw.duty axis.unit).toNat| ≤ 75 ∧
      0 ≤ ((((rb.process j).hw.duty axis.unit).toNat : Int) - (rb.hw.duty axis.unit).toNat) * p.step

section
variable {j : Job} {axis : Axis} {p : GimbalPress}

/-- A press of an axis, on the axis. -/
theorem Robot.process_of_press (rb : Robot) (hp : j.press = some p) (hax : p.axis = axis) :
    (rb.process j).angles.get axis = clampAngle (rb.angles.get axis + p.step) ∧
      (rb.process j).hw.duty axis.unit = pulse (clampAngle (rb.angles.get axis + p.step)) := by
  have h := rb.process_axis j axis
  rw [hp] at h
  exact Prod.mk.inj (h.trans (if_pos hax))

/-- Any other record, on the axis. -/
theorem Robot.process_of_not_presses (rb : Robot) (h : ¬ j.Presses axis) :
    ((rb.process j).angles.get axis, (rb.process j).hw.duty axis.unit) =
      (rb.angles.get axis, rb.hw.duty axis.unit) := by
  rw [rb.process_axis j axis]
  cases hp : j.press with
  | none => rfl
  | some p => exact if_neg fun hax => h ⟨p, hp, hax⟩

/-- The tracked angles stay in the range of the servos. -/
theorem Robot.run_angles (js : List Job) (axis : Axis) :
    0 ≤ (boot.run js).angles.get axis ∧ (boot.run js).angles.get axis ≤ servoMaxDegree := by
  have hboot : 0 ≤ boot.angles.get axis ∧ boot.angles.get axis ≤ servoMaxDegree := by
    cases axis <;> decide
  refine List.foldlRecOn (motive := fun rb : Robot => 0 ≤ rb.angles.get axis ∧
    rb.angles.get axis ≤ servoMaxDegree) js _ hboot fun rb ih j _ => ?_
  by_cases h : j.Presses axis
  · obtain ⟨p, hp, hax⟩ := h
    rw [(rb.process_of_press hp hax).1]
    exact ⟨clampAngle_nonneg _, clampAngle_le _⟩
  · rw [(Prod.mk.inj (rb.process_of_not_presses h)).1]
    exact ih

/-- A press makes the servo stand at the tracked angle. -/
theorem Robot.Tracks.of_press (rb : Robot) (h : j.Presses axis) : (rb.process j).Tracks axis := by
  obtain ⟨p, hp, hax⟩ := h
  obtain ⟨hangle, hduty⟩ := rb.process_of_press hp hax
  rw [Robot.Tracks, hangle, hduty]

/-- Other records keep the servo where it stands. -/
theorem Robot.Tracks.of_not_press {rb : Robot} (h : ¬ j.Presses axis) (ht : rb.Tracks axis) :
    (rb.process j).Tracks axis := by
  obtain ⟨hangle, hduty⟩ := Prod.mk.inj (rb.process_of_not_presses h)
  rwa [Robot.Tracks, hangle, hduty]

/-- Without a press the servo keeps its boot pulse and the tracked angle its initial value. -/
theorem Robot.run_of_no_press {js : List Job} (h : ¬ ∃ j ∈ js, j.Presses axis) :
    (boot.run js).angles.get axis = servoMidDegree ∧
      (boot.run js).hw.duty axis.unit = boot.hw.duty axis.unit := by
  have hkeep : ∀ j ∈ js, ∀ rb : Robot, ((rb.process j).angles.get axis,
      (rb.process j).hw.duty axis.unit) = (rb.angles.get axis, rb.hw.duty axis.unit) :=
    fun j hj rb => rb.process_of_not_presses fun hp => h ⟨j, hj, hp⟩
  have hframe := foldl_frame
    (fun rb : Robot => (rb.angles.get axis, rb.hw.duty axis.unit)) hkeep boot
  obtain ⟨hangle, hduty⟩ := Prod.mk.inj hframe
  exact ⟨hangle.trans (by cases axis <;> rfl), hduty⟩

/-- **Tracking.** The servo of an axis stands at the pulse of the tracked angle after exactly those
runs that pressed a gimbal button of the axis. -/
theorem tracks_iff_pressed (js : List Job) (axis : Axis) :
    (boot.run js).Tracks axis ↔ ∃ j ∈ js, j.Presses axis := by
  refine ⟨?_, ?_⟩
  · intro ht
    by_contra h
    obtain ⟨hangle, hduty⟩ := Robot.run_of_no_press h
    rw [Robot.Tracks, hangle, hduty] at ht
    revert ht
    cases axis <;> decide
  · intro h
    exact foldl_latch (fun rb : Robot => rb.Tracks axis) (fun j => j.Presses axis)
      (fun rb _ => Robot.Tracks.of_press rb) (fun _ _ => Robot.Tracks.of_not_press) h boot

/-- A step of the tracked angle, in pulse widths. -/
theorem pulse_step {a d : Int} (h0 : 0 ≤ a) (h : a ≤ servoMaxDegree) (hd : d = 10 ∨ d = -10) :
    |((pulse (clampAngle (a + d))).toNat : Int) - (pulse a).toNat| ≤ 75 ∧
      0 ≤ (((pulse (clampAngle (a + d))).toNat : Int) - (pulse a).toNat) * d := by
  have hmax : (servoMaxDegree : Int) = 270 := rfl
  rw [pulse_toNat (clampAngle_nonneg _) (clampAngle_le _), pulse_toNat h0 h, abs_le]
  unfold clampAngle
  rw [hmax] at h ⊢
  rcases hd with rfl | rfl
  · refine ⟨⟨by omega, by omega⟩, by omega⟩
  · refine ⟨⟨by omega, by omega⟩, by omega⟩

/-- The records of the buttons that move an axis up. -/
def pressJob : Axis → Job
  | .yaw => ⟨targetRecord (Button.gimbalLEFTButton).query (by decide), []⟩
  | .pitch => ⟨targetRecord (Button.gimbalDOWNButton).query (by decide), []⟩

/-- A servo that stands at the tracked angle moves by steps; one at its boot position jumps. -/
theorem pressMoves_iff_tracks (js : List Job) (axis : Axis) :
    (boot.run js).PressMoves axis ↔ (boot.run js).Tracks axis := by
  obtain ⟨h0, hmax⟩ := Robot.run_angles js axis
  refine ⟨?_, ?_⟩
  · intro hmoves
    by_contra ht
    obtain ⟨hangle, hduty⟩ := Robot.run_of_no_press (mt (tracks_iff_pressed js axis).2 ht)
    have hpress : (pressJob axis).press = some ⟨axis, 10⟩ := by cases axis <;> decide
    have hjump := (hmoves (pressJob axis) _ hpress rfl).1
    rw [(Robot.process_of_press _ hpress rfl).2, hangle, hduty] at hjump
    revert hjump
    cases axis <;> decide
  · intro ht j p hp hax
    rw [(Robot.process_of_press _ hp hax).2, ht]
    refine pulse_step h0 hmax ?_
    unfold Job.press at hp
    split at hp
    · exact gimbalPress_step hp
    · cases hp

/-- **The servo follows the buttons.** After a run from boot the servo of an axis stands at the
pulse of the tracked angle, and every press of the axis moves it by at most one step in the pressed
direction, exactly when the run has pressed a gimbal button of the axis. Each of the two fails
before that. -/
theorem gimbal_follows_iff (js : List Job) (axis : Axis) :
    ((boot.run js).Tracks axis ↔ ∃ j ∈ js, j.Presses axis) ∧
      ((boot.run js).PressMoves axis ↔ ∃ j ∈ js, j.Presses axis) :=
  ⟨tracks_iff_pressed js axis, (pressMoves_iff_tracks js axis).trans (tracks_iff_pressed js axis)⟩

/-- At boot the yaw servo stands at 235 degrees, the tracked angle is 135. -/
theorem boot_not_tracks : ¬ ∀ (js : List Job) (axis : Axis),
    (boot.run js).Tracks axis ∧ (boot.run js).PressMoves axis := by
  intro h
  have hyaw : boot.hw.duty .unit0 = pulse 135 := (h [] .yaw).1
  revert hyaw
  decide

end

end InfantryRM

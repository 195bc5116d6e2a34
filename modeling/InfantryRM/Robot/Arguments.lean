import InfantryRM.Robot.Chassis

/-!
# Unknown commands and malformed arguments

The dispatcher compares five bytes of the URL. A URL of no command stops the chassis and touches
nothing else; a URL that shares five bytes with a command is that command, whatever follows
(`dispatch_five_bytes`).

A joystick or gimbal record whose argument the page cannot send should do no harm
(`Robot.Harmless`): the gimbal stays and the chassis stands still. Nothing checks the argument.
`atoi` gives a value for every text, 0 for what is no number, and 0 is itself a cell and a button; a
value outside the grid selects nothing, so a driving chassis drives on. When no harm is done is said
in `malformed_harmless_iff`.

The four bytes of an argument have no terminator, and the page sends four digits, so the scan goes
on into the memory behind them. Which records say by themselves what they do is said in
`ownArgument_iff`.
-/

namespace InfantryRM

open Run CString Strtol

/-! ## Unknown commands -/

section
variable {rb : Robot} {j : Job}

/-- **The default.** A record of no command leaves the chassis in the stop pattern, and the launcher
and the gimbal as they are. -/
theorem Robot.process_default (hd : dispatch j.record.urlBuff01 = none) :
    chassisPins (rb.process j).hw = ChassisPattern.stop.pins ∧
      (∀ S : Subsystem, S ≠ .chassis →
        S.pins.map (rb.process j).hw.level = S.pins.map rb.hw.level) ∧
      (rb.process j).angles = rb.angles ∧ (rb.process j).hw.duty = rb.hw.duty := by
  have haddr : j.record.addresses = .chassis := by rw [URLData.addresses, hd]; rfl
  refine ⟨?_, fun S hS => Robot.process_pins (haddr ▸ hS), Robot.process_gimbal ?_⟩
  · rw [rb.process_chassisPins, j.selects_eq, hd]
    rfl
  · rw [haddr]
    exact nofun

end

/-- **The dispatcher.** A command's branch is taken exactly when the first five bytes of the URL are
those of the command's name; so it is for a URL with the whole name and `?val=`. Every other URL
stops the chassis and leaves the friction wheel, the feeder and the gimbal. -/
theorem dispatch_five_bytes (rb : Robot) (j : Job) :
    (∀ c : Command, dispatch j.record.urlBuff01 = some c ↔
      j.record.myURLString.toList.take 5 = c.literal.take 5) ∧
    (∀ c : Command, c.literal ++ ascii "val=" <+: j.record.myURLString.toList →
      dispatch j.record.urlBuff01 = some c) ∧
    ((∀ c : Command, j.record.myURLString.toList.take 5 ≠ c.literal.take 5) →
      chassisPins (rb.process j).hw = ChassisPattern.stop.pins ∧
        (∀ S : Subsystem, S ≠ .chassis →
          S.pins.map (rb.process j).hw.level = S.pins.map rb.hw.level) ∧
        (rb.process j).angles = rb.angles ∧ (rb.process j).hw.duty = rb.hw.duty) := by
  have hfive := j.record.take_urlBuff01
  refine ⟨?_, ?_, ?_⟩
  · intro c
    rw [dispatch_eq_some_iff, hfive]
  · intro c hc
    refine (URLData.dispatch_of_prefix hc ?_).2 ?_
    · cases c <;> decide
    · cases c <;> decide
  · intro hnone
    refine Robot.process_default (dispatch_eq_none_iff.2 fun c => ?_)
    rw [hfive]
    exact hnone c

/-- `/fireworks` stops the friction wheel. -/
theorem fireworks_dispatched : ¬ ∀ (j : Job) (c : Command), dispatch j.record.urlBuff01 = some c →
    c.literal ++ ascii "val=" <+: j.record.myURLString.toList := by
  intro h
  have hfire := h ⟨targetRecord (ascii "/fireworks") (by decide), []⟩ .fireSt (by decide)
  revert hfire
  decide

/-! ## Malformed arguments -/

/-- Processing the job leaves the gimbal, and the chassis standing still. -/
def Robot.Harmless (rb : Robot) (j : Job) : Prop :=
  (rb.process j).angles = rb.angles ∧ (rb.process j).hw.duty = rb.hw.duty ∧
    ChassisStopped (rb.process j).hw

/-- The values that the page sends to a command with an argument: a cell of the joystick, one of the
four gimbal buttons. -/
def Command.PageValue : Command → Nat → Prop
  | .rocker, n => n / 100 ≤ 10 ∧ n % 100 ≤ 10
  | .gimbal, n => n ≤ 3
  | _, _ => True

instance : (c : Command) → (n : Nat) → Decidable (c.PageValue n)
  | .rocker, n => inferInstanceAs (Decidable (n / 100 ≤ 10 ∧ n % 100 ≤ 10))
  | .gimbal, n => inferInstanceAs (Decidable (n ≤ 3))
  | .blaste, _ | .fireSt, _ | .pluck1, _ | .luck2P, _ | .robott, _ => .isTrue trivial

/-- The URL of the record starts with the command's name, and its argument is not four decimal
digits of a value that the page sends. -/
structure Job.Malformed (j : Job) (c : Command) : Prop where
  name : c.literal.take 7 <+: j.record.myURLString.toList
  argument : ¬ ((∀ b ∈ j.record.valBuff02, isDigit b = true) ∧
    c.PageValue (digitsValue j.record.valBuff02))

/-- The button moves an axis that is at the end of its range already, with the servo there. -/
def Robot.AtEndStop (rb : Robot) (p : GimbalPress) : Prop :=
  rb.angles.get p.axis = (if 0 < p.step then (servoMaxDegree : Int) else 0) ∧
    rb.hw.duty p.axis.unit = pulse (rb.angles.get p.axis)

/-- When a record of a command with an argument does no harm, by the value of the argument. -/
def Command.HarmlessWhen (rb : Robot) (v : Int) : Command → Prop
  | .rocker => v = 505 ∨ ((v < 0 ∨ 10 < v / 100 ∨ 10 < v % 100) ∧ ChassisStopped rb.hw)
  | .gimbal => (∀ p ∈ gimbalPress v, rb.AtEndStop p) ∧ ChassisStopped rb.hw
  | _ => False

/-- The cell in the middle is the only one that stops the chassis. -/
theorem cellPattern_eq_stop_iff {v : Int} :
    cellPattern (chassisX v) (chassisY v) = some .stop ↔ v = 505 := by
  refine ⟨?_, fun h => by subst h; decide⟩
  intro h
  rcases lt_or_ge v 0 with hv | hv
  · rw [cellPattern_of_neg hv] at h
    cases h
  · rw [chassisX_of_nonneg hv, chassisY_of_nonneg hv] at h
    unfold cellPattern at h
    split_ifs at h <;> first | omega | exact absurd h (by decide)

/-- The arguments of no cell. -/
theorem cellPattern_eq_none_iff {v : Int} :
    cellPattern (chassisX v) (chassisY v) = none ↔ v < 0 ∨ 10 < v / 100 ∨ 10 < v % 100 := by
  rcases lt_or_ge v 0 with hv | hv
  · exact iff_of_true (cellPattern_of_neg hv) (.inl hv)
  · rw [← Option.not_isSome_iff_eq_none, cellPattern_isSome_iff, chassisX_of_nonneg hv,
      chassisY_of_nonneg hv]
    omega

/-- A step of an axis leaves its angle only at the end of the range that it moves to. -/
theorem clampAngle_step_eq_iff {a : Int} {p : GimbalPress} (hp : p.step = 10 ∨ p.step = -10) :
    clampAngle (a + p.step) = a ↔ a = if 0 < p.step then (servoMaxDegree : Int) else 0 := by
  have hmax : (servoMaxDegree : Int) = 270 := rfl
  unfold clampAngle
  rw [hmax]
  rcases hp with hp | hp
  · rw [hp, if_pos (by decide)]
    omega
  · rw [hp, if_neg (by decide)]
    omega

/-- Two angle records agree when both axes do. -/
theorem Angles.ext_get {g g' : Angles} (h : ∀ axis, g.get axis = g'.get axis) : g = g' := by
  obtain ⟨y, p⟩ := g
  obtain ⟨y', p'⟩ := g'
  have hy : y = y' := h .yaw
  have hp : p = p' := h .pitch
  rw [hy, hp]

section
variable {rb : Robot} {j : Job}

/-- A gimbal record leaves the gimbal exactly when its button has no way to go. -/
theorem Robot.process_gimbal_iff :
    ((rb.process j).angles = rb.angles ∧ (rb.process j).hw.duty = rb.hw.duty) ↔
      ∀ p ∈ j.press, rb.AtEndStop p := by
  cases hp : j.press with
  | none =>
    have hkeep (axis : Axis) := rb.process_axis j axis
    simp only [hp, Prod.mk.injEq] at hkeep
    refine iff_of_true ⟨Angles.ext_get fun axis => (hkeep axis).1, funext fun unit => ?_⟩ nofun
    cases unit with
    | unit0 => exact (hkeep .yaw).2
    | unit1 => exact (hkeep .pitch).2
  | some p =>
    have hstep : p.step = 10 ∨ p.step = -10 := by
      unfold Job.press at hp
      split at hp
      · exact gimbalPress_step hp
      · cases hp
    have hmove := rb.process_axis j p.axis
    simp only [hp, if_true, Prod.mk.injEq] at hmove
    obtain ⟨hangle, hduty⟩ := hmove
    have hiff := clampAngle_step_eq_iff (a := rb.angles.get p.axis) hstep
    refine ⟨fun ⟨hangles, hduties⟩ q hq => ?_, ?_⟩
    · cases hq
      rw [hangles] at hangle
      rw [hduties, ← hangle] at hduty
      exact ⟨hiff.1 hangle.symm, hduty⟩
    · intro hend
      obtain ⟨hlimit, hpulse⟩ := hend p rfl
      have hclamp := hiff.2 hlimit
      rw [hclamp] at hangle hduty
      have hkeep (axis : Axis) : (rb.process j).angles.get axis = rb.angles.get axis ∧
          (rb.process j).hw.duty axis.unit = rb.hw.duty axis.unit := by
        rcases eq_or_ne p.axis axis with rfl | hne
        · exact ⟨hangle, hduty.trans hpulse.symm⟩
        · have hother := rb.process_axis j axis
          simpa only [hp, if_neg hne, Prod.mk.injEq] using hother
      refine ⟨Angles.ext_get fun axis => (hkeep axis).1, funext fun unit => ?_⟩
      cases unit with
      | unit0 => exact (hkeep .yaw).2
      | unit1 => exact (hkeep .pitch).2

/-- **Malformed arguments.** A joystick record with an argument that the page cannot send does no
harm exactly when `atoi` makes the middle cell of it, or makes no cell of it and the chassis stands
still already. A gimbal record does no harm exactly when the chassis stands still already and
`atoi` makes no button of the argument, or one whose axis is at the end of its range. -/
theorem malformed_harmless_iff (rb : Robot) {j : Job} {c : Command} (hj : j.Malformed c)
    (hc : c = .rocker ∨ c = .gimbal) : rb.Harmless j ↔ c.HarmlessWhen rb j.myvalue := by
  have hd : dispatch j.record.urlBuff01 = some c := by
    refine (URLData.dispatch_of_prefix hj.name ?_).2 ?_
    · cases c <;> decide
    · cases c <;> decide
  have hstop := rb.chassisStopped_process_iff j
  unfold Robot.Harmless
  rw [← and_assoc, Robot.process_gimbal_iff, hstop, j.selects_eq, Job.press, hd]
  rcases hc with rfl | rfl
  · show (∀ p ∈ (none : Option GimbalPress), rb.AtEndStop p) ∧
      (cellPattern _ _ = some ChassisPattern.stop ∨
        cellPattern _ _ = none ∧ ChassisStopped rb.hw) ↔ _
    rw [cellPattern_eq_stop_iff, cellPattern_eq_none_iff]
    exact and_iff_right nofun
  · show (∀ p ∈ gimbalPress j.myvalue, rb.AtEndStop p) ∧
      (none = some ChassisPattern.stop ∨ none = none ∧ ChassisStopped rb.hw) ↔ _
    refine and_congr_right ?_
    intro _
    exact ⟨fun h => (h.resolve_left nofun).2, fun h => .inr ⟨rfl, h⟩⟩

end

/-- The joystick's URL without an argument makes the chassis rotate. -/
theorem rocker_rotates : ¬ ∀ (rb : Robot) (j : Job) (c : Command), j.Malformed c →
    c = .rocker ∨ c = .gimbal → rb.Harmless j := by
  intro h
  have hrocker := h boot ⟨targetRecord (ascii "/rocker") (by decide), []⟩ .rocker
    ⟨by decide, by decide +kernel⟩ (.inl rfl)
  have hstopped := hrocker.2.2
  revert hstopped
  decide +kernel

/-- A gimbal record with the argument 9 does no harm at boot. -/
theorem malformed_harmless_iff_nine :
    boot.Harmless ⟨targetRecord (ascii "/gimbal?val=0009") (by decide), []⟩ ↔
      Command.gimbal.HarmlessWhen boot
        (Job.mk (targetRecord (ascii "/gimbal?val=0009") (by decide)) []).myvalue :=
  malformed_harmless_iff boot ⟨by decide, by decide +kernel⟩ (.inr rfl)

/-! ## The bytes behind the argument -/

/-- The branches that decode the argument. Source: `Myvalue` (`webserver.c:279`,
`webserver.c:404`). -/
def URLData.ReadsArgument (record : URLData) : Prop :=
  dispatch record.urlBuff01 = some .gimbal ∨ dispatch record.urlBuff01 = some .rocker

/-- The record alone decides what its branch decodes and does: no byte behind `val_Buff_02` is
read, the value is the same whatever these bytes are, and so are the new angles and the calls. -/
structure URLData.OwnArgument (record : URLData) : Prop where
  scan : record.ReadsArgument → ∀ tail, scanEnd (record.valBuff02 ++ tail) ≤ 3
  value : record.ReadsArgument → ∀ tail tail',
    (Job.mk record tail).myvalue = (Job.mk record tail').myvalue
  calls : ∀ tail tail' g, webRecdata ⟨record, tail⟩ g = webRecdata ⟨record, tail'⟩ g

/-- Behind its white space and its sign the argument has a byte that is no digit. -/
def URLData.ArgumentEnds (record : URLData) : Prop :=
  ∃ c ∈ afterSign (record.valBuff02.dropWhile isSpace), isDigit c = false

section
variable {record : URLData}

/-- The argument has four bytes. -/
theorem URLData.length_valBuff02 (record : URLData) : record.valBuff02.length = 4 := by
  rw [URLData.valBuff02, List.length_take, List.length_drop, List.Vector.toList_length]
  rfl

/-- The scan ends inside the argument when the argument has a byte to end it. -/
theorem URLData.argumentEnds_iff : record.ArgumentEnds ↔ scanRest record.valBuff02 ≠ [] := by
  rw [URLData.ArgumentEnds, scanRest, ne_eq, List.dropWhile_eq_nil_iff]
  simp

/-- Jobs with the same value are handled in the same way; a branch that decodes no argument needs
no value. -/
theorem webRecdata_congr {tail tail' : List UInt8}
    (h : record.ReadsArgument → (Job.mk record tail).myvalue = (Job.mk record tail').myvalue)
    (g : Angles) : webRecdata ⟨record, tail⟩ g = webRecdata ⟨record, tail'⟩ g := by
  unfold webRecdata
  cases hd : dispatch record.urlBuff01 with
  | none => rfl
  | some c =>
    cases c with
    | gimbal => simp only [h (.inl hd)]
    | rocker => simp only [h (.inr hd)]
    | blaste | fireSt | pluck1 | luck2P | robott => rfl

/-- **The argument.** What a record makes its branch decode and do depends on the record alone
exactly when the branch decodes no argument, or the argument has a byte that ends the scan. -/
theorem ownArgument_iff (record : URLData) :
    record.OwnArgument ↔ (record.ReadsArgument → record.ArgumentEnds) := by
  rw [URLData.argumentEnds_iff]
  constructor
  · intro h hreads hnil
    refine atoi_append_ne hnil (by rw [record.length_valBuff02]; decide) ?_
    have hvalue := h.value hreads [49] []
    rwa [Job.myvalue, Job.myvalue, List.append_nil] at hvalue
  · intro hends
    have hvalue (hreads : record.ReadsArgument) (tail tail' : List UInt8) :
        (Job.mk record tail).myvalue = (Job.mk record tail').myvalue := by
      rw [Job.myvalue, Job.myvalue, atoi_append (hends hreads), atoi_append (hends hreads)]
    refine ⟨?_, hvalue, ?_⟩
    · intro hreads tail
      have hrest := scanRest_append (hends hreads) tail
      have hpos := List.length_pos_of_ne_nil (hends hreads)
      rw [scanEnd, hrest, List.length_append, List.length_append, record.length_valBuff02]
      omega
    · intro tail tail' g
      exact webRecdata_congr (fun hreads => hvalue hreads tail tail') g

end

/-- A released joystick stops the chassis or leaves it driving, as the byte behind its argument has
it. -/
theorem release_depends_on_tail : ¬ ∀ (record : URLData) (tail tail' : List UInt8) (g : Angles),
    webRecdata ⟨record, tail⟩ g = webRecdata ⟨record, tail'⟩ g := by
  intro h
  have hrelease := congrArg Prod.snd
    (h (targetRecord (ascii "/rocker?val=0505") (by decide)) [] [48] Angles.init)
  revert hrelease
  decide +kernel

end InfantryRM

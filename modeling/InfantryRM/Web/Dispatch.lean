import InfantryRM.Lib.Strtol
import InfantryRM.Drivers.Motors
import InfantryRM.Drivers.Gimbal
import InfantryRM.Web.Handler

/-!
# The command dispatcher

`web_recdata` (`webserver.c:222`) takes one record at a time from the queue and runs one of seven
command branches, or the default, on it. `webRecdata` is the body of its loop as a function of the
tracked angles, which gives the new angles and the driver calls in order. A record's argument is
read with `atoi` from a 4-byte array without a terminator, so a job carries the bytes that lie in
memory after that array (`Job.tail`) next to its record.

A branch is taken when the first five bytes agree (`dispatch_eq_some_iff`). Of the four updates of
the gimbal branch at most one runs (`gimbalBranch_eq`), and it moves its axis within the range of
the servo (`moveAxis_eq`). The seven regions of the joystick branch are separate tests, so more
than one can run, and the last one decides (`chassisPins_rockerRegions`).
-/

namespace InfantryRM

open Run CString Strtol

/-! ## State -/

/-- The angles that `webserver.c` tracks: its own copies of the variables that `Gimbal.h:41` defines
in every file that includes it. -/
structure Angles where
  globalYawAngle : Int
  globalPitchAngle : Int
  deriving DecidableEq, Repr

def Angles.get (g : Angles) : Axis → Int
  | .yaw => g.globalYawAngle
  | .pitch => g.globalPitchAngle

def Angles.set (g : Angles) (a : Int) : Axis → Angles
  | .yaw => { g with globalYawAngle := a }
  | .pitch => { g with globalPitchAngle := a }

/-- The initial values. Source: `Gimbal.h:41`. -/
def Angles.init : Angles := ⟨servoMidDegree, servoMidDegree⟩

/-- The state that records act on. -/
structure Robot where
  angles : Angles
  hw : Hardware

/-- The state in which `web_recdata` takes its first record. `Chassis_Init` and `FIRE_Init`
configure pins and write no level. Source: `app_main` (`main.c:155`). -/
def boot : Robot := ⟨Angles.init, powerOn.run gimbalServerStart⟩

/-- A part of the loop body: from the tracked angles to new ones, and the driver calls. -/
abbrev Cmd := Angles → Angles × List Effect

def Cmd.skip : Cmd := fun g => (g, [])

def Cmd.emit (es : List Effect) : Cmd := fun g => (g, es)

/-- `if (b) { c }`. -/
def Cmd.when (b : Prop) [Decidable b] (c : Cmd) : Cmd := if b then c else Cmd.skip

/-- `c; d`. -/
def Cmd.andThen (c d : Cmd) : Cmd := fun g =>
  let r := c g
  let t := d r.1
  (t.1, r.2 ++ t.2)

/-! ## What the loop body reads -/

/-- A record with the bytes after `val_Buff_02` in memory at the time it is handled. -/
structure Job where
  record : URLData
  tail : List UInt8

/-- Source: `url_Buff_01` (`webserver.c:253`). -/
def URLData.urlBuff01 (record : URLData) : List UInt8 := record.myURLString.toList.take 7

/-- Source: `val_Buff_02` (`webserver.c:258`). -/
def URLData.valBuff02 (record : URLData) : List UInt8 := (record.myURLString.toList.drop 12).take 4

/-- Source: `Myvalue` (`webserver.c:279`, `webserver.c:404`). -/
def Job.myvalue (j : Job) : Int := atoi (j.record.valBuff02 ++ j.tail)

/-! ## The branches -/

/-- The commands that have a branch, in the order of the tests. -/
inductive Command
  | gimbal
  | blaste
  | fireSt
  | pluck1
  | luck2P
  | robott
  | rocker
  deriving DecidableEq, Repr

/-- The literal that a command's test compares with. -/
def Command.literal : Command → List UInt8
  | .gimbal => ascii "/gimbal?"
  | .blaste => ascii "/blaste?"
  | .fireSt => ascii "/fireSt?"
  | .pluck1 => ascii "/Pluck1?"
  | .luck2P => ascii "/luck2P?"
  | .robott => ascii "/robott?"
  | .rocker => ascii "/rocker?"

/-- The chain of tests; `none` is the final `else`. Source: `web_recdata` (`webserver.c:270`). -/
def dispatch (urlBuff01 : List UInt8) : Option Command :=
  if bcmpEq urlBuff01 Command.gimbal.literal 5 then some .gimbal
  else if bcmpEq urlBuff01 Command.blaste.literal 5 then some .blaste
  else if bcmpEq urlBuff01 Command.fireSt.literal 5 then some .fireSt
  else if bcmpEq urlBuff01 Command.pluck1.literal 5 then some .pluck1
  else if bcmpEq urlBuff01 Command.luck2P.literal 5 then some .luck2P
  else if bcmpEq urlBuff01 Command.robott.literal 5 then some .robott
  else if bcmpEq urlBuff01 Command.rocker.literal 5 then some .rocker
  else none

/-- The update that the four gimbal buttons share: move the tracked angle, clamp it, and pass it to
the driver. Source: `webserver.c:288`. -/
def moveAxis (axis : Axis) (step : Int) : Cmd := fun g =>
  let a := g.get axis + step
  let a := if a ≤ 0 then 0 else a
  let a := if a ≥ servoMaxDegree then (servoMaxDegree : Int) else a
  (g.set a axis, servoSetAngleTo (UInt32.ofInt a) axis.motorIndex)

/-- Source: `web_recdata` (`webserver.c:284`). -/
def gimbalBranch (myvalue : Int) : Cmd :=
  (Cmd.when (myvalue = 0) (moveAxis .pitch (-10))).andThen <|
  (Cmd.when (myvalue = 1) (moveAxis .pitch 10)).andThen <|
  (Cmd.when (myvalue = 2) (moveAxis .yaw 10)).andThen <|
  Cmd.when (myvalue = 3) (moveAxis .yaw (-10))

/-- Source: `chassis_x` (`webserver.c:407`). -/
def chassisX (myvalue : Int) : Int := myvalue.tdiv 100

/-- Source: `chassis_y` (`webserver.c:408`). -/
def chassisY (myvalue : Int) : Int := myvalue.tmod 100

/-- The tests of the decoded coordinates. Source: `web_recdata` (`webserver.c:410`). -/
def rockerRegions (chassisX chassisY : Int) : List Effect :=
  (if (chassisX > 4 ∧ chassisX < 6) ∧ (chassisY > 4 ∧ chassisY < 6) then chassisEn else []) ++
  (if (chassisX ≥ 4 ∧ chassisX ≤ 6) ∧ (chassisY ≥ 0 ∧ chassisY ≤ 4) then chassisForward else []) ++
  (if (chassisX ≥ 4 ∧ chassisX ≤ 6) ∧ (chassisY ≥ 6 ∧ chassisY ≤ 10) then chassisBackward
    else []) ++
  (if (chassisX ≥ 0 ∧ chassisX ≤ 4) ∧ (chassisY ≥ 4 ∧ chassisY ≤ 6) then chassisLeft else []) ++
  (if (chassisX ≥ 6 ∧ chassisX ≤ 10) ∧ (chassisY ≥ 4 ∧ chassisY ≤ 6) then chassisRight else []) ++
  (if ((chassisX ≥ 0 ∧ chassisX ≤ 3) ∧ (chassisY ≥ 0 ∧ chassisY ≤ 3)) ∨
      ((chassisX ≥ 0 ∧ chassisX ≤ 3) ∧ (chassisY ≥ 7 ∧ chassisY ≤ 10)) then chassisLeftRevolve
    else []) ++
  (if ((chassisX ≥ 7 ∧ chassisX ≤ 10) ∧ (chassisY ≥ 0 ∧ chassisY ≤ 3)) ∨
      ((chassisX ≥ 7 ∧ chassisX ≤ 10) ∧ (chassisY ≥ 7 ∧ chassisY ≤ 10)) then chassisRightRevolve
    else [])

/-- Source: `web_recdata` (`webserver.c:394`). -/
def rockerBranch (myvalue : Int) : List Effect :=
  rockerRegions (chassisX myvalue) (chassisY myvalue)

/-- The body of the loop from the decoded record on, with the delay that ends it: 60 ms at 100 ticks
a second. The `robott` branch has no statement. Source: `web_recdata` (`webserver.c:270`). -/
def webRecdata (j : Job) : Cmd :=
  Cmd.andThen
    (match dispatch j.record.urlBuff01 with
      | some .gimbal => gimbalBranch j.myvalue
      | some .blaste => .emit fireFrictionWheel
      | some .fireSt => .emit stopFireFriction
      | some .pluck1 => .emit firePluckRun
      | some .luck2P => .emit stopFirePluck
      | some .robott => .skip
      | some .rocker => .emit (rockerBranch j.myvalue)
      | none => .emit chassisEn)
    (.emit [.vTaskDelay 6])

/-- A job handled to the end. -/
def Robot.process (rb : Robot) (j : Job) : Robot :=
  let r := webRecdata j rb.angles
  ⟨r.1, rb.hw.run r.2⟩

/-- The jobs of a run of `web_recdata`, handled one after the other. -/
def Robot.run (rb : Robot) (js : List Job) : Robot := js.foldl Robot.process rb

/-! ## Which branch -/

/-- **The tests.** A branch is taken exactly when the first five bytes of the URL are those of the
command's literal. -/
theorem dispatch_eq_some_iff {url : List UInt8} {c : Command} :
    dispatch url = some c ↔ url.take 5 = c.literal.take 5 := by
  refine ⟨?_, ?_⟩
  · intro h
    unfold dispatch at h
    simp only [bcmpEq, beq_iff_eq] at h
    split_ifs at h with h1 h2 h3 h4 h5 h6 h7 <;> cases h <;> assumption
  · intro h
    unfold dispatch bcmpEq
    rw [h]
    cases c <;> decide

/-- The default is taken exactly when the first five bytes are those of no command. -/
theorem dispatch_eq_none_iff {url : List UInt8} :
    dispatch url = none ↔ ∀ c : Command, url.take 5 ≠ c.literal.take 5 := by
  rw [Option.eq_none_iff_forall_ne_some]
  exact forall_congr' fun c => not_congr dispatch_eq_some_iff

/-- The tests see the first five bytes of the record's URL. -/
theorem URLData.take_urlBuff01 (record : URLData) :
    record.urlBuff01.take 5 = record.myURLString.toList.take 5 := by
  rw [URLData.urlBuff01, List.take_take, min_eq_left (by decide)]

/-- The branch of a record whose URL starts with a known text. -/
theorem URLData.dispatch_of_prefix {record : URLData} {u : List UInt8}
    (h : u <+: record.myURLString.toList) (hu : 5 ≤ u.length) {c : Command} :
    dispatch record.urlBuff01 = some c ↔ u.take 5 = c.literal.take 5 := by
  obtain ⟨t, ht⟩ := h
  rw [dispatch_eq_some_iff, record.take_urlBuff01, ← ht, List.take_append_of_le_length hu]

/-- The argument of a record whose URL starts with a page's URL. -/
theorem URLData.valBuff02_of_prefix {record : URLData} {u : List UInt8}
    (h : u <+: record.myURLString.toList) (hu : u.length = 16) :
    record.valBuff02 = u.drop 12 := by
  obtain ⟨t, ht⟩ := h
  have hlen : (u.drop 12).length = 4 := by rw [List.length_drop, hu]
  rw [URLData.valBuff02, ← ht, List.drop_append_of_le_length (by omega), ← hlen, List.take_left]

/-! ## The gimbal branch -/

/-- A gimbal button: the axis it moves and the step in degrees. -/
structure GimbalPress where
  axis : Axis
  step : Int
  deriving DecidableEq, Repr

/-- The button of an argument. -/
def gimbalPress (myvalue : Int) : Option GimbalPress :=
  if myvalue = 0 then some ⟨.pitch, -10⟩
  else if myvalue = 1 then some ⟨.pitch, 10⟩
  else if myvalue = 2 then some ⟨.yaw, 10⟩
  else if myvalue = 3 then some ⟨.yaw, -10⟩
  else none

/-- At most one of the four updates runs: the one of the argument's button. -/
theorem gimbalBranch_eq (v : Int) (g : Angles) :
    gimbalBranch v g = (gimbalPress v).elim (g, []) fun p => moveAxis p.axis p.step g := by
  unfold gimbalBranch gimbalPress
  by_cases h0 : v = 0
  · subst h0; simp [Cmd.andThen, Cmd.when, Cmd.skip]
  by_cases h1 : v = 1
  · subst h1; simp [Cmd.andThen, Cmd.when, Cmd.skip]
  by_cases h2 : v = 2
  · subst h2; simp [Cmd.andThen, Cmd.when, Cmd.skip]
  by_cases h3 : v = 3
  · subst h3; simp [Cmd.andThen, Cmd.when, Cmd.skip]
  simp [Cmd.andThen, Cmd.when, Cmd.skip, h0, h1, h2, h3]

/-- A button moves an axis by ten degrees. -/
theorem gimbalPress_step {v : Int} {p : GimbalPress} (h : gimbalPress v = some p) :
    p.step = 10 ∨ p.step = -10 := by
  unfold gimbalPress at h
  split_ifs at h <;> cases h <;> decide

/-- The two checks of an update. -/
def clampAngle (a : Int) : Int := max 0 (min a servoMaxDegree)

theorem clampAngle_nonneg (a : Int) : 0 ≤ clampAngle a := le_max_left _ _

theorem clampAngle_le (a : Int) : clampAngle a ≤ servoMaxDegree :=
  max_le (by decide) (min_le_right _ _)

/-- An update tracks the clamped angle and writes its pulse to the axis. -/
theorem moveAxis_eq (axis : Axis) (step : Int) (g : Angles) :
    moveAxis axis step g =
      (g.set (clampAngle (g.get axis + step)) axis,
        [.mcpwmSetDutyInUs axis.unit (pulse (clampAngle (g.get axis + step))),
          .vTaskDelay 10]) := by
  have hclamp (a : Int) :
      (if (if a ≤ 0 then 0 else a) ≥ (servoMaxDegree : Int) then (servoMaxDegree : Int)
        else if a ≤ 0 then 0 else a) = clampAngle a := by
    have hmax : (servoMaxDegree : Int) = 270 := rfl
    unfold clampAngle
    rw [hmax]
    omega
  unfold moveAxis
  simp only [hclamp]
  rw [servoSetAngleTo_eq (clampAngle_nonneg _) (clampAngle_le _)]

@[simp] theorem Angles.get_set_self (g : Angles) (a : Int) (axis : Axis) :
    (g.set a axis).get axis = a := by
  cases axis <;> rfl

theorem Angles.get_set_ne (g : Angles) (a : Int) {axis axis' : Axis} (h : axis' ≠ axis) :
    (g.set a axis).get axis' = g.get axis' := by
  cases axis <;> cases axis' <;> first | rfl | exact absurd rfl h

/-! ## The joystick branch -/

/-- C's division and remainder of a value that is not negative. -/
theorem chassisX_of_nonneg {v : Int} (hv : 0 ≤ v) : chassisX v = v / 100 :=
  Int.tdiv_eq_ediv_of_nonneg hv

theorem chassisY_of_nonneg {v : Int} (hv : 0 ≤ v) : chassisY v = v % 100 :=
  Int.tmod_eq_emod_of_nonneg hv

/-- The movement that a cell of the joystick selects. -/
def cellPattern (x y : Int) : Option ChassisPattern :=
  if 0 ≤ x ∧ x ≤ 10 ∧ 0 ≤ y ∧ y ≤ 10 then
    if x ≤ 4 ∧ 4 ≤ y ∧ y ≤ 6 then some .left
    else if 6 ≤ x ∧ 4 ≤ y ∧ y ≤ 6 then some .right
    else if 4 ≤ x ∧ x ≤ 6 ∧ y ≤ 4 then some .forward
    else if 4 ≤ x ∧ x ≤ 6 ∧ 6 ≤ y then some .backward
    else if x = 5 ∧ y = 5 then some .stop
    else if x ≤ 3 then some .leftRevolve
    else if 7 ≤ x then some .rightRevolve
    else none
  else none

/-- The regions cover the whole grid, and nothing outside. -/
theorem cellPattern_isSome_iff {x y : Int} :
    (cellPattern x y).isSome ↔ 0 ≤ x ∧ x ≤ 10 ∧ 0 ≤ y ∧ y ≤ 10 := by
  unfold cellPattern
  split
  · next hgrid =>
    refine iff_of_true ?_ hgrid
    split_ifs <;> first | rfl | omega
  · next hgrid => exact iff_of_false (by simp) hgrid

/-- A region's test followed by its driver call. -/
theorem chassisPins_ite_drive (b : Prop) [Decidable b] (p : ChassisPattern) (hw : Hardware) :
    chassisPins (hw.run (if b then p.drive else [])) =
      if b then p.pins else chassisPins hw := by
  split
  · exact p.chassisPins_run hw
  · rfl

/-- **The regions.** After the seven tests the chassis has the levels of the movement that the cell
selects, and its earlier levels when the cell lies outside the grid. -/
theorem chassisPins_rockerRegions (x y : Int) (hw : Hardware) :
    chassisPins (hw.run (rockerRegions x y)) =
      (cellPattern x y).elim (chassisPins hw) ChassisPattern.pins := by
  unfold rockerRegions
  simp only [Hardware.run_append]
  rw [show chassisRightRevolve = ChassisPattern.rightRevolve.drive from rfl,
    show chassisLeftRevolve = ChassisPattern.leftRevolve.drive from rfl,
    show chassisRight = ChassisPattern.right.drive from rfl,
    show chassisLeft = ChassisPattern.left.drive from rfl,
    show chassisBackward = ChassisPattern.backward.drive from rfl,
    show chassisForward = ChassisPattern.forward.drive from rfl,
    show chassisEn = ChassisPattern.stop.drive from rfl]
  simp only [chassisPins_ite_drive]
  -- the tests are decided from the last one back, since the last driver that runs decides
  generalize hc : cellPattern x y = o
  unfold cellPattern at hc
  split at hc
  · split at hc
    · rw [if_neg (by omega), if_neg (by omega), if_neg (by omega), if_pos (by omega)]
      subst hc; rfl
    split at hc
    · rw [if_neg (by omega), if_neg (by omega), if_pos (by omega)]
      subst hc; rfl
    split at hc
    · rw [if_neg (by omega), if_neg (by omega), if_neg (by omega), if_neg (by omega),
        if_neg (by omega), if_pos (by omega)]
      subst hc; rfl
    split at hc
    · rw [if_neg (by omega), if_neg (by omega), if_neg (by omega), if_neg (by omega),
        if_pos (by omega)]
      subst hc; rfl
    split at hc
    · rw [if_neg (by omega), if_neg (by omega), if_neg (by omega), if_neg (by omega),
        if_neg (by omega), if_neg (by omega), if_pos (by omega)]
      subst hc; rfl
    split at hc
    · rw [if_neg (by omega), if_pos (by omega)]
      subst hc; rfl
    rw [if_pos (by omega)] at hc
    rw [if_pos (by omega)]
    subst hc; rfl
  · rw [if_neg (by omega), if_neg (by omega), if_neg (by omega), if_neg (by omega),
      if_neg (by omega), if_neg (by omega), if_neg (by omega)]
    subst hc; rfl

/-- The joystick branch calls chassis drivers only. -/
theorem mem_rockerBranch {v : Int} {e : Effect} (he : e ∈ rockerBranch v) :
    ∃ p : ChassisPattern, e ∈ p.drive := by
  simp only [rockerBranch, rockerRegions, List.mem_append, List.mem_ite_nil_right] at he
  rcases he with (((((⟨-, h⟩ | ⟨-, h⟩) | ⟨-, h⟩) | ⟨-, h⟩) | ⟨-, h⟩) | ⟨-, h⟩) | ⟨-, h⟩
  · exact ⟨.stop, h⟩
  · exact ⟨.forward, h⟩
  · exact ⟨.backward, h⟩
  · exact ⟨.left, h⟩
  · exact ⟨.right, h⟩
  · exact ⟨.leftRevolve, h⟩
  · exact ⟨.rightRevolve, h⟩

end InfantryRM

import InfantryRM.Lib.Saturating
import InfantryRM.Robot.Interference

/-!
# The robot as its operator sees it

To its operator the robot is a chassis with a movement, two motors that run or stand still, and two
servos with an angle (`Pose`), and a record is an order to one of them, or none (`Job.order`). The
robot that `web_recdata` drives refines this one: whatever the run was, the levels of all pins, the
pulses and the tracked angles are those of the pose that its orders lead to (`Pose.shows_run`), and
no two poses look the same (`Pose.Shows.pose_unique`). So two runs leave the same robot exactly when
their orders lead to the same pose (`robot_eq_iff_pose_eq`).

An order for the chassis, the friction wheel or the feeder supersedes the earlier ones for it. The
orders that are superseded can be dropped from a run (`run_compact`); those of the gimbal add up, as
long as no end of its range is reached (`presses_add_up`).
-/

namespace InfantryRM

open Run CString

/-! ## Poses -/

/-- An angle in the range of the servos. -/
structure ServoAngle where
  degrees : Int
  nonneg : 0 ≤ degrees
  le : degrees ≤ servoMaxDegree
  deriving DecidableEq

/-- The angle of the range that is nearest to `a`. -/
def ServoAngle.nearest (a : Int) : ServoAngle :=
  ⟨clampAngle a, clampAngle_nonneg a, clampAngle_le a⟩

/-- What the robot is doing. A part of it that no order has reached has no value yet. -/
structure Pose where
  movement : Option ChassisPattern
  friction : Option Bool
  feeder : Option Bool
  gimbal : Axis → Option ServoAngle

/-- The pose before the first order. -/
def Pose.initial : Pose := ⟨none, none, none, fun _ => none⟩

/-- What a record orders. -/
inductive Order
  | move (p : ChassisPattern)
  | friction (running : Bool)
  | feeder (running : Bool)
  | turn (p : GimbalPress)
  deriving DecidableEq, Repr

/-- The angle that an axis is taken to have. -/
def Pose.angle (p : Pose) (axis : Axis) : Int :=
  (p.gimbal axis).elim servoMidDegree ServoAngle.degrees

/-- The pose after an order. -/
def Pose.obey (p : Pose) : Order → Pose
  | .move q => { p with movement := some q }
  | .friction running => { p with friction := some running }
  | .feeder running => { p with feeder := some running }
  | .turn q => { p with
      gimbal := Function.update p.gimbal q.axis (some (.nearest (p.angle q.axis + q.step))) }

/-- The order of a record. An unrecognised URL orders the stop; the stop button, a cell outside the
grid and an argument of no gimbal button order nothing. -/
def Job.order (j : Job) : Option Order :=
  match dispatch j.record.urlBuff01 with
  | some .gimbal => (gimbalPress j.myvalue).map .turn
  | some .blaste => some (.friction true)
  | some .fireSt => some (.friction false)
  | some .pluck1 => some (.feeder true)
  | some .luck2P => some (.feeder false)
  | some .robott => none
  | some .rocker => (cellPattern (chassisX j.myvalue) (chassisY j.myvalue)).map .move
  | none => some (.move .stop)

/-- The pose that the orders of a run lead to. -/
def Pose.after (js : List Job) : Pose := (js.filterMap Job.order).foldl Pose.obey .initial

/-! ## What a pose looks like -/

/-- The driver functions of the launcher motors. -/
def frictionDrive (running : Bool) : List Effect :=
  if running then fireFrictionWheel else stopFireFriction
def feederDrive (running : Bool) : List Effect :=
  if running then firePluckRun else stopFirePluck

/-- The subsystem that an order is for. -/
def Order.subsystem : Order → Subsystem
  | .move _ => .chassis
  | .friction _ => .frictionWheel
  | .feeder _ => .feeder
  | .turn _ => .gimbal

/-- The calls that an order makes on the pins of a subsystem. -/
def Order.calls : Subsystem → Order → Option (List Effect)
  | .chassis, .move q => some q.drive
  | .frictionWheel, .friction running => some (frictionDrive running)
  | .feeder, .feeder running => some (feederDrive running)
  | _, _ => none

/-- The calls that bring the pins of a subsystem from power-on to the pose. -/
def Pose.calls (p : Pose) : Subsystem → List Effect
  | .chassis => p.movement.elim [] ChassisPattern.drive
  | .frictionWheel => p.friction.elim [] frictionDrive
  | .feeder => p.feeder.elim [] feederDrive
  | .gimbal => []

/-- The robot is in a pose: every subsystem has the levels of its last order, no other pin is high,
and an axis that has been turned has its angle and the servo the pulse of it. -/
structure Pose.Shows (p : Pose) (rb : Robot) : Prop where
  pins : ∀ S : Subsystem,
    S.pins.map rb.hw.level = S.pins.map (powerOn.run (p.calls S)).level
  others : ∀ pin, (∀ S : Subsystem, pin ∉ S.pins) → rb.hw.level pin = false
  axes : ∀ axis : Axis, (rb.angles.get axis, rb.hw.duty axis.unit) =
    (p.gimbal axis).elim (servoMidDegree, boot.hw.duty axis.unit)
      fun a => (a.degrees, pulse a.degrees)

section
variable {p p' : Pose} {rb rb' : Robot} {j : Job} {o : Order} {js : List Job} {axis : Axis}

/-- The tracked angles are those of the pose. -/
theorem Pose.Shows.angle (h : p.Shows rb) (axis : Axis) : rb.angles.get axis = p.angle axis := by
  have haxis := h.axes axis
  unfold Pose.angle
  cases hg : p.gimbal axis with
  | none => rw [hg] at haxis; exact (Prod.mk.inj haxis).1
  | some a => rw [hg] at haxis; exact (Prod.mk.inj haxis).1

/-- At boot the robot is in the initial pose. -/
theorem Pose.shows_boot : Pose.initial.Shows boot where
  pins S := by cases S <;> decide
  others pin _ := rfl
  axes axis := by cases axis <;> rfl

/-! ## One order -/

/-- An order replaces the calls of its subsystem. -/
theorem Pose.calls_obey (p : Pose) (o : Order) (S : Subsystem) :
    (p.obey o).calls S = (o.calls S).getD (p.calls S) := by
  cases o <;> cases S <;> rfl

/-- The movement that a record selects is the one that it orders. -/
theorem Job.selects_eq_order (j : Job) :
    j.selects.map ChassisPattern.drive = j.order.bind (Order.calls .chassis) := by
  rw [j.selects_eq, Job.order]
  cases dispatch j.record.urlBuff01 with
  | none => rfl
  | some c =>
    cases c with
    | rocker => cases cellPattern (chassisX j.myvalue) (chassisY j.myvalue) <;> rfl
    | gimbal => cases gimbalPress j.myvalue <;> rfl
    | blaste | fireSt | pluck1 | luck2P | robott => rfl

/-- The press of a record is the turn that it orders. -/
theorem Job.order_eq_turn_iff {q : GimbalPress} : j.order = some (.turn q) ↔ j.press = some q := by
  unfold Job.order Job.press
  cases dispatch j.record.urlBuff01 with
  | none => simp
  | some c => cases c <;> simp

/-- A record of a launcher command makes the calls of its driver function. -/
theorem Robot.process_hw {es : List Effect} (rb : Robot)
    (hweb : ∀ g, webRecdata j g = (g, es ++ [.vTaskDelay 6])) :
    (rb.process j).hw = rb.hw.run es := by
  unfold Robot.process
  simp only [hweb, Hardware.run_append]
  rfl

/-- An order makes calls on the pins of its subsystem only. -/
theorem Order.eq_subsystem {S : Subsystem} (h : (o.calls S).isSome) : S = o.subsystem := by
  cases o <;> cases S <;> first | rfl | cases h

/-- What a record orders is for the subsystem that it addresses. -/
theorem Job.subsystem_of_order (h : j.order = some o) : o.subsystem = j.record.addresses := by
  unfold Job.order at h
  unfold URLData.addresses
  cases hd : dispatch j.record.urlBuff01 with
  | none =>
    rw [hd] at h
    cases h
    rfl
  | some c =>
    rw [hd] at h
    cases c with
    | gimbal | rocker =>
      obtain ⟨q, -, rfl⟩ := Option.map_eq_some_iff.1 h
      rfl
    | blaste | fireSt | pluck1 | luck2P =>
      cases h
      rfl
    | robott => cases h

/-- A record orders no calls on the pins of a subsystem that it does not address. -/
theorem Job.calls_of_ne {S : Subsystem} (h : S ≠ j.record.addresses) :
    j.order.bind (Order.calls S) = none := by
  refine Option.eq_none_iff_forall_ne_some.2 fun es hes => ?_
  obtain ⟨o, ho, hcalls⟩ := Option.bind_eq_some_iff.1 hes
  have hS := Order.eq_subsystem (Option.isSome_of_eq_some hcalls)
  exact h (hS.trans (Job.subsystem_of_order ho))

/-- **The pins are registers.** A record leaves on the pins of a subsystem the levels of the calls
that it orders there, whatever they were, and without an order their levels. -/
theorem Robot.process_pins_order (rb : Robot) (j : Job) (S : Subsystem) :
    S.pins.map (rb.process j).hw.level = (j.order.bind (Order.calls S)).elim
      (S.pins.map rb.hw.level) fun es => S.pins.map (powerOn.run es).level := by
  by_cases haddr : S = j.record.addresses
  · have hchassis : chassisPinList.map (rb.process j).hw.level =
        (j.order.bind (Order.calls .chassis)).elim (chassisPinList.map rb.hw.level)
          fun es => chassisPinList.map (powerOn.run es).level := by
      rw [← Job.selects_eq_order]
      have hpins := rb.process_chassisPins j
      cases hs : j.selects with
      | none => rw [hs] at hpins; exact hpins
      | some q => rw [hs] at hpins; exact hpins
    have hlauncher {es : List Effect} (hweb : ∀ g, webRecdata j g = (g, es ++ [.vTaskDelay 6]))
        (hall : ∀ pin ∈ S.pins, (lastSome (Effect.levelOf pin) es).isSome) :
        S.pins.map (rb.process j).hw.level = S.pins.map (powerOn.run es).level := by
      rw [rb.process_hw hweb]
      exact Hardware.run_map_level_eq hall rb.hw powerOn
    unfold URLData.addresses at haddr
    cases hd : dispatch j.record.urlBuff01 with
    | none =>
      rw [hd] at haddr
      subst haddr
      exact hchassis
    | some c =>
      rw [hd] at haddr
      subst haddr
      cases c with
      | robott | rocker => exact hchassis
      | gimbal =>
        show [] = (j.order.bind (Order.calls .gimbal)).elim [] fun _ => []
        cases j.order.bind (Order.calls .gimbal) <;> rfl
      | blaste | fireSt | pluck1 | luck2P =>
        rw [Job.order, hd]
        refine hlauncher (fun g => ?_) (by decide)
        simp only [webRecdata, hd, Cmd.andThen, Cmd.emit]
        rfl
  · rw [Job.calls_of_ne haddr]
    exact Robot.process_pins haddr

/-- A pin of no subsystem keeps its level. -/
theorem Robot.process_other {pin : Pin} (h : ∀ S : Subsystem, pin ∉ S.pins) :
    (rb.process j).hw.level pin = rb.hw.level pin :=
  Robot.process_level (h j.record.addresses)

/-- **One record.** A record takes a robot in a pose to the pose that its order leads to. -/
theorem Pose.Shows.process (h : p.Shows rb) (j : Job) :
    (j.order.elim p p.obey).Shows (rb.process j) where
  pins S := by
    rw [Robot.process_pins_order, h.pins S]
    cases ho : j.order with
    | none => rfl
    | some o =>
      simp only [Option.bind_some, Option.elim_some, Pose.calls_obey]
      cases o.calls S <;> rfl
  others pin hpin := (Robot.process_other hpin).trans (h.others pin hpin)
  axes axis := by
    rw [rb.process_axis j axis]
    have haxis := h.axes axis
    cases hp : j.press with
    | some q =>
      rw [Job.order_eq_turn_iff.2 hp, Option.elim_some, h.angle]
      by_cases hax : q.axis = axis
      · subst hax
        simp only [if_true, Pose.obey, Function.update_self]
        rfl
      · simp only [if_neg hax, Pose.obey, Function.update_of_ne (Ne.symm hax)]
        rw [← h.angle]
        exact haxis
    | none =>
      have hturn : ∀ q, j.order ≠ some (.turn q) := fun q ho => by
        rw [Job.order_eq_turn_iff.1 ho] at hp
        cases hp
      rw [show (rb.angles.get axis, rb.hw.duty axis.unit) = _ from haxis]
      cases ho : j.order with
      | none => rfl
      | some o =>
        cases o with
        | turn q => exact absurd ho (hturn q)
        | move | friction | feeder => rfl

/-- The orders of a record and of those behind it. -/
theorem Pose.foldl_order (p : Pose) (js : List Job) :
    (js.filterMap Job.order).foldl Pose.obey p =
      js.foldl (fun p j => j.order.elim p p.obey) p := by
  induction js generalizing p with
  | nil => rfl
  | cons j js ih =>
    rw [List.foldl_cons, ← ih]
    cases ho : j.order with
    | none => rw [List.filterMap_cons_none ho]; rfl
    | some o => rw [List.filterMap_cons_some ho]; rfl

/-- **Refinement.** After every run the robot is in the pose that the orders of the run lead to. -/
theorem Pose.shows_run (js : List Job) : (Pose.after js).Shows (boot.run js) := by
  rw [Pose.after, Pose.foldl_order]
  induction js using List.reverseRecOn with
  | nil => exact Pose.shows_boot
  | append_singleton js j ih =>
    rw [List.foldl_concat, Robot.run, List.foldl_concat]
    exact ih.process j

/-! ## One look for each pose -/

/-- A pose determines the robot. -/
theorem Pose.Shows.robot_unique (h : p.Shows rb) (h' : p.Shows rb') : rb = rb' := by
  refine Robot.ext_read (funext fun r => ?_)
  cases r with
  | axis axis => exact congrArg Sum.inr ((h.axes axis).trans (h'.axes axis).symm)
  | pin pin =>
    refine congrArg Sum.inl ?_
    by_cases hpin : ∃ S : Subsystem, pin ∈ S.pins
    · obtain ⟨S, hS⟩ := hpin
      exact List.map_inj_left.1 ((h.pins S).trans (h'.pins S).symm) pin hS
    · rw [not_exists] at hpin
      rw [h.others pin hpin, h'.others pin hpin]

/-- The levels of a subsystem determine its part of the pose. -/
theorem Pose.parts_injective :
    (∀ m m' : Option ChassisPattern, chassisPins (powerOn.run (m.elim [] ChassisPattern.drive)) =
      chassisPins (powerOn.run (m'.elim [] ChassisPattern.drive)) → m = m') ∧
    (∀ b b' : Option Bool, frictionMotor.pins.map (powerOn.run (b.elim [] frictionDrive)).level =
      frictionMotor.pins.map (powerOn.run (b'.elim [] frictionDrive)).level → b = b') ∧
    ∀ b b' : Option Bool, feederMotor.pins.map (powerOn.run (b.elim [] feederDrive)).level =
      feederMotor.pins.map (powerOn.run (b'.elim [] feederDrive)).level → b = b' := by
  refine ⟨?_, ?_, ?_⟩
  · rintro (_ | q) (_ | q') heq
    · rfl
    · exact absurd heq.symm q'.pins_ne_powerOn
    · exact absurd heq q.pins_ne_powerOn
    · exact congrArg some (ChassisPattern.pins_injective heq)
  · decide
  · decide

/-- The servo of an axis shows whether the axis has been turned, and to which angle. -/
theorem ServoAngle.shown_injective (axis : Axis) {a a' : Option ServoAngle}
    (h : a.elim (servoMidDegree, boot.hw.duty axis.unit) (fun a => (a.degrees, pulse a.degrees)) =
      a'.elim (servoMidDegree, boot.hw.duty axis.unit) fun a => (a.degrees, pulse a.degrees)) :
    a = a' := by
  -- at boot the servo does not stand at the angle that the axis is taken to have
  have hboot : boot.hw.duty axis.unit ≠ pulse servoMidDegree := by cases axis <;> decide
  rcases a with _ | ⟨d, h0, hle⟩ <;> rcases a' with _ | ⟨d', h0', hle'⟩
  · rfl
  · obtain ⟨hangle, hpulse⟩ := Prod.mk.inj h
    exact absurd (hangle ▸ hpulse) hboot
  · obtain ⟨hangle, hpulse⟩ := Prod.mk.inj h
    exact absurd (hangle ▸ hpulse.symm) hboot
  · obtain ⟨hangle, -⟩ := Prod.mk.inj h
    cases hangle
    rfl

/-- The robot determines the pose. -/
theorem Pose.Shows.pose_unique (h : p.Shows rb) (h' : p'.Shows rb) : p = p' := by
  obtain ⟨hmove, hfriction, hfeeder⟩ := Pose.parts_injective
  have hmovement := hmove p.movement p'.movement ((h.pins .chassis).symm.trans (h'.pins .chassis))
  have hwheel := hfriction p.friction p'.friction
    ((h.pins .frictionWheel).symm.trans (h'.pins .frictionWheel))
  have hpluck := hfeeder p.feeder p'.feeder ((h.pins .feeder).symm.trans (h'.pins .feeder))
  have hgimbal : p.gimbal = p'.gimbal := funext fun axis =>
    ServoAngle.shown_injective axis ((h.axes axis).symm.trans (h'.axes axis))
  cases p
  cases p'
  congr

/-- **Full abstraction.** After every run the robot is in the pose that the orders of the run lead
to, in no other pose, and two runs leave the same robot exactly when their orders lead to the same
pose. -/
theorem robot_eq_iff_pose_eq (js js' : List Job) :
    (∀ p : Pose, p.Shows (boot.run js) ↔ p = Pose.after js) ∧
      (boot.run js = boot.run js' ↔ Pose.after js = Pose.after js') := by
  have hjs := Pose.shows_run js
  have hjs' := Pose.shows_run js'
  refine ⟨fun p => ⟨fun h => h.pose_unique hjs, fun h => h ▸ hjs⟩, fun h => ?_, fun h => ?_⟩
  · rw [h] at hjs
    exact hjs.pose_unique hjs'
  · rw [h] at hjs
    exact hjs.robot_unique hjs'

/-! ## Superseded orders -/

/-- The record orders a subsystem that is driven by pins. -/
def Job.orders (j : Job) (S : Subsystem) : Bool := (j.order.bind (Order.calls S)).isSome

/-- The subsystems that are driven by pins. -/
def pinSubsystems : Finset Subsystem := {.chassis, .frictionWheel, .feeder}

/-- The record orders nothing, or one of those behind it orders the same subsystem. A turn of the
gimbal is not superseded. -/
def Job.Superseded (j : Job) (js : List Job) : Prop :=
  j.order = none ∨ ∃ S ∈ pinSubsystems, j.orders S = true ∧ ∃ j' ∈ js, j'.orders S = true

instance (j : Job) (js : List Job) : Decidable (j.Superseded js) :=
  inferInstanceAs (Decidable (_ ∨ _))

/-- The records of a run that are not superseded. -/
def compact : List Job → List Job
  | [] => []
  | j :: js => if j.Superseded js then compact js else j :: compact js

/-- A pose is made of the calls of its subsystems and the angles of its axes. -/
theorem Pose.ext_calls (h : ∀ S : Subsystem, p.calls S = p'.calls S) (hg : p.gimbal = p'.gimbal) :
    p = p' := by
  obtain ⟨hmove, hfriction, hfeeder⟩ := Pose.parts_injective
  have hmovement := hmove p.movement p'.movement (congrArg (chassisPins <| powerOn.run ·)
    (h .chassis))
  have hwheel := hfriction p.friction p'.friction
    (congrArg (fun es => frictionMotor.pins.map (powerOn.run es).level) (h .frictionWheel))
  have hpluck := hfeeder p.feeder p'.feeder
    (congrArg (fun es => feederMotor.pins.map (powerOn.run es).level) (h .feeder))
  cases p
  cases p'
  congr

/-- The calls of a subsystem are a register of the run. -/
theorem Pose.foldl_calls (p : Pose) (js : List Job) (S : Subsystem) :
    ((js.filterMap Job.order).foldl Pose.obey p).calls S =
      (lastSome (fun j : Job => j.order.bind (Order.calls S)) js).getD (p.calls S) := by
  rw [Pose.foldl_order]
  refine foldl_register (fun p : Pose => p.calls S) (fun p j => ?_) p js
  cases ho : j.order with
  | none => rfl
  | some o => exact Pose.calls_obey p o S

/-- The angles of a run depend on the angles before it. -/
theorem Pose.foldl_gimbal (os : List Order) (hg : p.gimbal = p'.gimbal) :
    (os.foldl Pose.obey p).gimbal = (os.foldl Pose.obey p').gimbal := by
  induction os generalizing p p' with
  | nil => exact hg
  | cons o os ih =>
    refine ih ?_
    cases o with
    | turn q => simp only [Pose.obey, Pose.angle, hg]
    | move | friction | feeder => exact hg

/-- Two poses that differ in a subsystem that is ordered anew lead to the same pose. -/
theorem Pose.foldl_congr (h : ∀ S : Subsystem, p.calls S = p'.calls S ∨ ∃ j ∈ js, j.orders S = true)
    (hg : p.gimbal = p'.gimbal) :
    (js.filterMap Job.order).foldl Pose.obey p = (js.filterMap Job.order).foldl Pose.obey p' := by
  refine Pose.ext_calls (fun S => ?_) (Pose.foldl_gimbal _ hg)
  rw [Pose.foldl_calls, Pose.foldl_calls]
  rcases h S with heq | ⟨j, hj, horder⟩
  · rw [heq]
  · have hsome : (lastSome (fun j : Job => j.order.bind (Order.calls S)) js).isSome :=
      List.findSome?_isSome_iff.2 ⟨j, List.mem_reverse.2 hj, horder⟩
    obtain ⟨es, hes⟩ := Option.isSome_iff_exists.1 hsome
    rw [hes, Option.getD_some, Option.getD_some]

/-- A superseded record does not matter. -/
theorem Job.Superseded.foldl (h : j.Superseded js) (p : Pose) :
    ((j :: js).filterMap Job.order).foldl Pose.obey p =
      (js.filterMap Job.order).foldl Pose.obey p := by
  rcases h with hnone | ⟨S, -, horder, hlater⟩
  · rw [List.filterMap_cons_none hnone]
  · obtain ⟨o, ho⟩ : ∃ o, j.order = some o := by
      cases ho : j.order with
      | none => rw [Job.orders, ho] at horder; cases horder
      | some o => exact ⟨o, rfl⟩
    rw [Job.orders, ho, Option.bind_some] at horder
    rw [List.filterMap_cons_some ho, List.foldl_cons]
    refine Pose.foldl_congr (fun T => ?_) ?_
    · rw [Pose.calls_obey]
      cases hT : o.calls T with
      | none => exact .inl rfl
      | some es =>
        have hST : S = T := (Order.eq_subsystem horder).trans
          (Order.eq_subsystem (Option.isSome_of_eq_some hT)).symm
        exact .inr (hST ▸ hlater)
    · cases o with
      | turn q => cases S <;> cases horder
      | move | friction | feeder => rfl

/-- The pose without the superseded records. -/
theorem Pose.foldl_compact (p : Pose) (js : List Job) :
    ((compact js).filterMap Job.order).foldl Pose.obey p =
      (js.filterMap Job.order).foldl Pose.obey p := by
  induction js generalizing p with
  | nil => rfl
  | cons j js ih =>
    rw [compact]
    split
    · next h => rw [ih, h.foldl]
    · cases ho : j.order with
      | none => rw [List.filterMap_cons_none ho, List.filterMap_cons_none ho, ih]
      | some o =>
        rw [List.filterMap_cons_some ho, List.filterMap_cons_some ho, List.foldl_cons,
          List.foldl_cons, ih]

/-- The subsystems that the records of a run order. -/
def orderedParts (js : List Job) : Finset Subsystem :=
  {S ∈ pinSubsystems | ∃ j ∈ js, j.orders S = true}

/-- Without the superseded records every subsystem that is driven by pins is ordered at most once.
-/
theorem length_compact_le (js : List Job) :
    ((compact js).filter (·.press.isNone)).length ≤ (orderedParts js).card := by
  induction js with
  | nil => exact Nat.zero_le _
  | cons j js ih =>
    have hsub : orderedParts js ⊆ orderedParts (j :: js) := fun S hS => by
      obtain ⟨hpin, j', hj', horder⟩ := Finset.mem_filter.1 hS
      exact Finset.mem_filter.2 ⟨hpin, j', List.mem_cons_of_mem j hj', horder⟩
    have hmono := ih.trans (Finset.card_le_card hsub)
    rw [compact]
    split
    · exact hmono
    · next hkept =>
      rw [List.filter_cons]
      split
      · next hpress =>
        -- the record is the last one for its subsystem
        obtain ⟨hsome, hlast⟩ := not_or.1 hkept
        obtain ⟨o, ho⟩ := Option.ne_none_iff_exists'.1 hsome
        obtain ⟨S, hpin, horder⟩ : ∃ S ∈ pinSubsystems, j.orders S = true := by
          unfold Job.orders
          rw [ho]
          cases o with
          | move q => exact ⟨.chassis, by decide, rfl⟩
          | friction running => exact ⟨.frictionWheel, by decide, rfl⟩
          | feeder running => exact ⟨.feeder, by decide, rfl⟩
          | turn q =>
            rw [Job.order_eq_turn_iff.1 ho] at hpress
            cases hpress
        have hnew : S ∉ orderedParts js := fun hS =>
          hlast ⟨S, hpin, horder, (Finset.mem_filter.1 hS).2⟩
        have hinsert : insert S (orderedParts js) ⊆ orderedParts (j :: js) := by
          refine Finset.insert_subset (Finset.mem_filter.2 ?_) hsub
          exact ⟨hpin, j, List.mem_cons_self, horder⟩
        have hcard := Finset.card_le_card hinsert
        rw [Finset.card_insert_of_notMem hnew] at hcard
        exact (Nat.succ_le_succ ih).trans hcard
      · exact hmono

/-- **Compaction.** A run can leave out the superseded records of its end, which keeps of them all
but at most three the presses of gimbal buttons, and the robot ends as it would have with them. -/
theorem run_compact (earlier js : List Job) :
    boot.run (earlier ++ compact js) = boot.run (earlier ++ js) ∧
      ((compact js).filter (·.press.isNone)).length ≤ 3 ∧ (compact js).Sublist js := by
  refine ⟨?_, ?_, ?_⟩
  · have hpose : Pose.after (earlier ++ compact js) = Pose.after (earlier ++ js) := by
      simp only [Pose.after, List.filterMap_append, List.foldl_append, Pose.foldl_compact]
    have hshows := Pose.shows_run (earlier ++ compact js)
    rw [hpose] at hshows
    exact hshows.robot_unique (Pose.shows_run _)
  · have hcard : (orderedParts js).card ≤ pinSubsystems.card :=
      Finset.card_le_card (Finset.filter_subset _ _)
    exact (length_compact_le js).trans hcard
  · induction js with
    | nil => exact .slnil
    | cons j js ih =>
      rw [compact]
      split
      · exact ih.cons j
      · exact ih.cons_cons j

/-! ## Presses -/

/-- The step by which a record turns an axis. -/
def Job.turn (axis : Axis) (j : Job) : Option Int :=
  j.press.bind fun q => if q.axis = axis then some q.step else none

/-- The steps by which a run turns an axis. -/
def turns (axis : Axis) (js : List Job) : List Int := js.filterMap (Job.turn axis)

/-- A turn of an axis is a saturating step of its angle. -/
theorem Robot.process_turn (rb : Robot) (j : Job) (axis : Axis) :
    (rb.process j).angles.get axis = (j.turn axis).elim (rb.angles.get axis)
      (Saturating.step 0 (servoMaxDegree : Int) (rb.angles.get axis)) := by
  have haxis := congrArg Prod.fst (rb.process_axis j axis)
  refine haxis.trans ?_
  unfold Job.turn
  cases hp : j.press with
  | none => rfl
  | some q =>
    rw [Option.bind_some]
    by_cases hax : q.axis = axis
    · rw [if_pos hax]
      simp only [if_pos hax]
      rfl
    · rw [if_neg hax]
      simp only [if_neg hax]
      rfl

/-- The angle of an axis is a saturating counter of the run's turns. -/
theorem Robot.run_turns (rb : Robot) (js : List Job) (axis : Axis) :
    (rb.run js).angles.get axis =
      (turns axis js).foldl (Saturating.step 0 (servoMaxDegree : Int)) (rb.angles.get axis) := by
  induction js generalizing rb with
  | nil => rfl
  | cons j js ih =>
    rw [Robot.run, List.foldl_cons, ← Robot.run, ih, Robot.process_turn, turns, turns]
    cases hturn : j.turn axis with
    | none => rw [List.filterMap_cons_none hturn]; rfl
    | some d => rw [List.filterMap_cons_some hturn]; rfl

/-- The beginnings of a run's turns are the turns of its beginnings. -/
theorem exists_prefix_turns {ds : List Int} (h : ds <+: turns axis js) :
    ∃ js', js' <+: js ∧ turns axis js' = ds := by
  induction js generalizing ds with
  | nil => exact ⟨[], List.prefix_refl _, (List.prefix_nil.1 h).symm⟩
  | cons j js ih =>
    rw [turns] at h
    cases hturn : j.turn axis with
    | none =>
      rw [List.filterMap_cons_none hturn] at h
      obtain ⟨js', hpre, hds⟩ := ih h
      refine ⟨j :: js', (List.prefix_cons_inj j).2 hpre, ?_⟩
      rw [turns, List.filterMap_cons_none hturn]
      exact hds
    | some d =>
      rw [List.filterMap_cons_some hturn] at h
      rcases List.prefix_cons_iff.1 h with rfl | ⟨ds', rfl, hds'⟩
      · exact ⟨[], List.nil_prefix, rfl⟩
      · obtain ⟨js', hpre, hds⟩ := ih hds'
        refine ⟨j :: js', (List.prefix_cons_inj j).2 hpre, ?_⟩
        rw [turns, List.filterMap_cons_some hturn]
        exact congrArg (d :: ·) hds

/-- After a turn the servo stands at the angle. -/
theorem duty_of_turns (hne : turns axis js ≠ []) :
    (boot.run js).hw.duty axis.unit = pulse ((boot.run js).angles.get axis) := by
  refine (tracks_iff_pressed js axis).2 ?_
  obtain ⟨d, hd⟩ := List.exists_mem_of_ne_nil _ hne
  obtain ⟨j, hj, hturn⟩ := List.mem_filterMap.1 hd
  obtain ⟨q, hq, hstep⟩ := Option.bind_eq_some_iff.1 hturn
  exact ⟨j, hj, q, hq, (Option.ite_none_right_eq_some.1 hstep).1⟩

/-- **Turns.** From boot the angle of an axis is exactly 135 degrees and the sum of the turns, as
long as no beginning of the run adds up to more than half the range. And after every run, 27 turns
in one direction without one against it bring the axis to the end of its range, and its servo to the
end of its pulses, whatever else is ordered between them. -/
theorem presses_add_up (js : List Job) (axis : Axis) :
    ((∀ js', js' <+: js → |(turns axis js').sum| ≤ 135) →
      (boot.run js).angles.get axis = 135 + (turns axis js).sum) ∧
    ∀ js', 27 ≤ (turns axis js').length →
      ((∀ d ∈ turns axis js', d = 10) → (boot.run (js ++ js')).angles.get axis = 270 ∧
        ((boot.run (js ++ js')).hw.duty axis.unit).toNat = 2500) ∧
      ((∀ d ∈ turns axis js', d = -10) → (boot.run (js ++ js')).angles.get axis = 0 ∧
        ((boot.run (js ++ js')).hw.duty axis.unit).toNat = 500) := by
  have hmax : (servoMaxDegree : Int) = 270 := rfl
  have hboot : boot.angles.get axis = 135 := by cases axis <;> rfl
  have hsum {d : Int} {ds : List Int} (h : ∀ x ∈ ds, x = d) : ds.sum = ds.length * d := by
    rw [List.eq_replicate_of_mem h, List.sum_replicate, List.length_replicate, nsmul_eq_mul]
  refine ⟨fun hinside => ?_, fun js' hlen => ?_⟩
  · rw [Robot.run_turns, hboot]
    refine Saturating.foldl_step_of_inside fun ds hds => ?_
    obtain ⟨js', hpre, rfl⟩ := exists_prefix_turns hds
    have hle := abs_le.1 (hinside js' hpre)
    omega
  · obtain ⟨h0, h270⟩ := Robot.run_angles js axis
    have hangle : (boot.run (js ++ js')).angles.get axis = (turns axis js').foldl
        (Saturating.step 0 (servoMaxDegree : Int)) ((boot.run js).angles.get axis) := by
      rw [← Robot.run_turns, Robot.run, List.foldl_append]
      rfl
    have hne : turns axis (js ++ js') ≠ [] := by
      have hlater : turns axis js' ≠ [] := List.ne_nil_of_length_pos (by omega)
      rw [turns, List.filterMap_append]
      exact List.append_ne_nil_of_right_ne_nil _ hlater
    have hduty := duty_of_turns hne
    refine ⟨fun hup => ?_, fun hdown => ?_⟩
    · have hend := Saturating.foldl_step_eq_high h0 h270
        (fun d hd => (hup d hd).symm ▸ (by decide : (0 : Int) ≤ 10)) (by rw [hsum hup, hmax]; omega)
      rw [hduty, hangle, hend]
      exact ⟨rfl, by decide⟩
    · have hend := Saturating.foldl_step_eq_low h0 h270
        (fun d hd => (hdown d hd).symm ▸ (by decide : (-10 : Int) ≤ 0)) (by rw [hsum hdown]; omega)
      rw [hduty, hangle, hend]
      exact ⟨rfl, by decide⟩

end

end InfantryRM

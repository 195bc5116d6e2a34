import InfantryRM.Server.Trace

/-!
# Between two writes

A driver function sets the two inputs of a motor one after the other, so between the two calls the
motor has one input of its new command and one of its old. Every driver function writes IN1 and
right after it IN2, and never sets both low (`Motor.commands?`). So what shows in between is the old
command, the new one, or a motor that stands still, with one exception: a motor that still has both
inputs low since power-on turns for a moment when its first command is the brake.

**No motor turns by itself** (`turns_as_ordered`): in every reachable state, between any two calls
of any task, a motor that turns has the levels of its last command or of a command of the record
that is being handled, unless that first brake is under way.
-/

namespace InfantryRM

open Run

/-! ## Commands -/

/-- The levels of a motor's two inputs. -/
def Motor.levels (m : Motor) (hw : Hardware) : Bool × Bool := (hw.level m.in1, hw.level m.in2)

/-- The motors of the robot. -/
def motors : List Motor := chassisMotors ++ [feederMotor, frictionMotor]

/-- The commands that calls give to a motor: a write of IN1 followed by one of IN2, at least one of
them high. `in1` is the level of an IN1 whose IN2 is still to come; other writes to the motor are no
commands. -/
def Motor.commands? (m : Motor) : Option Bool → List Effect → Option (List (Bool × Bool))
  | none, [] => some []
  | none, .gpioSetLevel pin level :: es =>
    if pin = m.in1 then m.commands? (some level) es
    else if pin = m.in2 then none
    else m.commands? none es
  | none, _ :: es => m.commands? none es
  | some in1, .gpioSetLevel pin level :: es =>
    if pin = m.in2 ∧ (in1 || level) then (m.commands? none es).map ((in1, level) :: ·) else none
  | some _, _ => none

/-- What a motor shows while commands are written: its levels before them, IN1 of a command with IN2
of the one before, or a command. -/
inductive Shown : Bool × Bool → List (Bool × Bool) → Bool × Bool → Prop
  | old {old : Bool × Bool} {cs : List (Bool × Bool)} : Shown old cs old
  | half {old new : Bool × Bool} {cs : List (Bool × Bool)} : Shown old (new :: cs) (new.1, old.2)
  | new {old new shown : Bool × Bool} {cs : List (Bool × Bool)} :
    Shown new cs shown → Shown old (new :: cs) shown

section
variable {m : Motor} {es es' : List Effect} {cs cs' : List (Bool × Bool)} {hw : Hardware}
  {j : Job} {g : Angles} {old shown : Bool × Bool}

/-- The commands of calls in sequence. -/
theorem Motor.commands?_append {in1 : Option Bool} (h : m.commands? in1 es = some cs)
    (h' : m.commands? none es' = some cs') :
    m.commands? in1 (es ++ es') = some (cs ++ cs') := by
  induction es generalizing in1 cs with
  | nil =>
    cases in1 with
    | none => cases h; exact h'
    | some level => cases h
  | cons e es ih =>
    cases in1 with
    | none =>
      cases e with
      | gpioSetLevel pin level =>
        rw [List.cons_append, Motor.commands?] at *
        split_ifs at h ⊢ with h1 h2
        · exact ih h
        · exact ih h
      | mcpwmSetDutyInUs | vTaskDelay => exact ih h
    | some level1 =>
      cases e with
      | gpioSetLevel pin level =>
        rw [List.cons_append, Motor.commands?] at *
        split_ifs at h ⊢ with hpair
        obtain ⟨rest, hrest, rfl⟩ := Option.map_eq_some_iff.1 h
        rw [ih hrest]
        rfl
      | mcpwmSetDutyInUs | vTaskDelay => cases h

/-- A command is not both inputs low. -/
theorem Motor.ne_of_mem_commands? {in1 : Option Bool} (h : m.commands? in1 es = some cs) :
    ∀ c ∈ cs, c ≠ (false, false) := by
  induction es generalizing in1 cs with
  | nil =>
    cases in1 with
    | none => cases h; exact fun c hc => nomatch hc
    | some level => cases h
  | cons e es ih =>
    cases in1 with
    | none =>
      cases e with
      | gpioSetLevel pin level =>
        rw [Motor.commands?] at h
        split_ifs at h
        · exact ih h
        · exact ih h
      | mcpwmSetDutyInUs | vTaskDelay => exact ih h
    | some level1 =>
      cases e with
      | gpioSetLevel pin level =>
        rw [Motor.commands?] at h
        split_ifs at h with hpair
        obtain ⟨rest, hrest, rfl⟩ := Option.map_eq_some_iff.1 h
        refine List.forall_mem_cons.2 ⟨?_, ih hrest⟩
        rintro ⟨⟩
        exact absurd hpair.2 (by decide)
      | mcpwmSetDutyInUs | vTaskDelay => cases h

/-- A call that does not write to the motor. -/
theorem Motor.levels_gpioSetLevel {pin : Pin} (h1 : pin ≠ m.in1) (h2 : pin ≠ m.in2)
    (hw : Hardware) (level : Bool) :
    m.levels (hw.apply (.gpioSetLevel pin level)) = m.levels hw := by
  simp [Motor.levels, Hardware.apply, Function.update_of_ne (Ne.symm h1),
    Function.update_of_ne (Ne.symm h2)]

/-- A write to one of a motor's inputs. -/
theorem Motor.levels_in1 (hne : m.in1 ≠ m.in2) (hw : Hardware) (level : Bool) :
    m.levels (hw.apply (.gpioSetLevel m.in1 level)) = (level, (m.levels hw).2) := by
  simp [Motor.levels, Hardware.apply, Function.update_of_ne (Ne.symm hne)]

theorem Motor.levels_in2 (hne : m.in1 ≠ m.in2) (hw : Hardware) (level : Bool) :
    m.levels (hw.apply (.gpioSetLevel m.in2 level)) = ((m.levels hw).1, level) := by
  simp [Motor.levels, Hardware.apply, Function.update_of_ne hne]

/-- Where the commands stand when the levels were `old` before the one that has begun. -/
def Motor.Stands (m : Motor) (hw : Hardware) (old : Bool × Bool) : Option Bool → Prop
  | none => m.levels hw = old
  | some in1 => m.levels hw = (in1, old.2)

/-- A command that has begun is the next one. -/
theorem Motor.exists_of_pending {in1 : Bool} (h : m.commands? (some in1) es = some cs) :
    ∃ in2 rest, cs = (in1, in2) :: rest := by
  rcases es with _ | ⟨e, es⟩
  · cases h
  · cases e with
    | gpioSetLevel pin level =>
      rw [Motor.commands?] at h
      split_ifs at h
      obtain ⟨rest, -, rfl⟩ := Option.map_eq_some_iff.1 h
      exact ⟨level, rest, rfl⟩
    | mcpwmSetDutyInUs | vTaskDelay => cases h

/-- **One call.** A call goes on with a command or completes it. -/
theorem Motor.commands?_cons (hne : m.in1 ≠ m.in2) {in1 : Option Bool} {e : Effect}
    (h : m.commands? in1 (e :: es) = some cs) (hold : m.Stands hw old in1) :
    (∃ in1', m.commands? in1' es = some cs ∧ m.Stands (hw.apply e) old in1') ∨
      ∃ new rest, cs = new :: rest ∧ m.commands? none es = some rest ∧
        m.Stands (hw.apply e) new none := by
  cases in1 with
  | none =>
    have hlevels : m.levels hw = old := hold
    cases e with
    | gpioSetLevel pin level =>
      rw [Motor.commands?] at h
      split_ifs at h with h1 h2
      · refine .inl ⟨some level, h, ?_⟩
        show _ = (level, old.2)
        rw [h1, Motor.levels_in1 hne, hlevels]
      · refine .inl ⟨none, h, ?_⟩
        show _ = old
        rw [Motor.levels_gpioSetLevel h1 h2, hlevels]
    | mcpwmSetDutyInUs | vTaskDelay => exact .inl ⟨none, h, hlevels⟩
  | some level1 =>
    have hlevels : m.levels hw = (level1, old.2) := hold
    cases e with
    | gpioSetLevel pin level =>
      rw [Motor.commands?] at h
      split_ifs at h with hpair
      obtain ⟨rest, hrest, rfl⟩ := Option.map_eq_some_iff.1 h
      refine .inr ⟨(level1, level), rest, rfl, hrest, ?_⟩
      show _ = (level1, level)
      rw [hpair.1, Motor.levels_in2 hne, hlevels]
    | mcpwmSetDutyInUs | vTaskDelay => cases h

/-- **Halfway.** What a motor shows after a part of the calls that give it commands. -/
theorem Motor.shown_run (hne : m.in1 ≠ m.in2) {in1 : Option Bool}
    (h : m.commands? in1 (es ++ es') = some cs) (hold : m.Stands hw old in1) :
    Shown old cs (m.levels (hw.run es)) := by
  induction es generalizing in1 cs hw old with
  | nil =>
    cases in1 with
    | none =>
      have hlevels : m.levels (hw.run []) = old := hold
      rw [hlevels]
      exact .old
    | some level1 =>
      have hlevels : m.levels (hw.run []) = (level1, old.2) := hold
      rw [hlevels]
      obtain ⟨level, rest, rfl⟩ := Motor.exists_of_pending h
      exact .half
  | cons e es ih =>
    rcases Motor.commands?_cons hne h hold with ⟨in1', h', hold'⟩ | ⟨new, rest, rfl, h', hold'⟩
    · exact ih h' hold'
    · exact .new (ih h' hold')

/-- After all of the calls a motor shows its last command. -/
theorem Motor.levels_run (hne : m.in1 ≠ m.in2) {in1 : Option Bool}
    (h : m.commands? in1 es = some cs) (hold : m.Stands hw old in1) :
    m.levels (hw.run es) = cs.getLast?.getD old := by
  induction es generalizing in1 cs hw old with
  | nil =>
    cases in1 with
    | none => cases h; exact hold
    | some level1 => cases h
  | cons e es ih =>
    rcases Motor.commands?_cons hne h hold with ⟨in1', h', hold'⟩ | ⟨new, rest, rfl, h', hold'⟩
    · exact ih h' hold'
    · rw [List.getLast?_cons, Option.getD_some]
      exact ih h' hold'

/-- What shows is an earlier command, a command, or a motor that stands still; only from both inputs
low to the brake it is something else. -/
theorem Shown.cases (h : Shown old cs shown) (hcs : ∀ c ∈ cs, c ≠ (false, false)) :
    shown.1 = shown.2 ∨ shown ∈ old :: cs ∨
      (old = (false, false) ∧ cs.head? = some (true, true)) := by
  induction h with
  | old => exact .inr (.inl List.mem_cons_self)
  | @half old new cs =>
    have hnew := hcs new List.mem_cons_self
    obtain ⟨o1, o2⟩ := old
    obtain ⟨n1, n2⟩ := new
    cases o1 <;> cases o2 <;> cases n1 <;> cases n2 <;> simp_all
  | @new old new shown cs h ih =>
    obtain ⟨hnew, hcs⟩ := List.forall_mem_cons.1 hcs
    rcases ih hcs with hstop | hmem | ⟨hlow, -⟩
    · exact .inl hstop
    · exact .inr (.inl (List.mem_cons_of_mem old hmem))
    · exact absurd hlow hnew

/-! ## Records -/

/-- The commands that a record gives to a motor. -/
def Job.commands (m : Motor) (j : Job) : List (Bool × Bool) :=
  (m.commands? none (webRecdata j .init).2).getD []

/-- Every movement gives commands to every motor. -/
theorem ChassisPattern.commands?_drive (hm : m ∈ motors) (p : ChassisPattern) :
    (m.commands? none p.drive).isSome := by
  have hall : ∀ m ∈ motors, ∀ p : ChassisPattern, (m.commands? none p.drive).isSome := by decide
  exact hall m hm p

/-- A test in front of a movement. -/
theorem Motor.isSome_append_ite (h : (m.commands? none es).isSome) {p : ChassisPattern}
    (hm : m ∈ motors) (b : Prop) [Decidable b] :
    (m.commands? none (es ++ if b then p.drive else [])).isSome := by
  obtain ⟨cs, hcs⟩ := Option.isSome_iff_exists.1 h
  split
  · obtain ⟨cs', hcs'⟩ := Option.isSome_iff_exists.1 (p.commands?_drive hm)
    rw [Motor.commands?_append hcs hcs']
    rfl
  · rwa [List.append_nil]

/-- **The calls of a record.** They give commands to every motor, whatever the tracked angles
are. -/
theorem commands?_webRecdata (hm : m ∈ motors) (j : Job) (g : Angles) :
    m.commands? none (webRecdata j g).2 = some (j.commands m) := by
  have hdelay : m.commands? none [.vTaskDelay 6] = some [] := rfl
  have hlauncher : ∀ m ∈ motors,
      ∀ es ∈ [fireFrictionWheel, stopFireFriction, firePluckRun, stopFirePluck],
        (m.commands? none es).isSome := by decide
  by_cases hgimbal : dispatch j.record.urlBuff01 = some .gimbal
  · have hnone (g : Angles) : m.commands? none (webRecdata j g).2 = some [] := by
      simp only [webRecdata, hgimbal, Cmd.andThen, Cmd.emit, gimbalBranch_eq]
      cases gimbalPress j.myvalue with
      | none => rfl
      | some p =>
        rw [Option.elim_some, moveAxis_eq]
        rfl
    rw [hnone, Job.commands, hnone]
    rfl
  · have haddr : j.record.addresses ≠ .gimbal := mt URLData.addresses_eq_gimbal_iff.1 hgimbal
    have hsome : (m.commands? none (webRecdata j .init).2).isSome := by
      have hbody {es : List Effect} (h : (m.commands? none es).isSome) :
          (m.commands? none (es ++ [.vTaskDelay 6])).isSome := by
        obtain ⟨cs, hcs⟩ := Option.isSome_iff_exists.1 h
        rw [Motor.commands?_append hcs hdelay]
        rfl
      simp only [webRecdata, Cmd.andThen, Cmd.emit]
      cases hd : dispatch j.record.urlBuff01 with
      | none => exact hbody (ChassisPattern.stop.commands?_drive hm)
      | some c =>
        cases c with
        | gimbal => exact absurd hd hgimbal
        | blaste | fireSt | pluck1 | luck2P => exact hbody (hlauncher m hm _ (by simp [Cmd.emit]))
        | robott => rfl
        | rocker =>
          refine hbody ?_
          refine Motor.isSome_append_ite (p := .rightRevolve) ?_ hm _
          refine Motor.isSome_append_ite (p := .leftRevolve) ?_ hm _
          refine Motor.isSome_append_ite (p := .right) ?_ hm _
          refine Motor.isSome_append_ite (p := .left) ?_ hm _
          refine Motor.isSome_append_ite (p := .backward) ?_ hm _
          refine Motor.isSome_append_ite (p := .forward) ?_ hm _
          have hnil : (m.commands? none []).isSome := rfl
          exact Motor.isSome_append_ite (p := .stop) hnil hm _
    obtain ⟨cs, hcs⟩ := Option.isSome_iff_exists.1 hsome
    rw [webRecdata_of_not_gimbal haddr .init, Job.commands, hcs]
    rfl

/-- A motor has two inputs, and stands still at boot. -/
theorem motors_boot (hm : m ∈ motors) : m.in1 ≠ m.in2 ∧ m.levels boot.hw = (false, false) := by
  have hall : ∀ m ∈ motors, m.in1 ≠ m.in2 ∧ m.levels boot.hw = (false, false) := by decide
  exact hall m hm

/-- After a run of records a motor shows its last command. -/
theorem Robot.run_levels (hm : m ∈ motors) (js : List Job) :
    m.levels (boot.run js).hw =
      (js.flatMap (Job.commands m)).getLast?.getD (false, false) := by
  obtain ⟨hne, hboot⟩ := motors_boot hm
  induction js using List.reverseRecOn with
  | nil => exact hboot
  | append_singleton js j ih =>
    have hrun : boot.run (js ++ [j]) = (boot.run js).process j := List.foldl_concat ..
    have hlast := Motor.levels_run hne (commands?_webRecdata hm j (boot.run js).angles) ih
    rw [hrun, List.flatMap_append, List.flatMap_singleton, List.getLast?_append]
    refine hlast.trans ?_
    cases (j.commands m).getLast? <;> rfl

end

/-! ## The server -/

/-- The calls of the record that is being handled so far. -/
def Server.Halfway (s : Server) : Consumer → Prop
  | .driving _ job todo => ∃ done, (webRecdata job s.settled.angles).2 = done ++ todo ∧
      s.robot.hw = s.settled.hw.run done
  | .idle | .decoding _ _ => True

/-- The commands of a motor in the records that are complete. -/
def Server.given (s : Server) (m : Motor) : List (Bool × Bool) :=
  (s.processed.map Prod.snd).flatMap (Job.commands m)

/-- The commands of a motor in the record that is being handled. -/
def Server.giving (s : Server) (m : Motor) : List (Bool × Bool) :=
  s.consumer.job.toList.flatMap (Job.commands m)

section
variable {s t : Server} {indexHtml : List UInt8} {l : Label} {m : Motor}

/-- **One step.** Every step goes on with the calls of the record. -/
theorem Server.Halfway.step (hs : s.Halfway s.consumer) (hc : s.ConsumersOk)
    (hst : s.step indexHtml l = some t) : t.Halfway t.consumer := by
  cases l with
  | accept | malloc | createHandler | start | recv | act =>
    obtain ⟨hconsumers, -, hrobot, hprocessed⟩ := Server.step_consumers id hst
    have hsettled : t.settled = s.settled := by rw [Server.settled, hprocessed, Server.settled]
    unfold Server.Halfway at hs ⊢
    rwa [Server.consumer, hconsumers, hsettled, hrobot]
  | createConsumer ok =>
    obtain ⟨newFd, -, ⟨-, rfl⟩ | ⟨⟨hnone, -⟩, rfl⟩⟩ := Server.createConsumer_cases hst
    · exact hs
    · have hconsumer : (s.consumers ++ [Consumer.idle]).headD .idle = .idle := by
        rw [hc.handle hnone]
        rfl
      rw [Server.consumer, hconsumer]
      trivial
  | xQueueReceive k =>
    obtain ⟨c, record, box, hk, -, rfl⟩ := Server.xQueueReceive_cases hst
    rw [Server.consumer, (hc.consumer_eq hk).2.2]
    trivial
  | decode k tail =>
    obtain ⟨c, record, hk, rfl⟩ := Server.decode_cases hst
    have hsettled : s.robot = s.settled := hc.robotAt hk
    rw [Server.consumer, (hc.consumer_eq hk).2.2]
    refine ⟨[], ?_, ?_⟩
    · show (webRecdata ⟨record, tail⟩ s.settled.angles).2 = _
      rw [hsettled]
      rfl
    · show s.robot.hw = s.settled.hw
      rw [hsettled]
  | drive k =>
    obtain ⟨c, job, ⟨e, todo, hk, rfl⟩ | ⟨hk, rfl⟩⟩ := Server.drive_cases hst
    · obtain ⟨-, hdriving, hset⟩ := hc.consumer_eq hk
      rw [hdriving] at hs
      obtain ⟨done, hdone, hhw⟩ := hs
      rw [Server.consumer, hset]
      refine ⟨done ++ [e], ?_, ?_⟩
      · rw [List.append_assoc]
        exact hdone
      · show s.robot.hw.apply e = s.settled.hw.run (done ++ [e])
        rw [hhw, Hardware.run_append]
        rfl
    · rw [Server.consumer, (hc.consumer_eq hk).2.2]
      trivial

/-- The calls of the record, in every reachable state. -/
theorem Server.Reachable.halfway (h : s.Reachable indexHtml) : s.Halfway s.consumer :=
  h.rec_on (P := fun s => s.Halfway s.consumer) trivial fun _ _ _ hs ih hst =>
    ih.step (Server.Reachable.consumersOk hs) hst

/-- A write of the web server is a call of a record. -/
theorem Server.Reachable.mem_webRecdata (hs : s.Reachable indexHtml) {e : Effect}
    (h : s.write l = some e) : ∃ j g, e ∈ (webRecdata j g).2 := by
  unfold Server.write at h
  split at h
  · next k =>
    split at h
    · next c job e' todo hk =>
      split at h
      · cases h
        have hhalf := hs.halfway
        rw [(hs.consumersOk.consumer_eq hk).2.1] at hhalf
        obtain ⟨done, hdone, -⟩ := hhalf
        refine ⟨job, s.settled.angles, ?_⟩
        rw [hdone]
        exact List.mem_append_right _ List.mem_cons_self
      · cases h
    · cases h
  · cases h

/-- A motor shows its last command, or what the commands of the record let it show. -/
theorem Server.Reachable.shown (h : s.Reachable indexHtml) (hm : m ∈ motors) :
    Shown ((s.given m).getLast?.getD (false, false)) (s.giving m) (m.levels s.robot.hw) := by
  have hsettled : m.levels s.settled.hw = (s.given m).getLast?.getD (false, false) :=
    Robot.run_levels hm _
  have hat : s.RobotAt s.consumer := h.consumersOk.robot
  have hhalf := h.halfway
  unfold Server.giving
  cases hc : s.consumer with
  | idle | decoding =>
    rw [hc] at hat
    have hrobot : s.robot = s.settled := hat
    rw [hrobot, hsettled]
    exact .old
  | driving c job todo =>
    rw [hc] at hhalf
    obtain ⟨done, hdone, hhw⟩ := hhalf
    have hcommands := commands?_webRecdata hm job s.settled.angles
    rw [hdone] at hcommands
    rw [hhw]
    have hshown := Motor.shown_run (motors_boot hm).1 hcommands hsettled
    rwa [Consumer.job, Option.toList_some, List.flatMap_singleton]

/-- **No motor turns by itself.** In every reachable state a motor stands still, or has the levels
of its last command or of a command of the record that is being handled, or the first command that
it ever gets is the brake and under way. -/
theorem turns_as_ordered (hs : s.Reachable indexHtml) (hm : m ∈ motors) :
    m.Stopped s.robot.hw ∨
      m.levels s.robot.hw ∈ (s.given m).getLast?.toList ++ s.giving m ∨
      (s.given m = [] ∧ (s.giving m).head? = some (true, true)) := by
  have hnonzero (j : Job) : ∀ c ∈ j.commands m, c ≠ (false, false) :=
    Motor.ne_of_mem_commands? (commands?_webRecdata hm j .init)
  have hgiven : ∀ c ∈ s.given m, c ≠ (false, false) := by
    intro c hc
    obtain ⟨j, -, hmem⟩ := List.mem_flatMap.1 hc
    exact hnonzero j c hmem
  have hgiving : ∀ c ∈ s.giving m, c ≠ (false, false) := by
    intro c hc
    obtain ⟨j, -, hmem⟩ := List.mem_flatMap.1 hc
    exact hnonzero j c hmem
  have hcases := (hs.shown hm).cases hgiving
  cases hlast : (s.given m).getLast? with
  | none =>
    rw [hlast, Option.getD_none] at hcases
    rcases hcases with hstop | hmem | ⟨-, hbrake⟩
    · exact .inl hstop
    · rcases List.mem_cons.1 hmem with hlow | hmem
      · refine .inl ?_
        show (m.levels s.robot.hw).1 = (m.levels s.robot.hw).2
        rw [hlow]
      · exact .inr (.inl (List.mem_append_right _ hmem))
    · exact .inr (.inr ⟨List.getLast?_eq_none_iff.1 hlast, hbrake⟩)
  | some c =>
    rw [hlast, Option.getD_some] at hcases
    rcases hcases with hstop | hmem | ⟨hlow, -⟩
    · exact .inl hstop
    · exact .inr (.inl hmem)
    · exact absurd hlow (hgiven c (List.mem_of_getLast? hlast))

end

/-- The joystick moves, and three of the eight writes of its record are made. -/
def startingRun : List Label :=
  connect 54 0 ++ submit 0 forwardRequest ++ takeRecord ++ calls 3

/-- The third write has set the first input of motor D, whose command is (1, 0). -/
theorem turns_as_ordered_starting :
    motorD.Stopped (stateAfter startingRun).robot.hw ∨
      motorD.levels (stateAfter startingRun).robot.hw ∈
        ((stateAfter startingRun).given motorD).getLast?.toList ++
          (stateAfter startingRun).giving motorD ∨
      ((stateAfter startingRun).given motorD = [] ∧
        ((stateAfter startingRun).giving motorD).head? = some (true, true)) :=
  turns_as_ordered (reachable_stateAfter (by decide +kernel)) (by decide)

/-- The exception: the first write of the friction wheel's stop after power-on makes it turn as
`Fire_friction_wheel` does. -/
example : frictionMotor.levels (boot.hw.run (stopFireFriction.take 1)) =
    frictionMotor.levels (boot.hw.run fireFrictionWheel) := by decide

end InfantryRM

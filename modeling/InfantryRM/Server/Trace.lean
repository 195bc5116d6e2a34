import InfantryRM.Server.Capacity

/-!
# The order of the motor writes

Only the consumer reaches the drivers, and there is never more than one. So the actuator writes of a
run, in the order in which they happen (`Server.writes`), are the blocks of the records that were
taken from the queue, one after the other: a complete block for each record whose loop body is
complete, and of the block of a record that is being handled what has been written so far
(`writes_not_interleaved`).
-/

namespace InfantryRM

open Run Mailbox

/-! ## Writes -/

/-- The calls that write to an actuator. -/
def Effect.isWrite : Effect → Bool
  | .gpioSetLevel _ _ | .mcpwmSetDutyInUs _ _ => true
  | .vTaskDelay _ => false

/-- The writes that a record makes when the tracked angles are `g`. -/
def Job.block (j : Job) (g : Angles) : List Effect := (webRecdata j g).2.filter Effect.isWrite

/-- The blocks of records that are handled one after the other. -/
def Robot.blocks (rb : Robot) : List Job → List (List Effect)
  | [] => []
  | j :: js => j.block rb.angles :: (rb.process j).blocks js

/-- The write of a step. -/
def Server.write (s : Server) : Label → Option Effect
  | .drive k =>
    match s.consumers[k]? with
    | some (.driving _ _ (e :: _)) => if e.isWrite then some e else none
    | _ => none
  | _ => none

/-- The actuator writes of a run, in order. -/
def Server.writes (indexHtml : List UInt8) (ls : List Label) : List Effect :=
  outputs (Server.step indexHtml) Server.write .init ls

/-- The consumer, which is idle before it is created. -/
def Server.consumer (s : Server) : Consumer := s.consumers.headD .idle

/-- The record whose calls a consumer performs. -/
def Consumer.job : Consumer → Option Job
  | .driving _ job _ => some job
  | .idle | .decoding _ _ => none

/-- The writes that a consumer has still to make. -/
def Consumer.unwritten : Consumer → List Effect
  | .driving _ _ todo => todo.filter Effect.isWrite
  | .idle | .decoding _ _ => []

/-- The writes so far are the blocks of the complete records and a part of the block of the record
that is being handled. -/
def Server.TraceOk (s : Server) (writes : List Effect) : Prop :=
  ∃ written, writes = (boot.blocks (s.processed.map Prod.snd)).flatten ++ written ∧
    written ++ s.consumer.unwritten = (s.settled.blocks s.consumer.job.toList).flatten

section
variable {s t : Server} {indexHtml : List UInt8} {l : Label} {writes : List Effect}

/-- The blocks of two runs of records. -/
theorem Robot.blocks_append (rb : Robot) (js js' : List Job) :
    rb.blocks (js ++ js') = rb.blocks js ++ (rb.run js).blocks js' := by
  induction js generalizing rb with
  | nil => rfl
  | cons j js ih => exact congrArg _ (ih (rb.process j))

/-- A consumer that moves is the consumer. -/
theorem Server.ConsumersOk.consumer_eq (hs : s.ConsumersOk) {k : Nat} {x : Consumer}
    (hk : s.consumers[k]? = some x) :
    k = 0 ∧ s.consumer = x ∧ ∀ y, (s.consumers.set k y).headD .idle = y := by
  obtain ⟨rfl, hc⟩ := hs.eq hk
  refine ⟨rfl, ?_, fun y => ?_⟩
  · rw [Server.consumer, hc]
    rfl
  · rw [hc]
    rfl

/-- A step that makes no write, and leaves the record that is being handled and the complete ones
alone. -/
theorem Server.TraceOk.congr (hs : s.TraceOk writes) (hjob : t.consumer.job = s.consumer.job)
    (hunwritten : t.consumer.unwritten = s.consumer.unwritten)
    (hprocessed : t.processed = s.processed) (hwrite : s.write l = none) :
    t.TraceOk (writes ++ (s.write l).toList) := by
  have hsettled : t.settled = s.settled := by rw [Server.settled, hprocessed, Server.settled]
  obtain ⟨written, hwrites, hblock⟩ := hs
  refine ⟨written, ?_, ?_⟩
  · rw [hwrite, hprocessed, hwrites, Option.toList_none, List.append_nil]
  · rw [hunwritten, hjob, hsettled, hblock]

/-- **One step.** Every step keeps the writes in blocks. -/
theorem Server.TraceOk.step (hs : s.TraceOk writes) (hc : s.ConsumersOk)
    (hst : s.step indexHtml l = some t) : t.TraceOk (writes ++ (s.write l).toList) := by
  cases l with
  | accept | malloc | createHandler | start | recv | act =>
    obtain ⟨hconsumers, -, -, hprocessed⟩ := Server.step_consumers id hst
    have hconsumer : t.consumer = s.consumer := by rw [Server.consumer, hconsumers, Server.consumer]
    exact hs.congr (congrArg _ hconsumer) (congrArg _ hconsumer) hprocessed rfl
  | createConsumer ok =>
    obtain ⟨newFd, -, ⟨-, rfl⟩ | ⟨⟨hnone, -⟩, rfl⟩⟩ := Server.createConsumer_cases hst
    · exact hs.congr rfl rfl rfl rfl
    · have hconsumer : (s.consumers ++ [Consumer.idle]).headD .idle = s.consumer := by
        rw [Server.consumer, hc.handle hnone]
        rfl
      exact hs.congr (congrArg _ hconsumer) (congrArg _ hconsumer) rfl rfl
  | xQueueReceive k =>
    obtain ⟨c, record, box, hk, -, rfl⟩ := Server.xQueueReceive_cases hst
    obtain ⟨rfl, hidle, hset⟩ := hc.consumer_eq hk
    refine hs.congr ?_ ?_ rfl rfl
    · rw [hidle, Server.consumer, hset]
      rfl
    · rw [hidle, Server.consumer, hset]
      rfl
  | decode k tail =>
    obtain ⟨c, record, hk, rfl⟩ := Server.decode_cases hst
    obtain ⟨rfl, hdecoding, hset⟩ := hc.consumer_eq hk
    have hsettled : s.robot = s.settled := hc.robotAt hk
    obtain ⟨written, hwrites, hblock⟩ := hs
    rw [hdecoding] at hblock
    refine ⟨written, hwrites ▸ List.append_nil _, ?_⟩
    rw [Server.consumer, hset]
    have hnil : written = [] := (List.append_nil written).symm.trans hblock
    rw [hnil, hsettled]
    exact (List.append_nil _).symm
  | drive k =>
    obtain ⟨c, job, ⟨e, todo, hk, rfl⟩ | ⟨hk, rfl⟩⟩ := Server.drive_cases hst
    · obtain ⟨rfl, hdriving, hset⟩ := hc.consumer_eq hk
      obtain ⟨written, hwrites, hblock⟩ := hs
      rw [hdriving] at hblock
      have hwrite : s.write (.drive 0) = if e.isWrite then some e else none := by
        simp only [Server.write, hk]
      refine ⟨written ++ (s.write (.drive 0)).toList, ?_, ?_⟩
      · rw [hwrites, List.append_assoc]
      · rw [Server.consumer, hset]
        refine Eq.trans ?_ hblock
        rw [hwrite, List.append_assoc]
        refine congrArg _ ?_
        show _ ++ todo.filter _ = (e :: todo).filter _
        rw [List.filter_cons]
        split <;> rfl
    · obtain ⟨rfl, hdriving, hset⟩ := hc.consumer_eq hk
      obtain ⟨written, hwrites, hblock⟩ := hs
      rw [hdriving] at hblock
      have hwritten : written = (s.settled.blocks [job]).flatten :=
        (List.append_nil written).symm.trans hblock
      have hnone : s.write (.drive 0) = none := by simp only [Server.write, hk]
      refine ⟨[], ?_, ?_⟩
      · rw [hwrites, hwritten, hnone]
        simp only [List.map_append, List.map_singleton, Robot.blocks_append, List.flatten_append]
        simp only [Option.toList_none, List.append_nil]
        rfl
      · rw [Server.consumer, hset]
        rfl

/-- **Serialisation.** In every run there is at most one consumer. The records it has taken from the
queue are those that are complete and the one it holds, and the actuator writes of the run are the
complete blocks of the former in this order, and a part of the block of the latter. -/
theorem writes_not_interleaved {ls : List Label}
    (h : exec (Server.step indexHtml) .init ls = some s) :
    s.consumers.length ≤ 1 ∧
      s.box.received = s.processedRecords ++ s.consumer.held.toList ∧
      (∃ written, Server.writes indexHtml ls =
          (boot.blocks (s.processed.map Prod.snd)).flatten ++ written ∧
        written ++ s.consumer.unwritten =
          ((boot.run (s.processed.map Prod.snd)).blocks s.consumer.job.toList).flatten) ∧
      (s.consumer.job = none →
        Server.writes indexHtml ls = (boot.blocks (s.processed.map Prod.snd)).flatten) := by
  have hs : s.Reachable indexHtml := ⟨ls, h⟩
  have htrace : s.TraceOk (Server.writes indexHtml ls) := by
    refine exec_rec_on (P := fun ls s => s.TraceOk (Server.writes indexHtml ls)) h ⟨[], rfl, rfl⟩ ?_
    intro ls s l t hexec ih hst
    rw [Server.writes, outputs_append_singleton hexec]
    exact ih.step (Server.Reachable.consumersOk ⟨ls, hexec⟩) hst
  refine ⟨hs.consumersOk.single, hs.latestWins_inv.taken, htrace, fun hnone => ?_⟩
  obtain ⟨written, hwrites, hblock⟩ := htrace
  rw [hnone] at hblock
  have hnil : written = [] := (List.append_eq_nil_iff.1 hblock).1
  rw [hwrites, hnil, List.append_nil]

end

/-- The joystick moves, and its record is handled. -/
def forwardRun : List Label :=
  connect 54 0 ++ submit 0 forwardRequest ++ takeRecord ++ calls 10

/-- The writes of one record. -/
theorem writes_not_interleaved_forward :
    Server.writes [] forwardRun =
      (boot.blocks ((stateAfter forwardRun).processed.map Prod.snd)).flatten :=
  (writes_not_interleaved (exec_eq_getD (by decide +kernel))).2.2.2 (by decide +kernel)

end InfantryRM

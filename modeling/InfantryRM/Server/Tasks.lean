import InfantryRM.Lib.LatestWins
import InfantryRM.Server.Model

/-!
# What holds in every state of the server

A handler touches the queue at most twice, with a reset and then the send of one record
(`orderly_handleHttpRequest`). At most one consumer exists, and at the head of its loop the robot is
in the state that the complete jobs lead to, handled one after the other
(`Server.Reachable.robot_eq`).

So the server is an instance of producers that empty the queue before they send:
`Server.latestWins` forgets descriptors, cells and the robot, and every step of the server is a step
of `LatestWins` or none (`Server.Reachable.latestWins`).
-/

namespace InfantryRM

open Run Mailbox LatestWins

/-! ## The actions of a handler -/

/-- An action that does not touch the queue. -/
def Action.Quiet : Action → Prop
  | .xQueueReset | .xQueueSend _ => False
  | _ => True

/-- What a handler may still have to do: a reset followed by a send, a send, or no queue operation
at all. -/
inductive Orderly : List Action → Prop
  | reset {record : URLData} {rest : List Action} :
    (∀ a ∈ rest, a.Quiet) → Orderly (.xQueueReset :: .xQueueSend record :: rest)
  | send {record : URLData} {rest : List Action} :
    (∀ a ∈ rest, a.Quiet) → Orderly (.xQueueSend record :: rest)
  | quiet {rest : List Action} : (∀ a ∈ rest, a.Quiet) → Orderly rest

/-- **The handler and the queue.** A handler resets the queue and sends one record right after that,
or it does not touch the queue. -/
theorem handleHttpRequest_queue (indexHtml : List UInt8) (r : Option Received) :
    (∃ record rest, handleHttpRequest indexHtml r = .xQueueReset :: .xQueueSend record :: rest ∧
      ∀ a ∈ rest, a.Quiet) ∨ ∀ a ∈ handleHttpRequest indexHtml r, a.Quiet := by
  have herror : ∀ a ∈ requstError, a.Quiet := by
    intro a ha
    fin_cases ha <;> trivial
  cases r with
  | none => exact .inr herror
  | some r =>
    simp only [handleHttpRequest]
    split
    · exact .inr herror
    · next c hc =>
      split
      · next e he =>
        refine .inr ?_
        intro a ha
        rw [List.mem_singleton.1 ha]
        trivial
      · next record hrec =>
        refine .inl ⟨record, _, rfl, fun a ha => ?_⟩
        rcases List.mem_append.1 ha with hmem | hmem
        · unfold respond at hmem
          split at hmem
          · fin_cases hmem <;> trivial
          · rw [List.mem_singleton.1 hmem]
            trivial
        · rcases List.mem_cons.1 hmem with rfl | hmem
          · trivial
          · exact herror a hmem

/-- The actions of a handler reach the queue in order. -/
theorem orderly_handleHttpRequest (indexHtml : List UInt8) (r : Option Received) :
    Orderly (handleHttpRequest indexHtml r) := by
  rcases handleHttpRequest_queue indexHtml r with ⟨record, rest, heq, hrest⟩ | hquiet
  · rw [heq]
    exact .reset hrest
  · exact .quiet hquiet

/-- The phase of a handler, by its next action. -/
def Handler.phase : Handler → Phase
  | .absent | .starting _ | .receiving _ => .fresh
  | .running _ (.xQueueReset :: _) => .fresh
  | .running _ (.xQueueSend _ :: _) => .between
  | .running _ _ => .finished
  | .deleted => .finished

/-- A handler without queue operations is through with the queue. -/
theorem Handler.phase_of_quiet {fd : Nat} {todo : List Action} (h : ∀ a ∈ todo, a.Quiet) :
    (Handler.running fd todo).phase = .finished := by
  cases todo with
  | nil => rfl
  | cons a todo =>
    have ha := h a List.mem_cons_self
    cases a with
    | xQueueReset | xQueueSend => exact ha.elim
    | myWrite | vTaskDelay | close | vTaskDelete | outOfBounds => rfl

/-- After a quiet action only quiet actions follow. -/
theorem Orderly.tail_of_quiet {a : Action} {todo : List Action} (h : Orderly (a :: todo))
    (ha : a.Quiet) : ∀ b ∈ todo, b.Quiet := by
  cases h with
  | reset | send => exact ha.elim
  | quiet h => exact fun b hb => h b (List.mem_cons_of_mem a hb)

/-- The rest of an orderly list is orderly. -/
theorem Orderly.tail {a : Action} {todo : List Action} (h : Orderly (a :: todo)) :
    Orderly todo := by
  cases h with
  | reset h => exact .send h
  | send h => exact .quiet h
  | quiet h => exact .quiet fun b hb => h b (List.mem_cons_of_mem a hb)

/-! ## Handlers -/

/-- Connections that the loop has not reached have no handler, and the remaining actions of every
handler are orderly. -/
structure Server.HandlersOk (s : Server) : Prop where
  absent : ∀ c, s.conns ≤ c → s.handlers c = .absent
  orderly : ∀ c fd todo, s.handlers c = .running fd todo → Orderly todo

section
variable {s t : Server} {indexHtml : List UInt8} {c : Nat} {h : Handler}

/-- Moving a handler that exists. -/
theorem Server.HandlersOk.update (hs : s.HandlersOk) (hc : s.handlers c ≠ .absent)
    (hh : ∀ fd todo, h = .running fd todo → Orderly todo) (hconns : t.conns = s.conns)
    (ht : t.handlers = Function.update s.handlers c h) : t.HandlersOk where
  absent c' hc' := by
    have habsent := hs.absent c' (hconns ▸ hc')
    have hne : c' ≠ c := by
      rintro rfl
      exact hc habsent
    rw [ht, Function.update_of_ne hne, habsent]
  orderly c' fd todo hrun := by
    rw [ht] at hrun
    rcases eq_or_ne c' c with rfl | hne
    · rw [Function.update_self] at hrun
      exact hh fd todo hrun
    · rw [Function.update_of_ne hne] at hrun
      exact hs.orderly c' fd todo hrun

/-- Every step keeps the handlers as they should be. -/
theorem Server.HandlersOk.step (hs : s.HandlersOk) {l : Label} (hst : s.step indexHtml l = some t) :
    t.HandlersOk := by
  cases l with
  | createHandler ok =>
    obtain ⟨paraFd, -, ⟨-, rfl⟩ | ⟨-, rfl⟩⟩ := Server.createHandler_cases hst
    · exact ⟨fun c hc => hs.absent c (Nat.le_of_succ_le hc), hs.orderly⟩
    · refine ⟨?_, ?_⟩
      · intro c hc
        have hne : c ≠ s.conns := (Nat.lt_of_succ_le hc).ne'
        exact (Function.update_of_ne hne ..).trans (hs.absent c (Nat.le_of_succ_le hc))
      · intro c fd todo hrun
        rcases eq_or_ne c s.conns with rfl | hne
        · have hnew : Handler.starting paraFd = .running fd todo :=
            (Function.update_self ..).symm.trans hrun
          cases hnew
        · exact hs.orderly c fd todo ((Function.update_of_ne hne ..).symm.trans hrun)
  | start c =>
    obtain ⟨paraFd, fd, hc, -, rfl⟩ := Server.start_cases hst
    exact hs.update (h := .receiving fd) (by rw [hc]; exact nofun) nofun rfl rfl
  | recv c r =>
    obtain ⟨fd, hc, rfl⟩ := Server.recv_cases hst
    refine hs.update (by rw [hc]; exact nofun) (fun fd todo hrun => ?_) rfl rfl
    cases hrun
    exact orderly_handleHttpRequest indexHtml r
  | act c =>
    obtain ⟨fd, a, todo, hc, hcases⟩ := Server.act_cases hst
    have hne : s.handlers c ≠ .absent := by rw [hc]; exact nofun
    have htail : ∀ fd' todo', Handler.running fd todo = .running fd' todo' → Orderly todo' := by
      intro fd' todo' hrun
      cases hrun
      exact (hs.orderly c fd _ hc).tail
    rcases hcases with ⟨-, rfl⟩ | ⟨record, -, rfl⟩ | ⟨-, rfl⟩ | ⟨-, rfl⟩ | ⟨-, rfl⟩
    · exact hs.update hne htail rfl rfl
    · exact hs.update hne htail rfl rfl
    · exact hs.update hne htail rfl rfl
    · exact hs.update hne htail rfl rfl
    · exact hs.update (h := .deleted) hne nofun rfl rfl
  | accept | createConsumer | malloc | xQueueReceive | decode | drive =>
    obtain ⟨hhandlers, hconns⟩ := Server.step_handlers id hst
    exact ⟨by rw [hhandlers, hconns]; exact hs.absent, by rw [hhandlers]; exact hs.orderly⟩

/-- The handlers of every reachable state. -/
theorem Server.Reachable.handlersOk (h : s.Reachable indexHtml) : s.HandlersOk :=
  h.invariant ⟨fun _ _ => rfl, nofun⟩ fun _ _ _ hs => hs.step

end

/-! ## Consumers -/

/-- The record that a consumer has taken and is not done with. -/
def Consumer.held : Consumer → Option (Nat × URLData)
  | .idle => none
  | .decoding c record => some (c, record)
  | .driving c job _ => some (c, job.record)

/-- The state that the complete jobs lead to, handled one after the other. -/
def Server.settled (s : Server) : Robot := boot.run (s.processed.map Prod.snd)

/-- Where a consumer has brought the robot. -/
def Server.RobotAt (s : Server) : Consumer → Prop
  | .driving _ job todo =>
    (⟨s.robot.angles, s.robot.hw.run todo⟩ : Robot) = s.settled.process job
  | .idle | .decoding _ _ => s.robot = s.settled

/-- There is at most one consumer, none before `urlRecHandle` is set, and the robot is where the
consumer has brought it. -/
structure Server.ConsumersOk (s : Server) : Prop where
  single : s.consumers.length ≤ 1
  handle : s.urlRecHandle = false → s.consumers = []
  robot : s.RobotAt (s.consumers.headD .idle)

section
variable {s t : Server} {indexHtml : List UInt8} {k : Nat} {x : Consumer}

/-- A consumer that moves is the only one. -/
theorem Server.ConsumersOk.eq (hs : s.ConsumersOk) (hk : s.consumers[k]? = some x) :
    k = 0 ∧ s.consumers = [x] := by
  have hsingle := hs.single
  rcases hc : s.consumers with _ | ⟨y, _ | ⟨z, rest⟩⟩
  · rw [hc] at hk
    cases hk
  · rw [hc] at hk
    cases k with
    | zero => cases hk; exact ⟨rfl, rfl⟩
    | succ k => cases hk
  · rw [hc] at hsingle
    exact absurd hsingle (by simp)

/-- The robot is where the consumer that moves has brought it. -/
theorem Server.ConsumersOk.robotAt (hs : s.ConsumersOk) (hk : s.consumers[k]? = some x) :
    s.RobotAt x := by
  have hrobot := hs.robot
  rwa [(hs.eq hk).2] at hrobot

/-- Moving the consumer. -/
theorem Server.ConsumersOk.moved {y : Consumer} (hs : s.ConsumersOk)
    (hk : s.consumers[k]? = some x) (ht : t.consumers = s.consumers.set k y)
    (hhandle : t.urlRecHandle = s.urlRecHandle) (hrobot : t.RobotAt y) : t.ConsumersOk := by
  obtain ⟨rfl, hc⟩ := hs.eq hk
  have hset : t.consumers = [y] := by rw [ht, hc]; rfl
  refine ⟨by simp [hset], ?_, by rw [hset]; exact hrobot⟩
  intro hnone
  have hnil := hs.handle (hhandle ▸ hnone)
  rw [hc] at hnil
  cases hnil

/-- What leaves the consumers and the robot alone keeps the consumer as it should be. -/
theorem Server.ConsumersOk.congr (hs : s.ConsumersOk) (h : t.consumers = s.consumers ∧
    t.urlRecHandle = s.urlRecHandle ∧ t.robot = s.robot ∧ t.processed = s.processed) :
    t.ConsumersOk := by
  obtain ⟨hconsumers, hhandle, hrobot, hprocessed⟩ := h
  have hsettled : t.settled = s.settled := by rw [Server.settled, hprocessed, Server.settled]
  refine ⟨by rw [hconsumers]; exact hs.single, by rw [hconsumers, hhandle]; exact hs.handle, ?_⟩
  have hat := hs.robot
  rw [hconsumers]
  unfold Server.RobotAt at hat ⊢
  rwa [hrobot, hsettled]

/-- Every step keeps the consumer as it should be. -/
theorem Server.ConsumersOk.step (hs : s.ConsumersOk) {l : Label}
    (hst : s.step indexHtml l = some t) : t.ConsumersOk := by
  cases l with
  | accept | malloc | createHandler | start | recv | act =>
    exact hs.congr (Server.step_consumers id hst)
  | createConsumer ok =>
    obtain ⟨newFd, -, ⟨-, rfl⟩ | ⟨⟨hnone, -⟩, rfl⟩⟩ := Server.createConsumer_cases hst
    · exact ⟨hs.single, hs.handle, hs.robot⟩
    · have hnil := hs.handle hnone
      have hrobot := hs.robot
      rw [hnil] at hrobot
      refine ⟨?_, nofun, ?_⟩
      · simp [hnil]
      · simp only [hnil, List.nil_append, List.headD_cons]
        exact hrobot
  | xQueueReceive k =>
    obtain ⟨c, record, box, hk, -, rfl⟩ := Server.xQueueReceive_cases hst
    have hrobot : s.robot = s.settled := hs.robotAt hk
    exact hs.moved (y := .decoding c record) hk rfl rfl hrobot
  | decode k tail =>
    obtain ⟨c, record, hk, rfl⟩ := Server.decode_cases hst
    have hrobot : s.robot = s.settled := hs.robotAt hk
    refine hs.moved (y := .driving c ⟨record, tail⟩ _) hk rfl rfl ?_
    show _ = s.settled.process ⟨record, tail⟩
    rw [← hrobot]
    rfl
  | drive k =>
    obtain ⟨c, job, ⟨e, todo, hk, rfl⟩ | ⟨hk, rfl⟩⟩ := Server.drive_cases hst
    · have hrobot : (⟨s.robot.angles, s.robot.hw.run (e :: todo)⟩ : Robot) =
          s.settled.process job := hs.robotAt hk
      exact hs.moved (y := .driving c job todo) hk rfl rfl hrobot
    · have hrobot : s.robot = s.settled.process job := hs.robotAt hk
      refine hs.moved (y := .idle) hk rfl rfl ?_
      show s.robot = boot.run ((s.processed ++ [(c, job)]).map Prod.snd)
      rw [hrobot, List.map_append, List.map_singleton]
      exact (List.foldl_concat ..).symm

/-- The consumer of every reachable state. -/
theorem Server.Reachable.consumersOk (h : s.Reachable indexHtml) : s.ConsumersOk :=
  h.invariant ⟨Nat.zero_le 1, fun _ => rfl, rfl⟩ fun _ _ _ hs => hs.step

/-- **One record at a time.** When no record is being handled, the robot is in the state that the
complete jobs lead to, each handled as a whole and one after the other. -/
theorem Server.Reachable.robot_eq (h : s.Reachable indexHtml)
    (hidle : ∀ k ∈ s.consumers, k = .idle) : s.robot = boot.run (s.processed.map Prod.snd) := by
  have hrobot := h.consumersOk.robot
  rcases hc : s.consumers with _ | ⟨y, rest⟩
  · rw [hc] at hrobot
    exact hrobot
  · have hy := hidle y (hc ▸ List.mem_cons_self)
    rw [hc, List.headD_cons, hy] at hrobot
    exact hrobot

end

/-! ## The abstract server -/

/-- The server as producers that empty the queue before they send, and a consumer. -/
def Server.latestWins (s : Server) : LatestWins.State Nat URLData where
  phase := Handler.phase ∘ s.handlers
  box := s.box
  held := (s.consumers.headD .idle).held
  processed := s.processed.map fun x => (x.1, x.2.record)

section
variable {s t : Server} {indexHtml : List UInt8} {c : Nat} {h : Handler}

/-- A handler that moves within its phase. -/
theorem Server.phase_update (hp : h.phase = (s.handlers c).phase) :
    Handler.phase ∘ Function.update s.handlers c h = Handler.phase ∘ s.handlers := by
  rw [Function.comp_update, hp]
  exact Function.update_eq_self c _

/-- An action of a handler is a reset or a send of the abstract server, or none of its steps. -/
theorem Server.latestWins_act (hh : s.HandlersOk) (hst : s.act c = some t) :
    t.latestWins = s.latestWins ∨
      ∃ k, LatestWins.step queueLength s.latestWins k = some t.latestWins := by
  obtain ⟨fd, a, todo, hrunning, hcases⟩ := Server.act_cases hst
  have horderly := hh.orderly c fd _ hrunning
  have hquiet (ha : a.Quiet) (h : Handler) (hfinished : h.phase = .finished) :
      Handler.phase ∘ Function.update s.handlers c h = Handler.phase ∘ s.handlers := by
    refine Server.phase_update ?_
    rw [hfinished, hrunning]
    refine (Handler.phase_of_quiet fun b hb => ?_).symm
    rcases List.mem_cons.1 hb with rfl | hb
    · exact ha
    · exact horderly.tail_of_quiet ha b hb
  rcases hcases with ⟨rfl, rfl⟩ | ⟨record, rfl, rfl⟩ | ⟨ha, rfl⟩ | ⟨rfl, rfl⟩ | ⟨rfl, rfl⟩
  · refine .inr ⟨.reset c, ?_⟩
    have hfresh : (s.handlers c).phase = .fresh := by rw [hrunning]; rfl
    have hbetween : (Handler.running fd todo).phase = .between := by
      cases horderly with
      | reset => rfl
      | quiet hquiet => exact (hquiet _ List.mem_cons_self).elim
    simp only [LatestWins.step, Server.latestWins, Function.comp_apply, hfresh, if_true,
      Function.comp_update, hbetween]
  · refine .inr ⟨.send c record, ?_⟩
    have hbetween : (s.handlers c).phase = .between := by rw [hrunning]; rfl
    have hfinished : (Handler.running fd todo).phase = .finished := by
      cases horderly with
      | send hrest => exact Handler.phase_of_quiet hrest
      | quiet hquiet => exact (hquiet _ List.mem_cons_self).elim
    simp only [LatestWins.step, Server.latestWins, Function.comp_apply, hbetween, if_true,
      Function.comp_update, hfinished]
  · have ha : a.Quiet := by
      rcases ha with ⟨data, rfl⟩ | ⟨ticks, rfl⟩ <;> trivial
    refine .inl ?_
    simp only [Server.latestWins]
    rw [hquiet ha _ (Handler.phase_of_quiet (horderly.tail_of_quiet ha))]
  · have ha : Action.close.Quiet := trivial
    refine .inl ?_
    simp only [Server.latestWins]
    rw [hquiet ha _ (Handler.phase_of_quiet (horderly.tail_of_quiet ha))]
  · refine .inl ?_
    simp only [Server.latestWins]
    rw [hquiet trivial .deleted rfl]

/-- A step of the server is a step of the abstract server, or none. -/
theorem Server.latestWins_step (hh : s.HandlersOk) (hc : s.ConsumersOk) {l : Label}
    (hst : s.step indexHtml l = some t) :
    t.latestWins = s.latestWins ∨
      ∃ k, LatestWins.step queueLength s.latestWins k = some t.latestWins := by
  cases l with
  | accept newFd =>
    obtain ⟨-, -, rfl⟩ := Server.accept_cases hst
    exact .inl rfl
  | createConsumer ok =>
    obtain ⟨newFd, -, ⟨-, rfl⟩ | ⟨⟨hnone, -⟩, rfl⟩⟩ := Server.createConsumer_cases hst
    · exact .inl rfl
    · refine .inl ?_
      simp [Server.latestWins, hc.handle hnone]
  | malloc =>
    obtain ⟨newFd, -, rfl⟩ := Server.malloc_cases hst
    exact .inl rfl
  | createHandler ok =>
    obtain ⟨paraFd, -, ⟨-, rfl⟩ | ⟨-, rfl⟩⟩ := Server.createHandler_cases hst
    · exact .inl rfl
    · refine .inl ?_
      have habsent := hh.absent s.conns le_rfl
      simp only [Server.latestWins]
      rw [Server.phase_update (by rw [habsent]; rfl)]
  | start c =>
    obtain ⟨paraFd, fd, hstarting, -, rfl⟩ := Server.start_cases hst
    refine .inl ?_
    simp only [Server.latestWins]
    rw [Server.phase_update (by rw [hstarting]; rfl)]
  | recv c r =>
    obtain ⟨fd, hreceiving, rfl⟩ := Server.recv_cases hst
    have hfresh : (s.handlers c).phase = .fresh := by rw [hreceiving]; rfl
    rcases handleHttpRequest_queue indexHtml r with ⟨record, rest, heq, -⟩ | hquiet
    · refine .inl ?_
      simp only [Server.latestWins]
      rw [Server.phase_update (by rw [hfresh, heq]; rfl)]
    · -- a request without a record leaves the queue alone for good
      refine .inr ⟨.giveUp c, ?_⟩
      simp only [LatestWins.step, Server.latestWins, Function.comp_apply, hfresh, if_true,
        Function.comp_update, Handler.phase_of_quiet hquiet]
  | act c => exact Server.latestWins_act hh hst
  | xQueueReceive k =>
    obtain ⟨c, record, box, hk, hbox, rfl⟩ := Server.xQueueReceive_cases hst
    obtain ⟨rfl, hone⟩ := hc.eq hk
    refine .inr ⟨.receive, ?_⟩
    simp [LatestWins.step, Server.latestWins, hone, hbox, Consumer.held]
  | decode k tail =>
    obtain ⟨c, record, hk, rfl⟩ := Server.decode_cases hst
    obtain ⟨rfl, hone⟩ := hc.eq hk
    refine .inl ?_
    simp [Server.latestWins, hone, Consumer.held]
  | drive k =>
    obtain ⟨c, job, ⟨e, todo, hk, rfl⟩ | ⟨hk, rfl⟩⟩ := Server.drive_cases hst
    · obtain ⟨rfl, hone⟩ := hc.eq hk
      refine .inl ?_
      simp [Server.latestWins, hone, Consumer.held]
    · obtain ⟨rfl, hone⟩ := hc.eq hk
      refine .inr ⟨.done, ?_⟩
      simp [LatestWins.step, Server.latestWins, hone, Consumer.held]

/-- **Refinement.** Every run of the server is a run of the abstract server. -/
theorem Server.Reachable.latestWins (h : s.Reachable indexHtml) :
    Run.Reachable (LatestWins.step queueLength) .init s.latestWins :=
  h.simulate Server.latestWins fun _ _ _ hs hst =>
    Server.latestWins_step (Server.Reachable.handlersOk hs) (Server.Reachable.consumersOk hs) hst

/-- The invariant of the abstract server. -/
theorem Server.Reachable.latestWins_inv (h : s.Reachable indexHtml) :
    LatestWins.Inv s.latestWins :=
  inv_of_reachable (by decide) h.latestWins

end

end InfantryRM

import InfantryRM.Robot.Pose
import InfantryRM.Server.Progress
import InfantryRM.Web.Segments

/-!
# A client that waits

Commands get lost when connections overlap: a handler empties the queue, whatever waits there. A
client that opens a connection only when the work of the earlier ones is done (`Sequential`) loses
nothing. Whatever the order of the steps is otherwise, the queue is then empty
whenever a handler resets it, no record is discarded, and the consumer processes the records of the
requests in the order in which they came (`waiting_client_served`). So in the end the robot is in
the pose that the requests order.
-/

namespace InfantryRM

open Run Mailbox

/-- The record of the request that a handler receives with a step. -/
def Label.request (indexHtml : List UInt8) : Label → Option (Nat × URLData)
  | .recv c r => ((handleHttpRequest indexHtml r).findSome? Action.record?).map (c, ·)
  | _ => none

/-- The records of the requests of a run, with their connections, in the order of their receipt. -/
def requests (indexHtml : List UInt8) (ls : List Label) : List (Nat × URLData) :=
  ls.filterMap (Label.request indexHtml)

/-- Every connection of the run arrives when the system is at rest and the queue empty. -/
def Sequential (indexHtml : List UInt8) (ls : List Label) : Prop :=
  ∀ x ∈ steps (Server.step indexHtml) .init ls, x.2.IsAccept → x.1.AtRest ∧ x.1.box.queue = []

/-- The record that a handler has received and not sent yet. -/
def Handler.toSend : Handler → List URLData
  | .running _ (.xQueueReset :: .xQueueSend record :: _) => [record]
  | .running _ (.xQueueSend record :: _) => [record]
  | _ => []

/-- What holds in a run with a client that waits: all handlers but the one of connection `c` have
ended, nothing was discarded, nothing is in the queue or with the consumer until that handler has
sent its record, and the records of the requests were sent, up to the one that the handler has. -/
structure Server.Served (s : Server) (rs : List (Nat × URLData)) (c : Nat) : Prop where
  others : ∀ c', c' ≠ c → (s.handlers c').Ended
  listener : s.listener ≠ .accepting → c = s.conns
  kept : ∀ x ∈ s.box.removed, x.2 = .received
  waiting : (s.handlers c).phase ≠ .finished → s.box.queue = [] ∧ ∀ k ∈ s.consumers, k = .idle
  log : s.box.sent ++ (s.handlers c).toSend.map (c, ·) = rs

section
variable {s t : Server} {indexHtml : List UInt8} {c k : Nat} {h : Handler} {l : Label}
  {rs rs' : List (Nat × URLData)}

/-- A handler that has ended has nothing to send. -/
theorem Handler.Ended.toSend (hh : h.Ended) : h.toSend = [] := by
  rcases hh with rfl | rfl | ⟨fd, i, todo, rfl⟩
  · rfl
  · rfl
  · rfl

/-- A handler without queue operations has nothing to send. -/
theorem Handler.toSend_of_quiet {fd : Nat} {todo : List Action} (hq : ∀ a ∈ todo, a.Quiet) :
    (Handler.running fd todo).toSend = [] := by
  cases todo with
  | nil => rfl
  | cons a todo =>
    have ha := hq a List.mem_cons_self
    cases a with
    | xQueueReset | xQueueSend => exact ha.elim
    | myWrite | vTaskDelay | close | vTaskDelete | outOfBounds => rfl

/-- A handler that performs actions is the one that has not ended. -/
theorem Server.Served.eq_of_not_ended (hs : s.Served rs c) {c' : Nat}
    (hne : ¬ (s.handlers c').Ended) : c' = c := by
  by_contra hc
  exact hne (hs.others c' hc)

/-- The handler that has not ended moves, and the queue with it. -/
theorem Server.Served.update (hs : s.Served rs c)
    (ht : t.handlers = Function.update s.handlers c h) (hlistener : t.listener = s.listener)
    (hconns : t.conns = s.conns) (hkept : ∀ x ∈ t.box.removed, x.2 = .received)
    (hwaiting : h.phase ≠ .finished → t.box.queue = [] ∧ ∀ k ∈ t.consumers, k = .idle)
    (hlog : t.box.sent ++ h.toSend.map (c, ·) = rs') : t.Served rs' c where
  others c' hne := by
    rw [ht, Function.update_of_ne hne]
    exact hs.others c' hne
  listener hl := hconns ▸ hs.listener (hlistener ▸ hl)
  kept := hkept
  waiting := by
    rw [ht, Function.update_self]
    exact hwaiting
  log := by
    rw [ht, Function.update_self]
    exact hlog

/-- The consumer moves after the record was sent. -/
theorem Server.Served.consumer (hs : s.Served rs c) (hfinished : (s.handlers c).phase = .finished)
    (hl : ¬ l.MovesConnection) (hst : s.step indexHtml l = some t)
    (hkept : ∀ x ∈ t.box.removed, x.2 = .received) (hsent : t.box.sent = s.box.sent) :
    t.Served rs c := by
  obtain ⟨hlistener, hconns, -, -, hhandlers⟩ := Server.step_connections hl hst
  refine ⟨hhandlers ▸ hs.others, hconns ▸ hlistener ▸ hs.listener, hkept, fun hne => ?_, ?_⟩
  · rw [hhandlers] at hne
    exact absurd hfinished hne
  · rw [hhandlers, hsent]
    exact hs.log

/-- A consumer has something to do only after the record was sent. -/
theorem Server.Served.finished (hs : s.Served rs c) {x : Consumer} (hk : s.consumers[k]? = some x)
    (hx : x ≠ .idle) : (s.handlers c).phase = .finished := by
  by_contra hne
  exact hx ((hs.waiting hne).2 x (List.mem_of_getElem? hk))

/-- The actions of the handler. -/
theorem Server.Served.act (hs : s.Served rs c) (hok : s.HandlersOk) {c' : Nat}
    (hst : s.act c' = some t) : t.Served rs c := by
  obtain ⟨fd, a, todo, hrun, hcases⟩ := Server.act_cases hst
  have horderly := hok.orderly c' fd _ hrun
  have hc : c' = c := by
    refine hs.eq_of_not_ended ?_
    rw [hrun]
    rintro (hended | hended | ⟨fd', i, todo', hended⟩)
    · cases hended
    · cases hended
    · cases hended
      rcases hcases with
        ⟨ha, -⟩ | ⟨record, ha, -⟩ | ⟨⟨data, ha⟩ | ⟨ticks, ha⟩, -⟩ | ⟨ha, -⟩ | ⟨ha, -⟩ <;> cases ha
  subst hc
  have hlog := hs.log
  rw [hrun] at hlog
  have hquiet (ha : a.Quiet) (h : Handler) (hfinished : h.phase = .finished)
      (hsend : h.toSend = []) (hbox : t.box = s.box) (hlistener : t.listener = s.listener)
      (hconns : t.conns = s.conns) (ht : t.handlers = Function.update s.handlers c' h) :
      t.Served rs c' := by
    have hnone : (Handler.running fd (a :: todo)).toSend = [] := by
      refine Handler.toSend_of_quiet fun b hb => ?_
      rcases List.mem_cons.1 hb with rfl | hb
      · exact ha
      · exact horderly.tail_of_quiet ha b hb
    refine hs.update ht hlistener hconns ?_ (fun hne => absurd hfinished hne) ?_
    · rw [hbox]
      exact hs.kept
    · rw [hbox, hsend]
      rw [hnone] at hlog
      exact hlog
  rcases hcases with
    ⟨rfl, rfl⟩ | ⟨record, rfl, rfl⟩ | ⟨ha, rfl⟩ | ⟨rfl, rfl⟩ | ⟨rfl, rfl⟩
  · -- the reset finds the queue empty
    have hfresh : (s.handlers c').phase = .fresh := by rw [hrun]; rfl
    obtain ⟨hnil, hidle⟩ := hs.waiting fun h => by cases hfresh.symm.trans h
    cases horderly with
    | quiet hq => exact (hq _ List.mem_cons_self).elim
    | reset hrest =>
      refine hs.update (h := .running fd _) rfl rfl rfl ?_ (fun _ => ⟨rfl, hidle⟩) ?_
      · intro x hx
        rw [Box.reset, hnil, List.map_nil, List.append_nil] at hx
        exact hs.kept x hx
      · rw [Box.sent_reset]
        exact hlog
  · -- the send finds it empty too
    have hbetween : (s.handlers c').phase = .between := by rw [hrun]; rfl
    obtain ⟨hnil, hidle⟩ := hs.waiting fun h => by cases hbetween.symm.trans h
    cases horderly with
    | quiet hq => exact (hq _ List.mem_cons_self).elim
    | send hrest =>
      refine hs.update (h := .running fd todo) rfl rfl rfl hs.kept (fun hne => ?_) ?_
      · exact absurd (Handler.phase_of_quiet hrest) hne
      · have hroom : s.box.queue.length < queueLength := by rw [hnil]; decide
        rw [Handler.toSend_of_quiet hrest, Box.sent_send, if_pos hroom, List.map_nil,
          List.append_nil]
        exact hlog
  · have ha' : a.Quiet := by
      rcases ha with ⟨data, rfl⟩ | ⟨ticks, rfl⟩ <;> trivial
    have hrest := horderly.tail_of_quiet ha'
    exact hquiet ha' (.running fd todo) (Handler.phase_of_quiet hrest)
      (Handler.toSend_of_quiet hrest) rfl rfl rfl rfl
  · have hrest := horderly.tail_of_quiet (a := .close) trivial
    exact hquiet trivial (.running fd todo) (Handler.phase_of_quiet hrest)
      (Handler.toSend_of_quiet hrest) rfl rfl rfl rfl
  · exact hquiet trivial .deleted rfl rfl rfl rfl rfl rfl

/-- What a handler is about to send is the record of its request. -/
theorem toSend_handleHttpRequest (indexHtml : List UInt8) (r : Option Received) (fd c : Nat) :
    (Handler.running fd (handleHttpRequest indexHtml r)).toSend.map (c, ·) =
      (Label.request indexHtml (.recv c r)).toList := by
  show _ = (((handleHttpRequest indexHtml r).findSome? Action.record?).map (c, ·)).toList
  rcases handleHttpRequest_queue indexHtml r with ⟨record, rest, heq, -⟩ | hquiet
  · rw [heq]
    rfl
  · have hnone : (handleHttpRequest indexHtml r).findSome? Action.record? = none := by
      refine List.findSome?_eq_none_iff.2 fun a ha => ?_
      have hq := hquiet a ha
      cases a with
      | xQueueReset | xQueueSend => exact hq.elim
      | myWrite | vTaskDelay | close | vTaskDelete | outOfBounds => rfl
    rw [Handler.toSend_of_quiet hquiet, hnone]
    rfl

/-- The consumer's task is created and waits. -/
theorem Server.Served.createConsumer (hs : s.Served rs c) {ok : Bool}
    (hst : s.createConsumer ok = some t) : t.Served rs c := by
  obtain ⟨newFd, hl, ⟨-, rfl⟩ | ⟨-, rfl⟩⟩ := Server.createConsumer_cases hst
  · exact ⟨hs.others, fun _ => hs.listener (by rw [hl]; exact nofun), hs.kept, hs.waiting, hs.log⟩
  · refine ⟨hs.others, fun _ => hs.listener (by rw [hl]; exact nofun), hs.kept, fun hne => ?_,
      hs.log⟩
    obtain ⟨hnil, hidle⟩ := hs.waiting hne
    refine ⟨hnil, fun x hx => ?_⟩
    rcases List.mem_append.1 hx with hx | hx
    · exact hidle x hx
    · exact List.mem_singleton.1 hx

/-- The connection gets its handler, if this can be created. -/
theorem Server.Served.createHandler (hs : s.Served rs c) (hok : s.HandlersOk) {ok : Bool}
    (hst : s.createHandler ok = some t) : t.Served rs c := by
  obtain ⟨paraFd, hl, ⟨-, rfl⟩ | ⟨-, rfl⟩⟩ := Server.createHandler_cases hst
  · exact ⟨hs.others, fun hne => absurd rfl hne, hs.kept, hs.waiting, hs.log⟩
  · cases hs.listener (by rw [hl]; exact nofun)
    have hfresh : (s.handlers s.conns).phase = .fresh := by
      rw [hok.absent s.conns le_rfl]
      rfl
    have hlog := hs.log
    rw [hok.absent s.conns le_rfl] at hlog
    refine ⟨fun c' hne => ?_, fun hne => absurd rfl hne, hs.kept,
      fun _ => hs.waiting (fun h => by cases hfresh.symm.trans h), ?_⟩
    · show (Function.update s.handlers s.conns _ c').Ended
      rw [Function.update_of_ne hne]
      exact hs.others c' hne
    · show s.box.sent ++ (Function.update s.handlers s.conns _ s.conns).toSend.map _ = rs
      rw [Function.update_self]
      exact hlog

/-- The handler goes to `recv`. -/
theorem Server.Served.start (hs : s.Served rs c) {c' : Nat} (hst : s.start c' = some t) :
    t.Served rs c := by
  obtain ⟨paraFd, fd, hstart, -, rfl⟩ := Server.start_cases hst
  have hended : ¬ (s.handlers c').Ended := by
    rw [hstart]
    rintro (h | h | ⟨fd', i, todo, h⟩) <;> cases h
  cases hs.eq_of_not_ended hended
  have hfresh : (s.handlers c).phase = .fresh := by rw [hstart]; rfl
  have hlog := hs.log
  rw [hstart] at hlog
  exact hs.update (h := .receiving fd) rfl rfl rfl hs.kept
    (fun _ => hs.waiting fun h => by cases hfresh.symm.trans h) hlog

/-- The request of the connection arrives. -/
theorem Server.Served.recv (hs : s.Served rs c) {c' : Nat} {r : Option Received}
    (hst : s.recv indexHtml c' r = some t) :
    t.Served (rs ++ (Label.request indexHtml (.recv c' r)).toList) c := by
  obtain ⟨fd, hrecv, rfl⟩ := Server.recv_cases hst
  have hended : ¬ (s.handlers c').Ended := by
    rw [hrecv]
    rintro (h | h | ⟨fd', i, todo, h⟩) <;> cases h
  cases hs.eq_of_not_ended hended
  have hfresh : (s.handlers c).phase = .fresh := by rw [hrecv]; rfl
  have hlog := hs.log
  rw [hrecv] at hlog
  refine hs.update (h := .running fd _) rfl rfl rfl hs.kept
    (fun _ => hs.waiting fun h => by cases hfresh.symm.trans h) ?_
  rw [toSend_handleHttpRequest, ← hlog]
  show s.box.sent ++ _ = (s.box.sent ++ []) ++ _
  rw [List.append_nil]

/-- The consumer takes the record. -/
theorem Server.Served.xQueueReceive (hs : s.Served rs c) (hst : s.xQueueReceive k = some t) :
    t.Served rs c := by
  obtain ⟨c', record, box, hk, hbox, heq⟩ := Server.xQueueReceive_cases hst
  obtain ⟨queue, hqueue, hb⟩ := Box.receive_eq_some_iff.1 hbox
  have hfinished : (s.handlers c).phase = .finished := by
    by_contra hne
    rw [(hs.waiting hne).1] at hqueue
    cases hqueue
  have hstep : s.step [] (.xQueueReceive k) = some t := hst
  refine hs.consumer hfinished id hstep (fun x hx => ?_) ?_
  · rw [heq] at hx
    rw [hb] at hx
    rcases List.mem_append.1 hx with hx | hx
    · exact hs.kept x hx
    · rw [List.mem_singleton.1 hx]
  · rw [heq]
    exact Box.sent_receive hbox

/-- The consumer handles the record. -/
theorem Server.Served.handle (hs : s.Served rs c) {x : Consumer} (hk : s.consumers[k]? = some x)
    (hx : x ≠ .idle) (hl : ¬ l.MovesConnection) (hst : s.step indexHtml l = some t)
    (hbox : t.box = s.box) : t.Served rs c := by
  refine hs.consumer (hs.finished hk hx) hl hst ?_ ?_
  · rw [hbox]
    exact hs.kept
  · rw [hbox]

/-- **One step.** Every step of a run with a client that waits keeps what holds there. -/
theorem Server.Served.step (hs : s.Served rs c) (hok : s.HandlersOk)
    (hst : s.step indexHtml l = some t)
    (hfree : l.IsAccept → s.AtRest ∧ s.box.queue = []) :
    ∃ c', t.Served (rs ++ (l.request indexHtml).toList) c' := by
  have hsame (ht : t.Served rs c) : ∃ c', t.Served (rs ++ []) c' := by
    rw [List.append_nil]
    exact ⟨c, ht⟩
  cases l with
  | accept newFd =>
    obtain ⟨-, -, rfl⟩ := Server.accept_cases hst
    obtain ⟨hrest, hnil⟩ := hfree trivial
    have hlog := hs.log
    rw [(hrest.handlers c).toSend] at hlog
    refine ⟨s.conns, fun c' _ => hrest.handlers c', fun _ => rfl, hs.kept,
      fun _ => ⟨hnil, hrest.consumers⟩, ?_⟩
    show s.box.sent ++ (s.handlers s.conns).toSend.map _ = rs ++ []
    rw [(hrest.handlers s.conns).toSend, List.append_nil]
    exact hlog
  | createConsumer ok => exact hsame (hs.createConsumer hst)
  | malloc =>
    obtain ⟨newFd, hl, rfl⟩ := Server.malloc_cases hst
    have hc := hs.listener (by rw [hl]; exact nofun)
    exact hsame ⟨hs.others, fun _ => hc, hs.kept, hs.waiting, hs.log⟩
  | createHandler ok => exact hsame (hs.createHandler hok hst)
  | start c' => exact hsame (hs.start hst)
  | recv c' r => exact ⟨c, hs.recv hst⟩
  | act c' => exact hsame (hs.act hok hst)
  | xQueueReceive k => exact hsame (hs.xQueueReceive hst)
  | decode k tail =>
    obtain ⟨c', record, hk, heq⟩ := Server.decode_cases hst
    exact hsame (hs.handle hk nofun id hst (by rw [heq]))
  | drive k =>
    obtain ⟨c', job, ⟨e, todo, hk, heq⟩ | ⟨hk, heq⟩⟩ := Server.drive_cases hst
    · exact hsame (hs.handle hk nofun id hst (by rw [heq]))
    · exact hsame (hs.handle hk nofun id hst (by rw [heq]))

/-! ## Runs -/

/-- What holds in the states of a run with a client that waits. -/
theorem Server.served_of_sequential {ls : List Label}
    (hexec : exec (Server.step indexHtml) .init ls = some s) (hseq : Sequential indexHtml ls) :
    ∃ c, s.Served (requests indexHtml ls) c := by
  refine exec_rec_on (P := fun ls s => Sequential indexHtml ls →
    ∃ c, s.Served (requests indexHtml ls) c) hexec ?_ ?_ hseq
  · intro _
    exact ⟨0, fun _ _ => .inl rfl, fun hne => absurd rfl hne, nofun, fun _ => ⟨rfl, nofun⟩, rfl⟩
  · intro ls s l t hs ih hst hseq
    rw [Sequential, steps_append_singleton hs] at hseq
    obtain ⟨c, hserved⟩ := ih fun x hx => hseq x (List.mem_append_left _ hx)
    have hreach : s.Reachable indexHtml := ⟨ls, hs⟩
    have hfree := hseq (s, l) (List.mem_append_right _ (List.mem_singleton_self _))
    have hlog : requests indexHtml (ls ++ [l]) =
        requests indexHtml ls ++ (l.request indexHtml).toList := by
      rw [requests, List.filterMap_append, ← requests]
      cases hr : l.request indexHtml <;> simp [hr]
    rw [hlog]
    exact hserved.step hreach.handlersOk hst hfree

/-- The records of the queue, where they are. -/
theorem Server.Reachable.sent_eq (hs : s.Reachable indexHtml)
    (hkept : ∀ x ∈ s.box.removed, x.2 = .received) :
    s.box.sent = s.processed.map (fun x => (x.1, x.2.record)) ++
      (s.consumers.headD .idle).held.toList ++ s.box.queue := by
  have htaken : s.box.received = s.box.removed.map Prod.fst := by
    rw [Box.received, ← List.filterMap_eq_map]
    refine List.filterMap_congr fun x hx => ?_
    obtain ⟨y, fate⟩ := x
    cases hkept _ hx
    rfl
  rw [Box.sent, ← htaken]
  exact congrArg (· ++ s.box.queue) hs.latestWins_inv.taken

/-- At rest all records have been processed. -/
theorem Server.Served.processed_eq (hserved : s.Served rs c) (hs : s.Reachable indexHtml)
    (hrest : s.AtRest) (hnil : s.box.queue = []) :
    (s.processed.map fun x => (x.1, x.2.record)) = rs := by
  have hlog := hserved.log
  have hheld : (s.consumers.headD .idle).held = none := by
    rcases hc : s.consumers with _ | ⟨x, rest⟩
    · rfl
    · have hx := hrest.consumers x (hc ▸ List.mem_cons_self)
      rw [hx]
      rfl
  rw [hs.sent_eq hserved.kept, (hrest.handlers c).toSend, hheld, hnil] at hlog
  simpa using hlog

/-- At rest the robot is in the pose that the jobs order. -/
theorem Server.Reachable.shows_pose (hs : s.Reachable indexHtml) (hrest : s.AtRest) :
    (Pose.after (s.processed.map Prod.snd)).Shows s.robot := by
  rw [hs.robot_eq hrest.consumers]
  exact Pose.shows_run _

/-- A further connection, in a system at rest. -/
theorem Sequential.append {ls ls' : List Label} {newFd : Nat} (hseq : Sequential indexHtml ls)
    (hexec : exec (Server.step indexHtml) .init ls = some s) (hrest : s.AtRest)
    (hnil : s.box.queue = []) (hls' : ∀ l ∈ ls', ¬ l.IsAccept) :
    Sequential indexHtml (ls ++ .accept newFd :: ls') := by
  intro x hx haccept
  rw [steps_append hexec] at hx
  rcases List.mem_append.1 hx with hx | hx
  · exact hseq x hx haccept
  · rcases List.mem_cons.1 hx with rfl | hx
    · exact ⟨hrest, hnil⟩
    · cases hst : s.step indexHtml (.accept newFd) with
      | none => rw [hst] at hx; cases hx
      | some t => rw [hst] at hx; exact absurd haccept (hls' x.2 (mem_of_mem_steps hx))

end

/-- A connection that is served to the end, for a request that takes the consumer ten steps. -/
def service (c : Nat) (r : Received) : List Label :=
  connect 54 c ++ submit c r ++ List.replicate 5 (.act c) ++ takeRecord ++ calls 10

end InfantryRM

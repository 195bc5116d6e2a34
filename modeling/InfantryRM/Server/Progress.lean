import InfantryRM.Server.Delivery
import InfantryRM.Server.Ownership

/-!
# Progress

No task of the server waits for another one in a circle. What a connection can make the tasks do is
bounded: the accept loop creates its handler, the handler performs at most seven actions, and the
record that it sends makes the consumer perform at most seventeen calls. `Server.work` counts what
is left of this. Every step but the acceptance of a connection takes away from it, whichever task
moves (`Server.work_step`), so a run has at most 33 steps for each connection
(`steps_per_connection`).

As long as anything is left to do some task can move (`Server.AtRest`, `stuck_iff_atRest`). So once
no connection arrives, every schedule ends, and it ends with the accept loop waiting, the handlers
deleted, the queue empty and the consumer waiting (`schedules_come_to_rest`). Then the descriptors
are closed, but for those that have no handler which closes them
(`Server.AtRest.openFds_eq_nil_iff`).
-/

namespace InfantryRM

open Run Mailbox

/-! ## Work -/

/-- The most calls that a record makes the consumer perform: two movements and a delay. -/
def maxCalls : Nat := 17

/-- A record is received, decoded and driven, and the consumer goes back to the head of its loop. -/
def recordWork : Nat := maxCalls + 3

/-- A handler performs at most seven actions, one of which sends a record. -/
def requestWork : Nat := recordWork + 7

/-- A handler starts, receives and performs its actions. -/
def handlerWork : Nat := requestWork + 2

/-- A connection is accepted and takes the accept loop three more steps. -/
def connectionWork : Nat := handlerWork + 4

/-- An action, with the work of the record that it sends. -/
def Action.work : Action → Nat
  | .xQueueSend _ => recordWork + 1
  | .xQueueReset | .myWrite _ | .vTaskDelay _ | .close | .vTaskDelete | .outOfBounds _ => 1

/-- What a handler has left to do. -/
def Handler.work : Handler → Nat
  | .absent | .deleted => 0
  | .starting _ => requestWork + 2
  | .receiving _ => requestWork + 1
  | .running _ todo => (todo.map Action.work).sum

/-- What the accept loop has left to do before it waits again, with the handler that it creates. -/
def Listener.work : Listener → Nat
  | .accepting => 0
  | .accepted _ => handlerWork + 3
  | .allocating _ => handlerWork + 2
  | .creating _ => handlerWork + 1

/-- What a consumer has left to do before it waits again. -/
def Consumer.work : Consumer → Nat
  | .idle => 0
  | .decoding _ _ => maxCalls + 2
  | .driving _ _ todo => todo.length + 1

/-- What the handlers have left to do. -/
def Server.handlersWork (s : Server) : Nat := ∑ c ∈ Finset.range s.conns, (s.handlers c).work

/-- What the system has left to do before it waits for a connection. -/
def Server.work (s : Server) : Nat :=
  s.listener.work + s.handlersWork + s.box.queue.length * recordWork +
    (s.consumers.map Consumer.work).sum

/-- The step with which a connection arrives. -/
def Label.IsAccept : Label → Prop
  | .accept _ => True
  | .createConsumer _ | .malloc | .createHandler _ | .start _ | .recv _ _ | .act _
  | .xQueueReceive _ | .decode _ _ | .drive _ => False

instance : DecidablePred Label.IsAccept := fun l => by
  cases l <;> unfold Label.IsAccept <;> infer_instance

/-! ## Bounds -/

/-- The seven tests of the joystick branch admit at most two movements. -/
theorem length_rockerBranch (v : Int) : (rockerBranch v).length ≤ 16 := by
  unfold rockerBranch rockerRegions
  generalize chassisX v = x, chassisY v = y
  simp only [List.length_append, apply_ite List.length, List.length_nil]
  have h1 : chassisEn.length = 8 := rfl
  have h2 : chassisForward.length = 8 := rfl
  have h3 : chassisBackward.length = 8 := rfl
  have h4 : chassisLeft.length = 8 := rfl
  have h5 : chassisRight.length = 8 := rfl
  have h6 : chassisLeftRevolve.length = 8 := rfl
  have h7 : chassisRightRevolve.length = 8 := rfl
  simp only [h1, h2, h3, h4, h5, h6, h7]
  split_ifs <;> omega

/-- On a diagonal cell next to the middle one the chassis makes two movements. -/
example : (rockerBranch 404).length = 16 := by decide

/-- A record makes the consumer perform at most seventeen calls. -/
theorem length_webRecdata (j : Job) (g : Angles) : (webRecdata j g).2.length ≤ maxCalls := by
  have hdelay : ([.vTaskDelay 6] : List Effect).length = 1 := rfl
  unfold maxCalls
  simp only [webRecdata, Cmd.andThen, Cmd.emit, List.length_append, hdelay]
  cases hd : dispatch j.record.urlBuff01 with
  | none => exact (by decide : chassisEn.length + 1 ≤ 17)
  | some c =>
    cases c with
    | gimbal =>
      simp only [gimbalBranch_eq]
      cases hp : gimbalPress j.myvalue with
      | none => exact (by decide : 0 + 1 ≤ 17)
      | some p =>
        rw [Option.elim_some, moveAxis_eq]
        exact (by decide : 2 + 1 ≤ 17)
    | blaste | fireSt | pluck1 | luck2P => exact (by decide : 2 + 1 ≤ 17)
    | robott => exact (by decide : 0 + 1 ≤ 17)
    | rocker =>
      have hle := length_rockerBranch j.myvalue
      exact Nat.succ_le_succ hle

/-- What a handler does with its request is within the bound. -/
theorem work_handleHttpRequest (indexHtml : List UInt8) (r : Option Received) :
    ((handleHttpRequest indexHtml r).map Action.work).sum ≤ requestWork := by
  have herror : (requstError.map Action.work).sum ≤ requestWork := by decide
  cases r with
  | none => exact herror
  | some r =>
    by_cases hr : ∃ s h, RequestText r.text s h
    · obtain ⟨s, h, ht⟩ := hr
      rcases handleHttpRequest_of_text indexHtml ht with ⟨-, i, hout⟩ | ⟨-, record, -, hactions⟩
      · rw [hout]
        exact (by decide : 1 ≤ requestWork)
      · rw [hactions]
        split
        · exact le_refl requestWork
        · exact Nat.le_succ (recordWork + 6)
    · rw [handleHttpRequest_of_not_text hr]
      exact herror

/-! ## One step -/

section
variable {s t : Server} {indexHtml : List UInt8} {c k : Nat} {h : Handler} {l : Label}

/-- What is left to do when one handler moves. -/
theorem Server.handlersWork_update (hs : s.HandlersOk) (hc : s.handlers c ≠ .absent)
    (hconns : t.conns = s.conns) (ht : t.handlers = Function.update s.handlers c h) :
    t.handlersWork + (s.handlers c).work = s.handlersWork + h.work := by
  have hmem : c ∈ Finset.range s.conns := by
    refine Finset.mem_range.2 (not_le.1 fun hle => ?_)
    exact hc (hs.absent c hle)
  have hcomp : (fun x => (t.handlers x).work) =
      Function.update (fun x => (s.handlers x).work) c h.work := by
    rw [ht]
    exact Function.comp_update Handler.work s.handlers c h
  have hupdate := Finset.sum_update_of_mem hmem (fun x => (s.handlers x).work) h.work
  have hsplit := Finset.add_sum_erase _ (fun x => (s.handlers x).work) hmem
  rw [Finset.sdiff_singleton_eq_erase] at hupdate
  unfold Server.handlersWork
  rw [hconns, hcomp, hupdate, ← hsplit]
  omega

/-- What is left to do when a handler is created. -/
theorem Server.handlersWork_create {paraFd : Nat} (hconns : t.conns = s.conns + 1)
    (ht : t.handlers = Function.update s.handlers s.conns (.starting paraFd)) :
    t.handlersWork = s.handlersWork + handlerWork := by
  unfold Server.handlersWork
  rw [hconns, Finset.sum_range_succ, ht, Function.update_self]
  refine congrArg₂ _ (Finset.sum_congr rfl fun c hc => ?_) rfl
  rw [Function.update_of_ne (Finset.mem_range.1 hc).ne]

/-- What is left to do when the consumer moves. -/
theorem Server.ConsumersOk.work_set (hs : s.ConsumersOk) {x y : Consumer}
    (hk : s.consumers[k]? = some x) :
    ((s.consumers.set k y).map Consumer.work).sum + x.work =
      (s.consumers.map Consumer.work).sum + y.work := by
  obtain ⟨rfl, hc⟩ := hs.eq hk
  rw [hc]
  show y.work + 0 + x.work = x.work + 0 + y.work
  omega

/-- The work of the system when the consumer moves, and the queue with it. -/
theorem Server.work_set (hs : s.ConsumersOk) {x y : Consumer} (hk : s.consumers[k]? = some x)
    (ht : t.consumers = s.consumers.set k y) (hlistener : t.listener = s.listener)
    (hconns : t.conns = s.conns) (hhandlers : t.handlers = s.handlers) :
    t.work + x.work + s.box.queue.length * recordWork =
      s.work + y.work + t.box.queue.length * recordWork := by
  have hset := hs.work_set (y := y) hk
  unfold Server.work Server.handlersWork
  rw [ht, hlistener, hconns, hhandlers]
  omega

/-- A record that a handler sends is work for the consumer, if the queue has room for it. -/
theorem length_push_le (queue : List (Nat × URLData)) (x : Nat × URLData) :
    (push queueLength queue x).length ≤ queue.length + 1 := by
  unfold push
  split
  · rw [List.length_append, List.length_singleton]
  · exact Nat.le_succ _

/-- The work of the system when one handler moves, and the queue with it. -/
theorem Server.work_update (hs : s.HandlersOk) (hc : s.handlers c ≠ .absent)
    (hconns : t.conns = s.conns) (ht : t.handlers = Function.update s.handlers c h)
    (hlistener : t.listener = s.listener) (hconsumers : t.consumers = s.consumers) :
    t.work + (s.handlers c).work + s.box.queue.length * recordWork =
      s.work + h.work + t.box.queue.length * recordWork := by
  have hhandlers := Server.handlersWork_update hs hc hconns ht
  unfold Server.work
  rw [hlistener, hconsumers]
  omega

/-- An action takes away from the work, also when it sends a record. -/
theorem Server.work_act (hs : s.HandlersOk) (hst : s.act c = some t) : t.work + 1 ≤ s.work := by
  obtain ⟨fd, a, todo, hc, hcases⟩ := Server.act_cases hst
  have hne : s.handlers c ≠ .absent := by rw [hc]; exact nofun
  have hold : (s.handlers c).work = a.work + (todo.map Action.work).sum := by
    rw [hc, Handler.work, List.map_cons, List.sum_cons]
  have hnew : (Handler.running fd todo).work = (todo.map Action.work).sum := rfl
  have hquiet (ha : a.work = 1) (hlistener : t.listener = s.listener)
      (hconsumers : t.consumers = s.consumers) (hconns : t.conns = s.conns)
      (hqueue : t.box.queue.length ≤ s.box.queue.length)
      (ht : t.handlers = Function.update s.handlers c (.running fd todo)) :
      t.work + 1 ≤ s.work := by
    have hwork := Server.work_update hs hne hconns ht hlistener hconsumers
    have hmul := Nat.mul_le_mul_right recordWork hqueue
    omega
  rcases hcases with
    ⟨rfl, rfl⟩ | ⟨record, rfl, heq⟩ | ⟨⟨data, rfl⟩ | ⟨ticks, rfl⟩, rfl⟩ | ⟨rfl, rfl⟩ | ⟨rfl, heq⟩
  · exact hquiet rfl rfl rfl rfl (Nat.zero_le _) rfl
  · -- the record is work for the consumer
    have hwork := Server.work_update (t := t) (h := .running fd todo) hs hne (by rw [heq])
      (by rw [heq]) (by rw [heq]) (by rw [heq])
    have hqueue : t.box.queue = push queueLength s.box.queue (c, record) := by rw [heq]; rfl
    have hmul := Nat.mul_le_mul_right recordWork (length_push_le s.box.queue (c, record))
    have hsend : (Action.xQueueSend record).work = recordWork + 1 := rfl
    rw [Nat.add_mul, one_mul, ← hqueue] at hmul
    omega
  · exact hquiet rfl rfl rfl rfl le_rfl rfl
  · exact hquiet rfl rfl rfl rfl le_rfl rfl
  · exact hquiet rfl rfl rfl rfl le_rfl rfl
  · have hwork := Server.work_update (t := t) (h := .deleted) hs hne (by rw [heq]) (by rw [heq])
      (by rw [heq]) (by rw [heq])
    have hqueue : t.box.queue = s.box.queue := by rw [heq]
    have hdelete : Action.vTaskDelete.work = 1 := rfl
    have hdeleted : Handler.deleted.work = 0 := rfl
    rw [hqueue] at hwork
    omega

/-- The creation of the consumer's task takes away from the work. -/
theorem Server.work_createConsumer {ok : Bool} (hst : s.createConsumer ok = some t) :
    t.work + 1 ≤ s.work := by
  obtain ⟨newFd, hl, ⟨-, rfl⟩ | ⟨-, rfl⟩⟩ := Server.createConsumer_cases hst
  · unfold Server.work Server.handlersWork Listener.work
    simp only [hl]
    omega
  · unfold Server.work Server.handlersWork Listener.work
    simp only [hl, List.map_append, List.map_singleton, List.sum_append, List.sum_singleton]
    have hidle : Consumer.idle.work = 0 := rfl
    omega

/-- The work of a handler comes from the work of the accept loop that creates it. -/
theorem Server.work_createHandler (hs : s.HandlersOk) {ok : Bool}
    (hst : s.createHandler ok = some t) : t.work + 1 ≤ s.work := by
  obtain ⟨paraFd, hl, ⟨-, rfl⟩ | ⟨-, heq⟩⟩ := Server.createHandler_cases hst
  · have habsent : (s.handlers s.conns).work = 0 := by
      rw [hs.absent s.conns le_rfl]
      rfl
    unfold Server.work Server.handlersWork Listener.work
    simp only [hl, Finset.sum_range_succ, habsent]
    omega
  · have hhandlers : t.handlersWork = s.handlersWork + handlerWork :=
      Server.handlersWork_create (by rw [heq]) (by rw [heq])
    have hlistener : t.listener = .accepting := by rw [heq]
    have hbox : t.box = s.box := by rw [heq]
    have hconsumers : t.consumers = s.consumers := by rw [heq]
    unfold Server.work Listener.work
    simp only [hl, hhandlers, hlistener, hbox, hconsumers]
    omega

/-- A handler that does not touch the queue takes away from the work what it has less of. -/
theorem Server.work_handler (hs : s.HandlersOk) (hc : s.handlers c ≠ .absent)
    (ht : t = { s with handlers := Function.update s.handlers c h })
    (hlt : h.work + 1 ≤ (s.handlers c).work) : t.work + 1 ≤ s.work := by
  have hwork := Server.work_update (t := t) (h := h) hs hc (by rw [ht]) (by rw [ht]) (by rw [ht])
    (by rw [ht])
  have hbox : t.box = s.box := by rw [ht]
  rw [hbox] at hwork
  omega

/-- A consumer that does not touch the queue takes away from the work what it has less of. -/
theorem Server.work_consumer (hs : s.ConsumersOk) {x y : Consumer} (hk : s.consumers[k]? = some x)
    (ht : t.consumers = s.consumers.set k y) (hlistener : t.listener = s.listener)
    (hconns : t.conns = s.conns) (hhandlers : t.handlers = s.handlers) (hbox : t.box = s.box)
    (hlt : y.work + 1 ≤ x.work) : t.work + 1 ≤ s.work := by
  have hwork := Server.work_set hs hk ht hlistener hconns hhandlers
  rw [hbox] at hwork
  omega

/-- A record in the queue is more work than in the consumer. -/
theorem Server.work_xQueueReceive (hs : s.ConsumersOk) (hst : s.xQueueReceive k = some t) :
    t.work + 1 ≤ s.work := by
  obtain ⟨c, record, box, hk, hbox, heq⟩ := Server.xQueueReceive_cases hst
  obtain ⟨queue, hqueue, rfl⟩ := Box.receive_eq_some_iff.1 hbox
  have hwork := Server.work_set (t := t) (y := .decoding c record) hs hk (by rw [heq])
    (by rw [heq]) (by rw [heq]) (by rw [heq])
  have hrest : t.box.queue = queue := by rw [heq]
  have hold : Consumer.idle.work = 0 := rfl
  have hnew : (Consumer.decoding c record).work + 1 = recordWork := rfl
  rw [hqueue, hrest, List.length_cons, Nat.succ_mul] at hwork
  omega

/-- **One step.** Every step but the acceptance of a connection takes away from the work. -/
theorem Server.work_step (hs : s.HandlersOk) (hc : s.ConsumersOk)
    (hst : s.step indexHtml l = some t) :
    t.work + 1 ≤ s.work + if l.IsAccept then connectionWork else 0 := by
  have hless (hwork : t.work + 1 ≤ s.work) :
      t.work + 1 ≤ s.work + if l.IsAccept then connectionWork else 0 :=
    hwork.trans (Nat.le_add_right _ _)
  cases l with
  | accept newFd =>
    obtain ⟨hl, -, rfl⟩ := Server.accept_cases hst
    have haccept : (Label.accept newFd).IsAccept := trivial
    rw [if_pos haccept]
    unfold Server.work Server.handlersWork Listener.work connectionWork
    simp only [hl]
    omega
  | createConsumer ok => exact hless (Server.work_createConsumer hst)
  | malloc =>
    obtain ⟨newFd, hl, rfl⟩ := Server.malloc_cases hst
    unfold Server.work Server.handlersWork Listener.work
    simp only [hl]
    omega
  | createHandler ok => exact hless (Server.work_createHandler hs hst)
  | start c =>
    obtain ⟨paraFd, fd, hstart, -, heq⟩ := Server.start_cases hst
    refine hless (Server.work_handler hs (by rw [hstart]; exact nofun) heq ?_)
    rw [hstart]
    exact le_rfl
  | recv c r =>
    obtain ⟨fd, hrecv, heq⟩ := Server.recv_cases hst
    refine hless (Server.work_handler hs (by rw [hrecv]; exact nofun) heq ?_)
    rw [hrecv]
    exact Nat.succ_le_succ (work_handleHttpRequest indexHtml r)
  | act c => exact hless (Server.work_act hs hst)
  | xQueueReceive k => exact hless (Server.work_xQueueReceive hc hst)
  | decode k tail =>
    obtain ⟨c, record, hk, heq⟩ := Server.decode_cases hst
    have hcalls := length_webRecdata ⟨record, tail⟩ s.robot.angles
    refine hless (Server.work_consumer hc hk (y := .driving c ⟨record, tail⟩
      (webRecdata ⟨record, tail⟩ s.robot.angles).2) ?_ ?_ ?_ ?_ ?_ ?_)
    iterate 5 rw [heq]
    exact Nat.succ_le_succ (Nat.succ_le_succ hcalls)
  | drive k =>
    obtain ⟨c, job, ⟨e, todo, hk, heq⟩ | ⟨hk, heq⟩⟩ := Server.drive_cases hst
    · refine hless (Server.work_consumer hc hk (y := .driving c job todo) ?_ ?_ ?_ ?_ ?_ le_rfl)
      iterate 5 rw [heq]
    · refine hless (Server.work_consumer hc hk (y := .idle) ?_ ?_ ?_ ?_ ?_ le_rfl)
      iterate 5 rw [heq]

/-! ## Runs -/

/-- **Steps.** A run has at most 33 steps for each connection that arrived in it, and what is left
to do is within this bound too. -/
theorem steps_per_connection {ls : List Label}
    (h : exec (Server.step indexHtml) .init ls = some s) :
    ls.length + s.work ≤ connectionWork * ls.countP Label.IsAccept := by
  have hinit : Server.init.work = 0 := rfl
  have hlen := exec_length_le_mul
    (fun u l v (hu : u.Reachable indexHtml) hst =>
      Server.work_step hu.handlersOk hu.consumersOk hst) h
  rwa [hinit, Nat.zero_add] at hlen

/-- Every step but the acceptance of a connection lowers the work of a reachable state. -/
theorem Server.Reachable.work_lt (hs : s.Reachable indexHtml)
    (hst : s.step indexHtml l = some t) (hl : ¬ l.IsAccept) : t.work < s.work := by
  have hwork := Server.work_step hs.handlersOk hs.consumersOk hst
  rwa [if_neg hl] at hwork

/-! ## Rest -/

/-- The handler has no further step: there is none, it has deleted itself, or it stores outside its
record. -/
def Handler.Ended (h : Handler) : Prop :=
  h = .absent ∨ h = .deleted ∨ ∃ fd i todo, h = .running fd (.outOfBounds i :: todo)

/-- The accept loop waits for a connection, every handler has ended, the consumer waits, and if
there is one, the queue is empty. -/
structure Server.AtRest (s : Server) : Prop where
  listener : s.listener = .accepting
  handlers : ∀ c, (s.handlers c).Ended
  consumers : ∀ x ∈ s.consumers, x = .idle
  queue : s.consumers = [] ∨ s.box.queue = []

/-- The accept loop can always go on. -/
theorem Server.exists_listener_step (hl : s.listener ≠ .accepting) :
    ∃ l : Label, ¬ l.IsAccept ∧ s.step indexHtml l ≠ none := by
  cases h : s.listener with
  | accepting => exact absurd h hl
  | accepted newFd =>
    refine ⟨.createConsumer false, id, ?_⟩
    simp only [Server.step, Server.createConsumer, h]
    split <;> exact nofun
  | allocating newFd =>
    refine ⟨.malloc, id, ?_⟩
    simp only [Server.step, Server.malloc, h]
    exact nofun
  | creating paraFd =>
    refine ⟨.createHandler false, id, ?_⟩
    simp only [Server.step, Server.createHandler, h]
    split <;> exact nofun

/-- A handler that has not ended can go on, unless it stores outside its record. -/
theorem Server.Reachable.exists_handler_step (hs : s.Reachable indexHtml) (c : Nat) :
    (s.handlers c).Ended ∨ ∃ l : Label, ¬ l.IsAccept ∧ s.step indexHtml l ≠ none := by
  cases h : s.handlers c with
  | absent => exact .inl (.inl rfl)
  | deleted => exact .inl (.inr (.inl rfl))
  | starting paraFd =>
    refine .inr ⟨.start c, id, ?_⟩
    have hlt := hs.fdsOk.cells c paraFd h
    simp only [Server.step, Server.start, h, List.getElem?_eq_getElem hlt]
    exact Option.some_ne_none _
  | receiving fd =>
    refine .inr ⟨.recv c none, id, ?_⟩
    simp only [Server.step, Server.recv, h]
    exact Option.some_ne_none _
  | running fd todo =>
    rcases todo with _ | ⟨a, todo⟩
    · rcases hs.fdsOk.closes c fd [] h with hcloses | ⟨i, hout⟩
      · cases hcloses
      · cases hout
    · cases a with
      | outOfBounds i => exact .inl (.inr (.inr ⟨fd, i, todo, rfl⟩))
      | xQueueReset | xQueueSend | myWrite | vTaskDelay | close | vTaskDelete =>
        refine .inr ⟨.act c, id, ?_⟩
        simp only [Server.step, Server.act, h]
        exact Option.some_ne_none _

/-- A consumer that has a record, or finds one in the queue, can go on. -/
theorem Server.exists_consumer_step (s : Server) (indexHtml : List UInt8) :
    ((∀ x ∈ s.consumers, x = .idle) ∧ (s.consumers = [] ∨ s.box.queue = [])) ∨
      ∃ l : Label, ¬ l.IsAccept ∧ s.step indexHtml l ≠ none := by
  by_cases hidle : ∀ x ∈ s.consumers, x = .idle
  · by_cases hrest : s.consumers = [] ∨ s.box.queue = []
    · exact .inl ⟨hidle, hrest⟩
    · rw [not_or] at hrest
      obtain ⟨x, rest, hc⟩ := List.exists_cons_of_ne_nil hrest.1
      obtain ⟨record, queue, hq⟩ := List.exists_cons_of_ne_nil hrest.2
      have hx : x = .idle := hidle x (hc ▸ List.mem_cons_self)
      refine .inr ⟨.xQueueReceive 0, id, ?_⟩
      simp only [Server.step, Server.xQueueReceive, hc, hx, Box.receive, hq,
        List.getElem?_cons_zero]
      exact nofun
  · push Not at hidle
    obtain ⟨x, hx, hne⟩ := hidle
    obtain ⟨k, hk⟩ := List.getElem?_of_mem hx
    refine .inr ?_
    cases x with
    | idle => exact absurd rfl hne
    | decoding c record =>
      refine ⟨.decode k [], id, ?_⟩
      simp only [Server.step, Server.decode, hk]
      exact nofun
    | driving c job todo =>
      refine ⟨.drive k, id, ?_⟩
      cases todo <;> simp only [Server.step, Server.drive, hk] <;> exact nofun

/-- At rest nothing can move. -/
theorem Server.AtRest.step_eq_none (hs : s.AtRest) (hl : ¬ l.IsAccept) :
    s.step indexHtml l = none := by
  have hidle {k : Nat} {x : Consumer} (hk : s.consumers[k]? = some x) : x = .idle :=
    hs.consumers x (List.mem_of_getElem? hk)
  by_contra hne
  obtain ⟨t, hst⟩ := Option.ne_none_iff_exists'.1 hne
  cases l with
  | accept newFd => exact hl trivial
  | createConsumer ok =>
    obtain ⟨newFd, h, -⟩ := Server.createConsumer_cases hst
    cases hs.listener.symm.trans h
  | malloc =>
    obtain ⟨newFd, h, -⟩ := Server.malloc_cases hst
    cases hs.listener.symm.trans h
  | createHandler ok =>
    obtain ⟨paraFd, h, -⟩ := Server.createHandler_cases hst
    cases hs.listener.symm.trans h
  | start c =>
    obtain ⟨paraFd, fd, h, -⟩ := Server.start_cases hst
    rcases hs.handlers c with hc | hc | ⟨fd', i, todo', hc⟩
    · cases hc.symm.trans h
    · cases hc.symm.trans h
    · cases hc.symm.trans h
  | recv c r =>
    obtain ⟨fd, h, -⟩ := Server.recv_cases hst
    rcases hs.handlers c with hc | hc | ⟨fd', i, todo', hc⟩
    · cases hc.symm.trans h
    · cases hc.symm.trans h
    · cases hc.symm.trans h
  | act c =>
    obtain ⟨fd, a, todo, h, hcases⟩ := Server.act_cases hst
    rcases hs.handlers c with hc | hc | ⟨fd', i, todo', hc⟩
    · cases hc.symm.trans h
    · cases hc.symm.trans h
    · cases hc.symm.trans h
      rcases hcases with
        ⟨ha, -⟩ | ⟨record, ha, -⟩ | ⟨⟨data, ha⟩ | ⟨ticks, ha⟩, -⟩ | ⟨ha, -⟩ | ⟨ha, -⟩ <;> cases ha
  | xQueueReceive k =>
    obtain ⟨c, record, box, hk, hbox, -⟩ := Server.xQueueReceive_cases hst
    obtain ⟨queue, hqueue, -⟩ := Box.receive_eq_some_iff.1 hbox
    rcases hs.queue with hnil | hnil
    · rw [hnil] at hk
      cases hk
    · cases hnil.symm.trans hqueue
  | decode k tail =>
    obtain ⟨c, record, hk, -⟩ := Server.decode_cases hst
    cases hidle hk
  | drive k =>
    obtain ⟨c, job, ⟨e, todo, hk, -⟩ | ⟨hk, -⟩⟩ := Server.drive_cases hst
    · cases hidle hk
    · cases hidle hk

/-- A reachable state in which nothing else can move is at rest. -/
theorem Server.Reachable.atRest_of_stuck (hs : s.Reachable indexHtml)
    (hstuck : ∀ l : Label, ¬ l.IsAccept → s.step indexHtml l = none) : s.AtRest := by
  have hno : ¬ ∃ l : Label, ¬ l.IsAccept ∧ s.step indexHtml l ≠ none :=
    fun ⟨l, hl, hne⟩ => hne (hstuck l hl)
  have hconsumer := (s.exists_consumer_step indexHtml).resolve_right hno
  refine ⟨?_, fun c => (hs.exists_handler_step c).resolve_right hno, hconsumer.1, hconsumer.2⟩
  by_contra hl
  exact hno (Server.exists_listener_step hl)

/-- **No deadlock.** In a reachable state nothing but the acceptance of a connection can happen
exactly when the system is at rest. -/
theorem stuck_iff_atRest (hs : s.Reachable indexHtml) :
    (∀ l : Label, ¬ l.IsAccept → s.step indexHtml l = none) ↔ s.AtRest :=
  ⟨hs.atRest_of_stuck, fun hrest _ => hrest.step_eq_none⟩

/-- Rest, checked on the connections that the loop has reached. -/
theorem Server.Reachable.atRest (hs : s.Reachable indexHtml) (hl : s.listener = .accepting)
    (hended : ∀ c < s.conns, s.handlers c = .deleted) (hidle : ∀ k ∈ s.consumers, k.held = none)
    (hq : s.box.queue = []) : s.AtRest where
  listener := hl
  handlers c := by
    rcases lt_or_ge c s.conns with hlt | hge
    · exact .inr (.inl (hended c hlt))
    · exact .inl (hs.handlersOk.absent c hge)
  consumers k hk := by
    have hnone := hidle k hk
    cases k with
    | idle => rfl
    | decoding | driving => cases hnone
  queue := .inr hq

/-- **Descriptors at rest.** A handler that is going to close its descriptor does so before the
system rests: then every descriptor is closed exactly when every handler of the run could be created
and every request that was received fits its record. -/
theorem Server.AtRest.openFds_eq_nil_iff {ls : List Label} (hrest : s.AtRest)
    (h : exec (Server.step indexHtml) .init ls = some s) :
    s.openFds = [] ↔
      .createHandler false ∉ ls ∧ ∀ c r, .recv c (some r) ∈ ls → r.Fits := by
  have hopen {c fd : Nat} (hfd : (s.handlers c).fd s.heap = some fd) : fd ∈ s.openFds :=
    ((Ownership.inv_of_exec (Server.exec_pool h)).held c fd hfd).1
  rw [← Server.descriptorsOwned_iff_run h hrest.listener]
  refine ⟨fun hnil => ?_, fun howned => List.eq_nil_iff_forall_not_mem.2 fun fd hfd => ?_⟩
  · have hnone {c fd : Nat} (hfd : (s.handlers c).fd s.heap = some fd) : False := by
      have hmem := hopen hfd
      rw [hnil] at hmem
      cases hmem
    refine ⟨hnil ▸ List.nodup_nil, fun fd hfd => ?_, fun c fd hfd => (hnone hfd).elim,
      fun c c' fd hfd => (hnone hfd).elim, fun c fd todo hc => (Server.closes_own h hc).1⟩
    rw [hnil] at hfd
    cases hfd
  · obtain ⟨c, hc, -⟩ := howned.held fd hfd
    have hclose := howned.willClose c fd hc
    rcases hrest.handlers c with hended | hended | ⟨fd', i, todo, hended⟩
    · rw [hended] at hclose
      exact hclose
    · rw [hended] at hclose
      exact hclose
    · rw [hended] at hclose
      exact hclose.2 i (.head _)

/-- At rest no record is waiting, if there is a consumer. -/
theorem Server.AtRest.quiescent (hs : s.AtRest) (hconsumers : s.consumers ≠ []) :
    s.Quiescent where
  between c hbetween := by
    have hphase := Handler.between_iff.1 hbetween
    rcases hs.handlers c with hc | hc | ⟨fd, i, todo, hc⟩
    · rw [hc] at hphase
      cases hphase
    · rw [hc] at hphase
      cases hphase
    · rw [hc] at hphase
      cases hphase
  queue := hs.queue.resolve_left hconsumers
  idle := hs.consumers

/-- **Every schedule ends.** While no connection arrives, a run from a reachable state has no more
steps than the state has work, and wherever it has got to, it can be continued within this bound to
a state of rest. There the last record that the queue accepted has been processed last, if the
consumer could be created. -/
theorem schedules_come_to_rest (hs : s.Reachable indexHtml) {ls : List Label}
    (h : exec (Server.step indexHtml) s ls = some t) (hls : ∀ l ∈ ls, ¬ l.IsAccept) :
    ∃ ls' u, exec (Server.step indexHtml) t ls' = some u ∧ (∀ l ∈ ls', ¬ l.IsAccept) ∧
      ls.length + ls'.length ≤ s.work ∧ u.AtRest ∧
      (u.consumers ≠ [] → ∀ c record, u.box.sent.getLast? = some (c, record) →
        ∃ tail, u.processed.getLast? = some (c, ⟨record, tail⟩)) := by
  have hlower (v : Server) (l : Label) (w : Server) (hv : v.Reachable indexHtml)
      (hst : v.step indexHtml l = some w) (hl : ¬ l.IsAccept) : w.work < v.work :=
    hv.work_lt hst hl
  have ht : t.Reachable indexHtml := Run.Reachable.trans hs ⟨ls, h⟩
  obtain ⟨ls', u, hu, hls', hstuck⟩ := exists_exec_stuck hlower ht
  have hur : u.Reachable indexHtml := Run.Reachable.trans ht ⟨ls', hu⟩
  have hrest := hur.atRest_of_stuck hstuck
  refine ⟨ls', u, hu, hls', ?_, hrest, fun hconsumers c record hlast => ?_⟩
  · have hwhole : exec (Server.step indexHtml) s (ls ++ ls') = some u := by
      rw [exec_append, h, Option.bind_some, hu]
    have hwork (v : Server) (l : Label) (w : Server)
        (hv : Run.Reachable (Server.step indexHtml) s v) (hst : v.step indexHtml l = some w) :
        w.work + 1 ≤ v.work + if l.IsAccept then connectionWork else 0 := by
      have hv' : v.Reachable indexHtml := Run.Reachable.trans hs hv
      exact Server.work_step hv'.handlersOk hv'.consumersOk hst
    have hlen := exec_length_le_mul hwork hwhole
    have hnone : (ls ++ ls').countP Label.IsAccept = 0 := by
      rw [List.countP_eq_zero]
      intro l hl
      rw [decide_eq_true_eq]
      exact (List.mem_append.1 hl).elim (hls l) (hls' l)
    rw [hnone, mul_zero, add_zero, List.length_append] at hlen
    omega
  · exact hur.getLast_processed (hrest.quiescent hconsumers) hlast

end

/-- The run in which the second connection overtakes the first one. -/
theorem steps_per_connection_overtaking :
    overtakingRun.length + (stateAfter overtakingRun).work ≤
      connectionWork * overtakingRun.countP Label.IsAccept :=
  steps_per_connection (exec_eq_getD (by decide +kernel))

/-- After that run nothing can happen but a new connection. -/
theorem stuck_iff_atRest_overtaking :
    (∀ l : Label, ¬ l.IsAccept → (stateAfter overtakingRun).step [] l = none) ↔
      (stateAfter overtakingRun).AtRest :=
  stuck_iff_atRest reachable_overtaking

/-- A connection whose request has been received is served to the end. -/
theorem schedules_come_to_rest_submit :
    ∃ ls' u, exec (Server.step []) (stateAfter (connect 54 0 ++ submit 0 releaseRequest)) ls' =
        some u ∧ (∀ l ∈ ls', ¬ l.IsAccept) ∧
      (submit 0 releaseRequest).length + ls'.length ≤ (stateAfter (connect 54 0)).work ∧ u.AtRest ∧
      (u.consumers ≠ [] → ∀ c record, u.box.sent.getLast? = some (c, record) →
        ∃ tail, u.processed.getLast? = some (c, ⟨record, tail⟩)) := by
  have hs : (stateAfter (connect 54 0)).Reachable [] := reachable_stateAfter (by decide +kernel)
  have hwhole : exec (Server.step []) .init (connect 54 0 ++ submit 0 releaseRequest) =
      some (stateAfter (connect 54 0 ++ submit 0 releaseRequest)) :=
    exec_eq_getD (by decide +kernel)
  have hfirst : exec (Server.step []) .init (connect 54 0) = some (stateAfter (connect 54 0)) :=
    exec_eq_getD (by decide +kernel)
  rw [exec_append, hfirst, Option.bind_some] at hwhole
  refine schedules_come_to_rest hs hwhole fun l hl => ?_
  fin_cases hl <;> exact id

end InfantryRM

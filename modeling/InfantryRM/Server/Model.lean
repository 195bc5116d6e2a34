import InfantryRM.Lib.Run
import InfantryRM.Lib.Mailbox
import InfantryRM.Web.Dispatch

/-!
# The server as a system of tasks

`webserver` accepts connections in a loop, creates the one `web_recdata` task at the first of them,
and creates a `handle_http_request` task for each. A handler performs its actions
(`handleHttpRequest`) one after the other, the consumer the calls of a record (`webRecdata`), and
`Server.step` interleaves them all: a label names the task that moves and what its environment
decides (the descriptor that `accept` returns, whether a task could be created, what `recv`
returned, the bytes behind `val_Buff_02`). Queue operations are single steps.

A connection is named by the number of connections accepted before it, a record in the queue by the
connection that it came from. A handler that stores outside its record has undefined behaviour; it
has no further step.
-/

namespace InfantryRM

open Run Mailbox

/-! ## States -/

/-- The capacity of `URLString_queue`. Source: `web_server_start` (`webserver.c:582`). -/
def queueLength : Nat := 30

/-- Where the accept loop stands. Source: `webserver` (`webserver.c:533`). -/
inductive Listener
  | accepting
  | accepted (newFd : Nat)
  | allocating (newFd : Nat)
  | creating (paraFd : Nat)
  deriving DecidableEq, Repr

/-- Where the task of a connection stands. Source: `handle_http_request` (`webserver.c:84`). -/
inductive Handler
  | absent
  | starting (paraFd : Nat)
  | receiving (fd : Nat)
  | running (fd : Nat) (todo : List Action)
  | deleted
  deriving DecidableEq

/-- Where a consumer stands: it waits for a record, has one, or performs its calls. Source:
`web_recdata` (`webserver.c:237`). -/
inductive Consumer
  | idle
  | decoding (c : Nat) (record : URLData)
  | driving (c : Nat) (job : Job) (todo : List Effect)

/-- The whole system. `conns` counts the finished rounds of the accept loop, `heap` holds the cells
that pass a descriptor to its handler, and `processed` the jobs whose loop body is complete. -/
structure Server where
  listener : Listener
  conns : Nat
  openFds : List Nat
  heap : List Nat
  urlRecHandle : Bool
  handlers : Nat → Handler
  consumers : List Consumer
  box : Box (Nat × URLData) Nat
  robot : Robot
  processed : List (Nat × Job)

/-- The system before the first connection. -/
def Server.init : Server :=
  ⟨.accepting, 0, [], [], false, fun _ => .absent, [], .empty, boot, []⟩

/-! ## The accept loop -/

/-- `accept` returns a descriptor that is not open. Source: `webserver.c:535`. -/
def Server.accept (s : Server) (newFd : Nat) : Option Server :=
  match s.listener with
  | .accepting =>
    if newFd ∈ s.openFds then none
    else some { s with listener := .accepted newFd, openFds := newFd :: s.openFds }
  | _ => none

/-- The consumer is created when there is no handle yet; `ok` is the result of `xTaskCreate`.
Source: `webserver.c:543`. -/
def Server.createConsumer (s : Server) (ok : Bool) : Option Server :=
  match s.listener with
  | .accepted newFd =>
    if s.urlRecHandle = false ∧ ok = true then
      some { s with
        listener := .allocating newFd, urlRecHandle := true, consumers := s.consumers ++ [.idle] }
    else some { s with listener := .allocating newFd }
  | _ => none

/-- Source: `para_fd` (`webserver.c:561`). -/
def Server.malloc (s : Server) : Option Server :=
  match s.listener with
  | .allocating newFd =>
    some { s with listener := .creating s.heap.length, heap := s.heap ++ [newFd] }
  | _ => none

/-- The handler of the connection is created, if `xTaskCreate` succeeds, and the loop starts over.
Source: `webserver.c:565`. -/
def Server.createHandler (s : Server) (ok : Bool) : Option Server :=
  match s.listener with
  | .creating paraFd =>
    if ok = true then
      some { s with
        listener := .accepting, conns := s.conns + 1,
        handlers := Function.update s.handlers s.conns (.starting paraFd) }
    else some { s with listener := .accepting, conns := s.conns + 1 }
  | _ => none

/-! ## Handlers -/

/-- A handler reads its descriptor and goes to `recv`. Source: `webserver.c:97`. -/
def Server.start (s : Server) (c : Nat) : Option Server :=
  match s.handlers c with
  | .starting paraFd =>
    match s.heap[paraFd]? with
    | some fd => some { s with handlers := Function.update s.handlers c (.receiving fd) }
    | none => none
  | _ => none

/-- `recv` returns. Source: `webserver.c:110`. -/
def Server.recv (indexHtml : List UInt8) (s : Server) (c : Nat) (r : Option Received) :
    Option Server :=
  match s.handlers c with
  | .receiving fd =>
    some { s with
      handlers := Function.update s.handlers c (.running fd (handleHttpRequest indexHtml r)) }
  | _ => none

/-- A handler performs its next action. -/
def Server.act (s : Server) (c : Nat) : Option Server :=
  match s.handlers c with
  | .running fd (a :: todo) =>
    let next := { s with handlers := Function.update s.handlers c (.running fd todo) }
    match a with
    | .xQueueReset => some { next with box := s.box.reset c }
    | .xQueueSend record => some { next with box := s.box.send queueLength (c, record) }
    | .myWrite _ | .vTaskDelay _ => some next
    | .close => some { next with openFds := s.openFds.erase fd }
    | .vTaskDelete => some { s with handlers := Function.update s.handlers c .deleted }
    | .outOfBounds _ => none
  | _ => none

/-! ## Consumers -/

/-- A consumer takes a record; at an empty queue it waits. Source: `webserver.c:242`. -/
def Server.xQueueReceive (s : Server) (k : Nat) : Option Server :=
  match s.consumers[k]?, s.box.receive with
  | some .idle, some ((c, record), box) =>
    some { s with consumers := s.consumers.set k (.decoding c record), box := box }
  | _, _ => none

/-- A consumer decodes its record, which updates the tracked angles. Source: `webserver.c:253`. -/
def Server.decode (s : Server) (k : Nat) (tail : List UInt8) : Option Server :=
  match s.consumers[k]? with
  | some (.decoding c record) =>
    let r := webRecdata ⟨record, tail⟩ s.robot.angles
    some { s with
      consumers := s.consumers.set k (.driving c ⟨record, tail⟩ r.2)
      robot := { s.robot with angles := r.1 } }
  | _ => none

/-- A consumer performs the next call of its record, or goes back to the head of its loop. -/
def Server.drive (s : Server) (k : Nat) : Option Server :=
  match s.consumers[k]? with
  | some (.driving c job (e :: todo)) =>
    some { s with
      consumers := s.consumers.set k (.driving c job todo)
      robot := { s.robot with hw := s.robot.hw.apply e } }
  | some (.driving c job []) =>
    some { s with
      consumers := s.consumers.set k .idle
      processed := s.processed ++ [(c, job)] }
  | _ => none

/-! ## Steps -/

/-- Who moves, and what its environment decides. -/
inductive Label
  | accept (newFd : Nat)
  | createConsumer (ok : Bool)
  | malloc
  | createHandler (ok : Bool)
  | start (c : Nat)
  | recv (c : Nat) (r : Option Received)
  | act (c : Nat)
  | xQueueReceive (k : Nat)
  | decode (k : Nat) (tail : List UInt8)
  | drive (k : Nat)

def Server.step (indexHtml : List UInt8) (s : Server) : Label → Option Server
  | .accept newFd => s.accept newFd
  | .createConsumer ok => s.createConsumer ok
  | .malloc => s.malloc
  | .createHandler ok => s.createHandler ok
  | .start c => s.start c
  | .recv c r => s.recv indexHtml c r
  | .act c => s.act c
  | .xQueueReceive k => s.xQueueReceive k
  | .decode k tail => s.decode k tail
  | .drive k => s.drive k

/-- The states of the runs of the server. -/
def Server.Reachable (indexHtml : List UInt8) (s : Server) : Prop :=
  Run.Reachable (Server.step indexHtml) Server.init s

/-! ## What a step can do -/

section
variable {s t : Server} {indexHtml : List UInt8} {c k newFd : Nat} {ok : Bool}

theorem Server.accept_cases (h : s.accept newFd = some t) :
    s.listener = .accepting ∧ newFd ∉ s.openFds ∧
      t = { s with listener := .accepted newFd, openFds := newFd :: s.openFds } := by
  unfold Server.accept at h
  split at h
  · next hl =>
    split at h
    · cases h
    · next hnew =>
      cases h
      exact ⟨hl, hnew, rfl⟩
  · cases h

theorem Server.createConsumer_cases (h : s.createConsumer ok = some t) :
    ∃ newFd, s.listener = .accepted newFd ∧
      (¬ (s.urlRecHandle = false ∧ ok = true) ∧ t = { s with listener := .allocating newFd } ∨
        (s.urlRecHandle = false ∧ ok = true) ∧ t = { s with
          listener := .allocating newFd, urlRecHandle := true,
          consumers := s.consumers ++ [.idle] }) := by
  unfold Server.createConsumer at h
  split at h
  · next newFd hl =>
    refine ⟨newFd, hl, ?_⟩
    split at h
    · next hok =>
      cases h
      exact .inr ⟨hok, rfl⟩
    · next hok =>
      cases h
      exact .inl ⟨hok, rfl⟩
  · cases h

theorem Server.malloc_cases (h : s.malloc = some t) :
    ∃ newFd, s.listener = .allocating newFd ∧
      t = { s with listener := .creating s.heap.length, heap := s.heap ++ [newFd] } := by
  unfold Server.malloc at h
  split at h
  · next newFd hl =>
    cases h
    exact ⟨newFd, hl, rfl⟩
  · cases h

theorem Server.createHandler_cases (h : s.createHandler ok = some t) :
    ∃ paraFd, s.listener = .creating paraFd ∧
      (ok = false ∧ t = { s with listener := .accepting, conns := s.conns + 1 } ∨
        ok = true ∧ t = { s with
          listener := .accepting, conns := s.conns + 1,
          handlers := Function.update s.handlers s.conns (.starting paraFd) }) := by
  unfold Server.createHandler at h
  split at h
  · next paraFd hl =>
    refine ⟨paraFd, hl, ?_⟩
    split at h
    · next hok =>
      cases h
      exact .inr ⟨hok, rfl⟩
    · next hok =>
      cases h
      exact .inl ⟨Bool.eq_false_of_not_eq_true hok, rfl⟩
  · cases h

theorem Server.start_cases (h : s.start c = some t) :
    ∃ paraFd fd, s.handlers c = .starting paraFd ∧ s.heap[paraFd]? = some fd ∧
      t = { s with handlers := Function.update s.handlers c (.receiving fd) } := by
  unfold Server.start at h
  split at h
  · next paraFd hc =>
    split at h
    · next fd hfd =>
      cases h
      exact ⟨paraFd, fd, hc, hfd, rfl⟩
    · cases h
  · cases h

theorem Server.recv_cases {r : Option Received} (h : s.recv indexHtml c r = some t) :
    ∃ fd, s.handlers c = .receiving fd ∧ t = { s with
      handlers := Function.update s.handlers c (.running fd (handleHttpRequest indexHtml r)) } := by
  unfold Server.recv at h
  split at h
  · next fd hc =>
    cases h
    exact ⟨fd, hc, rfl⟩
  · cases h

/-- An action of a handler moves the handler to the rest of its actions or ends it, and changes the
queue when it is a reset or a send; the other tasks do not notice anything else. -/
theorem Server.act_cases (h : s.act c = some t) :
    ∃ fd a todo, s.handlers c = .running fd (a :: todo) ∧
      ((a = .xQueueReset ∧ t = { s with
          handlers := Function.update s.handlers c (.running fd todo), box := s.box.reset c }) ∨
        (∃ record, a = .xQueueSend record ∧ t = { s with
          handlers := Function.update s.handlers c (.running fd todo),
          box := s.box.send queueLength (c, record) }) ∨
        (((∃ data, a = .myWrite data) ∨ ∃ ticks, a = .vTaskDelay ticks) ∧ t = { s with
          handlers := Function.update s.handlers c (.running fd todo) }) ∨
        (a = .close ∧ t = { s with
          handlers := Function.update s.handlers c (.running fd todo),
          openFds := s.openFds.erase fd }) ∨
        (a = .vTaskDelete ∧ t = { s with
          handlers := Function.update s.handlers c .deleted })) := by
  unfold Server.act at h
  split at h
  · next fd a todo hc =>
    refine ⟨fd, a, todo, hc, ?_⟩
    cases a with
    | xQueueReset => cases h; exact .inl ⟨rfl, rfl⟩
    | xQueueSend record => cases h; exact .inr (.inl ⟨record, rfl, rfl⟩)
    | myWrite data => cases h; exact .inr (.inr (.inl ⟨.inl ⟨data, rfl⟩, rfl⟩))
    | vTaskDelay ticks => cases h; exact .inr (.inr (.inl ⟨.inr ⟨ticks, rfl⟩, rfl⟩))
    | close => cases h; exact .inr (.inr (.inr (.inl ⟨rfl, rfl⟩)))
    | vTaskDelete => cases h; exact .inr (.inr (.inr (.inr ⟨rfl, rfl⟩)))
    | outOfBounds i => cases h
  · cases h

theorem Server.xQueueReceive_cases (h : s.xQueueReceive k = some t) :
    ∃ c record box, s.consumers[k]? = some .idle ∧ s.box.receive = some ((c, record), box) ∧
      t = { s with consumers := s.consumers.set k (.decoding c record), box := box } := by
  unfold Server.xQueueReceive at h
  split at h
  · next c record box hk hbox =>
    cases h
    exact ⟨c, record, box, hk, hbox, rfl⟩
  · cases h

theorem Server.decode_cases {tail : List UInt8} (h : s.decode k tail = some t) :
    ∃ c record, s.consumers[k]? = some (.decoding c record) ∧ t = { s with
      consumers := s.consumers.set k
        (.driving c ⟨record, tail⟩ (webRecdata ⟨record, tail⟩ s.robot.angles).2)
      robot := { s.robot with angles := (webRecdata ⟨record, tail⟩ s.robot.angles).1 } } := by
  unfold Server.decode at h
  split at h
  · next c record hk =>
    cases h
    exact ⟨c, record, hk, rfl⟩
  · cases h

theorem Server.drive_cases (h : s.drive k = some t) :
    ∃ c job, (∃ e todo, s.consumers[k]? = some (.driving c job (e :: todo)) ∧ t = { s with
        consumers := s.consumers.set k (.driving c job todo)
        robot := { s.robot with hw := s.robot.hw.apply e } }) ∨
      (s.consumers[k]? = some (.driving c job []) ∧ t = { s with
        consumers := s.consumers.set k .idle
        processed := s.processed ++ [(c, job)] }) := by
  unfold Server.drive at h
  split at h
  · next c job e todo hk =>
    cases h
    exact ⟨c, job, .inl ⟨e, todo, hk, rfl⟩⟩
  · next c job hk =>
    cases h
    exact ⟨c, job, .inr ⟨hk, rfl⟩⟩
  · cases h

end

/-! ## What a step leaves alone -/

/-- The steps that create or move a handler. -/
def Label.MovesHandler : Label → Prop
  | .createHandler _ | .start _ | .recv _ _ | .act _ => True
  | .accept _ | .createConsumer _ | .malloc | .xQueueReceive _ | .decode _ _ | .drive _ => False

/-- The steps that create or move a consumer. -/
def Label.MovesConsumer : Label → Prop
  | .createConsumer _ | .xQueueReceive _ | .decode _ _ | .drive _ => True
  | .accept _ | .malloc | .createHandler _ | .start _ | .recv _ _ | .act _ => False

/-- The steps of the accept loop and of the handlers. -/
def Label.MovesConnection : Label → Prop
  | .accept _ | .createConsumer _ | .malloc | .createHandler _ | .start _ | .recv _ _ | .act _ =>
    True
  | .xQueueReceive _ | .decode _ _ | .drive _ => False

/-- The steps that can touch the queue. -/
def Label.MovesQueue : Label → Prop
  | .act _ | .xQueueReceive _ => True
  | .accept _ | .createConsumer _ | .malloc | .createHandler _ | .start _ | .recv _ _
  | .decode _ _ | .drive _ => False

section
variable {s t : Server} {indexHtml : List UInt8} {l : Label}

/-- The accept loop and the consumers leave the handlers alone. -/
theorem Server.step_handlers (hl : ¬ l.MovesHandler) (hst : s.step indexHtml l = some t) :
    t.handlers = s.handlers ∧ t.conns = s.conns := by
  cases l with
  | accept newFd =>
    obtain ⟨-, -, rfl⟩ := Server.accept_cases hst
    exact ⟨rfl, rfl⟩
  | createConsumer ok =>
    obtain ⟨newFd, -, ⟨-, rfl⟩ | ⟨-, rfl⟩⟩ := Server.createConsumer_cases hst
    · exact ⟨rfl, rfl⟩
    · exact ⟨rfl, rfl⟩
  | malloc =>
    obtain ⟨newFd, -, rfl⟩ := Server.malloc_cases hst
    exact ⟨rfl, rfl⟩
  | xQueueReceive k =>
    obtain ⟨c, record, box, -, -, rfl⟩ := Server.xQueueReceive_cases hst
    exact ⟨rfl, rfl⟩
  | decode k tail =>
    obtain ⟨c, record, -, rfl⟩ := Server.decode_cases hst
    exact ⟨rfl, rfl⟩
  | drive k =>
    obtain ⟨c, job, ⟨e, todo, -, rfl⟩ | ⟨-, rfl⟩⟩ := Server.drive_cases hst
    · exact ⟨rfl, rfl⟩
    · exact ⟨rfl, rfl⟩
  | createHandler | start | recv | act => exact absurd trivial hl

/-- The accept loop and the handlers leave the consumers and the robot alone. -/
theorem Server.step_consumers (hl : ¬ l.MovesConsumer) (hst : s.step indexHtml l = some t) :
    t.consumers = s.consumers ∧ t.urlRecHandle = s.urlRecHandle ∧ t.robot = s.robot ∧
      t.processed = s.processed := by
  cases l with
  | accept newFd =>
    obtain ⟨-, -, rfl⟩ := Server.accept_cases hst
    exact ⟨rfl, rfl, rfl, rfl⟩
  | malloc =>
    obtain ⟨newFd, -, rfl⟩ := Server.malloc_cases hst
    exact ⟨rfl, rfl, rfl, rfl⟩
  | createHandler ok =>
    obtain ⟨paraFd, -, ⟨-, rfl⟩ | ⟨-, rfl⟩⟩ := Server.createHandler_cases hst
    · exact ⟨rfl, rfl, rfl, rfl⟩
    · exact ⟨rfl, rfl, rfl, rfl⟩
  | start c =>
    obtain ⟨paraFd, fd, -, -, rfl⟩ := Server.start_cases hst
    exact ⟨rfl, rfl, rfl, rfl⟩
  | recv c r =>
    obtain ⟨fd, -, rfl⟩ := Server.recv_cases hst
    exact ⟨rfl, rfl, rfl, rfl⟩
  | act c =>
    obtain ⟨fd, a, todo, -, ⟨-, rfl⟩ | ⟨record, -, rfl⟩ | ⟨-, rfl⟩ | ⟨-, rfl⟩ | ⟨-, rfl⟩⟩ :=
      Server.act_cases hst
    · exact ⟨rfl, rfl, rfl, rfl⟩
    · exact ⟨rfl, rfl, rfl, rfl⟩
    · exact ⟨rfl, rfl, rfl, rfl⟩
    · exact ⟨rfl, rfl, rfl, rfl⟩
    · exact ⟨rfl, rfl, rfl, rfl⟩
  | createConsumer | xQueueReceive | decode | drive => exact absurd trivial hl

/-- The consumers leave the accept loop, the descriptors, the cells and the handlers alone. -/
theorem Server.step_connections (hl : ¬ l.MovesConnection) (hst : s.step indexHtml l = some t) :
    t.listener = s.listener ∧ t.conns = s.conns ∧ t.openFds = s.openFds ∧ t.heap = s.heap ∧
      t.handlers = s.handlers := by
  cases l with
  | xQueueReceive k =>
    obtain ⟨c, record, box, -, -, rfl⟩ := Server.xQueueReceive_cases hst
    exact ⟨rfl, rfl, rfl, rfl, rfl⟩
  | decode k tail =>
    obtain ⟨c, record, -, rfl⟩ := Server.decode_cases hst
    exact ⟨rfl, rfl, rfl, rfl, rfl⟩
  | drive k =>
    obtain ⟨c, job, ⟨e, todo, -, rfl⟩ | ⟨-, rfl⟩⟩ := Server.drive_cases hst
    · exact ⟨rfl, rfl, rfl, rfl, rfl⟩
    · exact ⟨rfl, rfl, rfl, rfl, rfl⟩
  | accept | createConsumer | malloc | createHandler | start | recv | act =>
    exact absurd trivial hl

/-- Only an action of a handler and a consumer that takes a record touch the queue. -/
theorem Server.step_box (hl : ¬ l.MovesQueue) (hst : s.step indexHtml l = some t) :
    t.box = s.box := by
  cases l with
  | accept newFd =>
    obtain ⟨-, -, rfl⟩ := Server.accept_cases hst
    rfl
  | createConsumer ok =>
    obtain ⟨newFd, -, ⟨-, rfl⟩ | ⟨-, rfl⟩⟩ := Server.createConsumer_cases hst
    · rfl
    · rfl
  | malloc =>
    obtain ⟨newFd, -, rfl⟩ := Server.malloc_cases hst
    rfl
  | createHandler ok =>
    obtain ⟨paraFd, -, ⟨-, rfl⟩ | ⟨-, rfl⟩⟩ := Server.createHandler_cases hst
    · rfl
    · rfl
  | start c =>
    obtain ⟨paraFd, fd, -, -, rfl⟩ := Server.start_cases hst
    rfl
  | recv c r =>
    obtain ⟨fd, -, rfl⟩ := Server.recv_cases hst
    rfl
  | decode k tail =>
    obtain ⟨c, record, -, rfl⟩ := Server.decode_cases hst
    rfl
  | drive k =>
    obtain ⟨c, job, ⟨e, todo, -, rfl⟩ | ⟨-, rfl⟩⟩ := Server.drive_cases hst
    · rfl
    · rfl
  | act | xQueueReceive => exact absurd trivial hl

end

end InfantryRM

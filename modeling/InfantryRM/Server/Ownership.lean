import InfantryRM.Lib.Ownership
import InfantryRM.Server.Capacity

/-!
# Descriptors and cells

The accept loop passes a descriptor to its handler through a cell on the heap, and the handler
closes the descriptor. So the server is an instance of a manager that hands resources over to tasks
(`Server.pool`, `Server.pool_step`). Two kinds of connections stay open for ever. The loop looks at
the result of `xTaskCreate` for the consumer, and not for a handler, so nobody has the descriptor of
a handler that could not be created; and a handler that stores outside its record has its descriptor
and does not come to its `close`. Between two rounds every open descriptor has one handler, which is
still going to close it, exactly when neither has happened (`descriptors_owned_iff`).

Nobody frees a cell. Between two rounds there are as many cells as handlers in flight, failed
creations and ended handlers together (`length_heap_eq`).
-/

namespace InfantryRM

open Run Ownership

/-! ## Who holds a descriptor -/

/-- What a handler that stays inside its record may still have to do: some other actions, and then
to close its connection and to end; or to end only. -/
inductive Closes : List Action → Prop
  | closing : Closes requstError
  | closed : Closes [.vTaskDelete]
  | other {a : Action} {todo : List Action} : a ≠ .close → a ≠ .vTaskDelete →
    (∀ i, a ≠ .outOfBounds i) → todo ≠ [.vTaskDelete] → Closes todo → Closes (a :: todo)

/-- The descriptor that a handler has and has not closed: the one in its cell, then its own. It has
closed it when there is nothing left to do but `vTaskDelete`. A handler that stores outside its
record keeps it. -/
def Handler.fd (heap : List Nat) : Handler → Option Nat
  | .starting paraFd => heap[paraFd]?
  | .receiving fd => some fd
  | .running fd todo => if todo = [.vTaskDelete] then none else some fd
  | .absent | .deleted => none

/-- The handler has the `close` of its connection before it: every path of its code has one, and
when it runs, it is among the actions that are left, and no store outside the record is. -/
def Handler.WillClose : Handler → Prop
  | .starting _ | .receiving _ => True
  | .running _ todo => .close ∈ todo ∧ ∀ i, .outOfBounds i ∉ todo
  | .absent | .deleted => False

/-- The handler stores outside its record. -/
def Handler.Lost (h : Handler) : Prop := ∃ fd i, h = .running fd [.outOfBounds i]

/-- The descriptor that the accept loop has not handed over. -/
def Listener.fd (heap : List Nat) : Listener → Option Nat
  | .accepting => none
  | .accepted newFd | .allocating newFd => some newFd
  | .creating paraFd => heap[paraFd]?

/-- The open descriptors and who has them. -/
def Server.pool (s : Server) : Pool Nat Nat :=
  ⟨s.openFds, s.listener.fd s.heap, fun c => (s.handlers c).fd s.heap⟩

/-- What a step of the server does to the descriptors. -/
def Server.poolOp (s : Server) : Label → Option (Op Nat Nat)
  | .accept newFd => some (.acquire newFd)
  | .createHandler true => some (.handOver s.conns)
  | .createHandler false => some .drop
  | .act c =>
    match s.handlers c with
    | .running _ (.close :: _) => some (.release c)
    | _ => none
  | _ => none

/-- The handlers close their connections or are lost, and the cells in use are on the heap. -/
structure Server.FdsOk (s : Server) : Prop where
  closes : ∀ c fd todo, s.handlers c = .running fd todo →
    Closes todo ∨ ∃ i, todo = [.outOfBounds i]
  cells : ∀ c paraFd, s.handlers c = .starting paraFd → paraFd < s.heap.length
  cell : ∀ paraFd, s.listener = .creating paraFd → paraFd < s.heap.length

section
variable {s t : Server} {indexHtml : List UInt8} {c : Nat} {h : Handler} {l : Label}

/-- A handler closes its connection exactly when what it received fits its record. Otherwise it
stores outside. -/
theorem closes_handleHttpRequest (indexHtml : List UInt8) (r : Option Received) :
    ((∀ x ∈ r, x.Fits) ∧ Closes (handleHttpRequest indexHtml r)) ∨
      (∃ x ∈ r, ¬ x.Fits) ∧ ∃ i, handleHttpRequest indexHtml r = [.outOfBounds i] := by
  cases r with
  | none => exact .inl ⟨nofun, .closing⟩
  | some r =>
    by_cases hr : ∃ s h, RequestText r.text s h
    · obtain ⟨s, h, ht⟩ := hr
      rcases handleHttpRequest_of_text indexHtml ht with ⟨hlong, hout⟩ | ⟨hle, record, -, hactions⟩
      · exact .inr ⟨⟨r, rfl, fun hfits => absurd (hfits s h ht) (Nat.not_le_of_lt hlong)⟩, hout⟩
      · refine .inl ⟨fun x hx => Option.some.inj hx ▸ ht.fits_iff.2 hle, ?_⟩
        rw [hactions]
        have hend : Closes (.vTaskDelay 30 :: requstError) :=
          .other nofun nofun nofun nofun .closing
        refine .other nofun nofun nofun nofun (.other nofun nofun nofun ?_ ?_)
        · split <;> exact nofun
        · split
          · exact .other nofun nofun nofun nofun (.other nofun nofun nofun nofun hend)
          · exact .other nofun nofun nofun nofun hend
    · rw [handleHttpRequest_of_not_text hr]
      refine .inl ⟨fun x hx s h ht => absurd ⟨s, h, ?_⟩ hr, .closing⟩
      rwa [Option.some.inj hx]

/-- No handler leaves its connection open and only ends. -/
theorem handleHttpRequest_ne_vTaskDelete (indexHtml : List UInt8) (r : Option Received) :
    handleHttpRequest indexHtml r ≠ [.vTaskDelete] := by
  intro hend
  cases r with
  | none => cases hend
  | some r =>
    by_cases hr : ∃ s h, RequestText r.text s h
    · obtain ⟨s, h, ht⟩ := hr
      rcases handleHttpRequest_of_text indexHtml ht with ⟨-, i, hout⟩ | ⟨-, record, -, hactions⟩
      · cases hout.symm.trans hend
      · cases hactions.symm.trans hend
    · cases (handleHttpRequest_of_not_text hr).symm.trans hend

/-- Behind its close a handler only deletes itself. -/
theorem Closes.of_close {todo : List Action} (h : Closes (.close :: todo)) :
    todo = [.vTaskDelete] := by
  cases h with
  | closing => rfl
  | other hclose => exact absurd rfl hclose

/-- Nothing stands behind the deletion. -/
theorem Closes.of_vTaskDelete {todo : List Action} (h : Closes (.vTaskDelete :: todo)) :
    todo = [] := by
  cases h with
  | closed => rfl
  | other _ hdelete => exact absurd rfl hdelete

/-- What stands behind any other action closes the connection. -/
theorem Closes.tail {a : Action} {todo : List Action} (h : Closes (a :: todo))
    (hdelete : a ≠ .vTaskDelete) : Closes todo := by
  cases h with
  | closing => exact .closed
  | closed => exact absurd rfl hdelete
  | other _ _ _ _ htodo => exact htodo

/-- A handler that has not closed its connection yet does not only have to delete itself. -/
theorem Closes.tail_ne {a : Action} {todo : List Action} (h : Closes (a :: todo))
    (hclose : a ≠ .close) (hdelete : a ≠ .vTaskDelete) : todo ≠ [.vTaskDelete] := by
  cases h with
  | closing => exact absurd rfl hclose
  | closed => exact absurd rfl hdelete
  | other _ _ _ hne => exact hne

/-- A handler that does not only have to delete itself has its close before it. -/
theorem Closes.willClose {fd : Nat} {todo : List Action} (h : Closes todo)
    (hne : todo ≠ [.vTaskDelete]) : (Handler.running fd todo).WillClose := by
  induction h with
  | closing => exact ⟨List.mem_cons_self, fun i hi => by simp [requstError] at hi⟩
  | closed => exact absurd rfl hne
  | other _ _ hout hrest _ ih =>
    obtain ⟨hclose, hinside⟩ := ih hrest
    refine ⟨List.mem_cons_of_mem _ hclose, fun i hi => ?_⟩
    exact (List.mem_cons.1 hi).elim (fun ha => hout i ha.symm) (hinside i)

/-- A handler that closes does not store outside its record. -/
theorem Closes.not_lost {fd : Nat} {todo : List Action} (h : Closes todo) :
    ¬ (Handler.running fd todo).Lost := by
  rintro ⟨fd', i, ⟨⟩⟩
  cases h with
  | other _ _ hout => exact hout i rfl

/-- A handler that performs an action closes its connection. -/
theorem Server.FdsOk.closes_of_act (hs : s.FdsOk) (hst : s.act c = some t) {fd : Nat}
    {todo : List Action} (hc : s.handlers c = .running fd todo) : Closes todo := by
  refine (hs.closes c fd _ hc).resolve_right ?_
  rintro ⟨i, rfl⟩
  rw [Server.act, hc] at hst
  cases hst

/-- Moving a handler. -/
theorem Server.FdsOk.update (hs : s.FdsOk)
    (hh : ∀ fd todo, h = .running fd todo → Closes todo ∨ ∃ i, todo = [.outOfBounds i])
    (hnot : ∀ paraFd, h ≠ .starting paraFd) (hlistener : t.listener = s.listener)
    (hheap : t.heap = s.heap) (ht : t.handlers = Function.update s.handlers c h) : t.FdsOk where
  closes c' fd todo hrun := by
    rw [ht] at hrun
    rcases eq_or_ne c' c with rfl | hne
    · rw [Function.update_self] at hrun
      exact hh fd todo hrun
    · rw [Function.update_of_ne hne] at hrun
      exact hs.closes c' fd todo hrun
  cells c' paraFd hstart := by
    rw [ht] at hstart
    rcases eq_or_ne c' c with rfl | hne
    · rw [Function.update_self] at hstart
      exact absurd hstart (hnot paraFd)
    · rw [Function.update_of_ne hne] at hstart
      exact hheap ▸ hs.cells c' paraFd hstart
  cell paraFd hcreating := hheap ▸ hs.cell paraFd (hlistener ▸ hcreating)

/-- A handler goes on with actions that close its connection, or is lost. -/
theorem Server.FdsOk.running (hs : s.FdsOk) {fd : Nat} {todo : List Action}
    (htodo : Closes todo ∨ ∃ i, todo = [.outOfBounds i]) (hlistener : t.listener = s.listener)
    (hheap : t.heap = s.heap)
    (ht : t.handlers = Function.update s.handlers c (.running fd todo)) : t.FdsOk := by
  refine hs.update (h := .running fd todo) ?_ nofun hlistener hheap ht
  rintro fd' todo' ⟨⟩
  exact htodo

/-- Every step keeps the handlers and the cells as they should be. -/
theorem Server.FdsOk.step (hs : s.FdsOk) (hst : s.step indexHtml l = some t) : t.FdsOk := by
  cases l with
  | accept newFd =>
    obtain ⟨-, -, rfl⟩ := Server.accept_cases hst
    exact ⟨hs.closes, hs.cells, nofun⟩
  | createConsumer ok =>
    obtain ⟨newFd, -, ⟨-, rfl⟩ | ⟨-, rfl⟩⟩ := Server.createConsumer_cases hst
    · exact ⟨hs.closes, hs.cells, nofun⟩
    · exact ⟨hs.closes, hs.cells, nofun⟩
  | malloc =>
    obtain ⟨newFd, -, rfl⟩ := Server.malloc_cases hst
    have hlen : (s.heap ++ [newFd]).length = s.heap.length + 1 := List.length_append
    refine ⟨hs.closes, fun c paraFd hstart => ?_, ?_⟩
    · exact (hs.cells c paraFd hstart).trans (hlen ▸ Nat.lt_succ_self _)
    · rintro paraFd ⟨⟩
      exact hlen ▸ Nat.lt_succ_self _
  | createHandler ok =>
    obtain ⟨paraFd, hl, ⟨-, rfl⟩ | ⟨-, rfl⟩⟩ := Server.createHandler_cases hst
    · exact ⟨hs.closes, hs.cells, nofun⟩
    · refine ⟨fun c fd todo hrun => ?_, fun c paraFd' hstart => ?_, nofun⟩
      · rcases eq_or_ne c s.conns with rfl | hne
        · cases (Function.update_self ..).symm.trans hrun
        · exact hs.closes c fd todo ((Function.update_of_ne hne ..).symm.trans hrun)
      · rcases eq_or_ne c s.conns with rfl | hne
        · cases (Function.update_self ..).symm.trans hstart
          exact hs.cell paraFd hl
        · exact hs.cells c paraFd' ((Function.update_of_ne hne ..).symm.trans hstart)
  | start c =>
    obtain ⟨paraFd, fd, -, -, rfl⟩ := Server.start_cases hst
    exact hs.update (h := .receiving fd) nofun nofun rfl rfl rfl
  | recv c r =>
    obtain ⟨fd, -, rfl⟩ := Server.recv_cases hst
    exact hs.running ((closes_handleHttpRequest indexHtml r).imp And.right And.right) rfl rfl rfl
  | act c =>
    obtain ⟨fd, a, todo, hc, hcases⟩ := Server.act_cases hst
    have hcloses := hs.closes_of_act hst hc
    rcases hcases with
      ⟨rfl, rfl⟩ | ⟨record, rfl, rfl⟩ | ⟨⟨data, rfl⟩ | ⟨ticks, rfl⟩, rfl⟩ | ⟨rfl, rfl⟩ | ⟨-, rfl⟩
    · exact hs.running (.inl (hcloses.tail nofun)) rfl rfl rfl
    · exact hs.running (.inl (hcloses.tail nofun)) rfl rfl rfl
    · exact hs.running (.inl (hcloses.tail nofun)) rfl rfl rfl
    · exact hs.running (.inl (hcloses.tail nofun)) rfl rfl rfl
    · exact hs.running (.inl (hcloses.tail nofun)) rfl rfl rfl
    · exact hs.update (h := .deleted) nofun nofun rfl rfl rfl
  | xQueueReceive | decode | drive =>
    obtain ⟨hlistener, -, -, hheap, hhandlers⟩ := Server.step_connections id hst
    exact ⟨hhandlers ▸ hs.closes, hhandlers ▸ hheap ▸ hs.cells, hlistener ▸ hheap ▸ hs.cell⟩

/-- The handlers and cells of every reachable state. -/
theorem Server.Reachable.fdsOk (h : s.Reachable indexHtml) : s.FdsOk :=
  h.invariant ⟨nofun, nofun, nofun⟩ fun _ _ _ hs => hs.step

/-! ## The server as a pool -/

/-- Moving a handler moves what it holds. -/
theorem Server.pool_update (hheap : t.heap = s.heap)
    (ht : t.handlers = Function.update s.handlers c h) :
    t.pool =
      ⟨t.openFds, t.listener.fd s.heap, Function.update s.pool.holder c (h.fd s.heap)⟩ := by
  have hholder : (fun c' => (t.handlers c').fd t.heap) =
      Function.update s.pool.holder c (h.fd s.heap) := by
    rw [ht, hheap]
    exact Function.comp_update (Handler.fd s.heap) s.handlers c h
  rw [Server.pool, hholder, hheap]

/-- A handler that goes on holding what it held leaves the pool alone. -/
theorem Server.pool_congr (hlistener : t.listener = s.listener) (hheap : t.heap = s.heap)
    (hopen : t.openFds = s.openFds) (ht : t.handlers = Function.update s.handlers c h)
    (hfd : h.fd s.heap = (s.handlers c).fd s.heap) : t.pool = s.pool := by
  rw [Server.pool_update hheap ht, hfd, hopen, hlistener]
  exact congrArg _ (Function.update_eq_self c s.pool.holder)

/-- A new cell does not change what a handler holds. -/
theorem Handler.fd_append {heap : List Nat} (newFd : Nat)
    (hlt : ∀ paraFd, h = .starting paraFd → paraFd < heap.length) :
    h.fd (heap ++ [newFd]) = h.fd heap := by
  cases h with
  | starting paraFd => exact List.getElem?_append_left (hlt paraFd rfl)
  | absent | receiving | running | deleted => rfl

/-- A handler that has an action to perform holds its descriptor, unless the action is its end. -/
theorem Handler.fd_running {heap : List Nat} {fd : Nat} {todo : List Action}
    (hne : todo ≠ [.vTaskDelete]) : (Handler.running fd todo).fd heap = some fd :=
  if_neg hne

/-- An action other than the close and the deletion does not touch the pool. -/
theorem Server.pool_running {fd : Nat} {a : Action} {todo : List Action}
    (hc : s.handlers c = .running fd (a :: todo)) (hcloses : Closes (a :: todo))
    (hclose : a ≠ .close) (hdelete : a ≠ .vTaskDelete) (hlistener : t.listener = s.listener)
    (hheap : t.heap = s.heap) (hopen : t.openFds = s.openFds)
    (ht : t.handlers = Function.update s.handlers c (.running fd todo)) : t.pool = s.pool := by
  refine Server.pool_congr hlistener hheap hopen ht ?_
  have hfirst : a :: todo ≠ [.vTaskDelete] := fun heq => hdelete (List.cons.inj heq).1
  rw [hc, Handler.fd_running hfirst]
  exact Handler.fd_running (hcloses.tail_ne hclose hdelete)

/-- A handler's close releases its descriptor, and its other actions do not touch the pool. -/
theorem Server.pool_act (hs : s.FdsOk) (hst : s.act c = some t) :
    (s.poolOp (.act c)).elim (t.pool = s.pool) fun op => s.pool.step op = some t.pool := by
  obtain ⟨fd, a, todo, hc, hcases⟩ := Server.act_cases hst
  have hcloses := hs.closes_of_act hst hc
  simp only [Server.poolOp, hc]
  rcases hcases with
    ⟨rfl, rfl⟩ | ⟨record, rfl, rfl⟩ | ⟨⟨data, rfl⟩ | ⟨ticks, rfl⟩, rfl⟩ | ⟨rfl, rfl⟩ | ⟨rfl, rfl⟩
  · exact Server.pool_running hc hcloses nofun nofun rfl rfl rfl rfl
  · exact Server.pool_running hc hcloses nofun nofun rfl rfl rfl rfl
  · exact Server.pool_running hc hcloses nofun nofun rfl rfl rfl rfl
  · exact Server.pool_running hc hcloses nofun nofun rfl rfl rfl rfl
  · have hheld : s.pool.holder c = some fd := by
      show (s.handlers c).fd s.heap = some fd
      rw [hc]
      exact Handler.fd_running nofun
    cases hcloses.of_close
    show s.pool.step (.release c) = some _
    simp only [Pool.step, hheld]
    refine congrArg some (Eq.symm ?_)
    exact Server.pool_update (c := c) (h := .running fd [.vTaskDelete]) rfl rfl
  · cases hcloses.of_vTaskDelete
    refine Server.pool_congr (h := .deleted) rfl rfl rfl rfl ?_
    rw [hc]
    rfl

/-- **Refinement.** Every step of the server is a step of the pool, or does not touch it. -/
theorem Server.pool_step (hs : s.FdsOk) (hh : s.HandlersOk) (hst : s.step indexHtml l = some t) :
    (s.poolOp l).elim (t.pool = s.pool) fun op => s.pool.step op = some t.pool := by
  cases l with
  | accept newFd =>
    obtain ⟨hl, hnew, rfl⟩ := Server.accept_cases hst
    have hpending : s.pool.pending = none := by rw [Server.pool, hl]; rfl
    exact if_pos ⟨hpending, hnew⟩
  | createConsumer ok =>
    obtain ⟨newFd, hl, ⟨-, rfl⟩ | ⟨-, rfl⟩⟩ := Server.createConsumer_cases hst
    · simp only [Server.poolOp, Server.pool, hl]
      rfl
    · simp only [Server.poolOp, Server.pool, hl]
      rfl
  | malloc =>
    obtain ⟨newFd, hl, rfl⟩ := Server.malloc_cases hst
    have hpending : (s.heap ++ [newFd])[s.heap.length]? = some newFd := List.getElem?_concat_length
    have hholder : (fun c => (s.handlers c).fd (s.heap ++ [newFd])) =
        fun c => (s.handlers c).fd s.heap :=
      funext fun c => Handler.fd_append newFd (hs.cells c)
    simp only [Server.poolOp, Server.pool, Listener.fd, hl, hpending, hholder, Option.elim_none]
  | createHandler ok =>
    obtain ⟨paraFd, hl, hcases⟩ := Server.createHandler_cases hst
    have hlt := hs.cell paraFd hl
    have hpending : s.pool.pending = s.heap[paraFd]? := by rw [Server.pool, hl]; rfl
    have hne : s.pool.pending ≠ none := by
      rw [hpending, List.getElem?_eq_getElem hlt]
      exact nofun
    rcases hcases with ⟨rfl, rfl⟩ | ⟨rfl, rfl⟩
    · exact if_pos hne
    · have hfree : s.pool.holder s.conns = none := by
        show (s.handlers s.conns).fd s.heap = none
        rw [hh.absent s.conns le_rfl]
        rfl
      refine (if_pos ⟨hne, hfree⟩).trans (congrArg some ?_)
      rw [hpending]
      exact Eq.symm (Server.pool_update (c := s.conns) (h := .starting paraFd) rfl rfl)
  | start c =>
    obtain ⟨paraFd, fd, hc, hfd, rfl⟩ := Server.start_cases hst
    refine Server.pool_congr (h := .receiving fd) rfl rfl rfl rfl ?_
    rw [hc]
    exact hfd.symm
  | recv c r =>
    obtain ⟨fd, hc, rfl⟩ := Server.recv_cases hst
    refine Server.pool_congr rfl rfl rfl rfl ?_
    rw [hc]
    exact if_neg (handleHttpRequest_ne_vTaskDelete indexHtml r)
  | act c => exact Server.pool_act hs hst
  | xQueueReceive | decode | drive =>
    obtain ⟨hlistener, -, hopen, hheap, hhandlers⟩ := Server.step_connections id hst
    show t.pool = s.pool
    rw [Server.pool, hopen, hlistener, hheap, hhandlers, Server.pool]

/-- The descriptors of a run are those of a run of the pool. -/
theorem Server.exec_pool {ls : List Label} (h : exec (Server.step indexHtml) .init ls = some s) :
    exec Pool.step .init (outputs (Server.step indexHtml) Server.poolOp .init ls) =
      some s.pool := by
  refine exec_simulate Server.pool Server.poolOp (fun s l t hs hst => ?_) h
  exact Server.pool_step (Server.Reachable.fdsOk hs) (Server.Reachable.handlersOk hs) hst

/-- The pool drops a descriptor when its handler could not be created. -/
theorem Server.poolOp_eq_drop_iff : s.poolOp l = some .drop ↔ l = .createHandler false := by
  cases l with
  | createHandler ok => cases ok <;> simp [Server.poolOp]
  | act c =>
    refine iff_of_false ?_ nofun
    simp only [Server.poolOp]
    split <;> exact nofun
  | accept | createConsumer | malloc | start | recv | xQueueReceive | decode | drive =>
    exact iff_of_false nofun nofun

/-! ## Lost handlers -/

/-- A handler that is not running is not lost. -/
theorem Handler.not_lost (hne : ∀ fd todo, h ≠ .running fd todo) : ¬ h.Lost :=
  fun ⟨fd, _, hrun⟩ => hne fd _ hrun

/-- Moving a handler that is not lost. -/
theorem Server.exists_lost_update (hc : ¬ (s.handlers c).Lost)
    (ht : t.handlers = Function.update s.handlers c h) :
    (∃ c', (t.handlers c').Lost) ↔ (∃ c', (s.handlers c').Lost) ∨ h.Lost := by
  rw [ht]
  refine ⟨?_, ?_⟩
  · rintro ⟨c', hlost⟩
    rcases eq_or_ne c' c with rfl | hne
    · rw [Function.update_self] at hlost
      exact .inr hlost
    · rw [Function.update_of_ne hne] at hlost
      exact .inl ⟨c', hlost⟩
  · rintro (⟨c', hlost⟩ | hlost)
    · have hne : c' ≠ c := fun heq => hc (heq ▸ hlost)
      exact ⟨c', by rwa [Function.update_of_ne hne]⟩
    · exact ⟨c, by rwa [Function.update_self]⟩

/-- Moving a handler to a place where it is not lost either. -/
theorem Server.exists_lost_congr (hc : ¬ (s.handlers c).Lost) (hh : ¬ h.Lost)
    (ht : t.handlers = Function.update s.handlers c h) :
    (∃ c', (t.handlers c').Lost) ↔ ∃ c', (s.handlers c').Lost :=
  (Server.exists_lost_update hc ht).trans (or_iff_left hh)

/-- A handler is lost by the receipt of a request that does not fit, and by no other step; nothing
brings it back. -/
theorem Server.exists_lost_step (hs : s.FdsOk) (hh : s.HandlersOk)
    (hst : s.step indexHtml l = some t) :
    (∃ c, (t.handlers c).Lost) ↔
      (∃ c, (s.handlers c).Lost) ∨ ∃ c r, l = .recv c (some r) ∧ ¬ r.Fits := by
  have hquiet (hl : ∀ c r, l ≠ .recv c r)
      (h : (∃ c, (t.handlers c).Lost) ↔ ∃ c, (s.handlers c).Lost) :
      (∃ c, (t.handlers c).Lost) ↔
        (∃ c, (s.handlers c).Lost) ∨ ∃ c r, l = .recv c (some r) ∧ ¬ r.Fits :=
    h.trans (or_iff_left fun ⟨c, r, hr, _⟩ => hl c r hr).symm
  cases l with
  | accept newFd =>
    obtain ⟨-, -, rfl⟩ := Server.accept_cases hst
    exact hquiet nofun .rfl
  | createConsumer ok =>
    obtain ⟨newFd, -, ⟨-, rfl⟩ | ⟨-, rfl⟩⟩ := Server.createConsumer_cases hst
    · exact hquiet nofun .rfl
    · exact hquiet nofun .rfl
  | malloc =>
    obtain ⟨newFd, -, rfl⟩ := Server.malloc_cases hst
    exact hquiet nofun .rfl
  | createHandler ok =>
    obtain ⟨paraFd, -, ⟨-, rfl⟩ | ⟨-, rfl⟩⟩ := Server.createHandler_cases hst
    · exact hquiet nofun .rfl
    · have hnew : ¬ (Handler.starting paraFd).Lost := Handler.not_lost nofun
      refine hquiet nofun (Server.exists_lost_congr (c := s.conns) ?_ hnew rfl)
      rw [hh.absent s.conns le_rfl]
      exact Handler.not_lost nofun
  | start c =>
    obtain ⟨paraFd, fd, hc, -, rfl⟩ := Server.start_cases hst
    have hnew : ¬ (Handler.receiving fd).Lost := Handler.not_lost nofun
    refine hquiet nofun (Server.exists_lost_congr ?_ hnew rfl)
    rw [hc]
    exact Handler.not_lost nofun
  | recv c r =>
    obtain ⟨fd, hc, rfl⟩ := Server.recv_cases hst
    rw [Server.exists_lost_update (by rw [hc]; exact Handler.not_lost nofun) rfl]
    refine or_congr_right ?_
    rcases closes_handleHttpRequest indexHtml r with ⟨hfits, hcloses⟩ | ⟨⟨x, hx, hlong⟩, i, hout⟩
    · refine iff_of_false hcloses.not_lost ?_
      rintro ⟨c', x, ⟨⟩, hlong⟩
      exact hlong (hfits x rfl)
    · exact iff_of_true ⟨fd, i, congrArg _ hout⟩ ⟨c, x, congrArg _ hx, hlong⟩
  | act c =>
    obtain ⟨fd, a, todo, hc, hcases⟩ := Server.act_cases hst
    have hcloses := hs.closes_of_act hst hc
    have hold : ¬ (s.handlers c).Lost := hc ▸ hcloses.not_lost
    have hgo (hdelete : a ≠ .vTaskDelete)
        (ht : t.handlers = Function.update s.handlers c (.running fd todo)) :
        (∃ c, (t.handlers c).Lost) ↔ ∃ c, (s.handlers c).Lost :=
      Server.exists_lost_congr hold (hcloses.tail hdelete).not_lost ht
    rcases hcases with
      ⟨rfl, rfl⟩ | ⟨record, rfl, rfl⟩ | ⟨⟨data, rfl⟩ | ⟨ticks, rfl⟩, rfl⟩ | ⟨rfl, rfl⟩ | ⟨rfl, rfl⟩
    · exact hquiet nofun (hgo nofun rfl)
    · exact hquiet nofun (hgo nofun rfl)
    · exact hquiet nofun (hgo nofun rfl)
    · exact hquiet nofun (hgo nofun rfl)
    · exact hquiet nofun (hgo nofun rfl)
    · have hnew : ¬ Handler.deleted.Lost := Handler.not_lost nofun
      exact hquiet nofun (Server.exists_lost_congr hold hnew rfl)
  | xQueueReceive | decode | drive =>
    obtain ⟨-, -, -, -, hhandlers⟩ := Server.step_connections id hst
    exact hquiet nofun (by rw [hhandlers])

/-- A handler of a run is lost exactly when a request was received that does not fit its record. -/
theorem Server.exists_lost_iff {ls : List Label}
    (h : exec (Server.step indexHtml) .init ls = some s) :
    (∃ c, (s.handlers c).Lost) ↔ ∃ c r, .recv c (some r) ∈ ls ∧ ¬ r.Fits := by
  refine exec_rec_on (P := fun ls s => (∃ c, (s.handlers c).Lost) ↔
    ∃ c r, .recv c (some r) ∈ ls ∧ ¬ r.Fits) h ?_ ?_
  · exact iff_of_false (fun ⟨_, _, _, hlost⟩ => nomatch hlost) (fun ⟨_, _, hmem, _⟩ => nomatch hmem)
  · intro ls s l t hexec ih hst
    have hs : s.Reachable indexHtml := ⟨ls, hexec⟩
    simp only [Server.exists_lost_step hs.fdsOk hs.handlersOk hst, ih, List.mem_append,
      List.mem_singleton, or_and_right, exists_or, eq_comm]

/-- A handler that is not lost and has a descriptor is going to close it. -/
theorem Server.FdsOk.willClose_iff (hs : s.FdsOk) {fd : Nat}
    (hc : (s.handlers c).fd s.heap = some fd) :
    (s.handlers c).WillClose ↔ ¬ (s.handlers c).Lost := by
  cases h : s.handlers c with
  | absent | deleted =>
    rw [h] at hc
    cases hc
  | starting | receiving => exact iff_of_true trivial (Handler.not_lost nofun)
  | running fd' todo =>
    rw [h] at hc
    have hne : todo ≠ [.vTaskDelete] := by
      rintro rfl
      cases hc
    rcases hs.closes c fd' todo h with hcloses | ⟨i, rfl⟩
    · exact iff_of_true (hcloses.willClose hne) hcloses.not_lost
    · exact iff_of_false (fun hclose => hclose.2 i (.head _)) (not_not.2 ⟨fd', i, rfl⟩)

/-! ## Descriptors -/

/-- Every open descriptor is held by exactly one handler, which is going to close it, no two
handlers hold the same, and a handler that closes its descriptor finds it open, so none is closed
twice. -/
structure Server.DescriptorsOwned (s : Server) : Prop where
  nodup : s.openFds.Nodup
  held : ∀ fd ∈ s.openFds, ∃! c, (s.handlers c).fd s.heap = some fd
  willClose : ∀ c fd, (s.handlers c).fd s.heap = some fd → (s.handlers c).WillClose
  distinct : ∀ c c' fd, (s.handlers c).fd s.heap = some fd → (s.handlers c').fd s.heap = some fd →
    c = c'
  closes : ∀ c fd todo, s.handlers c = .running fd (.close :: todo) → fd ∈ s.openFds

/-- A handler that closes its descriptor, at any time, finds it open and is the only one that holds
it. -/
theorem Server.closes_own {ls : List Label} (h : exec (Server.step indexHtml) .init ls = some s)
    {fd : Nat} {todo : List Action} (hc : s.handlers c = .running fd (.close :: todo)) :
    fd ∈ s.openFds ∧ ∀ c', (s.handlers c').fd s.heap = some fd → c' = c := by
  have hinv := inv_of_exec (Server.exec_pool h)
  have hfd : (s.handlers c).fd s.heap = some fd := by
    rw [hc]
    exact Handler.fd_running nofun
  exact ⟨(hinv.held c fd hfd).1, fun c' hc' => hinv.unique c' c fd hc' hfd⟩

/-- Between two rounds, from what happened in the run. -/
theorem Server.descriptorsOwned_iff_run {ls : List Label}
    (h : exec (Server.step indexHtml) .init ls = some s) (hl : s.listener = .accepting) :
    s.DescriptorsOwned ↔
      .createHandler false ∉ ls ∧ ∀ c r, .recv c (some r) ∈ ls → r.Fits := by
  have hexec := Server.exec_pool h
  have hround : s.pool.pending = none := by rw [Server.pool, hl]; rfl
  have hdrop : .drop ∈ outputs (Server.step indexHtml) Server.poolOp .init ls ↔
      .createHandler false ∈ ls := by
    refine (mem_outputs_iff (Q := (· = .createHandler false)) (fun _ _ _ _ => ?_) h).trans ?_
    · exact Server.poolOp_eq_drop_iff
    · rw [exists_eq_right]
  have hfits : (∀ c r, .recv c (some r) ∈ ls → r.Fits) ↔ ¬ ∃ c, (s.handlers c).Lost := by
    rw [Server.exists_lost_iff h]
    push Not
    rfl
  have hs : s.FdsOk := Server.Reachable.fdsOk ⟨ls, h⟩
  rw [← hdrop, ← owned_iff hexec hround, hfits]
  refine ⟨fun howned => ⟨⟨howned.nodup, howned.held, fun c fd hc => ?_⟩, ?_⟩, ?_⟩
  · exact ((inv_of_exec hexec).held c fd hc).1
  · -- a lost handler has its descriptor and does not close it
    rintro ⟨c, fd, i, hc⟩
    have hfd : (s.handlers c).fd s.heap = some fd := by rw [hc]; exact Handler.fd_running nofun
    exact (hs.willClose_iff hfd).1 (howned.willClose c fd hfd) ⟨fd, i, hc⟩
  · rintro ⟨howned, hnone⟩
    refine ⟨howned.nodup, howned.held, fun c fd hfd => ?_, (inv_of_exec hexec).unique, ?_⟩
    · exact (hs.willClose_iff hfd).2 fun hlost => hnone ⟨c, hlost⟩
    · exact fun c fd todo hc => (Server.closes_own h hc).1

/-- **Descriptors.** Between two rounds of the accept loop every open descriptor has exactly one
owner, which is going to close it, exactly when every handler of the run could be created and every
request that was received fits its record. No descriptor is ever closed twice, or by another handler
than its own. -/
theorem descriptors_owned_iff {ls : List Label}
    (h : exec (Server.step indexHtml) .init ls = some s) :
    (s.listener = .accepting →
      (s.DescriptorsOwned ↔
        .createHandler false ∉ ls ∧ ∀ c r, .recv c (some r) ∈ ls → r.Fits)) ∧
      ∀ c fd todo, s.handlers c = .running fd (.close :: todo) →
        fd ∈ s.openFds ∧ ∀ c', (s.handlers c').fd s.heap = some fd → c' = c :=
  ⟨Server.descriptorsOwned_iff_run h, fun _ _ _ => Server.closes_own h⟩

/-! ## Cells -/

/-- The connection whose cell a step leaves behind: its handler could not be created, or ends. -/
def Server.cellLeft (s : Server) : Label → Option Nat
  | .createHandler false => some s.conns
  | .act c =>
    match s.handlers c with
    | .running _ (.vTaskDelete :: _) => some c
    | _ => none
  | _ => none

/-- The connections that left their cell behind in a run, in order. -/
def Server.cellsLeft (indexHtml : List UInt8) (ls : List Label) : List Nat :=
  outputs (Server.step indexHtml) Server.cellLeft .init ls

/-- The cell that the accept loop has allocated and not yet passed to a handler. -/
def Listener.cells : Listener → Nat
  | .creating _ => 1
  | .accepting | .accepted _ | .allocating _ => 0

/-- The connections in flight, without the bound on their numbers. -/
theorem Server.HandlersOk.mem_inFlight (hs : s.HandlersOk) :
    c ∈ s.inFlight ↔ (s.handlers c).InFlight := by
  refine Finset.mem_filter.trans (and_iff_right_of_imp fun hc => Finset.mem_range.2 ?_)
  by_contra hge
  exact hc.1 (hs.absent c (Nat.le_of_not_lt hge))

/-- Moving a handler in flight. -/
theorem Server.inFlight_update (hs : s.HandlersOk) (ht : t.HandlersOk)
    (hmoved : t.handlers = Function.update s.handlers c h) (hc : (s.handlers c).InFlight)
    (hh : h.InFlight) : t.inFlight = s.inFlight := by
  ext c'
  rw [hs.mem_inFlight, ht.mem_inFlight, hmoved]
  rcases eq_or_ne c' c with rfl | hne
  · rw [Function.update_self]
    exact iff_of_true hh hc
  · rw [Function.update_of_ne hne]

/-- A new handler is in flight. -/
theorem Server.card_inFlight_create (hs : s.HandlersOk) (ht : t.HandlersOk) {paraFd : Nat}
    (hmoved : t.handlers = Function.update s.handlers s.conns (.starting paraFd)) :
    t.inFlight.card = s.inFlight.card + 1 := by
  have hnew : s.conns ∉ s.inFlight := fun hmem =>
    Finset.notMem_range_self (Finset.mem_filter.1 hmem).1
  have hinsert : t.inFlight = insert s.conns s.inFlight := by
    ext c
    rw [ht.mem_inFlight, Finset.mem_insert, hs.mem_inFlight, hmoved]
    rcases eq_or_ne c s.conns with rfl | hne
    · rw [Function.update_self]
      exact iff_of_true ⟨nofun, nofun⟩ (.inl rfl)
    · rw [Function.update_of_ne hne, or_iff_right hne]
  rw [hinsert, Finset.card_insert_of_notMem hnew]

/-- A handler that has ended is not. -/
theorem Server.card_inFlight_delete (hs : s.HandlersOk) (ht : t.HandlersOk)
    (hmoved : t.handlers = Function.update s.handlers c .deleted)
    (hc : (s.handlers c).InFlight) : t.inFlight.card + 1 = s.inFlight.card := by
  have herase : t.inFlight = s.inFlight.erase c := by
    ext c'
    rw [ht.mem_inFlight, Finset.mem_erase, hs.mem_inFlight, hmoved]
    rcases eq_or_ne c' c with rfl | hne
    · rw [Function.update_self]
      exact iff_of_false (fun h => h.2 rfl) (fun h => h.1 rfl)
    · rw [Function.update_of_ne hne, and_iff_right hne]
  rw [herase, Finset.card_erase_add_one (hs.mem_inFlight.2 hc)]

/-- What a handler's action does to the count of cells and handlers: the deletion leaves a cell
behind. -/
theorem Server.length_heap_act (hs : s.HandlersOk) (ht : t.HandlersOk) (hst : s.act c = some t)
    {n : Nat} (hcount : s.heap.length = s.inFlight.card + n + s.listener.cells) :
    t.heap.length = t.inFlight.card + (n + (s.cellLeft (.act c)).toList.length) +
      t.listener.cells := by
  obtain ⟨fd, a, todo, hc, hcases⟩ := Server.act_cases hst
  have hflight : (s.handlers c).InFlight := by
    rw [hc]
    exact ⟨nofun, nofun⟩
  have hquiet (hdelete : a ≠ .vTaskDelete) (hheap : t.heap = s.heap)
      (hlistener : t.listener = s.listener)
      (hmoved : t.handlers = Function.update s.handlers c (.running fd todo)) :
      t.heap.length = t.inFlight.card + (n + (s.cellLeft (.act c)).toList.length) +
        t.listener.cells := by
    have hnone : s.cellLeft (.act c) = none := by
      simp only [Server.cellLeft, hc]
      cases a with
      | vTaskDelete => exact absurd rfl hdelete
      | xQueueReset | xQueueSend | myWrite | vTaskDelay | close | outOfBounds => rfl
    rw [hheap, hlistener, hnone, Server.inFlight_update hs ht hmoved hflight ⟨nofun, nofun⟩]
    exact hcount
  rcases hcases with
    ⟨rfl, rfl⟩ | ⟨record, rfl, rfl⟩ | ⟨⟨data, rfl⟩ | ⟨ticks, rfl⟩, rfl⟩ | ⟨rfl, rfl⟩ | ⟨rfl, rfl⟩
  · exact hquiet nofun rfl rfl rfl
  · exact hquiet nofun rfl rfl rfl
  · exact hquiet nofun rfl rfl rfl
  · exact hquiet nofun rfl rfl rfl
  · exact hquiet nofun rfl rfl rfl
  · have hsome : s.cellLeft (.act c) = some c := by simp only [Server.cellLeft, hc]
    have hcard := Server.card_inFlight_delete hs ht rfl hflight
    rw [hsome]
    show s.heap.length = _ + (n + 1) + s.listener.cells
    rw [hcount, ← hcard]
    omega

/-- What every step does to the count of cells and handlers. -/
theorem Server.length_heap_step (hs : s.HandlersOk) (hst : s.step indexHtml l = some t)
    {n : Nat} (hcount : s.heap.length = s.inFlight.card + n + s.listener.cells) :
    t.heap.length = t.inFlight.card + (n + (s.cellLeft l).toList.length) + t.listener.cells := by
  have ht := hs.step hst
  cases l with
  | accept newFd =>
    obtain ⟨hl, -, rfl⟩ := Server.accept_cases hst
    rw [hl] at hcount
    exact hcount
  | createConsumer ok =>
    obtain ⟨newFd, hl, ⟨-, rfl⟩ | ⟨-, rfl⟩⟩ := Server.createConsumer_cases hst
    · rw [hl] at hcount
      exact hcount
    · rw [hl] at hcount
      exact hcount
  | malloc =>
    obtain ⟨newFd, hl, rfl⟩ := Server.malloc_cases hst
    rw [hl] at hcount
    show (s.heap ++ [newFd]).length = s.inFlight.card + n + 1
    rw [List.length_append, hcount]
    rfl
  | createHandler ok =>
    obtain ⟨paraFd, hl, ⟨rfl, rfl⟩ | ⟨rfl, rfl⟩⟩ := Server.createHandler_cases hst
    · rw [hl] at hcount
      rw [Finset.ext fun c => ht.mem_inFlight.trans hs.mem_inFlight.symm]
      show s.heap.length = s.inFlight.card + (n + 1)
      exact hcount
    · rw [hl] at hcount
      rw [Server.card_inFlight_create hs ht rfl]
      show s.heap.length = s.inFlight.card + 1 + n
      rw [hcount]
      exact Nat.add_right_comm ..
  | start c =>
    obtain ⟨paraFd, fd, hc, hfd, rfl⟩ := Server.start_cases hst
    rw [Server.inFlight_update hs ht rfl (by rw [hc]; exact ⟨nofun, nofun⟩) ⟨nofun, nofun⟩]
    exact hcount
  | recv c r =>
    obtain ⟨fd, hc, rfl⟩ := Server.recv_cases hst
    rw [Server.inFlight_update hs ht rfl (by rw [hc]; exact ⟨nofun, nofun⟩) ⟨nofun, nofun⟩]
    exact hcount
  | act c => exact Server.length_heap_act hs ht hst hcount
  | xQueueReceive | decode | drive =>
    obtain ⟨hlistener, hconns, -, hheap, hhandlers⟩ := Server.step_connections id hst
    have hflight : t.inFlight = s.inFlight := by
      rw [Server.inFlight, hconns, hhandlers, Server.inFlight]
    rw [hheap, hflight, hlistener]
    exact hcount

/-- The cells of a run: one for each handler in flight, one for each connection that left its cell
behind, and the one that the accept loop is about to pass on. -/
theorem length_heap_eq {ls : List Label} (h : exec (Server.step indexHtml) .init ls = some s) :
    s.heap.length =
      s.inFlight.card + (Server.cellsLeft indexHtml ls).length + s.listener.cells := by
  refine exec_rec_on (P := fun ls s => s.heap.length =
    s.inFlight.card + (Server.cellsLeft indexHtml ls).length + s.listener.cells) h rfl ?_
  intro ls s l t hexec ih hst
  have hs : s.Reachable indexHtml := ⟨ls, hexec⟩
  rw [Server.cellsLeft, outputs_append_singleton hexec, List.length_append]
  exact Server.length_heap_step hs.handlersOk hst ih

/-- **Cells.** Between two rounds of the accept loop there are at most as many cells as handlers
exactly when every handler of the run could be created and none has ended. -/
theorem cells_bounded_iff {ls : List Label} (h : exec (Server.step indexHtml) .init ls = some s)
    (hl : s.listener = .accepting) :
    s.heap.length ≤ s.inFlight.card ↔ Server.cellsLeft indexHtml ls = [] := by
  have hlen := length_heap_eq h
  rw [hl, Listener.cells] at hlen
  rw [← List.length_eq_zero_iff]
  omega

end

/-! ## Runs -/

/-- A connection whose handler cannot be created. -/
def failedRun : List Label := [.accept 54, .createConsumer true, .malloc, .createHandler false]

/-- A connection whose handler has received a request for the page, and one whose handler has
received a request that is too long. -/
def receivedRun : List Label := connect 54 0 ++ [.recv 0 (some rootRequest)]
def longRun : List Label := connect 54 0 ++ [.recv 0 (some sessionRequest)]

/-- A connection from which nothing can be received. -/
def closedRun : List Label := connect 54 0 ++ [.recv 0 none, .act 0, .act 0]

/-- A descriptor is left open, without a handler that closes it. -/
theorem descriptor_lost : ¬ ∀ (indexHtml : List UInt8) (ls : List Label) (s : Server),
    exec (Server.step indexHtml) .init ls = some s → s.listener = .accepting →
      s.DescriptorsOwned := by
  intro hall
  have howned := hall [] failedRun (stateAfter failedRun) (exec_eq_getD (by decide +kernel)) rfl
  obtain ⟨c, hc, -⟩ := howned.held 54 (by decide +kernel)
  cases hc

/-- The handler of a request that fits is going to close its descriptor, and the handler of one that
is too long is not. -/
theorem descriptors_owned_iff_received :
    (stateAfter receivedRun).DescriptorsOwned ∧ ¬ (stateAfter longRun).DescriptorsOwned := by
  refine ⟨((descriptors_owned_iff (exec_eq_getD (by decide +kernel))).1 rfl).2 ⟨?_, ?_⟩,
    fun howned => ?_⟩
  · simp [receivedRun, connect]
  · intro c r hr
    have hr : r = rootRequest := by
      simp [receivedRun, connect] at hr
      exact hr.2
    exact hr ▸ requestText_rootRequest.fits_iff.2 (by decide)
  · obtain ⟨-, hfits⟩ :=
      ((descriptors_owned_iff (exec_eq_getD (by decide +kernel))).1 rfl).1 howned
    have hle := requestText_sessionRequest.fits_iff.1
      (hfits 0 sessionRequest (List.mem_append_right _ (.head _)))
    exact absurd hle (by decide)

/-- A connection that is served leaves its cell behind. -/
theorem cell_leaked : ¬ ∀ (indexHtml : List UInt8) (ls : List Label) (s : Server),
    exec (Server.step indexHtml) .init ls = some s → s.listener = .accepting →
      s.heap.length ≤ s.inFlight.card := by
  intro hall
  have hle := hall [] closedRun (stateAfter closedRun) (exec_eq_getD (by decide +kernel)) rfl
  revert hle
  decide +kernel

/-- While the handler runs, its cell is the only one. -/
theorem cells_bounded_iff_connect :
    (stateAfter (connect 54 0)).heap.length ≤ (stateAfter (connect 54 0)).inFlight.card ↔
      Server.cellsLeft [] (connect 54 0) = [] :=
  cells_bounded_iff (exec_eq_getD (by decide +kernel)) rfl

end InfantryRM

import InfantryRM.Server.Delivery

/-!
# Room in the queue

`handle_http_request` sends with a timeout of 0, so a full queue would lose the record, with nothing
but a line in the log. In runs with at most `n` handlers at any moment (`Server.stepWithin`), the
records in the queue and the handlers that have emptied it and not yet sent are at most `n`
together, so a queue of 30 entries has room for each of them as long as `n` is at most 30
(`zero_timeout_send_passes`).

In such runs the queue accepts every record that a handler sends. What is processed is then a
subsequence of what was sent, and once no work is waiting the latest record sent is the latest one
processed (`latest_command_wins`).
-/

namespace InfantryRM

open Run Mailbox LatestWins

/-! ## Handlers in flight -/

/-- The task of the connection exists. -/
def Handler.InFlight (h : Handler) : Prop := h ≠ .absent ∧ h ≠ .deleted

instance (h : Handler) : Decidable h.InFlight := inferInstanceAs (Decidable (_ ∧ _))

/-- The connections whose handlers are in flight. -/
def Server.inFlight (s : Server) : Finset Nat :=
  (Finset.range s.conns).filter fun c => (s.handlers c).InFlight

/-- The connections whose handlers are between their reset and their send. -/
def Server.senders (s : Server) : Finset Nat :=
  (Finset.range s.conns).filter fun c => (s.handlers c).phase = .between

/-- A step that leaves at most `n` handlers in flight. -/
def Server.stepWithin (indexHtml : List UInt8) (n : Nat) (s : Server) (l : Label) :
    Option Server :=
  (s.step indexHtml l).filter fun t => t.inFlight.card ≤ n

/-- The states of the runs in which at most `n` handlers are in flight at any moment. -/
def Server.ReachableWithin (indexHtml : List UInt8) (n : Nat) (s : Server) : Prop :=
  Run.Reachable (Server.stepWithin indexHtml n) .init s

/-- The result of `xQueueSend` with timeout 0: `pdPASS` when the queue has room. Source: `sendFlag`
(`webserver.c:175`). -/
def Server.sendFlag (s : Server) : Bool := s.box.queue.length < queueLength

/-- The record that a step hands to `xQueueSend`, with its connection. -/
def Server.sending (s : Server) : Label → Option (Nat × URLData)
  | .act c =>
    match s.handlers c with
    | .running _ (.xQueueSend record :: _) => some (c, record)
    | _ => none
  | _ => none

/-- The records that the handlers handed to `xQueueSend` in a run, in order. -/
def Server.sends (indexHtml : List UInt8) (n : Nat) (ls : List Label) : List (Nat × URLData) :=
  outputs (Server.stepWithin indexHtml n) Server.sending .init ls

/-- The records whose loop body is complete, in order. -/
def Server.processedRecords (s : Server) : List (Nat × URLData) :=
  s.processed.map fun x => (x.1, x.2.record)

section
variable {s t : Server} {indexHtml : List UInt8} {n c : Nat} {record : URLData} {l : Label}

theorem Server.stepWithin_cases (h : s.stepWithin indexHtml n l = some t) :
    s.step indexHtml l = some t ∧ t.inFlight.card ≤ n := by
  obtain ⟨hst, hn⟩ := Option.filter_eq_some_iff.1 h
  exact ⟨hst, of_decide_eq_true hn⟩

/-- Their runs are runs of the server. -/
theorem Server.ReachableWithin.reachable (hs : s.ReachableWithin indexHtml n) :
    s.Reachable indexHtml :=
  hs.simulate id fun _ l _ _ hst => .inr ⟨l, (Server.stepWithin_cases hst).1⟩

/-! ## Occupancy -/

/-- A handler between its queue operations is in flight. -/
theorem Server.Reachable.mem_inFlight (hs : s.Reachable indexHtml)
    (hc : (s.handlers c).phase = .between) : c ∈ s.inFlight := by
  have hlt : c < s.conns := by
    by_contra hge
    rw [hs.handlersOk.absent c (Nat.le_of_not_lt hge)] at hc
    cases hc
  refine Finset.mem_filter.2 ⟨Finset.mem_range.2 hlt, ?_, ?_⟩
  · intro habsent
    rw [habsent] at hc
    cases hc
  · intro hdeleted
    rw [hdeleted] at hc
    cases hc

/-- The senders are the producers between their steps. -/
theorem Server.Reachable.mem_senders (hs : s.Reachable indexHtml) :
    c ∈ s.senders ↔ s.latestWins.phase c = .between := by
  refine ⟨fun h => (Finset.mem_filter.1 h).2, fun h => Finset.mem_filter.2 ⟨?_, h⟩⟩
  exact (Finset.mem_filter.1 (hs.mem_inFlight h)).1

/-- The occupancy of the queue is bounded by the handlers in flight. -/
theorem Server.ReachableWithin.occupied (hs : s.ReachableWithin indexHtml n) :
    Occupied n s.latestWins := by
  refine hs.rec_on (P := fun s => Occupied n s.latestWins) Occupied.init ?_
  intro s l t hs ih hst
  obtain ⟨hstep, hn⟩ := Server.stepWithin_cases hst
  have ht : t.Reachable indexHtml := Server.ReachableWithin.reachable (hs.tail hst)
  have hs : s.Reachable indexHtml := Server.ReachableWithin.reachable hs
  rcases Server.latestWins_step hs.handlersOk hs.consumersOk hstep with heq | ⟨k, hk⟩
  · rw [heq]
    exact ih
  · refine ih.step hk fun senders hmem => ?_
    refine (Finset.card_le_card fun c hc => ?_).trans hn
    exact ht.mem_inFlight ((hmem c).1 hc)

/-- A handler that sends is between its queue operations. -/
theorem Server.phase_of_sending (h : s.sending l = some (c, record)) :
    l = .act c ∧ s.latestWins.phase c = .between := by
  cases l with
  | act c' =>
    simp only [Server.sending] at h
    split at h
    · next fd record' todo hc =>
      cases h
      refine ⟨rfl, ?_⟩
      show (s.handlers c).phase = .between
      rw [hc]
      rfl
    · cases h
  | accept | createConsumer | malloc | createHandler | start | recv | xQueueReceive | decode
  | drive => cases h

/-- A handler that sends finds room. -/
theorem Server.ReachableWithin.sendFlag (hs : s.ReachableWithin indexHtml n) (hn : n ≤ queueLength)
    (h : s.sending l = some (c, record)) : s.sendFlag = true :=
  decide_eq_true ((hs.occupied.room (Server.phase_of_sending h).2).trans_le hn)

/-- The send of a handler that finds room puts its record at the end of the queue. -/
theorem Server.queue_of_sending (hroom : s.sendFlag = true)
    (h : s.sending (.act c) = some (c, record)) (hst : s.step indexHtml (.act c) = some t) :
    t.box.queue = s.box.queue ++ [(c, record)] := by
  have hlt : s.box.queue.length < queueLength := of_decide_eq_true hroom
  obtain ⟨fd, a, todo, hc, hcases⟩ := Server.act_cases hst
  simp only [Server.sending, hc] at h
  rcases hcases with ⟨rfl, -⟩ | ⟨record', rfl, rfl⟩ | ⟨⟨data, rfl⟩ | ⟨ticks, rfl⟩, -⟩ | ⟨rfl, -⟩ |
    ⟨rfl, -⟩
  · cases h
  · cases h
    exact if_pos hlt
  · cases h
  · cases h
  · cases h
  · cases h

/-- **Room.** In a run with at most `n ≤ 30` handlers at any moment, the records in the queue and
the handlers between their reset and their send are at most `n` together. So every `xQueueSend`
returns `pdPASS`, and its record stands at the end of the queue after it. -/
theorem zero_timeout_send_passes (hn : n ≤ queueLength) (hs : s.ReachableWithin indexHtml n) :
    s.box.queue.length + s.senders.card ≤ n ∧
      ∀ c record, s.sending (.act c) = some (c, record) → s.sendFlag = true ∧
        ∀ t, s.step indexHtml (.act c) = some t → t.box.queue = s.box.queue ++ [(c, record)] := by
  refine ⟨hs.occupied.le fun c => hs.reachable.mem_senders, ?_⟩
  intro c record h
  have hroom := hs.sendFlag hn h
  exact ⟨hroom, fun t hst => Server.queue_of_sending hroom h hst⟩

/-- The state at the end of a run with at most `n` handlers, with an empty page. -/
def stateWithin (n : Nat) (ls : List Label) : Server :=
  (exec (Server.stepWithin [] n) .init ls).getD .init

theorem exec_stateWithin {ls : List Label}
    (h : (exec (Server.stepWithin [] n) .init ls).isSome) :
    exec (Server.stepWithin [] n) .init ls = some (stateWithin n ls) := exec_eq_getD h

/-! ## The latest command -/

/-- A step makes the queue accept the record that it sends, if there is room, and no other. -/
theorem Server.sent_step (hroom : ∀ x, s.sending l = some x → s.sendFlag = true)
    (hst : s.step indexHtml l = some t) :
    t.box.sent = s.box.sent ++ (s.sending l).toList := by
  have hkeep (hbox : t.box.sent = s.box.sent) (hnone : s.sending l = none) :
      t.box.sent = s.box.sent ++ (s.sending l).toList := by
    rw [hnone, hbox, Option.toList_none, List.append_nil]
  cases l with
  | act c =>
    obtain ⟨fd, a, todo, hc, hcases⟩ := Server.act_cases hst
    simp only [Server.sending, hc] at hroom hkeep ⊢
    rcases hcases with ⟨rfl, rfl⟩ | ⟨record, rfl, rfl⟩ | ⟨⟨data, rfl⟩ | ⟨ticks, rfl⟩, rfl⟩ |
      ⟨rfl, rfl⟩ | ⟨rfl, rfl⟩
    · exact hkeep Box.sent_reset rfl
    · have hlt : s.box.queue.length < queueLength := of_decide_eq_true (hroom _ rfl)
      exact Box.sent_send.trans (if_pos hlt)
    · exact hkeep rfl rfl
    · exact hkeep rfl rfl
    · exact hkeep rfl rfl
    · exact hkeep rfl rfl
  | xQueueReceive k =>
    obtain ⟨c, record, box, -, hbox, rfl⟩ := Server.xQueueReceive_cases hst
    exact hkeep (Box.sent_receive hbox) rfl
  | accept | createConsumer | malloc | createHandler | start | recv | decode | drive =>
    exact hkeep (congrArg Box.sent (Server.step_box id hst)) rfl

/-- In runs with few handlers the queue accepts every record that is sent. -/
theorem Server.sent_eq_sends (hn : n ≤ queueLength) {ls : List Label}
    (h : exec (Server.stepWithin indexHtml n) .init ls = some s) :
    s.box.sent = Server.sends indexHtml n ls := by
  refine exec_outputs (fun s : Server => s.box.sent) ?_ .refl h
  intro s l t hs hst
  refine Server.sent_step ?_ (Server.stepWithin_cases hst).1
  intro x hx
  exact Server.ReachableWithin.sendFlag hs hn hx

/-- **The latest command.** In a run with at most 30 handlers at any moment, what is processed is a
subsequence of what the handlers sent, in the order of the sends and without repetition. When no
work is waiting, the last record processed is the last one sent, if any was sent. -/
theorem latest_command_wins (hn : n ≤ queueLength) {ls : List Label}
    (h : exec (Server.stepWithin indexHtml n) .init ls = some s) :
    s.processedRecords.Sublist (Server.sends indexHtml n ls) ∧
      (s.processedRecords.map Prod.fst).Nodup ∧
      (s.Quiescent → Server.sends indexHtml n ls ≠ [] →
        s.processedRecords.getLast? = (Server.sends indexHtml n ls).getLast? ∧
          s.processedRecords ≠ []) := by
  have hinv := Server.Reachable.latestWins_inv (Server.ReachableWithin.reachable ⟨ls, h⟩)
  have hsent := Server.sent_eq_sends hn h
  obtain ⟨hsub, hnodup⟩ := hinv.processed_sublist
  refine ⟨hsent ▸ hsub, hnodup.sublist (hsub.map Prod.fst), ?_⟩
  intro hq hne
  have hlast : s.processedRecords.getLast? = (Server.sends indexHtml n ls).getLast? :=
    hsent ▸ hinv.latest_processed hq.latestWins
  refine ⟨hlast, ?_⟩
  intro hnil
  rw [hnil] at hlast
  exact hne (List.getLast?_eq_none_iff.1 hlast.symm)

end

/-- One handler, which has reset the queue. -/
def resettingRun : List Label := connect 54 0 ++ [.recv 0 (some releaseRequest), .act 0]

/-- It finds room. -/
theorem zero_timeout_send_passes_one :
    (stateWithin 1 resettingRun).box.queue.length + (stateWithin 1 resettingRun).senders.card ≤ 1 ∧
      (stateWithin 1 resettingRun).sendFlag = true := by
  have hs : (stateWithin 1 resettingRun).ReachableWithin [] 1 :=
    ⟨_, exec_stateWithin (by decide +kernel)⟩
  obtain ⟨hle, hpass⟩ := zero_timeout_send_passes (by decide) hs
  have hsending : (stateWithin 1 resettingRun).sending (.act 0) =
      some (0, targetRecord (StopCommand.joystickRelease).url (by decide)) := by decide +kernel
  exact ⟨hle, (hpass 0 _ hsending).1⟩

/-- Three handlers, of which the second is discarded. -/
theorem latest_command_wins_discarding :
    (stateWithin 3 discardingRun).processedRecords.getLast? =
      (Server.sends [] 3 discardingRun).getLast? := by
  have hexec : exec (Server.stepWithin [] 3) .init discardingRun =
      some (stateWithin 3 discardingRun) := exec_stateWithin (by decide +kernel)
  have hs := Server.ReachableWithin.reachable ⟨_, hexec⟩
  have hq := hs.quiescent (by decide +kernel)
  exact ((latest_command_wins (by decide) hexec).2.2 hq (by decide +kernel)).1

end InfantryRM

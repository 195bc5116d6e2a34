import InfantryRM.Robot.Chassis
import InfantryRM.Server.Tasks

/-!
# Which commands reach the robot

Records are processed in the order in which the queue accepted them (`commands_in_send_order`). That
need not be the order in which their connections were accepted, since a handler waits in `recv`
while later connections pass it.

A record that waits in the queue is lost when another handler resets the queue, and with it the last
command of its subsystem, since the record that is sent after the reset may address another one. The
last record of all is never lost (`last_command_processed`).
-/

namespace InfantryRM

open Run CString Strtol Mailbox

/-! ## Quiescence -/

/-- The handler has reset the queue and not yet sent its record. -/
def Handler.Between (h : Handler) : Prop :=
  ∃ fd record todo, h = .running fd (.xQueueSend record :: todo)

/-- No handler is between its reset and its send, the queue is empty, and the consumer waits. -/
structure Server.Quiescent (s : Server) : Prop where
  between : ∀ c, ¬ (s.handlers c).Between
  queue : s.box.queue = []
  idle : ∀ k ∈ s.consumers, k = .idle

/-- The connections whose records the queue accepted, in this order. -/
def Server.sentBy (s : Server) : List Nat := s.box.sent.map Prod.fst

/-- The connections whose records were processed, in this order. -/
def Server.processedBy (s : Server) : List Nat := s.processed.map Prod.fst

/-- The last record that the queue accepted for a subsystem, with its connection. -/
def Server.lastCommand (s : Server) (S : Subsystem) : Option (Nat × URLData) :=
  lastSome (fun x => if x.2.addresses = S then some x else none) s.box.sent

section
variable {s : Server} {indexHtml : List UInt8} {h : Handler}

/-- The handlers between their queue operations are those in that phase. -/
theorem Handler.between_iff : h.Between ↔ h.phase = .between := by
  refine ⟨fun ⟨fd, record, todo, heq⟩ => by rw [heq]; rfl, ?_⟩
  intro hphase
  cases h with
  | running fd todo =>
    rcases todo with _ | ⟨a, todo⟩
    · cases hphase
    · cases a with
      | xQueueSend record => exact ⟨fd, record, todo, rfl⟩
      | xQueueReset | myWrite | vTaskDelay | close | vTaskDelete | outOfBounds => cases hphase
  | absent | starting | receiving | deleted => cases hphase

/-- No work is waiting in the abstract server either. -/
theorem Server.Quiescent.latestWins (hq : s.Quiescent) : LatestWins.Quiescent s.latestWins where
  between c hphase := hq.between c (Handler.between_iff.2 hphase)
  queue := hq.queue
  held := by
    have hidle : s.consumers.headD .idle = .idle := by
      rcases hc : s.consumers with _ | ⟨y, rest⟩
      · rfl
      · exact hq.idle y (hc ▸ List.mem_cons_self)
    show (s.consumers.headD .idle).held = none
    rw [hidle]
    rfl

/-- Quiescence, checked on the connections that the loop has reached. -/
theorem Server.Reachable.quiescent (hs : s.Reachable indexHtml)
    (h : (∀ c < s.conns, (s.handlers c).phase ≠ .between) ∧ s.box.queue = [] ∧
      ∀ k ∈ s.consumers, k.held = none) : s.Quiescent where
  between c hbetween := by
    rcases lt_or_ge c s.conns with hlt | hge
    · exact h.1 c hlt (Handler.between_iff.1 hbetween)
    · have hphase := Handler.between_iff.1 hbetween
      rw [hs.handlersOk.absent c hge] at hphase
      cases hphase
  queue := h.2.1
  idle k hk := by
    have hnone := h.2.2 k hk
    cases k with
    | idle => rfl
    | decoding | driving => cases hnone

/-- What the abstract server has done is what was processed. -/
theorem Server.mem_latestWins_processed {x : Nat × URLData}
    (hx : x ∈ s.latestWins.processed) : ∃ j : Job, (x.1, j) ∈ s.processed ∧ j.record = x.2 := by
  obtain ⟨⟨c, j⟩, hj, rfl⟩ := List.mem_map.1 hx
  exact ⟨j, hj, rfl⟩

/-- The last record that the queue accepted is the last one processed. -/
theorem Server.Reachable.getLast_processed (hs : s.Reachable indexHtml) (hq : s.Quiescent)
    {c : Nat} {record : URLData} (hlast : s.box.sent.getLast? = some (c, record)) :
    ∃ tail, s.processed.getLast? = some (c, ⟨record, tail⟩) := by
  have hproc := hs.latestWins_inv.latest_processed hq.latestWins
  have hmap : (s.processed.map fun x => (x.1, x.2.record)).getLast? = some (c, record) :=
    hproc.trans hlast
  rw [List.getLast?_map, Option.map_eq_some_iff] at hmap
  obtain ⟨⟨c', ⟨record', tail⟩⟩, hx, heq⟩ := hmap
  cases heq
  exact ⟨tail, hx⟩

/-! ## Order -/

/-- **Send order.** Of two connections the one whose record the queue accepted first is never
processed after the other. When no work is waiting and the last record accepted is that of a
released joystick, it was processed last, and the chassis stands in the stop pattern unless a digit
followed its argument in memory. -/
theorem commands_in_send_order (hs : s.Reachable indexHtml) :
    (∀ c₁ c₂, [c₁, c₂].Sublist s.sentBy → ¬ [c₂, c₁].Sublist s.processedBy) ∧
      (s.Quiescent → ∀ c record, s.box.sent.getLast? = some (c, record) →
        (StopCommand.joystickRelease).url <+: record.myURLString.toList →
        ∃ tail, s.processed.getLast? = some (c, ⟨record, tail⟩) ∧
          ((∀ b ∈ tail.head?, isDigit b = false) →
            chassisPins s.robot.hw = ChassisPattern.stop.pins)) := by
  refine ⟨?_, ?_⟩
  · intro c₁ c₂ hsent hproc
    refine hs.latestWins_inv.not_overtaken hsent ?_
    simp only [Server.latestWins, List.map_map]
    exact hproc
  · intro hq c record hlast hurl
    obtain ⟨tail, hproc⟩ := hs.getLast_processed hq hlast
    refine ⟨tail, hproc, ?_⟩
    intro htail
    have hrelease : (Job.mk record tail).IsStop .joystickRelease := hurl
    have hselects : (Job.mk record tail).selects = some .stop :=
      (Job.selects_release hrelease).trans (if_pos htail)
    obtain ⟨earlier, hearlier⟩ := List.getLast?_eq_some_iff.1 hproc
    rw [hs.robot_eq hq.idle, Robot.run_chassisPins, hearlier, List.map_append, List.map_singleton,
      lastSome_append_singleton, hselects]
    rfl

/-- A connection, from its acceptance to `recv`. -/
def connect (newFd c : Nat) : List Label :=
  [.accept newFd, .createConsumer true, .malloc, .createHandler true, .start c]

/-- A handler receives a request, resets the queue and sends the record. -/
def submit (c : Nat) (r : Received) : List Label := [.recv c (some r), .act c, .act c]

/-- The consumer takes a record and decodes it, with nothing behind `val_Buff_02`. -/
def takeRecord : List Label := [.xQueueReceive 0, .decode 0 []]

/-- The consumer makes `n` calls. -/
def calls (n : Nat) : List Label := List.replicate n (.drive 0)

/-- The state at the end of a run, with an empty page. -/
def stateAfter (ls : List Label) : Server := (exec (Server.step []) .init ls).getD .init

theorem reachable_stateAfter {ls : List Label} (h : (exec (Server.step []) .init ls).isSome) :
    (stateAfter ls).Reachable [] := ⟨ls, exec_eq_getD h⟩

/-- The requests of the joystick above its centre, and of its release. -/
def forwardRequest : Received :=
  ⟨getRequest (ascii "/rocker?val=0500") (ascii "\r\n"), by decide, by decide⟩
def releaseRequest : Received :=
  ⟨getRequest (ascii "/rocker?val=0505") (ascii "\r\n"), by decide, by decide⟩

/-- The joystick moves on the first connection and is released on the second, whose bytes arrive
first. -/
def overtakingRun : List Label :=
  connect 54 0 ++ connect 55 1 ++ submit 1 releaseRequest ++ takeRecord ++ calls 10 ++
    submit 0 forwardRequest ++ takeRecord ++ calls 10

theorem reachable_overtaking : (stateAfter overtakingRun).Reachable [] :=
  reachable_stateAfter (by decide +kernel)

/-- The joystick moves and is released on the next connection, and a digit lies behind the argument
of the release. -/
def misreadRun : List Label :=
  connect 54 0 ++ submit 0 forwardRequest ++ takeRecord ++ calls 10 ++
    connect 55 1 ++ submit 1 releaseRequest ++ [.xQueueReceive 0, .decode 0 [48]] ++ calls 2

/-- A release can be overtaken, and one that is not can be misread; the chassis drives on. -/
theorem release_overtaken_or_misread :
    (¬ ∀ (indexHtml : List UInt8) (s : Server), s.Reachable indexHtml →
      ∀ c₁ c₂, c₁ < c₂ → ¬ [c₂, c₁].Sublist s.processedBy) ∧
    ¬ ∀ (indexHtml : List UInt8) (s : Server), s.Reachable indexHtml → s.Quiescent →
      ∀ record, s.box.sent.getLast? = some (s.conns - 1, record) →
        (StopCommand.joystickRelease).url <+: record.myURLString.toList →
        chassisPins s.robot.hw = ChassisPattern.stop.pins := by
  refine ⟨?_, ?_⟩
  · intro h
    refine h [] _ reachable_overtaking 0 1 Nat.zero_lt_one ?_
    have hproc : (stateAfter overtakingRun).processedBy = [1, 0] := by decide +kernel
    rw [hproc]
  · intro h
    have hs : (stateAfter misreadRun).Reachable [] := reachable_stateAfter (by decide +kernel)
    have hq := hs.quiescent (by decide +kernel)
    have hlast : (stateAfter misreadRun).box.sent.getLast? =
        some (1, targetRecord (StopCommand.joystickRelease).url (by decide)) := by decide +kernel
    have hstop := h [] _ hs hq _ hlast (by decide)
    revert hstop
    decide +kernel

/-- The release was sent first, so it is not processed last. -/
theorem commands_in_send_order_overtaken :
    ¬ [0, 1].Sublist (stateAfter overtakingRun).processedBy := by
  have hsent : (stateAfter overtakingRun).sentBy = [1, 0] := by decide +kernel
  exact (commands_in_send_order reachable_overtaking).1 1 0 (by rw [hsent])

/-! ## Loss -/

/-- **The last command.** When no work is waiting, the last record that the queue accepted for a
subsystem has been processed, or the reset of another handler discarded it. The last record of all
has been processed, and nothing after it. -/
theorem last_command_processed (hs : s.Reachable indexHtml) (hq : s.Quiescent) :
    (∀ S x, s.lastCommand S = some x → (∃ j : Job, (x.1, j) ∈ s.processed ∧ j.record = x.2) ∨
      ∃ c, c ≠ x.1 ∧ (x, Fate.discarded c) ∈ s.box.removed) ∧
    ∀ x, s.box.sent.getLast? = some x → ∃ tail, s.processed.getLast? = some (x.1, ⟨x.2, tail⟩) := by
  refine ⟨?_, fun x hx => hs.getLast_processed hq hx⟩
  intro S x hx
  have hsent : x ∈ s.box.sent := by
    obtain ⟨y, hy, hsel⟩ := List.exists_of_findSome?_eq_some hx
    obtain ⟨-, hyx⟩ := Option.ite_none_right_eq_some.1 hsel
    cases hyx
    exact List.mem_reverse.1 hy
  rcases hs.latestWins_inv.processed_or_discarded hq.latestWins hsent with hproc | hdisc
  · exact .inl (Server.mem_latestWins_processed hproc)
  · exact .inr hdisc

end

/-- The requests that start and stop the friction wheel. -/
def blasteRequest : Received :=
  ⟨getRequest (Button.blasterButton).query (ascii "\r\n"), by decide, by decide⟩
def fireStRequest : Received :=
  ⟨getRequest (Button.blasterButton1).query (ascii "\r\n"), by decide, by decide⟩

/-- The friction wheel is started. While the consumer is still at it, the stop is sent and waits in
the queue, and the joystick is released. -/
def discardingRun : List Label :=
  connect 54 0 ++ submit 0 blasteRequest ++ takeRecord ++ connect 55 1 ++ submit 1 fireStRequest ++
    connect 56 2 ++ submit 2 releaseRequest ++ calls 4 ++ takeRecord ++ calls 10

theorem reachable_discarding : (stateAfter discardingRun).Reachable [] :=
  reachable_stateAfter (by decide +kernel)

theorem quiescent_discarding : (stateAfter discardingRun).Quiescent :=
  reachable_discarding.quiescent (by decide +kernel)

/-- The stop of the friction wheel is discarded. -/
theorem stop_discarded : ¬ ∀ (indexHtml : List UInt8) (s : Server), s.Reachable indexHtml →
    s.Quiescent → ∀ S x, s.lastCommand S = some x →
      ∃ j : Job, (x.1, j) ∈ s.processed ∧ j.record = x.2 := by
  intro h
  have hlast : (stateAfter discardingRun).lastCommand .frictionWheel =
      some (1, targetRecord (Button.blasterButton1).query (by decide)) := by decide +kernel
  obtain ⟨j, hj, -⟩ := h [] _ reachable_discarding quiescent_discarding .frictionWheel _ hlast
  have hproc : (stateAfter discardingRun).processedBy = [0, 2] := by decide +kernel
  have hmem : 1 ∈ (stateAfter discardingRun).processedBy := List.mem_map.2 ⟨_, hj, rfl⟩
  rw [hproc] at hmem
  revert hmem
  decide

/-- The release, which was sent last, is processed last. -/
theorem last_command_processed_discarding :
    ∃ tail, (stateAfter discardingRun).processed.getLast? =
      some (2, ⟨targetRecord (StopCommand.joystickRelease).url (by decide), tail⟩) := by
  have hlast : (stateAfter discardingRun).box.sent.getLast? =
      some (2, targetRecord (StopCommand.joystickRelease).url (by decide)) := by decide +kernel
  exact (last_command_processed reachable_discarding quiescent_discarding).2 _ hlast

end InfantryRM

import InfantryRM.Server.Tasks
import InfantryRM.Web.Page

/-!
# Rejected requests

A handler rejects a request when it leaves through `requst_error` or answers with 400. A request
that leaves through `requst_error` does not touch the queue. One that is answered with 400 does: the
method is tested after the queue was reset and the record sent, so a request with another method
than GET drops what was queued and is carried out like a GET. It changes nothing only when the queue
held exactly its own record before (`rejected_unchanged_iff`).
-/

namespace InfantryRM

open Run CString Mailbox

/-! ## The queue and what is made of it -/

/-- What an action does to the contents of `URLString_queue`. -/
def Action.onQueue (queue : List URLData) : Action → List URLData
  | .xQueueReset => []
  | .xQueueSend record => push queueLength queue record
  | _ => queue

/-- The contents after the actions of a handler. -/
def queueAfter (queue : List URLData) (actions : List Action) : List URLData :=
  actions.foldl Action.onQueue queue

/-- The records of a queue handled one after the other, each with the bytes behind its argument. -/
def Robot.drain (rb : Robot) (queue : List URLData) (tails : List (List UInt8)) : Robot :=
  rb.run (List.zipWith Job.mk queue tails)

/-- The handler leaves through `requst_error`, or answers with 400. -/
def Rejects (indexHtml : List UInt8) (r : Option Received) : Prop :=
  handleHttpRequest indexHtml r = requstError ∨
    .myWrite http400 ∈ handleHttpRequest indexHtml r

/-- The record that the bytes of a request spell. -/
def Received.record (r : Received) : Option URLData :=
  match parseRequest r.buff with
  | .error _ => none
  | .ok c => (fillRecord c).toOption

section
variable {s t : Server} {indexHtml : List UInt8} {queue : List URLData} {c : Nat} {r : Received}

/-- The steps of a handler in the server change the contents of the queue so. -/
theorem Server.act_queue (h : s.act c = some t) :
    ∃ fd a todo, s.handlers c = .running fd (a :: todo) ∧
      t.box.queue.map Prod.snd = a.onQueue (s.box.queue.map Prod.snd) := by
  obtain ⟨fd, a, todo, hrunning, hcases⟩ := Server.act_cases h
  refine ⟨fd, a, todo, hrunning, ?_⟩
  rcases hcases with
    ⟨rfl, rfl⟩ | ⟨record, rfl, rfl⟩ | ⟨⟨data, rfl⟩ | ⟨ticks, rfl⟩, rfl⟩ | ⟨rfl, rfl⟩ | ⟨rfl, rfl⟩
  · rfl
  · simp only [Box.send, push, Action.onQueue, List.length_map]
    split
    · rw [List.map_append, List.map_singleton]
    · rfl
  · rfl
  · rfl
  · rfl
  · rfl

/-- Quiet actions leave the queue alone. -/
theorem queueAfter_of_quiet {actions : List Action} (h : ∀ a ∈ actions, a.Quiet) :
    queueAfter queue actions = queue := by
  refine foldl_frame id (fun a ha queue => ?_) queue
  have hquiet := h a ha
  cases a with
  | xQueueReset | xQueueSend => exact hquiet.elim
  | myWrite | vTaskDelay | close | vTaskDelete | outOfBounds => rfl

/-- A reset and a send leave the record alone in the queue, whatever was there. -/
theorem queueAfter_reset_send {record : URLData} {rest : List Action}
    (h : ∀ a ∈ rest, a.Quiet) :
    queueAfter queue (.xQueueReset :: .xQueueSend record :: rest) = [record] := by
  show queueAfter (push queueLength [] record) rest = [record]
  rw [queueAfter_of_quiet h]
  rfl

/-- The record of a request is the one that its handler sends. -/
theorem Received.record_of_send {record : URLData} {rest : List Action}
    (h : handleHttpRequest indexHtml (some r) = .xQueueReset :: .xQueueSend record :: rest) :
    r.record = some record := by
  simp only [handleHttpRequest] at h
  cases hparse : parseRequest r.buff with
  | error e => rw [hparse] at h; cases h
  | ok c =>
    cases hfill : fillRecord c with
    | error e => simp only [hparse, hfill] at h; cases h
    | ok record' =>
      simp only [hparse, hfill] at h
      cases h
      simp only [Received.record, hparse, hfill]
      rfl

/-- A rejected request without queue operations is no request text. -/
theorem not_requestText_of_quiet (hr : Rejects indexHtml (some r))
    (hquiet : ∀ a ∈ handleHttpRequest indexHtml (some r), a.Quiet) :
    ¬ ∃ s h, RequestText r.text s h := by
  rintro ⟨s, h, ht⟩
  rcases handleHttpRequest_of_text indexHtml ht with ⟨-, i, hout⟩ | ⟨-, record, -, hsend⟩
  · unfold Rejects at hr
    rw [hout] at hr
    rcases hr with hr | hr
    · cases hr
    · cases List.mem_singleton.1 hr
  · rw [hsend] at hquiet
    exact hquiet .xQueueReset (by simp)

end

/-- **Rejected requests.** A rejected request leaves the contents of the queue as they are, and the
robot as it would become without the request, exactly when `recv` failed, or the text has no space
before its first `HTTP`, or the queue held the request's own record and nothing else. -/
theorem rejected_unchanged_iff (indexHtml : List UInt8) (queue : List URLData) (rb : Robot)
    {r : Option Received} (hr : Rejects indexHtml r) :
    (queueAfter queue (handleHttpRequest indexHtml r) = queue ∧
      ∀ later tails, rb.drain (queueAfter queue (handleHttpRequest indexHtml r) ++ later) tails =
        rb.drain (queue ++ later) tails) ↔
    ∀ r' ∈ r, (∃ s h, RequestText r'.text s h) →
      ∃ record, r'.record = some record ∧ queue = [record] := by
  rcases handleHttpRequest_queue indexHtml r with ⟨record, rest, hsend, hrest⟩ | hquiet
  · cases r with
    | none => cases hsend
    | some r =>
      have hrecord := Received.record_of_send hsend
      have htext : ∃ s h, RequestText r.text s h := by
        by_contra hnot
        rw [handleHttpRequest_of_not_text hnot] at hsend
        cases hsend
      rw [hsend, queueAfter_reset_send hrest]
      refine ⟨fun ⟨hqueue, _⟩ r' hr' _ => ?_, ?_⟩
      · cases hr'
        exact ⟨record, hrecord, hqueue.symm⟩
      · intro h
        obtain ⟨record', hrecord', hqueue⟩ := h r rfl htext
        rw [hrecord] at hrecord'
        cases hrecord'
        exact ⟨hqueue.symm, fun later tails => by rw [hqueue]⟩
  · rw [queueAfter_of_quiet hquiet]
    refine iff_of_true ⟨rfl, fun _ _ => rfl⟩ ?_
    intro r' hr' htext
    cases hr'
    exact absurd htext (not_requestText_of_quiet hr hquiet)

/-- A request with the method POST. -/
def postRequest : Received :=
  ⟨ascii "POST /rocker?val=0500 HTTP/1.1\r\n\r\n", by decide, by decide⟩

/-- A POST is answered with 400 and makes the chassis drive. -/
theorem post_drives : ¬ ∀ (indexHtml : List UInt8) (queue : List URLData) (rb : Robot)
    (r : Option Received), Rejects indexHtml r →
      queueAfter queue (handleHttpRequest indexHtml r) = queue ∧
      ∀ later tails, rb.drain (queueAfter queue (handleHttpRequest indexHtml r) ++ later) tails =
        rb.drain (queue ++ later) tails := by
  intro h
  have hr : Rejects [] (some postRequest) := .inr (by decide +kernel)
  have hsame := (h [] [] boot (some postRequest) hr).2 [] [[]]
  have hpins := congrArg (fun rb : Robot => chassisPins rb.hw) hsame
  revert hpins
  decide +kernel

/-- A request without a space in its text. -/
def noiseRequest : Received := ⟨ascii "HTTP", by decide, by decide⟩

/-- It leaves a record that waits in the queue. -/
theorem rejected_unchanged_iff_noise :
    queueAfter [URLData.zero] (handleHttpRequest [] (some noiseRequest)) = [URLData.zero] := by
  have hr : Rejects [] (some noiseRequest) := .inl (by decide +kernel)
  have hspace : findSub spaceMark noiseRequest.text = none := by decide
  refine ((rejected_unchanged_iff [] [URLData.zero] boot hr).2 fun r' hr' ⟨s, h, ht⟩ => ?_).1
  cases hr'
  exact nomatch hspace.symm.trans ht.space

end InfantryRM

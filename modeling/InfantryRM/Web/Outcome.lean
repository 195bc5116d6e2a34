import InfantryRM.Web.Write

/-!
# The outcomes of a request

Either a handler does nothing but close its connection, or it does everything: it empties the queue,
sends one record, answers once, and closes the connection. What `recv` returned decides which
(`Unparsed`), before the handler has done anything (`handler_all_or_nothing`).

The record holds what stands between the first space and the first `HTTP`. In a well-formed request
(`requestBytes`) this is the target and the space behind it exactly when neither the method nor the
target has an `HTTP` of its own (`target_recorded_iff`).
-/

namespace InfantryRM

open CString

/-! ## All or nothing -/

/-- What `recv` returned is no request: it failed, or the text before the first NUL has no `HTTP`,
or no space before its first `HTTP`. -/
def Unparsed : Option Received → Prop
  | none => True
  | some r => ¬ httpMark <:+: r.text ∨
      ∃ h, findSub httpMark r.text = some h ∧ (32 : UInt8) ∉ r.text.take h

/-- The status code of a response. -/
def statusCode (response : List UInt8) : List UInt8 := (response.drop 9).take 3

section
variable {r : Received} {s h : Nat} {indexHtml : List UInt8}

/-- A text has its first space before its first `HTTP`, or the request is unparsed. -/
theorem unparsed_iff : Unparsed (some r) ↔ ¬ ∃ s h, RequestText r.text s h := by
  have hspace {h : Nat} : (32 : UInt8) ∈ r.text.take h ↔
      ∃ s, findSub spaceMark r.text = some s ∧ s < h := by
    have hsome : spaceMark <:+: r.text.take h ↔ (32 : UInt8) ∈ r.text.take h :=
      List.singleton_infix_iff ..
    rw [← hsome, ← findSub_isSome_iff, Option.isSome_iff_exists]
    exact exists_congr fun s => findSub_singleton_take
  refine ⟨?_, fun hno => ?_⟩
  · rintro hun ⟨s, h, ht⟩
    rcases hun with hnone | ⟨h', hh', hnot⟩
    · exact hnone (findSub_isSome_iff.1 (Option.isSome_iff_exists.2 ⟨h, ht.http⟩))
    · cases hh'.symm.trans ht.http
      exact hnot (hspace.2 ⟨s, ht.space, ht.lt⟩)
  · by_contra hun
    obtain ⟨hhttp, hnot⟩ := not_or.1 hun
    obtain ⟨h, hh⟩ := Option.isSome_iff_exists.1 (findSub_isSome_iff.2 (not_not.1 hhttp))
    obtain ⟨s, hs, hlt⟩ := hspace.1 (not_not.1 fun hmem => hnot ⟨h, hh, hmem⟩)
    exact hno ⟨s, h, hh, hs, hlt⟩

/-- The status code of the response to a method. -/
theorem statusCode_completeResponse {method : List UInt8} :
    statusCode (completeResponse indexHtml method) = ascii "200" ↔ method = ascii "GET" := by
  unfold completeResponse
  split
  · next hget => exact iff_of_true (by simp [statusCode, http200, ascii]) hget
  · next hget => exact iff_of_false (by decide) hget

end

/-- **All or nothing.** What is no request leaves the queue alone, sends nothing, and closes the
connection once. Every other request whose URL fits its record empties the queue, sends one record,
writes one response, and closes the connection once, in this order; the status is 200 exactly when
the text before the first space is `GET`. -/
theorem handler_all_or_nothing (indexHtml : List UInt8) (recv : Option Received) :
    (Unparsed recv →
      handleHttpRequest indexHtml recv = [.close, .vTaskDelete]) ∧
    (¬ Unparsed recv → ∃ r s h, recv = some r ∧ RequestText r.text s h ∧
      (h ≤ s + 1 + urlSize → ∃ (record : URLData) (writes : List (List UInt8)),
        handleHttpRequest indexHtml recv =
          .xQueueReset :: .xQueueSend record :: writes.map .myWrite ++
            [.vTaskDelay 30, .close, .vTaskDelete] ∧
        writes.flatten = completeResponse indexHtml (r.text.take s) ∧
        (statusCode writes.flatten = ascii "200" ↔ r.text.take s = ascii "GET"))) := by
  refine ⟨fun hun => ?_, fun hparsed => ?_⟩
  · cases recv with
    | none => rfl
    | some r => exact handleHttpRequest_of_not_text (unparsed_iff.1 hun)
  · cases recv with
    | none => exact absurd trivial hparsed
    | some r =>
      obtain ⟨s, h, ht⟩ := not_not.1 (mt unparsed_iff.2 hparsed)
      refine ⟨r, s, h, rfl, ht, fun hle => ?_⟩
      obtain ⟨record, hrec, -, -⟩ := fillRecord_of_text ht hle
      have hwrites : ∃ writes : List (List UInt8),
          (if r.text.take s = ascii "GET" then
            [Action.myWrite (http200 indexHtml.length), .myWrite indexHtml]
          else [.myWrite http400]) = writes.map .myWrite ∧
          writes.flatten = completeResponse indexHtml (r.text.take s) := by
        unfold completeResponse
        split
        · exact ⟨[http200 indexHtml.length, indexHtml], rfl, by simp⟩
        · exact ⟨[http400], rfl, by simp⟩
      obtain ⟨writes, hmap, hflat⟩ := hwrites
      refine ⟨record, writes, ?_, hflat, ?_⟩
      · rw [handleHttpRequest_of_short ht hrec, hmap]
        rfl
      · rw [hflat]
        exact statusCode_completeResponse

/-! ## What is recorded -/

/-- The bytes of a well-formed request. -/
def requestBytes (method target version headers : List UInt8) : List UInt8 :=
  method ++ ascii " " ++ target ++ ascii " HTTP/" ++ version ++ ascii "\r\n" ++ headers

section
variable {r : Received} {s h : Nat} {indexHtml method target version headers rest : List UInt8}

/-- A record that the handler sends holds the URI of the request. -/
theorem myURLString_of_send {record : URLData}
    (hsend : .xQueueSend record ∈ handleHttpRequest indexHtml (some r)) :
    ∃ s h, RequestText r.text s h ∧ h ≤ s + 1 + urlSize ∧ record.myURLString.toList =
      (r.text.take h).drop (s + 1) ++ List.replicate (urlSize - (h - (s + 1))) 0 := by
  by_cases hr : ∃ s h, RequestText r.text s h
  · obtain ⟨s, h, ht⟩ := hr
    rcases handleHttpRequest_of_text indexHtml ht with
      ⟨-, i, hout⟩ | ⟨hle, record', hstring, hactions⟩
    · simp [hout] at hsend
    · rw [hactions] at hsend
      have heq : record = record' := by
        split at hsend <;> simpa [requstError] using hsend
      exact ⟨s, h, ht, hle, heq ▸ hstring⟩
  · rw [handleHttpRequest_of_not_text hr] at hsend
    simp [requstError] at hsend

/-- The text of a well-formed request: the third mark is the first one outside the method and the
target. -/
theorem text_of_requestBytes (hr : r.bytes = requestBytes method target version headers)
    (hnul : (0 : UInt8) ∉ r.bytes) :
    ∃ rest, r.text = (method ++ 32 :: target) ++ 32 :: (httpMark ++ rest) := by
  have hmark : ascii " HTTP/" = 32 :: (httpMark ++ ascii "/") := by decide
  refine ⟨ascii "/" ++ version ++ ascii "\r\n" ++ headers, ?_⟩
  rw [Received.text, cstr_of_notMem hnul, hr, requestBytes, hmark]
  simp [ascii]

/-- The method ends at the first space. -/
theorem findSub_space_of_text
    (htext : r.text = (method ++ 32 :: target) ++ 32 :: (httpMark ++ rest))
    (hmethod : (32 : UInt8) ∉ method) : findSub spaceMark r.text = some method.length := by
  have hfound : findSub [32] (method ++ [32] ++ (target ++ 32 :: (httpMark ++ rest))) =
      some method.length := findSub_append hmethod
  rw [htext]
  simpa [spaceMark, ascii] using hfound

/-- Without an `HTTP` in the method or the target, the record holds the target and a space. -/
theorem target_recorded (indexHtml : List UInt8)
    (htext : r.text = (method ++ 32 :: target) ++ 32 :: (httpMark ++ rest))
    (hmethod : (32 : UInt8) ∉ method) (hlen : target.length ≤ 28)
    (hnot : ¬ httpMark <:+: method ++ 32 :: target) :
    ∃ record, .xQueueSend record ∈ handleHttpRequest indexHtml (some r) ∧
      record.myURLString.toList =
        target ++ 32 :: List.replicate (urlSize - (target.length + 1)) 0 := by
  have hline : (method ++ [32]).length = method.length + 1 := by simp
  have huriEnd : ((method ++ [32]) ++ (target ++ [32])).length =
      method.length + target.length + 2 := by
    simp
    omega
  have htext' : r.text = ((method ++ [32]) ++ (target ++ [32])) ++ (httpMark ++ rest) := by
    rw [htext]
    simp
  have hhttp : findSub httpMark r.text = some (method.length + target.length + 2) := by
    have hfound : findSub httpMark (method ++ 32 :: target ++ 32 :: (httpMark ++ rest)) =
        some ((method ++ 32 :: target).length + 1) :=
      findSub_append_cons (by decide) (by decide) hnot
    rw [htext, hfound, List.length_append, List.length_cons]
    rfl
  have ht : RequestText r.text method.length (method.length + target.length + 2) :=
    ⟨hhttp, findSub_space_of_text htext hmethod, by omega⟩
  obtain ⟨record, hrec, -, hstring⟩ := fillRecord_of_text ht (by unfold urlSize; omega)
  refine ⟨record, ?_, ?_⟩
  · rw [handleHttpRequest_of_short ht hrec]
    simp
  · rw [hstring, htext', List.take_left' huriEnd, List.drop_left' hline, List.append_assoc]
    have hpad : method.length + target.length + 2 - (method.length + 1) = target.length + 1 := by
      omega
    rw [hpad]
    rfl

/-- An `HTTP` in the method or the target ends the URI before the target does. -/
theorem target_not_recorded
    (htext : r.text = (method ++ 32 :: target) ++ 32 :: (httpMark ++ rest))
    (hmethod : (32 : UInt8) ∉ method) (hin : httpMark <:+: method ++ 32 :: target)
    {record : URLData} (hsend : .xQueueSend record ∈ handleHttpRequest indexHtml (some r)) :
    record.myURLString.toList ≠
      target ++ 32 :: List.replicate (urlSize - (target.length + 1)) 0 := by
  intro hstring
  obtain ⟨s, h, ht, hle, huri⟩ := myURLString_of_send hsend
  have hend : h + 4 ≤ (method ++ 32 :: target).length := by
    obtain ⟨k, hk⟩ := Option.isSome_iff_exists.1 (findSub_isSome_iff.2 hin)
    have hfound := findSub_append_left hk (32 :: (httpMark ++ rest))
    rw [← htext] at hfound
    cases ht.http.symm.trans hfound
    obtain ⟨hkle, hp, -⟩ := findSub_eq_some_iff.1 hk
    have hlen : httpMark.length ≤ _ := hp.length_le
    rw [List.length_drop, show httpMark.length = 4 by decide] at hlen
    omega
  -- the two strings of the equation, up to the padding
  have hlength : (target ++ [32]).length = ((r.text.take h).drop (s + 1)).length := by
    have hnot : (0 : UInt8) ∉ r.text := zero_notMem_cstr _
    have htarget : (0 : UInt8) ∉ target ++ [32] := by
      rw [htext] at hnot
      simp only [List.mem_append, List.mem_cons, not_or] at hnot
      simpa using hnot.1.2.2
    have huriText : (0 : UInt8) ∉ (r.text.take h).drop (s + 1) := fun hmem =>
      hnot (List.mem_of_mem_take (List.mem_of_mem_drop hmem))
    have hpadded : (target ++ [32]) ++ List.replicate (urlSize - (target.length + 1)) 0 =
        (r.text.take h).drop (s + 1) ++ List.replicate (urlSize - (h - (s + 1))) 0 := by
      rw [← huri, hstring, List.append_assoc]
      rfl
    have hcstr := congrArg cstr hpadded
    rw [cstr_append_replicate, cstr_append_replicate, cstr_of_notMem htarget,
      cstr_of_notMem huriText] at hcstr
    rw [hcstr]
  have hs : s = method.length :=
    Option.some.inj (ht.space.symm.trans (findSub_space_of_text htext hmethod))
  have hlt := ht.lt_length
  simp only [List.length_append, List.length_cons, List.length_nil, List.length_drop,
    List.length_take] at hend hlength
  omega

/-- **The recorded URL.** The record of a well-formed request with a target of at most 28 bytes
holds the target, one space and NULs exactly when neither the method nor the target contains an
`HTTP`. -/
theorem target_recorded_iff (indexHtml : List UInt8)
    (hr : r.bytes = requestBytes method target version headers) (hnul : (0 : UInt8) ∉ r.bytes)
    (hmethod : (32 : UInt8) ∉ method) (hlen : target.length ≤ 28) :
    (∃ record, .xQueueSend record ∈ handleHttpRequest indexHtml (some r) ∧
      record.myURLString.toList =
        target ++ 32 :: List.replicate (urlSize - (target.length + 1)) 0) ↔
      ¬ httpMark <:+: method ∧ ¬ httpMark <:+: target := by
  obtain ⟨rest, htext⟩ := text_of_requestBytes hr hnul
  have hin : httpMark <:+: method ++ 32 :: target ↔
      httpMark <:+: method ∨ httpMark <:+: target :=
    infix_append_cons_iff (by decide) (by decide)
  rw [← not_or, ← hin]
  refine ⟨?_, fun hnot => target_recorded indexHtml htext hmethod hlen hnot⟩
  rintro ⟨record, hsend, hstring⟩ hin
  exact target_not_recorded htext hmethod hin hsend hstring

end

/-- A request for a target that contains an `HTTP`, and one for a target that does not. -/
def proxyRequest : Received :=
  ⟨requestBytes (ascii "GET") (ascii "/HTTP") (ascii "1.1") (ascii "\r\n"), by decide, by decide⟩
def robotRequest : Received :=
  ⟨requestBytes (ascii "GET") (ascii "/robott?val=0000") (ascii "1.1") (ascii "\r\n"),
    by decide, by decide⟩

/-- The record of a target is cut at its `HTTP`. -/
theorem target_cut : ¬ ∀ (indexHtml : List UInt8) (r : Received)
    (method target version headers : List UInt8),
    r.bytes = requestBytes method target version headers → (0 : UInt8) ∉ r.bytes →
    (32 : UInt8) ∉ method → (32 : UInt8) ∉ target → target.length ≤ 28 →
    ∃ record, .xQueueSend record ∈ handleHttpRequest indexHtml (some r) ∧
      record.myURLString.toList =
        target ++ 32 :: List.replicate (urlSize - (target.length + 1)) 0 := by
  intro hall
  obtain ⟨rest, htext⟩ := text_of_requestBytes (r := proxyRequest) rfl (by decide)
  obtain ⟨record, hsend, hstring⟩ := hall [] proxyRequest (ascii "GET") (ascii "/HTTP")
    (ascii "1.1") (ascii "\r\n") rfl (by decide) (by decide) (by decide) (by decide)
  exact target_not_recorded htext (by decide) (by decide) hsend hstring

/-- The record of the robot's button. -/
theorem target_recorded_iff_robot :
    (∃ record, .xQueueSend record ∈ handleHttpRequest [] (some robotRequest) ∧
      record.myURLString.toList = ascii "/robott?val=0000" ++
        32 :: List.replicate (urlSize - ((ascii "/robott?val=0000").length + 1)) 0) ↔
      ¬ httpMark <:+: ascii "GET" ∧ ¬ httpMark <:+: ascii "/robott?val=0000" := by
  have hr : robotRequest.bytes = requestBytes (ascii "GET") (ascii "/robott?val=0000")
      (ascii "1.1") (ascii "\r\n") := rfl
  exact target_recorded_iff [] hr (by decide) (by decide) (by decide)

end InfantryRM

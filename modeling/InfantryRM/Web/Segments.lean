import InfantryRM.Web.Outcome

/-!
# Requests in several segments

A connection delivers its bytes in chunks, one for each call of `recv`, and the handler calls `recv`
once: it sees the first chunk only, and does not look whether the request is complete, whereas
`my_write` calls `send` again until its buffer is empty. A request that is cut in front of the end
of its first `HTTP` is taken for a malformed one. A cut behind it changes nothing, since the handler
reads nothing that stands there (`segments_iff`).
-/

namespace InfantryRM

open CString

/-- What a call of `recv` returns on a connection that delivers these chunks. -/
def recv (chunks : List Received) : Option Received := chunks.head?

/-- The handler of a connection. It calls `recv` once. Source: `handle_http_request`
(`webserver.c:110`). -/
def handleConnection (indexHtml : List UInt8) (chunks : List Received) : List Action :=
  handleHttpRequest indexHtml (recv chunks)

/-- The chunks deliver the bytes of the request. -/
def Cuts (chunks : List Received) (r : Received) : Prop :=
  (chunks.map Received.bytes).flatten = r.bytes

/-- The record that an action enqueues. -/
def Action.record? : Action → Option URLData
  | .xQueueSend record => some record
  | _ => none

/-- The bytes that an action sends to the client. -/
def Action.sent : Action → List UInt8
  | .myWrite data => data
  | _ => []

/-- The records that a handler enqueues, and the bytes of its response. -/
def outcome (actions : List Action) : List URLData × List UInt8 :=
  (actions.filterMap Action.record?, actions.flatMap Action.sent)

section
variable {r c : Received} {s h n : Nat} {indexHtml : List UInt8}

/-- What stands behind the first `HTTP` does not decide where the marks are. -/
theorem requestText_take_iff {text : List UInt8} :
    RequestText (text.take n) s h ↔ RequestText text s h ∧ h + httpMark.length ≤ n := by
  have hspace : findSub spaceMark (text.take n) = some s ↔
      findSub spaceMark text = some s ∧ s < n := findSub_singleton_take
  refine ⟨fun ht => ?_, fun ⟨ht, hle⟩ => ?_⟩
  · obtain ⟨hhttp, hle⟩ := findSub_take_iff.1 ht.http
    exact ⟨⟨hhttp, (hspace.1 ht.space).1, ht.lt⟩, hle⟩
  · have hlt := ht.lt
    exact ⟨findSub_take_iff.2 ⟨ht.http, hle⟩, hspace.2 ⟨ht.space, by omega⟩, hlt⟩

/-- Two cut buffers that agree up to the end of the URI fill the same record. -/
theorem fillRecord_congr {c c' : Cut} (huri : c.uri = c'.uri) (hlen : c.uriLength = c'.uriLength)
    (htake : c.buff.take n = c'.buff.take n) (hfour : 4 ≤ n) (hle : c.uri + c.uriLength ≤ n) :
    fillRecord c = fillRecord c' := by
  have htype : ∀ i ∈ typeIndices, i < n := fun i hi =>
    (List.mem_range.1 hi).trans_le hfour
  have hindices : ∀ j ∈ c.uriIndices, j < n - c.uri := fun j hj => by
    have := List.mem_range.1 hj
    omega
  have hdrop : (c.buff.drop c.uri).take (n - c.uri) = (c'.buff.drop c'.uri).take (n - c.uri) := by
    rw [← List.drop_take, htake, ← huri, List.drop_take]
  have hsame : c'.uriIndices = c.uriIndices := by rw [Cut.uriIndices, Cut.uriIndices, hlen]
  unfold fillRecord
  rw [copyAt_congr htake htype, hsame, copyAt_congr hdrop hindices]

/-- The text of a chunk is a part of the text of the request. -/
theorem text_of_chunk (hpre : c.bytes <+: r.bytes) : c.text = r.text.take c.bytes.length := by
  rw [Received.text, Received.text, ← cstr_take, ← List.prefix_iff_eq_take.1 hpre]

/-- The handler does the same with a chunk that reaches through the first `HTTP` as with the whole
request. -/
theorem handleHttpRequest_congr (ht : RequestText r.text s h) (hpre : c.bytes <+: r.bytes)
    (hle : h + httpMark.length ≤ c.bytes.length) :
    handleHttpRequest indexHtml (some c) = handleHttpRequest indexHtml (some r) := by
  have htext := text_of_chunk hpre
  have ht' : RequestText c.text s h := htext ▸ requestText_take_iff.2 ⟨ht, hle⟩
  have hmark : httpMark.length = 4 := by decide
  have hlt := ht.lt
  have hmethod : cstr ((c.buff.set h 0).set s 0) = cstr ((r.buff.set h 0).set s 0) := by
    rw [cstr_cut ht', cstr_cut ht, htext, List.take_take, min_eq_left (by omega)]
  have hfill : fillRecord ⟨(c.buff.set h 0).set s 0, s + 1⟩ =
      fillRecord ⟨(r.buff.set h 0).set s 0, s + 1⟩ := by
    have htake : ((c.buff.set h 0).set s 0).take c.bytes.length =
        ((r.buff.set h 0).set s 0).take c.bytes.length := by
      have hbuff : c.buff.take c.bytes.length = r.buff.take c.bytes.length := by
        rw [Received.buff, Received.buff, List.take_left,
          List.take_append_of_le_length hpre.length_le, ← List.prefix_iff_eq_take.1 hpre]
      rw [List.take_set, List.take_set, hbuff, List.take_set, List.take_set]
    have huri := uriLength_cut ht'
    refine fillRecord_congr rfl (huri.trans (uriLength_cut ht).symm) htake (by omega) ?_
    rw [huri]
    show s + 1 + (h - (s + 1)) ≤ _
    omega
  simp only [handleHttpRequest, parseRequest_of_text ht, parseRequest_of_text ht', hfill, respond,
    strcmpEq, hmethod]
  rfl

/-- A request has effects. -/
theorem handleHttpRequest_ne (ht : RequestText r.text s h) :
    handleHttpRequest indexHtml (some r) ≠ requstError := by
  rcases handleHttpRequest_of_text indexHtml ht with ⟨-, i, hout⟩ | ⟨-, record, -, hsend⟩
  · rw [hout]
    nofun
  · rw [hsend]
    nofun

/-- A chunk that ends before the first `HTTP` does is no request. -/
theorem handleHttpRequest_of_cut (ht : RequestText r.text s h) (hpre : c.bytes <+: r.bytes)
    (hlt : c.bytes.length < h + httpMark.length) :
    handleHttpRequest indexHtml (some c) = requstError := by
  refine handleHttpRequest_of_not_text ?_
  rintro ⟨s', h', ht'⟩
  rw [text_of_chunk hpre, requestText_take_iff] at ht'
  obtain ⟨ht', hle⟩ := ht'
  obtain ⟨rfl, rfl⟩ := ht.unique ht'
  omega

/-- The record of a request with a short URI is enqueued. -/
theorem outcome_of_short (indexHtml : List UInt8) (ht : RequestText r.text s h)
    (hle : h ≤ s + 1 + urlSize) :
    ∃ record, (outcome (handleHttpRequest indexHtml (some r))).1 = [record] := by
  obtain ⟨record, hrec, -, -⟩ := fillRecord_of_text ht hle
  refine ⟨record, ?_⟩
  rw [handleHttpRequest_of_short ht hrec]
  unfold outcome
  split <;> rfl

/-- **Segmentation.** However the bytes of a request are cut, the handler of the connection does
what it does when they arrive at once exactly when the first chunk reaches through the first
`HTTP`. For a request with a short URI this decides whether the same record is enqueued and the
same response sent. -/
theorem segments_iff (indexHtml : List UInt8) (ht : RequestText r.text s h) {cs : List Received}
    (hcut : Cuts (c :: cs) r) :
    (handleConnection indexHtml (c :: cs) = handleConnection indexHtml [r] ↔
      h + httpMark.length ≤ c.bytes.length) ∧
    (h ≤ s + 1 + urlSize →
      (outcome (handleConnection indexHtml (c :: cs)) = outcome (handleConnection indexHtml [r]) ↔
        h + httpMark.length ≤ c.bytes.length)) := by
  have hpre : c.bytes <+: r.bytes := ⟨_, hcut⟩
  show (handleHttpRequest indexHtml (some c) = handleHttpRequest indexHtml (some r) ↔ _) ∧
    (_ → (outcome (handleHttpRequest indexHtml (some c)) =
      outcome (handleHttpRequest indexHtml (some r)) ↔ _))
  rcases Nat.lt_or_ge c.bytes.length (h + httpMark.length) with hlt | hle
  · rw [handleHttpRequest_of_cut ht hpre hlt]
    refine ⟨iff_of_false (handleHttpRequest_ne ht).symm (by omega), fun hshort => ?_⟩
    refine iff_of_false (fun heq => ?_) (by omega)
    obtain ⟨record, hrecord⟩ := outcome_of_short indexHtml ht hshort
    rw [← heq] at hrecord
    cases hrecord
  · rw [handleHttpRequest_congr ht hpre hle]
    exact ⟨iff_of_true rfl hle, fun _ => iff_of_true rfl hle⟩

end

/-- A request that arrives in two chunks. -/
def Received.cutAt (r : Received) (k : Nat) (hpos : 0 < k) (hlt : k < r.bytes.length) :
    List Received :=
  [⟨r.bytes.take k, by rw [List.length_take]; omega,
      (List.length_take_le' k r.bytes).trans r.le⟩,
    ⟨r.bytes.drop k, by rw [List.length_drop]; omega,
      (List.length_drop.trans_le (Nat.sub_le _ k)).trans r.le⟩]

/-- The chunks deliver the bytes of the request. -/
theorem Received.cuts_cutAt (r : Received) {k : Nat} (hpos : 0 < k) (hlt : k < r.bytes.length) :
    Cuts (r.cutAt k hpos hlt) r := by
  simp [Cuts, Received.cutAt]

/-- The marks of the robot's button. -/
theorem requestText_robotRequest : RequestText robotRequest.text 3 21 :=
  ⟨by decide +kernel, by decide, by decide⟩

/-- The command of the robot's button is lost when its target is cut. -/
theorem command_lost_in_cut : ¬ ∀ (indexHtml : List UInt8) (r : Received) (s h : Nat)
    (chunks : List Received), RequestText r.text s h → h ≤ s + 1 + urlSize → Cuts chunks r →
    outcome (handleConnection indexHtml chunks) = outcome (handleConnection indexHtml [r]) := by
  intro hall
  have hsame := hall [] robotRequest 3 21 (robotRequest.cutAt 9 (by decide) (by decide))
    requestText_robotRequest (by decide) (robotRequest.cuts_cutAt _ _)
  have hlost : handleConnection [] (robotRequest.cutAt 9 (by decide) (by decide)) = requstError :=
    handleHttpRequest_of_cut requestText_robotRequest (List.take_prefix ..) (by decide)
  obtain ⟨record, hrecord⟩ := outcome_of_short [] requestText_robotRequest (by decide)
  rw [hlost] at hsame
  cases (congrArg Prod.fst hsame).trans hrecord

/-- A cut in the headers does no harm. -/
theorem segments_iff_headers :
    (handleConnection [] (robotRequest.cutAt 30 (by decide) (by decide)) =
        handleConnection [] [robotRequest] ↔
      21 + httpMark.length ≤ (robotRequest.bytes.take 30).length) ∧
    (21 ≤ 3 + 1 + urlSize →
      (outcome (handleConnection [] (robotRequest.cutAt 30 (by decide) (by decide))) =
          outcome (handleConnection [] [robotRequest]) ↔
        21 + httpMark.length ≤ (robotRequest.bytes.take 30).length)) :=
  segments_iff [] requestText_robotRequest (robotRequest.cuts_cutAt (by decide) (by decide))

end InfantryRM

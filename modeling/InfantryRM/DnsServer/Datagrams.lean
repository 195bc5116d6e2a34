import InfantryRM.DnsServer.Replies

/-!
# Which datagrams are answered

`my_dns_server` looks at the length of a datagram and at the keywords in it, and at nothing else: it
reads no flag, no count and no type before it answers. A datagram that passes the filter is
answered, a response as well as a query (`answered_whatever_header`), and so are the server's own
replies (`own_reply_answered`). For a query with a complete name the filter looks at the labels: it
drops the query exactly when one of them contains a keyword (`dropped_iff_nameBlocked`).

The filter goes on behind the datagram when there is no NUL in the datagram behind its header. There
stand the bytes of earlier datagrams and replies. The decision and the reply depend on the datagram
alone exactly when such a NUL is there, or a keyword is already in the datagram
(`reply_independent_iff`).
-/

namespace InfantryRM

open CString Dns

/-! ## Responses -/

section
variable {payload xs ys : List UInt8}

/-- The answer has no lower-case letter. -/
theorem answerBytes_not_letters : ∀ b ∈ answerBytes, ¬ (97 ≤ b ∧ b ≤ 122) := by
  simp [answerBytes]

/-- A keyword does not reach into bytes of the answer. -/
theorem Blocked.of_append (h : Blocked (xs ++ ys)) (hys : ys ⊆ answerBytes) : Blocked xs := by
  obtain ⟨keyword, hmem, hoccurs⟩ := h
  obtain ⟨hne, hletters⟩ := keyword_letters keyword hmem
  have hnot {b : UInt8} (hb : b ∈ ys) : b ∉ keyword := fun hmem =>
    answerBytes_not_letters b (hys hb) (hletters b hmem)
  refine ⟨keyword, hmem, ?_⟩
  cases ys with
  | nil => rwa [List.append_nil] at hoccurs
  | cons b ys =>
    refine ((infix_append_cons_iff hne (hnot List.mem_cons_self)).1 hoccurs).resolve_right ?_
    intro hoccurs
    obtain ⟨c, hc⟩ := List.exists_mem_of_ne_nil keyword hne
    exact hnot (List.mem_cons_of_mem b (hoccurs.subset hc)) hc

/-- A reply holds the bytes behind the header, and the answer. -/
theorem drop_replyBytes_header (payload : List UInt8) :
    (replyBytes payload).drop 0xc =
      payload.drop 0xc ++ answerBytes.drop (0xc - payload.length) := by
  have hlen : (patchHeader payload).length = payload.length := by simp [patchHeader]
  rw [replyBytes, List.drop_append, hlen, drop_patchHeader (show headerLength ≤ 0xc from le_rfl)]

/-- The reply to a datagram that passes the filter passes it, whatever stands behind the reply. -/
theorem replyBytes_passes (hlen : 2 ≤ payload.length) (hnot : ¬ Blocked (cstr (payload.drop 0xc))) :
    (0 : UInt8) ∈ (replyBytes payload).drop 0xc ∧
      ¬ Blocked (cstr ((replyBytes payload).drop 0xc)) := by
  rw [drop_replyBytes_header]
  have hzero : ∀ k ≤ 10, (0 : UInt8) ∈ answerBytes.drop k := by decide
  refine ⟨List.mem_append_right _ (hzero _ (by omega)), ?_⟩
  intro hblocked
  by_cases hmem : (0 : UInt8) ∈ payload.drop 0xc
  · rw [cstr_append_of_mem hmem] at hblocked
    exact hnot hblocked
  · rw [cstr_append hmem] at hblocked
    have hsub : cstr (answerBytes.drop (0xc - payload.length)) ⊆ answerBytes := fun b hb =>
      List.mem_of_mem_drop ((List.takeWhile_prefix _).subset hb)
    rw [cstr_of_notMem hmem] at hnot
    exact hnot (hblocked.of_append hsub)

end

/-- **What is answered.** Only the filter and the length decide: what is answered has no keyword
behind its header, and every datagram of at most 100 bytes that has a NUL behind its header, and no
keyword before it, is answered, whatever its header and its questions. So a reply that the server
gets back is answered again. -/
theorem answered_whatever_header (data : Data) (history : List Reception) (beyond : List UInt8)
    (client : SockAddr) (payload : List UInt8) :
    (∀ reply, replyAfter data history ⟨some ⟨client, payload⟩, beyond⟩ = .ok (some reply) →
      (payload.length ≤ 100 → reply = ⟨client, replyBytes payload⟩) ∧
        ¬ Blocked (cstr ((received payload).drop 0xc))) ∧
    (payload.length ≤ 100 → (0 : UInt8) ∈ payload.drop 0xc →
      ¬ Blocked (cstr (payload.drop 0xc)) →
      replyAfter data history ⟨some ⟨client, payload⟩, beyond⟩ =
        .ok (some ⟨client, replyBytes payload⟩)) ∧
    (2 ≤ payload.length → payload.length + 16 ≤ 100 → ∀ reply,
      replyAfter data history ⟨some ⟨client, payload⟩, beyond⟩ = .ok (some reply) →
      ∀ data' history' beyond' client',
        replyAfter data' history' ⟨some ⟨client', reply.payload⟩, beyond'⟩ =
          .ok (some ⟨client', replyBytes reply.payload⟩)) := by
  refine ⟨?_, ?_, ?_⟩
  · intro reply hreply
    obtain ⟨rfl, hnot⟩ := not_blocked_of_answered hreply
    exact ⟨fun hlen => by rw [received_of_le hlen], hnot⟩
  · intro hlen hzero hnot
    exact answered_of_not_blocked hlen hzero hnot data history beyond client
  · intro hlong hlen reply hreply data' history' beyond' client'
    obtain ⟨rfl, hnot⟩ := not_blocked_of_answered hreply
    have hlimit : payload.length ≤ recvLimit := (Nat.le_add_right _ _).trans hlen
    rw [received_of_le hlimit] at hnot ⊢
    obtain ⟨hzero, hpasses⟩ := replyBytes_passes hlong hnot
    refine answered_of_not_blocked ?_ hzero hpasses data' history' beyond' client'
    exact (length_replyBytes payload).trans_le hlen

/-- The server answers its own reply, which is a response. -/
theorem own_reply_answered :
    ¬ ∀ data history beyond client payload reply,
      replyAfter data history ⟨some ⟨client, payload⟩, beyond⟩ = .ok (some reply) →
      ∃ m q, decode payload = some m ∧ m.header.qr = false ∧ m.questions = [q] ∧
        q.qtype = typeA ∧ q.qclass = classIN := by
  intro hall
  have hreply : replyAfter (.replicate 128 0) []
      ⟨some ⟨⟨0, 53⟩, replyBytes (exampleQuery 0 [])⟩, []⟩ =
        .ok (some ⟨⟨0, 53⟩, replyBytes (replyBytes (exampleQuery 0 []))⟩) := by decide +kernel
  have hresponse : (decode (replyBytes (exampleQuery 0 []))).map (·.header.qr) = some true := by
    decide +kernel
  obtain ⟨m, q, hm, hqr, -⟩ := hall _ _ _ _ _ _ hreply
  rw [hm, Option.map_some, hqr] at hresponse
  cases hresponse

/-! ## Names -/

/-- **The filter on names.** A datagram whose question has a complete name, without pointers and
with labels of 1 to 63 bytes that are no NULs, is dropped exactly when one of the labels contains a
keyword, whatever stands behind the name and whatever was received before. -/
theorem dropped_iff_nameBlocked {header rest : List UInt8} {name : List Label}
    (hheader : header.length = 12) (hlen : (header ++ encodeName name ++ rest).length ≤ 100)
    (hlabels : ∀ l ∈ name, (1 ≤ l.length ∧ l.length ≤ 63) ∧ (0 : UInt8) ∉ l)
    (data : Data) (history : List Reception) (beyond : List UInt8) (client : SockAddr) :
    replyAfter data history ⟨some ⟨client, header ++ encodeName name ++ rest⟩, beyond⟩ = .ok none ↔
      NameBlocked name := by
  have hends : (0 : UInt8) ∈ encodeName name := by simp [encodeName]
  have hdrop : (header ++ encodeName name ++ rest).drop 0xc = encodeName name ++ rest := by
    rw [List.append_assoc, List.drop_left' hheader]
  have hcstr : cstr ((header ++ encodeName name ++ rest).drop 0xc) = cstr (encodeName name) := by
    rw [hdrop, cstr_append_of_mem hends]
  have hname : Blocked (cstr (encodeName name)) ↔ NameBlocked name := by
    refine blocked_cstr_encodeName_iff (fun l hl => ?_) fun l hl => (hlabels l hl).2
    obtain ⟨⟨hpos, hle⟩, -⟩ := hlabels l hl
    exact ⟨List.ne_nil_of_length_pos hpos, Nat.lt_succ_of_le hle⟩
  rw [← hname, ← hcstr]
  by_cases hblocked : Blocked (cstr ((header ++ encodeName name ++ rest).drop 0xc))
  · exact iff_of_true (dropped_of_blocked hlen hblocked data history beyond client) hblocked
  · refine iff_of_false ?_ hblocked
    have hzero : (0 : UInt8) ∈ (header ++ encodeName name ++ rest).drop 0xc := by
      rw [hdrop]
      exact List.mem_append_left rest hends
    rw [answered_of_not_blocked hlen hzero hblocked]
    intro h
    cases h

/-- A query for `qq.com`. -/
theorem dropped_iff_nameBlocked_qq :
    replyAfter (.replicate 128 113) [] ⟨some ⟨⟨0, 53⟩, [0x12, 0x34, 0x01, 0x00, 0, 1, 0, 0, 0, 0,
        0, 0] ++ encodeName [ascii "qq", ascii "com"] ++ [0, 1, 0, 1]⟩, []⟩ = .ok none ↔
      NameBlocked [ascii "qq", ascii "com"] :=
  dropped_iff_nameBlocked rfl (by decide) (by decide) _ _ _ _

/-! ## Leftovers of earlier datagrams -/

section
variable {payload : List UInt8}

/-- What is sent first. -/
theorem replyAfter_nil (data : Data) (beyond payload : List UInt8) (client : SockAddr) :
    replyAfter data [] ⟨some ⟨client, payload⟩, beyond⟩ =
      .ok (if Blocked (searchedText data beyond payload) then none
        else some ⟨client, replyBytes (received payload)⟩) := by
  obtain ⟨data', h, -⟩ := myDnsServer_eq data ⟨client, payload⟩ beyond
  simp only [replyAfter, afterReceptions, h, bind, Except.bind, pure, Except.pure]

/-- The searched text when the array holds one byte throughout. -/
theorem searchedText_replicate (hlen : payload.length ≤ recvLimit) (b : UInt8) :
    ∃ n, searchedText (.replicate 128 b) [] payload =
      cstr (payload.drop 0xc ++ List.replicate (2 + n) b) := by
  unfold recvLimit at hlen
  obtain ⟨n, hn⟩ : ∃ n, 128 - payload.length - (0xc - payload.length) = 2 + n :=
    Nat.exists_eq_add_of_le (by omega)
  refine ⟨n, ?_⟩
  rw [searchedText, received_of_le hlen, List.append_nil, List.drop_append,
    List.Vector.replicate, List.Vector.toList_mk, List.drop_replicate, List.drop_replicate, hn]

end

/-- **Independence of the history.** For a datagram of at most 100 bytes, whether it is answered and
with what does not depend on the array and the earlier datagrams exactly when a NUL stands in it
behind the header, or a keyword before one. -/
theorem reply_independent_iff {d : Datagram} (hlen : d.payload.length ≤ 100) :
    (∀ data data' history history' beyond beyond',
      replyAfter data history ⟨some d, beyond⟩ = replyAfter data' history' ⟨some d, beyond'⟩) ↔
    (0 : UInt8) ∈ d.payload.drop 0xc ∨ Blocked (cstr (d.payload.drop 0xc)) := by
  constructor
  · intro hsame
    by_contra hcon
    obtain ⟨hzero, hnot⟩ := not_or.1 hcon
    obtain ⟨client, payload⟩ := d
    have hreplies := hsame (.replicate 128 0) (.replicate 128 113) [] [] [] []
    rw [replyAfter_nil, replyAfter_nil] at hreplies
    -- an array of zeros adds nothing to the text, an array of `q` adds a keyword
    obtain ⟨n, hclean⟩ := searchedText_replicate hlen 0
    rw [cstr_append_replicate] at hclean
    obtain ⟨n', hstale⟩ := searchedText_replicate hlen 113
    have hblocked : Blocked (searchedText (.replicate 128 113) [] payload) := by
      have hnone : (0 : UInt8) ∉ List.replicate (2 + n') 113 := by simp
      rw [hstale, cstr_append hzero, cstr_of_notMem hnone, List.replicate_add]
      refine ⟨ascii "qq", by decide, payload.drop 0xc, List.replicate n' 113, ?_⟩
      rw [List.append_assoc]
      rfl
    rw [if_pos hblocked, hclean, if_neg hnot] at hreplies
    cases hreplies
  · intro hcond data data' history history' beyond beyond'
    by_cases hblocked : Blocked (cstr (d.payload.drop 0xc))
    · rw [dropped_of_blocked hlen hblocked, dropped_of_blocked hlen hblocked]
    · have hzero := hcond.resolve_right hblocked
      rw [answered_of_not_blocked hlen hzero hblocked, answered_of_not_blocked hlen hzero hblocked]

/-- A query for the address of `qq.com`. -/
def qqQuery : List UInt8 :=
  [0x12, 0x34, 0x01, 0x00, 0, 1, 0, 0, 0, 0, 0, 0] ++
    [2, 113, 113, 3, 99, 111, 109, 0, 0, 1, 0, 1]

/-- A query, whose name ends with a NUL, behind a query for `qq.com`. -/
theorem reply_independent_iff_query :
    replyAfter (.replicate 128 0) [] ⟨some ⟨⟨0, 53⟩, exampleQuery 0 []⟩, []⟩ =
      replyAfter (.replicate 128 113) [⟨some ⟨⟨0, 53⟩, qqQuery⟩, []⟩]
        ⟨some ⟨⟨0, 53⟩, exampleQuery 0 []⟩, []⟩ := by
  have hlen : (⟨⟨0, 53⟩, exampleQuery 0 []⟩ : Datagram).payload.length ≤ 100 := by decide
  exact (reply_independent_iff hlen).2 (.inl (by decide)) _ _ _ _ _ _

/-- A datagram that ends with its header is answered, but not behind a query for `qq.com`. -/
theorem dropped_behind_query :
    ¬ ∀ d : Datagram, d.payload.length ≤ 100 →
      ∀ data data' history history' beyond beyond',
        replyAfter data history ⟨some d, beyond⟩ =
          replyAfter data' history' ⟨some d, beyond'⟩ := by
  intro hall
  have hsame := hall ⟨⟨0, 53⟩, qqQuery.take 12⟩ (by decide) (.replicate 128 0) (.replicate 128 0) []
    [⟨some ⟨⟨0, 53⟩, qqQuery⟩, []⟩] [] []
  revert hsame
  decide +kernel

end InfantryRM

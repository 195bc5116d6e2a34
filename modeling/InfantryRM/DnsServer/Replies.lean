import InfantryRM.DnsServer.Model
import InfantryRM.Lib.Dns

/-!
# The replies of the DNS server

The filter searches the text behind the header. When a NUL stands in the datagram behind the
header, the text is that of the datagram (`searchedText_of_mem`), and in the name of a question a
keyword occurs exactly when it occurs in one of the labels (`blocked_encodeName_iff`).

A query for an address is a message that decodes to one (`AddressQuery`), in particular every
header and question that spell it (`addressQuery_of_bytes`). The reply extends it by one record,
whose owner is a pointer to the name of the question, and counts one answer (`decode_replyBytes`). A
query without further records is answered correctly (`address_query_answered`). Further records
stand before the appended one, so the first of them is taken for the answer (`address_reply_iff`).
-/

namespace InfantryRM

open CString Dns

/-! ## A reply after any history -/

section
variable {data : Data} {history : List Reception} {beyond payload text : List UInt8}
  {client : SockAddr}

/-- The loop never stores outside the array. -/
theorem afterReceptions_ok (data : Data) (history : List Reception) :
    ∃ data', afterReceptions data history = .ok data' := by
  induction history generalizing data with
  | nil => exact ⟨data, rfl⟩
  | cons r rs ih =>
    obtain ⟨data₁, reply, h₁⟩ : ∃ data₁ reply, myDnsServer data r = .ok (data₁, reply) := by
      obtain ⟨datagram, beyond⟩ := r
      cases datagram with
      | none => exact ⟨data, none, rfl⟩
      | some d =>
        obtain ⟨data₁, h₁, -⟩ := myDnsServer_eq data d beyond
        exact ⟨data₁, _, h₁⟩
    obtain ⟨data₂, h₂⟩ := ih data₁
    refine ⟨data₂, ?_⟩
    rw [afterReceptions, h₁]
    exact h₂

/-- What is sent after a history is what is sent when the array has the content that the history
leaves. -/
theorem replyAfter_eq (data : Data) (history : List Reception) (beyond payload : List UInt8)
    (client : SockAddr) :
    ∃ data', replyAfter data history ⟨some ⟨client, payload⟩, beyond⟩ =
      .ok (if Blocked (searchedText data' beyond payload) then none
        else some ⟨client, replyBytes (received payload)⟩) := by
  obtain ⟨data', h⟩ := afterReceptions_ok data history
  obtain ⟨data'', hd, -⟩ := myDnsServer_eq data' ⟨client, payload⟩ beyond
  refine ⟨data', ?_⟩
  simp only [replyAfter, h, hd, bind, Except.bind]
  rfl

/-! ## The searched text -/

/-- A datagram of at most 100 bytes is received as it is. -/
theorem received_of_le (h : payload.length ≤ recvLimit) : received payload = payload :=
  List.take_of_length_le h

/-- The searched text starts in the received bytes and goes on behind them. -/
theorem searchedText_eq (data : Data) (beyond payload : List UInt8) :
    ∃ rest, searchedText data beyond payload = cstr ((received payload).drop 0xc ++ rest) := by
  exact ⟨_, by rw [searchedText, List.drop_append, List.append_assoc]⟩

/-- What the received bytes hold of the searched text stands at its start. -/
theorem cstr_prefix_searchedText :
    cstr ((received payload).drop 0xc) <+: searchedText data beyond payload := by
  obtain ⟨rest, h⟩ := searchedText_eq data beyond payload
  exact h ▸ cstr_prefix_append _ _

/-- A NUL in the received bytes behind the header ends the searched text. -/
theorem searchedText_of_mem (h : (0 : UInt8) ∈ (received payload).drop 0xc) :
    searchedText data beyond payload = cstr ((received payload).drop 0xc) := by
  obtain ⟨rest, heq⟩ := searchedText_eq data beyond payload
  rw [heq, cstr_append_of_mem h]

/-- A keyword in a part of a text is a keyword in the text. -/
theorem Blocked.mono {text' : List UInt8} (h : Blocked text) (hle : text <:+: text') :
    Blocked text' := by
  obtain ⟨keyword, hmem, hoccurs⟩ := h
  exact ⟨keyword, hmem, hoccurs.trans hle⟩

/-! ## The decision -/

/-- Only the received bytes that pass the filter are answered, with the bytes of the reply. -/
theorem not_blocked_of_answered {reply : Datagram}
    (h : replyAfter data history ⟨some ⟨client, payload⟩, beyond⟩ = .ok (some reply)) :
    reply = ⟨client, replyBytes (received payload)⟩ ∧
      ¬ Blocked (cstr ((received payload).drop 0xc)) := by
  obtain ⟨data', heq⟩ := replyAfter_eq data history beyond payload client
  rw [heq] at h
  split at h
  · cases h
  · next hnot =>
    cases h
    exact ⟨rfl, fun hblocked => hnot (hblocked.mono cstr_prefix_searchedText.isInfix)⟩

/-- A datagram that ends the searched text itself is answered when it passes the filter. -/
theorem answered_of_not_blocked (hlen : payload.length ≤ recvLimit)
    (hzero : (0 : UInt8) ∈ payload.drop 0xc) (hnot : ¬ Blocked (cstr (payload.drop 0xc)))
    (data : Data) (history : List Reception) (beyond : List UInt8) (client : SockAddr) :
    replyAfter data history ⟨some ⟨client, payload⟩, beyond⟩ =
      .ok (some ⟨client, replyBytes payload⟩) := by
  obtain ⟨data', heq⟩ := replyAfter_eq data history beyond payload client
  have hreceived := received_of_le hlen
  rw [heq, searchedText_of_mem (by rwa [hreceived]), hreceived, if_neg hnot]

/-- A datagram with a keyword is dropped. -/
theorem dropped_of_blocked (hlen : payload.length ≤ recvLimit)
    (hblocked : Blocked (cstr (payload.drop 0xc))) (data : Data) (history : List Reception)
    (beyond : List UInt8) (client : SockAddr) :
    replyAfter data history ⟨some ⟨client, payload⟩, beyond⟩ = .ok none := by
  obtain ⟨data', heq⟩ := replyAfter_eq data history beyond payload client
  rw [← received_of_le hlen] at hblocked
  rw [heq, if_pos (hblocked.mono cstr_prefix_searchedText.isInfix)]

/-! ## Keywords in names -/

/-- A name with a keyword in one of its labels. -/
def NameBlocked (name : List Label) : Prop := ∃ keyword ∈ keywords, ∃ l ∈ name, keyword <:+: l

instance (name : List Label) : Decidable (NameBlocked name) :=
  inferInstanceAs (Decidable (∃ keyword ∈ keywords, ∃ l ∈ name, keyword <:+: l))

/-- A keyword is made of lower-case letters. -/
theorem keyword_letters :
    ∀ keyword ∈ keywords, keyword ≠ [] ∧ ∀ b ∈ keyword, 97 ≤ b ∧ b ≤ 122 := by
  simp [keywords, ascii]

/-- A keyword occurs in the bytes of a name exactly when it occurs in one of the labels. -/
theorem blocked_encodeName_iff {name : List Label} (h : ∀ l ∈ name, l ≠ [] ∧ l.length < 64) :
    Blocked (encodeName name) ↔ NameBlocked name := by
  refine exists_congr fun keyword => and_congr_right fun hmem => ?_
  obtain ⟨hne, hletters⟩ := keyword_letters keyword hmem
  -- the lengths between the labels are no letters
  have hlarge (b : UInt8) (hb : b ∈ keyword) : 64 ≤ b :=
    UInt8.le_trans (show (64 : UInt8) ≤ 97 by decide) (hletters b hb).1
  exact infix_encodeName_iff hne hlarge fun l hl => (h l hl).2

/-- When no label has a NUL, a search up to the first NUL sees the whole name. -/
theorem blocked_cstr_encodeName_iff {name : List Label} (h : ∀ l ∈ name, l ≠ [] ∧ l.length < 64)
    (hzero : ∀ l ∈ name, (0 : UInt8) ∉ l) :
    Blocked (cstr (encodeName name)) ↔ NameBlocked name := by
  rw [← blocked_encodeName_iff h, cstr_encodeName h hzero, encodeName]
  refine exists_congr fun keyword => and_congr_right fun hmem => ?_
  obtain ⟨hne, hletters⟩ := keyword_letters keyword hmem
  have hnot : (0 : UInt8) ∉ keyword := fun hmem => absurd (hletters 0 hmem) (by decide)
  rw [infix_append_cons_iff hne hnot, List.infix_nil, or_iff_left hne]

end

/-! ## The bytes of a reply -/

section
variable {payload : List UInt8}

/-- The answer: the name of the question, TYPE A, CLASS IN, a time to live, and 192.168.4.1. -/
def addressRecord (name : List Label) (ttl : Nat) : Record :=
  ⟨name, typeA, classIN, ttl, [192, 168, 4, 1]⟩

theorem length_replyBytes (payload : List UInt8) :
    (replyBytes payload).length = payload.length + 16 := by
  simp [replyBytes, patchHeader, answerBytes]

theorem drop_replyBytes (payload : List UInt8) :
    (replyBytes payload).drop payload.length = answerBytes := by
  rw [replyBytes, List.drop_append_of_le_length (by simp [patchHeader]),
    List.drop_eq_nil_of_le (by simp [patchHeader]), List.nil_append]

/-- The changes stay in the header. -/
theorem drop_patchHeader {k : Nat} (h : headerLength ≤ k) :
    (patchHeader payload).drop k = payload.drop k := by
  have h₂ : 2 < k := lt_of_lt_of_le (by decide) h
  have h₃ : 3 < k := lt_of_lt_of_le (by decide) h
  have h₇ : 7 < k := lt_of_lt_of_le (by decide) h
  rw [patchHeader, List.drop_set_of_lt h₇, List.drop_modify_of_lt _ _ _ _ h₃,
    List.drop_modify_of_lt _ _ _ _ h₂]

/-- A reply extends what was received. -/
theorem extended_replyBytes (payload : List UInt8) :
    Extended answerBytes payload (replyBytes payload) where
  length := length_replyBytes payload
  drop k hk hle := by
    have hlen : (patchHeader payload).length = payload.length := by simp [patchHeader]
    rw [replyBytes, List.drop_append_of_le_length (hlen.symm ▸ hle), drop_patchHeader hk]

/-- Bits that are set are there. -/
theorem or_and_self (b mask : UInt8) : (b ||| mask) &&& mask = mask := by
  have habsorb : ∀ x y : Bool, ((x || y) && y) = y := by decide
  refine UInt8.toBitVec_inj.1 (BitVec.eq_of_getElem_eq fun i hi => ?_)
  rw [UInt8.toBitVec_and, UInt8.toBitVec_or, BitVec.getElem_and, BitVec.getElem_or, habsorb]

/-- The header of the reply to a message that counts no answer: a response with one answer. -/
theorem header_replyBytes {h : Header} {rest : List UInt8}
    (hrun : header.run payload = some (h, rest)) (hcount : h.ancount = 0) :
    header.run (replyBytes payload) = some
      ({ h with flags1 := h.flags1 ||| 0x80, flags2 := h.flags2 ||| 0x80, ancount := 1 },
        (replyBytes payload).drop headerLength) := by
  obtain ⟨i₀, i₁, f₁, f₂, q₀, q₁, a₀, a₁, n₀, n₁, r₀, r₁, rfl, rfl⟩ := header_eq_some_iff.1 hrun
  have ha₀ : a₀.toNat = 0 := by
    dsimp only at hcount
    omega
  refine header_eq_some_iff.2 ⟨i₀, i₁, f₁ ||| 0x80, f₂ ||| 0x80, q₀, q₁, a₀, 1, n₀, n₁, r₀, r₁, rfl,
    ?_⟩
  rw [ha₀]
  rfl

/-- The appended bytes are the answer for the name right behind the header. -/
theorem record_answerBytes {name : List Label} {rest : List UInt8}
    (hlen : headerLength < payload.length)
    (hname : (Dns.name payload).run (payload.drop headerLength) = some (name, rest)) :
    (record (replyBytes payload)).run answerBytes = some (addressRecord name 10, []) := by
  have howner : (Dns.name (replyBytes payload)).run answerBytes = some (name, answerBytes.drop 2) :=
    name_pointer (extended_replyBytes payload) hlen hname rfl
  refine bind_eq_some_iff.2 ⟨name, _, howner, ?_⟩
  refine bind_eq_some_iff.2 ⟨typeA, _, u16_eq_some_iff.2 ⟨0x00, 0x01, rfl, rfl⟩, ?_⟩
  refine bind_eq_some_iff.2 ⟨classIN, _, u16_eq_some_iff.2 ⟨0x00, 0x01, rfl, rfl⟩, ?_⟩
  have httl : u32.run (answerBytes.drop 6) = some (10, answerBytes.drop 10) :=
    bind_eq_some_iff.2 ⟨0, _, u16_eq_some_iff.2 ⟨0x00, 0x00, rfl, rfl⟩,
      bind_eq_some_iff.2 ⟨10, _, u16_eq_some_iff.2 ⟨0x00, 0x0A, rfl, rfl⟩, rfl⟩⟩
  refine bind_eq_some_iff.2 ⟨10, _, httl, ?_⟩
  exact bind_eq_some_iff.2 ⟨4, _, u16_eq_some_iff.2 ⟨0x00, 0x04, rfl, rfl⟩, rfl⟩

end

/-! ## Queries for an address -/

/-- The bytes spell a query with one question, for the address of a name, and no answers. -/
structure AddressQuery (msg : List UInt8) (m : Message) (q : Question) : Prop where
  decode : decode msg = some m
  query : m.header.qr = false
  questions : m.questions = [q]
  qtype : q.qtype = typeA
  qclass : q.qclass = classIN
  answers : m.answers = []
  authority : m.authority = []

/-- A header that counts one question, followed by a question for the address of a name. -/
theorem addressQuery_of_bytes (i₀ i₁ f₁ f₂ : UInt8) (name : List Label)
    (hquery : (f₁ &&& 0x80 != 0) = false) (hname : ∀ l ∈ name, l ≠ [] ∧ l.length < 64)
    (hlen : (encodeName name).length ≤ 255) :
    AddressQuery
      ([i₀, i₁, f₁, f₂, 0, 1, 0, 0, 0, 0, 0, 0] ++ (encodeName name ++ [0, 1, 0, 1]))
      ⟨⟨i₀.toNat * 256 + i₁.toNat, f₁, f₂, 1, 0, 0, 0⟩, [⟨name, typeA, classIN⟩], [], [], []⟩
      ⟨name, typeA, classIN⟩ where
  decode := by
    refine decode_eq_some_iff.2 (message_eq_some_iff.2 ⟨_, [], [], [], rfl, ?_, rfl, rfl, rfl⟩)
    refine many_succ_eq_some_iff.2 ⟨_, [], [], ?_, rfl, rfl⟩
    refine bind_eq_some_iff.2 ⟨name, _, name_encodeName hname hlen, ?_⟩
    refine bind_eq_some_iff.2 ⟨typeA, _, u16_eq_some_iff.2 ⟨0, 1, rfl, rfl⟩, ?_⟩
    exact bind_eq_some_iff.2 ⟨classIN, _, u16_eq_some_iff.2 ⟨0, 1, rfl, rfl⟩, rfl⟩
  query := hquery
  questions := rfl
  qtype := rfl
  qclass := rfl
  answers := rfl
  authority := rfl

section
variable {msg : List UInt8} {m : Message} {q : Question}

/-- The name of the question stands behind the header and goes on to its empty label. -/
theorem AddressQuery.encodeName_prefix (h : AddressQuery msg m q) :
    encodeName q.name <+: msg.drop headerLength ∧ ∀ l ∈ q.name, l ≠ [] ∧ l.length < 64 := by
  obtain ⟨rest, hname⟩ := name_of_decode h.decode h.questions
  obtain ⟨heq, hall⟩ := eq_encodeName_of_name (headerLength_le_of_decode h.decode) hname
  exact ⟨⟨rest, heq.symm⟩, hall⟩

/-- **The reply to a query for an address.** It is a response with the identifier and the questions
of the query. The address is the answer unless the query has additional records: then the first of
them is, and the address is the last additional record. -/
theorem AddressQuery.decode_replyBytes (h : AddressQuery msg m q) :
    ∃ h', Dns.decode (replyBytes msg) = some ⟨h', m.questions,
        (m.additional ++ [addressRecord q.name 10]).take 1, [],
        (m.additional ++ [addressRecord q.name 10]).drop 1⟩ ∧
      h'.id = m.header.id ∧ h'.qr = true := by
  have hcounted := counted_of_decode h.decode
  have hanswers : m.header.ancount = 0 := by rw [← hcounted.answers, h.answers, List.length_nil]
  have hauthority : m.header.nscount = 0 := by
    rw [← hcounted.authority, h.authority, List.length_nil]
  obtain ⟨_, _, _, _, hheader, -⟩ := message_eq_some_iff.1 (decode_eq_some_iff.1 h.decode)
  obtain ⟨rest, hname⟩ := name_of_decode h.decode h.questions
  have hlen : headerLength < msg.length := by
    obtain ⟨⟨rest, hbody⟩, -⟩ := h.encodeName_prefix
    have hbody := congrArg List.length hbody
    rw [List.length_append, List.length_drop, encodeName, List.length_append,
      List.length_singleton] at hbody
    omega
  refine ⟨_, decode_append_record (extended_replyBytes msg) h.decode hanswers hauthority
    (header_replyBytes hheader hanswers) rfl (record_answerBytes hlen hname), rfl, ?_⟩
  rw [Header.qr, or_and_self]
  rfl

/-- The bytes behind the header, up to their first NUL, are those of the name of the question. -/
theorem AddressQuery.cstr_drop (h : AddressQuery msg m q) :
    (0 : UInt8) ∈ msg.drop 0xc ∧ cstr (msg.drop 0xc) = cstr (encodeName q.name) := by
  obtain ⟨⟨rest, hbody⟩, -⟩ := h.encodeName_prefix
  have hmem : (0 : UInt8) ∈ encodeName q.name := List.mem_append_right _ List.mem_cons_self
  rw [← show _ = msg.drop 0xc from hbody]
  exact ⟨List.mem_append_left _ hmem, cstr_append_of_mem hmem rest⟩

/-- A query for a name without a keyword is answered. -/
theorem AddressQuery.replyAfter_eq (h : AddressQuery msg m q) (hlen : msg.length ≤ recvLimit)
    (hname : ¬ NameBlocked q.name) (data : Data) (history : List Reception) (beyond : List UInt8)
    (client : SockAddr) : replyAfter data history ⟨some ⟨client, msg⟩, beyond⟩ =
      .ok (some ⟨client, replyBytes msg⟩) := by
  obtain ⟨hmem, heq⟩ := h.cstr_drop
  refine answered_of_not_blocked hlen hmem ?_ data history beyond client
  intro hblocked
  rw [heq] at hblocked
  have hwhole := hblocked.mono (List.takeWhile_prefix _).isInfix
  exact hname ((blocked_encodeName_iff h.encodeName_prefix.2).1 hwhole)

/-- **Correct replies.** A query for the address of a name, without further records and of at most
100 bytes, is answered with one datagram, whatever the array holds: 16 bytes longer, decoded without
a byte left over to a response with the same identifier and question, and with one answer, whose
owner is a pointer that leads to the name of the question. A query for a name with a keyword is not
answered. -/
theorem address_query_answered (h : AddressQuery msg m q) (hadditional : m.additional = [])
    (hlen : msg.length ≤ 100) (hzero : ∀ l ∈ q.name, (0 : UInt8) ∉ l) (data : Data)
    (history : List Reception) (beyond : List UInt8) (client : SockAddr) :
    (¬ NameBlocked q.name → ∃ bytes r,
      replyAfter data history ⟨some ⟨client, msg⟩, beyond⟩ = .ok (some ⟨client, bytes⟩) ∧
      bytes.length = msg.length + 16 ∧ decode bytes = some r ∧
      r.header.id = m.header.id ∧ r.header.qr = true ∧ r.questions = [q] ∧
      r.answers = [addressRecord q.name 10] ∧ r.authority = [] ∧ r.additional = [] ∧
      (bytes.drop msg.length).take 2 = [0xc0, 0x0c]) ∧
    (NameBlocked q.name →
      replyAfter data history ⟨some ⟨client, msg⟩, beyond⟩ = .ok none) := by
  constructor
  · intro hname
    obtain ⟨h', hdecode, hid, hqr⟩ := h.decode_replyBytes
    rw [hadditional] at hdecode
    refine ⟨replyBytes msg, _, h.replyAfter_eq hlen hname data history beyond client,
      length_replyBytes msg, hdecode, hid, hqr, h.questions, rfl, rfl, rfl, ?_⟩
    rw [drop_replyBytes]
    rfl
  · intro hname
    refine dropped_of_blocked hlen ?_ data history beyond client
    rw [h.cstr_drop.2]
    exact (blocked_cstr_encodeName_iff h.encodeName_prefix.2 hzero).2 hname

end

/-- A query for the address of `a.bc`, with the additional records that stand behind it. -/
def exampleQuery (arcount : UInt8) (additional : List UInt8) : List UInt8 :=
  [0x12, 0x34, 0x01, 0x00, 0, 1, 0, 0, 0, 0, 0, arcount] ++ [1, 97, 2, 98, 99, 0, 0, 1, 0, 1] ++
    additional

/-- The message that it spells. -/
def exampleMessage (additional : List Record) : Message where
  header := ⟨0x1234, 0x01, 0x00, 1, 0, 0, additional.length⟩
  questions := [⟨[[97], [98, 99]], typeA, classIN⟩]
  answers := []
  authority := []
  additional := additional

/-- A query for a name without a keyword. -/
theorem address_query_answered_example :
    ∃ bytes r, replyAfter (.replicate 128 0) [] ⟨some ⟨⟨0, 53⟩, exampleQuery 0 []⟩, []⟩ =
        .ok (some ⟨⟨0, 53⟩, bytes⟩) ∧
      bytes.length = 38 ∧ decode bytes = some r ∧ r.header.id = 0x1234 ∧ r.header.qr = true ∧
      r.questions = [⟨[[97], [98, 99]], typeA, classIN⟩] ∧
      r.answers = [addressRecord [[97], [98, 99]] 10] ∧ r.authority = [] ∧ r.additional = [] ∧
      (bytes.drop 22).take 2 = [0xc0, 0x0c] := by
  have hquery : AddressQuery (exampleQuery 0 []) (exampleMessage [])
      ⟨[[97], [98, 99]], typeA, classIN⟩ :=
    addressQuery_of_bytes 0x12 0x34 0x01 0x00 [[97], [98, 99]] rfl (by decide) (by decide)
  exact (address_query_answered hquery rfl (by decide) (by decide) _ _ _ _).1 (by decide +kernel)

/-! ## Additional records -/

/-- The bytes spell a message whose answer is the address for the name, and whose sections match
their counts. -/
def AddressReply (bytes : List UInt8) (name : List Label) : Prop :=
  ∃ r, decode bytes = some r ∧ r.Counted ∧ ∃ ttl, r.answers = [addressRecord name ttl]

/-- **Additional records.** A query for the address of an unblocked name, with any additional
section, gets a reply that answers with the address exactly when the section is empty or starts with
such an answer itself: a decoder takes the first record behind the question for the answer. -/
theorem address_reply_iff {msg : List UInt8} {m : Message} {q : Question}
    (h : AddressQuery msg m q) (hlen : msg.length ≤ 100) (hname : ¬ NameBlocked q.name)
    (data : Data) (history : List Reception) (beyond : List UInt8) (client : SockAddr) :
    (∃ bytes, replyAfter data history ⟨some ⟨client, msg⟩, beyond⟩ = .ok (some ⟨client, bytes⟩) ∧
      AddressReply bytes q.name) ↔
    ∀ a ∈ m.additional.head?, ∃ ttl, a = addressRecord q.name ttl := by
  obtain ⟨h', hdecode, -, -⟩ := h.decode_replyBytes
  have hcounted := counted_of_decode hdecode
  have hsent := h.replyAfter_eq hlen hname data history beyond client
  constructor
  · rintro ⟨bytes, hreply, r, hr, -, ttl, hanswers⟩ a ha
    cases hsent.symm.trans hreply
    cases hdecode.symm.trans hr
    obtain ⟨rest, hadditional⟩ := List.head?_eq_some_iff.1 ha
    rw [hadditional] at hanswers
    exact ⟨ttl, List.head_eq_of_cons_eq hanswers⟩
  · intro hfirst
    refine ⟨_, hsent, _, hdecode, hcounted, ?_⟩
    cases hadditional : m.additional with
    | nil => exact ⟨10, rfl⟩
    | cons a rest =>
      obtain ⟨ttl, rfl⟩ := hfirst a (by rw [hadditional]; rfl)
      exact ⟨ttl, rfl⟩

/-- An OPT record, as it spells out in a message. -/
def optBytes : List UInt8 := [0, 0, 41, 16, 0, 0, 0, 0, 0, 0, 0]

def optRecord : Record := ⟨[], 41, 4096, 0, []⟩

/-- An additional section that starts with the address. -/
theorem address_reply_iff_address :
    ∃ bytes, replyAfter (.replicate 128 0) [] ⟨some ⟨⟨0, 53⟩, exampleQuery 1 answerBytes⟩, []⟩ =
      .ok (some ⟨⟨0, 53⟩, bytes⟩) ∧ AddressReply bytes [[97], [98, 99]] := by
  have hquery : AddressQuery (exampleQuery 1 answerBytes)
      (exampleMessage [addressRecord [[97], [98, 99]] 10]) ⟨[[97], [98, 99]], typeA, classIN⟩ :=
    ⟨by decide +kernel, by decide +kernel, rfl, rfl, rfl, rfl, rfl⟩
  refine (address_reply_iff hquery (by decide) (by decide +kernel) _ _ _ _).2 ?_
  rintro a ⟨⟩
  exact ⟨10, rfl⟩

/-- The reply to a query with an OPT record answers with the OPT record. -/
theorem opt_taken_for_answer :
    ¬ ∀ (msg : List UInt8) (m : Message) (q : Question), AddressQuery msg m q →
      msg.length ≤ 100 → ¬ NameBlocked q.name → ∀ data history beyond client,
        ∃ bytes, replyAfter data history ⟨some ⟨client, msg⟩, beyond⟩ =
          .ok (some ⟨client, bytes⟩) ∧ AddressReply bytes q.name := by
  intro hall
  have hquery : AddressQuery (exampleQuery 1 optBytes) (exampleMessage [optRecord])
      ⟨[[97], [98, 99]], typeA, classIN⟩ :=
    ⟨by decide +kernel, by decide +kernel, rfl, rfl, rfl, rfl, rfl⟩
  have hreply : replyAfter (.replicate 128 0) [] ⟨some ⟨⟨0, 53⟩, exampleQuery 1 optBytes⟩, []⟩ =
      .ok (some ⟨⟨0, 53⟩, replyBytes (exampleQuery 1 optBytes)⟩) := by decide +kernel
  have hanswers : (decode (replyBytes (exampleQuery 1 optBytes))).map Message.answers =
      some [optRecord] := by decide +kernel
  obtain ⟨bytes, hsent, r, hr, -, ttl, haddress⟩ :=
    hall _ _ _ hquery (by decide) (by decide +kernel) (.replicate 128 0) [] [] ⟨0, 53⟩
  cases hreply.symm.trans hsent
  rw [hr, Option.map_some, haddress] at hanswers
  exact absurd hanswers (by simp [addressRecord, optRecord])

end InfantryRM

import InfantryRM.Lib.CString

/-!
# The captive portal's DNS server

`my_dns_server` (`my_dns_server.c:53`) answers the names that the phones on the access point ask
for. It receives up to 100 bytes into the array `data`, drops the datagram when the text from offset
12 contains one of eight keywords, and otherwise sends the datagram back with three bytes of its
header changed and one answer appended. The array is never cleared, and the text ends at the first
NUL in memory, which may lie behind the datagram, so a reception carries the bytes that lie behind
`data` (`Reception.beyond`).

No store of the loop body falls outside the array, and what is sent depends on the datagram alone;
only whether something is sent may depend on what lies behind the datagram (`myDnsServer_eq`).
-/

namespace InfantryRM

open CString

/-! ## The loop body -/

/-- Source: `data` (`my_dns_server.c:57`). -/
abbrev Data := List.Vector UInt8 128

/-- The number of bytes that `recvfrom` is asked for. Source: `my_dns_server.c:74`. -/
def recvLimit : Nat := 100

/-- Source: `client` (`my_dns_server.c:59`). -/
structure SockAddr where
  addr : UInt32
  port : UInt16
  deriving DecidableEq, Repr

/-- A datagram, with the address that it comes from or goes to. -/
structure Datagram where
  client : SockAddr
  payload : List UInt8
  deriving DecidableEq, Repr

/-- What `recvfrom` receives, if it does not fail, and the bytes that lie behind `data` in memory
at that time. -/
structure Reception where
  datagram : Option Datagram
  beyond : List UInt8

/-- The names that are not answered. Source: `my_dns_server.c:95`. -/
def keywords : List (List UInt8) :=
  [ascii "taobao", ascii "qq", ascii "sogou", ascii "amap", ascii "alipay", ascii "youku",
    ascii "iqiyi", ascii "baidu"]

/-- The eight searches. Source: `my_dns_server.c:95`. -/
def isFiltered (data : Data) (beyond : List UInt8) : Bool :=
  keywords.any fun keyword => (strstr (data.toList.drop 0xc ++ beyond) keyword).isSome

/-- The bytes of the answer. Source: `my_dns_server.c:111`. -/
def answerBytes : List UInt8 :=
  [0xc0, 0x0c, 0x00, 0x01, 0x00, 0x01, 0x00, 0x00, 0x00, 0x0A, 0x00, 0x04, 192, 168, 4, 1]

/-- `data[len++] = b`, for each of the bytes. -/
def appendBytes (data : Data) (len : Nat) : List UInt8 → Except OutOfBounds (Data × Nat)
  | [] => return (data, len)
  | b :: bs => do
    let data ← store data len b
    appendBytes data (len + 1) bs

/-- The body of the loop: the array after it, and the datagram that is sent. Source:
`my_dns_server` (`my_dns_server.c:71`). -/
def myDnsServer (data : Data) (r : Reception) : Except OutOfBounds (Data × Option Datagram) :=
  match r.datagram with
  | none => return (data, none)
  | some d => do
    -- a longer datagram is cut
    let len := min d.payload.length recvLimit
    let data ← copyAt d.payload (List.range len) data
    if len > 100 then
      return (data, none)
    if isFiltered data r.beyond then
      return (data, none)
    let data ← update data 2 (· ||| 0x80)
    let data ← update data 3 (· ||| 0x80)
    let data ← store data 7 1
    let (data, len) ← appendBytes data len answerBytes
    return (data, some ⟨d.client, data.toList.take len⟩)

/-- The array after a sequence of receptions. -/
def afterReceptions (data : Data) : List Reception → Except OutOfBounds Data
  | [] => return data
  | r :: rs => do
    let (data, _) ← myDnsServer data r
    afterReceptions data rs

/-- What is sent for the reception that follows a sequence of others. -/
def replyAfter (data : Data) (history : List Reception) (r : Reception) :
    Except OutOfBounds (Option Datagram) := do
  let data ← afterReceptions data history
  let (_, reply) ← myDnsServer data r
  return reply

/-! ## What it does -/

/-- A keyword occurs in the text. -/
def Blocked (text : List UInt8) : Prop := ∃ keyword ∈ keywords, keyword <:+: text

instance (text : List UInt8) : Decidable (Blocked text) :=
  inferInstanceAs (Decidable (∃ keyword ∈ keywords, keyword <:+: text))

/-- The bytes of a datagram that `recvfrom` delivers. -/
def received (payload : List UInt8) : List UInt8 := payload.take recvLimit

/-- The changes to the header, in a datagram of any length. -/
def patchHeader (payload : List UInt8) : List UInt8 :=
  ((payload.modify 2 (· ||| 0x80)).modify 3 (· ||| 0x80)).set 7 1

/-- What is sent for the received bytes. -/
def replyBytes (payload : List UInt8) : List UInt8 := patchHeader payload ++ answerBytes

/-- The text that the filter searches: the received bytes from offset 12, and what lies behind
them, up to the first NUL. -/
def searchedText (data : Data) (beyond payload : List UInt8) : List UInt8 :=
  cstr ((received payload ++ data.toList.drop (received payload).length).drop 0xc ++ beyond)

/-- The array after `recvfrom`. -/
def arrived (data : Data) (payload : List UInt8) : List UInt8 :=
  received payload ++ data.toList.drop (received payload).length

/-- The array after a reply: what was sent, and what stood behind it. -/
def answered (data : Data) (payload : List UInt8) : List UInt8 :=
  replyBytes (received payload) ++
    (patchHeader (arrived data payload)).drop ((received payload).length + answerBytes.length)

section
variable {data : Data} {len : Nat} {bs beyond : List UInt8} {d : Datagram}

/-- Appending inside the array. -/
theorem appendBytes_of_le (data : Data) (h : len + bs.length ≤ 128) :
    ∃ data', appendBytes data len bs = .ok (data', len + bs.length) ∧
      data'.toList = data.toList.take len ++ bs ++ data.toList.drop (len + bs.length) := by
  induction bs generalizing data len with
  | nil => exact ⟨data, rfl, by simp⟩
  | cons b bs ih =>
    rw [List.length_cons] at h ⊢
    obtain ⟨data₁, hstore, hlist⟩ := store_of_lt data (i := len) (by omega) b
    have hsum : len + 1 + bs.length = len + (bs.length + 1) := by omega
    obtain ⟨data₂, happend, hlist₂⟩ := ih data₁ (hsum.trans_le h)
    rw [hsum] at happend hlist₂
    refine ⟨data₂, ?_, ?_⟩
    · rw [appendBytes, hstore]
      exact happend
    · have hlen : len < data.toList.length := by
        rw [data.toList_length]
        omega
      rw [hlist₂, hlist, List.take_add_one, List.take_set_of_le le_rfl, List.getElem?_set_self hlen,
        List.drop_set_of_lt (by omega)]
      simp

/-- The filter drops a datagram when a keyword occurs in the text that it searches. -/
theorem isFiltered_iff : isFiltered data beyond = true ↔
    Blocked (cstr (data.toList.drop 0xc ++ beyond)) := by
  simp only [isFiltered, List.any_eq_true, strstr, findSub_isSome_iff, Blocked]

theorem length_received_le (payload : List UInt8) : (received payload).length ≤ recvLimit :=
  List.length_take_le _ _

theorem received_eq_take (payload : List UInt8) :
    payload.take (received payload).length = received payload := by
  rw [received, List.length_take, List.take_eq_take_iff]
  omega

/-- **The loop body.** Every store falls into the array. The datagram is dropped when a keyword
occurs in the searched text; otherwise what is sent is a function of the received bytes, and it is
left in the array. -/
theorem myDnsServer_eq (data : Data) (d : Datagram) (beyond : List UInt8) :
    ∃ data', myDnsServer data ⟨some d, beyond⟩ = .ok (data',
      if Blocked (searchedText data beyond d.payload) then none
      else some ⟨d.client, replyBytes (received d.payload)⟩) ∧
      data'.toList = if Blocked (searchedText data beyond d.payload) then arrived data d.payload
        else answered data d.payload := by
  have hlen : min d.payload.length recvLimit = (received d.payload).length := by
    rw [received, List.length_take, min_comm]
  have hlimit := length_received_le d.payload
  unfold recvLimit at hlimit
  obtain ⟨data₁, hcopy, hlist₁⟩ := copyAt_range d.payload data (k := (received d.payload).length)
    (by omega) (by rw [← hlen]; exact min_le_left _ _)
  rw [received_eq_take] at hlist₁
  have hfilter : isFiltered data₁ beyond = true ↔ Blocked (searchedText data beyond d.payload) := by
    rw [isFiltered_iff, hlist₁, searchedText]
  -- the guard behind `recvfrom` never fires
  have hnot : ¬ (received d.payload).length > 100 := Nat.not_lt.2 hlimit
  by_cases hblocked : Blocked (searchedText data beyond d.payload)
  · refine ⟨data₁, ?_, ?_⟩
    · simp only [myDnsServer, hlen, hcopy, bind, Except.bind, if_neg hnot,
        if_pos (hfilter.2 hblocked), if_pos hblocked]
      rfl
    · rw [hlist₁, if_pos hblocked, arrived]
  · obtain ⟨data₂, h₂, hlist₂⟩ := update_of_lt data₁ (i := 2) (by decide) (· ||| 0x80)
    obtain ⟨data₃, h₃, hlist₃⟩ := update_of_lt data₂ (i := 3) (by decide) (· ||| 0x80)
    obtain ⟨data₄, h₄, hlist₄⟩ := store_of_lt data₃ (i := 7) (by decide) 1
    have hroom : (received d.payload).length + answerBytes.length ≤ 128 := by
      simp [answerBytes]
      omega
    obtain ⟨data₅, h₅, hlist₅⟩ := appendBytes_of_le data₄ hroom
    have hpatched : data₄.toList = patchHeader (arrived data d.payload) := by
      rw [hlist₄, hlist₃, hlist₂, hlist₁]
      rfl
    have hanswered : data₅.toList = answered data d.payload := by
      have htake : (patchHeader (arrived data d.payload)).take (received d.payload).length =
          patchHeader (received d.payload) := by
        unfold patchHeader arrived
        rw [List.take_set, List.take_modify, List.take_modify, List.take_left]
      rw [hlist₅, hpatched, htake]
      rfl
    have hsent : data₅.toList.take ((received d.payload).length + answerBytes.length) =
        replyBytes (received d.payload) := by
      rw [hanswered]
      exact List.take_left' (by simp [replyBytes, patchHeader])
    refine ⟨data₅, ?_, ?_⟩
    · simp only [myDnsServer, hlen, hcopy, bind, Except.bind, if_neg hnot,
        if_neg (mt hfilter.1 hblocked), if_neg hblocked, h₂, h₃, h₄, h₅, hsent]
      rfl
    · rw [if_neg hblocked, hanswered]

end

end InfantryRM

import InfantryRM.Lib.CString

/-!
# DNS messages on the wire

A decoder for the messages of RFC 1035: the header with its flags and counts, the four sections in
their order, and names whose tails may be pointers to an earlier name. A message is decoded as a
whole (`decode`): every count is met and no byte is left over.

A pointer leads to an earlier name, so it stays behind the header and before the name that it
continues. A name without pointers is read back from its bytes (`name_encodeName`), and the name of
the first question, which stands right behind the header, is one (`eq_encodeName_of_labels`). A
reader that succeeds on a message succeeds on every extension of it and leaves the extension over
(`Extends`), also when the header changes; so a record that is appended to a message, with one
answer more counted, moves the first of the records behind the questions into the answer section
(`decode_append_record`).
-/

namespace Dns

/-- A reader of the bytes that are left. -/
abbrev Parser := StateT (List UInt8) Option

/-! ## Readers -/

def u8 : Parser UInt8
  | [] => none
  | b :: rest => some (b, rest)

def u16 : Parser Nat := do
  let a ← u8
  let b ← u8
  return a.toNat * 256 + b.toNat

def u32 : Parser Nat := do
  let a ← u16
  let b ← u16
  return a * 65536 + b

def bytes (n : Nat) : Parser (List UInt8) := fun rest =>
  if n ≤ rest.length then some (rest.take n, rest.drop n) else none

def many {α : Type} (p : Parser α) : Nat → Parser (List α)
  | 0 => return []
  | n + 1 => do
    let a ← p
    let as ← many p n
    return a :: as

/-! ## Names -/

abbrev Label := List UInt8

/-- The length of the header, behind which the first name stands. -/
def headerLength : Nat := 12

/-- The labels of a name whose current part starts at offset `start` of the message, with at most
`fuel` labels and pointers. -/
def labels (msg : List UInt8) : Nat → Nat → Parser (List Label)
  | 0, _ => failure
  | fuel + 1, start => do
    let b ← u8
    if b = 0 then
      return []
    else if b < 64 then do
      let label ← bytes b.toNat
      let rest ← labels msg fuel start
      return label :: rest
    else if 192 ≤ b then do
      let c ← u8
      let target := (b.toNat - 192) * 256 + c.toNat
      if headerLength ≤ target ∧ target < start then do
        let tail ← StateT.lift ((labels msg fuel target).run (msg.drop target))
        return tail.1
      else failure
    else failure

/-- A name without pointers, with the empty label at its end. -/
def encodeName (ls : List Label) : List UInt8 :=
  ls.flatMap (fun l => l.length.toUInt8 :: l) ++ [0]

/-- A name of at most 255 bytes, which has at most 127 labels; the targets of its pointers strictly
decrease, so there are fewer of them than bytes in the message. -/
def name (msg : List UInt8) : Parser (List Label) := do
  let here ← get
  let ls ← labels msg (128 + msg.length) (msg.length - here.length)
  if (encodeName ls).length ≤ 255 then return ls else failure

/-! ## Messages -/

structure Header where
  id : Nat
  flags1 : UInt8
  flags2 : UInt8
  qdcount : Nat
  ancount : Nat
  nscount : Nat
  arcount : Nat
  deriving DecidableEq, Repr

/-- The QR bit: the message is a response. -/
def Header.qr (h : Header) : Bool := h.flags1 &&& 0x80 != 0

structure Question where
  name : List Label
  qtype : Nat
  qclass : Nat
  deriving DecidableEq, Repr

structure Record where
  name : List Label
  type : Nat
  rclass : Nat
  ttl : Nat
  rdata : List UInt8
  deriving DecidableEq, Repr

structure Message where
  header : Header
  questions : List Question
  answers : List Record
  authority : List Record
  additional : List Record
  deriving DecidableEq, Repr

def header : Parser Header := do
  let id ← u16
  let flags1 ← u8
  let flags2 ← u8
  let qdcount ← u16
  let ancount ← u16
  let nscount ← u16
  let arcount ← u16
  return { id, flags1, flags2, qdcount, ancount, nscount, arcount }

def question (msg : List UInt8) : Parser Question := do
  let name ← name msg
  let qtype ← u16
  let qclass ← u16
  return { name, qtype, qclass }

def record (msg : List UInt8) : Parser Record := do
  let name ← name msg
  let type ← u16
  let rclass ← u16
  let ttl ← u32
  let rdlength ← u16
  let rdata ← bytes rdlength
  return { name, type, rclass, ttl, rdata }

def message (msg : List UInt8) : Parser Message := do
  let header ← header
  let questions ← many (question msg) header.qdcount
  let answers ← many (record msg) header.ancount
  let authority ← many (record msg) header.nscount
  let additional ← many (record msg) header.arcount
  return { header, questions, answers, authority, additional }

/-- The message that the bytes spell, with none left over. -/
def decode (msg : List UInt8) : Option Message :=
  match (message msg).run msg with
  | some (m, []) => some m
  | _ => none

/-- TYPE A and CLASS IN. -/
def typeA : Nat := 1
def classIN : Nat := 1

/-! ## Extension -/

/-- What `p` reads, `p'` reads from every extension by `t` as well, and it leaves `t` over. -/
def Extends {α : Type} (t : List UInt8) (p p' : Parser α) : Prop :=
  ∀ xs a ys, p.run xs = some (a, ys) → p'.run (xs ++ t) = some (a, ys ++ t)

section
variable {α β : Type} {p p' : Parser α} {f f' : α → Parser β} {xs ys t : List UInt8} {b : β}

/-- A sequence of two readers reads one after the other. -/
theorem bind_eq_some_iff : (p >>= f).run xs = some (b, ys) ↔
    ∃ a zs, p.run xs = some (a, zs) ∧ (f a).run zs = some (b, ys) := by
  simp [StateT.run_bind, Option.bind_eq_some_iff]

namespace Extends

theorem pure (a : α) : Extends t (Pure.pure a : Parser α) (Pure.pure a) := by
  intro xs b ys h
  cases h
  rfl

theorem failure : Extends t (Alternative.failure : Parser α) p' := by
  intro xs a ys h
  cases h

theorem bind (hp : Extends t p p') (hf : ∀ a, Extends t (f a) (f' a)) :
    Extends t (p >>= f) (p' >>= f') := by
  intro xs b ys h
  obtain ⟨a, zs, ha, hb⟩ := bind_eq_some_iff.1 h
  exact bind_eq_some_iff.2 ⟨a, zs ++ t, hp xs a zs ha, hf a zs b ys hb⟩

theorem ite {c : Prop} [Decidable c] {q q' : Parser α} (hp : c → Extends t p p')
    (hq : ¬ c → Extends t q q') : Extends t (if c then p else q) (if c then p' else q') := by
  split
  · next hc => exact hp hc
  · next hc => exact hq hc

theorem u8 : Extends t Dns.u8 Dns.u8 := by
  intro xs a ys h
  cases xs with
  | nil => cases h
  | cons b xs => cases h; rfl

theorem u16 : Extends t Dns.u16 Dns.u16 :=
  u8.bind fun _ => u8.bind fun _ => pure _

theorem u32 : Extends t Dns.u32 Dns.u32 :=
  u16.bind fun _ => u16.bind fun _ => pure _

theorem bytes (n : Nat) : Extends t (Dns.bytes n) (Dns.bytes n) := by
  intro xs a ys h
  obtain ⟨hn, heq⟩ := Option.ite_none_right_eq_some.1 h
  cases heq
  refine (if_pos ?_).trans ?_
  · rw [List.length_append]
    omega
  · rw [List.take_append_of_le_length hn, List.drop_append_of_le_length hn]

theorem many (hp : Extends t p p') (n : Nat) : Extends t (Dns.many p n) (Dns.many p' n) := by
  induction n with
  | zero => exact pure []
  | succ n ih => exact hp.bind fun _ => ih.bind fun _ => pure _

end Extends

end

/-- The message `msg'` extends `msg` by `t`, up to its header. -/
structure Extended (t msg msg' : List UInt8) : Prop where
  length : msg'.length = msg.length + t.length
  drop : ∀ k, headerLength ≤ k → k ≤ msg.length → msg'.drop k = msg.drop k ++ t

section
variable {msg msg' t xs ys : List UInt8} {fuel fuel' start n : Nat} {ls : List Label}

/-- A name that is read in a message is read in its extension: pointers lead behind the header. -/
theorem Extends.labels (h : Extended t msg msg') (hfuel : fuel ≤ fuel')
    (hstart : start ≤ msg.length) :
    Extends t (Dns.labels msg fuel start) (Dns.labels msg' fuel' start) := by
  induction fuel generalizing fuel' start with
  | zero => exact .failure
  | succ fuel ih =>
    obtain ⟨n, rfl⟩ : ∃ n, fuel' = n + 1 := ⟨fuel' - 1, by omega⟩
    refine u8.bind fun b => .ite (fun _ => .pure []) fun _ => .ite (fun _ => ?_) fun _ =>
      .ite (fun _ => ?_) fun _ => .failure
    · exact (Extends.bytes _).bind fun _ => (ih (by omega) hstart).bind fun _ => .pure _
    · refine u8.bind fun c => .ite (fun htarget => ?_) fun _ => .failure
      intro xs a ys hrun
      obtain ⟨⟨ls, zs⟩, us, hlift, hpure⟩ := bind_eq_some_iff.1 hrun
      obtain ⟨⟨ls', zs'⟩, htail, heq⟩ := Option.bind_eq_some_iff.1 hlift
      cases heq
      cases hpure
      have hle := htarget.2.le.trans hstart
      have hext := ih (show fuel ≤ n by omega) hle _ _ _ htail
      rw [← h.drop _ htarget.1 hle] at hext
      refine bind_eq_some_iff.2 ⟨(_, zs ++ t), xs ++ t, ?_, rfl⟩
      exact Option.bind_eq_some_iff.2 ⟨_, hext, rfl⟩

/-- A name is what its labels read, when it is short enough. -/
theorem name_eq_some_iff : (name msg).run xs = some (ls, ys) ↔
    (labels msg (128 + msg.length) (msg.length - xs.length)).run xs = some (ls, ys) ∧
      (encodeName ls).length ≤ 255 := by
  have hget : (name msg).run xs =
      (labels msg (128 + msg.length) (msg.length - xs.length) >>= fun ls =>
        if (encodeName ls).length ≤ 255 then pure ls else failure).run xs := rfl
  rw [hget, bind_eq_some_iff]
  constructor
  · rintro ⟨ls', zs, hread, hlimit⟩
    split at hlimit
    · next hle => cases hlimit; exact ⟨hread, hle⟩
    · cases hlimit
  · rintro ⟨hread, hle⟩
    exact ⟨ls, ys, hread, by rw [if_pos hle]; rfl⟩

theorem Extends.name (h : Extended t msg msg') : Extends t (Dns.name msg) (Dns.name msg') := by
  intro xs ls ys hrun
  obtain ⟨hread, hle⟩ := name_eq_some_iff.1 hrun
  have hstart : msg'.length - (xs ++ t).length = msg.length - xs.length := by
    rw [h.length, List.length_append]
    omega
  refine name_eq_some_iff.2 ⟨?_, hle⟩
  rw [hstart]
  exact Extends.labels h (by rw [h.length]; omega) (Nat.sub_le _ _) _ _ _ hread

theorem Extends.question (h : Extended t msg msg') :
    Extends t (Dns.question msg) (Dns.question msg') :=
  (Extends.name h).bind fun _ => u16.bind fun _ => u16.bind fun _ => .pure _

theorem Extends.record (h : Extended t msg msg') :
    Extends t (Dns.record msg) (Dns.record msg') :=
  (Extends.name h).bind fun _ => u16.bind fun _ => u16.bind fun _ => u32.bind fun _ =>
    u16.bind fun _ => (Extends.bytes _).bind fun _ => .pure _

end

/-! ## What readers have read -/

section
variable {msg xs ys : List UInt8} {b : UInt8} {n : Nat} {h : Header} {m : Message}

theorem u8_eq_some_iff : u8.run xs = some (b, ys) ↔ xs = b :: ys := by
  cases xs with
  | nil => exact ⟨nofun, nofun⟩
  | cons c xs =>
    constructor
    · intro heq
      cases heq
      rfl
    · intro heq
      cases heq
      rfl

theorem u16_eq_some_iff :
    u16.run xs = some (n, ys) ↔ ∃ a b : UInt8, xs = a :: b :: ys ∧ n = a.toNat * 256 + b.toNat := by
  constructor
  · intro hrun
    obtain ⟨a, zs, ha, hrun⟩ := bind_eq_some_iff.1 hrun
    obtain ⟨b, us, hb, hrun⟩ := bind_eq_some_iff.1 hrun
    cases hrun
    exact ⟨a, b, by rw [u8_eq_some_iff.1 ha, u8_eq_some_iff.1 hb], rfl⟩
  · rintro ⟨a, b, rfl, rfl⟩
    rfl

/-- The twelve bytes of a header. -/
theorem header_eq_some_iff : header.run xs = some (h, ys) ↔
    ∃ i₀ i₁ f₁ f₂ q₀ q₁ a₀ a₁ n₀ n₁ r₀ r₁ : UInt8,
      xs = [i₀, i₁, f₁, f₂, q₀, q₁, a₀, a₁, n₀, n₁, r₀, r₁] ++ ys ∧
        h = ⟨i₀.toNat * 256 + i₁.toNat, f₁, f₂, q₀.toNat * 256 + q₁.toNat,
          a₀.toNat * 256 + a₁.toNat, n₀.toNat * 256 + n₁.toNat, r₀.toNat * 256 + r₁.toNat⟩ := by
  constructor
  · intro hrun
    obtain ⟨id, _, hid, hrun⟩ := bind_eq_some_iff.1 hrun
    obtain ⟨f₁, _, hf₁, hrun⟩ := bind_eq_some_iff.1 hrun
    obtain ⟨f₂, _, hf₂, hrun⟩ := bind_eq_some_iff.1 hrun
    obtain ⟨qd, _, hqd, hrun⟩ := bind_eq_some_iff.1 hrun
    obtain ⟨an, _, han, hrun⟩ := bind_eq_some_iff.1 hrun
    obtain ⟨ns, _, hns, hrun⟩ := bind_eq_some_iff.1 hrun
    obtain ⟨ar, _, har, hrun⟩ := bind_eq_some_iff.1 hrun
    cases hrun
    obtain ⟨i₀, i₁, rfl, rfl⟩ := u16_eq_some_iff.1 hid
    cases u8_eq_some_iff.1 hf₁
    cases u8_eq_some_iff.1 hf₂
    obtain ⟨q₀, q₁, rfl, rfl⟩ := u16_eq_some_iff.1 hqd
    obtain ⟨a₀, a₁, rfl, rfl⟩ := u16_eq_some_iff.1 han
    obtain ⟨n₀, n₁, rfl, rfl⟩ := u16_eq_some_iff.1 hns
    obtain ⟨r₀, r₁, rfl, rfl⟩ := u16_eq_some_iff.1 har
    exact ⟨i₀, i₁, f₁, f₂, q₀, q₁, a₀, a₁, n₀, n₁, r₀, r₁, rfl, rfl⟩
  · rintro ⟨i₀, i₁, f₁, f₂, q₀, q₁, a₀, a₁, n₀, n₁, r₀, r₁, rfl, rfl⟩
    rfl

/-- A message is its header and, in this order, as many questions and records as it counts. -/
theorem message_eq_some_iff : (message msg).run xs = some (m, ys) ↔
    ∃ xs₀ xs₁ xs₂ xs₃, header.run xs = some (m.header, xs₀) ∧
      (many (question msg) m.header.qdcount).run xs₀ = some (m.questions, xs₁) ∧
      (many (record msg) m.header.ancount).run xs₁ = some (m.answers, xs₂) ∧
      (many (record msg) m.header.nscount).run xs₂ = some (m.authority, xs₃) ∧
      (many (record msg) m.header.arcount).run xs₃ = some (m.additional, ys) := by
  constructor
  · intro hrun
    obtain ⟨h, xs₀, hh, hrun⟩ := bind_eq_some_iff.1 hrun
    obtain ⟨qs, xs₁, hqs, hrun⟩ := bind_eq_some_iff.1 hrun
    obtain ⟨ans, xs₂, hans, hrun⟩ := bind_eq_some_iff.1 hrun
    obtain ⟨nss, xs₃, hnss, hrun⟩ := bind_eq_some_iff.1 hrun
    obtain ⟨ars, xs₄, hars, hrun⟩ := bind_eq_some_iff.1 hrun
    cases hrun
    exact ⟨xs₀, xs₁, xs₂, xs₃, hh, hqs, hans, hnss, hars⟩
  · rintro ⟨xs₀, xs₁, xs₂, xs₃, hh, hqs, hans, hnss, hars⟩
    refine bind_eq_some_iff.2 ⟨_, _, hh, bind_eq_some_iff.2 ⟨_, _, hqs, ?_⟩⟩
    refine bind_eq_some_iff.2 ⟨_, _, hans, bind_eq_some_iff.2 ⟨_, _, hnss, ?_⟩⟩
    exact bind_eq_some_iff.2 ⟨_, _, hars, rfl⟩

theorem decode_eq_some_iff : decode msg = some m ↔ (message msg).run msg = some (m, []) := by
  unfold decode
  split
  · next heq => simp [heq]
  · next hne =>
    refine ⟨nofun, ?_⟩
    intro h
    exact absurd h (hne m)

end

section
variable {α : Type} {p : Parser α} {n : Nat} {xs ys zs : List UInt8} {a : α} {as : List α}

/-- One item first. -/
theorem many_succ_eq_some_iff : (many p (n + 1)).run xs = some (as, zs) ↔
    ∃ a as' ys, p.run xs = some (a, ys) ∧ (many p n).run ys = some (as', zs) ∧ as = a :: as' := by
  constructor
  · intro hrun
    obtain ⟨a, ys, ha, hrun⟩ := bind_eq_some_iff.1 hrun
    obtain ⟨as', us, has, hrun⟩ := bind_eq_some_iff.1 hrun
    cases hrun
    exact ⟨a, as', ys, ha, has, rfl⟩
  · rintro ⟨a, as', ys, ha, has, rfl⟩
    exact bind_eq_some_iff.2 ⟨a, ys, ha, bind_eq_some_iff.2 ⟨as', zs, has, rfl⟩⟩

/-- One item last. -/
theorem many_concat (has : (many p n).run xs = some (as, ys)) (ha : p.run ys = some (a, zs)) :
    (many p (n + 1)).run xs = some (as ++ [a], zs) := by
  induction n generalizing xs as with
  | zero =>
    cases has
    exact many_succ_eq_some_iff.2 ⟨a, [], zs, ha, rfl, rfl⟩
  | succ n ih =>
    obtain ⟨b, bs, us, hb, hbs, rfl⟩ := many_succ_eq_some_iff.1 has
    exact many_succ_eq_some_iff.2 ⟨b, bs ++ [a], us, hb, ih hbs, rfl⟩

/-- A counted run has as many items as it counts. -/
theorem length_of_many (h : (many p n).run xs = some (as, zs)) : as.length = n := by
  induction n generalizing xs as with
  | zero => cases h; rfl
  | succ n ih =>
    obtain ⟨a, as', ys, -, has, rfl⟩ := many_succ_eq_some_iff.1 h
    rw [List.length_cons, ih has]

end

/-- The sections of a message match their counts. -/
structure Message.Counted (m : Message) : Prop where
  questions : m.questions.length = m.header.qdcount
  answers : m.answers.length = m.header.ancount
  authority : m.authority.length = m.header.nscount
  additional : m.additional.length = m.header.arcount

theorem counted_of_decode {msg : List UInt8} {m : Message} (h : decode msg = some m) :
    m.Counted := by
  obtain ⟨_, _, _, _, -, hqs, hans, hnss, hars⟩ := message_eq_some_iff.1 (decode_eq_some_iff.1 h)
  exact ⟨length_of_many hqs, length_of_many hans, length_of_many hnss, length_of_many hars⟩

/-! ## The first name -/

theorem encodeName_cons (l : Label) (ls : List Label) :
    encodeName (l :: ls) = l.length.toUInt8 :: (l ++ encodeName ls) := by
  simp [encodeName]

/-- The length of a label fits in its byte. -/
theorem toNat_length_toUInt8 {l : Label} (h : l.length < 64) :
    l.length.toUInt8.toNat = l.length := by
  simpa using by omega

/-- The length of a label is told from a pointer. -/
theorem length_toUInt8_lt {l : Label} (h : l.length < 64) : l.length.toUInt8 < 64 := by
  rw [UInt8.lt_iff_toNat_lt, toNat_length_toUInt8 h]
  exact h

/-- A name right behind the header has no pointer. -/
theorem eq_encodeName_of_labels {msg xs ys : List UInt8} {fuel : Nat} {ls : List Label}
    (h : (labels msg fuel headerLength).run xs = some (ls, ys)) :
    xs = encodeName ls ++ ys ∧ ∀ l ∈ ls, l ≠ [] ∧ l.length < 64 := by
  induction fuel generalizing xs ls with
  | zero => cases h
  | succ fuel ih =>
    obtain ⟨b, us, hb, hrun⟩ := bind_eq_some_iff.1 h
    cases u8_eq_some_iff.1 hb
    split at hrun
    · next hzero =>
      cases hrun
      exact ⟨by rw [hzero]; rfl, nofun⟩
    split at hrun
    · next hnonzero hlt =>
      obtain ⟨label, vs, hlabel, hrun⟩ := bind_eq_some_iff.1 hrun
      obtain ⟨hle, heq⟩ := Option.ite_none_right_eq_some.1 hlabel
      cases heq
      obtain ⟨rest, ws, hrest, hrun⟩ := bind_eq_some_iff.1 hrun
      cases hrun
      obtain ⟨hvs, hall⟩ := ih hrest
      have hlen : (us.take b.toNat).length = b.toNat := List.length_take_of_le hle
      refine ⟨?_, List.forall_mem_cons.2 ⟨⟨?_, ?_⟩, hall⟩⟩
      · rw [encodeName_cons, hlen, List.cons_append, List.append_assoc, ← hvs,
          List.take_append_drop]
        simp
      · intro hnil
        rw [hnil] at hlen
        exact hnonzero (UInt8.toNat_inj.1 hlen.symm)
      · rw [hlen]
        exact UInt8.lt_iff_toNat_lt.1 hlt
    split at hrun
    · obtain ⟨c, vs, hc, hrun⟩ := bind_eq_some_iff.1 hrun
      dsimp only at hrun
      split at hrun
      · next htarget => exact absurd htarget.2 (Nat.not_lt.2 htarget.1)
      · cases hrun
    · cases hrun

/-- A name is read back from its bytes. -/
theorem labels_encodeName {msg ys : List UInt8} {fuel start : Nat} {ls : List Label}
    (hfuel : ls.length < fuel) (hls : ∀ l ∈ ls, l ≠ [] ∧ l.length < 64) :
    (labels msg fuel start).run (encodeName ls ++ ys) = some (ls, ys) := by
  induction ls generalizing fuel with
  | nil =>
    cases fuel with
    | zero => cases hfuel
    | succ fuel => rfl
  | cons l ls ih =>
    obtain ⟨⟨hne, hlt⟩, hls⟩ := List.forall_mem_cons.1 hls
    cases fuel with
    | zero => cases hfuel
    | succ fuel =>
      have hlen := toNat_length_toUInt8 hlt
      have hzero : l.length.toUInt8 ≠ 0 := by
        intro hzero
        rw [hzero] at hlen
        exact (List.length_pos_of_ne_nil hne).ne hlen
      have hlabel : (bytes l.length.toUInt8.toNat).run (l ++ (encodeName ls ++ ys)) =
          some (l, encodeName ls ++ ys) := by
        rw [hlen]
        refine (if_pos ?_).trans ?_
        · rw [List.length_append]
          exact Nat.le_add_right _ _
        · rw [List.take_left, List.drop_left]
      have hrest := ih (Nat.lt_of_succ_lt_succ hfuel) hls
      rw [encodeName_cons, List.cons_append, List.append_assoc]
      refine bind_eq_some_iff.2 ⟨_, _, rfl, ?_⟩
      rw [if_neg hzero, if_pos (length_toUInt8_lt hlt)]
      exact bind_eq_some_iff.2 ⟨_, _, hlabel, bind_eq_some_iff.2 ⟨_, _, hrest, rfl⟩⟩

/-- A label takes two bytes at least. -/
theorem length_lt_encodeName {ls : List Label} (hls : ∀ l ∈ ls, l ≠ []) :
    2 * ls.length < (encodeName ls).length := by
  induction ls with
  | nil => exact Nat.one_pos
  | cons l ls ih =>
    obtain ⟨hne, hls⟩ := List.forall_mem_cons.1 hls
    have hpos := List.length_pos_of_ne_nil hne
    have hrest := ih hls
    rw [encodeName_cons, List.length_cons, List.length_cons, List.length_append]
    omega

/-- A name of at most 255 bytes is read back from its bytes. -/
theorem name_encodeName {msg ys : List UInt8} {ls : List Label}
    (hls : ∀ l ∈ ls, l ≠ [] ∧ l.length < 64) (hlen : (encodeName ls).length ≤ 255) :
    (name msg).run (encodeName ls ++ ys) = some (ls, ys) := by
  have hcount := length_lt_encodeName fun l hl => (hls l hl).1
  exact name_eq_some_iff.2 ⟨labels_encodeName (by omega) hls, hlen⟩

section
variable {msg msg' t : List UInt8} {m : Message} {q : Question} {qs : List Question}
  {ls : List Label} {ys : List UInt8}

/-- A message has a header. -/
theorem headerLength_le_of_decode (h : decode msg = some m) : headerLength ≤ msg.length := by
  obtain ⟨_, _, _, _, hh, -⟩ := message_eq_some_iff.1 (decode_eq_some_iff.1 h)
  obtain ⟨_, _, _, _, _, _, _, _, _, _, _, _, rfl, -⟩ := header_eq_some_iff.1 hh
  simp [headerLength]

/-- The first question stands right behind the header, and so does its name. -/
theorem name_of_decode (h : decode msg = some m) (hqs : m.questions = q :: qs) :
    ∃ ys, (name msg).run (msg.drop headerLength) = some (q.name, ys) := by
  obtain ⟨xs₀, _, _, _, hh, hquestions, -⟩ := message_eq_some_iff.1 (decode_eq_some_iff.1 h)
  have hdrop : msg.drop headerLength = xs₀ := by
    obtain ⟨_, _, _, _, _, _, _, _, _, _, _, _, hmsg, -⟩ := header_eq_some_iff.1 hh
    rw [hmsg]
    rfl
  rw [hqs] at hquestions
  cases hcount : m.header.qdcount with
  | zero => rw [hcount] at hquestions; cases hquestions
  | succ n =>
    rw [hcount] at hquestions
    obtain ⟨a, as, zs, ha, -, heq⟩ := many_succ_eq_some_iff.1 hquestions
    cases heq
    obtain ⟨ls, ys, hname, hrest⟩ := bind_eq_some_iff.1 ha
    obtain ⟨qtype, us, -, hrest⟩ := bind_eq_some_iff.1 hrest
    obtain ⟨qclass, vs, -, hrest⟩ := bind_eq_some_iff.1 hrest
    cases hrest
    exact ⟨ys, hdrop ▸ hname⟩

/-- The name right behind the header, byte for byte. -/
theorem eq_encodeName_of_name (hlen : headerLength ≤ msg.length)
    (h : (name msg).run (msg.drop headerLength) = some (ls, ys)) :
    msg.drop headerLength = encodeName ls ++ ys ∧ ∀ l ∈ ls, l ≠ [] ∧ l.length < 64 := by
  have hstart : msg.length - (msg.drop headerLength).length = headerLength := by
    rw [List.length_drop]
    omega
  have hread := (name_eq_some_iff.1 h).1
  rw [hstart] at hread
  exact eq_encodeName_of_labels hread

/-- A pointer to the name right behind the header, in an extension of the message. -/
theorem name_pointer (hext : Extended t msg msg') (hlen : headerLength < msg.length)
    (h : (name msg).run (msg.drop headerLength) = some (ls, ys)) {rest : List UInt8}
    (ht : t.length = rest.length + 2) :
    (name msg').run (0xc0 :: 0x0c :: rest) = some (ls, rest) := by
  obtain ⟨hread, hle⟩ := name_eq_some_iff.1 h
  have hstart : msg.length - (msg.drop headerLength).length = headerLength := by
    rw [List.length_drop]
    omega
  have hstart' : msg'.length - (0xc0 :: 0x0c :: rest : List UInt8).length = msg.length := by
    rw [hext.length, ht]
    simp only [List.length_cons]
    omega
  rw [hstart] at hread
  have hfuel : 128 + msg.length ≤ 127 + msg'.length := by
    rw [hext.length]
    omega
  have htail := Extends.labels hext hfuel hlen.le _ _ _ hread
  rw [← hext.drop _ le_rfl hlen.le] at htail
  refine name_eq_some_iff.2 ⟨?_, hle⟩
  rw [hstart', show 128 + msg'.length = 127 + msg'.length + 1 by omega]
  refine bind_eq_some_iff.2 ⟨0xc0, 0x0c :: rest, rfl, ?_⟩
  refine bind_eq_some_iff.2 ⟨0x0c, rest, rfl, ?_⟩
  refine (congrArg (fun p => StateT.run p rest) (if_pos ⟨le_rfl, hlen⟩)).trans ?_
  refine bind_eq_some_iff.2 ⟨(ls, ys ++ t), rest, ?_, rfl⟩
  exact Option.bind_eq_some_iff.2 ⟨_, htail, rfl⟩

end

/-! ## Text in a name -/

section
variable {ls : List Label} {pat : List UInt8}

/-- The first byte of a name is the length of a label. -/
theorem encodeName_eq_cons (hls : ∀ l ∈ ls, l.length < 64) :
    ∃ b ys, encodeName ls = b :: ys ∧ b < 64 := by
  cases ls with
  | nil => exact ⟨0, [], rfl, by decide⟩
  | cons l ls =>
    have hlen := length_toUInt8_lt (hls l List.mem_cons_self)
    exact ⟨l.length.toUInt8, l ++ encodeName ls, encodeName_cons l ls, hlen⟩

/-- What occurs in a name and has no byte that can be a length occurs in one of the labels. -/
theorem infix_encodeName_iff (hpat : pat ≠ []) (hlarge : ∀ b ∈ pat, 64 ≤ b)
    (hls : ∀ l ∈ ls, l.length < 64) : pat <:+: encodeName ls ↔ ∃ l ∈ ls, pat <:+: l := by
  have hnot {b : UInt8} (hb : b < 64) : b ∉ pat := fun hmem =>
    absurd (hlarge b hmem) (UInt8.not_le.2 hb)
  have hskip {b : UInt8} {ys : List UInt8} (hb : b < 64) : pat <:+: b :: ys ↔ pat <:+: ys := by
    have hcons : pat <:+: [] ++ b :: ys ↔ _ := CString.infix_append_cons_iff hpat (hnot hb)
    rwa [List.nil_append, List.infix_nil, or_iff_right hpat] at hcons
  induction ls with
  | nil =>
    have hroot : pat <:+: encodeName [] ↔ pat <:+: [] := hskip (by decide)
    simpa [hpat] using hroot
  | cons l ls ih =>
    obtain ⟨hl, hls⟩ := List.forall_mem_cons.1 hls
    -- behind the label stands the length of the next one
    obtain ⟨b, ys, hnext, hb⟩ := encodeName_eq_cons hls
    have htail : pat <:+: ys ↔ ∃ l ∈ ls, pat <:+: l := by
      have hih := ih hls
      rwa [hnext, hskip hb] at hih
    rw [encodeName_cons, hskip (length_toUInt8_lt hl), hnext,
      CString.infix_append_cons_iff hpat (hnot hb), htail, List.exists_mem_cons_iff]

/-- When no label has a NUL, the first NUL of a name is its last byte. -/
theorem cstr_encodeName (hls : ∀ l ∈ ls, l ≠ [] ∧ l.length < 64)
    (hzero : ∀ l ∈ ls, (0 : UInt8) ∉ l) :
    CString.cstr (encodeName ls) = ls.flatMap fun l => l.length.toUInt8 :: l := by
  refine CString.cstr_append_zero ?_ []
  intro hmem
  obtain ⟨l, hl, hmem⟩ := List.mem_flatMap.1 hmem
  obtain ⟨hne, hlt⟩ := hls l hl
  rcases List.mem_cons.1 hmem with hlen | hmem
  · have hlen := congrArg UInt8.toNat hlen
    rw [toNat_length_toUInt8 hlt] at hlen
    exact (List.length_pos_of_ne_nil hne).ne hlen
  · exact hzero l hl hmem

end

/-! ## An appended record -/

section
variable {msg msg' t : List UInt8} {m : Message} {h' : Header} {r : Record}

/-- **An appended record.** When a record is appended to a message that counts no answer and no
authority record, and the header counts one answer in the end, then the answer is the first of the
records behind the questions, and the additional section is the rest of them. -/
theorem decode_append_record (hext : Extended t msg msg') (hm : decode msg = some m)
    (hanswers : m.header.ancount = 0) (hauthority : m.header.nscount = 0)
    (hheader : header.run msg' = some (h', msg'.drop headerLength))
    (hcounts : h' = { m.header with flags1 := h'.flags1, flags2 := h'.flags2, ancount := 1 })
    (hr : (record msg').run t = some (r, [])) :
    decode msg' = some ⟨h', m.questions, (m.additional ++ [r]).take 1, [],
      (m.additional ++ [r]).drop 1⟩ := by
  obtain ⟨xs₀, xs₁, xs₂, xs₃, hh, hqs, hans, hnss, hars⟩ :=
    message_eq_some_iff.1 (decode_eq_some_iff.1 hm)
  have hbody : msg'.drop headerLength = xs₀ ++ t := by
    obtain ⟨_, _, _, _, _, _, _, _, _, _, _, _, hmsg, -⟩ := header_eq_some_iff.1 hh
    rw [hext.drop _ le_rfl (by rw [hmsg]; simp [headerLength]), hmsg]
    rfl
  -- nothing stands between the questions and the additional records
  rw [hanswers] at hans
  rw [hauthority] at hnss
  obtain ⟨-, rfl⟩ := Prod.mk.inj (Option.some.inj hans)
  obtain ⟨-, rfl⟩ := Prod.mk.inj (Option.some.inj hnss)
  have hqs' := (Extends.question hext).many _ _ _ _ hqs
  have hrecords := many_concat ((Extends.record hext).many _ _ _ _ hars) hr
  obtain ⟨a, as, ys, ha, has, hcons⟩ := many_succ_eq_some_iff.1 hrecords
  refine decode_eq_some_iff.2 (message_eq_some_iff.2 ⟨_, xs₁ ++ t, ys, ys, hheader, ?_, ?_, ?_, ?_⟩)
  · rw [hcounts, hbody]
    exact hqs'
  · rw [hcounts, hcons]
    exact many_succ_eq_some_iff.2 ⟨a, [], ys, ha, rfl, rfl⟩
  · rw [hcounts, hauthority]
    rfl
  · rw [hcounts, hcons]
    exact has

end

end Dns

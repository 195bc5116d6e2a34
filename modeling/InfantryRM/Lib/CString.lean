import Mathlib

/-!
# C strings and arrays over lists of bytes

A buffer is a list of bytes. A C string is read from the start of a buffer up to its first NUL
(`cstr`), so `strlen` and `strstr` see the buffer only through `cstr`, and a NUL stored inside the
string cuts it (`cstr_set_zero`). An array is a list of fixed length (`List.Vector`); a store
outside it is an error that names the index (`store`), and a copying loop is a sequence of such
stores (`copyAt`), in bounds exactly when every index it visits is (`copyAt_ok_iff`).
-/

namespace CString

/-- The bytes of an ASCII literal, without the terminating NUL. -/
def ascii (s : String) : List UInt8 := s.toList.map fun c => c.toNat.toUInt8

/-- The C string at the start of a buffer: the bytes before the first NUL. -/
def cstr (b : List UInt8) : List UInt8 := b.takeWhile (· ≠ 0)

/-- C `strlen`. -/
def strlen (b : List UInt8) : Nat := (cstr b).length

/-- The first index at which `pat` occurs in `l`. -/
def findSub {α : Type*} [BEq α] (pat l : List α) : Option Nat :=
  l.tails.findIdx? (pat.isPrefixOf ·)

/-- C `strstr`, as an offset into the buffer. -/
def strstr (b pat : List UInt8) : Option Nat := findSub pat (cstr b)

/-- C `strcmp(b, lit) == 0`. -/
def strcmpEq (b lit : List UInt8) : Bool := cstr b == lit

/-- C `bcmp(a, b, n) == 0`. -/
def bcmpEq (a b : List UInt8) (n : Nat) : Bool := a.take n == b.take n

/-! ## Where a string ends -/

/-- A C string is no longer than its buffer. -/
theorem strlen_le (b : List UInt8) : strlen b ≤ b.length :=
  (List.takeWhile_prefix _).length_le

/-- A C string has no NUL. -/
theorem zero_notMem_cstr (b : List UInt8) : (0 : UInt8) ∉ cstr b := by
  intro h
  have := List.mem_takeWhile_imp h
  simp at this

/-- The C string of a buffer goes through a prefix without a NUL. -/
theorem cstr_append {s : List UInt8} (hs : (0 : UInt8) ∉ s) (t : List UInt8) :
    cstr (s ++ t) = s ++ cstr t := by
  refine List.takeWhile_append_of_pos ?_
  intro a ha
  simp only [ne_eq, decide_eq_true_eq]
  rintro rfl
  exact hs ha

/-- A list without a NUL is a C string that its end cuts. -/
theorem cstr_of_notMem {s : List UInt8} (hs : (0 : UInt8) ∉ s) : cstr s = s := by
  have h := cstr_append hs []
  rw [List.append_nil] at h
  exact h.trans (List.append_nil s)

/-- A list without a NUL, followed by a NUL, is the C string of the buffer. -/
theorem cstr_append_zero {s : List UInt8} (hs : (0 : UInt8) ∉ s) (t : List UInt8) :
    cstr (s ++ 0 :: t) = s := by
  rw [cstr_append hs]
  simp [cstr]

/-- What follows a NUL is not part of the C string. -/
theorem cstr_append_of_mem {s : List UInt8} (hs : (0 : UInt8) ∈ s) (t : List UInt8) :
    cstr (s ++ t) = cstr s := by
  have hne : (cstr s).length ≠ s.length := by
    intro hlen
    have heq : cstr s = s := (List.takeWhile_prefix _).eq_of_length hlen
    exact zero_notMem_cstr s (by rwa [heq])
  exact (List.takeWhile_append ..).trans (if_neg hne)

/-- The string ends in the first part of a buffer exactly when there is a NUL in that part. -/
theorem strlen_append_lt_iff {s t : List UInt8} :
    strlen (s ++ t) < s.length ↔ (0 : UInt8) ∈ s := by
  refine ⟨fun hlt => ?_, fun hs => ?_⟩
  · by_contra hs
    rw [strlen, cstr_append hs, List.length_append] at hlt
    omega
  · rw [strlen, cstr_append_of_mem hs]
    refine (List.takeWhile_prefix _).length_le.lt_of_ne fun hlen => ?_
    have heq : cstr s = s := (List.takeWhile_prefix _).eq_of_length hlen
    exact zero_notMem_cstr s (by rwa [heq])

/-- The C string of a buffer starts with that of a prefix. -/
theorem cstr_prefix_append (s t : List UInt8) : cstr s <+: cstr (s ++ t) := by
  by_cases hs : (0 : UInt8) ∈ s
  · rw [cstr_append_of_mem hs]
  · rw [cstr_append hs]
    exact (List.takeWhile_prefix _).trans (List.prefix_append ..)

/-- Padding a buffer with NULs does not change its C string. -/
theorem cstr_append_replicate (b : List UInt8) (n : Nat) :
    cstr (b ++ List.replicate n 0) = cstr b := by
  unfold cstr
  rw [List.takeWhile_append]
  split
  · next h =>
    have hpad : (List.replicate n (0 : UInt8)).takeWhile (· ≠ 0) = [] := by
      cases n <;> simp [List.replicate_succ]
    have hb : b.takeWhile (· ≠ 0) = b := (List.takeWhile_prefix _).eq_of_length h
    rw [hpad, hb, List.append_nil]
  · rfl

/-- A buffer starts with its C string. -/
theorem take_strlen (b : List UInt8) : b.take (strlen b) = cstr b :=
  (List.prefix_iff_eq_take.1 (List.takeWhile_prefix _)).symm

/-- The C string of a shorter buffer. -/
theorem cstr_take (b : List UInt8) (n : Nat) : cstr (b.take n) = (cstr b).take n :=
  List.take_takeWhile.symm

/-- A pointer into a C string points to the rest of that string. -/
theorem cstr_drop {b : List UInt8} {k : Nat} (h : k ≤ strlen b) :
    cstr (b.drop k) = (cstr b).drop k := by
  induction b generalizing k with
  | nil => simp [cstr]
  | cons x b ih =>
    cases k with
    | zero => rfl
    | succ k =>
      have hx : x ≠ 0 := by
        rintro rfl
        simp [strlen, cstr] at h
      have hcons : cstr (x :: b) = x :: cstr b := by simp [cstr, hx]
      rw [strlen, hcons, List.length_cons] at h
      rw [hcons, List.drop_succ_cons, List.drop_succ_cons]
      exact ih (Nat.le_of_succ_le_succ h)

/-- A NUL stored inside a C string cuts it there. -/
theorem cstr_set_zero {b : List UInt8} {i : Nat} (h : i < strlen b) :
    cstr (b.set i 0) = (cstr b).take i := by
  have hi : i < b.length := lt_of_lt_of_le h (strlen_le b)
  have hset : b.set i 0 = (cstr b).take i ++ 0 :: b.drop (i + 1) := by
    rw [List.set_eq_take_append_cons_drop, if_pos hi]
    rw [← take_strlen, List.take_take, min_eq_left h.le]
  rw [hset]
  exact cstr_append_zero (fun hm => zero_notMem_cstr b (List.mem_of_mem_take hm)) _

/-! ## Searching -/

section
variable {α : Type*} [BEq α] [LawfulBEq α] {pat l : List α} {i : Nat}

/-- `findSub` finds the first occurrence. -/
theorem findSub_eq_some_iff :
    findSub pat l = some i ↔
      i ≤ l.length ∧ pat <+: l.drop i ∧ ∀ j < i, ¬ pat <+: l.drop j := by
  unfold findSub
  rw [List.findIdx?_eq_some_iff_getElem]
  simp only [List.length_tails, List.getElem_tails, List.isPrefixOf_iff_prefix]
  constructor
  · rintro ⟨hi, hp, hmin⟩
    exact ⟨by omega, hp, fun j hj => hmin j hj⟩
  · rintro ⟨hi, hp, hmin⟩
    exact ⟨by omega, hp, fun j hj => hmin j hj⟩

/-- An occurrence of a nonempty pattern starts inside the list. -/
theorem findSub_lt_length (hpat : pat ≠ []) (h : findSub pat l = some i) : i < l.length := by
  obtain ⟨hi, hp, -⟩ := findSub_eq_some_iff.1 h
  have hlen := hp.length_le
  have hpos : 0 < pat.length := List.length_pos_of_ne_nil hpat
  rw [List.length_drop] at hlen
  omega

/-- The first occurrence of a single element: it stands there and not before. -/
theorem findSub_singleton_iff {c : α} :
    findSub [c] l = some i ↔ l[i]? = some c ∧ c ∉ l.take i := by
  have hhead (j : Nat) : [c] <+: l.drop j ↔ l[j]? = some c := by
    rw [List.prefix_iff_eq_take, List.length_singleton, List.take_one, List.head?_drop]
    cases l[j]? <;> simp [eq_comm]
  rw [findSub_eq_some_iff]
  simp only [hhead]
  constructor
  · rintro ⟨-, hi, hmin⟩
    refine ⟨hi, ?_⟩
    intro hmem
    obtain ⟨j, hj, hjc⟩ := List.mem_take_iff_getElem.1 hmem
    exact hmin j (by omega) (by rw [List.getElem?_eq_getElem (by omega), hjc])
  · rintro ⟨hi, hnot⟩
    have hlen : i < l.length := (List.getElem?_eq_some_iff.1 hi).1
    refine ⟨hlen.le, hi, fun j hj hjc => hnot ?_⟩
    obtain ⟨hjl, rfl⟩ := List.getElem?_eq_some_iff.1 hjc
    exact List.mem_take_iff_getElem.2 ⟨j, by omega, rfl⟩

/-- A pattern whose first element does not stand before it occurs there first. -/
theorem findSub_append {c : α} {pre post : List α} (h : c ∉ pre) :
    findSub (c :: pat) (pre ++ (c :: pat) ++ post) = some pre.length := by
  rw [findSub_eq_some_iff]
  refine ⟨by simp, by simp, fun j hj hp => h ?_⟩
  have hdrop : (pre ++ (c :: pat) ++ post).drop j = pre.drop j ++ (c :: pat) ++ post := by
    rw [List.append_assoc, List.drop_append_of_le_length hj.le, List.append_assoc]
  rw [hdrop, List.drop_eq_getElem_cons hj] at hp
  have hhead : c = pre[j] := (List.cons_prefix_cons.1 hp).1
  exact hhead ▸ List.getElem_mem hj

/-- A search in a shorter prefix finds what the search in the list finds, when all of it lies in the
prefix, and fails otherwise. -/
theorem findSub_take_iff {n : Nat} :
    findSub pat (l.take n) = some i ↔ findSub pat l = some i ∧ i + pat.length ≤ n := by
  rw [findSub_eq_some_iff, findSub_eq_some_iff]
  simp only [List.drop_take, List.prefix_take_iff, List.length_take]
  constructor
  · rintro ⟨hi, ⟨hp, hlen⟩, hmin⟩
    refine ⟨⟨by omega, hp, fun j hj hpj => hmin j hj ⟨hpj, by omega⟩⟩, by omega⟩
  · rintro ⟨⟨hi, hp, hmin⟩, hlen⟩
    exact ⟨by omega, ⟨hp, by omega⟩, fun j hj hpj => hmin j hj hpj.1⟩

/-- So does a search for a single element. -/
theorem findSub_singleton_take {c : α} {n : Nat} :
    findSub [c] (l.take n) = some i ↔ findSub [c] l = some i ∧ i < n :=
  findSub_take_iff

/-- What occurs in a prefix of a list is found there. -/
theorem findSub_append_left (h : findSub pat l = some i) (l' : List α) :
    findSub pat (l ++ l') = some i := by
  have htake : findSub pat ((l ++ l').take l.length) = some i := by rwa [List.take_left]
  exact (findSub_take_iff.1 htake).1

/-- A pattern that does not occur in what stands before an element that it does not contain is
found behind the element. -/
theorem findSub_append_cons {c : α} {post : List α} (hpat : pat ≠ []) (hc : c ∉ pat)
    (hnot : ¬ pat <:+: l) : findSub pat (l ++ c :: (pat ++ post)) = some (l.length + 1) := by
  have hdrop : (l ++ c :: (pat ++ post)).drop (l.length + 1) = pat ++ post := by
    rw [← List.drop_drop, List.drop_left]
    rfl
  refine findSub_eq_some_iff.2 ⟨by simp, ?_, ?_⟩
  · rw [hdrop]
    exact List.prefix_append _ _
  · intro j hj hpj
    -- an earlier occurrence lies before the element, or goes over it
    have hsplit : (l ++ c :: (pat ++ post)).drop j = l.drop j ++ c :: (pat ++ post) :=
      List.drop_append_of_le_length (Nat.le_of_lt_succ hj)
    rw [hsplit] at hpj
    have hover : l.drop j ++ [c] <+: l.drop j ++ c :: (pat ++ post) :=
      (List.prefix_append_right_inj _).2 (List.prefix_append [c] _)
    rcases List.prefix_or_prefix_of_prefix hpj hover with hle | hle
    · rcases List.prefix_concat_iff.1 hle with rfl | hpre
      · exact hc (List.mem_append_right _ (List.mem_singleton_self c))
      · exact hnot (hpre.isInfix.trans (List.drop_suffix j l).isInfix)
    · exact hc (hle.mem (List.mem_append_right _ (List.mem_singleton_self c)))

/-- A search succeeds exactly when the pattern occurs. -/
theorem findSub_isSome_iff : (findSub pat l).isSome ↔ pat <:+: l := by
  unfold findSub
  rw [List.findIdx?_isSome, List.any_eq_true, List.infix_iff_prefix_suffix]
  simp only [List.mem_tails, List.isPrefixOf_iff_prefix]
  exact exists_congr fun t => and_comm

omit [BEq α] [LawfulBEq α] in
/-- A pattern does not go over an element that it does not contain. -/
theorem infix_append_cons_iff {c : α} {ys : List α} (hpat : pat ≠ []) (hc : c ∉ pat) :
    pat <:+: l ++ c :: ys ↔ pat <:+: l ∨ pat <:+: ys := by
  have hhead {p : List α} (hne : p ≠ []) (hp : p <+: c :: ys) : c ∈ p := by
    obtain ⟨b, p, rfl⟩ := List.exists_cons_of_ne_nil hne
    rw [(List.cons_prefix_cons.1 hp).1]
    exact List.mem_cons_self
  rw [List.infix_append_iff_ne_nil, List.infix_cons_iff]
  constructor
  · rintro (h | (h | h) | ⟨l₁, l₂, -, hne, rfl, -, h⟩)
    · exact .inl h
    · exact absurd (hhead hpat h) hc
    · exact .inr h
    · exact absurd (List.mem_append_right _ (hhead hne h)) hc
  · rintro (h | h)
    · exact .inl h
    · exact .inr (.inl (.inr h))

end

/-! ## Stores -/

/-- A store that falls outside the array it goes to. -/
structure OutOfBounds where
  index : Nat
  deriving DecidableEq, Repr

section
variable {α : Type*} {n : Nat}

/-- `a[i] = x`. -/
def store (a : List.Vector α n) (i : Nat) (x : α) : Except OutOfBounds (List.Vector α n) :=
  if h : i < n then .ok (a.set ⟨i, h⟩ x) else .error ⟨i⟩

/-- `a[i] op= x`, where `f` is `op x`. -/
def update (a : List.Vector α n) (i : Nat) (f : α → α) : Except OutOfBounds (List.Vector α n) :=
  if h : i < n then .ok (a.set ⟨i, h⟩ (f (a.get ⟨i, h⟩))) else .error ⟨i⟩

/-- The loop that runs `j` through `idx` and does `dst[j] = src[j]`. -/
def copyAt [Inhabited α] (src : List α) (idx : List Nat) (dst : List.Vector α n) :
    Except OutOfBounds (List.Vector α n) :=
  idx.foldlM (fun a j => store a j (src.getD j default)) dst

/-- A store inside the array replaces one element. -/
theorem store_of_lt (a : List.Vector α n) {i : Nat} (h : i < n) (x : α) :
    ∃ a', store a i x = .ok a' ∧ a'.toList = a.toList.set i x :=
  ⟨_, dif_pos h, List.Vector.toList_set ..⟩

/-- A compound assignment inside the array modifies one element. -/
theorem update_of_lt (a : List.Vector α n) {i : Nat} (h : i < n) (f : α → α) :
    ∃ a', update a i f = .ok a' ∧ a'.toList = a.toList.modify i f := by
  refine ⟨_, dif_pos h, ?_⟩
  have hlen : i < a.toList.length := by rw [a.toList_length]; exact h
  have hget : a.get ⟨i, h⟩ = a.toList[i] := List.Vector.get_eq_get_toList ..
  rw [List.Vector.toList_set, hget, List.modify_eq_take_cons_drop hlen,
    List.set_eq_take_append_cons_drop, if_pos hlen]

/-- A copying loop is in bounds exactly when every index it visits is. -/
theorem copyAt_ok_iff [Inhabited α] (src : List α) (idx : List Nat) (dst : List.Vector α n) :
    (∃ a, copyAt src idx dst = .ok a) ↔ ∀ j ∈ idx, j < n := by
  induction idx generalizing dst with
  | nil => exact ⟨fun _ => nofun, fun _ => ⟨dst, rfl⟩⟩
  | cons j idx ih =>
    rw [List.forall_mem_cons, copyAt, List.foldlM_cons]
    by_cases hj : j < n
    · rw [store, dif_pos hj]
      exact (ih _).trans (by simp [hj])
    · rw [store, dif_neg hj]
      simp [hj, bind, Except.bind]

/-- A copying loop reads its source only up to its largest index. -/
theorem copyAt_congr [Inhabited α] {src src' : List α} {idx : List Nat} {k : Nat}
    (htake : src.take k = src'.take k) (hidx : ∀ j ∈ idx, j < k) (dst : List.Vector α n) :
    copyAt src idx dst = copyAt src' idx dst := by
  have hget (j : Nat) (hj : j < k) : src.getD j default = src'.getD j default := by
    have h := congrArg (fun l => l[j]?) htake
    simp only [List.getElem?_take, if_pos hj] at h
    rw [List.getD_eq_getElem?_getD, List.getD_eq_getElem?_getD, h]
  induction idx generalizing dst with
  | nil => rfl
  | cons j idx ih =>
    obtain ⟨hj, hidx⟩ := List.forall_mem_cons.1 hidx
    rw [copyAt, copyAt, List.foldlM_cons, List.foldlM_cons, hget j hj]
    exact bind_congr fun dst => ih hidx dst

/-- A copying loop over the first `k` indices, in bounds, replaces the first `k` elements. -/
theorem copyAt_range [Inhabited α] (src : List α) (dst : List.Vector α n) {k : Nat} (hk : k ≤ n)
    (hs : k ≤ src.length) :
    ∃ a, copyAt src (List.range k) dst = .ok a ∧ a.toList = src.take k ++ dst.toList.drop k := by
  induction k with
  | zero => exact ⟨dst, rfl, by simp⟩
  | succ k ih =>
    obtain ⟨a, ha, hal⟩ := ih (by omega) (by omega)
    refine ⟨a.set ⟨k, by omega⟩ (src.getD k default), ?_, ?_⟩
    · rw [copyAt, List.range_succ, List.foldlM_append]
      rw [copyAt] at ha
      rw [ha]
      simp [bind, Except.bind, store, show k < n by omega, pure, Except.pure]
    · have hlen : (src.take k).length = k := List.length_take_of_le (by omega)
      have hdst : k < dst.toList.length := by rw [dst.toList_length]; omega
      rw [List.Vector.toList_set, hal, List.set_append_right _ _ hlen.le, hlen, Nat.sub_self,
        List.drop_eq_getElem_cons hdst, List.set_cons_zero, List.getD_eq_getElem _ _ hs,
        ← List.take_append_getElem hs, List.append_assoc, List.singleton_append]

end

end CString

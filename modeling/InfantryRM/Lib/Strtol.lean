import Mathlib

/-!
# C `atoi` over a list of bytes

`atoi` skips white space, reads an optional sign and then the longest run of decimal digits
(`digitRun`), and saturates at the ends of a 32-bit `long`, as `strtol` in base 10 does. The scan
is bounded by the data alone: it goes on through whatever lies in memory after the characters the
caller wrote, until the first byte that is no digit. `atoi_digits_append` is the case in which that
byte comes right after the caller's digits, `le_atoi_digits_append` bounds the value from below
when it does not. Where the scan ends is `scanEnd`: either it stops inside the caller's characters,
and then the value depends on nothing else (`scanRest_append`, `atoi_append`), or it passes them all
and a digit that follows changes the value (`atoi_append_ne`).
-/

namespace Strtol

/-- C `isspace` in the C locale. -/
def isSpace (c : UInt8) : Bool := c == 32 || (9 ≤ c && c ≤ 13)

/-- C `isdigit`. -/
def isDigit (c : UInt8) : Bool := 48 ≤ c && c ≤ 57

/-- The longest run of digits at the start of a string. -/
def digitRun (s : List UInt8) : List UInt8 := s.takeWhile isDigit

/-- The number that a run of digits writes in base 10. -/
def digitsValue (ds : List UInt8) : Nat := ds.foldl (fun a c => 10 * a + (c.toNat - 48)) 0

/-- The largest value of a 32-bit `long`. -/
def longMax : Int := 2147483647

/-- The smallest value of a 32-bit `long`. -/
def longMin : Int := -2147483648

/-- What `strtol` computes after the white space: the sign, the digits, the saturation. -/
def signed : List UInt8 → Int
  | 43 :: s => min (digitsValue (digitRun s)) longMax
  | 45 :: s => max (-(digitsValue (digitRun s) : Int)) longMin
  | s => min (digitsValue (digitRun s)) longMax

/-- C `atoi`, which is `(int) strtol(s, NULL, 10)`; `int` and `long` both have 32 bits. -/
def atoi (s : List UInt8) : Int := signed (s.dropWhile isSpace)

/-! ## Runs of digits -/

/-- A digit is no white space. -/
theorem isSpace_of_isDigit {c : UInt8} (h : isDigit c = true) : isSpace c = false := by
  simp only [isDigit, Bool.and_eq_true, decide_eq_true_eq, UInt8.le_iff_toNat_le] at h
  simp only [isSpace, Bool.or_eq_false_iff, beq_eq_false_iff_ne, ne_eq, Bool.and_eq_false_iff,
    decide_eq_false_iff_not, UInt8.le_iff_toNat_le, ← UInt8.toNat_inj]
  have h48 : (48 : UInt8).toNat = 48 := rfl
  have h32 : (32 : UInt8).toNat = 32 := rfl
  have h13 : (13 : UInt8).toNat = 13 := rfl
  omega

/-- The run of digits goes through a prefix of digits. -/
theorem digitRun_append {ds : List UInt8} (hds : ∀ c ∈ ds, isDigit c = true) (t : List UInt8) :
    digitRun (ds ++ t) = ds ++ digitRun t :=
  List.takeWhile_append_of_pos hds

/-- A run of digits stops at a byte that is no digit. -/
theorem digitRun_eq_nil {t : List UInt8} (ht : ∀ c ∈ t.head?, isDigit c = false) :
    digitRun t = [] := by
  cases t with
  | nil => rfl
  | cons c t => simp [digitRun, ht c (by simp)]

/-- Digits that follow others shift them by one place each. -/
theorem digitsValue_append (ds es : List UInt8) :
    digitsValue (ds ++ es) = digitsValue ds * 10 ^ es.length + digitsValue es := by
  induction es using List.reverseRecOn with
  | nil => simp [digitsValue]
  | append_singleton es c ih =>
    have hsnoc (xs : List UInt8) :
        digitsValue (xs ++ [c]) = 10 * digitsValue xs + (c.toNat - 48) := by
      simp [digitsValue]
    rw [← List.append_assoc, hsnoc, hsnoc, ih, List.length_append, List.length_singleton,
      Nat.pow_succ]
    ring

/-- A run of digits has a value below the power of ten of its length. -/
theorem digitsValue_lt {ds : List UInt8} (hds : ∀ c ∈ ds, isDigit c = true) :
    digitsValue ds < 10 ^ ds.length := by
  induction ds using List.reverseRecOn with
  | nil => decide
  | append_singleton ds c ih =>
    have hinit := ih fun b hb => hds b (by simp [hb])
    have hc : c.toNat ≤ 57 := by
      have hlast := hds c (by simp)
      simp only [isDigit, Bool.and_eq_true, decide_eq_true_eq, UInt8.le_iff_toNat_le] at hlast
      exact hlast.2
    have hone : digitsValue [c] = c.toNat - 48 := by simp [digitsValue]
    rw [digitsValue_append, hone, List.length_append, List.length_singleton, Nat.pow_succ]
    omega

/-! ## Values -/

/-- A string that starts with a digit has neither white space nor a sign to skip. -/
theorem atoi_of_isDigit {d : UInt8} (hd : isDigit d = true) (s : List UInt8) :
    atoi (d :: s) = min (digitsValue (digitRun (d :: s)) : Int) longMax := by
  have hdrop : (d :: s).dropWhile isSpace = d :: s := by simp [isSpace_of_isDigit hd]
  rw [atoi, hdrop]
  unfold signed
  split
  · next heq => cases heq; cases hd
  · next heq => cases heq; cases hd
  · rfl

/-- Digits followed by a byte that is no digit have their own value. -/
theorem atoi_digits_append {ds t : List UInt8} (hne : ds ≠ []) (hds : ∀ c ∈ ds, isDigit c = true)
    (ht : ∀ c ∈ t.head?, isDigit c = false) (hmax : (digitsValue ds : Int) ≤ longMax) :
    atoi (ds ++ t) = digitsValue ds := by
  cases ds with
  | nil => exact absurd rfl hne
  | cons d ds =>
    rw [List.cons_append, atoi_of_isDigit (hds d (by simp)), ← List.cons_append,
      digitRun_append hds, digitRun_eq_nil ht, List.append_nil, min_eq_left hmax]

/-- Digits followed by a further digit have at least ten times their value, up to saturation. -/
theorem le_atoi_digits_append {ds t : List UInt8} {e : UInt8} (hne : ds ≠ [])
    (hds : ∀ c ∈ ds, isDigit c = true) (he : isDigit e = true) :
    min (10 * digitsValue ds : Int) longMax ≤ atoi (ds ++ e :: t) := by
  cases ds with
  | nil => exact absurd rfl hne
  | cons d ds =>
    rw [List.cons_append, atoi_of_isDigit (hds d (by simp)), ← List.cons_append,
      digitRun_append hds]
    refine min_le_min_right _ ?_
    have hpow : 10 ≤ 10 ^ (digitRun (e :: t)).length := by
      have hrun : digitRun (e :: t) = e :: digitRun t := by simp [digitRun, he]
      rw [hrun, List.length_cons, Nat.pow_succ]
      exact Nat.le_mul_of_pos_left 10 (Nat.pow_pos (by decide))
    have hmul := Nat.mul_le_mul_left (digitsValue (d :: ds)) hpow
    rw [digitsValue_append]
    omega

/-! ## Where the scan ends -/

/-- What follows an optional sign. -/
def afterSign : List UInt8 → List UInt8
  | 43 :: s => s
  | 45 :: s => s
  | s => s

/-- What lies behind the white space, the sign and the digits that `atoi` passes. -/
def scanRest (s : List UInt8) : List UInt8 := (afterSign (s.dropWhile isSpace)).dropWhile isDigit

/-- The index of the last byte that `atoi` reads, the one that ends its scan. -/
def scanEnd (s : List UInt8) : Nat := s.length - (scanRest s).length

/-- A sign is at most one byte long. -/
theorem length_afterSign_le (u : List UInt8) : (afterSign u).length ≤ u.length := by
  unfold afterSign
  split <;> simp

/-- What follows the white space is empty, or starts with a sign or with something else. -/
theorem sign_cases (u : List UInt8) :
    u = [] ∨ (∃ v, u = 43 :: v) ∨ (∃ v, u = 45 :: v) ∨ ∃ c v, u = c :: v ∧ c ≠ 43 ∧ c ≠ 45 := by
  cases u with
  | nil => exact .inl rfl
  | cons c v =>
    rcases eq_or_ne c 43 with rfl | h43
    · exact .inr (.inl ⟨v, rfl⟩)
    rcases eq_or_ne c 45 with rfl | h45
    · exact .inr (.inr (.inl ⟨v, rfl⟩))
    · exact .inr (.inr (.inr ⟨c, v, rfl, h43, h45⟩))

/-- The sign stands in front of whatever follows. -/
theorem afterSign_append {u : List UInt8} (hu : u ≠ []) (t : List UInt8) :
    afterSign (u ++ t) = afterSign u ++ t := by
  rcases sign_cases u with rfl | ⟨v, rfl⟩ | ⟨v, rfl⟩ | ⟨c, v, rfl, h43, h45⟩
  · exact absurd rfl hu
  · rfl
  · rfl
  · simp [afterSign, h43, h45]

/-- The value is that of the digits behind the sign. -/
theorem signed_eq (u : List UInt8) :
    signed u = if u.head? = some 45 then max (-(digitsValue (digitRun (afterSign u)) : Int)) longMin
      else min (digitsValue (digitRun (afterSign u)) : Int) longMax := by
  rcases sign_cases u with rfl | ⟨v, rfl⟩ | ⟨v, rfl⟩ | ⟨c, v, rfl, h43, h45⟩
  · rfl
  · rfl
  · rfl
  · simp [signed, afterSign, h43, h45]

section
variable {s : List UInt8}

/-- A string of white space is passed as a whole. -/
theorem dropWhile_isSpace_ne_nil (h : scanRest s ≠ []) : s.dropWhile isSpace ≠ [] := by
  intro hnil
  rw [scanRest, hnil] at h
  exact h rfl

/-- A scan that stops inside a string stops there whatever follows the string. -/
theorem scanRest_append (h : scanRest s ≠ []) (t : List UInt8) :
    scanRest (s ++ t) = scanRest s ++ t := by
  have hu := dropWhile_isSpace_ne_nil h
  rw [scanRest, List.dropWhile_append, if_neg (by simpa using hu), afterSign_append hu,
    List.dropWhile_append, ← scanRest, if_neg (by simpa using h)]

/-- Nor does its value depend on what follows. -/
theorem atoi_append (h : scanRest s ≠ []) (t : List UInt8) : atoi (s ++ t) = atoi s := by
  have hu := dropWhile_isSpace_ne_nil h
  have hrun : digitRun (afterSign (s.dropWhile isSpace) ++ t) =
      digitRun (afterSign (s.dropWhile isSpace)) := by
    unfold digitRun
    rw [List.takeWhile_append, if_neg]
    intro hlen
    have hsplit := congrArg List.length
      (List.takeWhile_append_dropWhile (p := isDigit) (l := afterSign (s.dropWhile isSpace)))
    rw [List.length_append, hlen, ← scanRest] at hsplit
    exact h (List.length_eq_zero_iff.1 (by omega))
  rw [atoi, atoi, List.dropWhile_append, if_neg (by simpa using hu), signed_eq, signed_eq,
    afterSign_append hu, hrun, List.head?_append_of_ne_nil _ hu]

/-- Then a digit that follows a short string changes the value. -/
theorem atoi_append_ne (h : scanRest s = []) (hlen : s.length ≤ 9) :
    atoi (s ++ [49]) ≠ atoi s := by
  by_cases hu : s.dropWhile isSpace = []
  · rw [atoi, atoi, List.dropWhile_append, if_pos (by simpa using hu), hu]
    decide
  · have hdig := List.dropWhile_eq_nil_iff.1 h
    have hshort : (afterSign (s.dropWhile isSpace)).length ≤ 9 :=
      ((length_afterSign_le _).trans (List.dropWhile_suffix _).length_le).trans hlen
    have hlt := (digitsValue_lt hdig).trans_le (Nat.pow_le_pow_right (by decide) hshort)
    have hall : digitRun (afterSign (s.dropWhile isSpace)) = afterSign (s.dropWhile isSpace) :=
      List.takeWhile_eq_self_iff.2 hdig
    have hval : digitsValue (digitRun (afterSign (s.dropWhile isSpace) ++ [49])) =
        digitsValue (afterSign (s.dropWhile isSpace)) * 10 + 1 := by
      rw [digitRun_append hdig, digitsValue_append]
      rfl
    rw [atoi, atoi, List.dropWhile_append, if_neg (by simpa using hu), signed_eq, signed_eq,
      afterSign_append hu, hval, hall, List.head?_append_of_ne_nil _ hu, longMin, longMax]
    split <;> omega

end

end Strtol

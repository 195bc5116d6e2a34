import Mathlib

/-!
# Saturating counters

A counter that is moved by steps and stays in a range: a step that would leave the range ends at
its border (`step`). A run of steps is exact as long as no beginning of it would leave the range
(`foldl_step_of_inside`), and steps in one direction that are at least as long as the range together
end at its border, wherever they start (`foldl_step_eq_high`, `foldl_step_eq_low`).
-/

namespace Saturating

section
variable {α : Type*} [LinearOrder α] {lo hi a : α}

/-- The value of the range that is nearest to `a`. -/
def clamp (lo hi a : α) : α := max lo (min a hi)

theorem le_clamp (lo hi a : α) : lo ≤ clamp lo hi a := le_max_left _ _

theorem clamp_le (h : lo ≤ hi) (a : α) : clamp lo hi a ≤ hi := max_le h (min_le_right _ _)

/-- A value of the range stays. -/
theorem clamp_of_mem (hlo : lo ≤ a) (hhi : a ≤ hi) : clamp lo hi a = a := by
  rw [clamp, min_eq_left hhi, max_eq_right hlo]

/-- A value above the range ends at its upper border, one below it at the lower one. -/
theorem clamp_of_ge (h : lo ≤ hi) (hhi : hi ≤ a) : clamp lo hi a = hi := by
  rw [clamp, min_eq_right hhi, max_eq_right h]

theorem clamp_of_le (h : a ≤ lo) : clamp lo hi a = lo :=
  max_eq_left ((min_le_left _ _).trans h)

end

section
variable {α : Type*} [AddCommGroup α] [LinearOrder α] {lo hi a : α} {ds : List α}

/-- The counter after a step. -/
def step (lo hi a d : α) : α := clamp lo hi (a + d)

/-- **No saturation.** When every beginning of the steps ends in the range, the counter moves by
their sum. -/
theorem foldl_step_of_inside
    (h : ∀ ds', ds' <+: ds → lo ≤ a + ds'.sum ∧ a + ds'.sum ≤ hi) :
    ds.foldl (step lo hi) a = a + ds.sum := by
  induction ds using List.reverseRecOn with
  | nil => rw [List.foldl_nil, List.sum_nil, add_zero]
  | append_singleton ds d ih =>
    obtain ⟨hlo, hhi⟩ := h _ (List.prefix_refl _)
    rw [List.foldl_concat, ih fun ds' hds => h ds' (hds.trans (List.prefix_append _ _))]
    rw [List.sum_append, List.sum_singleton, ← add_assoc] at hlo hhi ⊢
    exact clamp_of_mem hlo hhi

variable [IsOrderedAddMonoid α]

/-- **Saturation, upwards.** Steps upwards that are as long as the rest of the range end at its
upper border. -/
theorem foldl_step_eq_high (hlo : lo ≤ a) (hhi : a ≤ hi) (hds : ∀ d ∈ ds, 0 ≤ d)
    (hsum : hi ≤ a + ds.sum) : ds.foldl (step lo hi) a = hi := by
  induction ds generalizing a with
  | nil =>
    rw [List.sum_nil, add_zero] at hsum
    exact le_antisymm hhi hsum
  | cons d ds ih =>
    obtain ⟨hd, hds⟩ := List.forall_mem_cons.1 hds
    have hrange := hlo.trans hhi
    rw [List.foldl_cons]
    refine ih (le_clamp _ _ _) (clamp_le hrange _) hds ?_
    have hrest : 0 ≤ ds.sum := List.sum_nonneg hds
    rcases le_total (a + d) hi with hle | hge
    · rw [step, clamp_of_mem (hlo.trans (le_add_of_nonneg_right hd)) hle, add_assoc,
        ← List.sum_cons]
      exact hsum
    · rw [step, clamp_of_ge hrange hge]
      exact le_add_of_nonneg_right hrest

/-- **Saturation, downwards.** -/
theorem foldl_step_eq_low (hlo : lo ≤ a) (hhi : a ≤ hi) (hds : ∀ d ∈ ds, d ≤ 0)
    (hsum : a + ds.sum ≤ lo) : ds.foldl (step lo hi) a = lo := by
  induction ds generalizing a with
  | nil =>
    rw [List.sum_nil, add_zero] at hsum
    exact le_antisymm hsum hlo
  | cons d ds ih =>
    obtain ⟨hd, hds⟩ := List.forall_mem_cons.1 hds
    have hrange := hlo.trans hhi
    rw [List.foldl_cons]
    refine ih (le_clamp _ _ _) (clamp_le hrange _) hds ?_
    have hrest : ds.sum ≤ 0 := by
      have hcard := List.sum_le_card_nsmul ds 0 hds
      rwa [smul_zero] at hcard
    rcases le_total lo (a + d) with hge | hle
    · rw [step, clamp_of_mem hge ((add_le_of_nonpos_right hd).trans hhi), add_assoc,
        ← List.sum_cons]
      exact hsum
    · rw [step, clamp_of_le hle]
      exact add_le_of_nonpos_right hrest

end

end Saturating

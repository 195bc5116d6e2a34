import Mathlib

/-!
# Parts that do not interfere

A state is read through a family of views, and an event touches some of them. A step function
separates the views when what an event makes of a view depends on that view alone, and is nothing
for a view that it does not touch (`Separates`). Then the events that do not touch a view can be
removed from a run without changing it (`Separates.view_foldl_filter`), and two neighbours that
touch no common view can be swapped, provided the views show the whole state
(`Separates.foldl_swap`).
-/

namespace Interference

variable {σ ε ι ρ : Type*} {step : σ → ε → σ} {view : σ → ι → ρ} {touches : ε → ι → Prop}

/-- The views of a state evolve independently of each other. -/
structure Separates (step : σ → ε → σ) (view : σ → ι → ρ) (touches : ε → ι → Prop) : Prop where
  congr : ∀ {s t i} e, view s i = view t i → view (step s e) i = view (step t e) i
  frame : ∀ {e i} s, ¬ touches e i → view (step s e) i = view s i

namespace Separates

/-- A run makes the same of a view in any two states that agree on it. -/
theorem foldl_congr (h : Separates step view touches) {s t : σ} {i : ι}
    (hst : view s i = view t i) (es : List ε) :
    view (es.foldl step s) i = view (es.foldl step t) i := by
  induction es generalizing s t with
  | nil => exact hst
  | cons e es ih => exact ih (h.congr e hst)

/-- **Purging.** The events that do not touch a view can be removed from a run; the filter keeps at
least those that do. -/
theorem view_foldl_filter (h : Separates step view touches) {i : ι} {keep : ε → Bool}
    (hkeep : ∀ e, touches e i → keep e = true) (s : σ) (es : List ε) :
    view (es.foldl step s) i = view ((es.filter keep).foldl step s) i := by
  induction es generalizing s with
  | nil => rfl
  | cons e es ih =>
    by_cases he : keep e = true
    · rw [List.filter_cons_of_pos he, List.foldl_cons, List.foldl_cons]
      exact ih _
    · have hsilent : view (step s e) i = view s i := h.frame s fun ht => he (hkeep e ht)
      rw [List.filter_cons_of_neg he, List.foldl_cons, h.foldl_congr hsilent]
      exact ih s

/-- Two events that touch no common view have the same effect in either order. -/
theorem comm (h : Separates step view touches) (hview : ∀ s t, view s = view t → s = t) {e e' : ε}
    (hne : ∀ i, touches e i → ¬ touches e' i) (s : σ) :
    step (step s e) e' = step (step s e') e := by
  refine hview _ _ (funext fun i => ?_)
  by_cases he : touches e i
  · rw [h.frame _ (hne i he)]
    exact h.congr e (h.frame s (hne i he)).symm
  · rw [h.frame (step s e') he]
    exact h.congr e' (h.frame s he)

/-- **Swapping.** In a run two neighbours that touch no common view can be swapped. -/
theorem foldl_swap (h : Separates step view touches) (hview : ∀ s t, view s = view t → s = t)
    {e e' : ε} (hne : ∀ i, touches e i → ¬ touches e' i) (s : σ) (es es' : List ε) :
    (es ++ e :: e' :: es').foldl step s = (es ++ e' :: e :: es').foldl step s := by
  simp only [List.foldl_append, List.foldl_cons]
  rw [h.comm hview hne]

end Separates

end Interference

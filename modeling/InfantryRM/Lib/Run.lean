import Mathlib

/-!
# Runs of step functions

Two kinds of step function and what a run of each preserves. A partial step function `σ → ℓ →
Option σ` takes a labelled step when it is enabled; `exec` is its run over a list of labels,
`Reachable` has the induction rule for invariants (`Reachable.invariant`) and the rule for a
simulation that may stutter (`Reachable.simulate`, and `exec_simulate` with the labels),
`exec_outputs` is the rule for a log, and `exists_not_enabled` is the one for termination, by a rank
that all but finitely many steps lower. A total step function `σ → ε → σ` handles one event; its run
is `List.foldl`, and the rules are for a part of the state that events overwrite or leave alone: a
register (`foldl_register`), a frame (`foldl_frame`) and a property that some events establish and
no event destroys (`foldl_latch`). A procedure is a fixed list of events that may start over from
the middle (`Underway`).
-/

namespace Run

/-! ## Partial steps -/

section
variable {σ τ ℓ κ : Type*} {step : σ → ℓ → Option σ} {step' : τ → κ → Option τ} {s s₀ t : σ}

/-- The run of a partial step function over a list of labels, if every step is enabled. -/
def exec (step : σ → ℓ → Option σ) (s : σ) (ls : List ℓ) : Option σ := ls.foldlM step s

/-- The states that some run from `s₀` ends in. -/
def Reachable (step : σ → ℓ → Option σ) (s₀ s : σ) : Prop := ∃ ls, exec step s₀ ls = some s

/-- A run over two lists of labels is a run from where the first one ends. -/
theorem exec_append (ls ls' : List ℓ) :
    exec step s (ls ++ ls') = (exec step s ls).bind fun t => exec step t ls' :=
  List.foldlM_append ..

/-- The run of one more label is a run and a step. -/
theorem exec_append_singleton {ls : List ℓ} {l : ℓ} :
    exec step s (ls ++ [l]) = some t ↔ ∃ u, exec step s ls = some u ∧ step u l = some t := by
  simp [exec, List.foldlM_append, Option.bind_eq_some_iff]

/-- A run whose steps are all enabled ends in a state. -/
theorem exec_eq_getD {ls : List ℓ} (h : (exec step s ls).isSome) :
    exec step s ls = some ((exec step s ls).getD s) := by
  obtain ⟨t, ht⟩ := Option.isSome_iff_exists.1 h
  rw [ht, Option.getD_some]

/-- The initial state is reachable. -/
theorem Reachable.refl : Reachable step s₀ s₀ := ⟨[], rfl⟩

/-- A step leads from a reachable state to a reachable state. -/
theorem Reachable.tail {l : ℓ} (h : Reachable step s₀ s) (hst : step s l = some t) :
    Reachable step s₀ t := by
  obtain ⟨ls, hls⟩ := h
  exact ⟨ls ++ [l], exec_append_singleton.2 ⟨s, hls, hst⟩⟩

/-- A run from a reachable state ends in a reachable state. -/
theorem Reachable.trans (h : Reachable step s₀ s) (h' : Reachable step s t) :
    Reachable step s₀ t := by
  obtain ⟨ls, hls⟩ := h
  obtain ⟨ls', hls'⟩ := h'
  refine ⟨ls ++ ls', ?_⟩
  rw [exec_append, hls, Option.bind_some, hls']

/-- Induction over a run, with the labels so far. -/
theorem exec_rec_on {P : List ℓ → σ → Prop} {ls : List ℓ} (h : exec step s₀ ls = some s)
    (h0 : P [] s₀)
    (hstep : ∀ ls s l t, exec step s₀ ls = some s → P ls s → step s l = some t → P (ls ++ [l]) t) :
    P ls s := by
  induction ls using List.reverseRecOn generalizing s with
  | nil => cases h; exact h0
  | append_singleton ls l ih =>
    obtain ⟨u, hu, hul⟩ := exec_append_singleton.1 h
    exact hstep ls u l s hu (ih hu) hul

/-- Induction over the steps of a run. -/
theorem Reachable.rec_on {P : σ → Prop} (h : Reachable step s₀ s) (h0 : P s₀)
    (hstep : ∀ s l t, Reachable step s₀ s → P s → step s l = some t → P t) : P s := by
  obtain ⟨ls, hls⟩ := h
  exact exec_rec_on (P := fun _ s => P s) hls h0 fun ls s l t hs => hstep s l t ⟨ls, hs⟩

/-- **Invariants.** What holds initially and is preserved by every step holds in every reachable
state. -/
theorem Reachable.invariant {P : σ → Prop} (h : Reachable step s₀ s) (h0 : P s₀)
    (hstep : ∀ s l t, P s → step s l = some t → P t) : P s :=
  h.rec_on h0 fun s l t _ => hstep s l t

/-- **Simulation.** When every step is matched by a step or by nothing under the map `f`, reachable
states are mapped to reachable states. -/
theorem Reachable.simulate (f : σ → τ) (h : Reachable step s₀ s)
    (hsim : ∀ s l t, Reachable step s₀ s → step s l = some t →
      f t = f s ∨ ∃ k, step' (f s) k = some (f t)) : Reachable step' (f s₀) (f s) := by
  refine h.rec_on (P := fun s => Reachable step' (f s₀) (f s)) .refl ?_
  intro s l t hs ih hst
  rcases hsim s l t hs hst with heq | ⟨k, hk⟩
  · rwa [heq]
  · exact ih.tail hk

/-- What the steps of a run put out, in order. -/
def outputs (step : σ → ℓ → Option σ) (out : σ → ℓ → Option κ) : σ → List ℓ → List κ
  | _, [] => []
  | s, l :: ls => (out s l).toList ++ (step s l).elim [] fun t => outputs step out t ls

/-- **Logs.** A part of the state to which every step appends its output holds the outputs of the
run. -/
theorem exec_outputs (log : σ → List κ) {out : σ → ℓ → Option κ}
    (hlog : ∀ s l t, Reachable step s₀ s → step s l = some t → log t = log s ++ (out s l).toList)
    {ls : List ℓ} (h : Reachable step s₀ s) (hexec : exec step s ls = some t) :
    log t = log s ++ outputs step out s ls := by
  induction ls generalizing s with
  | nil => cases hexec; exact (List.append_nil _).symm
  | cons l ls ih =>
    obtain ⟨u, hu, hrest⟩ := Option.bind_eq_some_iff.1 hexec
    rw [ih (h.tail hu) hrest, hlog s l u h hu, outputs, hu, Option.elim_some, List.append_assoc]

/-- The outputs of one more step stand behind those of the run. -/
theorem outputs_append_singleton {out : σ → ℓ → Option κ} {ls : List ℓ} {l : ℓ}
    (hexec : exec step s ls = some t) :
    outputs step out s (ls ++ [l]) = outputs step out s ls ++ (out t l).toList := by
  induction ls generalizing s with
  | nil =>
    cases hexec
    cases h : step t l <;> simp [outputs, h]
  | cons k ls ih =>
    obtain ⟨u, hu, hrest⟩ := Option.bind_eq_some_iff.1 hexec
    rw [List.cons_append, outputs, outputs, hu, Option.elim_some, Option.elim_some, ih hrest,
      List.append_assoc]

/-- An output that the label alone decides stands in the log exactly when such a label stands in the
run. -/
theorem mem_outputs_iff {out : σ → ℓ → Option κ} {k : κ} {Q : ℓ → Prop}
    (hout : ∀ s l t, step s l = some t → (out s l = some k ↔ Q l)) {ls : List ℓ}
    (hexec : exec step s ls = some t) : k ∈ outputs step out s ls ↔ ∃ l ∈ ls, Q l := by
  induction ls generalizing s with
  | nil => simp [outputs]
  | cons l ls ih =>
    obtain ⟨u, hu, hrest⟩ := Option.bind_eq_some_iff.1 hexec
    rw [outputs, hu, Option.elim_some, List.mem_append, Option.mem_toList, hout s l u hu,
      ih hrest, List.exists_mem_cons_iff]

/-- The steps of a run: the state before each of them, and its label. -/
def steps (step : σ → ℓ → Option σ) (s : σ) (ls : List ℓ) : List (σ × ℓ) :=
  outputs step (fun s l => some (s, l)) s ls

theorem steps_append_singleton {ls : List ℓ} {l : ℓ} (hexec : exec step s ls = some t) :
    steps step s (ls ++ [l]) = steps step s ls ++ [(t, l)] :=
  outputs_append_singleton hexec

/-- The labels of the steps of a run are those of the run. -/
theorem mem_of_mem_steps {ls : List ℓ} {x : σ × ℓ} (hx : x ∈ steps step s ls) : x.2 ∈ ls := by
  induction ls generalizing s with
  | nil => cases hx
  | cons l ls ih =>
    rcases List.mem_cons.1 hx with rfl | hx
    · exact List.mem_cons_self
    · cases hst : step s l with
      | none => rw [hst] at hx; cases hx
      | some t => rw [hst] at hx; exact List.mem_cons_of_mem l (ih hx)

/-- The steps of a run over two lists of labels. -/
theorem steps_append {ls ls' : List ℓ} (hexec : exec step s ls = some t) :
    steps step s (ls ++ ls') = steps step s ls ++ steps step t ls' := by
  induction ls generalizing s with
  | nil => cases hexec; rfl
  | cons l ls ih =>
    obtain ⟨u, hu, hrest⟩ := Option.bind_eq_some_iff.1 hexec
    have htail := ih hrest
    unfold steps at htail ⊢
    rw [List.cons_append, outputs, outputs, hu, Option.elim_some, Option.elim_some, htail,
      List.append_assoc]

/-- The outputs of the beginning of a run come first. -/
theorem outputs_subset {out : σ → ℓ → Option κ} {ls ls' : List ℓ} (h : ls <+: ls') :
    outputs step out s ls ⊆ outputs step out s ls' := by
  obtain ⟨rest, rfl⟩ := h
  induction ls generalizing s with
  | nil => exact List.nil_subset _
  | cons l ls ih =>
    refine List.append_subset.2 ⟨List.subset_append_left _ _, ?_⟩
    refine List.Subset.trans ?_ (List.subset_append_right _ _)
    cases step s l with
    | none => exact List.nil_subset _
    | some u => exact ih

/-- **Simulation, with the labels.** When every step is matched by the step of its output, or by
nothing when it has none, the outputs of a run are a run between the images. -/
theorem exec_simulate (f : σ → τ) (out : σ → ℓ → Option κ)
    (hsim : ∀ s l t, Reachable step s₀ s → step s l = some t →
      (out s l).elim (f t = f s) fun k => step' (f s) k = some (f t))
    {ls : List ℓ} (hexec : exec step s₀ ls = some s) :
    exec step' (f s₀) (outputs step out s₀ ls) = some (f s) := by
  refine exec_rec_on (P := fun ls s => exec step' (f s₀) (outputs step out s₀ ls) = some (f s))
    hexec rfl fun ls s l t hs ih hst => ?_
  have hmatch := hsim s l t ⟨ls, hs⟩ hst
  rw [outputs_append_singleton hs]
  cases hout : out s l with
  | some k =>
    rw [hout] at hmatch
    exact exec_append_singleton.2 ⟨f s, ih, hmatch⟩
  | none =>
    rw [hout] at hmatch
    rw [Option.toList_none, List.append_nil, ih, hmatch]

end

/-! ## Termination -/

section
variable {σ ℓ : Type*} {step : σ → ℓ → Option σ} {s s₀ : σ} {rank : σ → ℕ} {idle : ℓ → Prop}
  [DecidablePred idle]

/-- **Potentials.** When every step lowers the rank, except that labels of one kind may raise it by
less than `n`, a run has at most `n` steps for each of these labels, and as many as the rank of its
first state allows. -/
theorem exec_length_le_mul {n : ℕ}
    (h : ∀ s l t, Reachable step s₀ s → step s l = some t →
      rank t + 1 ≤ rank s + if idle l then n else 0)
    {ls : List ℓ} (hexec : exec step s₀ ls = some s) :
    ls.length + rank s ≤ rank s₀ + n * ls.countP idle := by
  refine exec_rec_on (P := fun ls s => ls.length + rank s ≤ rank s₀ + n * ls.countP idle) hexec
    (by simp) fun ls s l t hs ih hst => ?_
  have hrank := h s l t ⟨ls, hs⟩ hst
  rw [List.length_append, List.countP_append, List.length_singleton, List.countP_singleton, mul_add]
  by_cases hidle : idle l
  · rw [if_pos hidle] at hrank
    rw [if_pos (decide_eq_true hidle)]
    omega
  · rw [if_neg hidle] at hrank
    rw [if_neg (by simpa using hidle)]
    omega

/-- **Ranks.** When no step raises the rank and every step lowers it whose label is not idle, a run
has at most as many labels as the rank of its first state and its own idle labels allow. -/
theorem exec_length_le
    (hle : ∀ s l t, Reachable step s₀ s → step s l = some t → rank t ≤ rank s)
    (hlt : ∀ s l t, Reachable step s₀ s → step s l = some t → ¬ idle l → rank t < rank s)
    {ls : List ℓ} (hexec : exec step s₀ ls = some s) :
    ls.length + rank s ≤ rank s₀ + ls.countP idle := by
  rw [← one_mul (ls.countP idle)]
  refine exec_length_le_mul (fun s l t hs hst => ?_) hexec
  split
  · have hrank := hle s l t hs hst
    omega
  · next hidle => exact hlt s l t hs hst hidle

omit [DecidablePred idle] in
/-- **Costs.** When every step between states with a property lowers the potential, by at least one
if its label is costly, a run that stays within the property has at most as many costly labels as
the potential falls by. -/
theorem exec_countP_le {P : σ → Prop} {costly : ℓ → Prop} [DecidablePred costly]
    (h : ∀ s l t, Reachable step s₀ s → P s → P t → step s l = some t →
      rank t + (if costly l then 1 else 0) ≤ rank s)
    (hs : Reachable step s₀ s) {ls : List ℓ} {t : σ} (hexec : exec step s ls = some t)
    (hP : ∀ ls' u, ls' <+: ls → exec step s ls' = some u → P u) :
    ls.countP costly + rank t ≤ rank s := by
  induction ls generalizing s with
  | nil => cases hexec; exact (Nat.zero_add _).le
  | cons l ls ih =>
    obtain ⟨u, hu, hrest⟩ := Option.bind_eq_some_iff.1 hexec
    have hfirst : exec step s [l] = some u := by rw [exec, List.foldlM_cons, hu]; rfl
    have hPs : P s := hP [] s List.nil_prefix rfl
    have hPu : P u := hP [l] u ((List.prefix_cons_inj l).2 List.nil_prefix) hfirst
    have hstep := h s l u hs hPs hPu hu
    have htail := ih (hs.tail hu) hrest fun ls' v hle hv => by
      refine hP (l :: ls') v ((List.prefix_cons_inj l).2 hle) ?_
      rw [exec, List.foldlM_cons, hu]
      exact hv
    by_cases hc : costly l
    · rw [if_pos hc] at hstep
      rw [List.countP_cons_of_pos (by simpa using hc)]
      omega
    · rw [if_neg hc] at hstep
      rw [List.countP_cons_of_neg (by simpa using hc)]
      omega

omit [DecidablePred idle] in
/-- **Draining.** When every step lowers the rank whose label is not idle, some run without idle
labels ends in a state in which no other label is enabled. -/
theorem exists_exec_stuck
    (hlt : ∀ s l t, Reachable step s₀ s → step s l = some t → ¬ idle l → rank t < rank s)
    (hs : Reachable step s₀ s) :
    ∃ ls t, exec step s ls = some t ∧ (∀ l ∈ ls, ¬ idle l) ∧ ∀ l, ¬ idle l → step t l = none := by
  induction hn : rank s using Nat.strong_induction_on generalizing s with
  | _ n ih =>
    by_cases hstuck : ∀ l, ¬ idle l → step s l = none
    · exact ⟨[], s, rfl, nofun, hstuck⟩
    · push Not at hstuck
      obtain ⟨l, hl, hne⟩ := hstuck
      obtain ⟨t, hst⟩ := Option.ne_none_iff_exists'.1 hne
      obtain ⟨ls, u, hexec, hls, hu⟩ := ih (rank t) (hn ▸ hlt s l t hs hst hl) (hs.tail hst) rfl
      refine ⟨l :: ls, u, ?_, ?_, hu⟩
      · rw [exec, List.foldlM_cons, hst]
        exact hexec
      · exact List.forall_mem_cons.2 ⟨hl, hls⟩

/-- Of a stream with finitely many idle labels, no beginning has more of them. -/
theorem countP_range_le {rs : ℕ → ℓ} (hfin : {n | idle (rs n)}.Finite) (n : ℕ) :
    ((List.range n).map rs).countP idle ≤ hfin.toFinset.card := by
  have hnodup : ((List.range n).filter fun k => idle (rs k)).Nodup := List.nodup_range.filter _
  rw [List.countP_map, List.countP_eq_length_filter]
  refine (List.toFinset_card_of_nodup hnodup).ge.trans (Finset.card_le_card ?_)
  intro k hk
  simp only [List.mem_toFinset, List.mem_filter, decide_eq_true_eq] at hk
  exact hfin.mem_toFinset.2 hk.2

/-- **Termination.** A run over a stream of labels, of which finitely many are idle, reaches a state
in which the next label is not enabled. -/
theorem exists_not_enabled
    (hle : ∀ s l t, Reachable step s₀ s → step s l = some t → rank t ≤ rank s)
    (hlt : ∀ s l t, Reachable step s₀ s → step s l = some t → ¬ idle l → rank t < rank s)
    {rs : ℕ → ℓ} (hfin : {n | idle (rs n)}.Finite) :
    ∃ n s, exec step s₀ ((List.range n).map rs) = some s ∧ step s (rs n) = none := by
  by_contra! hne
  have hrun (n : ℕ) : ∃ s, exec step s₀ ((List.range n).map rs) = some s := by
    induction n with
    | zero => exact ⟨s₀, rfl⟩
    | succ n ih =>
      obtain ⟨s, hs⟩ := ih
      obtain ⟨t, ht⟩ := Option.ne_none_iff_exists'.1 (hne n s hs)
      refine ⟨t, ?_⟩
      rw [List.range_succ, List.map_append, List.map_singleton]
      exact exec_append_singleton.2 ⟨s, hs, ht⟩
  -- a run that is longer than its rank and the idle labels of the stream
  obtain ⟨s, hs⟩ := hrun (rank s₀ + hfin.toFinset.card + 1)
  have hlen := exec_length_le hle hlt hs
  have hcount := countP_range_le hfin (rank s₀ + hfin.toFinset.card + 1)
  rw [List.length_map, List.length_range] at hlen
  omega

end

/-! ## Total steps -/

section
variable {σ ε ρ : Type*} {step : σ → ε → σ}

/-- The last value that an event of the list selects. -/
def lastSome (sel : ε → Option ρ) (es : List ε) : Option ρ := es.reverse.findSome? sel

/-- Later events select the last value, or leave the earlier one. -/
theorem lastSome_append (sel : ε → Option ρ) (es es' : List ε) :
    lastSome sel (es ++ es') = (lastSome sel es').or (lastSome sel es) := by
  simp only [lastSome, List.reverse_append, List.findSome?_append]

/-- A later event selects the last value, or leaves the earlier one. -/
theorem lastSome_append_singleton (sel : ε → Option ρ) (es : List ε) (e : ε) :
    lastSome sel (es ++ [e]) = (sel e).or (lastSome sel es) := by
  simp only [lastSome, List.reverse_append, List.reverse_cons, List.reverse_nil, List.nil_append,
    List.singleton_append, List.findSome?_cons]
  cases sel e <;> rfl

/-- **Registers.** A part of the state that every event overwrites by its selection or leaves alone
holds the last selection, whatever came before it. -/
theorem foldl_register (view : σ → ρ) {sel : ε → Option ρ}
    (h : ∀ s e, view (step s e) = (sel e).getD (view s)) (s : σ) (es : List ε) :
    view (es.foldl step s) = (lastSome sel es).getD (view s) := by
  induction es using List.reverseRecOn with
  | nil => rfl
  | append_singleton es e ih =>
    rw [List.foldl_concat, h, ih, lastSome_append_singleton]
    cases sel e <;> rfl

/-- **Frame.** A part of the state that no event of the run touches keeps its value. -/
theorem foldl_frame (view : σ → ρ) {es : List ε} (h : ∀ e ∈ es, ∀ s, view (step s e) = view s)
    (s : σ) : view (es.foldl step s) = view s := by
  induction es generalizing s with
  | nil => rfl
  | cons e es ih =>
    rw [List.foldl_cons, ih fun e' he' => h e' (List.mem_cons_of_mem e he')]
    exact h e List.mem_cons_self s

/-- **Latches.** A property that the events in `trig` establish and the others keep as it is holds
at the end of every run with an event in `trig`. -/
theorem foldl_latch (P : σ → Prop) (trig : ε → Prop) (hset : ∀ s e, trig e → P (step s e))
    (hkeep : ∀ s e, ¬ trig e → P s → P (step s e)) {es : List ε} (h : ∃ e ∈ es, trig e) (s : σ) :
    P (es.foldl step s) := by
  induction es using List.reverseRecOn with
  | nil => obtain ⟨e, he, -⟩ := h; cases he
  | append_singleton es e ih =>
    rw [List.foldl_concat]
    by_cases ht : trig e
    · exact hset _ e ht
    · refine hkeep _ e ht (ih ?_)
      obtain ⟨e', he', ht'⟩ := h
      rcases List.mem_append.1 he' with hmem | hmem
      · exact ⟨e', hmem, ht'⟩
      · cases List.mem_singleton.1 hmem
        exact absurd ht' ht

end

/-! ## Procedures that start over -/

section
variable {σ ε ρ : Type*} {step : σ → ε → σ} {P : σ → Prop} {es todo : List ε} {s : σ} {e : ε}

/-- A procedure `es` is under way: it began in a state with `P`, and `todo` is what is left of it.
Where it began is not known, since it may have started over in the middle. -/
def Underway (step : σ → ε → σ) (P : σ → Prop) (es todo : List ε) (s : σ) : Prop :=
  ∃ done s₀, done ++ todo = es ∧ P s₀ ∧ s = done.foldl step s₀

/-- The procedure begins. -/
theorem Underway.start (h : P s) : Underway step P es es s := ⟨[], s, rfl, h, rfl⟩

/-- The procedure goes on with its next event. -/
theorem Underway.next (h : Underway step P es (e :: todo) s) :
    Underway step P es todo (step s e) := by
  obtain ⟨done, s₀, hes, h0, rfl⟩ := h
  refine ⟨done ++ [e], s₀, ?_, h0, ?_⟩
  · rw [List.append_assoc, List.singleton_append, hes]
  · rw [List.foldl_concat]

/-- What all events of the procedure keep still holds, so it can start over from any point. -/
theorem Underway.keeps (h : Underway step P es todo s)
    (hstep : ∀ e ∈ es, ∀ s, P s → P (step s e)) : P s := by
  obtain ⟨done, s₀, rfl, h0, rfl⟩ := h
  induction done generalizing s₀ with
  | nil => exact h0
  | cons e done ih =>
    refine ih _ ?_ (hstep e List.mem_cons_self s₀ h0)
    exact fun e he => hstep e (List.mem_cons_of_mem _ he)

/-- A register that the events so far select holds their last selection. -/
theorem Underway.register (h : Underway step P es todo s) (view : σ → ρ) {sel : ε → Option ρ}
    (hstep : ∀ s e, view (step s e) = (sel e).getD (view s)) {x : ρ}
    (hset : ∀ done, done ++ todo = es → lastSome sel done = some x) : view s = x := by
  obtain ⟨done, s₀, hes, -, rfl⟩ := h
  rw [foldl_register view hstep, hset done hes]
  rfl

/-- What holds of every event of a list and the events before it holds at every split. -/
theorem of_forall_take {Q : List ε → ε → Prop} (h : ∀ k (hk : k < es.length),
    Q (es.take k) es[k]) {done : List ε} (hes : done ++ e :: todo = es) : Q done e := by
  subst hes
  have hk : done.length < (done ++ e :: todo).length := by simp
  have hget : (done ++ e :: todo)[done.length] = e := by simp
  have hq := h done.length hk
  rwa [List.take_left, hget] at hq

end

end Run

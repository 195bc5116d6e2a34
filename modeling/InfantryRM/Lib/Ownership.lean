import InfantryRM.Lib.Run

/-!
# Resources and their owners

A manager acquires resources one at a time and hands each over to a task, which releases it later.
It may also fail to hand a resource over and forget it (`Op.drop`). A resource that is open, with
neither the manager nor a task to release it, is an orphan. Nothing but a drop makes an orphan, and
nothing takes it away (`exists_orphan_iff`). So between two rounds of the manager every open
resource has exactly one owner exactly when nothing was dropped (`owned_iff`).
-/

namespace Ownership

open Run

/-- The open resources, the one that the manager has not handed over, and what each task holds. -/
structure Pool (τ α : Type*) where
  opened : List α
  pending : Option α
  holder : τ → Option α

inductive Op (τ α : Type*)
  | acquire (x : α)
  | handOver (c : τ)
  | drop
  | release (c : τ)

section
variable {τ α : Type*} [DecidableEq τ] [DecidableEq α]

/-- No resource is open. -/
def Pool.init : Pool τ α := ⟨[], none, fun _ => none⟩

/-- A resource is acquired when it is not open, and handed over to a task that holds none. -/
def Pool.step (p : Pool τ α) : Op τ α → Option (Pool τ α)
  | .acquire x =>
    if p.pending = none ∧ x ∉ p.opened then
      some { p with opened := x :: p.opened, pending := some x } else none
  | .handOver c =>
    if p.pending ≠ none ∧ p.holder c = none then
      some { p with pending := none, holder := Function.update p.holder c p.pending } else none
  | .drop => if p.pending ≠ none then some { p with pending := none } else none
  | .release c =>
    match p.holder c with
    | some x =>
      some { p with opened := p.opened.erase x, holder := Function.update p.holder c none }
    | none => none

/-- A resource that nobody is going to release. -/
def Pool.Orphan (p : Pool τ α) (x : α) : Prop :=
  x ∈ p.opened ∧ p.pending ≠ some x ∧ ∀ c, p.holder c ≠ some x

/-- Every open resource is held by exactly one task, and what a task holds is open, so it is not
released twice. -/
structure Pool.Owned (p : Pool τ α) : Prop where
  nodup : p.opened.Nodup
  held : ∀ x ∈ p.opened, ∃! c, p.holder c = some x
  opened : ∀ c x, p.holder c = some x → x ∈ p.opened

/-- What holds in every reachable pool: what is held or pending is open, by one owner. -/
structure Pool.Inv (p : Pool τ α) : Prop where
  nodup : p.opened.Nodup
  pending : ∀ x, p.pending = some x → x ∈ p.opened
  held : ∀ c x, p.holder c = some x → x ∈ p.opened ∧ p.pending ≠ some x
  unique : ∀ c c' x, p.holder c = some x → p.holder c' = some x → c = c'

variable {p q : Pool τ α} {op : Op τ α} {ops : List (Op τ α)} {c : τ} {x : α}

/-! ## What a step can do -/

theorem step_acquire (h : p.step (.acquire x) = some q) :
    p.pending = none ∧ x ∉ p.opened ∧
      q = { p with opened := x :: p.opened, pending := some x } := by
  rw [Pool.step] at h
  split at h
  · next hx =>
    cases h
    exact ⟨hx.1, hx.2, rfl⟩
  · cases h

theorem step_handOver (h : p.step (.handOver c) = some q) :
    ∃ x, p.pending = some x ∧ q.opened = p.opened ∧ q.pending = none ∧
      ∀ c' y, q.holder c' = some y ↔ (c' = c ∧ y = x) ∨ p.holder c' = some y := by
  rw [Pool.step] at h
  split at h
  · next hc =>
    cases h
    obtain ⟨x, hx⟩ := Option.ne_none_iff_exists'.1 hc.1
    refine ⟨x, hx, rfl, rfl, fun c' y => ?_⟩
    rcases eq_or_ne c' c with rfl | hne
    · simp [hx, hc.2, eq_comm]
    · simp [hne]
  · cases h

theorem step_drop (h : p.step .drop = some q) :
    ∃ x, p.pending = some x ∧ q = { p with pending := none } := by
  rw [Pool.step] at h
  split at h
  · next hp =>
    cases h
    obtain ⟨x, hx⟩ := Option.ne_none_iff_exists'.1 hp
    exact ⟨x, hx, rfl⟩
  · cases h

theorem step_release (h : p.step (.release c) = some q) :
    ∃ x, p.holder c = some x ∧ q.opened = p.opened.erase x ∧ q.pending = p.pending ∧
      ∀ c' y, q.holder c' = some y ↔ c' ≠ c ∧ p.holder c' = some y := by
  rw [Pool.step] at h
  split at h
  · next x hx =>
    cases h
    refine ⟨x, hx, rfl, rfl, fun c' y => ?_⟩
    rcases eq_or_ne c' c with rfl | hne
    · simp
    · simp [hne]
  · cases h

/-! ## Invariants -/

omit [DecidableEq τ] [DecidableEq α] in
/-- The empty pool. -/
theorem Pool.Inv.init : (Pool.init : Pool τ α).Inv := ⟨List.nodup_nil, nofun, nofun, nofun⟩

/-- Every step keeps one owner for what is held or pending. -/
theorem Pool.Inv.step (hp : p.Inv) (hst : p.step op = some q) : q.Inv := by
  cases op with
  | acquire x =>
    obtain ⟨hnone, hnew, rfl⟩ := step_acquire hst
    refine ⟨hp.nodup.cons hnew, ?_, ?_, hp.unique⟩
    · rintro y ⟨⟩
      exact List.mem_cons_self
    · intro c y hc
      have hy := (hp.held c y hc).1
      refine ⟨List.mem_cons_of_mem x hy, ?_⟩
      rintro ⟨⟩
      exact hnew hy
  | handOver c =>
    obtain ⟨x, hx, hopened, hpending, hholder⟩ := step_handOver hst
    have hfree (c' : τ) : p.holder c' ≠ some x := fun h => (hp.held c' x h).2 hx
    refine ⟨hopened ▸ hp.nodup, by rw [hpending]; exact nofun, ?_, ?_⟩
    · intro c' y hy
      rw [hopened, hpending]
      refine ⟨?_, nofun⟩
      rcases (hholder c' y).1 hy with ⟨rfl, rfl⟩ | hy
      · exact hp.pending y hx
      · exact (hp.held c' y hy).1
    · intro c₁ c₂ y h₁ h₂
      rcases (hholder c₁ y).1 h₁ with ⟨rfl, rfl⟩ | h₁
      · rcases (hholder c₂ y).1 h₂ with ⟨rfl, -⟩ | h₂
        · rfl
        · exact absurd h₂ (hfree c₂)
      · rcases (hholder c₂ y).1 h₂ with ⟨rfl, rfl⟩ | h₂
        · exact absurd h₁ (hfree c₁)
        · exact hp.unique c₁ c₂ y h₁ h₂
  | drop =>
    obtain ⟨x, hx, rfl⟩ := step_drop hst
    exact ⟨hp.nodup, nofun, fun c y hc => ⟨(hp.held c y hc).1, nofun⟩, hp.unique⟩
  | release c =>
    obtain ⟨x, hx, hopened, hpending, hholder⟩ := step_release hst
    refine ⟨hopened ▸ hp.nodup.erase x, ?_, ?_, ?_⟩
    · intro y hy
      rw [hpending] at hy
      rw [hopened]
      refine (List.mem_erase_of_ne ?_).2 (hp.pending y hy)
      rintro rfl
      exact (hp.held c y hx).2 hy
    · intro c' y hy
      obtain ⟨hne, hc'⟩ := (hholder c' y).1 hy
      obtain ⟨hopen, hfree⟩ := hp.held c' y hc'
      rw [hopened, hpending]
      refine ⟨(List.mem_erase_of_ne ?_).2 hopen, hfree⟩
      rintro rfl
      exact hne (hp.unique c' c y hc' hx)
    · intro c₁ c₂ y h₁ h₂
      exact hp.unique c₁ c₂ y ((hholder c₁ y).1 h₁).2 ((hholder c₂ y).1 h₂).2

/-- The pools of every run. -/
theorem inv_of_exec (h : exec Pool.step .init ops = some p) : p.Inv :=
  Reachable.invariant ⟨ops, h⟩ Pool.Inv.init fun _ _ _ hp => hp.step

/-! ## Orphans -/

/-- A drop makes an orphan of the pending resource; no other step changes which resources are
orphans. -/
theorem orphan_step (hp : p.Inv) (hst : p.step op = some q) :
    q.Orphan x ↔ p.Orphan x ∨ op = .drop ∧ p.pending = some x := by
  cases op with
  | acquire y =>
    obtain ⟨hnone, hnew, rfl⟩ := step_acquire hst
    refine ⟨?_, ?_⟩
    · rintro ⟨hx, hne, hfree⟩
      have hopen : x ∈ p.opened := List.mem_of_ne_of_mem (fun h => hne (h ▸ rfl)) hx
      exact .inl ⟨hopen, by rw [hnone]; exact nofun, hfree⟩
    · rintro (⟨hopen, -, hfree⟩ | ⟨hop, -⟩)
      · refine ⟨List.mem_cons_of_mem y hopen, ?_, hfree⟩
        rintro ⟨⟩
        exact hnew hopen
      · cases hop
  | handOver c =>
    obtain ⟨y, hy, hopened, hpending, hholder⟩ := step_handOver hst
    refine ⟨?_, ?_⟩
    · rintro ⟨hopen, -, hfree⟩
      refine .inl ⟨hopened ▸ hopen, ?_, fun c' hc' => hfree c' ((hholder c' x).2 (.inr hc'))⟩
      intro hx
      exact hfree c ((hholder c x).2 (.inl ⟨rfl, Option.some.inj (hx.symm.trans hy)⟩))
    · rintro (⟨hopen, hne, hfree⟩ | ⟨hop, -⟩)
      · refine ⟨hopened ▸ hopen, by rw [hpending]; exact nofun, fun c' hc' => ?_⟩
        rcases (hholder c' x).1 hc' with ⟨-, rfl⟩ | hc'
        · exact hne hy
        · exact hfree c' hc'
      · cases hop
  | drop =>
    obtain ⟨y, hy, rfl⟩ := step_drop hst
    refine ⟨?_, ?_⟩
    · rintro ⟨hopen, -, hfree⟩
      by_cases hx : p.pending = some x
      · exact .inr ⟨rfl, hx⟩
      · exact .inl ⟨hopen, hx, hfree⟩
    · rintro (⟨hopen, -, hfree⟩ | ⟨-, hx⟩)
      · exact ⟨hopen, nofun, hfree⟩
      · exact ⟨hp.pending x hx, nofun, fun c hc => (hp.held c x hc).2 hx⟩
  | release c =>
    obtain ⟨y, hy, hopened, hpending, hholder⟩ := step_release hst
    refine ⟨?_, ?_⟩
    · rintro ⟨hopen, hne, hfree⟩
      rw [hopened, hp.nodup.mem_erase_iff] at hopen
      refine .inl ⟨hopen.2, hpending ▸ hne, fun c' hc' => hfree c' ((hholder c' x).2 ⟨?_, hc'⟩)⟩
      rintro rfl
      exact hopen.1 (Option.some.inj (hc'.symm.trans hy))
    · rintro (⟨hopen, hne, hfree⟩ | ⟨hop, -⟩)
      · refine ⟨?_, hpending ▸ hne, fun c' hc' => hfree c' ((hholder c' x).1 hc').2⟩
        rw [hopened, hp.nodup.mem_erase_iff]
        refine ⟨?_, hopen⟩
        rintro rfl
        exact hfree c hy
      · cases hop

/-- **Orphans.** There is an orphan exactly when something was dropped in the run. -/
theorem exists_orphan_iff (h : exec Pool.step .init ops = some p) :
    (∃ x, p.Orphan x) ↔ .drop ∈ ops := by
  refine exec_rec_on (P := fun ops p => (∃ x, p.Orphan x) ↔ .drop ∈ ops) h ?_ ?_
  · exact iff_of_false (fun ⟨x, hx⟩ => absurd hx.1 List.not_mem_nil) List.not_mem_nil
  · intro ops p op q hexec ih hst
    simp only [orphan_step (inv_of_exec hexec) hst, exists_or, ih, List.mem_append,
      List.mem_singleton]
    refine or_congr_right ⟨fun ⟨_, hop, _⟩ => hop.symm, ?_⟩
    rintro rfl
    obtain ⟨x, hx, -⟩ := step_drop hst
    exact ⟨x, rfl, hx⟩

/-- **Owners.** Between two rounds of the manager every open resource has exactly one owner, and no
task holds a resource that is not open, exactly when nothing was dropped in the run. -/
theorem owned_iff (h : exec Pool.step .init ops = some p) (hround : p.pending = none) :
    p.Owned ↔ .drop ∉ ops := by
  have hp := inv_of_exec h
  rw [← exists_orphan_iff h]
  refine ⟨?_, fun hno => ⟨hp.nodup, fun x hx => ?_, fun c x hc => (hp.held c x hc).1⟩⟩
  · rintro howned ⟨x, hopen, -, hfree⟩
    obtain ⟨c, hc, -⟩ := howned.held x hopen
    exact hfree c hc
  · by_contra hnone
    refine hno ⟨x, hx, by rw [hround]; exact nofun, fun c hc => hnone ⟨c, hc, ?_⟩⟩
    exact fun c' hc' => hp.unique c' c x hc' hc

end

end Ownership

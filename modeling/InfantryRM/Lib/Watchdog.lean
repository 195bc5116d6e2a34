import InfantryRM.Lib.Run

/-!
# Tasks under a watchdog

A task subscribes to a watchdog, and then waits for work, does it and starts over. It resets the
watchdog before each wait. Time passes while it waits and while it works; an item of work takes a
fixed number of ticks (`Task.step`). At any moment the time since the last reset is what the task
has waited and worked (`Task.Ok`).

A step commits the task to a time until the next reset (`Task.demand`): the wait so far, and the
work once it is taken. The watchdog's timeout is never exceeded in a run whose steps demand no more
than it (`Watches.within`), and when the task is done with its work at the end of a run that never
exceeded the timeout, no step demanded more (`Watches.demand_le`). Both hold for every system whose
steps are matched by those of the task (`Watches`).
-/

namespace Watchdog

open Run

inductive Phase
  | unsubscribed
  | waiting (waited : Nat)
  | working (waited work left : Nat)
  deriving DecidableEq, Repr

/-- A task with its clock, and the time of its last reset. -/
structure Task where
  now : Nat
  lastReset : Nat
  phase : Phase
  deriving DecidableEq, Repr

inductive Label
  | tick
  | subscribe
  | take (work : Nat)
  | reset
  deriving DecidableEq, Repr

/-- The task before it subscribes. -/
def Task.init : Task := ⟨0, 0, .unsubscribed⟩

/-- Time does not pass between the end of the work and the reset. -/
def Task.step (t : Task) : Label → Option Task
  | .tick =>
    match t.phase with
    | .unsubscribed => some { t with now := t.now + 1 }
    | .waiting waited => some { t with now := t.now + 1, phase := .waiting (waited + 1) }
    | .working waited work (left + 1) =>
      some { t with now := t.now + 1, phase := .working waited work left }
    | .working _ _ 0 => none
  | .subscribe =>
    match t.phase with
    | .unsubscribed => some { t with lastReset := t.now, phase := .waiting 0 }
    | _ => none
  | .take work =>
    match t.phase with
    | .waiting waited => some { t with phase := .working waited work work }
    | _ => none
  | .reset =>
    match t.phase with
    | .working _ _ 0 => some { t with lastReset := t.now, phase := .waiting 0 }
    | _ => none

/-- The ticks since the last reset. -/
def Task.elapsed (t : Task) : Nat := t.now - t.lastReset

/-- The ticks that will have passed at the next reset, at least, when the step is taken. -/
def Task.demand (t : Task) : Label → Nat
  | .tick =>
    match t.phase with
    | .waiting waited => waited + 1
    | _ => 0
  | .take work =>
    match t.phase with
    | .waiting waited => waited + work
    | _ => 0
  | .subscribe | .reset => 0

/-- The timeout is not exceeded. -/
def Task.Fed (limit : Nat) (t : Task) : Prop := t.phase = .unsubscribed ∨ t.elapsed ≤ limit

/-- The clock shows what the task has waited and worked. -/
def Task.Ok (t : Task) : Prop :=
  t.lastReset ≤ t.now ∧
    match t.phase with
    | .unsubscribed => True
    | .waiting waited => t.elapsed = waited
    | .working waited work left => t.elapsed + left = waited + work

/-- The work at hand leaves the timeout enough. -/
def Task.Affordable (limit : Nat) (t : Task) : Prop :=
  ∀ waited work left, t.phase = .working waited work left → waited + work ≤ limit

/-- What the task has waited leaves the timeout enough, and so does the work at hand. -/
def Task.Within (limit : Nat) (t : Task) : Prop :=
  (∀ waited, t.phase = .waiting waited → waited ≤ limit) ∧ t.Affordable limit

section
variable {t u : Task} {k : Label} {limit : Nat}

/-! ## One step -/

/-- **What a step can do.** -/
theorem Task.step_cases (h : t.step k = some u) :
    (k = .tick ∧ t.phase = .unsubscribed ∧ u = { t with now := t.now + 1 }) ∨
    (∃ waited, k = .tick ∧ t.phase = .waiting waited ∧
      u = { t with now := t.now + 1, phase := .waiting (waited + 1) }) ∨
    (∃ waited work left, k = .tick ∧ t.phase = .working waited work (left + 1) ∧
      u = { t with now := t.now + 1, phase := .working waited work left }) ∨
    (k = .subscribe ∧ t.phase = .unsubscribed ∧
      u = { t with lastReset := t.now, phase := .waiting 0 }) ∨
    (∃ waited work, k = .take work ∧ t.phase = .waiting waited ∧
      u = { t with phase := .working waited work work }) ∨
    ∃ waited work, k = .reset ∧ t.phase = .working waited work 0 ∧
      u = { t with lastReset := t.now, phase := .waiting 0 } := by
  obtain ⟨now, lastReset, phase⟩ := t
  cases k with
  | tick =>
    rcases phase with _ | waited | ⟨waited, work, _ | left⟩
    · cases h
      exact .inl ⟨rfl, rfl, rfl⟩
    · cases h
      exact .inr (.inl ⟨waited, rfl, rfl, rfl⟩)
    · cases h
    · cases h
      exact .inr (.inr (.inl ⟨waited, work, left, rfl, rfl, rfl⟩))
  | subscribe =>
    rcases phase with _ | waited | ⟨waited, work, left⟩
    · cases h
      exact .inr (.inr (.inr (.inl ⟨rfl, rfl, rfl⟩)))
    · cases h
    · cases h
  | take work =>
    rcases phase with _ | waited | ⟨waited, work', left⟩
    · cases h
    · cases h
      exact .inr (.inr (.inr (.inr (.inl ⟨waited, work, rfl, rfl, rfl⟩))))
    · cases h
  | reset =>
    rcases phase with _ | waited | ⟨waited, work, _ | left⟩
    · cases h
    · cases h
    · cases h
      exact .inr (.inr (.inr (.inr (.inr ⟨waited, work, rfl, rfl, rfl⟩))))
    · cases h

/-- Every step keeps the clock right. -/
theorem Task.Ok.step (ht : t.Ok) (h : t.step k = some u) : u.Ok := by
  obtain ⟨hle, hclock⟩ := ht
  rcases Task.step_cases h with ⟨-, hp, rfl⟩ | ⟨waited, -, hp, rfl⟩ |
    ⟨waited, work, left, -, hp, rfl⟩ | ⟨-, hp, rfl⟩ | ⟨waited, work, -, hp, rfl⟩ |
    ⟨waited, work, -, hp, rfl⟩
  all_goals
    rw [hp] at hclock
    simp only [Task.elapsed] at hclock
    simp only [Task.Ok, Task.elapsed, hp, and_true]
    omega

/-- A task that is within the timeout does not exceed it. -/
theorem Task.Within.fed (ht : t.Ok) (h : t.Within limit) : t.Fed limit := by
  obtain ⟨-, hclock⟩ := ht
  cases hp : t.phase with
  | unsubscribed => exact .inl hp
  | waiting waited =>
    rw [hp] at hclock
    exact .inr (hclock.trans_le (h.1 waited hp))
  | working waited work left =>
    rw [hp] at hclock
    have hwork := h.2 waited work left hp
    refine .inr ?_
    simp only at hclock
    omega

/-- A step that demands no more than the timeout keeps the task within it. -/
theorem Task.Within.step (ht : t.Within limit) (h : t.step k = some u)
    (hdemand : t.demand k ≤ limit) : u.Within limit := by
  rcases Task.step_cases h with ⟨-, hp, rfl⟩ | ⟨waited, rfl, hp, rfl⟩ |
    ⟨waited, work, left, -, hp, rfl⟩ | ⟨-, hp, rfl⟩ | ⟨waited, work, rfl, hp, rfl⟩ |
    ⟨waited, work, -, hp, rfl⟩
  · exact ⟨ht.1, ht.2⟩
  · rw [Task.demand, hp] at hdemand
    refine ⟨?_, nofun⟩
    rintro _ ⟨⟩
    exact hdemand
  · refine ⟨nofun, ?_⟩
    rintro _ _ _ ⟨⟩
    exact ht.2 waited work (left + 1) hp
  · refine ⟨?_, nofun⟩
    rintro _ ⟨⟩
    exact Nat.zero_le limit
  · rw [Task.demand, hp] at hdemand
    refine ⟨nofun, ?_⟩
    rintro _ _ _ ⟨⟩
    exact hdemand
  · refine ⟨?_, nofun⟩
    rintro _ ⟨⟩
    exact Nat.zero_le limit

/-- When the timeout is exceeded neither before a step nor after it, a step demands more only when
it takes work that is not affordable; and work that is not affordable is not done. -/
theorem Task.Affordable.of_step (ht : t.Ok) (h : t.step k = some u) (hfed : t.Fed limit)
    (hfed' : u.Fed limit) (hu : u.Affordable limit) :
    t.Affordable limit ∧ t.demand k ≤ limit := by
  obtain ⟨hle, hclock⟩ := ht
  rcases Task.step_cases h with ⟨rfl, hp, rfl⟩ | ⟨waited, rfl, hp, rfl⟩ |
    ⟨waited, work, left, rfl, hp, rfl⟩ | ⟨rfl, hp, rfl⟩ | ⟨waited, work, rfl, hp, rfl⟩ |
    ⟨waited, work, rfl, hp, rfl⟩
  all_goals
    rw [hp] at hclock
    unfold Task.Affordable Task.demand
    simp only [hp]
  · exact ⟨nofun, Nat.zero_le limit⟩
  · refine ⟨nofun, ?_⟩
    have helapsed := hfed'.resolve_left nofun
    simp only [Task.elapsed] at hclock helapsed
    omega
  · refine ⟨?_, Nat.zero_le limit⟩
    rintro _ _ _ ⟨⟩
    exact hu waited work left rfl
  · exact ⟨nofun, Nat.zero_le limit⟩
  · exact ⟨nofun, hu waited work work rfl⟩
  · -- the work is done, so it was affordable
    refine ⟨?_, Nat.zero_le limit⟩
    rintro _ _ _ ⟨⟩
    have helapsed := hfed.resolve_left (by rw [hp]; nofun)
    simp only at hclock
    omega

end

/-! ## Systems with a watched task -/

section
variable {σ ℓ : Type*} {step : σ → ℓ → Option σ} {s₀ s : σ} {task : σ → Task}
  {out : σ → ℓ → Option Label} {limit : Nat} {ls : List ℓ}

/-- A system in which a task is under a watchdog: every step is one of the task, or none of its. -/
structure Watches (step : σ → ℓ → Option σ) (s₀ : σ) (task : σ → Task)
    (out : σ → ℓ → Option Label) : Prop where
  init : task s₀ = Task.init
  sim : ∀ s l t, Reachable step s₀ s → step s l = some t →
    (out s l).elim (task t = task s) fun k => (task s).step k = some (task t)

theorem Watches.ok (hw : Watches step s₀ task out) (hs : Reachable step s₀ s) : (task s).Ok := by
  refine hs.rec_on (P := fun s => (task s).Ok) ?_ ?_
  · rw [hw.init]
    exact ⟨le_rfl, trivial⟩
  · intro s l t hs ih hst
    have hmatch := hw.sim s l t hs hst
    cases hout : out s l with
    | none =>
      rw [hout] at hmatch
      have htask : task t = task s := hmatch
      rwa [htask]
    | some k =>
      rw [hout] at hmatch
      exact ih.step hmatch

/-- **The watchdog is fed.** When no step of a run demands more than the timeout, the task is within
it at the end. -/
theorem Watches.within (hw : Watches step s₀ task out) (hexec : exec step s₀ ls = some s)
    (hdemand : ∀ p ∈ steps step s₀ ls, ∀ k, out p.1 p.2 = some k → (task p.1).demand k ≤ limit) :
    (task s).Within limit := by
  revert hdemand
  refine exec_rec_on (P := fun ls s => (∀ p ∈ steps step s₀ ls, ∀ k, out p.1 p.2 = some k →
    (task p.1).demand k ≤ limit) → (task s).Within limit) hexec ?_ ?_
  · intro _
    rw [hw.init]
    exact ⟨nofun, nofun⟩
  · intro ls s l t hs ih hst hdemand
    rw [steps_append_singleton hs] at hdemand
    have hwithin := ih fun p hp => hdemand p (List.mem_append_left _ hp)
    have hmatch := hw.sim s l t ⟨ls, hs⟩ hst
    cases hout : out s l with
    | none =>
      rw [hout] at hmatch
      have htask : task t = task s := hmatch
      rwa [htask]
    | some k =>
      rw [hout] at hmatch
      exact hwithin.step hmatch (hdemand (s, l) (List.mem_append_right _ List.mem_cons_self) k hout)

/-- **No step demanded more.** When the timeout is not exceeded in a run, and the work at hand at
its end is affordable, no step of the run demands more than the timeout. -/
theorem Watches.demand_le (hw : Watches step s₀ task out) (hexec : exec step s₀ ls = some s)
    (hfed : ∀ history t, history <+: ls → exec step s₀ history = some t → (task t).Fed limit)
    (hrest : (task s).Affordable limit) :
    ∀ p ∈ steps step s₀ ls, ∀ k, out p.1 p.2 = some k → (task p.1).demand k ≤ limit := by
  revert hfed hrest
  refine exec_rec_on (P := fun ls s =>
    (∀ history t, history <+: ls → exec step s₀ history = some t → (task t).Fed limit) →
    (task s).Affordable limit →
    ∀ p ∈ steps step s₀ ls, ∀ k, out p.1 p.2 = some k → (task p.1).demand k ≤ limit) hexec ?_ ?_
  · intro _ _ p hp
    cases hp
  · intro ls s l t hs ih hst hfed hrest
    have hearlier (history : List ℓ) (u : σ) (hle : history <+: ls) :=
      hfed history u (hle.trans (List.prefix_append ls [l]))
    have hmatch := hw.sim s l t ⟨ls, hs⟩ hst
    obtain ⟨haffordable, hlast⟩ : (task s).Affordable limit ∧
        ∀ k, out s l = some k → (task s).demand k ≤ limit := by
      cases hout : out s l with
      | none =>
        rw [hout] at hmatch
        have htask : task t = task s := hmatch
        exact ⟨htask ▸ hrest, nofun⟩
      | some k =>
        rw [hout] at hmatch
        have hfed' := hfed (ls ++ [l]) t List.prefix_rfl
          (exec_append_singleton.2 ⟨s, hs, hst⟩)
        obtain ⟨haffordable, hle⟩ := hrest.of_step (hw.ok ⟨ls, hs⟩) hmatch
          (hearlier ls s List.prefix_rfl hs) hfed'
        refine ⟨haffordable, ?_⟩
        rintro _ ⟨⟩
        exact hle
    intro p hp
    rw [steps_append_singleton hs] at hp
    rcases List.mem_append.1 hp with hp | hp
    · exact ih hearlier haffordable p hp
    · cases List.mem_singleton.1 hp
      exact hlast

end

end Watchdog

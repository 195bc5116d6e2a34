import InfantryRM.Lib.Run
import InfantryRM.Lib.Mailbox

/-!
# Producers that empty the queue before they send

Any number of producers share one queue with one consumer. A producer empties the queue and then
sends one item, in two steps that other parties may come between, or it gives up before the first.
The consumer takes an item, works on it, and is done with it before it takes the next.

What was done is always a subsequence of what was sent (`processed_sublist`). An item may be
discarded, but only by another producer (`processed_or_discarded`), and then something is sent after
it: once no producer stands between its two steps, the queue is empty and the consumer idle, the
last item sent is the last item done (`latest_processed`).

The queue never runs full when it has room for as many items as producers can be between their two
steps: an item in the queue was sent after the last reset, so its producer was between its steps at
that time (`Occupied.step`).
-/

namespace LatestWins

open Run Mailbox

variable {ι α : Type*}

/-- Where a producer stands: it has done nothing, it has emptied the queue, or it will not touch the
queue again. -/
inductive Phase
  | fresh
  | between
  | finished
  deriving DecidableEq, Repr

/-- The producers, the queue, the item the consumer works on, and the items it is done with; an item
carries its producer. -/
structure State (ι α : Type*) where
  phase : ι → Phase
  box : Box (ι × α) ι
  held : Option (ι × α)
  processed : List (ι × α)

def State.init : State ι α := ⟨fun _ => .fresh, .empty, none, []⟩

inductive Label (ι α : Type*)
  | reset (i : ι)
  | send (i : ι) (a : α)
  | giveUp (i : ι)
  | receive
  | done

/-- One step; a full queue does not accept an item, and its producer goes on. -/
def step [DecidableEq ι] (cap : Nat) (s : State ι α) : Label ι α → Option (State ι α)
  | .reset i =>
    if s.phase i = .fresh then
      some { s with phase := Function.update s.phase i .between, box := s.box.reset i }
    else none
  | .send i a =>
    if s.phase i = .between then
      some { s with phase := Function.update s.phase i .finished, box := s.box.send cap (i, a) }
    else none
  | .giveUp i =>
    if s.phase i = .fresh then
      some { s with phase := Function.update s.phase i .finished }
    else none
  | .receive =>
    match s.held, s.box.receive with
    | none, some (x, box) => some { s with held := some x, box := box }
    | _, _ => none
  | .done =>
    match s.held with
    | some x => some { s with held := none, processed := s.processed ++ [x] }
    | none => none

/-! ## The invariant -/

/-- What holds in every reachable state. -/
structure Inv (s : State ι α) : Prop where
  taken : s.box.received = s.processed ++ s.held.toList
  finished : ∀ x ∈ s.box.sent, s.phase x.1 = .finished
  nodup : (s.box.sent.map Prod.fst).Nodup
  foreign : ∀ x i, (x, Fate.discarded i) ∈ s.box.removed → i ≠ x.1
  pending : s.box.queue = [] → ∀ x i, s.box.removed.getLast? = some (x, .discarded i) →
    ∃ j, s.phase j = .between

theorem Inv.init : Inv (State.init : State ι α) where
  taken := rfl
  finished := nofun
  nodup := .nil
  foreign := nofun
  pending := nofun

section
variable {s t : State ι α} {cap : Nat} {i : ι} {a : α} {x : ι × α} {box : Box (ι × α) ι}

theorem Inv.receive (h : Inv s) (hheld : s.held = none) (hrec : s.box.receive = some (x, box)) :
    Inv { s with held := some x, box := box } := by
  have hsent := Box.sent_receive hrec
  have hreceived := Box.received_receive hrec
  have htaken := h.taken
  obtain ⟨queue, hq, rfl⟩ := Box.receive_eq_some_iff.1 hrec
  refine ⟨?_, ?_, ?_, ?_, ?_⟩
  · rw [hreceived, htaken, hheld]
    simp
  · rw [hsent]
    exact h.finished
  · rw [hsent]
    exact h.nodup
  · intro y j hy
    rcases List.mem_append.1 hy with hmem | hmem
    · exact h.foreign y j hmem
    · cases List.mem_singleton.1 hmem
  · intro _ y j hlast
    rw [List.getLast?_append] at hlast
    cases hlast

theorem Inv.done (h : Inv s) (hheld : s.held = some x) :
    Inv { s with held := none, processed := s.processed ++ [x] } where
  taken := by rw [h.taken, hheld]; simp
  finished := h.finished
  nodup := h.nodup
  foreign := h.foreign
  pending := h.pending

section
variable [DecidableEq ι]

/-- The senders of a reachable state keep their phase when another producer moves. -/
theorem Inv.finished_update (h : Inv s) (hi : s.phase i ≠ .finished) (p : Phase) :
    ∀ x ∈ s.box.sent, Function.update s.phase i p x.1 = .finished := by
  intro x hx
  have hdone := h.finished x hx
  have hne : x.1 ≠ i := by
    rintro rfl
    exact hi hdone
  rw [Function.update_of_ne hne]
  exact hdone

theorem Inv.reset (h : Inv s) (hi : s.phase i = .fresh) :
    Inv { s with phase := Function.update s.phase i .between, box := s.box.reset i } where
  taken := by rw [Box.received_reset]; exact h.taken
  finished := by
    rw [Box.sent_reset]
    exact h.finished_update (by rw [hi]; exact nofun) _
  nodup := by rw [Box.sent_reset]; exact h.nodup
  foreign := fun x j hx => by
    rcases List.mem_append.1 hx with hmem | hmem
    · exact h.foreign x j hmem
    · -- what the reset discards was sent by producers that are through
      obtain ⟨y, hy, heq⟩ := List.mem_map.1 hmem
      cases heq
      have hdone := h.finished x (List.mem_append_right _ hy)
      rintro rfl
      rw [hi] at hdone
      cases hdone
  pending := fun _ _ _ _ => ⟨i, Function.update_self ..⟩

theorem Inv.send (h : Inv s) (hcap : 0 < cap) (hi : s.phase i = .between) :
    Inv { s with phase := Function.update s.phase i .finished, box := s.box.send cap (i, a) } where
  taken := h.taken
  finished := by
    have hkeep := h.finished_update (i := i) (by rw [hi]; exact nofun) .finished
    rw [Box.sent_send]
    split
    · intro x hx
      rcases List.mem_append.1 hx with hmem | hmem
      · exact hkeep x hmem
      · rw [List.mem_singleton.1 hmem]
        exact Function.update_self ..
    · exact hkeep
  nodup := by
    rw [Box.sent_send]
    split
    · rw [List.map_append, List.nodup_append]
      refine ⟨h.nodup, List.nodup_singleton _, ?_⟩
      intro j hj k hk hjk
      obtain ⟨x, hx, rfl⟩ := List.mem_map.1 hj
      have hdone := h.finished x hx
      rw [hjk, List.mem_singleton.1 hk, hi] at hdone
      cases hdone
    · exact h.nodup
  foreign := h.foreign
  pending := fun hnil => by
    -- a queue is not empty after a send, whether it accepted the item or not
    exfalso
    simp only [Box.send, push] at hnil
    split at hnil
    · exact absurd hnil (by simp)
    · next hfull =>
      rw [hnil] at hfull
      exact hfull hcap

theorem Inv.giveUp (h : Inv s) (hi : s.phase i = .fresh) :
    Inv { s with phase := Function.update s.phase i .finished } where
  taken := h.taken
  finished := h.finished_update (by rw [hi]; exact nofun) _
  nodup := h.nodup
  foreign := h.foreign
  pending := fun hnil x k hlast => by
    obtain ⟨j, hj⟩ := h.pending hnil x k hlast
    have hne : j ≠ i := by
      rintro rfl
      rw [hi] at hj
      cases hj
    exact ⟨j, (Function.update_of_ne hne ..).trans hj⟩

/-- Every step preserves the invariant. -/
theorem Inv.step (hcap : 0 < cap) (h : Inv s) {l : Label ι α}
    (hst : LatestWins.step cap s l = some t) : Inv t := by
  cases l with
  | reset i =>
    obtain ⟨hi, ht⟩ := Option.ite_none_right_eq_some.1 hst
    cases ht
    exact h.reset hi
  | send i a =>
    obtain ⟨hi, ht⟩ := Option.ite_none_right_eq_some.1 hst
    cases ht
    exact h.send hcap hi
  | giveUp i =>
    obtain ⟨hi, ht⟩ := Option.ite_none_right_eq_some.1 hst
    cases ht
    exact h.giveUp hi
  | receive =>
    simp only [LatestWins.step] at hst
    split at hst
    · next x box hheld hrec =>
      cases hst
      exact h.receive hheld hrec
    · cases hst
  | done =>
    simp only [LatestWins.step] at hst
    split at hst
    · next x hheld =>
      cases hst
      exact h.done hheld
    · cases hst

/-- The invariant of every reachable state. -/
theorem inv_of_reachable (hcap : 0 < cap) (h : Reachable (step cap) .init s) : Inv s :=
  h.invariant .init fun _ _ _ hs => hs.step hcap

/-- The queue stays within its capacity. -/
theorem length_queue_le (h : Reachable (step cap) .init s) : s.box.queue.length ≤ cap := by
  refine h.invariant (P := fun s => s.box.queue.length ≤ cap) (Nat.zero_le _) ?_
  intro s l t hs hst
  cases l with
  | reset i =>
    simp only [LatestWins.step, Option.ite_none_right_eq_some] at hst
    obtain ⟨-, hst⟩ := hst
    cases hst
    exact Nat.zero_le _
  | send i a =>
    simp only [LatestWins.step, Option.ite_none_right_eq_some] at hst
    obtain ⟨-, hst⟩ := hst
    cases hst
    exact length_push_le_cap hs (i, a)
  | giveUp i =>
    simp only [LatestWins.step, Option.ite_none_right_eq_some] at hst
    obtain ⟨-, hst⟩ := hst
    cases hst
    exact hs
  | receive =>
    simp only [LatestWins.step] at hst
    split at hst
    · next x box hheld hrec =>
      cases hst
      obtain ⟨queue, hq, rfl⟩ := Box.receive_eq_some_iff.1 hrec
      rw [hq] at hs
      exact Nat.le_of_succ_le hs
    · cases hst
  | done =>
    simp only [LatestWins.step] at hst
    split at hst
    · cases hst
      exact hs
    · cases hst

end

/-! ## Occupancy -/

/-- What is queued and what producers between their two steps are about to send are at most `n`
items together. -/
def Occupied (n : Nat) (s : State ι α) : Prop :=
  ∃ senders : Finset ι, (∀ i, i ∈ senders ↔ s.phase i = .between) ∧
    s.box.queue.length + senders.card ≤ n

section
variable {s t : State ι α} {cap n : Nat} {i : ι}

theorem Occupied.init : Occupied n (State.init : State ι α) :=
  ⟨∅, by simp [State.init], Nat.zero_le n⟩

/-- A producer between its steps has room in a queue of `n` items. -/
theorem Occupied.room (h : Occupied n s) (hi : s.phase i = .between) : s.box.queue.length < n := by
  obtain ⟨senders, hmem, hle⟩ := h
  have hpos : 0 < senders.card := Finset.card_pos.2 ⟨i, (hmem i).2 hi⟩
  omega

/-- The occupancy does not depend on how the senders are listed. -/
theorem Occupied.le (h : Occupied n s) {senders : Finset ι}
    (hmem : ∀ i, i ∈ senders ↔ s.phase i = .between) : s.box.queue.length + senders.card ≤ n := by
  obtain ⟨senders', hmem', hle⟩ := h
  have heq : senders = senders' := Finset.ext fun i => (hmem i).trans (hmem' i).symm
  rwa [heq]

section
variable [DecidableEq ι] {senders : Finset ι}

/-- A producer that resets the queue joins the senders. -/
theorem mem_insert_senders (hmem : ∀ j, j ∈ senders ↔ s.phase j = .between) (i j : ι) :
    j ∈ insert i senders ↔ Function.update s.phase i .between j = .between := by
  rcases eq_or_ne j i with rfl | hne
  · simp
  · rw [Function.update_of_ne hne, Finset.mem_insert, hmem j]
    exact or_iff_right hne

/-- A producer that is finished leaves the senders. -/
theorem mem_erase_senders (hmem : ∀ j, j ∈ senders ↔ s.phase j = .between) (i j : ι) :
    j ∈ senders.erase i ↔ Function.update s.phase i .finished j = .between := by
  rcases eq_or_ne j i with rfl | hne
  · simp
  · rw [Function.update_of_ne hne, Finset.mem_erase, hmem j]
    exact and_iff_right hne

end

/-- **Occupancy.** A step preserves the occupancy as long as no more than `n` producers are between
their steps: a reset adds a sender and empties the queue, a send turns a sender into an item. -/
theorem Occupied.step [DecidableEq ι] (h : Occupied n s) {l : Label ι α}
    (hst : LatestWins.step cap s l = some t)
    (hn : ∀ senders : Finset ι, (∀ i, i ∈ senders ↔ t.phase i = .between) → senders.card ≤ n) :
    Occupied n t := by
  obtain ⟨senders, hmem, hle⟩ := h
  cases l with
  | reset i =>
    obtain ⟨hi, ht⟩ := Option.ite_none_right_eq_some.1 hst
    cases ht
    refine ⟨insert i senders, mem_insert_senders hmem i, ?_⟩
    have hcard := hn _ (mem_insert_senders hmem i)
    show 0 + _ ≤ n
    omega
  | send i a =>
    obtain ⟨hi, ht⟩ := Option.ite_none_right_eq_some.1 hst
    cases ht
    refine ⟨senders.erase i, mem_erase_senders hmem i, ?_⟩
    have hcard := Finset.card_erase_add_one ((hmem i).2 hi)
    have hpush : (s.box.send cap (i, a)).queue.length ≤ s.box.queue.length + 1 := by
      unfold Box.send push
      split <;> simp
    show (s.box.send cap (i, a)).queue.length + _ ≤ n
    omega
  | giveUp i =>
    obtain ⟨hi, ht⟩ := Option.ite_none_right_eq_some.1 hst
    cases ht
    have hcard : (senders.erase i).card ≤ senders.card := Finset.card_erase_le
    exact ⟨senders.erase i, mem_erase_senders hmem i, (Nat.add_le_add_left hcard _).trans hle⟩
  | receive =>
    simp only [LatestWins.step] at hst
    split at hst
    · next x box hheld hrec =>
      cases hst
      obtain ⟨queue, hq, rfl⟩ := Box.receive_eq_some_iff.1 hrec
      refine ⟨senders, hmem, ?_⟩
      rw [hq, List.length_cons] at hle
      show queue.length + _ ≤ n
      omega
    · cases hst
  | done =>
    simp only [LatestWins.step] at hst
    split at hst
    · cases hst
      exact ⟨senders, hmem, hle⟩
    · cases hst

end

/-! ## What it gives -/

/-- What was done is a subsequence of what was sent, and no producer sent twice. -/
theorem Inv.processed_sublist (h : Inv s) :
    s.processed.Sublist s.box.sent ∧ (s.box.sent.map Prod.fst).Nodup := by
  refine ⟨.trans ?_ s.box.received_sublist_sent, h.nodup⟩
  rw [h.taken]
  exact List.sublist_append_left _ _

/-- In a list without repetition two elements have one order. -/
theorem not_sublist_swap {l : List ι} (hl : l.Nodup) {i j : ι} (hij : [i, j].Sublist l) :
    ¬ [j, i].Sublist l := by
  induction l with
  | nil => cases hij
  | cons k l ih =>
    obtain ⟨hk, hl⟩ := List.nodup_cons.1 hl
    intro hji
    cases hij with
    | cons _ hij =>
      cases hji with
      | cons _ hji => exact ih hl hij hji
      | cons_cons _ hji => exact hk (hij.subset (by simp))
    | cons_cons _ hij =>
      cases hji with
      | cons _ hji => exact hk (hji.subset (by simp))
      | cons_cons _ hji => exact hk (hji.subset (by simp))

/-- **Order.** Of two producers the one that sent first is never done after the other. -/
theorem Inv.not_overtaken (h : Inv s) {i j : ι} (hij : [i, j].Sublist (s.box.sent.map Prod.fst)) :
    ¬ [j, i].Sublist (s.processed.map Prod.fst) := fun hji =>
  not_sublist_swap h.nodup hij (hji.trans (h.processed_sublist.1.map Prod.fst))

/-- No work is waiting: no producer is between its steps, the queue is empty, the consumer idle. -/
structure Quiescent (s : State ι α) : Prop where
  between : ∀ i, s.phase i ≠ .between
  queue : s.box.queue = []
  held : s.held = none

/-- **No silent loss.** When no work is waiting, an item that was sent was done, or another producer
discarded it. -/
theorem Inv.processed_or_discarded (h : Inv s) (hq : Quiescent s) (hx : x ∈ s.box.sent) :
    x ∈ s.processed ∨ ∃ i, i ≠ x.1 ∧ (x, Fate.discarded i) ∈ s.box.removed := by
  have htaken := h.taken
  rw [hq.held, Option.toList_none, List.append_nil] at htaken
  rcases Box.fate_of_mem_sent hx with hmem | hmem | ⟨i, hi⟩
  · rw [hq.queue] at hmem
    cases hmem
  · exact .inl (htaken ▸ hmem)
  · exact .inr ⟨i, h.foreign x i hi, hi⟩

/-- **The latest wins.** When no work is waiting, the last item sent is the last item done. -/
theorem Inv.latest_processed (h : Inv s) (hq : Quiescent s) :
    s.processed.getLast? = s.box.sent.getLast? := by
  have htaken := h.taken
  rw [hq.held, Option.toList_none, List.append_nil] at htaken
  have hsent : s.box.sent = s.box.removed.map Prod.fst := by
    rw [Box.sent, hq.queue, List.append_nil]
  rw [← htaken, hsent, Box.received]
  rcases List.eq_nil_or_concat s.box.removed with hnil | ⟨init, ⟨y, fate⟩, hlast⟩
  · rw [hnil]
    rfl
  · cases fate with
    | received => simp [hlast, Mailbox.taken]
    | discarded i =>
      obtain ⟨j, hj⟩ := h.pending hq.queue y i (by simp [hlast])
      exact absurd hj (hq.between j)

end

end LatestWins

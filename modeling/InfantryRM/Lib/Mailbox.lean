import Mathlib

/-!
# Bounded queues that can be emptied

A first-in first-out queue of bounded capacity with three operations: append without waiting
(`push`), take the first item, and discard everything. `Box` keeps with the queue the items that
have left it, in the order in which they left, and how each of them left (`Fate`). Items leave from
the front, so what has left followed by what is queued is everything that was ever accepted, in the
order of acceptance (`Box.sent`), and what receivers took is a subsequence of it
(`Box.received_sublist_sent`).
-/

namespace Mailbox

variable {α ι : Type*}

/-- How an item left the queue: a receiver took it, or a reset by `i` discarded it. -/
inductive Fate (ι : Type*)
  | received
  | discarded (i : ι)
  deriving DecidableEq, Repr

/-- An append without waiting: a full queue does not accept the item. -/
def push (cap : Nat) (queue : List α) (a : α) : List α :=
  if queue.length < cap then queue ++ [a] else queue

/-- A queue and the items that have left it. -/
structure Box (α ι : Type*) where
  queue : List α
  removed : List (α × Fate ι)

def Box.empty : Box α ι := ⟨[], []⟩

/-- The items that the queue ever accepted. -/
def Box.sent (b : Box α ι) : List α := b.removed.map Prod.fst ++ b.queue

/-- The item, if a receiver took it. -/
def taken : α × Fate ι → Option α
  | (a, .received) => some a
  | (_, .discarded _) => none

/-- The items that receivers took. -/
def Box.received (b : Box α ι) : List α := b.removed.filterMap taken

/-- A reset by `i`. -/
def Box.reset (b : Box α ι) (i : ι) : Box α ι :=
  ⟨[], b.removed ++ b.queue.map fun a => (a, .discarded i)⟩

def Box.send (cap : Nat) (b : Box α ι) (a : α) : Box α ι :=
  { b with queue := push cap b.queue a }

/-- A queue within its capacity stays within it. -/
theorem length_push_le_cap {cap : Nat} {queue : List α} (h : queue.length ≤ cap) (a : α) :
    (push cap queue a).length ≤ cap := by
  unfold push
  split
  · next hlt =>
    rw [List.length_append]
    exact hlt
  · exact h

/-- Taking the first item; a receiver waits at an empty queue. -/
def Box.receive (b : Box α ι) : Option (α × Box α ι) :=
  match b.queue with
  | [] => none
  | a :: queue => some (a, ⟨queue, b.removed ++ [(a, .received)]⟩)

section
variable {b b' : Box α ι} {a : α} {i : ι} {cap : Nat}

/-- A receiver takes the first item. -/
theorem Box.receive_eq_some_iff :
    b.receive = some (a, b') ↔
      ∃ queue, b.queue = a :: queue ∧ b' = ⟨queue, b.removed ++ [(a, .received)]⟩ := by
  unfold Box.receive
  cases hq : b.queue with
  | nil => exact ⟨nofun, nofun⟩
  | cons x queue =>
    refine ⟨?_, fun ⟨queue', heq, hb'⟩ => ?_⟩
    · intro h
      cases h
      exact ⟨queue, rfl, rfl⟩
    · cases heq
      rw [hb']

/-! ## What was accepted -/

/-- A reset accepts nothing and forgets nothing. -/
@[simp] theorem Box.sent_reset : (b.reset i).sent = b.sent := by
  have hfst : (fun a : α => (a, Fate.discarded i).1) = id := rfl
  simp only [Box.sent, Box.reset, List.map_append, List.map_map, List.append_nil]
  rw [show (Prod.fst ∘ fun a : α => (a, Fate.discarded i)) = id from hfst, List.map_id]

/-- A send accepts its item when the queue has room. -/
theorem Box.sent_send :
    (b.send cap a).sent = if b.queue.length < cap then b.sent ++ [a] else b.sent := by
  unfold Box.sent Box.send push
  split
  · rw [List.append_assoc]
  · rfl

/-- A receive accepts nothing and forgets nothing. -/
theorem Box.sent_receive (h : b.receive = some (a, b')) : b'.sent = b.sent := by
  obtain ⟨queue, hq, rfl⟩ := Box.receive_eq_some_iff.1 h
  simp [Box.sent, hq]

/-! ## What was taken -/

/-- A reset takes nothing. -/
@[simp] theorem Box.received_reset : (b.reset i).received = b.received := by
  have hnone : (b.queue.map fun a => (a, Fate.discarded i)).filterMap taken = [] := by
    rw [List.filterMap_map, List.filterMap_eq_nil_iff]
    exact fun _ _ => rfl
  rw [Box.received, Box.reset, List.filterMap_append, hnone, List.append_nil]
  rfl

/-- A receive takes its item last. -/
theorem Box.received_receive (h : b.receive = some (a, b')) :
    b'.received = b.received ++ [a] := by
  obtain ⟨queue, -, rfl⟩ := Box.receive_eq_some_iff.1 h
  exact List.filterMap_append ..

/-- **Order.** What receivers took is a subsequence of what was accepted. -/
theorem Box.received_sublist_sent (b : Box α ι) : b.received.Sublist b.sent := by
  refine .trans ?_ (List.sublist_append_left _ _)
  unfold Box.received
  induction b.removed with
  | nil => exact .slnil
  | cons x removed ih =>
    obtain ⟨a, fate⟩ := x
    cases fate with
    | received => exact ih.cons_cons a
    | discarded i => exact ih.cons a

/-- An accepted item is queued, or was taken, or was discarded. -/
theorem Box.fate_of_mem_sent (h : a ∈ b.sent) :
    a ∈ b.queue ∨ a ∈ b.received ∨ ∃ i, (a, Fate.discarded i) ∈ b.removed := by
  rcases List.mem_append.1 h with hmem | hmem
  · obtain ⟨⟨x, fate⟩, hx, rfl⟩ := List.mem_map.1 hmem
    cases fate with
    | received => exact .inr (.inl (List.mem_filterMap.2 ⟨_, hx, rfl⟩))
    | discarded i => exact .inr (.inr ⟨i, hx⟩)
  · exact .inl hmem

end

end Mailbox

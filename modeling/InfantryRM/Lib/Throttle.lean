import Mathlib.Data.List.Destutter

/-!
# Senders that suppress repetitions

A sender remembers the last value that it sent and sends a value only when it differs from that one.
What it sends are the values without their repetitions (`List.destutter'`), so consecutive messages
differ (`isChain_cons_sent`), and the last message is the last value (`getLastD_sent`).
-/

namespace Throttle

variable {α : Type*} [DecidableEq α]

/-- What is sent of the values, when `last` was sent before. -/
def sent (last : α) (values : List α) : List α := (values.destutter' (· ≠ ·) last).tail

/-- The remembered value stands in front of what is sent. -/
theorem cons_sent (last : α) (values : List α) :
    last :: sent last values = values.destutter' (· ≠ ·) last := by
  induction values generalizing last with
  | nil => rfl
  | cons a values ih =>
    unfold sent
    by_cases h : last ≠ a
    · rw [List.destutter'_cons_pos _ h, List.tail_cons]
    · rw [List.destutter'_cons_neg _ h]
      exact ih last

/-- A value that differs from the last one is sent. -/
theorem sent_cons_of_ne {last a : α} (h : last ≠ a) (values : List α) :
    sent last (a :: values) = a :: sent a values := by
  rw [cons_sent, sent, List.destutter'_cons_pos _ h, List.tail_cons]

/-- A repetition is not sent. -/
theorem sent_cons_self (last : α) (values : List α) :
    sent last (last :: values) = sent last values := by
  rw [sent, List.destutter'_cons_neg _ (not_not.2 rfl), sent]

/-- **Consecutive messages differ.** -/
theorem isChain_cons_sent (last : α) (values : List α) :
    (last :: sent last values).IsChain (· ≠ ·) := by
  rw [cons_sent]
  exact List.isChain_destutter' _ values last

/-- Every message is one of the values. -/
theorem mem_of_mem_sent {last a : α} {values : List α} (h : a ∈ sent last values) : a ∈ values := by
  have hsub : List.Sublist (last :: sent last values) (last :: values) := by
    rw [cons_sent]
    exact List.destutter'_sublist values _ last
  exact (List.cons_sublist_cons.1 hsub).subset h

/-- **No change is lost.** The last message is the last value. -/
theorem getLastD_sent (last : α) (values : List α) :
    (sent last values).getLastD last = values.getLastD last := by
  induction values generalizing last with
  | nil => rfl
  | cons a values ih =>
    rw [List.getLastD_cons]
    by_cases h : last = a
    · subst h
      rw [sent_cons_self, ih]
    · rw [sent_cons_of_ne h, List.getLastD_cons, ih]

end Throttle

import InfantryRM.Lib.Run
import InfantryRM.Web.Write

/-!
# The loop of `my_write`

`my_write` as a state machine: its three variables, the bytes that `send` accepted and what it
returned, with one step for each result of `send` (`WriteLoop.step`). A step is enabled while the
loop runs, for the results that `send` can give there: it never accepts more bytes than it is asked
to send.

The invariant (`WriteLoop.Invariant`) puts the pointer behind the accepted bytes and those at the
start of the buffer. Every result except an interrupted one lowers the bytes that are left or ends
the loop, which bounds the calls of `send` (`WriteLoop.rank`, `exec_length_le`). The machine and
`myWrite` are one function (`myWrite_eq_finish`).
-/

namespace InfantryRM

open Run

/-! ## The machine -/

/-- The variables of `my_write`, the pointer as an offset in the buffer; the bytes that `send`
accepted so far; and what `my_write` returned, if it has. Source: `my_write` (`webserver.c:58`). -/
structure WriteLoop where
  ptr : Nat
  bytesLeft : Int
  accepted : List UInt8
  returned : Option Int
  deriving DecidableEq, Repr

/-- The test of the loop: `my_write` returns 0 when no bytes are left. Source: `my_write`
(`webserver.c:66`). -/
def WriteLoop.test (w : WriteLoop) : WriteLoop :=
  if w.bytesLeft > 0 then w else { w with returned := some 0 }

/-- The start of `my_write`, up to the first test. Source: `my_write` (`webserver.c:64`). -/
def WriteLoop.start (length : Int) : WriteLoop := WriteLoop.test ⟨0, length, [], none⟩

/-- An interrupted call. -/
def SendResult.Interrupted (r : SendResult) : Prop := r.writtenBytes ≤ 0 ∧ r.errno = EINTR

instance (r : SendResult) : Decidable r.Interrupted := inferInstanceAs (Decidable (_ ∧ _))

/-- The bytes that a call accepts; a failing one accepts none. -/
def SendResult.written (r : SendResult) : Nat := r.writtenBytes.toNat

/-- One turn of the loop with the result of its call of `send`. Source: `my_write`
(`webserver.c:68`). -/
def WriteLoop.step (buffer : List UInt8) (w : WriteLoop) (r : SendResult) : Option WriteLoop :=
  if w.returned = none ∧ r.writtenBytes ≤ w.bytesLeft then
    if r.writtenBytes ≤ 0 ∧ r.errno ≠ EINTR then some { w with returned := some (-1) }
    else
      -- an interrupted call counts as 0 bytes
      let writtenBytes := if r.writtenBytes ≤ 0 then 0 else r.writtenBytes
      some (WriteLoop.test
        { w with
          ptr := w.ptr + writtenBytes.toNat
          bytesLeft := w.bytesLeft - writtenBytes
          accepted := w.accepted ++ (buffer.drop w.ptr).take writtenBytes.toNat })
  else none

/-! ## One turn -/

section
variable {buffer : List UInt8} {length : Int} {w w' : WriteLoop} {r : SendResult}
  {rs : List SendResult}

/-- The variables behind a result that does not fail, before the test. -/
def WriteLoop.advance (buffer : List UInt8) (w : WriteLoop) (r : SendResult) : WriteLoop :=
  { w with
    ptr := w.ptr + r.written
    bytesLeft := w.bytesLeft - r.written
    accepted := w.accepted ++ (buffer.drop w.ptr).take r.written }

/-- What a turn can do: a failing result ends the loop with -1, any other moves on by the bytes that
were accepted. -/
theorem WriteLoop.step_cases (h : w.step buffer r = some w') :
    w.returned = none ∧ r.writtenBytes ≤ w.bytesLeft ∧
      ((r.Fails ∧ w' = { w with returned := some (-1) }) ∨
        (¬ r.Fails ∧ w' = (w.advance buffer r).test)) := by
  have hwritten : (if r.writtenBytes ≤ 0 then 0 else r.writtenBytes) = r.written := by
    unfold SendResult.written
    split <;> omega
  rw [WriteLoop.step, hwritten] at h
  split at h
  · next henabled =>
    refine ⟨henabled.1, henabled.2, ?_⟩
    split at h
    · next hfails => exact .inl ⟨hfails, (Option.some.inj h).symm⟩
    · next hfails => exact .inr ⟨hfails, (Option.some.inj h).symm⟩
  · cases h

/-- In the loop every result is enabled that does not exceed the bytes that are left. -/
theorem WriteLoop.step_eq_none_iff :
    w.step buffer r = none ↔ ¬ (w.returned = none ∧ r.writtenBytes ≤ w.bytesLeft) := by
  unfold WriteLoop.step
  split
  · next henabled =>
    refine iff_of_false ?_ (not_not.2 henabled)
    split
    · exact Option.some_ne_none _
    · exact Option.some_ne_none _
  · next henabled => exact iff_of_true rfl henabled

/-- The test leaves the pointer, the bytes that are left and the accepted ones alone. -/
theorem WriteLoop.test_frame (w : WriteLoop) :
    w.test.ptr = w.ptr ∧ w.test.bytesLeft = w.bytesLeft ∧ w.test.accepted = w.accepted := by
  unfold WriteLoop.test
  split
  · exact ⟨rfl, rfl, rfl⟩
  · exact ⟨rfl, rfl, rfl⟩

/-- After a test the loop runs on with bytes left, or `my_write` returned 0 with none left. -/
theorem WriteLoop.returned_test (h : w.returned = none) :
    (w.test.returned = none ∧ 0 < w.bytesLeft) ∨
      (w.test.returned = some 0 ∧ w.bytesLeft ≤ 0) := by
  unfold WriteLoop.test
  split
  · next hpos => exact .inl ⟨h, hpos⟩
  · next hpos => exact .inr ⟨rfl, not_lt.1 hpos⟩

/-- A test does not return -1. -/
theorem WriteLoop.returned_test_ne (h : w.returned = none) : w.test.returned ≠ some (-1) := by
  rcases WriteLoop.returned_test h with ⟨hrun, -⟩ | ⟨hdone, -⟩
  · rw [hrun]
    exact (Option.some_ne_none _).symm
  · rw [hdone]
    decide

/-! ## The invariant -/

/-- What holds after each turn, for the results so far: the pointer stands behind the bytes that the
results accepted, these are the first ones of the buffer, and `my_write` is in its loop while bytes
are left, unless the last result failed. -/
structure WriteLoop.Invariant (buffer : List UInt8) (length : Int) (rs : List SendResult)
    (w : WriteLoop) : Prop where
  ptr_eq_sum : w.ptr = (rs.map SendResult.written).sum
  ptr_eq_sub : (w.ptr : Int) = length - w.bytesLeft
  accepted : w.accepted = buffer.take w.ptr
  status : (w.returned = some 0 ∧ w.bytesLeft = min length 0) ∨
    ((w.returned = none ∨ w.returned = some (-1)) ∧ 0 < w.bytesLeft)
  failed : w.returned = some (-1) ↔ ∃ pre r, rs = pre ++ [r] ∧ r.Fails

/-- The loop runs only while bytes are left. -/
theorem WriteLoop.Invariant.pos (h : w.Invariant buffer length rs) (hrun : w.returned = none) :
    0 < w.bytesLeft := by
  rcases h.status with ⟨hdone, -⟩ | ⟨-, hpos⟩
  · rw [hrun] at hdone
    cases hdone
  · exact hpos

/-- `my_write` is in its loop at first, or returns 0 for a length that is not positive. -/
theorem WriteLoop.invariant_start (buffer : List UInt8) (length : Int) :
    (WriteLoop.start length).Invariant buffer length [] := by
  obtain ⟨hptr, hleft, haccepted⟩ := WriteLoop.test_frame ⟨0, length, [], none⟩
  have hreturned := WriteLoop.returned_test (w := ⟨0, length, [], none⟩) rfl
  refine ⟨hptr, ?_, ?_, ?_, ?_⟩
  · rw [WriteLoop.start, hptr, hleft, Nat.cast_zero, sub_self]
  · rw [WriteLoop.start, hptr, haccepted, List.take_zero]
  · rw [WriteLoop.start, hleft]
    rcases hreturned with ⟨hrun, hpos⟩ | ⟨hdone, hle⟩
    · exact .inr ⟨.inl hrun, hpos⟩
    · exact .inl ⟨hdone, (min_eq_left hle).symm⟩
  · refine iff_of_false (WriteLoop.returned_test_ne rfl) ?_
    rintro ⟨pre, r, heq, -⟩
    exact List.append_ne_nil_of_right_ne_nil pre (List.cons_ne_nil r []) heq.symm

/-- Every turn keeps the invariant. -/
theorem WriteLoop.Invariant.step (h : w.Invariant buffer length rs)
    (hst : w.step buffer r = some w') : w'.Invariant buffer length (rs ++ [r]) := by
  obtain ⟨hrun, hle, ⟨hfails, rfl⟩ | ⟨hfails, rfl⟩⟩ := WriteLoop.step_cases hst
  · have hwritten : r.written = 0 := Int.toNat_of_nonpos hfails.1
    refine ⟨?_, h.ptr_eq_sub, h.accepted, .inr ⟨.inr rfl, h.pos hrun⟩, iff_of_true rfl ?_⟩
    · rw [List.map_append, List.map_singleton, List.sum_append, List.sum_singleton, hwritten]
      exact h.ptr_eq_sum
    · exact ⟨rs, r, rfl, hfails⟩
  · obtain ⟨hptr, hleft, haccepted⟩ := (w.advance buffer r).test_frame
    have hreturned := WriteLoop.returned_test (w := w.advance buffer r) hrun
    have hpos := h.pos hrun
    have hsub := h.ptr_eq_sub
    have hwritten : (r.written : Int) ≤ w.bytesLeft := by
      unfold SendResult.written
      omega
    refine ⟨?_, ?_, ?_, ?_, ?_⟩
    · rw [hptr, List.map_append, List.map_singleton, List.sum_append, List.sum_singleton,
        ← h.ptr_eq_sum]
      rfl
    · rw [hptr, hleft]
      show ((w.ptr + r.written : Nat) : Int) = length - (w.bytesLeft - r.written)
      omega
    · rw [hptr, haccepted]
      show w.accepted ++ (buffer.drop w.ptr).take r.written = buffer.take (w.ptr + r.written)
      rw [h.accepted, List.take_add]
    · rw [hleft]
      rcases hreturned with ⟨hrun', hpos'⟩ | ⟨hdone, hle'⟩
      · exact .inr ⟨.inl hrun', hpos'⟩
      · refine .inl ⟨hdone, ?_⟩
        have hzero : w.bytesLeft - r.written ≤ 0 := hle'
        show w.bytesLeft - r.written = min length 0
        omega
    · refine iff_of_false (WriteLoop.returned_test_ne hrun) ?_
      rintro ⟨pre, r', heq, hfails'⟩
      obtain ⟨-, hsame⟩ := List.append_inj' heq rfl
      cases hsame
      exact hfails hfails'

/-- The invariant holds after every run. -/
theorem WriteLoop.invariant_exec
    (hexec : exec (WriteLoop.step buffer) (WriteLoop.start length) rs = some w) :
    w.Invariant buffer length rs :=
  exec_rec_on (P := fun rs w => w.Invariant buffer length rs) hexec
    (WriteLoop.invariant_start buffer length) fun _ _ _ _ _ h hst => h.step hst

/-- The pointer does not pass the end of the bytes to send. -/
theorem WriteLoop.Invariant.ptr_le (h : w.Invariant buffer length rs) : w.ptr ≤ length.toNat := by
  have hsub := h.ptr_eq_sub
  rcases h.status with ⟨-, hleft⟩ | ⟨-, hpos⟩
  · omega
  · omega

/-- `my_write` returns 0 exactly when the pointer stands at the end. -/
theorem WriteLoop.Invariant.returned_zero_iff (h : w.Invariant buffer length rs) :
    w.returned = some 0 ↔ w.ptr = length.toNat := by
  have hsub := h.ptr_eq_sub
  rcases h.status with ⟨hdone, hleft⟩ | ⟨hrun | hfailed, hpos⟩
  · exact iff_of_true hdone (by omega)
  · exact iff_of_false (by rw [hrun]; exact (Option.some_ne_none _).symm) (by omega)
  · exact iff_of_false (by rw [hfailed]; decide) (by omega)

/-- `my_write` returns 0 or -1. -/
theorem WriteLoop.Invariant.returned_eq {v : Int} (h : w.Invariant buffer length rs)
    (hv : w.returned = some v) : v = 0 ∨ v = -1 := by
  rcases h.status with ⟨hdone, -⟩ | ⟨hrun | hfailed, -⟩
  · exact .inl (Option.some.inj (hv.symm.trans hdone))
  · exact absurd (hv.symm.trans hrun) (Option.some_ne_none v)
  · exact .inr (Option.some.inj (hv.symm.trans hfailed))

/-! ## Termination -/

/-- The bytes that are left in a running loop. -/
def WriteLoop.rank (w : WriteLoop) : Nat := if w.returned = none then w.bytesLeft.toNat else 0

/-- A test does not raise the rank. -/
theorem WriteLoop.rank_test_le (w : WriteLoop) : w.test.rank ≤ w.bytesLeft.toNat := by
  obtain ⟨-, hleft, -⟩ := w.test_frame
  unfold WriteLoop.rank
  split
  · rw [hleft]
  · exact Nat.zero_le _

/-- Every turn leaves at most as many bytes as before, and fewer unless the call was interrupted. -/
theorem WriteLoop.rank_step (h : w.Invariant buffer length rs) (hst : w.step buffer r = some w') :
    w'.rank ≤ w.rank ∧ (¬ r.Interrupted → w'.rank < w.rank) := by
  obtain ⟨hrun, hle, hcases⟩ := WriteLoop.step_cases hst
  have hpos := h.pos hrun
  have hrank : w.rank = w.bytesLeft.toNat := if_pos hrun
  rcases hcases with ⟨-, rfl⟩ | ⟨hfails, rfl⟩
  · have hzero : { w with returned := some (-1) : WriteLoop }.rank = 0 := rfl
    rw [hzero, hrank]
    exact ⟨Nat.zero_le _, fun _ => by omega⟩
  · have htest := (w.advance buffer r).rank_test_le
    have hleft : (w.advance buffer r).bytesLeft = w.bytesLeft - r.written := rfl
    refine ⟨by omega, fun hinterrupted => ?_⟩
    have hwritten : 0 < r.written := by
      by_contra hzero
      have hnonpos : r.writtenBytes ≤ 0 := Int.toNat_eq_zero.1 (Nat.eq_zero_of_not_pos hzero)
      by_cases herr : r.errno = EINTR
      · exact hinterrupted ⟨hnonpos, herr⟩
      · exact hfails ⟨hnonpos, herr⟩
    omega

/-- A run does not raise the rank at a turn. -/
theorem WriteLoop.rank_le (w : WriteLoop) (r : SendResult) (w' : WriteLoop)
    (h : Reachable (WriteLoop.step buffer) (WriteLoop.start length) w)
    (hst : w.step buffer r = some w') : w'.rank ≤ w.rank := by
  obtain ⟨rs, hexec⟩ := h
  exact (WriteLoop.rank_step (WriteLoop.invariant_exec hexec) hst).1

/-- A run lowers the rank at every turn with a call that was not interrupted. -/
theorem WriteLoop.rank_lt (w : WriteLoop) (r : SendResult) (w' : WriteLoop)
    (h : Reachable (WriteLoop.step buffer) (WriteLoop.start length) w)
    (hst : w.step buffer r = some w') (hr : ¬ r.Interrupted) : w'.rank < w.rank := by
  obtain ⟨rs, hexec⟩ := h
  exact (WriteLoop.rank_step (WriteLoop.invariant_exec hexec) hst).2 hr

/-- `my_write` calls `send` at most once for each byte, interrupted calls apart. -/
theorem WriteLoop.calls_le
    (hexec : exec (WriteLoop.step buffer) (WriteLoop.start length) rs = some w) :
    rs.length ≤ length.toNat + rs.countP SendResult.Interrupted := by
  have hlen := exec_length_le WriteLoop.rank_le WriteLoop.rank_lt hexec
  have hstart : (WriteLoop.start length).rank ≤ length.toNat := WriteLoop.rank_test_le _
  omega

/-- With finitely many interrupted calls `my_write` returns. -/
theorem WriteLoop.exists_returned {rs : ℕ → SendResult}
    (hsend : ∀ n w, exec (WriteLoop.step buffer) (WriteLoop.start length) ((List.range n).map rs) =
      some w → w.returned = none → (rs n).writtenBytes ≤ w.bytesLeft)
    (hfin : {n | (rs n).Interrupted}.Finite) :
    ∃ n w, exec (WriteLoop.step buffer) (WriteLoop.start length) ((List.range n).map rs) = some w ∧
      w.returned.isSome := by
  obtain ⟨n, w, hexec, hnone⟩ := exists_not_enabled WriteLoop.rank_le WriteLoop.rank_lt hfin
  refine ⟨n, w, hexec, ?_⟩
  rw [WriteLoop.step_eq_none_iff] at hnone
  by_contra hsome
  have hrun : w.returned = none := Option.not_isSome_iff_eq_none.1 hsome
  exact hnone ⟨hrun, hsend n w hexec hrun⟩

/-! ## The main result -/

/-- **Each byte once, and in order.** After every turn the accepted bytes are the first ones of the
buffer, as many as are no longer left, and the pointer stands behind them. `my_write` returns 0
exactly when the results accepted `length` bytes, which are the whole buffer when it holds as many,
and -1 exactly when the last result was not positive with an `errno` other than `EINTR`; nothing
else is returned. Every stream of results with finitely many interrupted calls makes it return. -/
theorem myWrite_sends_once (buffer : List UInt8) (length : Int) :
    (∀ rs w, exec (WriteLoop.step buffer) (WriteLoop.start length) rs = some w →
      w.accepted = buffer.take (length - w.bytesLeft).toNat ∧
        (w.ptr : Int) = length - w.bytesLeft ∧
        w.ptr = (rs.map SendResult.written).sum ∧
        (w.returned = some 0 ↔ (rs.map SendResult.written).sum = length.toNat) ∧
        (length ≤ buffer.length → (w.returned = some 0 ↔ w.accepted = buffer.take length.toNat)) ∧
        (w.returned = some (-1) ↔ ∃ pre r, rs = pre ++ [r] ∧ r.writtenBytes ≤ 0 ∧
          r.errno ≠ EINTR) ∧
        (∀ v, w.returned = some v → v = 0 ∨ v = -1)) ∧
      ∀ rs : ℕ → SendResult,
        (∀ n w, exec (WriteLoop.step buffer) (WriteLoop.start length) ((List.range n).map rs) =
          some w → w.returned = none → (rs n).writtenBytes ≤ w.bytesLeft) →
        {n | (rs n).writtenBytes ≤ 0 ∧ (rs n).errno = EINTR}.Finite →
        ∃ n w, exec (WriteLoop.step buffer) (WriteLoop.start length) ((List.range n).map rs) =
          some w ∧ w.returned.isSome := by
  refine ⟨fun rs w hexec => ?_, fun rs hsend hfin => WriteLoop.exists_returned hsend hfin⟩
  have h := WriteLoop.invariant_exec hexec
  have hsub := h.ptr_eq_sub
  have hptr : (length - w.bytesLeft).toNat = w.ptr := by omega
  refine ⟨?_, hsub, h.ptr_eq_sum, ?_, fun hlen => ?_, h.failed, fun v => h.returned_eq⟩
  · rw [hptr]
    exact h.accepted
  · rw [← h.ptr_eq_sum]
    exact h.returned_zero_iff
  · have hle := h.ptr_le
    rw [h.returned_zero_iff, h.accepted, List.take_eq_take_iff]
    omega

/-- Three bytes in two calls, with an interrupted one between them. -/
example : exec (WriteLoop.step [7, 8, 9]) (WriteLoop.start 3) [⟨2, 0⟩, ⟨-1, EINTR⟩, ⟨1, 0⟩] =
    some ⟨3, 0, [7, 8, 9], some 0⟩ := by decide

/-! ## The function -/

/-- What `my_write` does from a state of its loop with the results that are still to come. -/
def WriteLoop.finish (buffer : List UInt8) (w : WriteLoop) (rest : List SendResult) : Writing :=
  match w.returned with
  | some v => ⟨w.accepted, some v, rest⟩
  | none =>
    let next := myWriteLoop buffer w.ptr w.bytesLeft.toNat rest
    { next with accepted := w.accepted ++ next.accepted }

/-- The test is the end of `myWriteLoop` at 0. -/
theorem WriteLoop.finish_test (hrun : w.returned = none) (rest : List SendResult) :
    w.test.finish buffer rest = w.finish buffer rest := by
  unfold WriteLoop.test
  split
  · rfl
  · next hpos =>
    have hzero : w.bytesLeft.toNat = 0 := by omega
    unfold WriteLoop.finish
    simp only [hrun, hzero, myWriteLoop, List.append_nil]

/-- A turn is one call of `myWriteLoop`. -/
theorem WriteLoop.finish_step (h : w.Invariant buffer length rs)
    (hst : w.step buffer r = some w') (rest : List SendResult) :
    w.finish buffer (r :: rest) = w'.finish buffer rest := by
  obtain ⟨hrun, hle, hcases⟩ := WriteLoop.step_cases hst
  have hpos : 0 < w.bytesLeft.toNat := Int.lt_toNat.2 (h.pos hrun)
  rcases hcases with ⟨hfails, rfl⟩ | ⟨hfails, rfl⟩
  · unfold WriteLoop.finish
    simp only [hrun, myWriteLoop_of_fails hfails hpos, List.append_nil]
  · have hmin : min r.writtenBytes.toNat w.bytesLeft.toNat = r.written := by
      unfold SendResult.written
      omega
    have hleft : w.bytesLeft.toNat - r.written = (w.bytesLeft - r.written).toNat := by
      unfold SendResult.written
      omega
    rw [WriteLoop.finish_test (w := w.advance buffer r) hrun]
    unfold WriteLoop.finish
    simp only [hrun, WriteLoop.advance, myWriteLoop_of_not_fails hfails hpos, hmin, hleft,
      List.append_assoc]

/-- **The machine is `myWrite`.** After a run `my_write` does with the results of the run and others
what the reached state does with the others. -/
theorem myWrite_eq_finish
    (hexec : exec (WriteLoop.step buffer) (WriteLoop.start buffer.length) rs = some w)
    (rest : List SendResult) : myWrite buffer (rs ++ rest) = w.finish buffer rest := by
  refine exec_rec_on (P := fun rs w => ∀ rest, myWrite buffer (rs ++ rest) = w.finish buffer rest)
    hexec (fun rest => ?_) (fun rs w r w' hrs ih hst rest => ?_) rest
  · rw [WriteLoop.start, WriteLoop.finish_test rfl]
    rfl
  · rw [List.append_assoc, ih, List.singleton_append]
    exact WriteLoop.finish_step (WriteLoop.invariant_exec hrs) hst rest

end

end InfantryRM

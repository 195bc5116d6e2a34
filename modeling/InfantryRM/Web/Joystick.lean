import InfantryRM.Lib.Throttle
import InfantryRM.Web.Page

/-!
# The joystick of the control page

Every position of the pointer goes through `new_coordinate`, which issues a request only when the
cell differs from the one that it sent last. The page is a sender that suppresses repetitions
(`requests_eq`), so the cells that the robot decodes from its requests are those of the positions
without their repetitions (`requestedCells_eq`): none is lost, and the last one is the cell of the
last position (`joystick_loses_no_cell`).

The handlers of the canvas call `new_coordinate` with the centre when the pointer is released
(`Pointer.handle`), so that the last request of a released joystick is the cell in the middle, at
which the chassis stops (`Pointer.release_requests_stop`).
-/

namespace InfantryRM

open Run CString Strtol Throttle

/-! ## Requests -/

/-- The cell that the loaded page takes for sent. Source: `LastX`, `LastY` (`index.html:330`). -/
def Joystick.initial : Joystick := ⟨cellOf centerX centerX, cellOf centerY centerY⟩

/-- The requests that calls of the pointer handler issue, in order. Source: `new_coordinate`
(`index.html:333`). -/
def Joystick.requests : Joystick → List (Int × Int) → List (List UInt8)
  | _, [] => []
  | st, (nowX, nowY) :: calls =>
    let (next, query) := newCoordinate st nowX nowY
    query.toList ++ next.requests calls

/-- The cell that `web_recdata` decodes from a request's four digits. -/
def requestedCell (query : List UInt8) : Int × Int :=
  let myvalue := atoi (query.drop 12)
  (chassisX myvalue, chassisY myvalue)

/-- The cells that the loaded page requests for calls of its pointer handler. -/
def requestedCells (calls : List (Int × Int)) : List (Int × Int) :=
  (Joystick.initial.requests calls).map requestedCell

/-- The cell of the centre is the middle one. -/
theorem clampedCell_center : clampedCell (centerX, centerY) = (5, 5) := by decide

@[simp] theorem Joystick.cell_initial : Joystick.initial.cell = (5, 5) := by decide

/-- The call of `new_coordinate` while the page loads (`index.html:264`) comes before the assignment
of the last cell, which is no cell then. It requests the middle cell and leaves the initial state.
-/
theorem newCoordinate_load {st : Joystick} (h : st.cell ≠ (5, 5)) :
    newCoordinate st centerX centerY = (Joystick.initial, some (cellQuery (5, 5))) := by
  rw [newCoordinate_eq st (centerX, centerY), clampedCell_center, if_pos h]
  decide

/-- The two coordinates of a cell lie between 0 and 10. -/
theorem clampedCell_bounds (p : Int × Int) :
    0 ≤ (clampedCell p).1 ∧ (clampedCell p).1 ≤ 10 ∧
      0 ≤ (clampedCell p).2 ∧ (clampedCell p).2 ≤ 10 := by
  obtain ⟨hx0, hx⟩ := clampCoordinate_cell p.1
  obtain ⟨hy0, hy⟩ := clampCoordinate_cell p.2
  exact ⟨hx0, hx, hy0, hy⟩

/-- **The throttle.** The page requests the cells of the calls without their repetitions. -/
theorem Joystick.requests_eq (st : Joystick) (calls : List (Int × Int)) :
    st.requests calls = (sent st.cell (calls.map clampedCell)).map cellQuery := by
  induction calls generalizing st with
  | nil => rfl
  | cons p calls ih =>
    rw [List.map_cons, Joystick.requests, newCoordinate_eq st p]
    by_cases h : st.cell ≠ clampedCell p
    · rw [if_pos h, sent_cons_of_ne h, List.map_cons]
      exact congrArg (cellQuery (clampedCell p) :: ·) (ih _)
    · rw [if_neg h, ← not_not.1 h, sent_cons_self]
      exact ih st

/-- A cell's request is decoded to the cell. -/
theorem requestedCell_cellQuery {c : Int × Int} (hx0 : 0 ≤ c.1) (hx : c.1 ≤ 10) (hy0 : 0 ≤ c.2)
    (hy : c.2 ≤ 10) : requestedCell (cellQuery c) = c := by
  obtain ⟨hlen, hdig, hvalue⟩ := cellDigits hx0 hx hy0 hy
  have hname : (ascii "/rocker?val=").length = 12 := by decide
  have hmax : (digitsValue (prefixZero c.1 2 ++ prefixZero c.2 2) : Int) ≤ longMax := by
    rw [hvalue, longMax]
    omega
  have hatoi : atoi (prefixZero c.1 2 ++ prefixZero c.2 2) = c.1 * 100 + c.2 := by
    rw [← hvalue, ← atoi_digits_append (t := []) (List.ne_nil_of_length_pos (by omega)) hdig
      (by simp) hmax, List.append_nil]
  obtain ⟨hcx, hcy⟩ := cellValue_split hx0 hy0 hy
  unfold requestedCell cellQuery
  rw [List.append_assoc, List.drop_left' hname, hatoi]
  exact Prod.ext hcx hcy

/-- What the robot decodes are the cells of the calls without their repetitions. -/
theorem requestedCells_eq (calls : List (Int × Int)) :
    requestedCells calls = sent (5, 5) (calls.map clampedCell) := by
  rw [requestedCells, Joystick.requests_eq, Joystick.cell_initial, List.map_map]
  refine (List.map_congr_left fun c hc => ?_).trans (List.map_id _)
  obtain ⟨p, -, rfl⟩ := List.mem_map.1 (mem_of_mem_sent hc)
  obtain ⟨hx0, hx, hy0, hy⟩ := clampedCell_bounds p
  exact requestedCell_cellQuery hx0 hx hy0 hy

/-- The last cell that the page requested, or the middle one, is that of the last call, or of the
centre. -/
theorem getLastD_requestedCells (calls : List (Int × Int)) :
    (requestedCells calls).getLastD (5, 5) = clampedCell (calls.getLastD (centerX, centerY)) := by
  rw [requestedCells_eq, getLastD_sent, ← clampedCell_center]
  exact List.getLastD_map

/-- **No change of the cell is lost.** After every call of the pointer handler the last requested
cell is the clamped cell of the call, whatever the earlier calls were. Consecutive requests carry
different cells, the first one another cell than the middle one, and every requested cell lies on
the grid. After a call with the centre the last requested cell is the one at which the chassis
stops. -/
theorem joystick_loses_no_cell (calls : List (Int × Int)) :
    (∀ p, (requestedCells (calls ++ [p])).getLastD (5, 5) = clampedCell p) ∧
      ((5, 5) :: requestedCells calls).IsChain (· ≠ ·) ∧
      (∀ c ∈ requestedCells calls, 0 ≤ c.1 ∧ c.1 ≤ 10 ∧ 0 ≤ c.2 ∧ c.2 ≤ 10) ∧
      (requestedCells (calls ++ [(centerX, centerY)])).getLastD (5, 5) = (5, 5) ∧
      cellPattern 5 5 = some .stop := by
  have hlast (p : Int × Int) : (requestedCells (calls ++ [p])).getLastD (5, 5) = clampedCell p := by
    rw [getLastD_requestedCells, List.getLastD_concat]
  refine ⟨hlast, ?_, ?_, ?_, by decide⟩
  · rw [requestedCells_eq]
    exact isChain_cons_sent _ _
  · intro c hc
    rw [requestedCells_eq] at hc
    obtain ⟨p, -, rfl⟩ := List.mem_map.1 (mem_of_mem_sent hc)
    exact clampedCell_bounds p
  · rw [hlast, clampedCell_center]

/-! ## Gestures -/

/-- The events that the handlers of the canvas and of the document get, with the position on the
canvas. -/
inductive PointerEvent
  | touchstart (nowX nowY : Int)
  | touchmove (nowX nowY : Int)
  | touchend
  | mousedown (nowX nowY : Int)
  | mousemove (nowX nowY : Int)
  | mouseup
  deriving DecidableEq, Repr

/-- The handlers that are installed on the document, and the calls of `new_coordinate` so far. -/
structure Pointer where
  ontouchmove : Bool
  ontouchend : Bool
  onmousemove : Bool
  onmouseup : Bool
  calls : List (Int × Int)
  deriving DecidableEq, Repr

/-- The loaded page has the handlers of the canvas only. -/
def Pointer.initial : Pointer := ⟨false, false, false, false, []⟩

/-- A call of `new_coordinate`. -/
def Pointer.call (s : Pointer) (nowX nowY : Int) : Pointer :=
  { s with calls := s.calls ++ [(nowX, nowY)] }

/-- The handler that an event runs, if one is installed. The end of a touch removes the handler of
the moves and keeps its own. Source: `coordiv.ontouchstart` (`index.html:290`),
`coordiv.onmousedown` (`index.html:312`). -/
def Pointer.handle (s : Pointer) : PointerEvent → Pointer
  | .touchstart nowX nowY => { s.call nowX nowY with ontouchmove := true, ontouchend := true }
  | .touchmove nowX nowY => if s.ontouchmove then s.call nowX nowY else s
  | .touchend => if s.ontouchend then { s.call centerX centerY with ontouchmove := false } else s
  | .mousedown nowX nowY => { s.call nowX nowY with onmousemove := true, onmouseup := true }
  | .mousemove nowX nowY => if s.onmousemove then s.call nowX nowY else s
  | .mouseup =>
    if s.onmouseup then { s.call centerX centerY with onmousemove := false, onmouseup := false }
    else s

/-- What holds between two events: a handler of moves stands only beside its handler of the release,
and when neither stands the last call was one with the centre. -/
structure Pointer.Invariant (s : Pointer) : Prop where
  touch : s.ontouchmove = true → s.ontouchend = true
  mouse : s.onmousemove = true → s.onmouseup = true
  released : s.ontouchmove = false → s.onmousemove = false →
    s.calls.getLastD (centerX, centerY) = (centerX, centerY)

/-- The last call. -/
theorem Pointer.getLastD_call (s : Pointer) (nowX nowY : Int) :
    (s.call nowX nowY).calls.getLastD (centerX, centerY) = (nowX, nowY) :=
  List.getLastD_concat

/-- Every event keeps the invariant. -/
theorem Pointer.Invariant.handle {s : Pointer} (h : s.Invariant) (e : PointerEvent) :
    (s.handle e).Invariant := by
  cases e with
  | touchstart nowX nowY => exact ⟨fun _ => rfl, h.mouse, fun htouch _ => nomatch htouch⟩
  | mousedown nowX nowY => exact ⟨h.touch, fun _ => rfl, fun _ hmouse => nomatch hmouse⟩
  | touchmove nowX nowY =>
    rw [Pointer.handle]
    split
    · next hmove => exact ⟨h.touch, h.mouse, fun htouch _ => nomatch hmove.symm.trans htouch⟩
    · exact h
  | mousemove nowX nowY =>
    rw [Pointer.handle]
    split
    · next hmove => exact ⟨h.touch, h.mouse, fun _ hmouse => nomatch hmove.symm.trans hmouse⟩
    · exact h
  | touchend =>
    rw [Pointer.handle]
    split
    · exact ⟨nofun, h.mouse, fun _ _ => s.getLastD_call centerX centerY⟩
    · exact h
  | mouseup =>
    rw [Pointer.handle]
    split
    · exact ⟨h.touch, nofun, fun _ _ => s.getLastD_call centerX centerY⟩
    · exact h

/-- The invariant holds after every sequence of events. -/
theorem Pointer.invariant_foldl (es : List PointerEvent) :
    (es.foldl Pointer.handle Pointer.initial).Invariant := by
  induction es using List.reverseRecOn with
  | nil => exact ⟨nofun, nofun, fun _ _ => rfl⟩
  | append_singleton es e ih =>
    rw [List.foldl_concat]
    exact ih.handle e

/-- The last requested cell of a released joystick is the one in the middle. -/
theorem Pointer.Invariant.requests_stop {s : Pointer} (h : s.Invariant)
    (htouch : s.ontouchmove = false) (hmouse : s.onmousemove = false) :
    (requestedCells s.calls).getLastD (5, 5) = (5, 5) := by
  rw [getLastD_requestedCells, h.released htouch hmouse, clampedCell_center]

/-- The end of a touch removes the handler of the moves. -/
theorem Pointer.Invariant.handle_touchend {s : Pointer} (h : s.Invariant) :
    (s.handle .touchend).ontouchmove = false ∧
      (s.handle .touchend).onmousemove = s.onmousemove := by
  rw [Pointer.handle]
  split
  · exact ⟨rfl, rfl⟩
  · next hend => exact ⟨Bool.eq_false_iff.2 fun hmove => hend (h.touch hmove), rfl⟩

/-- The release of the mouse button removes the handler of the moves. -/
theorem Pointer.Invariant.handle_mouseup {s : Pointer} (h : s.Invariant) :
    (s.handle .mouseup).onmousemove = false ∧
      (s.handle .mouseup).ontouchmove = s.ontouchmove := by
  rw [Pointer.handle]
  split
  · exact ⟨rfl, rfl⟩
  · next hup => exact ⟨Bool.eq_false_iff.2 fun hmove => hup (h.mouse hmove), rfl⟩

/-- **A released joystick stops the chassis.** Whatever the events were: when the end of a touch
comes while the mouse does not hold the joystick, or the release of the mouse button while no finger
does, the last requested cell is the one in the middle. -/
theorem Pointer.release_requests_stop (es : List PointerEvent) :
    ((es.foldl Pointer.handle Pointer.initial).onmousemove = false →
        (requestedCells ((es ++ [PointerEvent.touchend]).foldl Pointer.handle
          Pointer.initial).calls).getLastD (5, 5) = (5, 5)) ∧
      ((es.foldl Pointer.handle Pointer.initial).ontouchmove = false →
        (requestedCells ((es ++ [PointerEvent.mouseup]).foldl Pointer.handle
          Pointer.initial).calls).getLastD (5, 5) = (5, 5)) := by
  have h := Pointer.invariant_foldl es
  rw [List.foldl_concat, List.foldl_concat]
  refine ⟨fun hmouse => ?_, fun htouch => ?_⟩
  · obtain ⟨hremoved, hkept⟩ := h.handle_touchend
    exact (h.handle .touchend).requests_stop hremoved (hkept.trans hmouse)
  · obtain ⟨hremoved, hkept⟩ := h.handle_mouseup
    exact (h.handle .mouseup).requests_stop (hkept.trans htouch) hremoved

end InfantryRM

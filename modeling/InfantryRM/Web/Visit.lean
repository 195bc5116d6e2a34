import InfantryRM.Web.Controls

/-!
# The page in the browser

What a browser requests of the server. Loading the page requests its path, which names no command,
and then, from its script, the middle cell of the joystick (`newCoordinate_load`). After that the
buttons and the joystick issue the requests of their controls, those of the joystick as
`new_coordinate` does (`Joystick.call_query`), and the browser may request other things in between,
such as an icon, or open a connection and send nothing (`Page.step`).

A request for something else stops the chassis, like one for the middle cell. So the chassis has
moved last for the cell of the last position of the pointer, or for something else
(`Page.Invariant.moved`), and always for the former when the page has been loaded and nothing else
has been requested since (`Page.Invariant.moved_of_load`).
-/

namespace InfantryRM

open Run

/-! ## Requests -/

/-- What a connection is for: a control of the page, something that is no command, or nothing. -/
inductive PageRequest
  | control (c : Control)
  | other
  | nothing

/-- What the server makes of a request: its default branch stops the chassis. -/
def PageRequest.order : PageRequest → Option Order
  | .control c => c.order
  | .other => some (.move .stop)
  | .nothing => none

/-- A request of a control, with any headers. -/
def Control.Requests (c : Control) (r : Option Received) : Prop :=
  ∃ received headers, r = some received ∧ received.bytes = getRequest c.query headers

/-- What is received of a connection. A request for something else has any method and any URI that
fits the record and starts like no command. -/
def PageRequest.Requests (r : Option Received) : PageRequest → Prop
  | .control c => c.Requests r
  | .other => ∃ received s h, r = some received ∧ RequestText received.text s h ∧
    h ≤ s + 1 + urlSize ∧ ∀ c : Command, (uriBytes received.text s h).take 5 ≠ c.literal.take 5
  | .nothing => ∀ received, r = some received → ¬ ∃ s h, RequestText received.text s h

/-- What moves the chassis: a cell of the joystick, or the request for something else. -/
inductive Move
  | cell (c : Cell)
  | other

def PageRequest.move? : PageRequest → Option Move
  | .control (.cell c) => some (.cell c)
  | .other => some .other
  | .control (.button _) | .nothing => none

/-! ## The page -/

/-- The cell of a position of the pointer. -/
def Cell.clamped (p : Int × Int) : Cell where
  x := (clampedCell p).1
  y := (clampedCell p).2
  x_nonneg := (clampedCell_bounds p).1
  x_le := (clampedCell_bounds p).2.1
  y_nonneg := (clampedCell_bounds p).2.2.1
  y_le := (clampedCell_bounds p).2.2.2

/-- A call of `new_coordinate`, with the control whose request it issues. -/
def Joystick.call (st : Joystick) (p : Int × Int) : Joystick × Option Control :=
  let (next, query) := newCoordinate st p.1 p.2
  (next, query.map fun _ => .cell (.clamped p))

/-- The variables `LastX` and `LastY` before they are assigned, unequal to every coordinate. Source:
the call of `index.html:264`, in front of `index.html:330`. -/
def Joystick.unassigned : Joystick := ⟨-1, -1⟩

/-- The call of `new_coordinate` that an event makes. -/
def Pointer.called (s : Pointer) (e : PointerEvent) : Option (Int × Int) :=
  ((s.handle e).calls.drop s.calls.length).head?

/-- What happens at the page. The browser may also request something else, or open a connection
without a request. -/
inductive PageEvent
  | load
  | press (b : Button)
  | pointer (e : PointerEvent)
  | other
  | connect
  deriving DecidableEq, Repr

/-- The state of the page's script. -/
structure Page where
  joystick : Joystick
  pointer : Pointer
  deriving DecidableEq, Repr

/-- The loaded page. -/
def Page.loaded : Page := ⟨Joystick.initial, Pointer.initial⟩

/-- An event at the page, with the requests that it causes. Source: `index.html:89` to
`index.html:379`. -/
def Page.step (p : Page) : PageEvent → Page × List PageRequest
  | .load => (Page.loaded,
    .other :: (Joystick.unassigned.call (centerX, centerY)).2.toList.map .control)
  | .press b => (p, [.control (.button b)])
  | .pointer e =>
    match p.pointer.called e with
    | some position =>
      let (next, c) := p.joystick.call position
      (⟨next, p.pointer.handle e⟩, c.toList.map .control)
    | none => ({ p with pointer := p.pointer.handle e }, [])
  | .other => (p, [.other])
  | .connect => (p, [.nothing])

/-- The page after some events, and the requests that they cause. -/
def Page.after (p : Page) (es : List PageEvent) : Page := es.foldl (fun p e => (p.step e).1) p

def Page.requests : Page → List PageEvent → List PageRequest
  | _, [] => []
  | p, e :: es => (p.step e).2 ++ (p.step e).1.requests es

/-- The last position of the pointer that the page has seen, or the centre. -/
def Page.position (p : Page) : Int × Int := p.pointer.calls.getLastD (centerX, centerY)

/-- Neither a finger nor a mouse button holds the joystick. -/
def Page.Released (p : Page) : Prop :=
  p.pointer.ontouchmove = false ∧ p.pointer.onmousemove = false

/-- What holds of a page between two events: its handlers fit together, and the cell that it takes
for sent is that of the last position. -/
structure Page.Invariant (p : Page) : Prop where
  pointer : p.pointer.Invariant
  cell : p.joystick.cell = clampedCell p.position

/-- The last request that moved the chassis was not one of the joystick, or it was one for the cell
of the last position. -/
def Page.Moved (p : Page) (requests : List PageRequest) : Prop :=
  ∀ c, lastSome PageRequest.move? requests = some (.cell c) → c = .clamped p.position

section
variable {p : Page} {requests : List PageRequest}

/-! ## Calls -/

/-- The call requests the cell of the position when the page sent another one last. -/
theorem Joystick.call_eq (st : Joystick) (position : Int × Int) :
    st.call position =
      if st.cell ≠ clampedCell position then
        (⟨(clampedCell position).1, (clampedCell position).2⟩, some (.cell (.clamped position)))
      else (st, none) := by
  by_cases h : st.cell ≠ clampedCell position
  · simp only [Joystick.call, newCoordinate_eq, if_pos h, Option.map_some]
  · simp only [Joystick.call, newCoordinate_eq, if_neg h, Option.map_none]

/-- The control of a call is the one whose path and query the page requests. -/
theorem Joystick.call_query (st : Joystick) (position : Int × Int) :
    (st.call position).2.map Control.query = (newCoordinate st position.1 position.2).2 := by
  rw [st.call_eq, newCoordinate_eq]
  split <;> rfl

/-- After a call the page takes the cell of the position for sent. -/
theorem Joystick.call_cell (st : Joystick) (position : Int × Int) :
    (st.call position).1.cell = clampedCell position := by
  rw [st.call_eq]
  split
  · rfl
  · next h => exact not_not.1 h

/-- While the page loads, its script requests the middle cell. -/
theorem Joystick.call_unassigned :
    Joystick.unassigned.call (centerX, centerY) =
      (Joystick.initial, some (.cell (.clamped (centerX, centerY)))) := by
  have hload : newCoordinate Joystick.unassigned centerX centerY =
      (Joystick.initial, some (cellQuery (5, 5))) := newCoordinate_load (by decide)
  rw [Joystick.call, hload]
  rfl

/-- Positions in the same cell. -/
theorem Cell.clamped_congr {position position' : Int × Int}
    (h : clampedCell position = clampedCell position') :
    Cell.clamped position = Cell.clamped position' := by
  unfold Cell.clamped
  simp only [h]

/-- An event makes at most one call. -/
theorem Pointer.handle_calls (s : Pointer) (e : PointerEvent) :
    (s.handle e).calls = s.calls ++ (s.called e).toList := by
  have hcall (nowX nowY : Int) : (s.call nowX nowY).calls =
      s.calls ++ ((s.call nowX nowY).calls.drop s.calls.length).head?.toList := by
    rw [Pointer.call, List.drop_left]
    rfl
  have hnone : s.calls = s.calls ++ (s.calls.drop s.calls.length).head?.toList := by
    rw [List.drop_length]
    exact (List.append_nil _).symm
  unfold Pointer.called
  cases e with
  | touchstart nowX nowY | mousedown nowX nowY => exact hcall nowX nowY
  | touchmove | mousemove | touchend | mouseup =>
    simp only [Pointer.handle]
    split
    · exact hcall _ _
    · exact hnone

/-- The last position after an event of the pointer. -/
theorem Pointer.getLastD_handle (s : Pointer) (e : PointerEvent) :
    (s.handle e).calls.getLastD (centerX, centerY) =
      (s.called e).getD (s.calls.getLastD (centerX, centerY)) := by
  rw [s.handle_calls]
  cases s.called e with
  | none => rw [Option.toList_none, List.append_nil, Option.getD_none]
  | some position => exact List.getLastD_concat

/-! ## Events -/

/-- The loaded page. -/
theorem Page.invariant_loaded : Page.loaded.Invariant :=
  ⟨Pointer.invariant_foldl [], Joystick.cell_initial.trans clampedCell_center.symm⟩

/-- What an event of the pointer does to the page. -/
theorem Page.step_pointer (p : Page) (e : PointerEvent) :
    (p.step (.pointer e)).1.pointer = p.pointer.handle e ∧
      (p.step (.pointer e)).1.position = (p.pointer.called e).getD p.position := by
  refine ⟨?_, ?_⟩
  · rw [Page.step]
    split <;> rfl
  · rw [Page.position, Page.position, ← p.pointer.getLastD_handle, Page.step]
    split <;> rfl

/-- Every event keeps the invariant. -/
theorem Page.Invariant.step (h : p.Invariant) (e : PageEvent) : (p.step e).1.Invariant := by
  cases e with
  | load => exact Page.invariant_loaded
  | press | other | connect => exact h
  | pointer e =>
    obtain ⟨hpointer, hposition⟩ := p.step_pointer e
    refine ⟨hpointer ▸ h.pointer.handle e, ?_⟩
    rw [hposition, Page.step]
    cases hcalled : p.pointer.called e with
    | none => exact h.cell
    | some position => exact p.joystick.call_cell position

/-- What an event makes of the last movement: it requests something else, or the cell of the last
position, or no movement, and then the last position stays in its cell. -/
theorem Page.Invariant.move_step (h : p.Invariant) (e : PageEvent) :
    (e = .other ∧ lastSome PageRequest.move? (p.step e).2 = some .other) ∨
      lastSome PageRequest.move? (p.step e).2 =
        some (.cell (.clamped (p.step e).1.position)) ∨
      (lastSome PageRequest.move? (p.step e).2 = none ∧
        Cell.clamped (p.step e).1.position = Cell.clamped p.position) := by
  cases e with
  | load =>
    refine .inr (.inl ?_)
    simp only [Page.step, Joystick.call_unassigned]
    rfl
  | press | connect => exact .inr (.inr ⟨rfl, rfl⟩)
  | other => exact .inl ⟨rfl, rfl⟩
  | pointer e =>
    rw [(p.step_pointer e).2, Page.step]
    cases p.pointer.called e with
    | none => exact .inr (.inr ⟨rfl, rfl⟩)
    | some position =>
      simp only [Joystick.call_eq, Option.getD_some]
      split
      · exact .inr (.inl rfl)
      · -- a position in the cell that was sent last causes no request
        next hsame =>
        exact .inr (.inr ⟨rfl, Cell.clamped_congr ((not_not.1 hsame).symm.trans h.cell)⟩)

/-- Every event keeps track of the last movement. -/
theorem Page.Moved.step (hmoved : p.Moved requests) (h : p.Invariant) (e : PageEvent) :
    (p.step e).1.Moved (requests ++ (p.step e).2) := by
  intro c hlast
  rw [lastSome_append] at hlast
  rcases h.move_step e with ⟨-, hother⟩ | hcell | ⟨hnone, hsame⟩
  · rw [hother] at hlast
    cases hlast
  · rw [hcell] at hlast
    cases hlast
    rfl
  · rw [hnone] at hlast
    rw [hsame]
    exact hmoved c hlast

/-! ## Visits -/

/-- The requests of a longer visit. -/
theorem Page.requests_append (p : Page) (es es' : List PageEvent) :
    p.requests (es ++ es') = p.requests es ++ (p.after es).requests es' := by
  induction es generalizing p with
  | nil => rfl
  | cons e es ih =>
    rw [List.cons_append, Page.requests, Page.requests, ih, List.append_assoc]
    rfl

theorem Page.requests_concat (p : Page) (es : List PageEvent) (e : PageEvent) :
    p.requests (es ++ [e]) = p.requests es ++ ((p.after es).step e).2 := by
  rw [p.requests_append]
  exact congrArg _ (List.append_nil _)

theorem Page.after_concat (p : Page) (es : List PageEvent) (e : PageEvent) :
    p.after (es ++ [e]) = ((p.after es).step e).1 := List.foldl_concat ..

theorem Page.after_append (p : Page) (es es' : List PageEvent) :
    p.after (es ++ es') = (p.after es).after es' := List.foldl_append ..

/-- The invariant holds after every visit. -/
theorem Page.Invariant.after (h : p.Invariant) (es : List PageEvent) : (p.after es).Invariant := by
  induction es using List.reverseRecOn with
  | nil => exact h
  | append_singleton es e ih =>
    rw [p.after_concat]
    exact ih.step e

/-- **The last movement.** The last request of a visit that moves the chassis is one for the cell of
the last position of the pointer, or one for something else. -/
theorem Page.Invariant.moved (h : p.Invariant) (es : List PageEvent) :
    (p.after es).Moved (p.requests es) := by
  induction es using List.reverseRecOn with
  | nil => exact nofun
  | append_singleton es e ih =>
    rw [p.after_concat, p.requests_concat]
    exact ih.step (h.after es) e

/-- A released joystick is in the middle. -/
theorem Page.Invariant.position_released (h : p.Invariant) (hreleased : p.Released) :
    p.position = (centerX, centerY) := h.pointer.released hreleased.1 hreleased.2

end

end InfantryRM

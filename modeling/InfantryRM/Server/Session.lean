import InfantryRM.Server.Sequential
import InfantryRM.Web.Visit

/-!
# A session of the page

From the browser to the motors. A browser loads the page, whose buttons and joystick then issue
requests, and sends each request only when the one before it is done with; it may have loaded the
page before the robot was switched on, and it may request other things in between. When the system
is at rest again, the robot is in the pose that the requests mean, in their order, and a joystick
that has been released has stopped the chassis (`page_session`). This needs that no digit lay in
memory behind the argument of a record when it was decoded; otherwise the decoded value is another
one.

While the joystick is held the chassis follows the pointer (`chassis_follows_pointer`): the movement
is that of the region of the last position. The regions are those of `pixelPattern`. The middle one,
in which the chassis stands still, reaches from 300 to 360 on both axes, so the centre of the
canvas, (300, 300), is its corner. A request for something else stops the chassis, and since the
page does not request the same cell twice, the chassis then waits for the pointer to leave its cell.
-/

namespace InfantryRM

open Run CString Strtol

/-- What `recv` returned in a run, in order. -/
def receipts (ls : List Label) : List (Option Received) :=
  ls.filterMap fun
    | .recv _ r => some r
    | _ => none

/-- The record that a handler sends. -/
def sentRecord (indexHtml : List UInt8) (r : Option Received) : Option URLData :=
  (handleHttpRequest indexHtml r).findSome? Action.record?

/-- The pose that requests mean. -/
def Pose.requested (reqs : List PageRequest) : Pose :=
  (reqs.filterMap PageRequest.order).foldl Pose.obey .initial

/-- The movement of a chassis that this has moved. -/
def Move.pattern : Move → Option ChassisPattern
  | .cell c => cellPattern c.x c.y
  | .other => some .stop

section
variable {s : Server} {indexHtml : List UInt8} {ls : List Label} {r : Option Received}
  {q : PageRequest} {rs : List (Option Received)} {reqs : List PageRequest} {page : Page}

/-! ## From the requests to the pose -/

/-- The records of a run's requests, from what was received. -/
theorem requests_eq_receipts (indexHtml : List UInt8) (ls : List Label) :
    (requests indexHtml ls).map Prod.snd = (receipts ls).filterMap (sentRecord indexHtml) := by
  induction ls with
  | nil => rfl
  | cons l ls ih =>
    cases l with
    | recv c r =>
      have hrequest : Label.request indexHtml (.recv c r) =
          (sentRecord indexHtml r).map (c, ·) := rfl
      have hreceipts : receipts (.recv c r :: ls) = r :: receipts ls := rfl
      rw [hreceipts, List.filterMap_cons, requests, List.filterMap_cons, hrequest]
      cases sentRecord indexHtml r with
      | none => exact ih
      | some record => exact congrArg (record :: ·) ih
    | accept | createConsumer | malloc | createHandler | start | act | xQueueReceive | decode
    | drive => exact ih

/-- A request becomes a record that orders what the request means, or it becomes none and means
nothing. -/
theorem PageRequest.record_of_requests (indexHtml : List UInt8) (h : q.Requests r) :
    (∃ record, sentRecord indexHtml r = some record ∧
        ∀ tail : List UInt8, (∀ d ∈ tail.head?, isDigit d = false) →
          (Job.mk record tail).order = q.order) ∨
      sentRecord indexHtml r = none ∧ q.order = none := by
  cases q with
  | control c =>
    obtain ⟨received, headers, rfl, hbytes⟩ := h
    refine .inl ⟨c.toRecord, ?_, fun tail => Control.order_of_prefix (List.prefix_append _ _)⟩
    rw [sentRecord, handleHttpRequest_control indexHtml hbytes]
    rfl
  | other =>
    obtain ⟨received, s, h, rfl, ht, hle, hname⟩ := h
    obtain ⟨hlong, -⟩ | ⟨-, record, hstring, hactions⟩ := handleHttpRequest_of_text indexHtml ht
    · exact absurd hle (Nat.not_le_of_lt hlong)
    · refine .inl ⟨record, ?_, fun tail _ => ?_⟩
      · rw [sentRecord, hactions]
        rfl
      · have hnone : dispatch record.urlBuff01 = none := dispatch_eq_none_iff.2 fun c => by
          rw [record.take_urlBuff01, hstring]
          exact hname c
        unfold Job.order
        rw [hnone]
        rfl
  | nothing =>
    refine .inr ⟨?_, rfl⟩
    cases r with
    | none => rfl
    | some received =>
      rw [sentRecord, handleHttpRequest_of_not_text (h received rfl)]
      rfl

/-- Jobs with the records of requests order what the requests mean. -/
theorem orders_of_requests (hpage : List.Forall₂ PageRequest.Requests rs reqs) {js : List Job}
    (hrecords : js.map Job.record = rs.filterMap (sentRecord indexHtml))
    (htail : ∀ j ∈ js, ∀ d ∈ j.tail.head?, isDigit d = false) :
    js.filterMap Job.order = reqs.filterMap PageRequest.order := by
  induction hpage generalizing js with
  | nil => rw [List.map_eq_nil_iff.1 hrecords, List.filterMap_nil, List.filterMap_nil]
  | cons hrequests _ ih =>
    have hrecord := PageRequest.record_of_requests indexHtml hrequests
    rcases hrecord with ⟨record, hrecord, horder⟩ | ⟨hrecord, horder⟩
    · rw [List.filterMap_cons_some hrecord] at hrecords
      obtain ⟨j, js, rfl, rfl, hrest⟩ := List.map_eq_cons_iff.1 hrecords
      obtain ⟨hj, hjs⟩ := List.forall_mem_cons.1 htail
      rw [List.filterMap_cons, List.filterMap_cons, ih hrest hjs, ← horder j.tail hj]
    · rw [List.filterMap_cons_none hrecord] at hrecords
      rw [List.filterMap_cons_none horder]
      exact ih hrecords htail

/-- At rest the robot is in the pose that the requests mean. -/
theorem shows_requested (hexec : exec (Server.step indexHtml) .init ls = some s)
    (hseq : Sequential indexHtml ls) (hrest : s.AtRest) (hnil : s.box.queue = [])
    (hpage : List.Forall₂ PageRequest.Requests (receipts ls) reqs)
    (htail : ∀ x ∈ s.processed, ∀ d ∈ x.2.tail.head?, isDigit d = false) :
    (Pose.requested reqs).Shows s.robot := by
  obtain ⟨c, hserved⟩ := Server.served_of_sequential hexec hseq
  have hs : s.Reachable indexHtml := ⟨ls, hexec⟩
  have hrecords : (s.processed.map Prod.snd).map Job.record =
      (receipts ls).filterMap (sentRecord indexHtml) := by
    rw [← requests_eq_receipts, ← hserved.processed_eq hs hrest hnil, List.map_map, List.map_map]
    rfl
  have horders := orders_of_requests hpage hrecords fun j hj => by
    obtain ⟨x, hx, rfl⟩ := List.mem_map.1 hj
    exact htail x hx
  have hshows := hs.shows_pose hrest
  rwa [Pose.after, horders] at hshows

/-- The movement that requests mean is that of the last one that moves the chassis. -/
theorem Pose.requested_movement (reqs : List PageRequest) :
    (Pose.requested reqs).movement = (lastSome PageRequest.move? reqs).bind Move.pattern := by
  unfold Pose.requested
  induction reqs using List.reverseRecOn with
  | nil => rfl
  | append_singleton reqs q ih =>
    rw [List.filterMap_append, List.foldl_append, lastSome_append_singleton]
    match q with
    | .nothing | .other => first | exact ih | rfl
    | .control (.button b) =>
      rw [show PageRequest.move? (.control (.button b)) = none from rfl, Option.none_or, ← ih]
      cases b <;> rfl
    | .control (.cell c) =>
      have hgrid := cellPattern_isSome_iff.2 ⟨c.x_nonneg, c.x_le, c.y_nonneg, c.y_le⟩
      obtain ⟨p, hp⟩ := Option.isSome_iff_exists.1 hgrid
      have horder : (PageRequest.control (.cell c)).order = some (.move p) :=
        congrArg (Option.map Order.move) hp
      rw [List.filterMap_cons_some horder]
      exact hp.symm

/-! ## The regions of the canvas -/

/-- The movement that a position of the pointer selects, on the canvas or outside. -/
def pixelPattern (p : Int × Int) : ChassisPattern :=
  if p.1 < 300 ∧ 240 ≤ p.2 ∧ p.2 < 420 then .left
  else if 360 ≤ p.1 ∧ 240 ≤ p.2 ∧ p.2 < 420 then .right
  else if 240 ≤ p.1 ∧ p.1 < 420 ∧ p.2 < 300 then .forward
  else if 240 ≤ p.1 ∧ p.1 < 420 ∧ 360 ≤ p.2 then .backward
  else if p.1 < 240 then .leftRevolve
  else if 420 ≤ p.1 then .rightRevolve
  else .stop

/-- The bounds of the regions, in cells and in pixels. -/
theorem cell_bounds (a : Int) :
    (clampCoordinate a / 60 ≤ 3 ↔ a < 240) ∧ (clampCoordinate a / 60 ≤ 4 ↔ a < 300) ∧
      (clampCoordinate a / 60 ≤ 6 ↔ a < 420) ∧ (4 ≤ clampCoordinate a / 60 ↔ 240 ≤ a) ∧
      (6 ≤ clampCoordinate a / 60 ↔ 360 ≤ a) ∧ (7 ≤ clampCoordinate a / 60 ↔ 420 ≤ a) ∧
      (clampCoordinate a / 60 = 5 ↔ 300 ≤ a ∧ a < 360) := by
  unfold clampCoordinate
  omega

/-- The cell of a position selects the movement of its region. -/
theorem cellPattern_clampedCell (p : Int × Int) :
    cellPattern (clampedCell p).1 (clampedCell p).2 = some (pixelPattern p) := by
  obtain ⟨x3, x4, x6, x4', x6', x7, x5⟩ := cell_bounds p.1
  obtain ⟨-, y4, y6, y4', y6', -, y5⟩ := cell_bounds p.2
  unfold cellPattern pixelPattern
  rw [if_pos (clampedCell_bounds p)]
  simp only [clampedCell, x3, x4, x6, x4', x6', x7, x5, y4, y6, y4', y6', y5]
  split
  · rfl
  split
  · rfl
  split
  · rfl
  split
  · rfl
  · -- the middle region is what the others leave
    split_ifs <;> first | rfl | omega

/-- The middle region is the middle cell. -/
theorem pixelPattern_eq_stop_iff {p : Int × Int} :
    pixelPattern p = .stop ↔ clampedCell p = (5, 5) := by
  obtain ⟨-, -, -, -, -, -, x5⟩ := cell_bounds p.1
  obtain ⟨-, -, -, -, -, -, y5⟩ := cell_bounds p.2
  rw [clampedCell, Prod.mk_inj, x5, y5]
  unfold pixelPattern
  split_ifs <;> simp <;> omega

/-! ## Sessions -/

/-- The movement of the chassis when this was the last to move it. -/
def Page.movement (page : Page) : Move → ChassisPattern
  | .cell _ => pixelPattern page.position
  | .other => .stop

/-- The movement after a visit is the region of the last position, or the stop. -/
theorem Page.Moved.movement (h : page.Moved reqs) :
    (Pose.requested reqs).movement = (lastSome PageRequest.move? reqs).map page.movement := by
  rw [Pose.requested_movement]
  cases hlast : lastSome PageRequest.move? reqs with
  | none => rfl
  | some m =>
    cases m with
    | other => rfl
    | cell c =>
      obtain rfl := h c hlast
      exact cellPattern_clampedCell page.position

/-- A pose with the stop, or without a movement, has a chassis that stands still. -/
theorem Pose.Shows.chassisStopped {p : Pose} {rb : Robot} (h : p.Shows rb)
    (hstop : p.movement = none ∨ p.movement = some .stop) : ChassisStopped rb.hw := by
  have hpins : chassisPins rb.hw = chassisPins (powerOn.run (p.calls .chassis)) := h.pins .chassis
  refine (chassisStopped_congr hpins).2 ?_
  show ChassisStopped (powerOn.run (p.movement.elim [] ChassisPattern.drive))
  rcases hstop with hnone | hstop
  · rw [hnone]
    decide
  · rw [hstop]
    decide

/-- A released joystick means a chassis that stands still. -/
theorem Page.Moved.released (h : page.Moved reqs) (hpage : page.Invariant)
    (hreleased : page.Released) :
    (Pose.requested reqs).movement = none ∨ (Pose.requested reqs).movement = some .stop := by
  rw [h.movement]
  cases lastSome PageRequest.move? reqs with
  | none => exact .inl rfl
  | some m =>
    refine .inr ?_
    cases m with
    | other => rfl
    | cell c =>
      rw [Option.map_some, Page.movement, hpage.position_released hreleased,
        pixelPattern_eq_stop_iff.2 clampedCell_center]

/-- What the page knows after a visit that began before the robot was switched on. -/
theorem Page.moved_visit (es₀ es : List PageEvent) :
    (Page.loaded.after (es₀ ++ es)).Moved ((Page.loaded.after es₀).requests es) ∧
      (Page.loaded.after (es₀ ++ es)).Invariant := by
  have h := Page.invariant_loaded.after es₀
  rw [Page.after_append]
  exact ⟨h.moved es, h.after es⟩

/-- **From the page to the robot.** A browser sends some requests, of controls of the page with any
headers or of anything else, each only while the system is at rest. When it is at rest again, the
robot is in the pose that the requests mean. When they are those of the events at a page that may
have been loaded before the robot was switched on (`es₀`) or since, and no finger and no mouse
button holds its joystick any more, the chassis stands still. -/
theorem page_session (hexec : exec (Server.step indexHtml) .init ls = some s)
    (hseq : Sequential indexHtml ls) (hrest : s.AtRest) (hnil : s.box.queue = [])
    (hpage : List.Forall₂ PageRequest.Requests (receipts ls) reqs)
    (htail : ∀ x ∈ s.processed, ∀ d ∈ x.2.tail.head?, isDigit d = false) :
    (Pose.requested reqs).Shows s.robot ∧
      ∀ es₀ es, reqs = (Page.loaded.after es₀).requests es →
        (Page.loaded.after (es₀ ++ es)).Released → ChassisStopped s.robot.hw := by
  have hshows := shows_requested hexec hseq hrest hnil hpage htail
  refine ⟨hshows, fun es₀ es hreqs hreleased => ?_⟩
  subst hreqs
  obtain ⟨hmoved, hinv⟩ := Page.moved_visit es₀ es
  exact hshows.chassisStopped (hmoved.released hinv hreleased)

end

/-! ## Runs -/

/-- A run that accepts connections at rest only, and ends there. -/
structure ServedRun (ls : List Label) : Prop where
  isSome : (exec (Server.step []) .init ls).isSome
  sequential : Sequential [] ls
  atRest : (stateAfter ls).AtRest
  queue : (stateAfter ls).box.queue = []

/-- A further connection that is served to the end. -/
theorem ServedRun.append {ls : List Label} {c : Nat} {r : Received} (h : ServedRun ls)
    (hdone : (exec (Server.step []) .init (ls ++ service c r)).isSome ∧
      (stateAfter (ls ++ service c r)).listener = .accepting ∧
      (∀ c' < (stateAfter (ls ++ service c r)).conns,
        (stateAfter (ls ++ service c r)).handlers c' = .deleted) ∧
      (∀ k ∈ (stateAfter (ls ++ service c r)).consumers, k.held = none) ∧
      (stateAfter (ls ++ service c r)).box.queue = []) : ServedRun (ls ++ service c r) := by
  obtain ⟨hsome, hlistener, hended, hidle, hnil⟩ := hdone
  refine ⟨hsome, ?_, (reachable_stateAfter hsome).atRest hlistener hended hidle hnil, hnil⟩
  refine h.sequential.append (exec_eq_getD h.isSome) h.atRest h.queue ?_
  simp [submit, takeRecord, calls, Label.IsAccept]

/-- A browser loads the page, and a finger touches the canvas above its centre. -/
def touchVisit : List PageEvent := [.load, .pointer (.touchstart 300 20)]
def touchRun : List Label :=
  service 0 rootRequest ++ service 1 releaseRequest ++ service 2 forwardRequest

/-- Then the finger leaves the canvas. -/
def releaseVisit : List PageEvent := touchVisit ++ [.pointer .touchend]
def visitRun : List Label := touchRun ++ service 3 releaseRequest

theorem servedRun_touchRun : ServedRun touchRun := by
  have hnone : ServedRun [] := ⟨rfl, nofun, ⟨rfl, fun _ => .inl rfl, nofun, .inr rfl⟩, rfl⟩
  have hroot : ServedRun ([] ++ service 0 rootRequest) := hnone.append (by decide +kernel)
  have hload : ServedRun (service 0 rootRequest ++ service 1 releaseRequest) :=
    hroot.append (by decide +kernel)
  exact hload.append (by decide +kernel)

theorem servedRun_visitRun : ServedRun visitRun :=
  servedRun_touchRun.append (by decide +kernel)

/-- The cells above the centre and in the middle. -/
def forwardCell : Cell := ⟨5, 0, by decide, by decide, by decide, by decide⟩
def middleCell : Cell := ⟨5, 5, by decide, by decide, by decide, by decide⟩

/-- What is received in the touch are the requests of the visit. -/
theorem requests_touchVisit :
    List.Forall₂ PageRequest.Requests (receipts touchRun) (Page.loaded.requests touchVisit) := by
  have hreceipts : receipts touchRun =
      [some rootRequest, some releaseRequest, some forwardRequest] := rfl
  have hrequests : Page.loaded.requests touchVisit =
      [.other, .control (.cell middleCell), .control (.cell forwardCell)] := rfl
  rw [hreceipts, hrequests]
  refine .cons ?_ (.cons ⟨releaseRequest, ascii "\r\n", rfl, by decide⟩
    (.cons ⟨forwardRequest, ascii "\r\n", rfl, by decide⟩ .nil))
  exact ⟨rootRequest, 3, 6, rfl, requestText_rootRequest, by decide,
    fun c => by cases c <;> decide +kernel⟩

/-- A browser loads the page, and a finger touches the canvas above its centre and leaves it. -/
theorem page_session_release : ChassisStopped (stateAfter visitRun).robot.hw := by
  have hlast : List.Forall₂ PageRequest.Requests [some releaseRequest]
      [.control (.cell middleCell)] := .cons ⟨releaseRequest, ascii "\r\n", rfl, by decide⟩ .nil
  have hpage : List.Forall₂ PageRequest.Requests (receipts visitRun)
      (Page.loaded.requests releaseVisit) := List.rel_append requests_touchVisit hlast
  have hsession := page_session (exec_eq_getD servedRun_visitRun.isSome)
    servedRun_visitRun.sequential servedRun_visitRun.atRest servedRun_visitRun.queue hpage
    (by decide +kernel)
  exact hsession.2 [] releaseVisit rfl ⟨rfl, rfl⟩

end InfantryRM

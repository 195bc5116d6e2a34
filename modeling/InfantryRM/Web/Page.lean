import InfantryRM.Web.Dispatch

/-!
# The control page

The requests that `index.html` issues: a fixed URL for each button (`Button.query`) and, for the
joystick, the cell of the pointer in two decimal digits for each coordinate (`newCoordinate`). A
browser turns a URL into a GET request with headers of its own (`getRequest`), and the handler turns
such a request into the record that holds the URL followed by one space
(`handleHttpRequest_getRequest`).

**The round trip** (`joystick_roundTrip`): whatever the pointer's coordinates and the headers, the
cell that `web_recdata` decodes is the cell of the clamped coordinates, provided no digit lies in
memory after the four bytes of the argument.
-/

namespace InfantryRM

open Run CString Strtol

/-! ## Buttons -/

/-- The buttons of the page, by their handlers. -/
inductive Button
  | gimbalUPButton
  | gimbalDOWNButton
  | gimbalLEFTButton
  | gimbalRIGHTButton
  | blasterButton
  | blasterButton1
  | blasterButton2
  | blasterButton3
  | robotButton
  deriving DecidableEq, Repr

/-- The path and query of a button. Source: `index.html:112` to `index.html:212`. -/
def Button.query : Button → List UInt8
  | .gimbalUPButton => ascii "/gimbal?val=0000"
  | .gimbalDOWNButton => ascii "/gimbal?val=0001"
  | .gimbalLEFTButton => ascii "/gimbal?val=0002"
  | .gimbalRIGHTButton => ascii "/gimbal?val=0003"
  | .blasterButton => ascii "/blaste?val=0000"
  | .blasterButton1 => ascii "/fireSt?val=0000"
  | .blasterButton2 => ascii "/Pluck1?val=0000"
  | .blasterButton3 => ascii "/luck2P?val=0000"
  | .robotButton => ascii "/robott?val=0000"

/-! ## Joystick -/

def coordivW : Int := 600
def coordivH : Int := 600
def centerX : Int := coordivW / 2
def centerY : Int := coordivH / 2

/-- The cell that the page sent last. Source: `LastX`, `LastY` (`index.html:330`). -/
structure Joystick where
  lastX : Int
  lastY : Int
  deriving DecidableEq, Repr

/-- `(Array(n).join(0) + num).slice(-n)`. Source: `PrefixZero` (`index.html:377`). -/
def prefixZero (num : Int) (n : Nat) : List UInt8 :=
  let s := List.replicate (n - 1) 48 ++ ascii (toString num)
  s.drop (s.length - n)

/-- `parseInt` of a nonnegative quotient is its integer part. Source: `index.html:350`. -/
def cellOf (now center : Int) : Int := now / (center / 5)

/-- The page's pointer handler: the new state and the path and query of the request, if it issues
one. Source: `new_coordinate` (`index.html:333`). -/
def newCoordinate (st : Joystick) (nowX nowY : Int) : Joystick × Option (List UInt8) :=
  let nowX := if nowX ≥ coordivW then coordivW else nowX
  let nowY := if nowY ≥ coordivH then coordivH else nowY
  let nowX := if nowX ≤ 0 then 0 else nowX
  let nowY := if nowY ≤ 0 then 0 else nowY
  let nowX := cellOf nowX centerX
  let nowY := cellOf nowY centerY
  if nowX ≠ st.lastX ∨ nowY ≠ st.lastY then
    (⟨nowX, nowY⟩, some (ascii "/rocker?val=" ++ prefixZero nowX 2 ++ prefixZero nowY 2))
  else
    (st, none)

/-! ## Requests -/

/-- The request that a browser makes of a URL: its target and the headers. -/
def getRequest (target headers : List UInt8) : List UInt8 :=
  ascii "GET " ++ target ++ ascii " HTTP/1.1\r\n" ++ headers

section
variable {target headers : List UInt8} {r : Received}

/-- A target without an `H` or a NUL stands between the first space and the first `HTTP` of its
request. -/
theorem requestText_getRequest (hr : r.bytes = getRequest target headers)
    (hH : (72 : UInt8) ∉ target) (hnul : (0 : UInt8) ∉ target) :
    RequestText r.text 3 (target.length + 5) ∧
      r.text.take (target.length + 5) = ascii "GET " ++ target ++ ascii " " := by
  have htext : r.text =
      (ascii "GET " ++ target ++ ascii " ") ++ httpMark ++ (ascii "/1.1\r\n" ++ cstr headers) := by
    have hline : getRequest target headers =
        (ascii "GET " ++ target ++ ascii " HTTP/1.1\r\n") ++ headers := rfl
    have hsplit : ascii " HTTP/1.1\r\n" = ascii " " ++ httpMark ++ ascii "/1.1\r\n" := by decide
    have hz : (0 : UInt8) ∉ ascii "GET " ++ target ++ ascii " HTTP/1.1\r\n" := by
      simp only [List.mem_append, not_or]
      exact ⟨⟨by decide, hnul⟩, by decide⟩
    rw [Received.text, hr, hline, cstr_append hz, hsplit]
    simp only [List.append_assoc]
  have hlen : (ascii "GET " ++ target ++ ascii " ").length = target.length + 5 := by
    rw [List.length_append, List.length_append, show (ascii "GET ").length = 4 by decide,
      show (ascii " ").length = 1 by decide]
    omega
  refine ⟨⟨?_, ?_, by omega⟩, ?_⟩
  · have hnot : (72 : UInt8) ∉ ascii "GET " ++ target ++ ascii " " := by
      simp only [List.mem_append, not_or]
      exact ⟨⟨by decide, hH⟩, by decide⟩
    rw [htext, ← hlen]
    exact findSub_append hnot
  · rw [htext]
    refine findSub_singleton_iff.2 ⟨rfl, ?_⟩
    show (32 : UInt8) ∉ ascii "GET"
    decide
  · rw [htext, List.append_assoc, ← hlen, List.take_left]

/-- The record of a GET request for a target. -/
def targetRecord (target : List UInt8) (h : target.length < urlSize) : URLData where
  myURLBuff := ⟨ascii "GET" ++ List.replicate 27 0, by decide⟩
  myURLString := ⟨target ++ 32 :: List.replicate (urlSize - (target.length + 1)) 0, by
    simp only [List.length_append, List.length_cons, List.length_replicate]
    omega⟩

/-- **Requests.** The handler of a GET request for a short target resets the queue, sends the record
of the target, answers with the page and closes. -/
theorem handleHttpRequest_getRequest (indexHtml : List UInt8)
    (hr : r.bytes = getRequest target headers) (hH : (72 : UInt8) ∉ target)
    (hnul : (0 : UInt8) ∉ target) (hshort : target.length < urlSize) :
    handleHttpRequest indexHtml (some r) =
      [.xQueueReset, .xQueueSend (targetRecord target hshort),
        .myWrite (http200 indexHtml.length), .myWrite indexHtml, .vTaskDelay 30, .close,
        .vTaskDelete] := by
  obtain ⟨ht, htake⟩ := requestText_getRequest hr hH hnul
  obtain ⟨record, hrec, hbuff, hstring⟩ := fillRecord_of_text ht (by omega)
  have hget : r.text.take 3 = ascii "GET" := by
    have h : (r.text.take (target.length + 5)).take 3 = ascii "GET" := by rw [htake]; rfl
    rwa [List.take_take, min_eq_left (by omega)] at h
  have hrecord : record = targetRecord target hshort := by
    have hfour : ((r.buff.set (target.length + 5) 0).set 3 0).take 4 = ascii "GET" ++ [0] := by
      have hbytes : r.buff = ascii "GET " ++ (target ++ ascii " HTTP/1.1\r\n" ++ headers ++
          List.replicate (buffSize - r.bytes.length) 0) := by
        rw [Received.buff, hr, getRequest]
        simp only [List.append_assoc]
      have hlen : (ascii "GET ").length = 4 := by decide
      rw [hbytes, List.set_append_right _ _ (by rw [hlen]; omega),
        List.set_append_left _ _ (by decide), List.take_append_of_le_length (by decide)]
      rfl
    have htail : (r.text.take (target.length + 5)).drop (3 + 1) ++
        List.replicate (urlSize - (target.length + 5 - (3 + 1))) 0 =
        target ++ 32 :: List.replicate (urlSize - (target.length + 1)) 0 := by
      rw [htake, show target.length + 5 - (3 + 1) = target.length + 1 by omega, List.append_assoc]
      show (target ++ ascii " ") ++ _ = _
      rw [List.append_assoc]
      rfl
    obtain ⟨a, b⟩ := record
    have ha : a = (targetRecord target hshort).myURLBuff := List.Vector.toList_injective (by
      rw [hbuff, hfour]; rfl)
    have hb : b = (targetRecord target hshort).myURLString := List.Vector.toList_injective (by
      rw [hstring, htail]; rfl)
    rw [ha, hb]
  rw [handleHttpRequest_of_short ht hrec, if_pos hget, hrecord]
  rfl

end

/-! ## The round trip -/

/-- The coordinates after the page's clamp. -/
def clampCoordinate (now : Int) : Int := max 0 (min now 600)

/-- Two digits of a cell's coordinate. -/
theorem prefixZero_two {n : Int} (h0 : 0 ≤ n) (h : n ≤ 10) :
    (prefixZero n 2).length = 2 ∧ (∀ c ∈ prefixZero n 2, isDigit c = true) ∧
      (digitsValue (prefixZero n 2) : Int) = n := by
  obtain ⟨k, rfl⟩ := Int.eq_ofNat_of_zero_le h0
  have hall : ∀ k ∈ List.range 11, (prefixZero k 2).length = 2 ∧
      (∀ c ∈ prefixZero k 2, isDigit c = true) ∧ (digitsValue (prefixZero k 2) : Int) = k := by
    decide +kernel
  exact hall k (List.mem_range.2 (by omega))

/-- The cell of the clamped coordinates: the canvas of 600 by 600 in steps of 60. -/
def clampedCell (p : Int × Int) : Int × Int := (clampCoordinate p.1 / 60, clampCoordinate p.2 / 60)

/-- The path and query of the request for a cell. -/
def cellQuery (c : Int × Int) : List UInt8 :=
  ascii "/rocker?val=" ++ prefixZero c.1 2 ++ prefixZero c.2 2

/-- The cell that the page sent last, as a pair. -/
def Joystick.cell (st : Joystick) : Int × Int := (st.lastX, st.lastY)

/-- The pointer handler remembers and requests the cell of the clamped coordinates, unless it is the
one that the page sent last. -/
theorem newCoordinate_eq (st : Joystick) (p : Int × Int) :
    newCoordinate st p.1 p.2 =
      if st.cell ≠ clampedCell p then
        (⟨(clampedCell p).1, (clampedCell p).2⟩, some (cellQuery (clampedCell p)))
      else (st, none) := by
  have hclamp (a : Int) : cellOf (if (if a ≥ 600 then 600 else a) ≤ 0 then 0
      else if a ≥ 600 then 600 else a) 300 = clampCoordinate a / 60 := by
    have hdiv : (300 : Int) / 5 = 60 := by decide
    unfold cellOf clampCoordinate
    rw [hdiv]
    congr 1
    omega
  have hw : coordivW = 600 := rfl
  have hh : coordivH = 600 := rfl
  have hcx : centerX = 300 := by decide
  have hcy : centerY = 300 := by decide
  have hne : (clampCoordinate p.1 / 60 ≠ st.lastX ∨ clampCoordinate p.2 / 60 ≠ st.lastY) ↔
      st.cell ≠ clampedCell p := by
    rw [Joystick.cell, clampedCell, ne_eq (_, _), Prod.mk_inj, not_and_or]
    exact or_congr ne_comm ne_comm
  unfold newCoordinate
  simp only [hw, hh, hcx, hcy, hclamp, hne]
  rfl

/-- What the page requests: the cell of the clamped coordinates. -/
theorem newCoordinate_query {st : Joystick} {x y : Int} {query : List UInt8}
    (hq : (newCoordinate st x y).2 = some query) :
    query = ascii "/rocker?val=" ++ prefixZero (clampCoordinate x / 60) 2 ++
      prefixZero (clampCoordinate y / 60) 2 := by
  rw [newCoordinate_eq st (x, y)] at hq
  split at hq
  · exact (Option.some.inj hq).symm
  · cases hq

/-- The clamped coordinates lie in one of eleven cells. -/
theorem clampCoordinate_cell (a : Int) :
    0 ≤ clampCoordinate a / 60 ∧ clampCoordinate a / 60 ≤ 10 := by
  unfold clampCoordinate
  omega

/-- The argument that the page sends for a cell: four digits, whose value is the cell. -/
theorem cellDigits {cx cy : Int} (hx0 : 0 ≤ cx) (hx : cx ≤ 10) (hy0 : 0 ≤ cy) (hy : cy ≤ 10) :
    (prefixZero cx 2 ++ prefixZero cy 2).length = 4 ∧
      (∀ c ∈ prefixZero cx 2 ++ prefixZero cy 2, isDigit c = true) ∧
      (digitsValue (prefixZero cx 2 ++ prefixZero cy 2) : Int) = cx * 100 + cy := by
  obtain ⟨hxlen, hxdig, hxval⟩ := prefixZero_two hx0 hx
  obtain ⟨hylen, hydig, hyval⟩ := prefixZero_two hy0 hy
  refine ⟨?_, ?_, ?_⟩
  · rw [List.length_append, hxlen, hylen]
  · intro c hc
    exact (List.mem_append.1 hc).elim (hxdig c) (hydig c)
  · rw [digitsValue_append, hylen]
    push_cast
    rw [hxval, hyval]

/-- The coordinates that are decoded from the value of a cell's digits are the cell's. -/
theorem cellValue_split {cx cy : Int} (hx0 : 0 ≤ cx) (hy0 : 0 ≤ cy) (hy : cy ≤ 10) :
    chassisX (cx * 100 + cy) = cx ∧ chassisY (cx * 100 + cy) = cy := by
  refine ⟨?_, ?_⟩
  · rw [chassisX_of_nonneg (by omega)]
    omega
  · rw [chassisY_of_nonneg (by omega)]
    omega

/-- What `web_recdata` makes of a record whose URL is that of a cell. -/
theorem myvalue_of_cell {record : URLData} {t digits : List UInt8}
    (hurl : ascii "/rocker?val=" ++ digits <+: record.myURLString.toList)
    (hlen : digits.length = 4) (hdig : ∀ c ∈ digits, isDigit c = true)
    (hmax : (digitsValue digits : Int) ≤ longMax) (ht : ∀ c ∈ t.head?, isDigit c = false) :
    dispatch record.urlBuff01 = some .rocker ∧ (Job.mk record t).myvalue = digitsValue digits := by
  have hname : (ascii "/rocker?val=").length = 12 := by decide
  have hlength : (ascii "/rocker?val=" ++ digits).length = 16 := by
    rw [List.length_append, hname, hlen]
  have hne : digits ≠ [] := List.ne_nil_of_length_pos (by omega)
  refine ⟨?_, ?_⟩
  · refine (URLData.dispatch_of_prefix hurl (by omega)).2 ?_
    rw [List.take_append_of_le_length (by decide)]
    decide
  · rw [Job.myvalue, URLData.valBuff02_of_prefix hurl hlength, List.drop_left' hname,
      atoi_digits_append hne hdig ht hmax]

/-- **The round trip.** For every pointer position that makes the page issue a request and every
header text, the handler sends the record of the request, `web_recdata` takes its joystick branch on
that record, the coordinates it decodes are those of the cell of the clamped position, and the
driver calls it makes are those that its tests select for this cell. -/
theorem joystick_roundTrip (indexHtml : List UInt8) {st : Joystick} {x y : Int}
    {query headers t : List UInt8} {r : Received}
    (hq : (newCoordinate st x y).2 = some query)
    (hr : r.bytes = getRequest query headers) (ht : ∀ c ∈ t.head?, isDigit c = false) :
    ∃ record, Action.xQueueSend record ∈ handleHttpRequest indexHtml (some r) ∧
      (∀ record', Action.xQueueSend record' ∈ handleHttpRequest indexHtml (some r) →
        record' = record) ∧
      dispatch record.urlBuff01 = some .rocker ∧
      chassisX (Job.mk record t).myvalue = clampCoordinate x / 60 ∧
      chassisY (Job.mk record t).myvalue = clampCoordinate y / 60 ∧
      ∀ g, webRecdata ⟨record, t⟩ g =
        (g, rockerRegions (clampCoordinate x / 60) (clampCoordinate y / 60) ++
          [.vTaskDelay 6]) := by
  have hquery := newCoordinate_query hq
  obtain ⟨hx0, hx10⟩ := clampCoordinate_cell x
  obtain ⟨hy0, hy10⟩ := clampCoordinate_cell y
  generalize clampCoordinate x / 60 = cx at *
  generalize clampCoordinate y / 60 = cy at *
  obtain ⟨hfour, hdig, hvalue⟩ := cellDigits hx0 hx10 hy0 hy10
  rw [List.append_assoc] at hquery
  have hnot (b : UInt8) (hb : isDigit b = false) (hb' : b ∉ ascii "/rocker?val=") :
      b ∉ query := by
    rw [hquery, List.mem_append, not_or]
    refine ⟨hb', ?_⟩
    intro hmem
    rw [hdig b hmem] at hb
    cases hb
  have hname : (ascii "/rocker?val=").length = 12 := by decide
  have hshort : query.length < urlSize := by
    rw [hquery, List.length_append, hfour, hname]
    decide
  have hhandle := handleHttpRequest_getRequest indexHtml hr
    (hnot 72 (by decide) (by decide)) (hnot 0 (by decide) (by decide)) hshort
  have hurl : ascii "/rocker?val=" ++ (prefixZero cx 2 ++ prefixZero cy 2) <+:
      (targetRecord query hshort).myURLString.toList := by
    rw [← hquery]
    exact List.prefix_append _ _
  have hmax : (digitsValue (prefixZero cx 2 ++ prefixZero cy 2) : Int) ≤ longMax := by
    rw [hvalue, longMax]
    omega
  obtain ⟨hrocker, hmyvalue⟩ := myvalue_of_cell hurl hfour hdig hmax ht
  obtain ⟨hx, hy⟩ := cellValue_split hx0 hy0 hy10
  rw [← hvalue, ← hmyvalue] at hx hy
  refine ⟨targetRecord query hshort, ?_, ?_, hrocker, hx, hy, ?_⟩
  · rw [hhandle]
    simp
  · intro record' h
    rw [hhandle] at h
    simpa using h
  · intro g
    simp only [webRecdata, hrocker, rockerBranch, hx, hy]
    rfl

/-- The bottom left corner of the canvas: cell (0, 10). -/
theorem joystick_roundTrip_corner :
    ∃ record, Action.xQueueSend record ∈ handleHttpRequest [] (some
        ⟨getRequest (ascii "/rocker?val=0010") (ascii "Host: 192.168.4.1\r\n\r\n"), by decide,
          by decide⟩) ∧
      chassisX (Job.mk record []).myvalue = 0 ∧ chassisY (Job.mk record []).myvalue = 10 ∧
      ∀ g, webRecdata ⟨record, []⟩ g = (g, chassisLeftRevolve ++ [.vTaskDelay 6]) := by
  have hq : (newCoordinate ⟨5, 5⟩ (-7) 600).2 = some (ascii "/rocker?val=0010") := by decide
  obtain ⟨record, hsend, -, -, hx, hy, hweb⟩ := joystick_roundTrip [] (r := ⟨getRequest
    (ascii "/rocker?val=0010") (ascii "Host: 192.168.4.1\r\n\r\n"), by decide, by decide⟩) hq rfl
    (t := []) nofun
  exact ⟨record, hsend, hx, hy, hweb⟩

end InfantryRM

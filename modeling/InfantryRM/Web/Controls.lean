import InfantryRM.Robot.Pose
import InfantryRM.Web.Joystick
import InfantryRM.Web.Segments

/-!
# The controls of the page

A control of the page is one of its buttons or a cell of its joystick, and it means an order to the
robot, or none (`Control.order`). The page encodes it in a URL, the handler copies the URL into a
record, and `web_recdata` decodes the record. What it decodes is the order of the control, whatever
headers the browser adds, unless a digit lies in memory behind the argument (`control_roundTrip`).

Nothing else of a request matters to the robot: neither its method, which decides the answer alone,
nor the other bytes of its URL (`executed_whatever_method`).
-/

namespace InfantryRM

open CString Strtol

/-- A cell of the joystick's grid. -/
structure Cell where
  x : Int
  y : Int
  x_nonneg : 0 ≤ x
  x_le : x ≤ 10
  y_nonneg : 0 ≤ y
  y_le : y ≤ 10

/-- What the page can request. -/
inductive Control
  | button (b : Button)
  | cell (c : Cell)

/-- The path and query of a control. -/
def Control.query : Control → List UInt8
  | .button b => b.query
  | .cell c => cellQuery (c.x, c.y)

/-- What a button means: the labels of the buttons and the comments of their branches
(`webserver.c:284`), with one exception. The stop button (`index.html:72`) orders nothing, contrary
to its label, since its branch has no statement (`webserver.c:389`). -/
def Button.order : Button → Option Order
  | .gimbalUPButton => some (.turn ⟨.pitch, -10⟩)
  | .gimbalDOWNButton => some (.turn ⟨.pitch, 10⟩)
  | .gimbalLEFTButton => some (.turn ⟨.yaw, 10⟩)
  | .gimbalRIGHTButton => some (.turn ⟨.yaw, -10⟩)
  | .blasterButton => some (.friction true)
  | .blasterButton1 => some (.friction false)
  | .blasterButton2 => some (.feeder true)
  | .blasterButton3 => some (.feeder false)
  | .robotButton => none

/-- What a control means. -/
def Control.order : Control → Option Order
  | .button b => b.order
  | .cell c => (cellPattern c.x c.y).map .move

/-- The request of the button that starts the friction wheel, and one with another method that
agrees with it in nine bytes. -/
def buttonRequest : Received :=
  ⟨getRequest (Button.blasterButton).query (ascii "Accept: */*\r\n"), by decide, by decide⟩
def volleyRequest : Received :=
  ⟨ascii "POST /blast/volle0000 HTTP/1.1\r\n", by decide, by decide⟩

section
variable {c : Control} {headers : List UInt8} {r : Received} {record : URLData}

/-! ## The URL of a control -/

/-- The argument of a button is four digits. -/
theorem Button.query_spec (b : Button) :
    b.query.length = 16 ∧ (72 : UInt8) ∉ b.query ∧ (0 : UInt8) ∉ b.query ∧
      ∀ d ∈ b.query.drop 12, isDigit d = true := by
  cases b <;> decide +kernel

/-- The URL of a control has sixteen bytes, among them no `H` and no NUL. -/
theorem Control.query_spec (c : Control) :
    c.query.length = 16 ∧ (72 : UInt8) ∉ c.query ∧ (0 : UInt8) ∉ c.query := by
  cases c with
  | button b =>
    obtain ⟨hlen, hH, hnul, -⟩ := b.query_spec
    exact ⟨hlen, hH, hnul⟩
  | cell c =>
    obtain ⟨hlen, hdig, -⟩ := cellDigits c.x_nonneg c.x_le c.y_nonneg c.y_le
    have hname : (ascii "/rocker?val=").length = 12 := by decide
    have hquery : Control.query (.cell c) =
        ascii "/rocker?val=" ++ (prefixZero c.x 2 ++ prefixZero c.y 2) := List.append_assoc ..
    have hnot (b : UInt8) (hb : isDigit b = false) (hb' : b ∉ ascii "/rocker?val=") :
        b ∉ Control.query (.cell c) := by
      rw [hquery, List.mem_append, not_or]
      refine ⟨hb', fun hmem => ?_⟩
      rw [hdig b hmem] at hb
      cases hb
    refine ⟨?_, hnot 72 (by decide) (by decide), hnot 0 (by decide) (by decide)⟩
    rw [hquery, List.length_append, hlen, hname]

/-! ## Decoding -/

/-- What a button's record orders. -/
theorem Button.order_of_prefix {b : Button} {tail : List UInt8}
    (h : b.query <+: record.myURLString.toList) (ht : ∀ d ∈ tail.head?, isDigit d = false) :
    (Job.mk record tail).order = b.order := by
  obtain ⟨hlen, -, -, hdig⟩ := b.query_spec
  have hcmd (c : Command) :
      dispatch record.urlBuff01 = some c ↔ b.query.take 5 = c.literal.take 5 :=
    URLData.dispatch_of_prefix h (by omega)
  have hvalue : (Job.mk record tail).myvalue = digitsValue (b.query.drop 12) := by
    rw [Job.myvalue, URLData.valBuff02_of_prefix h hlen]
    refine atoi_digits_append ?_ hdig ht ?_
    · cases b <;> decide
    · cases b <;> decide
  unfold Job.order
  cases b with
  | gimbalUPButton | gimbalDOWNButton | gimbalLEFTButton | gimbalRIGHTButton =>
    rw [(hcmd .gimbal).2 (by decide), hvalue]
    decide
  | blasterButton => rw [(hcmd .blaste).2 (by decide)]; rfl
  | blasterButton1 => rw [(hcmd .fireSt).2 (by decide)]; rfl
  | blasterButton2 => rw [(hcmd .pluck1).2 (by decide)]; rfl
  | blasterButton3 => rw [(hcmd .luck2P).2 (by decide)]; rfl
  | robotButton => rw [(hcmd .robott).2 (by decide)]; rfl

/-- What a cell's record orders. -/
theorem Cell.order_of_prefix {c : Cell} {tail : List UInt8}
    (h : cellQuery (c.x, c.y) <+: record.myURLString.toList)
    (ht : ∀ d ∈ tail.head?, isDigit d = false) :
    (Job.mk record tail).order = (cellPattern c.x c.y).map .move := by
  obtain ⟨hlen, hdig, hvalue⟩ := cellDigits c.x_nonneg c.x_le c.y_nonneg c.y_le
  obtain ⟨hx, hy⟩ := cellValue_split c.x_nonneg c.y_nonneg c.y_le
  have hxle := c.x_le
  have hyle := c.y_le
  have hmax : (digitsValue (prefixZero c.x 2 ++ prefixZero c.y 2) : Int) ≤ longMax := by
    rw [hvalue, longMax]
    omega
  have hurl : ascii "/rocker?val=" ++ (prefixZero c.x 2 ++ prefixZero c.y 2) <+:
      record.myURLString.toList := by
    rwa [← List.append_assoc]
  obtain ⟨hd, hmyvalue⟩ := myvalue_of_cell hurl hlen hdig hmax ht
  unfold Job.order
  rw [hd, hmyvalue, hvalue]
  show (cellPattern _ _).map Order.move = _
  rw [hx, hy]

/-- A record that starts with the URL of a control orders what the control means. -/
theorem Control.order_of_prefix {tail : List UInt8} (h : c.query <+: record.myURLString.toList)
    (ht : ∀ d ∈ tail.head?, isDigit d = false) : (Job.mk record tail).order = c.order := by
  cases c with
  | button b => exact Button.order_of_prefix h ht
  | cell c => exact Cell.order_of_prefix h ht

/-- The record of a control. -/
def Control.toRecord (c : Control) : URLData :=
  targetRecord c.query (by rw [c.query_spec.1]; decide)

/-- The handler of a control's request sends its record. -/
theorem handleHttpRequest_control (indexHtml : List UInt8)
    (hr : r.bytes = getRequest c.query headers) :
    handleHttpRequest indexHtml (some r) =
      [.xQueueReset, .xQueueSend c.toRecord, .myWrite (http200 indexHtml.length),
        .myWrite indexHtml, .vTaskDelay 30, .close, .vTaskDelete] := by
  obtain ⟨hlen, hH, hnul⟩ := c.query_spec
  exact handleHttpRequest_getRequest indexHtml hr hH hnul (by rw [hlen]; decide)

/-- **The round trip.** For every control and all headers, the handler of its request sends one
record, and the record orders what the control means, unless a digit lies behind its argument. -/
theorem control_roundTrip (indexHtml : List UInt8) (hr : r.bytes = getRequest c.query headers) :
    ∃ record : URLData, (handleHttpRequest indexHtml (some r)).filterMap Action.record? = [record] ∧
      ∀ tail : List UInt8, (∀ d ∈ tail.head?, isDigit d = false) →
        (Job.mk record tail).order = c.order := by
  refine ⟨c.toRecord, ?_, fun tail ht => Control.order_of_prefix (List.prefix_append _ _) ht⟩
  rw [handleHttpRequest_control indexHtml hr]
  rfl

/-! ## What the robot does not see -/

/-- The bytes of the URL that `web_recdata` looks at: five of the name, four of the argument. -/
def URLData.seen (record : URLData) : List UInt8 × List UInt8 :=
  (record.myURLString.toList.take 5, record.valBuff02)

/-- Records with the same bytes there are handled alike. -/
theorem webRecdata_of_seen {record' : URLData} (h : record.seen = record'.seen)
    (tail : List UInt8) : webRecdata ⟨record, tail⟩ = webRecdata ⟨record', tail⟩ := by
  obtain ⟨hfive, hval⟩ := Prod.mk.inj h
  have hd : dispatch record.urlBuff01 = dispatch record'.urlBuff01 := by
    refine Option.ext fun c => ?_
    rw [dispatch_eq_some_iff, dispatch_eq_some_iff, record.take_urlBuff01,
      record'.take_urlBuff01, hfive]
  have hvalue : (Job.mk record tail).myvalue = (Job.mk record' tail).myvalue :=
    congrArg (fun v => atoi (v ++ tail)) hval
  unfold webRecdata
  rw [hd, hvalue]

/-- The URI of a request, as its record holds it. -/
def uriBytes (text : List UInt8) (s h : Nat) : List UInt8 :=
  (text.take h).drop (s + 1) ++ List.replicate (urlSize - (h - (s + 1))) 0

/-- **The method is for the answer.** Of two requests whose URIs fit their records and agree in the
five bytes of the name and the four bytes of the argument, the robot does the same, whatever their
methods are, the rest of their URIs and what follows. The answer to each is the page when its method
is `GET`, and a refusal otherwise; the request is executed all the same. -/
theorem executed_whatever_method (indexHtml : List UInt8) {r' : Received} {s h s' h' : Nat}
    (ht : RequestText r.text s h) (ht' : RequestText r'.text s' h') (hle : h ≤ s + 1 + urlSize)
    (hle' : h' ≤ s' + 1 + urlSize)
    (hname : (uriBytes r.text s h).take 5 = (uriBytes r'.text s' h').take 5)
    (hargument : ((uriBytes r.text s h).drop 12).take 4 =
      ((uriBytes r'.text s' h').drop 12).take 4) :
    ∃ record record' : URLData,
      outcome (handleHttpRequest indexHtml (some r)) =
        ([record], completeResponse indexHtml (r.text.take s)) ∧
      outcome (handleHttpRequest indexHtml (some r')) =
        ([record'], completeResponse indexHtml (r'.text.take s')) ∧
      ∀ tail : List UInt8, webRecdata ⟨record, tail⟩ = webRecdata ⟨record', tail⟩ := by
  have hout {r : Received} {s h : Nat} (ht : RequestText r.text s h) (hle : h ≤ s + 1 + urlSize) :
      ∃ record : URLData, record.myURLString.toList = uriBytes r.text s h ∧
        outcome (handleHttpRequest indexHtml (some r)) =
          ([record], completeResponse indexHtml (r.text.take s)) := by
    obtain ⟨record, hrec, -, hstring⟩ := fillRecord_of_text ht hle
    refine ⟨record, hstring, ?_⟩
    rw [handleHttpRequest_of_short ht hrec, completeResponse]
    split
    · refine Prod.ext rfl ?_
      simp [outcome, Action.sent, requstError]
    · refine Prod.ext rfl ?_
      simp [outcome, Action.sent, requstError]
  obtain ⟨record, hstring, hrecord⟩ := hout ht hle
  obtain ⟨record', hstring', hrecord'⟩ := hout ht' hle'
  refine ⟨record, record', hrecord, hrecord', webRecdata_of_seen ?_⟩
  unfold URLData.seen URLData.valBuff02
  rw [hstring, hstring', hname, hargument]

end

/-- The button that starts the friction wheel. -/
theorem control_roundTrip_blaster : ∃ record : URLData,
    (handleHttpRequest [] (some buttonRequest)).filterMap Action.record? = [record] ∧
      ∀ tail : List UInt8, (∀ d ∈ tail.head?, isDigit d = false) →
        (Job.mk record tail).order = some (.friction true) := by
  have hr : buttonRequest.bytes =
      getRequest (Control.button .blasterButton).query (ascii "Accept: */*\r\n") := rfl
  exact control_roundTrip [] hr

/-- The friction wheel is started by another method and another URL too. -/
theorem executed_whatever_method_volley : ∃ record record' : URLData,
    outcome (handleHttpRequest [] (some buttonRequest)) =
      ([record], completeResponse [] (buttonRequest.text.take 3)) ∧
    outcome (handleHttpRequest [] (some volleyRequest)) =
      ([record'], completeResponse [] (volleyRequest.text.take 4)) ∧
    ∀ tail : List UInt8, webRecdata ⟨record, tail⟩ = webRecdata ⟨record', tail⟩ := by
  have ht : RequestText buttonRequest.text 3 21 :=
    ⟨by decide +kernel, by decide +kernel, by decide⟩
  have ht' : RequestText volleyRequest.text 4 22 :=
    ⟨by decide +kernel, by decide +kernel, by decide⟩
  exact executed_whatever_method [] ht ht' (by decide) (by decide) (by decide +kernel)
    (by decide +kernel)

end InfantryRM

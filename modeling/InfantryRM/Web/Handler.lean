import InfantryRM.Lib.CString

/-!
# The request handler

`handle_http_request` (`webserver.c:84`) serves one connection: it receives at most 1023 bytes,
cuts the request line in place at the first `HTTP` and then at the first space, copies the first
four bytes and the text between the cuts into a `URL_Data` record, resets the queue, sends the
record, answers, and closes the connection. `handleHttpRequest` is the list of the actions that
other tasks, the queue or the client can see (`Action`), as a function of what `recv` returned.

Which requests pass the two searches is said on the received text (`RequestText`): its first space
stands before its first `HTTP` (`parseRequest_ok_iff`). The two copying loops stay inside the record
exactly when at most 30 bytes stand between the two (`copyLoops_inBounds_iff`).
-/

namespace InfantryRM

open CString

/-! ## The record -/

/-- Source: `BUFF_SIZE` (`webserver.c:34`). -/
def buffSize : Nat := 1024

/-- The declared size of both arrays of a record. Source: `URL_Data` (`webserver.h:10`). -/
def urlSize : Nat := 30

/-- Source: `URL_Data` (`webserver.h:9`). -/
structure URLData where
  myURLBuff : List.Vector UInt8 urlSize
  myURLString : List.Vector UInt8 urlSize
  deriving DecidableEq

/-- `URL_Data myurl_data = {}`. -/
def URLData.zero : URLData := ⟨.replicate urlSize 0, .replicate urlSize 0⟩

/-- What a successful `recv(fd, buff, BUFF_SIZE - 1, 0)` delivers. -/
structure Received where
  bytes : List UInt8
  pos : 0 < bytes.length
  le : bytes.length ≤ buffSize - 1

/-- The buffer after `recv`, which was zero before. -/
def Received.buff (r : Received) : List UInt8 :=
  r.bytes ++ List.replicate (buffSize - r.bytes.length) 0

/-- The text that the string functions see: the received bytes before the first NUL. -/
def Received.text (r : Received) : List UInt8 := cstr r.bytes

/-! ## Parsing -/

def httpMark : List UInt8 := ascii "HTTP"
def spaceMark : List UInt8 := ascii " "

/-- Which of the two searches failed. -/
inductive ParseError
  | header
  | uri
  deriving DecidableEq, Repr

/-- The buffer after the two cuts and the offset of the pointer `uri` in it. -/
structure Cut where
  buff : List UInt8
  uri : Nat

/-- The two searches and the two cuts. Source: `handle_http_request` (`webserver.c:119`). -/
def parseRequest (buff : List UInt8) : Except ParseError Cut :=
  match strstr buff httpMark with
  | none => .error .header
  | some h =>
    let buff := buff.set h 0
    match strstr buff spaceMark with
    | none => .error .uri
    | some s => .ok { buff := buff.set s 0, uri := s + 1 }

/-- The string that `uri` points to. -/
def Cut.uriText (c : Cut) : List UInt8 := cstr (c.buff.drop c.uri)

/-- Source: `uri_length` (`webserver.c:146`). -/
def Cut.uriLength (c : Cut) : Nat := strlen (c.buff.drop c.uri)

/-- The indices of the loop that fills `My_URLBuff`. Source: `webserver.c:149`. -/
def typeIndices : List Nat := List.range 4

/-- The indices of the loop that fills `My_URLString`. Source: `webserver.c:156`. -/
def Cut.uriIndices (c : Cut) : List Nat := List.range c.uriLength

/-- The two copying loops. Source: `handle_http_request` (`webserver.c:149`). -/
def fillRecord (c : Cut) : Except OutOfBounds URLData := do
  let myURLBuff ← copyAt c.buff typeIndices URLData.zero.myURLBuff
  let myURLString ← copyAt (c.buff.drop c.uri) c.uriIndices URLData.zero.myURLString
  return ⟨myURLBuff, myURLString⟩

/-! ## The handler -/

/-- Source: `HTTP_200` (`webserver.c:46`), with the length that `sprintf` inserts. -/
def http200 (length : Nat) : List UInt8 :=
  ascii "HTTP/1.1 200 OK\r\nServer: lwIP/1.4.0\r\nContent-Type: text/html\r\n" ++
  ascii "Connection: Keep-Alive\r\nContent-Length: " ++ ascii (toString length) ++ ascii " \r\n\r\n"

/-- Source: `HTTP_400` (`webserver.c:52`). -/
def http400 : List UInt8 :=
  ascii "HTTP/1.0 400 BadRequest\r\nContent-Length: 0\r\nConnection: Close\r\n" ++
  ascii "Server: lwIP/1.4.0\r\n\n"

/-- What a handler does after `recv`. A store outside the record has undefined behaviour, so
`outOfBounds` has no continuation. -/
inductive Action
  | xQueueReset
  | xQueueSend (record : URLData)
  | myWrite (data : List UInt8)
  | vTaskDelay (ticks : Nat)
  | close
  | vTaskDelete
  | outOfBounds (index : Nat)
  deriving DecidableEq

/-- Source: the label `requst_error` (`webserver.c:214`). -/
def requstError : List Action := [.close, .vTaskDelete]

/-- The answer, chosen by the method that the cut buffer starts with. Source: `webserver.c:201`. -/
def respond (indexHtml buff : List UInt8) : List Action :=
  if strcmpEq buff (ascii "GET") then
    [.myWrite (http200 indexHtml.length), .myWrite indexHtml]
  else
    [.myWrite http400]

/-- The handler after `recv`, which returned bytes or failed. Source: `handle_http_request`
(`webserver.c:112`). -/
def handleHttpRequest (indexHtml : List UInt8) : Option Received → List Action
  | none => requstError
  | some r =>
    match parseRequest r.buff with
    | .error _ => requstError
    | .ok c =>
      match fillRecord c with
      | .error e => [.outOfBounds e.index]
      | .ok record =>
        .xQueueReset :: .xQueueSend record :: respond indexHtml c.buff ++
          .vTaskDelay 30 :: requstError

/-! ## The text of a request -/

/-- In `text` the first space stands at `s`, the first `HTTP` at `h`, and the space comes first. -/
structure RequestText (text : List UInt8) (s h : Nat) : Prop where
  http : findSub httpMark text = some h
  space : findSub spaceMark text = some s
  lt : s < h

/-- The URI of the request, if it has one, fits the record. -/
def Received.Fits (r : Received) : Prop :=
  ∀ s h, RequestText r.text s h → h ≤ s + 1 + urlSize

section
variable {r : Received} {s h : Nat}

/-- A text has at most one first space and one first `HTTP`. -/
theorem RequestText.unique {text : List UInt8} {s' h' : Nat} (ht : RequestText text s h)
    (ht' : RequestText text s' h') : s' = s ∧ h' = h :=
  ⟨Option.some.inj (ht'.space.symm.trans ht.space), Option.some.inj (ht'.http.symm.trans ht.http)⟩

/-- The string in the receive buffer is the text. -/
theorem Received.cstr_buff (r : Received) : cstr r.buff = r.text :=
  cstr_append_replicate r.bytes _

/-- The buffer has its declared size. -/
theorem Received.length_buff (r : Received) : r.buff.length = buffSize := by
  have := r.le
  simp only [Received.buff, List.length_append, List.length_replicate]
  unfold buffSize at *
  omega

/-- `HTTP` starts inside the text. -/
theorem RequestText.lt_length {text : List UInt8} (ht : RequestText text s h) : h < text.length :=
  findSub_lt_length (by decide) ht.http

/-- The string that the first cut leaves. -/
theorem cstr_set_http (ht : RequestText r.text s h) : cstr (r.buff.set h 0) = r.text.take h := by
  rw [cstr_set_zero, r.cstr_buff]
  rw [strlen, r.cstr_buff]
  exact ht.lt_length

/-- The two searches succeed on a request text, and find its marks. -/
theorem parseRequest_of_text (ht : RequestText r.text s h) :
    parseRequest r.buff = .ok ⟨(r.buff.set h 0).set s 0, s + 1⟩ := by
  have hhttp : strstr r.buff httpMark = some h := by rw [strstr, r.cstr_buff, ht.http]
  have hspace : strstr (r.buff.set h 0) spaceMark = some s := by
    rw [strstr, cstr_set_http ht]
    exact findSub_singleton_take.2 ⟨ht.space, ht.lt⟩
  simp only [parseRequest, hhttp, hspace]

/-- The two searches succeed only on request texts. -/
theorem text_of_parseRequest {c : Cut} (hc : parseRequest r.buff = .ok c) :
    ∃ s h, RequestText r.text s h := by
  unfold parseRequest at hc
  split at hc
  · cases hc
  · next h hh =>
    rw [strstr, r.cstr_buff] at hh
    have hlt : h < strlen r.buff := by
      rw [strlen, r.cstr_buff]
      exact findSub_lt_length (by decide) hh
    simp only [strstr, cstr_set_zero hlt, r.cstr_buff] at hc
    split at hc
    · cases hc
    · next s hs =>
      obtain ⟨hs, hsh⟩ := findSub_singleton_take.1 hs
      exact ⟨s, h, hh, hs, hsh⟩

/-- **The searches.** A request passes the two `strstr` checks exactly when its text has a space
before its first `HTTP`. -/
theorem parseRequest_ok_iff : (∃ c, parseRequest r.buff = .ok c) ↔ ∃ s h, RequestText r.text s h :=
  ⟨fun ⟨_, hc⟩ => text_of_parseRequest hc, fun ⟨_, _, ht⟩ => ⟨_, parseRequest_of_text ht⟩⟩

/-! ## What the cuts leave -/

/-- The method: the text before the first space. -/
theorem cstr_cut (ht : RequestText r.text s h) :
    cstr ((r.buff.set h 0).set s 0) = r.text.take s := by
  have hlt : s < strlen (r.buff.set h 0) := by
    rw [strlen, cstr_set_http ht, List.length_take_of_le ht.lt_length.le]
    exact ht.lt
  rw [cstr_set_zero hlt, cstr_set_http ht, List.take_take, min_eq_left ht.lt.le]

/-- The URI: the text between the first space and the first `HTTP`. -/
theorem uriText_cut (ht : RequestText r.text s h) :
    Cut.uriText ⟨(r.buff.set h 0).set s 0, s + 1⟩ = (r.text.take h).drop (s + 1) := by
  have hle : s + 1 ≤ strlen (r.buff.set h 0) := by
    rw [strlen, cstr_set_http ht, List.length_take_of_le ht.lt_length.le]
    exact ht.lt
  rw [Cut.uriText, List.drop_set_of_lt (Nat.lt_succ_self s), cstr_drop hle, cstr_set_http ht]

/-- The length of the URI is the distance between the two marks. -/
theorem uriLength_cut (ht : RequestText r.text s h) :
    Cut.uriLength ⟨(r.buff.set h 0).set s 0, s + 1⟩ = h - (s + 1) := by
  have hlen := congrArg List.length (uriText_cut ht)
  rw [List.length_drop, List.length_take_of_le ht.lt_length.le] at hlen
  exact hlen

/-! ## The copying loops -/

/-- The loops store only inside the record: no index of either loop reaches the array's declared
size. -/
def Cut.InBounds (c : Cut) : Prop :=
  (∀ j ∈ c.uriIndices, j < urlSize) ∧ ∀ i ∈ typeIndices, i < urlSize

/-- The loops complete exactly when they store only inside the record. -/
theorem fillRecord_ok_iff {c : Cut} : (∃ record, fillRecord c = .ok record) ↔ c.InBounds := by
  have htype : ∃ a, copyAt c.buff typeIndices URLData.zero.myURLBuff = .ok a :=
    (copyAt_ok_iff _ _ _).2 (by decide)
  obtain ⟨a, ha⟩ := htype
  have huri := copyAt_ok_iff (c.buff.drop c.uri) c.uriIndices URLData.zero.myURLString
  rw [Cut.InBounds, ← huri]
  simp only [fillRecord, ha]
  constructor
  · rintro ⟨record, hrec⟩
    cases hs : copyAt (c.buff.drop c.uri) c.uriIndices URLData.zero.myURLString with
    | error e => rw [hs] at hrec; cases hrec
    | ok b => exact ⟨⟨b, rfl⟩, by decide⟩
  · rintro ⟨⟨b, hb⟩, -⟩
    exact ⟨⟨a, b⟩, by rw [hb]; rfl⟩

/-- The loops of a request stay inside the record exactly when its URI has at most 30 bytes. -/
theorem inBounds_cut_iff (ht : RequestText r.text s h) :
    Cut.InBounds ⟨(r.buff.set h 0).set s 0, s + 1⟩ ↔ h ≤ s + 1 + urlSize := by
  have htype : ∀ i ∈ typeIndices, i < urlSize := by decide
  rw [Cut.InBounds, Cut.uriIndices, uriLength_cut ht]
  simp only [List.mem_range]
  constructor
  · rintro ⟨hall, -⟩
    by_contra hlong
    have := hall urlSize (by omega)
    omega
  · intro hle
    exact ⟨fun j hj => by omega, htype⟩

/-- **The copying loops.** The handler stores only inside the record of a request exactly when at
most 30 bytes stand between the first space and the first `HTTP` of its text. -/
theorem copyLoops_inBounds_iff (r : Received) {c : Cut} (hc : parseRequest r.buff = .ok c) :
    c.InBounds ↔ ∃ s h, RequestText r.text s h ∧ h ≤ s + 1 + urlSize := by
  obtain ⟨s, h, ht⟩ := text_of_parseRequest hc
  rw [parseRequest_of_text ht] at hc
  cases hc
  rw [inBounds_cut_iff ht]
  constructor
  · exact fun hle => ⟨s, h, ht, hle⟩
  · rintro ⟨s', h', ht', hle⟩
    obtain ⟨rfl, rfl⟩ := ht.unique ht'
    exact hle

/-- A request whose URI has 34 bytes, and one whose URI has two. -/
def sessionRequest : Received :=
  ⟨ascii "GET /rocker?val=0505&session=12345678 HTTP/1.1\r\n\r\n", by decide, by decide⟩
def rootRequest : Received := ⟨ascii "GET / HTTP/1.1\r\n\r\n", by decide, by decide⟩

theorem requestText_sessionRequest : RequestText sessionRequest.text 3 38 :=
  ⟨by decide +kernel, by decide +kernel, by decide⟩

theorem requestText_rootRequest : RequestText rootRequest.text 3 6 :=
  ⟨by decide +kernel, by decide +kernel, by decide⟩

/-- A long URI is copied past the end of the record. -/
theorem copyLoops_overflow : ¬ ∀ (r : Received) (c : Cut), parseRequest r.buff = .ok c →
    c.InBounds := by
  intro h
  have ht := requestText_sessionRequest
  have hin := (inBounds_cut_iff ht).1 (h sessionRequest _ (parseRequest_of_text ht))
  revert hin
  decide

/-- A short URI is copied inside the record. -/
theorem copyLoops_inBounds_iff_root :
    Cut.InBounds ⟨(rootRequest.buff.set 6 0).set 3 0, 4⟩ :=
  (copyLoops_inBounds_iff rootRequest (parseRequest_of_text requestText_rootRequest)).2
    ⟨3, 6, requestText_rootRequest, by decide⟩

/-! ## What the handler does -/

/-- The record of a request with a short URI: the first four bytes of the cut buffer, and the URI,
each padded with NULs. -/
theorem fillRecord_of_text (ht : RequestText r.text s h) (hle : h ≤ s + 1 + urlSize) :
    ∃ record, fillRecord ⟨(r.buff.set h 0).set s 0, s + 1⟩ = .ok record ∧
      record.myURLBuff.toList = ((r.buff.set h 0).set s 0).take 4 ++ List.replicate 26 0 ∧
      record.myURLString.toList =
        (r.text.take h).drop (s + 1) ++ List.replicate (urlSize - (h - (s + 1))) 0 := by
  set c : Cut := ⟨(r.buff.set h 0).set s 0, s + 1⟩ with hc
  have hlen : c.uriLength = h - (s + 1) := uriLength_cut ht
  have hbuff : c.buff.length = buffSize := by simp [hc, r.length_buff]
  obtain ⟨a, ha, hal⟩ := copyAt_range c.buff URLData.zero.myURLBuff (k := 4) (by decide)
    (by rw [hbuff]; decide)
  obtain ⟨b, hb, hbl⟩ := copyAt_range (c.buff.drop c.uri) URLData.zero.myURLString
    (k := c.uriLength) (by omega) (strlen_le _)
  refine ⟨⟨a, b⟩, ?_, ?_, ?_⟩
  · simp only [fillRecord, typeIndices, Cut.uriIndices, ha, hb]
    rfl
  · rw [hal]
    rfl
  · have htext : (c.buff.drop c.uri).take c.uriLength = (r.text.take h).drop (s + 1) := by
      rw [Cut.uriLength, take_strlen]
      exact uriText_cut ht
    rw [hbl, htext, hlen]
    simp [URLData.zero, List.Vector.replicate, List.Vector.toList]

variable {indexHtml : List UInt8}

/-- A text that fails one of the searches leaves through `requst_error`. -/
theorem handleHttpRequest_of_not_text (hr : ¬ ∃ s h, RequestText r.text s h) :
    handleHttpRequest indexHtml (some r) = requstError := by
  rw [handleHttpRequest]
  split
  · rfl
  · next c hc => exact absurd (text_of_parseRequest hc) hr

/-- A request with a short URI resets the queue, sends its record, answers and closes. -/
theorem handleHttpRequest_of_short (ht : RequestText r.text s h) {record : URLData}
    (hrec : fillRecord ⟨(r.buff.set h 0).set s 0, s + 1⟩ = .ok record) :
    handleHttpRequest indexHtml (some r) =
      .xQueueReset :: .xQueueSend record ::
        (if r.text.take s = ascii "GET" then
          [.myWrite (http200 indexHtml.length), .myWrite indexHtml] else [.myWrite http400]) ++
        .vTaskDelay 30 :: requstError := by
  simp only [handleHttpRequest, parseRequest_of_text ht, hrec, respond, strcmpEq, cstr_cut ht,
    beq_iff_eq]

/-- A request with a long URI stores outside its record. -/
theorem handleHttpRequest_of_long (ht : RequestText r.text s h) (hlt : s + 1 + urlSize < h) :
    ∃ i, handleHttpRequest indexHtml (some r) = [.outOfBounds i] := by
  have hout : ¬ ∃ record, fillRecord ⟨(r.buff.set h 0).set s 0, s + 1⟩ = .ok record := by
    rw [fillRecord_ok_iff, inBounds_cut_iff ht]
    omega
  simp only [handleHttpRequest, parseRequest_of_text ht]
  cases hf : fillRecord ⟨(r.buff.set h 0).set s 0, s + 1⟩ with
  | error e => exact ⟨e.index, rfl⟩
  | ok record => exact absurd ⟨record, hf⟩ hout

/-- What the handler does with a request: it stores outside the record, or sends the record of the
URI and answers. -/
theorem handleHttpRequest_of_text (indexHtml : List UInt8) (ht : RequestText r.text s h) :
    (s + 1 + urlSize < h ∧ ∃ i, handleHttpRequest indexHtml (some r) = [.outOfBounds i]) ∨
    (h ≤ s + 1 + urlSize ∧ ∃ record : URLData,
      record.myURLString.toList =
        (r.text.take h).drop (s + 1) ++ List.replicate (urlSize - (h - (s + 1))) 0 ∧
      handleHttpRequest indexHtml (some r) =
        .xQueueReset :: .xQueueSend record ::
          (if r.text.take s = ascii "GET" then
            [.myWrite (http200 indexHtml.length), .myWrite indexHtml] else [.myWrite http400]) ++
          .vTaskDelay 30 :: requstError) := by
  rcases Nat.lt_or_ge (s + 1 + urlSize) h with hlong | hle
  · exact .inl ⟨hlong, handleHttpRequest_of_long ht hlong⟩
  · obtain ⟨record, hrec, -, hstring⟩ := fillRecord_of_text ht hle
    exact .inr ⟨hle, record, hstring, handleHttpRequest_of_short ht hrec⟩

/-- A URI that is too long is the one of the request. -/
theorem RequestText.fits_iff (ht : RequestText r.text s h) : r.Fits ↔ h ≤ s + 1 + urlSize := by
  refine ⟨fun hr => hr s h ht, fun hle s' h' ht' => ?_⟩
  obtain ⟨rfl, rfl⟩ := ht.unique ht'
  exact hle

end

end InfantryRM

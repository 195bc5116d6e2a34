import InfantryRM.Web.Handler

/-!
# Writing the response

`my_write` calls `send` until the whole buffer is accepted, tries again after `EINTR`, and returns
-1 at any other failure. The handler writes the header and the page with two calls of `my_write` and
looks at neither result.

What a call of `my_write` puts on the wire is always a part of its buffer from the start, as long as
the results of `send` allow (`accepted_myWrite`). The two calls together need not be a part of the
response: when the header fails midway and the page does not, bytes of the header are missing in
front of the page (`wire_prefix_iff`).
-/

namespace InfantryRM

open CString

/-! ## `my_write` -/

/-- The `errno` of an interrupted call. -/
def EINTR : Int := 4

/-- What a call of `send` returns, and the `errno` after it. A positive result is cut to the bytes
that the call has left to send. -/
structure SendResult where
  writtenBytes : Int
  errno : Int
  deriving DecidableEq, Repr

/-- The bytes of a run of `my_write` that `send` accepted, what `my_write` returned (`none` while it
is still in its loop), and the results of `send` that later calls get. -/
structure Writing where
  accepted : List UInt8
  returned : Option Int
  unused : List SendResult
  deriving DecidableEq, Repr

/-- Source: `my_write` (`webserver.c:66`). -/
def myWriteLoop (buffer : List UInt8) : Nat → Nat → List SendResult → Writing
  | _, 0, rs => ⟨[], some 0, rs⟩
  | _, _ + 1, [] => ⟨[], none, []⟩
  | ptr, n + 1, r :: rs =>
    let bytesLeft := n + 1
    let writtenBytes := min r.writtenBytes bytesLeft
    if writtenBytes ≤ 0 ∧ r.errno ≠ EINTR then ⟨[], some (-1), rs⟩
    else
      -- an interrupted call counts as 0 bytes
      let written := writtenBytes.toNat
      let next := myWriteLoop buffer (ptr + written) (bytesLeft - written) rs
      { next with accepted := (buffer.drop ptr).take written ++ next.accepted }

/-- Source: `my_write` (`webserver.c:58`). -/
def myWrite (buffer : List UInt8) (rs : List SendResult) : Writing :=
  myWriteLoop buffer 0 buffer.length rs

/-- The bytes that `send` accepts on the connection before its `close`. The results of `my_write`
are not looked at. Source: `handle_http_request` (`webserver.c:201`). -/
def wire : List Action → List SendResult → List UInt8
  | [], _ | .close :: _, _ => []
  | .myWrite data :: rest, rs =>
    let w := myWrite data rs
    w.accepted ++ w.returned.elim [] fun _ => wire rest w.unused
  | _ :: rest, rs => wire rest rs

/-! ## What the results of `send` allow -/

/-- `my_write` gives up at this result. -/
def SendResult.Fails (r : SendResult) : Prop := r.writtenBytes ≤ 0 ∧ r.errno ≠ EINTR

instance (r : SendResult) : Decidable r.Fails := inferInstanceAs (Decidable (_ ∧ _))

/-- The bytes that the results allow before the first one at which `my_write` gives up. -/
def offered : List SendResult → Nat
  | [] => 0
  | r :: rs => if r.Fails then 0 else r.writtenBytes.toNat + offered rs

section
variable {buffer : List UInt8} {ptr bytesLeft : Nat} {r f : SendResult}
  {rs pre body : List SendResult}

/-- A failing result ends the loop. -/
theorem myWriteLoop_of_fails (hf : r.Fails) (hpos : 0 < bytesLeft) :
    myWriteLoop buffer ptr bytesLeft (r :: rs) = ⟨[], some (-1), rs⟩ := by
  obtain ⟨n, rfl⟩ := Nat.exists_eq_succ_of_ne_zero hpos.ne'
  obtain ⟨hle, herr⟩ := hf
  rw [myWriteLoop, if_pos ⟨by omega, herr⟩]

/-- Any other result moves the pointer. -/
theorem myWriteLoop_of_not_fails (hf : ¬ r.Fails) (hpos : 0 < bytesLeft) :
    myWriteLoop buffer ptr bytesLeft (r :: rs) =
      let written := min r.writtenBytes.toNat bytesLeft
      let next := myWriteLoop buffer (ptr + written) (bytesLeft - written) rs
      { next with accepted := (buffer.drop ptr).take written ++ next.accepted } := by
  obtain ⟨n, rfl⟩ := Nat.exists_eq_succ_of_ne_zero hpos.ne'
  have hnot : ¬ (min r.writtenBytes ((n + 1 : Nat) : Int) ≤ 0 ∧ r.errno ≠ EINTR) := by
    rintro ⟨hle, herr⟩
    exact hf ⟨by omega, herr⟩
  have hmin : (min r.writtenBytes ((n + 1 : Nat) : Int)).toNat =
      min r.writtenBytes.toNat (n + 1) := by omega
  rw [myWriteLoop, if_neg hnot]
  simp only [hmin, Nat.succ_eq_add_one]

/-- The loop puts the bytes from its pointer on the wire, as many as the results allow. -/
theorem accepted_myWriteLoop (hlen : ptr + bytesLeft = buffer.length) :
    (myWriteLoop buffer ptr bytesLeft rs).accepted = (buffer.drop ptr).take (offered rs) := by
  induction rs generalizing ptr bytesLeft with
  | nil =>
    cases bytesLeft with
    | zero => simp [myWriteLoop, offered]
    | succ n => simp [myWriteLoop, offered]
  | cons r rs ih =>
    rcases Nat.eq_zero_or_pos bytesLeft with rfl | hpos
    · have hnil : buffer.drop ptr = [] := List.drop_eq_nil_of_le (by omega)
      rw [myWriteLoop, hnil, List.take_nil]
    by_cases hf : r.Fails
    · rw [myWriteLoop_of_fails hf hpos, offered, if_pos hf, List.take_zero]
    · rw [myWriteLoop_of_not_fails hf hpos, offered, if_neg hf]
      simp only
      rw [ih (by omega), ← List.drop_drop]
      rcases Nat.le_total r.writtenBytes.toNat bytesLeft with hle | hge
      · rw [min_eq_left hle, List.take_add]
      · have hall : (buffer.drop ptr).length ≤ bytesLeft := by
          rw [List.length_drop]
          omega
        rw [min_eq_right hge, List.take_of_length_le hall, List.drop_eq_nil_of_le hall,
          List.take_nil, List.append_nil, List.take_of_length_le (by omega)]

/-- The loop returns when its bytes are accepted, or at a failing result before that. -/
theorem returned_myWriteLoop {v : Int}
    (h : (myWriteLoop buffer ptr bytesLeft rs).returned = some v) :
    bytesLeft ≤ offered rs ∨ ∃ pre f body, rs = pre ++ f :: body ∧ (∀ r ∈ pre, ¬ r.Fails) ∧
      f.Fails ∧ offered pre < bytesLeft := by
  induction rs generalizing ptr bytesLeft with
  | nil =>
    cases bytesLeft with
    | zero => exact .inl (Nat.zero_le _)
    | succ n => cases h
  | cons r rs ih =>
    rcases Nat.eq_zero_or_pos bytesLeft with rfl | hpos
    · exact .inl (Nat.zero_le _)
    by_cases hf : r.Fails
    · exact .inr ⟨[], r, rs, rfl, by simp, hf, hpos⟩
    · rw [myWriteLoop_of_not_fails hf hpos] at h
      rw [offered, if_neg hf]
      rcases ih h with hle | ⟨pre, f, body, rfl, hpre, hfail, hlt⟩
      · exact .inl (by omega)
      · refine .inr ⟨r :: pre, f, body, rfl, List.forall_mem_cons.2 ⟨hf, hpre⟩, hfail, ?_⟩
        rw [offered, if_neg hf]
        omega

/-- A failing result before the last byte makes the loop return -1; later calls get the results
behind it. -/
theorem myWriteLoop_of_cut (hpre : ∀ r ∈ pre, ¬ r.Fails) (hf : f.Fails)
    (hlt : offered pre < bytesLeft) :
    (myWriteLoop buffer ptr bytesLeft (pre ++ f :: body)).returned = some (-1) ∧
      (myWriteLoop buffer ptr bytesLeft (pre ++ f :: body)).unused = body := by
  induction pre generalizing ptr bytesLeft with
  | nil =>
    rw [List.nil_append, myWriteLoop_of_fails hf (Nat.zero_lt_of_lt hlt)]
    exact ⟨rfl, rfl⟩
  | cons r pre ih =>
    obtain ⟨hr, hpre⟩ := List.forall_mem_cons.1 hpre
    rw [offered, if_neg hr] at hlt
    rw [List.cons_append, myWriteLoop_of_not_fails hr (Nat.zero_lt_of_lt hlt)]
    exact ih hpre (by omega)

/-- Only the results before the first failing one count. -/
theorem offered_append (hpre : ∀ r ∈ pre, ¬ r.Fails) (hf : f.Fails) :
    offered (pre ++ f :: body) = offered pre := by
  induction pre with
  | nil => exact if_pos hf
  | cons r pre ih =>
    obtain ⟨hr, hpre⟩ := List.forall_mem_cons.1 hpre
    rw [List.cons_append, offered, offered, if_neg hr, if_neg hr, ih hpre]

/-! ## The response -/

/-- What `my_write` puts on the wire is a part of its buffer from the start. -/
theorem accepted_myWrite (buffer : List UInt8) (rs : List SendResult) :
    (myWrite buffer rs).accepted = buffer.take (offered rs) :=
  accepted_myWriteLoop (Nat.zero_add _)

/-- The response to a request whose method stands before its first space. -/
def completeResponse (indexHtml method : List UInt8) : List UInt8 :=
  if method = ascii "GET" then http200 indexHtml.length ++ indexHtml else http400

/-- The results of `send` with which the header fails before its last byte is accepted, and of the
page more is accepted than what stands in the header there. The page starts with a line feed, as
lines of the header end with one, and no byte of the header is the page's second byte. -/
def HeaderCut (header : List UInt8) (rs : List SendResult) : Prop :=
  ∃ pre f body, rs = pre ++ f :: body ∧ (∀ r ∈ pre, ¬ r.Fails) ∧ f.Fails ∧
    offered pre < header.length ∧
      (2 ≤ offered body ∨ (offered body = 1 ∧ header[offered pre]? ≠ some 10))

/-- The first two bytes of the page. Source: `index.html`. -/
def pageStart : List UInt8 := [10, 60]

/-- The header has no `<`. -/
theorem notMem_http200 (length : Nat) : 60 ∉ http200 length := by
  have hdigits : (60 : UInt8) ∉ ascii (toString length) := by
    intro h
    obtain ⟨c, hc, heq⟩ := List.mem_map.1 h
    rw [Nat.toString_eq_repr, Nat.toList_repr] at hc
    have hdigit := Nat.isDigit_of_mem_toDigits (by decide) (by decide) hc
    have hle : c.toNat ≤ 57 := by
      simp only [Char.isDigit, Bool.and_eq_true, decide_eq_true_eq] at hdigit
      exact hdigit.2
    have hnat : c.toNat % 256 = 60 := by simpa using congrArg UInt8.toNat heq
    omega
  have htext : (60 : UInt8) ∉
      ascii "HTTP/1.1 200 OK\r\nServer: lwIP/1.4.0\r\nContent-Type: text/html\r\n" ∧
        60 ∉ ascii "Connection: Keep-Alive\r\nContent-Length: " ∧ 60 ∉ ascii " \r\n\r\n" := by
    decide +kernel
  obtain ⟨h1, h2, h3⟩ := htext
  simp only [http200, List.mem_append, not_or]
  exact ⟨⟨⟨h1, h2⟩, hdigits⟩, h3⟩

/-- A part of the header followed by a part of the page is a part of the two from the start exactly
when nothing of the page follows, or only its line feed in place of one of the header. -/
theorem take_append_take_prefix_iff {header page : List UInt8} {k m : Nat} (hlt : 60 ∉ header)
    (hpage : pageStart <+: page) (hk : k < header.length) :
    header.take k ++ page.take m <+: header ++ page ↔
      ¬ (2 ≤ m ∨ (m = 1 ∧ header[k]? ≠ some 10)) := by
  obtain ⟨rest, rfl⟩ := hpage
  have hsplit : header ++ (pageStart ++ rest) =
      header.take k ++ (header[k] :: (header.drop (k + 1) ++ (pageStart ++ rest))) := by
    rw [← List.cons_append, ← List.drop_eq_getElem_cons hk, ← List.append_assoc (header.take k),
      List.take_append_drop]
  rw [hsplit, List.prefix_append_right_inj, List.getElem?_eq_getElem hk]
  rcases m with _ | _ | m
  · simp
  · simp [pageStart, eq_comm]
  · refine iff_of_false ?_ (by simp)
    intro h
    obtain ⟨-, h⟩ := List.cons_prefix_cons.1 h
    cases hd : header.drop (k + 1) with
    | nil =>
      rw [hd] at h
      exact absurd (List.cons_prefix_cons.1 h).1 (by decide)
    | cons d tail =>
      rw [hd] at h
      have heq := (List.cons_prefix_cons.1 h).1
      exact hlt (List.mem_of_mem_drop (heq ▸ hd ▸ List.mem_cons_self : 60 ∈ header.drop (k + 1)))

/-- The failing result at which the header is cut is the first one. -/
theorem headerCut_append_iff {header : List UInt8} (hpre : ∀ r ∈ pre, ¬ r.Fails) (hf : f.Fails) :
    HeaderCut header (pre ++ f :: body) ↔ offered pre < header.length ∧
      (2 ≤ offered body ∨ (offered body = 1 ∧ header[offered pre]? ≠ some 10)) := by
  constructor
  · rintro ⟨pre', f', body', heq, hpre', hf', hcut⟩
    have htake {pre : List SendResult} {f : SendResult} (body : List SendResult)
        (hpre : ∀ r ∈ pre, ¬ r.Fails) (hf : f.Fails) :
        (pre ++ f :: body).takeWhile (fun r => decide (¬ r.Fails)) = pre := by
      rw [List.takeWhile_append_of_pos (by simpa using hpre)]
      simp [hf]
    have hsame : pre = pre' := by rw [← htake body hpre hf, heq, htake body' hpre' hf']
    cases hsame
    cases List.append_cancel_left heq
    exact hcut
  · exact fun hcut => ⟨pre, f, body, rfl, hpre, hf, hcut⟩

/-- The bytes of the header and of the page on the wire. -/
theorem prefix_wire_iff {header page : List UInt8} (hlt : 60 ∉ header)
    (hpage : pageStart <+: page) (rs : List SendResult) :
    (myWrite header rs).accepted ++ ((myWrite header rs).returned.elim [] fun _ =>
        (myWrite page (myWrite header rs).unused).accepted) <+: header ++ page ↔
      ¬ HeaderCut header rs := by
  by_cases hcut : ∃ pre f body, rs = pre ++ f :: body ∧ (∀ r ∈ pre, ¬ r.Fails) ∧ f.Fails ∧
    offered pre < header.length
  · obtain ⟨pre, f, body, rfl, hpre, hf, hk⟩ := hcut
    obtain ⟨hret, hunused⟩ : (myWrite header (pre ++ f :: body)).returned = some (-1) ∧
        (myWrite header (pre ++ f :: body)).unused = body := myWriteLoop_of_cut hpre hf hk
    rw [hret, hunused, Option.elim_some, accepted_myWrite, accepted_myWrite,
      offered_append hpre hf, take_append_take_prefix_iff hlt hpage hk,
      headerCut_append_iff hpre hf, and_iff_right hk]
  · refine iff_of_true ?_ ?_
    · rw [accepted_myWrite]
      cases hret : (myWrite header rs).returned with
      | none =>
        rw [Option.elim_none, List.append_nil]
        exact (List.take_prefix _ _).trans (List.prefix_append _ _)
      | some v =>
        have hall := (returned_myWriteLoop hret).resolve_right hcut
        rw [Option.elim_some, accepted_myWrite, List.take_of_length_le hall,
          List.prefix_append_right_inj]
        exact List.take_prefix _ _
    · rintro ⟨pre, f, body, heq, hpre, hf, hk, -⟩
      exact hcut ⟨pre, f, body, heq, hpre, hf, hk⟩

/-- The last `my_write` of a handler. -/
theorem wire_myWrite_last (data : List UInt8) (rs : List SendResult) :
    wire (.myWrite data :: .vTaskDelay 30 :: requstError) rs = (myWrite data rs).accepted := by
  have hrest (w : Writing) :
      (w.returned.elim [] fun _ => wire (.vTaskDelay 30 :: requstError) w.unused) = [] := by
    cases w.returned <;> rfl
  rw [wire, hrest, List.append_nil]

/-- **The bytes on the wire.** For a valid request and any results of `send`, the bytes accepted on
the connection are a part of the complete response from the start exactly when the request is no
`GET`, or the header is not cut. -/
theorem wire_prefix_iff {r : Received} {s h : Nat} (ht : RequestText r.text s h)
    (hle : h ≤ s + 1 + urlSize) {indexHtml : List UInt8} (hpage : pageStart <+: indexHtml)
    (rs : List SendResult) :
    wire (handleHttpRequest indexHtml (some r)) rs <+:
        completeResponse indexHtml (r.text.take s) ↔
      ¬ (r.text.take s = ascii "GET" ∧ HeaderCut (http200 indexHtml.length) rs) := by
  obtain ⟨record, hrec, -, -⟩ := fillRecord_of_text ht hle
  rw [handleHttpRequest_of_short ht hrec, completeResponse]
  by_cases hget : r.text.take s = ascii "GET"
  · have hpre := prefix_wire_iff (notMem_http200 indexHtml.length) hpage rs
    rw [if_pos hget, if_pos hget, and_iff_right hget, ← hpre]
    show (myWrite (http200 indexHtml.length) rs).accepted ++
      ((myWrite (http200 indexHtml.length) rs).returned.elim [] fun _ =>
        wire (.myWrite indexHtml :: .vTaskDelay 30 :: requstError) _) <+: _ ↔ _
    rw [wire_myWrite_last]
  · rw [if_neg hget, if_neg hget]
    refine iff_of_true ?_ fun h => hget h.1
    show wire (.myWrite http400 :: .vTaskDelay 30 :: requstError) rs <+: http400
    rw [wire_myWrite_last, accepted_myWrite]
    exact List.take_prefix _ _

end

/-- `send` times out on the header and takes two bytes of the page. -/
def timeoutResults : List SendResult := [⟨-1, 11⟩, ⟨2, 11⟩, ⟨-1, 11⟩]

/-- The page starts on the wire without the header. -/
theorem wire_header_lost : ¬ ∀ (indexHtml : List UInt8) (r : Received) (s h : Nat),
    pageStart <+: indexHtml → RequestText r.text s h → h ≤ s + 1 + urlSize → ∀ rs,
      wire (handleHttpRequest indexHtml (some r)) rs <+:
        completeResponse indexHtml (r.text.take s) := by
  intro h
  have hwire := h pageStart rootRequest 3 6 (List.prefix_refl _) requestText_rootRequest (by decide)
    timeoutResults
  revert hwire
  decide +kernel

/-- When the page's `my_write` fails too, nothing is wrong with what was sent. -/
theorem wire_prefix_iff_timeout :
    wire (handleHttpRequest pageStart (some rootRequest)) [⟨20, 0⟩, ⟨-1, 11⟩, ⟨-1, 11⟩] <+:
        completeResponse pageStart (rootRequest.text.take 3) ↔
      ¬ (rootRequest.text.take 3 = ascii "GET" ∧
        HeaderCut (http200 pageStart.length) [⟨20, 0⟩, ⟨-1, 11⟩, ⟨-1, 11⟩]) :=
  wire_prefix_iff (h := 6) ⟨by decide, by decide, by decide⟩ (by decide) (List.prefix_refl _) _

end InfantryRM

import InfantryRM.Lib.Strtol

/-!
# Messages of announced length

A message is a head of lines, an empty line, and a body whose length a `Content-Length` line of the
head announces. A client reads it byte by byte (`Reader.feed`), so how the bytes are cut into
segments does not matter. A strict client takes CR LF for the end of a line, a lenient one takes a
lone LF too.

A client of either kind reads a message back (`read_bytes`). Being done with a message is final
(`Reader.foldl_done`), so no client is done with a strict part of one. A strict client is not even
done when the head is cut and a text without CR follows in its place (`read_cut`).
-/

namespace Message

open Strtol

/-! ## The client -/

/-- What a client has read: the bytes of an unfinished line of the head and the length announced so
far; a part of the body and the bytes that it lacks; a whole message and what follows it; or a head
without a length. -/
inductive Reader
  | head (line : List UInt8) (length : Option Nat)
  | body (got : List UInt8) (left : Nat)
  | done (content rest : List UInt8)
  | bad
  deriving DecidableEq, Repr

/-- The line that a LF ends after these bytes, if it ends one. -/
def lineOf (lenient : Bool) (line : List UInt8) : Option (List UInt8) :=
  if line.getLast? = some 13 then some line.dropLast
  else if lenient then some line
  else none

/-- The lower case of a letter. -/
def lower (c : UInt8) : UInt8 := if 65 ≤ c ∧ c ≤ 90 then c + 32 else c

/-- The name of the field that announces the length, in lower case, and the colon. -/
def lengthName : List UInt8 :=
  [99, 111, 110, 116, 101, 110, 116, 45, 108, 101, 110, 103, 116, 104, 58]

/-- A blank around the value of a field. -/
def isBlank (c : UInt8) : Bool := c == 32 || c == 9

/-- The value of a field without the blanks around it. -/
def trim (value : List UInt8) : List UInt8 := (value.dropWhile isBlank).rdropWhile isBlank

/-- The length that a line announces. -/
def contentLength (line : List UInt8) : Option Nat :=
  let value := trim (line.drop lengthName.length)
  if (line.take lengthName.length).map lower = lengthName ∧ value ≠ [] ∧ ∀ c ∈ value, isDigit c then
    some (digitsValue value)
  else none

/-- The empty line ends the head. -/
def bodyOf : Option Nat → Reader
  | none => .bad
  | some 0 => .done [] []
  | some (n + 1) => .body [] (n + 1)

/-- One more byte. -/
def Reader.feed (lenient : Bool) : Reader → UInt8 → Reader
  | .head line length, b =>
    if b = 10 then
      match lineOf lenient line with
      | none => .head (line ++ [b]) length
      | some [] => bodyOf length
      | some text => .head [] (length <|> contentLength text)
    else .head (line ++ [b]) length
  | .body got left, b => if left ≤ 1 then .done (got ++ [b]) [] else .body (got ++ [b]) (left - 1)
  | .done content rest, b => .done content (rest ++ [b])
  | .bad, _ => .bad

/-- What a client has read after these bytes. -/
def read (lenient : Bool) (bytes : List UInt8) : Reader :=
  bytes.foldl (Reader.feed lenient) (.head [] none)

/-! ## Messages -/

/-- The lines of a head. -/
structure Head where
  lines : List (List UInt8)
  ne_nil : ∀ line ∈ lines, line ≠ []
  noLF : ∀ line ∈ lines, 10 ∉ line
  noCR : ∀ line ∈ lines, 13 ∉ line

/-- The end of a line. -/
def crlf : List UInt8 := [13, 10]

/-- The bytes of a head, with the empty line. -/
def Head.bytes (h : Head) : List UInt8 := h.lines.flatMap (· ++ crlf) ++ crlf

/-- The length that a head announces. -/
def Head.length? (h : Head) : Option Nat := h.lines.findSome? contentLength

/-! ## Reading a message -/

section
variable {lenient : Bool} {line text bytes : List UInt8} {length : Option Nat} {r : Reader}

/-- Bytes in sequence. -/
theorem read_append (lenient : Bool) (bytes bytes' : List UInt8) :
    read lenient (bytes ++ bytes') = bytes'.foldl (Reader.feed lenient) (read lenient bytes) :=
  List.foldl_append

/-- Without a LF the line goes on. -/
theorem Reader.foldl_line (h : 10 ∉ text) :
    text.foldl (Reader.feed lenient) (.head line length) = .head (line ++ text) length := by
  induction text generalizing line with
  | nil => rw [List.append_nil]; rfl
  | cons b text ih =>
    have hb : b ≠ 10 := fun heq => h (heq ▸ List.mem_cons_self)
    have htext : 10 ∉ text := fun hmem => h (List.mem_cons_of_mem b hmem)
    rw [List.foldl_cons, Reader.feed, if_neg hb, ih htext, List.append_assoc]
    rfl

/-- CR LF ends a line for every client. -/
theorem lineOf_concat_cr : lineOf lenient (line ++ [13]) = some line := by
  rw [lineOf, if_pos List.getLast?_concat, List.dropLast_concat]

/-- A line of the head. -/
theorem Reader.foldl_head_line (hne : text ≠ []) (hLF : 10 ∉ text) :
    (text ++ crlf).foldl (Reader.feed lenient) (.head [] length) =
      .head [] (length <|> contentLength text) := by
  have hcr : 10 ∉ text ++ [13] := by simp [hLF]
  have hsplit : text ++ crlf = (text ++ [13]) ++ [10] := by simp [crlf]
  rw [hsplit, List.foldl_append, Reader.foldl_line hcr, List.nil_append, List.foldl_cons,
    List.foldl_nil, Reader.feed, if_pos rfl, lineOf_concat_cr]
  cases text with
  | nil => exact absurd rfl hne
  | cons b text => rfl

/-- The lines of the head. -/
theorem Reader.foldl_head_lines {lines : List (List UInt8)} (hne : ∀ line ∈ lines, line ≠ [])
    (hLF : ∀ line ∈ lines, 10 ∉ line) :
    (lines.flatMap (· ++ crlf)).foldl (Reader.feed lenient) (.head [] length) =
      .head [] (length <|> lines.findSome? contentLength) := by
  induction lines generalizing length with
  | nil => cases length <;> rfl
  | cons text lines ih =>
    obtain ⟨hne0, hne⟩ := List.forall_mem_cons.1 hne
    obtain ⟨hLF0, hLF⟩ := List.forall_mem_cons.1 hLF
    rw [List.flatMap_cons, List.foldl_append, Reader.foldl_head_line hne0 hLF0, ih hne hLF,
      List.findSome?_cons]
    cases length with
    | none => cases contentLength text <;> rfl
    | some n => rfl

/-- A head is followed by the body. -/
theorem read_head (lenient : Bool) (h : Head) : read lenient h.bytes = bodyOf h.length? := by
  rw [Head.bytes, read_append, read, Reader.foldl_head_lines h.ne_nil h.noLF]
  rfl

/-- The bytes of a body that has begun, while some are lacking. -/
theorem Reader.foldl_body {got : List UInt8} {left : Nat} (h : bytes.length < left) :
    bytes.foldl (Reader.feed lenient) (.body got left) =
      .body (got ++ bytes) (left - bytes.length) := by
  induction bytes generalizing got left with
  | nil => rw [List.append_nil]; rfl
  | cons b bytes ih =>
    rw [List.length_cons] at h
    rw [List.foldl_cons, Reader.feed, if_neg (by omega), ih (by omega), List.append_assoc,
      List.length_cons, Nat.sub_sub, Nat.add_comm 1]
    rfl

/-- What follows a message. -/
theorem Reader.foldl_done (body rest bytes : List UInt8) :
    bytes.foldl (Reader.feed lenient) (.done body rest) = .done body (rest ++ bytes) := by
  induction bytes generalizing rest with
  | nil => rw [List.append_nil]; rfl
  | cons b bytes ih =>
    rw [List.foldl_cons, Reader.feed, ih, List.append_assoc]
    rfl

/-- The whole body. -/
theorem Reader.foldl_bodyOf (body : List UInt8) :
    body.foldl (Reader.feed lenient) (bodyOf (some body.length)) = .done body [] := by
  rcases List.eq_nil_or_concat' body with rfl | ⟨init, last, rfl⟩
  · rfl
  · have hlen : (init ++ [last]).length = init.length + 1 := by simp
    have hleft : init.length + 1 - init.length = 1 := Nat.add_sub_cancel_left ..
    rw [hlen, bodyOf, List.foldl_append, Reader.foldl_body (Nat.lt_succ_self _), hleft]
    rfl

/-- **Round trip.** Every client reads a message back. -/
theorem read_bytes (lenient : Bool) {h : Head} {body : List UInt8}
    (hlength : h.length? = some body.length) :
    read lenient (h.bytes ++ body) = .done body [] := by
  rw [read_append, read_head, hlength, Reader.foldl_bodyOf]

/-- **Parts.** A client that is done after a part of a message has read the whole of it. -/
theorem eq_of_read_prefix {part whole body rest body' : List UInt8} (hpart : part <+: whole)
    (hwhole : read lenient whole = .done body []) (h : read lenient part = .done body' rest) :
    part = whole := by
  obtain ⟨more, rfl⟩ := hpart
  rw [read_append, h, Reader.foldl_done] at hwhole
  have hnil : rest ++ more = [] := (Reader.done.inj hwhole).2
  rw [(List.append_eq_nil_iff.1 hnil).2, List.append_nil]

/-! ## A head that is cut -/

/-- The client is in the body or behind it. -/
def Reader.BehindHead : Reader → Prop
  | .body _ _ | .done _ _ => True
  | .head _ _ | .bad => False

/-- The bytes behind the head. -/
def Reader.behind : Reader → Nat
  | .head _ _ | .bad => 0
  | .body got _ => got.length
  | .done content rest => content.length + rest.length

/-- Behind the head every byte counts. -/
theorem Reader.behind_feed (lenient : Bool) (h : r.BehindHead) (b : UInt8) :
    (r.feed lenient b).BehindHead ∧ (r.feed lenient b).behind = r.behind + 1 := by
  cases r with
  | head | bad => exact h.elim
  | body got left =>
    rw [Reader.feed]
    split
    · exact ⟨trivial, by simp [Reader.behind]⟩
    · exact ⟨trivial, by simp [Reader.behind]⟩
  | done content rest => exact ⟨trivial, by simp [Reader.feed, Reader.behind, Nat.add_assoc]⟩

/-- Behind the head all bytes count. -/
theorem Reader.behind_foldl (lenient : Bool) (h : r.BehindHead) (bytes : List UInt8) :
    (bytes.foldl (Reader.feed lenient) r).behind = r.behind + bytes.length := by
  induction bytes generalizing r with
  | nil => rfl
  | cons b bytes ih =>
    obtain ⟨hnext, hcount⟩ := Reader.behind_feed lenient h b
    rw [List.foldl_cons, ih hnext, hcount, List.length_cons]
    omega

/-- A head without a length stays one. -/
theorem Reader.foldl_bad (bytes : List UInt8) :
    bytes.foldl (Reader.feed lenient) .bad = .bad := by
  induction bytes with
  | nil => rfl
  | cons b bytes ih => exact ih

/-- The head is not over before its last byte. -/
theorem read_part (lenient : Bool) {h : Head} {n : Nat} (hlength : h.length? = some n)
    {part more : List UInt8} (hsplit : part ++ more = h.bytes) (hmore : more ≠ []) :
    ∃ line length, read lenient part = .head line length := by
  have hbody : more.foldl (Reader.feed lenient) (read lenient part) = bodyOf (some n) := by
    rw [← read_append, hsplit, read_head, hlength]
  have hzero : (bodyOf (some n)).behind = 0 := by cases n <;> rfl
  cases hr : read lenient part with
  | head line length => exact ⟨line, length, rfl⟩
  | bad =>
    rw [hr, Reader.foldl_bad] at hbody
    cases n <;> cases hbody
  | body | done =>
    -- otherwise `more` would lie behind the head
    have hbehind : (read lenient part).BehindHead := hr ▸ trivial
    have hcount := Reader.behind_foldl lenient hbehind more
    rw [hbody, hzero] at hcount
    have hpos := List.length_pos_iff.2 hmore
    omega

/-- A line that lacks only its LF ends with the last byte that was read. -/
theorem getLast_of_read_head (h : read lenient bytes = .head line length)
    (hcr : line.getLast? = some 13) : bytes.getLast? = some 13 := by
  rcases List.eq_nil_or_concat' bytes with rfl | ⟨init, b, rfl⟩
  · cases h
    cases hcr
  · rw [List.getLast?_concat]
    rw [read_append, List.foldl_cons, List.foldl_nil] at h
    cases hr : read lenient init with
    | head line' length' =>
      rw [hr, Reader.feed] at h
      split at h
      · next hb =>
        split at h
        · cases h
          rw [List.getLast?_concat, hb] at hcr
          cases hcr
        · cases length' with
          | none => cases h
          | some n => cases n <;> cases h
        · cases h
          cases hcr
      · cases h
        rwa [List.getLast?_concat] at hcr
    | body got left =>
      rw [hr, Reader.feed] at h
      split at h <;> cases h
    | done | bad =>
      rw [hr] at h
      cases h

/-- In a head a CR is followed by a LF. -/
theorem Head.isChain_bytes (h : Head) : h.bytes.IsChain (fun a b => a = 13 → b = 10) := by
  have hcrlf : crlf.IsChain (fun a b => a = 13 → b = 10) := by decide
  have hline {line : List UInt8} (hcr : 13 ∉ line) :
      line.IsChain (fun a b => a = 13 → b = 10) := by
    refine (List.pairwise_of_forall_mem_list ?_).isChain
    rintro a ha b - rfl
    exact absurd ha hcr
  have hnext {line : List UInt8} (hcr : 13 ∉ line) (bytes : List UInt8) :
      ∀ a ∈ line.getLast?, ∀ b ∈ bytes.head?, a = 13 → b = 10 := by
    rintro a ha b - rfl
    exact absurd (List.mem_of_getLast? ha) hcr
  have hnoCR := h.noCR
  unfold Head.bytes
  generalize h.lines = lines at hnoCR
  induction lines with
  | nil => exact hcrlf
  | cons line lines ih =>
    obtain ⟨hcr, hnoCR⟩ := List.forall_mem_cons.1 hnoCR
    rw [List.flatMap_cons, List.append_assoc, List.append_assoc]
    refine List.isChain_append.2 ⟨hline hcr, ?_, hnext hcr _⟩
    refine List.isChain_append.2 ⟨hcrlf, ih hnoCR, ?_⟩
    rintro a ha b - rfl
    cases ha

/-- Without a CR a strict client does not get out of a line that lacks more than its LF. -/
theorem Reader.foldl_strict (length : Option Nat) (hcr : 13 ∉ text)
    (hline : line.getLast? ≠ some 13) :
    ∃ line', text.foldl (Reader.feed false) (.head line length) = .head line' length := by
  induction text generalizing line with
  | nil => exact ⟨line, rfl⟩
  | cons b text ih =>
    have hb : b ≠ 13 := fun heq => hcr (heq ▸ List.mem_cons_self)
    have htext : 13 ∉ text := fun hmem => hcr (List.mem_cons_of_mem b hmem)
    have hstep : Reader.feed false (.head line length) b = .head (line ++ [b]) length := by
      rw [Reader.feed, lineOf, if_neg hline]
      exact ite_self _
    rw [List.foldl_cons, hstep]
    refine ih htext ?_
    rw [List.getLast?_concat]
    exact fun heq => hb (Option.some.inj heq)

/-- **A cut head.** When only a part of the head arrives and then a text without CR, not longer than
the announced length, a strict client is not done. -/
theorem read_cut {h : Head} {n : Nat} (hlength : h.length? = some n) {part more : List UInt8}
    (hsplit : part ++ more = h.bytes) (hmore : more ≠ []) (hcr : 13 ∉ text) (hle : text.length ≤ n)
    (content rest : List UInt8) : read false (part ++ text) ≠ .done content rest := by
  obtain ⟨line, length, hread⟩ := read_part false hlength hsplit hmore
  have hstuck {line : List UInt8} {length : Option Nat} {text : List UInt8} (hcr : 13 ∉ text)
      (hline : line.getLast? ≠ some 13) :
      text.foldl (Reader.feed false) (.head line length) ≠ .done content rest := by
    obtain ⟨line', heq⟩ := Reader.foldl_strict length hcr hline
    rw [heq]
    exact Reader.noConfusion
  rw [read_append, hread]
  by_cases hline : line.getLast? = some 13
  · -- the next byte of the head is the LF of this line
    obtain ⟨c, more, rfl⟩ := List.exists_cons_of_ne_nil hmore
    have hchain := h.isChain_bytes
    rw [← hsplit] at hchain
    have hlast := getLast_of_read_head hread hline
    have hc : c = 10 := (List.isChain_append.1 hchain).2.2 13 hlast c rfl rfl
    subst hc
    cases text with
    | nil => exact Reader.noConfusion
    | cons b text =>
      have htext : 13 ∉ text := fun hmem => hcr (List.mem_cons_of_mem b hmem)
      have hb13 : b ≠ 13 := fun heq => hcr (heq ▸ List.mem_cons_self)
      rw [List.foldl_cons]
      by_cases hb : b = 10
      · -- the text brings the LF
        subst hb
        have hnext : Reader.feed false (.head line length) 10 = read false (part ++ [10]) := by
          rw [read_append, hread]
          rfl
        have hsplit' : (part ++ [10]) ++ more = h.bytes := by
          rw [← hsplit, List.append_assoc]
          rfl
        rw [hnext]
        rcases more with _ | ⟨c, more⟩
        · rw [List.append_nil] at hsplit'
          obtain ⟨k, rfl⟩ : ∃ k, n = k + 1 := ⟨n - 1, by rw [List.length_cons] at hle; omega⟩
          rw [hsplit', read_head, hlength, bodyOf, Reader.foldl_body (by
            rw [List.length_cons] at hle; omega)]
          exact Reader.noConfusion
        · obtain ⟨line', length', hread'⟩ :=
            read_part false hlength hsplit' (List.cons_ne_nil c more)
          rw [hread']
          refine hstuck htext ?_
          intro hline'
          have hlast' := getLast_of_read_head hread' hline'
          rw [List.getLast?_concat] at hlast'
          cases hlast'
      · rw [Reader.feed, if_neg hb]
        refine hstuck htext ?_
        rw [List.getLast?_concat]
        exact fun heq => hb13 (Option.some.inj heq)
  · exact hstuck hcr hline

end

end Message

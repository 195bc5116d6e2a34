import InfantryRM.Lib.Message
import InfantryRM.Web.Write

/-!
# What a client reads

The response to a `GET` request is a message of announced length: the header of `HTTP_200`, in which
`sprintf` puts the length of the page, and the page. It fits the buffer of the request, which
`sprintf` overwrites (`length_http200_lt`), and every client reads the page back.

`handle_http_request` does not look at the results of `my_write`, so a connection can carry a part
of the header and then a part of the page. A strict client is not misled by that. Whatever was
received and whatever the calls of `send` returned, it ends up with the page or is not done
(`read_wire_iff`). A client that takes a lone LF for the end of a line can be misled, when the
header is cut in its last number.

`HTTP_400` ends with CR LF LF, so a strict client is never done with it (`read_http400`).
-/

namespace InfantryRM

open CString Strtol Message

/-! ## The header -/

/-- A number's text is its digits, and their value is the number. -/
theorem digits_toString (n : Nat) :
    ascii (toString n) ≠ [] ∧ (∀ c ∈ ascii (toString n), isDigit c = true) ∧
      digitsValue (ascii (toString n)) = n := by
  have htext : ascii (toString n) = (Nat.toDigits 10 n).map fun c => c.toNat.toUInt8 := by
    rw [ascii, Nat.toString_eq_repr, Nat.toList_repr]
  have hrange (c : Char) (hc : c ∈ Nat.toDigits 10 n) : 48 ≤ c.toNat ∧ c.toNat ≤ 57 := by
    have hdigit := Nat.isDigit_of_mem_toDigits (by decide) (by decide) hc
    simp only [Char.isDigit, Bool.and_eq_true, decide_eq_true_eq] at hdigit
    exact hdigit
  have hbyte (c : Char) (hc : c ∈ Nat.toDigits 10 n) : c.toNat.toUInt8.toNat = c.toNat := by
    have hle := (hrange c hc).2
    rw [Nat.toUInt8_eq, UInt8.toNat_ofNat']
    omega
  rw [htext]
  refine ⟨?_, ?_, ?_⟩
  · intro hnil
    exact Nat.toDigits_ne_nil (List.map_eq_nil_iff.1 hnil)
  · intro b hb
    obtain ⟨c, hc, rfl⟩ := List.mem_map.1 hb
    simp only [isDigit, Bool.and_eq_true, decide_eq_true_eq, UInt8.le_iff_toNat_le, hbyte c hc]
    exact hrange c hc
  · have hfold (cs : List Char) (hcs : ∀ c ∈ cs, c.toNat.toUInt8.toNat = c.toNat) (k : Nat) :
        (cs.map fun c => c.toNat.toUInt8).foldl (fun a c => 10 * a + (c.toNat - 48)) k =
          Nat.ofDigitChars 10 cs k := by
      induction cs generalizing k with
      | nil => rfl
      | cons c cs ih =>
        obtain ⟨hc, hcs⟩ := List.forall_mem_cons.1 hcs
        rw [List.map_cons, List.foldl_cons, ih hcs, hc, Nat.ofDigitChars_cons]
        rfl
    rw [digitsValue, hfold _ hbyte, Nat.ofDigitChars_ten_toDigits]

/-- The line that announces the length. Source: `HTTP_200` (`webserver.c:50`). -/
def lengthLine (length : Nat) : List UInt8 :=
  ascii "Content-Length: " ++ ascii (toString length) ++ ascii " "

/-- The blank behind the number does not matter. -/
theorem contentLength_lengthLine (length : Nat) :
    contentLength (lengthLine length) = some length := by
  obtain ⟨hne, hdigit, hvalue⟩ := digits_toString length
  have hname : lengthName.length = 15 := rfl
  have hline : lengthLine length =
      ascii "Content-Length:" ++ (32 :: (ascii (toString length) ++ [32])) := rfl
  have hblank (c : UInt8) (hc : c ∈ ascii (toString length)) : isBlank c = false := by
    have hspace := isSpace_of_isDigit (hdigit c hc)
    simp only [isSpace, Bool.or_eq_false_iff, beq_eq_false_iff_ne] at hspace
    have htab : c ≠ 9 := by
      rintro rfl
      exact absurd (hdigit 9 hc) (by decide)
    simp [isBlank, hspace.1, htab]
  have htrim : trim (32 :: (ascii (toString length) ++ [32])) = ascii (toString length) := by
    have hfirst : (32 :: (ascii (toString length) ++ [32])).dropWhile isBlank =
        ascii (toString length) ++ [32] := by
      obtain ⟨d, ds, hds⟩ := List.exists_cons_of_ne_nil hne
      have hd := hblank d (hds ▸ List.mem_cons_self)
      have h32 : isBlank 32 = true := rfl
      rw [List.dropWhile_cons_of_pos h32, hds, List.cons_append,
        List.dropWhile_cons_of_neg (by rw [hd]; exact Bool.false_ne_true)]
    have hlast : isBlank 32 = true := rfl
    rw [trim, hfirst, List.rdropWhile_concat_pos _ _ _ hlast, List.rdropWhile_eq_self_iff]
    intro hnil
    rw [hblank _ (List.getLast_mem hnil)]
    exact Bool.false_ne_true
  have hdrop : (lengthLine length).drop lengthName.length =
      32 :: (ascii (toString length) ++ [32]) := by
    rw [hline, hname]
    exact List.drop_left' rfl
  have htake : (lengthLine length).take lengthName.length = ascii "Content-Length:" := by
    rw [hline, hname]
    exact List.take_left' rfl
  have hlower : (ascii "Content-Length:").map lower = lengthName := by decide
  have hfield : (ascii "Content-Length:").map lower = lengthName ∧ ascii (toString length) ≠ [] ∧
      ∀ c ∈ ascii (toString length), isDigit c = true := ⟨hlower, hne, hdigit⟩
  simp only [contentLength, hdrop, htake, htrim]
  rw [if_pos hfield, hvalue]

/-- The fixed lines of the header. -/
def fixedLines : List (List UInt8) :=
  [ascii "HTTP/1.1 200 OK", ascii "Server: lwIP/1.4.0", ascii "Content-Type: text/html",
    ascii "Connection: Keep-Alive"]

/-- No line end stands in the line of the length. -/
theorem notMem_lengthLine (length : Nat) : 10 ∉ lengthLine length ∧ 13 ∉ lengthLine length := by
  have hdigit := (digits_toString length).2.1
  have hnot (b : UInt8) (hb : isDigit b = false) (hname : b ∉ ascii "Content-Length: ")
      (hblank : b ∉ ascii " ") : b ∉ lengthLine length := by
    simp only [lengthLine, List.mem_append, not_or]
    refine ⟨⟨hname, ?_⟩, hblank⟩
    intro hmem
    rw [hdigit b hmem] at hb
    cases hb
  exact ⟨hnot 10 (by decide) (by decide) (by decide), hnot 13 (by decide) (by decide) (by decide)⟩

/-- The lines of the header. -/
def http200Head (length : Nat) : Head where
  lines := fixedLines ++ [lengthLine length]
  ne_nil := by
    have hfixed : ∀ line ∈ fixedLines, line ≠ [] := by decide
    intro line hline
    rcases List.mem_append.1 hline with hmem | hmem
    · exact hfixed line hmem
    · cases List.mem_singleton.1 hmem
      exact List.append_ne_nil_of_right_ne_nil _ (List.cons_ne_nil 32 [])
  noLF := by
    have hfixed : ∀ line ∈ fixedLines, 10 ∉ line := by decide
    intro line hline
    rcases List.mem_append.1 hline with hmem | hmem
    · exact hfixed line hmem
    · cases List.mem_singleton.1 hmem
      exact (notMem_lengthLine length).1
  noCR := by
    have hfixed : ∀ line ∈ fixedLines, 13 ∉ line := by decide
    intro line hline
    rcases List.mem_append.1 hline with hmem | hmem
    · exact hfixed line hmem
    · cases List.mem_singleton.1 hmem
      exact (notMem_lengthLine length).2

/-- The header is its lines. -/
theorem bytes_http200Head (length : Nat) : (http200Head length).bytes = http200 length := by
  have hfixed : fixedLines.flatMap (· ++ crlf) ++ ascii "Content-Length: " =
      ascii "HTTP/1.1 200 OK\r\nServer: lwIP/1.4.0\r\nContent-Type: text/html\r\n" ++
        ascii "Connection: Keep-Alive\r\nContent-Length: " := by decide +kernel
  have hend : ascii " " ++ crlf ++ crlf = ascii " \r\n\r\n" := by decide
  show (fixedLines ++ [lengthLine length]).flatMap (· ++ crlf) ++ crlf = _
  rw [http200, ← hfixed, ← hend, List.flatMap_append, List.flatMap_singleton, lengthLine]
  simp only [List.append_assoc]

/-- The header announces its length. -/
theorem length?_http200Head (length : Nat) : (http200Head length).length? = some length := by
  have hfixed : fixedLines.findSome? contentLength = none := by decide
  show (fixedLines ++ [lengthLine length]).findSome? contentLength = some length
  rw [List.findSome?_append, hfixed, List.findSome?_singleton, contentLength_lengthLine]
  rfl

/-- **The buffer.** The header of every page that a 32-bit address space holds fits the buffer of
the request, with its NUL. Source: `sprintf` (`webserver.c:203`). -/
theorem length_http200_lt {length : Nat} (h : length < 2 ^ 32) :
    (http200 length).length < buffSize := by
  have hdigits : (ascii (toString length)).length ≤ 10 := by
    rw [ascii, List.length_map, Nat.toString_eq_repr, Nat.toList_repr]
    exact (Nat.length_toDigits_le_iff (by decide) (by decide)).2 (by omega)
  have hfixed :
      (ascii "HTTP/1.1 200 OK\r\nServer: lwIP/1.4.0\r\nContent-Type: text/html\r\n" ++
        ascii "Connection: Keep-Alive\r\nContent-Length: ").length = 102 := by decide +kernel
  have hend : (ascii " \r\n\r\n").length = 5 := rfl
  rw [http200, List.length_append, List.length_append, hfixed, hend, buffSize]
  omega

/-! ## The connection -/

section
variable {header page : List UInt8}

/-- What a connection carries of a header and a page that are written one after the other. -/
theorem accepted_cases (header page : List UInt8) (rs : List SendResult) :
    (∃ k m, k < header.length ∧
      (myWrite header rs).accepted ++ ((myWrite header rs).returned.elim [] fun _ =>
        (myWrite page (myWrite header rs).unused).accepted) = header.take k ++ page.take m) ∨
    ∃ m, (myWrite header rs).accepted ++ ((myWrite header rs).returned.elim [] fun _ =>
        (myWrite page (myWrite header rs).unused).accepted) = header ++ page.take m := by
  have hsecond : ∃ m, ((myWrite header rs).returned.elim [] fun _ =>
      (myWrite page (myWrite header rs).unused).accepted) = page.take m := by
    cases (myWrite header rs).returned with
    | none => exact ⟨0, rfl⟩
    | some v => exact ⟨_, accepted_myWrite ..⟩
  obtain ⟨m, hm⟩ := hsecond
  rw [hm, accepted_myWrite]
  rcases Nat.lt_or_ge (offered rs) header.length with hlt | hge
  · exact .inl ⟨_, m, hlt, rfl⟩
  · exact .inr ⟨m, by rw [List.take_of_length_le hge]⟩

/-- A client that is done with the bytes of a `GET` response has read the page. -/
theorem read_response_iff (lenient : Bool) {bytes content rest : List UInt8}
    (hpart : bytes <+: http200 page.length ++ page) :
    read lenient bytes = .done content rest ↔
      bytes = http200 page.length ++ page ∧ content = page ∧ rest = [] := by
  have hwhole : read lenient (http200 page.length ++ page) = .done page [] := by
    rw [← bytes_http200Head]
    exact read_bytes lenient (length?_http200Head page.length)
  constructor
  · intro hdone
    obtain rfl := eq_of_read_prefix hpart hwhole hdone
    rw [hwhole] at hdone
    cases hdone
    exact ⟨rfl, rfl, rfl⟩
  · rintro ⟨rfl, rfl, rfl⟩
    exact hwhole

/-- A strict client is never done with a part of the other response. -/
theorem read_http400 {bytes content rest : List UInt8} (hpart : bytes <+: http400) :
    read false bytes ≠ .done content rest := by
  intro hdone
  obtain ⟨more, hmore⟩ := hpart
  have hwhole : read false http400 = .head [10] (some 0) := by decide +kernel
  rw [← hmore, read_append, hdone, Reader.foldl_done] at hwhole
  cases hwhole

/-- What a connection carries: a part of the header that is not all of it and then a part of the
page, all of the header and then a part of the page, or a part of the error response. -/
theorem wire_cases (indexHtml : List UInt8) (recv : Option Received) (rs : List SendResult) :
    (∃ k m, k < (http200 indexHtml.length).length ∧
      wire (handleHttpRequest indexHtml recv) rs =
        (http200 indexHtml.length).take k ++ indexHtml.take m) ∨
    (∃ m, wire (handleHttpRequest indexHtml recv) rs =
      http200 indexHtml.length ++ indexHtml.take m) ∨
    wire (handleHttpRequest indexHtml recv) rs <+: http400 := by
  cases recv with
  | none => exact .inr (.inr List.nil_prefix)
  | some r =>
    by_cases htext : ∃ s h, RequestText r.text s h
    · obtain ⟨s, h, ht⟩ := htext
      rcases handleHttpRequest_of_text indexHtml ht with ⟨-, i, hlong⟩ | ⟨-, record, -, hhandle⟩
      · rw [hlong]
        exact .inr (.inr List.nil_prefix)
      · rw [hhandle]
        split
        · have hcases := accepted_cases (http200 indexHtml.length) indexHtml rs
          simp only [← wire_myWrite_last indexHtml] at hcases
          rcases hcases with hcut | hwhole
          · exact .inl hcut
          · exact .inr (.inl hwhole)
        · refine .inr (.inr ?_)
          show wire (.myWrite http400 :: .vTaskDelay 30 :: requstError) rs <+: http400
          rw [wire_myWrite_last, accepted_myWrite]
          exact List.take_prefix _ _
    · rw [handleHttpRequest_of_not_text htext]
      exact .inr (.inr List.nil_prefix)

/-- **The client.** Whatever `recv` and the calls of `send` return, a strict client of a page
without CR is done exactly when the connection carries the whole response, and it has read the
page. -/
theorem read_wire_iff {indexHtml : List UInt8} (hcr : 13 ∉ indexHtml) (recv : Option Received)
    (rs : List SendResult) (content rest : List UInt8) :
    read false (wire (handleHttpRequest indexHtml recv) rs) = .done content rest ↔
      wire (handleHttpRequest indexHtml recv) rs = http200 indexHtml.length ++ indexHtml ∧
        content = indexHtml ∧ rest = [] := by
  have hnever {bytes : List UInt8}
      (hnot : ∀ content rest, read false bytes ≠ .done content rest) :
      read false bytes = .done content rest ↔
        bytes = http200 indexHtml.length ++ indexHtml ∧ content = indexHtml ∧ rest = [] := by
    refine iff_of_false (hnot content rest) ?_
    rintro ⟨rfl, -, -⟩
    exact hnot indexHtml []
      ((read_response_iff false (List.prefix_refl _)).2 ⟨rfl, rfl, rfl⟩)
  rcases wire_cases indexHtml recv rs with ⟨k, m, hk, hbytes⟩ | ⟨m, hbytes⟩ | herror
  · -- the header is cut
    rw [hbytes]
    have hheader : (http200 indexHtml.length).take k ++ (http200 indexHtml.length).drop k =
        (http200Head indexHtml.length).bytes := by
      rw [List.take_append_drop, bytes_http200Head]
    have hmore : (http200 indexHtml.length).drop k ≠ [] := by
      rw [ne_eq, List.drop_eq_nil_iff]
      omega
    refine hnever fun content rest => ?_
    exact read_cut (length?_http200Head _) hheader hmore
      (fun hmem => hcr (List.mem_of_mem_take hmem)) (List.length_take_le' ..) content rest
  · rw [hbytes]
    refine read_response_iff false ?_
    rw [List.prefix_append_right_inj]
    exact List.take_prefix _ _
  · exact hnever fun content rest => read_http400 herror

end

/-- The page arrives although `send` takes the header in two parts. -/
theorem read_wire_iff_root :
    read false (wire (handleHttpRequest pageStart (some rootRequest)) [⟨7, 0⟩, ⟨200, 0⟩, ⟨2, 0⟩]) =
      .done pageStart [] :=
  (read_wire_iff (by decide) (some rootRequest) _ pageStart []).2 ⟨by decide +kernel, rfl, rfl⟩

/-- A lenient client is misled: the header is cut in its last number, and the page goes on. -/
example :
    read true (wire (handleHttpRequest (ascii "\n<p>\n\nabcdef") (some rootRequest))
        [⟨103, 0⟩, ⟨-1, 11⟩, ⟨12, 0⟩]) = .done (ascii "a") (ascii "bcdef") := by
  decide +kernel

end InfantryRM

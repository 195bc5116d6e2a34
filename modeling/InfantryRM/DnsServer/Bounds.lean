import InfantryRM.DnsServer.Replies

/-!
# The accesses of the DNS server to its array

The loop body writes the received bytes, three bytes of the header and the answer, all of which lie
in the array. It reads the received bytes for the log, the reply for `sendto`, and for each keyword
the string behind the header, which ends with the first NUL in memory. So the accesses of an
iteration stay inside `data` exactly when there is a NUL in the received bytes behind the header or
in the array behind them (`inBounds_iff`).

A reply leaves the last twelve bytes of the array as they are, so a NUL that stands there initially
keeps every run inside the array. Without one there are datagrams that move every other NUL to the
front and then overwrite it (`shiftingRun`); whether the array is left depends on what was on the
stack before (`buffer_in_bounds_iff`).
-/

namespace InfantryRM

open CString Dns

/-! ## Accesses -/

/-- The searches that `||` makes: up to the first one that succeeds. Source: `my_dns_server`
(`my_dns_server.c:95`). -/
def searches (text : List UInt8) : List (List UInt8) → List (List UInt8)
  | [] => []
  | keyword :: rest =>
    keyword :: if (strstr text keyword).isSome then [] else searches text rest

/-- The indices that a search may read: those of its string, with the NUL. -/
def searchIndices (memory : List UInt8) : List Nat :=
  List.range' 0xc (strlen (memory.drop 0xc) + 1)

/-- The indices of `data` that an iteration writes or reads: `recvfrom`, the log, the searches, the
header, the answer, and `sendto`. Source: `my_dns_server` (`my_dns_server.c:74`). -/
def accesses (data : Data) (r : Reception) : List Nat :=
  match r.datagram with
  | none => []
  | some d =>
    let len := (received d.payload).length
    let memory := arrived data d.payload ++ r.beyond
    List.range len ++ List.range' 0x4 (len - 0x4) ++
      (searches (memory.drop 0xc) keywords).flatMap (fun _ => searchIndices memory) ++
      if keywords.any fun keyword => (strstr (memory.drop 0xc) keyword).isSome then []
      else [2, 3, 7] ++ List.range' len answerBytes.length ++ List.range (len + answerBytes.length)

/-- An iteration stays inside the array. -/
def InBounds (data : Data) (r : Reception) : Prop := ∀ i ∈ accesses data r, i < 128

/-- There is a NUL in the received bytes behind the header, or in the array behind them. -/
def Terminated (data : Data) (r : Reception) : Prop :=
  ∀ d, r.datagram = some d → (0 : UInt8) ∈ (arrived data d.payload).drop 0xc

/-- Every iteration of a run has the property, when the array has the given content initially. -/
def Throughout (P : Data → Reception → Prop) (data : Data) (rs : List Reception) : Prop :=
  ∀ history r rest data', rs = history ++ r :: rest →
    afterReceptions data history = .ok data' → P data' r

section
variable {data : Data} {r : Reception} {d : Datagram}

/-- The array has its declared size after `recvfrom`. -/
theorem length_arrived (data : Data) (payload : List UInt8) :
    (arrived data payload).length = 128 := by
  have hle := length_received_le payload
  unfold recvLimit at hle
  rw [arrived, List.length_append, List.length_drop, data.toList_length]
  omega

/-- **Accesses.** An iteration stays inside the array exactly when a NUL in the array ends the
searched string. -/
theorem inBounds_iff : InBounds data r ↔ Terminated data r := by
  obtain ⟨datagram, beyond⟩ := r
  cases datagram with
  | none => exact iff_of_true nofun nofun
  | some d =>
    have hlen := length_received_le d.payload
    have hanswer : answerBytes.length = 16 := by simp [answerBytes]
    have harrived := length_arrived data d.payload
    unfold recvLimit at hlen
    set text := (arrived data d.payload).drop 0xc with htext
    have hlength : text.length = 116 := by rw [htext, List.length_drop, harrived]
    have hmemory : (arrived data d.payload ++ beyond).drop 0xc = text ++ beyond :=
      List.drop_append_of_le_length (by omega)
    have hends : Terminated data ⟨some d, beyond⟩ ↔ strlen (text ++ beyond) < 116 := by
      rw [← hlength, strlen_append_lt_iff, htext]
      refine ⟨fun h => h d rfl, fun h d' hd' => ?_⟩
      cases hd'
      exact h
    rw [hends]
    refine ⟨fun hall => ?_, fun hlt i hi => ?_⟩
    · -- the first search is always made
      have hfirst : ascii "taobao" ∈ searches (text ++ beyond) keywords := List.mem_cons_self
      have hlast : 0xc + strlen (text ++ beyond) ∈ accesses data ⟨some d, beyond⟩ := by
        simp only [accesses, searchIndices, hmemory, List.mem_append, List.mem_flatMap,
          List.mem_range'_1]
        exact .inl (.inr ⟨_, hfirst, by omega⟩)
      have := hall _ hlast
      omega
    · simp only [accesses, searchIndices, hmemory, List.mem_append, List.mem_flatMap,
        List.mem_range'_1, List.mem_range] at hi
      rcases hi with ((hi | hi) | ⟨-, -, hi⟩) | hi
      · omega
      · omega
      · omega
      · split at hi
        · cases hi
        · simp only [List.mem_append, List.mem_range'_1, List.mem_range, hanswer, List.mem_cons,
            List.not_mem_nil, or_false] at hi
          omega

/-! ## What stays in the array -/

/-- `recvfrom` leaves the array behind the received bytes alone. -/
theorem drop_arrived {payload : List UInt8} {k : Nat} (h : (received payload).length ≤ k) :
    (arrived data payload).drop k = data.toList.drop k := by
  obtain ⟨n, rfl⟩ := Nat.exists_eq_add_of_le h
  rw [arrived, ← List.drop_drop, List.drop_left, List.drop_drop]

/-- A reply leaves the array behind it alone. -/
theorem drop_answered (data : Data) (payload : List UInt8) :
    (answered data payload).drop (received payload).length =
      answerBytes ++ data.toList.drop ((received payload).length + answerBytes.length) := by
  have hpatch : (patchHeader (received payload)).length = (received payload).length := by
    simp [patchHeader]
  have hheader : headerLength ≤ (received payload).length + answerBytes.length := by
    simp [answerBytes, headerLength]
  rw [answered, replyBytes, List.append_assoc, List.drop_left' hpatch, drop_patchHeader hheader,
    drop_arrived (Nat.le_add_right _ _)]

/-- No iteration changes the last twelve bytes of the array. -/
theorem drop_myDnsServer {data' : Data} {reply : Option Datagram}
    (h : myDnsServer data r = .ok (data', reply)) :
    data'.toList.drop 116 = data.toList.drop 116 := by
  obtain ⟨datagram, beyond⟩ := r
  cases datagram with
  | none =>
    cases h
    rfl
  | some d =>
    obtain ⟨data'', heq, hlist⟩ := myDnsServer_eq data d beyond
    cases heq.symm.trans h
    have hlen := length_received_le d.payload
    have hanswer : answerBytes.length = 16 := by simp [answerBytes]
    unfold recvLimit at hlen
    rw [hlist]
    split
    · exact drop_arrived (by omega)
    · obtain ⟨n, hn⟩ : ∃ n, 116 = (received d.payload).length + (answerBytes.length + n) :=
        ⟨100 - (received d.payload).length, by omega⟩
      rw [hn, ← List.drop_drop, drop_answered, ← List.drop_drop, List.drop_left, List.drop_drop,
        Nat.add_assoc]

/-- No run does. -/
theorem drop_afterReceptions {history : List Reception} {data' : Data}
    (h : afterReceptions data history = .ok data') :
    data'.toList.drop 116 = data.toList.drop 116 := by
  induction history generalizing data with
  | nil =>
    cases h
    rfl
  | cons r history ih =>
    rw [afterReceptions] at h
    cases hstep : myDnsServer data r with
    | error e =>
      rw [hstep] at h
      cases h
    | ok p =>
      rw [hstep] at h
      exact (ih h).trans (drop_myDnsServer hstep)

/-- A NUL in the last twelve bytes ends every searched string. -/
theorem terminated_of_mem (h : (0 : UInt8) ∈ data.toList.drop 116) : Terminated data r := by
  intro d hd
  have hlen := length_received_le d.payload
  unfold recvLimit at hlen
  have harrived : (arrived data d.payload).drop 116 = data.toList.drop 116 :=
    drop_arrived (by omega)
  rw [← harrived] at h
  exact List.drop_subset_drop_left _ (by decide : 0xc ≤ 116) h

/-! ## How the other NULs leave -/

/-- A datagram of `n` bytes, whose only NUL stands right behind the header. -/
def shifting (n : Nat) : Reception :=
  ⟨some ⟨⟨0, 53⟩, List.replicate 12 1 ++ 0 :: List.replicate (n - 13) 1⟩, []⟩

/-- Each of them is answered five bytes before the one in front of it. -/
def shiftingRun : List Reception := [shifting 100, shifting 95, shifting 90, shifting 85]

/-- A datagram that fills the received bytes without a NUL. -/
def filling : Reception := ⟨some ⟨⟨0, 53⟩, List.replicate 100 1⟩, []⟩

/-- It is answered, whatever stands in the array. -/
theorem myDnsServer_shifting {n : Nat} (hlow : 13 ≤ n) (hhigh : n ≤ 100) (data : Data) :
    ∃ data' reply, myDnsServer data (shifting n) = .ok (data', reply) ∧
      data'.toList.drop n = answerBytes ++ data.toList.drop (n + 16) := by
  obtain ⟨data', heq, hlist⟩ := myDnsServer_eq data
    ⟨⟨0, 53⟩, List.replicate 12 1 ++ 0 :: List.replicate (n - 13) 1⟩ []
  have hlength : (List.replicate 12 (1 : UInt8) ++ 0 :: List.replicate (n - 13) 1).length = n := by
    simp
    omega
  have hreceived : received (List.replicate 12 1 ++ 0 :: List.replicate (n - 13) 1) =
      List.replicate 12 1 ++ 0 :: List.replicate (n - 13) 1 := by
    refine received_of_le ?_
    rw [hlength]
    exact hhigh
  have htext :
      searchedText data [] (List.replicate 12 1 ++ 0 :: List.replicate (n - 13) 1) = [] := by
    rw [searchedText_of_mem, hreceived, List.drop_left' (List.length_replicate ..)]
    · rfl
    · rw [hreceived, List.drop_left' (List.length_replicate ..)]
      exact List.mem_cons_self
  have hnot : ¬ Blocked [] := by decide
  rw [htext, if_neg hnot] at hlist
  refine ⟨data', _, heq, ?_⟩
  have hdrop := drop_answered data (List.replicate 12 1 ++ 0 :: List.replicate (n - 13) 1)
  rw [hreceived, hlength] at hdrop
  rw [hlist, hdrop]
  rfl

/-- After the run there is no NUL behind the first hundred bytes, except in the last twelve. -/
theorem afterReceptions_shiftingRun (data : Data) :
    ∃ data', afterReceptions data shiftingRun = .ok data' ∧
      data'.toList.drop 100 = 1 :: (answerBytes.drop 11 ++ answerBytes.drop 11 ++
        answerBytes.drop 11 ++ data.toList.drop 116) := by
  obtain ⟨data₁, r₁, h₁, hd₁⟩ := myDnsServer_shifting (n := 100) (by decide) (by decide) data
  obtain ⟨data₂, r₂, h₂, hd₂⟩ := myDnsServer_shifting (n := 95) (by decide) (by decide) data₁
  obtain ⟨data₃, r₃, h₃, hd₃⟩ := myDnsServer_shifting (n := 90) (by decide) (by decide) data₂
  obtain ⟨data₄, r₄, h₄, hd₄⟩ := myDnsServer_shifting (n := 85) (by decide) (by decide) data₃
  refine ⟨data₄, ?_, ?_⟩
  · simp only [afterReceptions, shiftingRun, h₁, h₂, h₃, h₄, bind, Except.bind]
    rfl
  · have h₂₁ : data₁.toList.drop (95 + 16) = answerBytes.drop 11 ++ data.toList.drop 116 := by
      rw [show 95 + 16 = 100 + 11 from rfl, ← List.drop_drop, hd₁]
      rfl
    have h₃₂ : data₂.toList.drop (90 + 16) =
        answerBytes.drop 11 ++ data₁.toList.drop (95 + 16) := by
      rw [show 90 + 16 = 95 + 11 from rfl, ← List.drop_drop, hd₂]
      rfl
    have h₄₃ : data₃.toList.drop (85 + 16) =
        answerBytes.drop 11 ++ data₂.toList.drop (90 + 16) := by
      rw [show 85 + 16 = 90 + 11 from rfl, ← List.drop_drop, hd₃]
      rfl
    rw [show 100 = 85 + 15 from rfl, ← List.drop_drop, hd₄, h₄₃, h₃₂, h₂₁]
    rfl

/-- After the run, the datagram that fills the received bytes is read to its NUL only when there is
one in the last twelve bytes. -/
theorem mem_of_throughout (h : Throughout Terminated data (shiftingRun ++ [filling])) :
    (0 : UInt8) ∈ data.toList.drop 116 := by
  obtain ⟨data', hrun, hdrop⟩ := afterReceptions_shiftingRun data
  have hmem := h shiftingRun filling [] data' rfl hrun _ rfl
  have hreceived : received (List.replicate 100 1) = List.replicate 100 1 :=
    received_of_le (List.length_replicate ..).le
  rw [arrived, hreceived, List.length_replicate, hdrop,
    List.drop_append_of_le_length (by simp)] at hmem
  simpa [answerBytes] using hmem

/-! ## Bounds -/

theorem throughout_congr {P Q : Data → Reception → Prop} {rs : List Reception}
    (h : ∀ data r, P data r ↔ Q data r) : Throughout P data rs ↔ Throughout Q data rs :=
  ⟨fun hP history r rest data' heq hrun => (h data' r).1 (hP history r rest data' heq hrun),
    fun hQ history r rest data' heq hrun => (h data' r).2 (hQ history r rest data' heq hrun)⟩

/-- **Bounds.** The stores of a run never leave the array. All its accesses stay inside exactly when
each of its receptions leaves a NUL in the received bytes behind the header or in the array behind
them; those of every run do exactly when a NUL stands in the last twelve bytes of the array
initially. -/
theorem buffer_in_bounds_iff (data : Data) :
    (∀ rs, (∃ data', afterReceptions data rs = .ok data') ∧
      (Throughout InBounds data rs ↔ Throughout Terminated data rs)) ∧
    ((∀ rs, Throughout InBounds data rs) ↔ (0 : UInt8) ∈ data.toList.drop 116) := by
  have hiff (rs : List Reception) :
      Throughout InBounds data rs ↔ Throughout Terminated data rs :=
    throughout_congr fun _ _ => inBounds_iff
  refine ⟨fun rs => ⟨afterReceptions_ok data rs, hiff rs⟩, fun hall => ?_, fun hmem rs => ?_⟩
  · exact mem_of_throughout ((hiff _).1 (hall _))
  · rw [hiff]
    intro history r rest data' _ hrun
    rw [← drop_afterReceptions hrun] at hmem
    exact terminated_of_mem hmem

/-- An array without a NUL, and a first datagram that brings none. -/
theorem buffer_overread : ¬ ∀ (data : Data) rs, Throughout InBounds data rs := by
  intro hall
  have hbounds := hall (List.Vector.replicate 128 1) [filling] [] filling [] _ rfl rfl
  have hmem := inBounds_iff.1 hbounds _ rfl
  revert hmem
  decide +kernel

end

end InfantryRM

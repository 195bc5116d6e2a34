import InfantryRM.DnsServer.Model
import InfantryRM.Lib.Run

/-!
# The DNS server's task

The task creates its socket, which can fail at two calls, and then receives datagrams for ever. It
does not look at whether it has a socket: without one every `recvfrom` fails at once, and the task
goes round its loop without ever blocking.

What the task does over a whole run (`dns_task_run`): at most one descriptor is open. What it sends
are the answers to what it received, in this order, each to the sender of its datagram and not more
than 16 bytes longer. It waits 10 ticks after each answer, so the bytes that it sends are bounded by
the time that has passed. When one of the two calls has failed, no descriptor is open, nothing has
been sent, and no time passes in the task.
-/

namespace InfantryRM

open Run CString

/-! ## The task -/

/-- Where the task is. A socket that could not be created is `none`. -/
inductive DnsPhase
  | socket
  | bind (sock : Nat)
  | recvfrom (sock : Option Nat)
  | sendto (sock : Option Nat) (reply : Datagram)
  | vTaskDelay (sock : Option Nat) (left : Nat)
  deriving DecidableEq

/-- The task with its array and its socket, the time, and what it has sent. -/
structure DnsTask where
  phase : DnsPhase
  data : Data
  openFds : List Nat
  now : Nat
  sent : List Datagram

/-- The task starts with whatever its stack holds. Source: `dns_server_start`
(`my_dns_server.c:147`). -/
def DnsTask.init (data : Data) : DnsTask := ⟨.socket, data, [], 0, []⟩

/-- What the calls of the task return, and the clock. -/
inductive DnsLabel
  | socket (fd : Option Nat)
  | bind (ok : Bool)
  | recvfrom (r : Reception)
  | sendto
  | tick

/-- Source: `create_udp_socket` (`my_dns_server.c:29`), the call of `socket`. -/
def DnsTask.socket (s : DnsTask) (fd : Option Nat) : Option DnsTask :=
  match s.phase, fd with
  | .socket, none => some { s with phase := .recvfrom none }
  | .socket, some sock => some { s with phase := .bind sock, openFds := sock :: s.openFds }
  | _, _ => none

/-- Source: `create_udp_socket` (`my_dns_server.c:39`), the call of `bind`; a failure closes the
socket. -/
def DnsTask.bind (s : DnsTask) (ok : Bool) : Option DnsTask :=
  match s.phase with
  | .bind sock =>
    if ok then some { s with phase := .recvfrom (some sock) }
    else some { s with phase := .recvfrom none, openFds := s.openFds.erase sock }
  | _ => none

/-- The loop up to the answer. Without a socket `recvfrom` fails. A store outside the array has no
continuation. Source: `my_dns_server` (`my_dns_server.c:74`). -/
def DnsTask.recvfrom (s : DnsTask) (r : Reception) : Option DnsTask :=
  match s.phase with
  | .recvfrom sock =>
    if sock = none ∧ r.datagram ≠ none then none
    else
      match myDnsServer s.data r with
      | .error _ => none
      | .ok (data, none) => some { s with phase := .recvfrom sock, data := data }
      | .ok (data, some reply) => some { s with phase := .sendto sock reply, data := data }
  | _ => none

/-- Source: `my_dns_server` (`my_dns_server.c:136`). -/
def DnsTask.sendto (s : DnsTask) : Option DnsTask :=
  match s.phase with
  | .sendto sock reply =>
    some { s with phase := .vTaskDelay sock 10, sent := s.sent ++ [reply] }
  | _ => none

/-- Time passes while the task is delayed or waits at its socket for a datagram. -/
def DnsTask.tick (s : DnsTask) : Option DnsTask :=
  match s.phase with
  | .recvfrom (some _) => some { s with now := s.now + 1 }
  | .vTaskDelay sock left =>
    some { s with
      phase := if left ≤ 1 then .recvfrom sock else .vTaskDelay sock (left - 1)
      now := s.now + 1 }
  | _ => none

/-- A step of the task. -/
def DnsTask.step (s : DnsTask) : DnsLabel → Option DnsTask
  | .socket fd => s.socket fd
  | .bind ok => s.bind ok
  | .recvfrom r => s.recvfrom r
  | .sendto => s.sendto
  | .tick => s.tick

/-! ## What a step does -/

/-- What the task received in a run, in order. -/
def receptions (ls : List DnsLabel) : List Reception :=
  ls.filterMap fun
    | .recvfrom r => some r
    | _ => none

/-- The answers to receptions in sequence. -/
def answers (data : Data) : List Reception → List Datagram
  | [] => []
  | r :: rs =>
    match myDnsServer data r with
    | .error _ => []
    | .ok (data, reply) => reply.toList ++ answers data rs

/-- The answer that is about to be sent. -/
def DnsPhase.pending : DnsPhase → Option Datagram
  | .sendto _ reply => some reply
  | _ => none

/-- The socket, once it has been created or not. -/
def DnsPhase.sock : DnsPhase → Option Nat
  | .socket => none
  | .bind sock => some sock
  | .recvfrom sock | .sendto sock _ | .vTaskDelay sock _ => sock

/-- The task has no socket to receive from. -/
def DnsPhase.Deaf : DnsPhase → Prop
  | .socket | .bind _ => True
  | .recvfrom sock | .sendto sock _ | .vTaskDelay sock _ => sock = none

/-- The ticks that are left of a delay. -/
def DnsPhase.left : DnsPhase → Nat
  | .vTaskDelay _ left => left
  | _ => 0

section
variable {s t : DnsTask} {data : Data} {r : Reception} {rs : List Reception} {ls : List DnsLabel}

theorem DnsTask.socket_cases {fd : Option Nat} (h : s.socket fd = some t) :
    s.phase = .socket ∧ ((fd = none ∧ t = { s with phase := .recvfrom none }) ∨
      ∃ sock, fd = some sock ∧
        t = { s with phase := .bind sock, openFds := sock :: s.openFds }) := by
  unfold DnsTask.socket at h
  split at h
  · next hphase => cases h; exact ⟨hphase, .inl ⟨rfl, rfl⟩⟩
  · next sock hphase => cases h; exact ⟨hphase, .inr ⟨sock, rfl, rfl⟩⟩
  · cases h

theorem DnsTask.bind_cases {ok : Bool} (h : s.bind ok = some t) :
    ∃ sock, s.phase = .bind sock ∧
      (ok = true ∧ t = { s with phase := .recvfrom (some sock) } ∨
        ok = false ∧
          t = { s with phase := .recvfrom none, openFds := s.openFds.erase sock }) := by
  unfold DnsTask.bind at h
  split at h
  · next sock hphase =>
    split at h
    · next hok => cases h; exact ⟨sock, hphase, .inl ⟨hok, rfl⟩⟩
    · next hok => cases h; exact ⟨sock, hphase, .inr ⟨Bool.not_eq_true _ ▸ hok, rfl⟩⟩
  · cases h

theorem DnsTask.recvfrom_cases (h : s.recvfrom r = some t) :
    ∃ sock, s.phase = .recvfrom sock ∧ (sock = none → r.datagram = none) ∧
      ((∃ data, myDnsServer s.data r = .ok (data, none) ∧ t = { s with data := data }) ∨
        ∃ data reply, myDnsServer s.data r = .ok (data, some reply) ∧
          t = { s with phase := .sendto sock reply, data := data }) := by
  unfold DnsTask.recvfrom at h
  split at h
  · next sock hphase =>
    split at h
    · cases h
    · next hsock =>
      have hnone : sock = none → r.datagram = none := fun h => not_not.1 fun hd => hsock ⟨h, hd⟩
      refine ⟨sock, hphase, hnone, ?_⟩
      split at h
      · cases h
      · next data hbody =>
        cases h
        rw [← hphase]
        exact .inl ⟨data, hbody, rfl⟩
      · next data reply hbody => cases h; exact .inr ⟨data, reply, hbody, rfl⟩
  · cases h

theorem DnsTask.sendto_cases (h : s.sendto = some t) :
    ∃ sock reply, s.phase = .sendto sock reply ∧
      t = { s with phase := .vTaskDelay sock 10, sent := s.sent ++ [reply] } := by
  unfold DnsTask.sendto at h
  split at h
  · next sock reply hphase => cases h; exact ⟨sock, reply, hphase, rfl⟩
  · cases h

theorem DnsTask.tick_cases (h : s.tick = some t) :
    ((∃ sock, s.phase = .recvfrom (some sock)) ∧ t = { s with now := s.now + 1 }) ∨
      ∃ sock left, s.phase = .vTaskDelay sock left ∧ t = { s with
        phase := if left ≤ 1 then .recvfrom sock else .vTaskDelay sock (left - 1)
        now := s.now + 1 } := by
  unfold DnsTask.tick at h
  split at h
  · next sock hphase => cases h; exact .inl ⟨⟨sock, hphase⟩, rfl⟩
  · next sock left hphase => cases h; exact .inr ⟨sock, left, hphase, rfl⟩
  · cases h

/-! ## Answers -/

/-- An answer goes to the sender and is 16 bytes longer than what was received. -/
def Datagram.AnsweredBy (d reply : Datagram) : Prop :=
  reply.client = d.client ∧ reply.payload.length = (received d.payload).length + 16

/-- **The loop body.** It always ends, without an answer or with one to the datagram. -/
theorem myDnsServer_cases (data : Data) (r : Reception) :
    (∃ data', myDnsServer data r = .ok (data', none)) ∨
      ∃ data' d reply, r.datagram = some d ∧ myDnsServer data r = .ok (data', some reply) ∧
        d.AnsweredBy reply := by
  obtain ⟨datagram, beyond⟩ := r
  cases datagram with
  | none => exact .inl ⟨data, rfl⟩
  | some d =>
    obtain ⟨data', hbody, -⟩ := myDnsServer_eq data d beyond
    split at hbody
    · exact .inl ⟨data', hbody⟩
    · refine .inr ⟨data', d, _, rfl, hbody, rfl, ?_⟩
      simp [replyBytes, patchHeader, answerBytes]

/-- What holds after the receptions `rs`: the socket is the open descriptor, what is to be sent are
the answers, 10 ticks went by after each but the last one, and without a socket nothing happened. -/
structure DnsTask.Ok (data : Data) (rs : List Reception) (s : DnsTask) : Prop where
  fds : s.openFds = s.phase.sock.toList
  sends : ∀ rest, answers data (rs ++ rest) =
    s.sent ++ s.phase.pending.toList ++ answers s.data rest
  rate : 10 * s.sent.length ≤ s.now + s.phase.left
  left : s.phase.left ≤ 10
  silent : s.phase.Deaf → s.sent = [] ∧ s.now = 0 ∧
    (s.phase = .socket ∨ (∃ sock, s.phase = .bind sock) ∨ s.phase = .recvfrom none)

/-- A task that sends or waits has a socket. -/
theorem DnsTask.Ok.heard (hs : s.Ok data rs) {sock : Option Nat}
    (hphase : (∃ reply, s.phase = .sendto sock reply) ∨ ∃ left, s.phase = .vTaskDelay sock left) :
    sock ≠ none := by
  rintro rfl
  rcases hphase with ⟨reply, hphase⟩ | ⟨left, hphase⟩
  · have hdeaf : s.phase.Deaf := by rw [hphase]; rfl
    obtain ⟨-, -, h | ⟨_, h⟩ | h⟩ := hs.silent hdeaf <;> cases hphase.symm.trans h
  · have hdeaf : s.phase.Deaf := by rw [hphase]; rfl
    obtain ⟨-, -, h | ⟨_, h⟩ | h⟩ := hs.silent hdeaf <;> cases hphase.symm.trans h

/-- The task gets its descriptor, or none. -/
theorem DnsTask.Ok.socket (hs : s.Ok data rs) {fd : Option Nat} (hst : s.socket fd = some t) :
    t.Ok data rs := by
  obtain ⟨hphase, hcases⟩ := DnsTask.socket_cases hst
  obtain ⟨phase, data', openFds, now, sent⟩ := s
  cases hphase
  obtain ⟨hsent, hnow, -⟩ := hs.silent trivial
  rcases hcases with ⟨-, rfl⟩ | ⟨sock, -, rfl⟩
  · exact ⟨hs.fds, hs.sends, hs.rate, hs.left, fun _ => ⟨hsent, hnow, .inr (.inr rfl)⟩⟩
  · have hfds : openFds = [] := hs.fds
    refine ⟨?_, hs.sends, hs.rate, hs.left, fun _ => ⟨hsent, hnow, .inr (.inl ⟨sock, rfl⟩)⟩⟩
    rw [hfds]
    rfl

/-- A socket that cannot be bound is closed. -/
theorem DnsTask.Ok.bind (hs : s.Ok data rs) {ok : Bool} (hst : s.bind ok = some t) :
    t.Ok data rs := by
  obtain ⟨sock, hphase, hcases⟩ := DnsTask.bind_cases hst
  obtain ⟨phase, data', openFds, now, sent⟩ := s
  cases hphase
  obtain ⟨hsent, hnow, -⟩ := hs.silent trivial
  rcases hcases with ⟨-, rfl⟩ | ⟨-, rfl⟩
  · exact ⟨hs.fds, hs.sends, hs.rate, hs.left, fun hdeaf => nomatch hdeaf⟩
  · have hfds : openFds = [sock] := hs.fds
    refine ⟨?_, hs.sends, hs.rate, hs.left, fun _ => ⟨hsent, hnow, .inr (.inr rfl)⟩⟩
    rw [hfds, List.erase_cons_head]
    rfl

/-- A datagram is received and its answer made ready. -/
theorem DnsTask.Ok.recvfrom (hs : s.Ok data rs) (hst : s.recvfrom r = some t) :
    t.Ok data (rs ++ [r]) := by
  obtain ⟨sock, hphase, hsock, hcases⟩ := DnsTask.recvfrom_cases hst
  obtain ⟨phase, data', openFds, now, sent⟩ := s
  cases hphase
  have hnext (rest : List Reception) :
      answers data (rs ++ [r] ++ rest) = sent ++ answers data' (r :: rest) := by
    rw [List.append_assoc, hs.sends]
    exact congrArg (· ++ _) (List.append_nil sent)
  rcases hcases with ⟨next, hbody, rfl⟩ | ⟨next, reply, hbody, rfl⟩
  · refine ⟨hs.fds, fun rest => ?_, hs.rate, hs.left, hs.silent⟩
    simp only [hnext, answers, hbody, DnsPhase.pending, Option.toList_none, List.append_nil,
      List.nil_append]
  · have hanswered : sock ≠ none := by
      intro hnone
      rcases myDnsServer_cases data' r with ⟨_, hnot⟩ | ⟨_, d, _, hd, -⟩
      · cases hbody.symm.trans hnot
      · cases (hsock hnone).symm.trans hd
    refine ⟨hs.fds, fun rest => ?_, hs.rate, hs.left, fun hdeaf => absurd hdeaf hanswered⟩
    rw [hnext]
    simp only [answers, hbody, DnsPhase.pending, Option.toList_some, List.append_assoc]

/-- The answer is sent, and the delay begins. -/
theorem DnsTask.Ok.sendto (hs : s.Ok data rs) (hst : s.sendto = some t) : t.Ok data rs := by
  obtain ⟨sock, reply, hphase, rfl⟩ := DnsTask.sendto_cases hst
  obtain ⟨phase, data', openFds, now, sent⟩ := s
  cases hphase
  have hrate : 10 * sent.length ≤ now := hs.rate
  have hheard : sock ≠ none := hs.heard (.inl ⟨reply, rfl⟩)
  refine ⟨hs.fds, fun rest => ?_, ?_, le_rfl, fun hdeaf => absurd hdeaf hheard⟩
  · rw [hs.sends]
    simp only [DnsPhase.pending, Option.toList_some, Option.toList_none, List.append_nil]
  · show 10 * (sent ++ [reply]).length ≤ now + 10
    rw [List.length_append, List.length_singleton]
    omega

/-- Time passes. -/
theorem DnsTask.Ok.tick (hs : s.Ok data rs) (hst : s.tick = some t) : t.Ok data rs := by
  obtain ⟨⟨sock, hphase⟩, rfl⟩ | ⟨sock, left, hphase, rfl⟩ := DnsTask.tick_cases hst
  · obtain ⟨phase, data', openFds, now, sent⟩ := s
    cases hphase
    have hrate : 10 * sent.length ≤ now + 0 := hs.rate
    exact ⟨hs.fds, hs.sends, hrate.trans (Nat.le_succ now), hs.left, fun hdeaf => nomatch hdeaf⟩
  · obtain ⟨phase, data', openFds, now, sent⟩ := s
    cases hphase
    have hrate : 10 * sent.length ≤ now + left := hs.rate
    have hleft : left ≤ 10 := hs.left
    have hheard : sock ≠ none := hs.heard (.inr ⟨left, rfl⟩)
    split
    · refine ⟨hs.fds, hs.sends, ?_, Nat.zero_le _, fun hdeaf => absurd hdeaf hheard⟩
      show 10 * sent.length ≤ now + 1 + 0
      omega
    · refine ⟨hs.fds, hs.sends, ?_, (Nat.sub_le _ _).trans hleft,
        fun hdeaf => absurd hdeaf hheard⟩
      show 10 * sent.length ≤ now + 1 + (left - 1)
      omega

/-- **One step.** Only a reception adds to what has been received. -/
theorem DnsTask.Ok.step {l : DnsLabel} (hs : s.Ok data rs) (hst : s.step l = some t) :
    t.Ok data (rs ++ receptions [l]) := by
  have hsame (ht : t.Ok data rs) : t.Ok data (rs ++ []) := by
    rw [List.append_nil]
    exact ht
  cases l with
  | socket fd => exact hsame (hs.socket hst)
  | bind ok => exact hsame (hs.bind hst)
  | recvfrom r => exact hs.recvfrom hst
  | sendto => exact hsame (hs.sendto hst)
  | tick => exact hsame (hs.tick hst)

end

end InfantryRM

import InfantryRM.Lib.Watchdog
import InfantryRM.Server.Delivery

/-!
# The watchdog of the command task

`web_recdata` subscribes to the task watchdog and resets it at the head of its loop, in front of the
receive that waits for a record without a timeout. `Timed` is the server with a clock. A tick passes
only while the command task is blocked: in a delay, or at the empty queue. All other calls take no
time, and the other tasks move at any time, so a record arrives after any wait. The clock restricts
no run of the server (`Server.Reachable.exists_timed`).

A record takes 16 ticks when it is for a gimbal button and 6 otherwise (`delays_webRecdata`), so the
task is one that waits and works under a watchdog (`Timed.watches`). The timeout is not exceeded as
long as every wait, with the delays of the record that ends it, is within the timeout
(`watchdog_fed`); nothing in the code makes it so.
-/

namespace InfantryRM

open Run Mailbox Watchdog

/-! ## The clock -/

/-- The timeout in ticks. Source: `CONFIG_ESP_TASK_WDT_TIMEOUT_S` (`sdkconfig.h:137`),
`CONFIG_FREERTOS_HZ` (`sdkconfig.h:201`). -/
def wdtTimeout : Nat := 5 * 100

/-- The server with the tick counter, the time of the last `esp_task_wdt_reset`, the ticks that the
command task has waited in `xQueueReceive`, and those of its delay that are left. -/
structure Timed where
  server : Server
  now : Nat
  lastReset : Nat
  waited : Nat
  delay : Nat

/-- The state at power-on. -/
def Timed.init : Timed := ⟨.init, 0, 0, 0, 0⟩

inductive TimedLabel
  | tick
  | task (l : Label)

/-- The steps of the command task. -/
def Label.ofWebRecdata : Label → Bool
  | .xQueueReceive _ | .decode _ _ | .drive _ => true
  | .accept _ | .createConsumer _ | .malloc | .createHandler _ | .start _ | .recv _ _ | .act _ =>
    false

/-- The ticks that a call takes. -/
def Effect.ticks : Effect → Nat
  | .vTaskDelay ticks => ticks
  | .gpioSetLevel _ _ | .mcpwmSetDutyInUs _ _ => 0

/-- A tick passes when the command task is blocked or does not exist. -/
def Timed.tick (s : Timed) : Option Timed :=
  if 0 < s.delay then some { s with now := s.now + 1, delay := s.delay - 1 }
  else
    match s.server.consumers with
    | [] => some { s with now := s.now + 1 }
    | .idle :: _ =>
      if s.server.box.queue = [] then some { s with now := s.now + 1, waited := s.waited + 1 }
      else none
    | _ => none

/-- The clock after a step of the server. The command task subscribes and enters its loop when it is
created, is blocked by a delay, and resets the watchdog when it is back at the head of its loop.
Source: `web_recdata` (`webserver.c:225`, `webserver.c:240`, `webserver.c:483`). -/
def Timed.after (s : Timed) (l : Label) (server : Server) : Timed :=
  match l with
  | .createConsumer ok =>
    if s.server.urlRecHandle = false ∧ ok = true then
      { s with server := server, lastReset := s.now, waited := 0 }
    else { s with server := server }
  | .drive k =>
    match s.server.consumers[k]? with
    | some (.driving _ _ (e :: _)) => { s with server := server, delay := e.ticks }
    | some (.driving _ _ []) => { s with server := server, lastReset := s.now, waited := 0 }
    | _ => { s with server := server }
  | _ => { s with server := server }

/-- A tick passes, or a task moves; a delayed task does not. -/
def Timed.step (indexHtml : List UInt8) (s : Timed) : TimedLabel → Option Timed
  | .tick => s.tick
  | .task l =>
    if l.ofWebRecdata = true ∧ 0 < s.delay then none
    else (s.server.step indexHtml l).map (s.after l)

/-- The states of the runs with a clock. -/
def Timed.Reachable (indexHtml : List UInt8) (s : Timed) : Prop :=
  Run.Reachable (Timed.step indexHtml) .init s

/-- The ticks since the last reset. -/
def Timed.elapsed (s : Timed) : Nat := s.now - s.lastReset

/-- The ticks that a record takes. -/
def Job.ticks (j : Job) : Nat := if j.press.isSome then 16 else 6

/-- The ticks between the last reset and the next one, as far as the step settles them: the wait
with one more tick, or with the delays of the record that ends it. -/
def Timed.demand (s : Timed) : TimedLabel → Nat
  | .tick =>
    match s.server.consumers with
    | .idle :: _ | .decoding _ _ :: _ => s.waited + 1
    | _ => 0
  | .task (.decode _ tail) =>
    match s.server.consumers with
    | .decoding _ record :: _ => s.waited + (Job.mk record tail).ticks
    | _ => 0
  | .task _ => 0

/-- In every state of a run the time since the last reset is within the timeout, once the command
task has subscribed. -/
def Fed (indexHtml : List UInt8) (ls : List TimedLabel) : Prop :=
  ∀ history t, history <+: ls → exec (Timed.step indexHtml) .init history = some t →
    t.server.consumers ≠ [] → t.elapsed ≤ wdtTimeout

/-- Every wait for a record is within the timeout, together with the delays of the record. -/
def Timely (indexHtml : List UInt8) (ls : List TimedLabel) : Prop :=
  ∀ p ∈ steps (Timed.step indexHtml) .init ls, p.1.demand p.2 ≤ wdtTimeout

instance (indexHtml : List UInt8) (ls : List TimedLabel) : Decidable (Timely indexHtml ls) :=
  inferInstanceAs (Decidable (∀ _ ∈ _, _))

/-! ## One task under a watchdog -/

/-- The phase of the command task. -/
def Timed.phase (s : Timed) : Phase :=
  match s.server.consumers with
  | [] => .unsubscribed
  | .driving _ job todo :: _ =>
    .working s.waited job.ticks (s.delay + (todo.map Effect.ticks).sum)
  | .idle :: _ | .decoding _ _ :: _ => .waiting s.waited

/-- The command task and its clock. -/
def Timed.task (s : Timed) : Task := ⟨s.now, s.lastReset, s.phase⟩

/-- What a step is to the command task. -/
def Timed.watchdogLabel (s : Timed) : TimedLabel → Option Watchdog.Label
  | .tick => some .tick
  | .task (.createConsumer ok) =>
    if s.server.urlRecHandle = false ∧ ok = true then some .subscribe else none
  | .task (.decode _ tail) =>
    match s.server.consumers with
    | .decoding _ record :: _ => some (.take (Job.mk record tail).ticks)
    | _ => none
  | .task (.drive _) =>
    match s.server.consumers with
    | .driving _ _ [] :: _ => some .reset
    | _ => none
  | .task _ => none

section
variable {s t : Timed} {indexHtml : List UInt8} {l : TimedLabel} {j : Job} {g : Angles}

/-- The movements of the chassis take no time. -/
theorem ticks_drive {p : ChassisPattern} {e : Effect} (he : e ∈ p.drive) : e.ticks = 0 := by
  cases p <;> fin_cases he <;> rfl

/-- **The delays of a record.** Every record is followed by a delay, and a gimbal button has one of
its own. -/
theorem delays_webRecdata (j : Job) (g : Angles) :
    ((webRecdata j g).2.map Effect.ticks).sum = j.ticks := by
  have hnone {es : List Effect} (h : ∀ e ∈ es, e.ticks = 0) :
      ((es ++ [Effect.vTaskDelay 6]).map Effect.ticks).sum = 6 := by
    rw [List.map_append, List.sum_append, List.sum_eq_zero (by simpa using h)]
    rfl
  unfold Job.ticks Job.press
  simp only [webRecdata, Cmd.andThen, Cmd.emit]
  cases hd : dispatch j.record.urlBuff01 with
  | none => exact hnone fun e => ticks_drive (p := .stop)
  | some c =>
    cases c with
    | gimbal =>
      simp only [gimbalBranch_eq, if_true]
      cases hp : gimbalPress j.myvalue with
      | none => rfl
      | some p =>
        simp only [Option.elim_some, moveAxis_eq]
        rfl
    | blaste | fireSt | pluck1 | luck2P | robott => rfl
    | rocker =>
      refine hnone fun e he => ?_
      obtain ⟨p, hp⟩ := mem_rockerBranch he
      exact ticks_drive hp

/-! ## What a step can do -/

/-- A step of the server, with the clock. -/
theorem Timed.step_task {l : Label} (h : s.step indexHtml (.task l) = some t) :
    (l.ofWebRecdata = true → s.delay = 0) ∧
      ∃ server, s.server.step indexHtml l = some server ∧ t = s.after l server := by
  rw [Timed.step] at h
  split at h
  · cases h
  · next hnot =>
    obtain ⟨server, hst, rfl⟩ := Option.map_eq_some_iff.1 h
    refine ⟨fun hof => ?_, server, hst, rfl⟩
    by_contra hne
    exact hnot ⟨hof, Nat.pos_of_ne_zero hne⟩

/-- A tick passes in a delay, before there is a command task, and at the empty queue. -/
theorem Timed.tick_cases (h : s.tick = some t) :
    (0 < s.delay ∧ t = { s with now := s.now + 1, delay := s.delay - 1 }) ∨
    (s.delay = 0 ∧ s.server.consumers = [] ∧ t = { s with now := s.now + 1 }) ∨
    s.delay = 0 ∧ (∃ rest, s.server.consumers = .idle :: rest) ∧
      t = { s with now := s.now + 1, waited := s.waited + 1 } := by
  unfold Timed.tick at h
  split at h
  · next hdelay =>
    cases h
    exact .inl ⟨hdelay, rfl⟩
  · next hdelay =>
    have hzero := Nat.eq_zero_of_not_pos hdelay
    split at h
    · next hnil =>
      cases h
      exact .inr (.inl ⟨hzero, hnil, rfl⟩)
    · next rest hidle =>
      split at h
      · cases h
        exact .inr (.inr ⟨hzero, ⟨rest, hidle⟩, rfl⟩)
      · cases h
    · cases h

/-- A tick leaves the server alone. -/
theorem Timed.tick_server (h : s.tick = some t) : t.server = s.server := by
  rcases Timed.tick_cases h with ⟨-, rfl⟩ | ⟨-, -, rfl⟩ | ⟨-, -, rfl⟩
  · rfl
  · rfl
  · rfl

@[simp] theorem Timed.after_server (s : Timed) (l : Label) (server : Server) :
    (s.after l server).server = server := by
  unfold Timed.after
  split
  · split <;> rfl
  · split <;> rfl
  · rfl

/-- The command task is blocked by the delay that it calls. -/
theorem Timed.after_call {k c : Nat} {e : Effect} {todo : List Effect} {server : Server}
    (hk : s.server.consumers[k]? = some (.driving c j (e :: todo))) :
    s.after (.drive k) server = { s with server := server, delay := e.ticks } := by
  simp only [Timed.after, hk]

/-- It resets the watchdog when it is done with a record. -/
theorem Timed.after_done {k c : Nat} {server : Server}
    (hk : s.server.consumers[k]? = some (.driving c j [])) :
    s.after (.drive k) server = { s with server := server, lastReset := s.now, waited := 0 } := by
  simp only [Timed.after, hk]

/-- The runs with a clock are runs of the server. -/
theorem Timed.Reachable.server (h : s.Reachable indexHtml) :
    s.server.Reachable indexHtml := by
  refine h.simulate Timed.server fun s l t _ hst => ?_
  cases l with
  | tick => exact .inl (Timed.tick_server hst)
  | task l =>
    obtain ⟨-, server, hserver, rfl⟩ := Timed.step_task hst
    rw [Timed.after_server]
    exact .inr ⟨l, hserver⟩

/-- Only a command task that performs the calls of a record is delayed. -/
theorem Timed.Reachable.delay_eq (h : s.Reachable indexHtml) :
    s.delay = 0 ∨ ∃ c job todo, s.server.consumers = [.driving c job todo] := by
  refine h.rec_on (P := fun s => s.delay = 0 ∨
    ∃ c job todo, s.server.consumers = [.driving c job todo]) (.inl rfl) fun s l t hs ih hst => ?_
  cases l with
  | tick =>
    rw [Timed.tick_server hst]
    rcases Timed.tick_cases hst with ⟨hpos, -⟩ | ⟨hzero, -, rfl⟩ | ⟨hzero, -, rfl⟩
    · exact .inr (ih.resolve_left hpos.ne')
    · exact .inl hzero
    · exact .inl hzero
  | task l =>
    obtain ⟨hdelay, server, hserver, rfl⟩ := Timed.step_task hst
    have hc := (Timed.Reachable.server hs).consumersOk
    rw [Timed.after_server]
    cases l with
    | accept | malloc | createHandler | start | recv | act =>
      rw [(Server.step_consumers id hserver).1]
      exact ih
    | createConsumer ok =>
      obtain ⟨newFd, -, ⟨hnot, rfl⟩ | ⟨hok, rfl⟩⟩ := Server.createConsumer_cases hserver
      · rw [Timed.after, if_neg hnot]
        exact ih
      · rw [Timed.after, if_pos hok]
        rw [hc.handle hok.1] at ih
        exact .inl (ih.resolve_right nofun)
    | xQueueReceive k => exact .inl (hdelay rfl)
    | decode k tail => exact .inl (hdelay rfl)
    | drive k =>
      obtain ⟨c, job, ⟨e, todo, hk, rfl⟩ | ⟨hk, rfl⟩⟩ := Server.drive_cases hserver
      · obtain ⟨rfl, hone⟩ := hc.eq hk
        refine .inr ⟨c, job, todo, ?_⟩
        rw [hone]
        rfl
      · rw [Timed.after_done hk]
        exact .inl (hdelay rfl)

/-- **The command task is under a watchdog.** Every step of the server with its clock is one of a
task that waits, works and resets its watchdog, or none of its. -/
theorem Timed.watches (indexHtml : List UInt8) :
    Watches (Timed.step indexHtml) .init Timed.task Timed.watchdogLabel := by
  refine ⟨rfl, fun s l t hs hst => ?_⟩
  cases l with
  | tick =>
    show s.task.step .tick = some t.task
    rcases Timed.tick_cases hst with ⟨hpos, rfl⟩ | ⟨hzero, hnil, rfl⟩ | ⟨hzero, ⟨rest, hidle⟩, rfl⟩
    · obtain ⟨c, job, todo, hone⟩ := (Timed.Reachable.delay_eq hs).resolve_left hpos.ne'
      obtain ⟨n, hn⟩ := Nat.exists_eq_add_of_lt hpos
      have hsum : s.delay + (todo.map Effect.ticks).sum =
          s.delay - 1 + (todo.map Effect.ticks).sum + 1 := by omega
      simp only [Task.step, Timed.task, Timed.phase, hone, hsum]
    · simp only [Task.step, Timed.task, Timed.phase, hnil]
    · simp only [Task.step, Timed.task, Timed.phase, hidle]
  | task l =>
    obtain ⟨hdelay, server, hserver, rfl⟩ := Timed.step_task hst
    have hc := (Timed.Reachable.server hs).consumersOk
    cases l with
    | accept | malloc | createHandler | start | recv | act =>
      show Task.mk _ _ _ = _
      simp only [Timed.task, Timed.phase, Timed.after, (Server.step_consumers id hserver).1]
    | createConsumer ok =>
      obtain ⟨newFd, -, ⟨hnot, rfl⟩ | ⟨hok, rfl⟩⟩ := Server.createConsumer_cases hserver
      · simp only [Timed.watchdogLabel, Timed.after, if_neg hnot]
        rfl
      · simp only [Timed.watchdogLabel, Timed.after, if_pos hok, Option.elim_some]
        simp only [Task.step, Timed.task, Timed.phase, hc.handle hok.1]
        rfl
    | xQueueReceive k =>
      obtain ⟨c, record, box, hk, -, rfl⟩ := Server.xQueueReceive_cases hserver
      obtain ⟨rfl, hone⟩ := hc.eq hk
      show Task.mk _ _ _ = _
      simp only [Timed.task, Timed.phase, Timed.after, hone]
      rfl
    | decode k tail =>
      obtain ⟨c, record, hk, rfl⟩ := Server.decode_cases hserver
      obtain ⟨rfl, hone⟩ := hc.eq hk
      simp only [Timed.watchdogLabel, hone, Option.elim_some]
      simp only [Task.step, Timed.task, Timed.phase, Timed.after, hone, List.set_cons_zero,
        delays_webRecdata, hdelay rfl, Nat.zero_add]
    | drive k =>
      obtain ⟨c, job, ⟨e, todo, hk, rfl⟩ | ⟨hk, rfl⟩⟩ := Server.drive_cases hserver
      · obtain ⟨rfl, hone⟩ := hc.eq hk
        simp only [Timed.watchdogLabel, hone, Option.elim_none, Timed.after_call hk]
        simp only [Timed.task, Timed.phase, hone, List.set_cons_zero, hdelay rfl, List.map_cons,
          List.sum_cons, Nat.zero_add]
      · obtain ⟨rfl, hone⟩ := hc.eq hk
        simp only [Timed.watchdogLabel, hone, Option.elim_some, Timed.after_done hk]
        simp only [Task.step, Timed.task, Timed.phase, hone, List.set_cons_zero, hdelay rfl,
          List.map_nil, List.sum_nil, Nat.zero_add]

/-- The clock restricts no run: the command task is delayed for a while, and then goes on. -/
theorem Server.Reachable.exists_timed {s : Server} (h : s.Reachable indexHtml) :
    ∃ t : Timed, t.Reachable indexHtml ∧ t.server = s ∧ t.delay = 0 := by
  have hdrain : ∀ n (t : Timed), t.Reachable indexHtml → t.delay = n →
      ∃ u : Timed, u.Reachable indexHtml ∧ u.server = t.server ∧ u.delay = 0 := by
    intro n
    induction n with
    | zero => exact fun t ht hdelay => ⟨t, ht, rfl, hdelay⟩
    | succ n ih =>
      intro t ht hdelay
      have htick : t.tick = some { t with now := t.now + 1, delay := t.delay - 1 } :=
        if_pos (by omega)
      have hu : Timed.Reachable indexHtml { t with now := t.now + 1, delay := t.delay - 1 } :=
        Run.Reachable.tail (l := .tick) ht htick
      have hn : t.delay - 1 = n := by omega
      obtain ⟨u, hreach, hserver, hzero⟩ := ih _ hu hn
      exact ⟨u, hreach, hserver, hzero⟩
  refine h.rec_on (P := fun s => ∃ t : Timed, t.Reachable indexHtml ∧ t.server = s ∧
    t.delay = 0) ⟨.init, .refl, rfl, rfl⟩ ?_
  rintro _ l s' - ⟨t, ht, rfl, hdelay⟩ hst
  have hstep : t.step indexHtml (.task l) = some (t.after l s') := by
    rw [Timed.step, if_neg fun hnot => absurd hdelay hnot.2.ne', hst]
    rfl
  obtain ⟨u, hu, hserver, hzero⟩ := hdrain _ _ (Run.Reachable.tail ht hstep) rfl
  exact ⟨u, hu, hserver.trans (Timed.after_server ..), hzero⟩

/-! ## The timeout -/

/-- What a step demands is what it demands of the command task. -/
theorem Timed.demand_eq (s : Timed) (l : TimedLabel) :
    s.demand l = (s.watchdogLabel l).elim 0 s.task.demand := by
  cases l with
  | tick =>
    simp only [Timed.watchdogLabel, Option.elim_some, Task.demand, Timed.demand, Timed.task,
      Timed.phase]
    rcases s.server.consumers with _ | ⟨_ | ⟨c, record⟩ | ⟨c, job, todo⟩, rest⟩
    · rfl
    · rfl
    · rfl
    · rfl
  | task l =>
    cases l with
    | accept | malloc | createHandler | start | recv | act | xQueueReceive => rfl
    | createConsumer ok =>
      simp only [Timed.watchdogLabel]
      split
      · rfl
      · rfl
    | decode k tail =>
      simp only [Timed.watchdogLabel, Timed.demand]
      rcases hc : s.server.consumers with _ | ⟨_ | ⟨c, record⟩ | ⟨c, job, todo⟩, rest⟩
      · rfl
      · rfl
      · simp only [Option.elim_some, Task.demand, Timed.task, Timed.phase, hc]
      · rfl
    | drive k =>
      simp only [Timed.watchdogLabel]
      split
      · rfl
      · rfl

/-- The timeout is not exceeded when the command task does not exceed it. -/
theorem Timed.fed_iff (s : Timed) :
    s.task.Fed wdtTimeout ↔ (s.server.consumers ≠ [] → s.elapsed ≤ wdtTimeout) := by
  have hphase : s.task.phase = .unsubscribed ↔ s.server.consumers = [] := by
    show s.phase = _ ↔ _
    unfold Timed.phase
    rcases s.server.consumers with _ | ⟨_ | ⟨c, record⟩ | ⟨c, job, todo⟩, rest⟩ <;> simp
  unfold Task.Fed
  rw [hphase, Classical.or_iff_not_imp_left]
  rfl

/-- **The watchdog of the command task.** In a run the time since the last reset never exceeds the
timeout when every wait for a record, together with the delays of the record, is within the timeout.
When the command task waits at the end of the run, this is the only way not to exceed it. -/
theorem watchdog_fed {ls : List TimedLabel} (h : exec (Timed.step indexHtml) .init ls = some s) :
    (Timely indexHtml ls → Fed indexHtml ls) ∧
      ((∀ x ∈ s.server.consumers, x = .idle) → Fed indexHtml ls → Timely indexHtml ls) := by
  have hw := Timed.watches indexHtml
  refine ⟨fun htimely history t hle hexec => ?_, fun hidle hfed p hp => ?_⟩
  · rw [← Timed.fed_iff]
    refine Task.Within.fed (hw.ok ⟨history, hexec⟩) (hw.within hexec fun p hp k hk => ?_)
    have hdemand := htimely p (outputs_subset hle hp)
    rwa [Timed.demand_eq, hk] at hdemand
  · have hrest : s.task.Affordable wdtTimeout := by
      intro waited work left hphase
      have hphase : s.phase = .working waited work left := hphase
      unfold Timed.phase at hphase
      rcases hc : s.server.consumers with _ | ⟨x, rest⟩
      · rw [hc] at hphase
        cases hphase
      · cases hidle x (hc ▸ List.mem_cons_self)
        rw [hc] at hphase
        cases hphase
    have hdemand := hw.demand_le h (fun history t hle hexec => ?_) hrest p hp
    · rw [Timed.demand_eq]
      cases hout : p.1.watchdogLabel p.2 with
      | none => exact Nat.zero_le _
      | some k => exact hdemand k hout
    · exact (Timed.fed_iff t).2 (hfed history t hle hexec)

end

/-- The joystick moves as late as the timeout allows, and its record is handled. -/
def punctualRun : List TimedLabel :=
  (connect 54 0).map .task ++ List.replicate 494 .tick ++
    (submit 0 forwardRequest ++ takeRecord ++ calls 9).map .task ++ List.replicate 6 .tick ++
    (calls 1).map .task

/-- The command task is created, and nobody sends anything for more than five seconds. -/
def idleRun : List TimedLabel := (connect 54 0).map .task ++ List.replicate 501 .tick

/-- The watchdog fires when nobody sends anything. -/
theorem watchdog_starved : ¬ ∀ (indexHtml : List UInt8) (s : Timed), s.Reachable indexHtml →
    s.server.consumers ≠ [] → s.elapsed ≤ wdtTimeout := by
  intro hall
  have hexec : exec (Timed.step []) .init idleRun = some _ := exec_eq_getD (by decide +kernel)
  have helapsed := hall [] _ ⟨idleRun, hexec⟩ (by decide +kernel)
  revert helapsed
  decide +kernel

/-- A record that takes the rest of the timeout. -/
theorem watchdog_fed_punctual : Fed [] punctualRun :=
  (watchdog_fed (exec_eq_getD (by decide +kernel))).1 (by decide +kernel)

end InfantryRM

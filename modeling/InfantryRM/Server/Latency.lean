import InfantryRM.Server.Watchdog

/-!
# How long a record waits

Once there is a command task, a record that the queue has accepted does not wait for ever: it is
processed, or another handler discards it, within 16 ticks for each record in front of it, 16 for
the record that the command task is at, and 16 for its own (`record_done_in_time`). Since the queue
holds at most thirty records, that is less than five seconds, the timeout of the watchdog.

The clock of `Timed` stands still while the command task can run. So this counts the ticks in which
the task is blocked, under the assumption that calls other than `vTaskDelay` and `xQueueReceive`
take no time and that no other task preempts it; a tick that the task spends ready to run comes on
top.

The reason is that the task is blocked only by its delays and by an empty queue, and that a record
is not overtaken. `Timed.pending` counts the ticks that are left at most; every tick takes one away,
and no step of any task adds one.
-/

namespace InfantryRM

open Run Mailbox

/-- The record is in the queue, or the command task is at it. -/
def Server.Pending (s : Server) (x : Nat × URLData) : Prop :=
  x ∈ s.box.queue ∨ (s.consumers.headD .idle).held = some x

/-- The records of the queue up to and including `x`. -/
def Server.upTo (s : Server) (x : Nat × URLData) : Nat :=
  if x ∈ s.box.queue then s.box.queue.idxOf x + 1 else 0

/-- The ticks that a consumer takes at most until it is done with its record. -/
def Consumer.left (delay : Nat) : Consumer → Nat
  | .idle => 0
  | .decoding _ _ => 16
  | .driving _ _ todo => delay + (todo.map Effect.ticks).sum

/-- The ticks until `x` has been processed, if it is not discarded. -/
def Timed.pending (x : Nat × URLData) (s : Timed) : Nat :=
  (s.server.consumers.headD .idle).left s.delay + 16 * s.server.upTo x

/-- A tick of the clock. -/
def TimedLabel.IsTick : TimedLabel → Prop
  | .tick => True
  | .task _ => False

instance : DecidablePred TimedLabel.IsTick
  | .tick => .isTrue trivial
  | .task _ => .isFalse id

section
variable {s t : Timed} {indexHtml : List UInt8} {l : TimedLabel} {x : Nat × URLData}

/-- A record takes at most sixteen ticks. -/
theorem Job.ticks_le (j : Job) : j.ticks ≤ 16 := by
  unfold Job.ticks
  split
  · exact le_rfl
  · exact Nat.le_add_right 6 10

/-- There goes on being a command task. -/
theorem Timed.consumers_ne (hne : s.server.consumers ≠ []) (hst : s.step indexHtml l = some t) :
    t.server.consumers ≠ [] := by
  cases l with
  | tick =>
    rw [Timed.tick_server hst]
    exact hne
  | task l =>
    obtain ⟨-, server, hserver, rfl⟩ := Timed.step_task hst
    rw [Timed.after_server]
    have hset {k : Nat} {y : Consumer} : s.server.consumers.set k y ≠ [] := by
      intro hnil
      exact hne ((List.set_eq_nil_iff ..).1 hnil)
    cases l with
    | accept | malloc | createHandler | start | recv | act =>
      rw [(Server.step_consumers id hserver).1]
      exact hne
    | createConsumer ok =>
      obtain ⟨newFd, -, ⟨-, rfl⟩ | ⟨-, rfl⟩⟩ := Server.createConsumer_cases hserver
      · exact hne
      · exact List.append_ne_nil_of_left_ne_nil hne _
    | xQueueReceive k =>
      obtain ⟨c, record, box, -, -, rfl⟩ := Server.xQueueReceive_cases hserver
      exact hset
    | decode k tail =>
      obtain ⟨c, record, -, rfl⟩ := Server.decode_cases hserver
      exact hset
    | drive k =>
      obtain ⟨c, job, ⟨e, todo, -, rfl⟩ | ⟨-, rfl⟩⟩ := Server.drive_cases hserver
      · exact hset
      · exact hset

/-- The connection of a pending record will not touch the queue again. -/
theorem Server.Reachable.finished_of_pending {s : Server} (hs : s.Reachable indexHtml)
    (hx : s.Pending x) : (s.handlers x.1).phase = .finished := by
  refine hs.latestWins_inv.finished x ?_
  rcases hx with hqueue | hheld
  · exact List.mem_append_right _ hqueue
  · -- a record that the consumer holds was taken from the queue
    refine (Box.received_sublist_sent s.latestWins.box).subset ?_
    rw [hs.latestWins_inv.taken]
    exact List.mem_append_right _ (Option.mem_toList.2 hheld)

/-- The record that another connection sends comes behind those in the queue. -/
theorem Server.upTo_send {s : Server} {c : Nat} {record : URLData} (hne : x.1 ≠ c)
    {queue : List (Nat × URLData)}
    (hqueue : queue = push queueLength s.box.queue (c, record)) :
    (if x ∈ queue then queue.idxOf x + 1 else 0) = s.upTo x := by
  have hother : x ≠ (c, record) := fun heq => hne (congrArg Prod.fst heq)
  unfold Server.upTo
  rw [hqueue, push]
  split
  · by_cases hmem : x ∈ s.box.queue
    · rw [if_pos (List.mem_append_left _ hmem), if_pos hmem, List.idxOf_append_of_mem hmem]
    · have hnot : x ∉ s.box.queue ++ [(c, record)] := by simp [hmem, hother]
      rw [if_neg hnot, if_neg hmem]
  · rfl

/-- An action of a handler leaves a pending record where it is, or discards it. -/
theorem Server.Reachable.upTo_act {s t : Server} (hs : s.Reachable indexHtml) {c : Nat}
    (hx : s.Pending x) (hst : s.act c = some t) : t.upTo x ≤ s.upTo x := by
  obtain ⟨fd, a, todo, hc, hcases⟩ := Server.act_cases hst
  rcases hcases with ⟨rfl, rfl⟩ | ⟨record, rfl, rfl⟩ | ⟨-, rfl⟩ | ⟨rfl, rfl⟩ | ⟨rfl, rfl⟩
  · exact (if_neg List.not_mem_nil).trans_le (Nat.zero_le _)
  · have hne : x.1 ≠ c := by
      intro heq
      have hfinished := hs.finished_of_pending hx
      rw [heq, hc] at hfinished
      cases hfinished
    exact (Server.upTo_send hne rfl).le
  · exact le_rfl
  · exact le_rfl
  · exact le_rfl

/-- The records of the queue are different. -/
theorem Server.Reachable.nodup_queue {s : Server} (hs : s.Reachable indexHtml) :
    s.box.queue.Nodup := by
  have hnodup : s.box.sent.Nodup := .of_map _ hs.latestWins_inv.nodup
  exact (List.nodup_append.1 hnodup).2.1

/-- What no step of the command task or the queue touches, the count does not either. -/
theorem Timed.pending_congr (hconsumers : t.server.consumers = s.server.consumers)
    (hdelay : t.delay = s.delay) (hup : t.server.upTo x ≤ s.server.upTo x) :
    t.pending x ≤ s.pending x := by
  unfold Timed.pending
  rw [hconsumers, hdelay]
  omega

/-- A tick takes one away from the ticks that are left. The command task does not wait for a record
while one is pending. -/
theorem Timed.pending_tick (hs : s.Reachable indexHtml) (hne : s.server.consumers ≠ [])
    (hx : s.server.Pending x) (hst : s.tick = some t) : t.pending x + 1 ≤ s.pending x := by
  rcases Timed.tick_cases hst with ⟨hpos, rfl⟩ | ⟨-, hnil, -⟩ | ⟨hzero, ⟨rest, hidle⟩, -⟩
  · obtain ⟨c, job, todo, hone⟩ := (Timed.Reachable.delay_eq hs).resolve_left hpos.ne'
    simp only [Timed.pending, hone, List.headD_cons, Consumer.left]
    omega
  · exact absurd hnil hne
  · -- the command task waits only at the empty queue
    exfalso
    have hqueue : s.server.box.queue = [] := by
      by_contra hfull
      unfold Timed.tick at hst
      rw [if_neg (by omega), hidle] at hst
      simp only [if_neg hfull] at hst
      cases hst
    rcases hx with hmem | hheld
    · rw [hqueue] at hmem
      cases hmem
    · rw [hidle] at hheld
      cases hheld

/-- The record that the command task takes from the queue was 16 ticks away, and all others come 16
ticks nearer. -/
theorem Timed.pending_xQueueReceive (hs : s.server.Reachable indexHtml) (hx : s.server.Pending x)
    {k : Nat} {server : Server} (hst : s.server.xQueueReceive k = some server) :
    (s.after (.xQueueReceive k) server).pending x ≤ s.pending x := by
  obtain ⟨c, record, box, hk, hbox, rfl⟩ := Server.xQueueReceive_cases hst
  obtain ⟨rfl, hone⟩ := hs.consumersOk.eq hk
  obtain ⟨queue, hqueue, rfl⟩ := Box.receive_eq_some_iff.1 hbox
  have hnodup := hs.nodup_queue
  rw [hqueue] at hnodup
  simp only [Timed.pending, Timed.after, Server.upTo, hone, hqueue, List.set_cons_zero,
    List.headD_cons, Consumer.left]
  rcases hx with hmem | hheld
  · rw [hqueue] at hmem
    rcases List.mem_cons.1 hmem with rfl | hmem'
    · rw [if_pos hmem, if_neg (List.nodup_cons.1 hnodup).1, List.idxOf_cons_self]
    · have hother : (c, record) ≠ x := by
        rintro rfl
        exact (List.nodup_cons.1 hnodup).1 hmem'
      rw [if_pos hmem', if_pos hmem, List.idxOf_cons_ne _ hother]
      omega
  · rw [hone] at hheld
    cases hheld

/-- **One step.** A tick takes one away from the ticks that are left for a pending record, and no
other step adds any. -/
theorem Timed.pending_step (hs : s.Reachable indexHtml) (hne : s.server.consumers ≠ [])
    (hx : s.server.Pending x) (hst : s.step indexHtml l = some t) :
    t.pending x + (if l.IsTick then 1 else 0) ≤ s.pending x := by
  have hserver := Timed.Reachable.server hs
  have hok := hserver.consumersOk
  cases l with
  | tick => exact Timed.pending_tick hs hne hx hst
  | task l =>
    have hnot : ¬ (TimedLabel.task l).IsTick := id
    rw [if_neg hnot, Nat.add_zero]
    obtain ⟨hdelay, server, hstep, rfl⟩ := Timed.step_task hst
    cases l with
    | accept | malloc | createHandler | start | recv =>
      refine Timed.pending_congr ?_ rfl ?_
      · exact (Server.step_consumers id hstep).1
      · unfold Server.upTo
        rw [Timed.after_server, Server.step_box id hstep]
    | act c =>
      exact Timed.pending_congr (Server.step_consumers id hstep).1 rfl (hserver.upTo_act hx hstep)
    | createConsumer ok =>
      obtain ⟨newFd, -, ⟨hnot, rfl⟩ | ⟨⟨hhandle, -⟩, -⟩⟩ := Server.createConsumer_cases hstep
      · rw [Timed.after, if_neg hnot]
        exact Timed.pending_congr rfl rfl le_rfl
      · exact absurd (hok.handle hhandle) hne
    | xQueueReceive k => exact Timed.pending_xQueueReceive hserver hx hstep
    | decode k tail =>
      obtain ⟨c, record, hk, rfl⟩ := Server.decode_cases hstep
      obtain ⟨rfl, hone⟩ := hok.eq hk
      have hticks := (Job.mk record tail).ticks_le
      simp only [Timed.pending, Timed.after, Server.upTo, hone, List.set_cons_zero,
        List.headD_cons, Consumer.left, delays_webRecdata, hdelay rfl]
      omega
    | drive k =>
      obtain ⟨c, job, ⟨e, todo, hk, rfl⟩ | ⟨hk, rfl⟩⟩ := Server.drive_cases hstep
      · obtain ⟨rfl, hone⟩ := hok.eq hk
        rw [Timed.after_call hk]
        simp only [Timed.pending, Server.upTo, hone, List.set_cons_zero, List.headD_cons,
          Consumer.left, List.map_cons, List.sum_cons, hdelay rfl]
        omega
      · obtain ⟨rfl, hone⟩ := hok.eq hk
        rw [Timed.after_done hk]
        simp only [Timed.pending, Server.upTo, hone, List.set_cons_zero, List.headD_cons,
          Consumer.left]
        omega

/-- The consumer is at most sixteen ticks from the end of its record. -/
theorem Timed.Reachable.left_le (hs : s.Reachable indexHtml) :
    (s.server.consumers.headD .idle).left s.delay ≤ 16 := by
  refine hs.rec_on (P := fun s => (s.server.consumers.headD .idle).left s.delay ≤ 16)
    (Nat.zero_le _) fun s l t hs ih hst => ?_
  cases l with
  | tick =>
    rcases Timed.tick_cases hst with ⟨hpos, rfl⟩ | ⟨-, hnil, rfl⟩ | ⟨-, ⟨rest, hidle⟩, rfl⟩
    · obtain ⟨c, job, todo, hone⟩ := (Timed.Reachable.delay_eq hs).resolve_left hpos.ne'
      simp only [hone, List.headD_cons, Consumer.left] at ih ⊢
      omega
    · simp only [hnil]
      exact Nat.zero_le _
    · simp only [hidle]
      exact Nat.zero_le _
  | task l =>
    obtain ⟨hdelay, server, hstep, rfl⟩ := Timed.step_task hst
    have hok := (Timed.Reachable.server hs).consumersOk
    cases l with
    | accept | malloc | createHandler | start | recv | act =>
      rw [Timed.after_server, (Server.step_consumers id hstep).1]
      exact ih
    | createConsumer ok =>
      obtain ⟨newFd, -, ⟨hnot, rfl⟩ | ⟨hsome, rfl⟩⟩ := Server.createConsumer_cases hstep
      · rw [Timed.after, if_neg hnot]
        exact ih
      · rw [Timed.after, if_pos hsome]
        simp only [hok.handle hsome.1]
        exact Nat.zero_le _
    | xQueueReceive k =>
      obtain ⟨c, record, box, hk, -, rfl⟩ := Server.xQueueReceive_cases hstep
      obtain ⟨rfl, hone⟩ := hok.eq hk
      simp only [Timed.after, hone, List.set_cons_zero, List.headD_cons, Consumer.left, le_refl]
    | decode k tail =>
      obtain ⟨c, record, hk, rfl⟩ := Server.decode_cases hstep
      obtain ⟨rfl, hone⟩ := hok.eq hk
      have hticks := (Job.mk record tail).ticks_le
      simp only [Timed.after, hone, List.set_cons_zero, List.headD_cons, Consumer.left,
        delays_webRecdata, hdelay rfl]
      omega
    | drive k =>
      obtain ⟨c, job, ⟨e, todo, hk, rfl⟩ | ⟨hk, rfl⟩⟩ := Server.drive_cases hstep
      · obtain ⟨rfl, hone⟩ := hok.eq hk
        rw [hone] at ih
        simp only [List.headD_cons, Consumer.left, List.map_cons, List.sum_cons, hdelay rfl] at ih
        rw [Timed.after_call hk]
        simp only [hone, List.set_cons_zero, List.headD_cons, Consumer.left]
        omega
      · obtain ⟨rfl, hone⟩ := hok.eq hk
        rw [Timed.after_done hk]
        simp only [hone, List.set_cons_zero, List.headD_cons]
        exact Nat.zero_le _

/-- The queue holds at most thirty records. -/
theorem Server.Reachable.upTo_le {s : Server} (hs : s.Reachable indexHtml) (x : Nat × URLData) :
    s.upTo x ≤ queueLength := by
  have hle : s.box.queue.length ≤ queueLength := LatestWins.length_queue_le hs.latestWins
  unfold Server.upTo
  split
  · next hmem => exact (List.idxOf_lt_length_of_mem hmem).trans_le hle
  · exact Nat.zero_le _

/-- **Latency.** Once there is a command task, a record that the queue has accepted is pending for
at most 16 ticks for each record of the queue up to it and 16 more, however the tasks interleave,
and at most 496 ticks in any case, which is less than the timeout of the watchdog. After that it has
been processed or discarded. The ticks are those of a clock that stands while the command task can
run: calls other than `vTaskDelay` and `xQueueReceive` take no time, and the task is never
preempted. -/
theorem record_done_in_time (hs : s.Reachable indexHtml) (hne : s.server.consumers ≠ [])
    {ls : List TimedLabel} (hexec : exec (Timed.step indexHtml) s ls = some t)
    (hx : ∀ ls' u, ls' <+: ls → exec (Timed.step indexHtml) s ls' = some u → u.server.Pending x) :
    ls.countP TimedLabel.IsTick ≤ 16 * (s.server.upTo x + 1) ∧
      ls.countP TimedLabel.IsTick ≤ 496 ∧ 496 < wdtTimeout := by
  have hpending (ls' : List TimedLabel) (u : Timed) (hle : ls' <+: ls)
      (hu : exec (Timed.step indexHtml) s ls' = some u) :
      u.server.consumers ≠ [] ∧ u.server.Pending x := by
    refine ⟨?_, hx ls' u hle hu⟩
    exact exec_rec_on (P := fun _ u => u.server.consumers ≠ []) hu hne
      fun _ _ _ _ _ ih hst => Timed.consumers_ne ih hst
  have hcount : ls.countP TimedLabel.IsTick + t.pending x ≤ s.pending x :=
    exec_countP_le (fun u l v hu hPu _ hst => Timed.pending_step hu hPu.1 hPu.2 hst) hs hexec
      hpending
  have hleft := Timed.Reachable.left_le hs
  have hup := (Timed.Reachable.server hs).upTo_le x
  have hcap : queueLength = 30 := rfl
  have hfall : s.pending x = (s.server.consumers.headD .idle).left s.delay +
    16 * s.server.upTo x := rfl
  refine ⟨by omega, by omega, by decide⟩

end

/-- The record of a stop waits in the queue while the chassis is set in motion. -/
def waitingRun : List TimedLabel :=
  (connect 54 0 ++ submit 0 forwardRequest ++ takeRecord ++ connect 55 1 ++
    submit 1 releaseRequest ++ calls 9).map .task

/-- The state at the end of a run with a clock, with an empty page. -/
def timedAfter (ls : List TimedLabel) : Timed := (exec (Timed.step []) .init ls).getD .init

/-- The clock alone changes no task. -/
theorem Timed.exec_ticks {s t : Timed} {indexHtml : List UInt8} {ls : List TimedLabel}
    (hticks : ∀ l ∈ ls, l = .tick) (hexec : exec (Timed.step indexHtml) s ls = some t) :
    t.server = s.server := by
  induction ls generalizing s with
  | nil => cases hexec; rfl
  | cons l ls ih =>
    obtain ⟨u, hu, hrest⟩ := Option.bind_eq_some_iff.1 hexec
    obtain ⟨rfl, hticks'⟩ := List.forall_mem_cons.1 hticks
    exact (ih hticks' hrest).trans (Timed.tick_server hu)

/-- The stop waits while the command task sits through six ticks of the record before. -/
theorem record_done_in_time_waiting :
    (List.replicate 6 TimedLabel.tick).countP TimedLabel.IsTick ≤
      16 * ((timedAfter waitingRun).server.upTo
        (1, targetRecord (StopCommand.joystickRelease).url (by decide)) + 1) := by
  have hreach : (timedAfter waitingRun).Reachable [] :=
    ⟨waitingRun, exec_eq_getD (by decide +kernel)⟩
  have hmem : (1, targetRecord (StopCommand.joystickRelease).url (by decide)) ∈
      (timedAfter waitingRun).server.box.queue := by decide +kernel
  refine (record_done_in_time hreach (by decide +kernel) (exec_eq_getD (by decide +kernel)) ?_).1
  intro ls' u hle hu
  have hserver : u.server = (timedAfter waitingRun).server :=
    Timed.exec_ticks (fun l hl => List.eq_of_mem_replicate (hle.subset hl)) hu
  rw [hserver]
  exact .inl hmem

end InfantryRM

import CcSnippets.Asio.Echo.Steps

/-!
# CcSnippets.Asio.Echo.Watched

The watchdog of an echo session started without timeouts is a **watch**
(`Core.Watch`) over all its operations: from `start` until `stop` has run it has
exactly one wait, pending or completed, and never wakes later than its deadline.
-/

namespace CcSnippets.Asio.Echo

open CcSnippets.Core

variable {clock : Clock ℤ} {timeout : ℤ} {s s' : State}

/-- Whether the completed wait completed without an error. -/
def Completion.woken : Completion → Option Bool
  | .wait error => some error.isNone
  | _ => none

/-- When the operation was started that the event records. -/
def Event.start : Event → Option ℤ
  | .started t => some t
  | .expired _ => none

/-- The watchdog, as a watch over the operations. -/
def State.watch (clock : Clock ℤ) (s : State) : Watch ℤ where
  now := clock.read s.instant
  deadline := s.watchdog.deadline
  timer := s.watchdog.timer
  woken := s.queue.filterMap Completion.woken
  starts := s.log.filterMap Event.start
  ended := s.stopped

/-- A watchdog that ends the session after a start does so at least the timeout
later. -/
def Event.Patient (timeout : ℤ) (a b : Event) : Prop :=
  ∀ u t, a = .started u → b = .expired t → u + timeout ≤ t

/-- The session is in the loop with a watchdog, and that is kept. -/
structure Kept (clock : Clock ℤ) (timeout : ℤ) (s : State) : Prop where
  withWatchdog : s.withTimeout = false
  watch : (s.watch clock).Sound timeout 1
  patient : s.log.Pairwise (Event.Patient timeout)

theorem mem_starts {u : ℤ} : u ∈ (s.watch clock).starts ↔ .started u ∈ s.log := by
  show u ∈ s.log.filterMap Event.start ↔ _
  rw [List.mem_filterMap]
  constructor
  · intro h
    obtain ⟨e, he, hu⟩ := h
    cases e with
    | started t =>
      obtain rfl := Option.some.inj hu
      exact he
    | expired t => cases hu
  · intro h
    exact ⟨_, h, rfl⟩

theorem patient_started {log : List Event} (h : log.Pairwise (Event.Patient timeout)) (u : ℤ) :
    (log ++ [Event.started u]).Pairwise (Event.Patient timeout) := by
  refine List.pairwise_append.mpr ⟨h, List.pairwise_singleton _ _, fun a _ b hb => ?_⟩
  intro v t _ hexpired
  exact absurd ((List.mem_singleton.mp hb).symm.trans hexpired) (by simp)

/-- An I/O completion is no wait. -/
theorem woken_concat {queue : List Completion} {c : Completion} (hc : c.woken = none) :
    (queue ++ [c]).filterMap Completion.woken = queue.filterMap Completion.woken := by
  rw [List.filterMap_append, List.filterMap_cons, hc, List.filterMap_nil, List.append_nil]

theorem woken_aborted (n : ℕ) :
    (List.replicate n (Completion.wait (some .aborted))).filterMap Completion.woken =
      List.replicate n false :=
  List.filterMap_replicate_of_some rfl

/-- An operation is started, and the watchdog moved. -/
theorem watch_start {n : ℕ} (h : (s.watch clock).Sound timeout n) (op : Operation) :
    (((s.asyncStart clock op).delay clock timeout).watch clock).Sound timeout n := by
  have hstart := h.start (le_refl _) (clock.mono (Nat.le_succ s.instant))
    (clock.mono (Nat.le_succ (s.instant + 1)))
  have hwatch : ((s.asyncStart clock op).delay clock timeout).watch clock =
      { s.watch clock with
        now := clock.read (s.instant + 1 + 1)
        deadline := clock.read (s.instant + 1) + timeout
        starts := (s.watch clock).starts ++ [clock.read s.instant] } := by
    simp only [State.watch, State.delay, State.asyncStart, Watchdog.delay, List.filterMap_append,
      List.filterMap_cons, List.filterMap_nil, Event.start]
  rw [hwatch]
  exact hstart

namespace Kept

/-- A step that the watchdog does not notice. -/
theorem of_same (h : Kept clock timeout s) (hmode : s'.withTimeout = s.withTimeout)
    (hwatch : s'.watch clock = s.watch clock) (hlog : s'.log = s.log) :
    Kept clock timeout s' where
  withWatchdog := hmode.trans h.withWatchdog
  watch := by
    rw [hwatch]
    exact h.watch
  patient := by
    rw [hlog]
    exact h.patient

/-- The session stops. -/
theorem stop (hmode : s.withTimeout = false) {n : ℕ} (h : (s.watch clock).Sound timeout n)
    (hpatient : s.log.Pairwise (Event.Patient timeout)) : Kept clock timeout s.stop where
  withWatchdog := hmode
  watch := h.finish _ _ _
  patient := hpatient

theorem start (h : Kept clock timeout s) (op : Operation) :
    Kept clock timeout ((s.asyncStart clock op).delay clock timeout) where
  withWatchdog := h.withWatchdog
  watch := watch_start h.watch op
  patient := patient_started h.patient _

/-- The watchdog is started, or started again after its wait. -/
theorem startWatchdog (hmode : s.withTimeout = false) (h : (s.watch clock).Sound timeout 0)
    (hstarts : s.stopped = false → (s.watch clock).starts ≠ [])
    (hpatient : s.log.Pairwise (Event.Patient timeout)) :
    Kept clock timeout (s.startWatchdog clock) := by
  have hlater : clock.read s.instant ≤ clock.read (s.instant + 1) :=
    clock.mono (Nat.le_succ s.instant)
  simp only [State.startWatchdog]
  split
  · rename_i hnone
    have hdue : s.watchdog.deadline ≤ clock.read s.instant := Watchdog.start_eq_none.mp hnone
    have hwatch : State.watch clock { s with
        instant := s.instant + 1, log := s.log ++ [.expired (clock.read s.instant)] } =
        { s.watch clock with now := clock.read (s.instant + 1) } := by
      simp only [State.watch, List.filterMap_append, List.filterMap_cons, List.filterMap_nil,
        Event.start, List.append_nil]
    refine Kept.stop hmode (n := 0) ?_ ?_
    · rw [hwatch]
      exact h.later hlater
    · refine List.pairwise_append.mpr ⟨hpatient, List.pairwise_singleton _ _, fun a ha b hb => ?_⟩
      intro u t hstarted hexpired
      obtain rfl := Event.expired.inj ((List.mem_singleton.mp hb).symm.trans hexpired)
      exact h.patient hdue (mem_starts.mpr (hstarted ▸ ha))
  · rename_i watchdog aborted hsome
    obtain ⟨rfl, rfl⟩ := Watchdog.start_eq_some hsome
    refine ⟨hmode, ?_, hpatient⟩
    have harmed := (h.arm hstarts).later hlater
    simp only [State.watch, List.filterMap_append, woken_aborted]
    exact harmed

end Kept

/-- `start` starts the first receive, and then the watchdog. -/
theorem kept_start (buffer : Buffer) :
    Kept clock timeout ((State.new false buffer).start clock timeout) := by
  have hnew : ((State.new false buffer).watch clock).Sound timeout 0 := .fresh rfl rfl rfl
  refine Kept.startWatchdog rfl (watch_start hnew _) (fun _ => ?_)
    (patient_started .nil (clock.read 0))
  exact List.ne_nil_of_mem (mem_starts.mpr List.mem_cons_self)

/-- The handler of a completion runs. -/
theorem kept_handle (h : Kept clock timeout s) {i : ℕ} {c : Completion}
    (hc : s.queue[i]? = some c) : Kept clock timeout ((s.dequeue i).handle clock timeout c) := by
  obtain ⟨before, after, hqueue, herase⟩ := exists_eraseIdx hc
  have hmode : (s.dequeue i).withTimeout = false := h.withWatchdog
  rw [State.handle, hmode, if_neg Bool.false_ne_true]
  -- a completion that is no wait leaves the watch as it is
  have hio : c.woken = none → Kept clock timeout (s.dequeue i) := by
    intro hnone
    have hsame : (s.queue.eraseIdx i).filterMap Completion.woken =
        s.queue.filterMap Completion.woken := by
      rw [herase, hqueue, List.filterMap_append, List.filterMap_append, List.filterMap_cons, hnone]
    refine h.of_same rfl ?_ rfl
    simp only [State.watch, State.dequeue, hsame]
  cases c with
  | receive error n =>
    cases error with
    | none => exact (hio rfl).start _
    | some e => exact Kept.stop hmode (hio rfl).watch h.patient
  | write error n =>
    cases error with
    | none => exact (hio rfl).start _
    | some e => exact Kept.stop hmode (hio rfl).watch h.patient
  | wait error =>
    have hwoken : (s.watch clock).woken = before.filterMap Completion.woken ++
        error.isNone :: after.filterMap Completion.woken := by
      show s.queue.filterMap Completion.woken = _
      rw [hqueue, List.filterMap_append]
      rfl
    have htaken := h.watch.take hwoken
    have hwatch : (s.dequeue i).watch clock =
        { s.watch clock with
          woken := before.filterMap Completion.woken ++ after.filterMap Completion.woken } := by
      simp only [State.watch, State.dequeue, herase, List.filterMap_append]
    rw [← hwatch] at htaken
    cases error with
    | none =>
      exact Kept.startWatchdog hmode htaken (fun hnot => h.watch.started hnot Nat.one_pos)
        h.patient
    | some e =>
      have hended : s.stopped = true := h.watch.ended_of_aborted (by
        rw [hwoken]
        exact List.mem_append_right _ List.mem_cons_self)
      exact ⟨hmode, htaken.of_ended hended 1, h.patient⟩

/-- **Every step keeps the watchdog.** -/
theorem kept_next {l : Label} (h : Kept clock timeout s)
    (hs : s.next clock timeout l = some s') : Kept clock timeout s' := by
  have hcomplete : ∀ i (c : Completion), c.woken = none → Kept clock timeout (s.complete i c) := by
    intro i c hc
    refine h.of_same rfl ?_ rfl
    simp only [State.watch, State.complete, woken_concat hc]
  cases next_step hs with
  | elapse => exact ⟨h.withWatchdog, h.watch.later (clock.mono (Nat.le_succ _)), h.patient⟩
  | @receiveDone i chunk since _ _ =>
    have hreceived := hcomplete i (.receive none chunk.bytes.length) rfl
    exact hreceived.of_same rfl rfl rfl
  | receiveFails _ | writeDone _ | writeFails _ => exact hcomplete _ _ rfl
  | writeSome _ _ _ _ => exact h.of_same rfl rfl rfl
  | waitDone htimer =>
    have hwoken := h.watch.wake htimer
    refine ⟨h.withWatchdog, ?_, h.patient⟩
    simp only [State.watch, List.filterMap_append]
    exact hwoken
  | run hc => exact kept_handle h hc

theorem kept_of_reach (h : (system clock timeout false).Reachable s) : Kept clock timeout s := by
  refine h.invariant (I := Kept clock timeout) (fun s h0 => ?_)
    fun _ _ _ _ hk _ hs => kept_next hk hs
  obtain ⟨buffer, rfl⟩ := h0
  exact kept_start buffer

end CcSnippets.Asio.Echo

import CcSnippets.Asio.Echo.Steps

/-!
# CcSnippets.Asio.Echo.Timeouts

The loop of the echo session in which every operation has a timeout of its own.

The handler of an operation cancels the timer before it starts the next operation.
That aborts a wait that is pending, but not one whose success is queued already: its
handler runs behind, and **closes the session during the next operation**. As long as
no operation is handled without an error while a completed wait is queued behind it,
a timeout closes the session only after the outstanding operation has had its time
(`InTime`).
-/

namespace CcSnippets.Asio.Echo

open CcSnippets.Core

variable {clock : Clock ℤ} {timeout : ℤ} {s s' : State}

/-- Where the next handler is that of a wait completed without an error, the operation
outstanding has been so for at least the timeout. -/
def Punctual (clock : Clock ℤ) (timeout : ℤ) (s : State) : Prop :=
  ∀ rest, s.queue = .wait none :: rest →
    ∀ op ∈ s.outstanding, op.2 + timeout ≤ clock.read s.instant

/-- The completion of an operation without an error, whose handler starts the next. -/
def Completion.Succeeded : Completion → Prop
  | .receive error _ | .write error _ => error = none
  | .wait _ => False

/-- No operation that succeeded is handled while a wait completed without an error is
queued. -/
def NoStaleWait (s : State) : Label → Prop
  | .run i => ∀ c, s.queue[i]? = some c → c.Succeeded → .wait none ∉ s.queue
  | _ => True

instance : ∀ c : Completion, Decidable c.Succeeded
  | .receive _ _ | .write _ _ => inferInstanceAs (Decidable (_ = _))
  | .wait _ => inferInstanceAs (Decidable False)

instance (s : State) : ∀ l, Decidable (NoStaleWait s l)
  | .run i => inferInstanceAs (Decidable (∀ c, s.queue[i]? = some c → c.Succeeded → _))
  | .elapse | .receiveDone _ _ | .receiveFails _ _ | .writeSome _ _ | .writeDone _
  | .writeFails _ _ | .waitDone => inferInstanceAs (Decidable True)

/-- A completed wait, and a pending one, is due for every outstanding operation. -/
structure InTime (clock : Clock ℤ) (timeout : ℤ) (s : State) : Prop where
  withTimeout : s.withTimeout = true
  past : ∀ op ∈ s.outstanding, op.2 ≤ clock.read s.instant
  due : .wait none ∈ s.queue → ∀ op ∈ s.outstanding, op.2 + timeout ≤ clock.read s.instant
  armed : 0 < s.watchdog.timer.waits →
    ∀ op ∈ s.outstanding, op.2 + timeout ≤ s.watchdog.timer.expiry

/-- What is queued when waits are aborted. -/
theorem wait_notMem_aborted (n : ℕ) :
    Completion.wait none ∉ List.replicate n (.wait (some .aborted)) := by
  intro h
  exact absurd (List.eq_of_mem_replicate h) (by simp)

/-- An operation is started with a timeout of its own. -/
theorem inTime_startTimeout (hmode : s.withTimeout = true)
    (hpast : ∀ op ∈ s.outstanding, op.2 ≤ clock.read s.instant)
    (hqueue : .wait none ∉ s.queue) (op : Operation) :
    InTime clock timeout ((s.asyncStart clock op).startTimeout clock timeout) := by
  have hfirst : clock.read s.instant ≤ clock.read (s.instant + 1) :=
    clock.mono (Nat.le_succ s.instant)
  have hsecond : clock.read (s.instant + 1) ≤ clock.read (s.instant + 1 + 1) :=
    clock.mono (Nat.le_succ (s.instant + 1))
  -- no start is after the reading of the clock
  have hle : ∀ o ∈ s.outstanding ++ [(op, clock.read s.instant)],
      o.2 ≤ clock.read (s.instant + 1) := by
    intro o ho
    rcases List.mem_append.mp ho with hold | hnew
    · exact (hpast o hold).trans hfirst
    · rw [List.mem_singleton.mp hnew]
      exact hfirst
  refine ⟨hmode, fun o ho => (hle o ho).trans hsecond, fun hmem => ?_, fun _ o ho => ?_⟩
  · rcases List.mem_append.mp hmem with hold | hnew
    · exact absurd hold hqueue
    · exact absurd hnew (wait_notMem_aborted _)
  · exact add_le_add_left (hle o ho) timeout

namespace InTime

/-- A step that starts no operation, queues no wait and leaves the timer alone. -/
theorem of_step (h : InTime clock timeout s) (hmode : s'.withTimeout = s.withTimeout)
    (hinstant : s.instant ≤ s'.instant)
    (hout : ∀ op ∈ s'.outstanding, ∃ op' ∈ s.outstanding, op'.2 = op.2)
    (hqueue : .wait none ∈ s'.queue → .wait none ∈ s.queue)
    (htimer : 0 < s'.watchdog.timer.waits → s'.watchdog.timer = s.watchdog.timer) :
    InTime clock timeout s' := by
  have hlater : clock.read s.instant ≤ clock.read s'.instant := clock.mono hinstant
  refine ⟨hmode.trans h.withTimeout, fun op hop => ?_, fun hmem op hop => ?_,
    fun hwaits op hop => ?_⟩
  · obtain ⟨op', hop', heq⟩ := hout op hop
    rw [← heq]
    exact (h.past op' hop').trans hlater
  · obtain ⟨op', hop', heq⟩ := hout op hop
    rw [← heq]
    exact (h.due (hqueue hmem) op' hop').trans hlater
  · obtain ⟨op', hop', heq⟩ := hout op hop
    rw [← heq, htimer hwaits]
    rw [htimer hwaits] at hwaits
    exact h.armed hwaits op' hop'

/-- An operation completes. -/
theorem complete (h : InTime clock timeout s) (i : ℕ) {c : Completion} (hc : c ≠ .wait none) :
    InTime clock timeout (s.complete i c) := by
  refine h.of_step rfl (Nat.le_refl _) (fun op hop => ⟨op, List.mem_of_mem_eraseIdx hop, rfl⟩)
    (fun hmem => ?_) fun _ => rfl
  rcases List.mem_append.mp hmem with hold | hnew
  · exact hold
  · exact absurd (List.mem_singleton.mp hnew).symm hc

/-- The timer is cancelled. -/
theorem cancelTimer (h : InTime clock timeout s) : InTime clock timeout s.cancelTimer := by
  refine h.of_step rfl (Nat.le_refl _) (fun op hop => ⟨op, hop, rfl⟩) (fun hmem => ?_)
    fun hwaits => absurd hwaits (Nat.lt_irrefl 0)
  rcases List.mem_append.mp hmem with hold | hnew
  · exact hold
  · exact absurd hnew (wait_notMem_aborted _)

theorem stop (h : InTime clock timeout s) : InTime clock timeout s.stop :=
  h.cancelTimer.of_step rfl (Nat.le_refl _) (fun op hop => ⟨op, hop, rfl⟩) id fun _ => rfl

theorem dequeue (h : InTime clock timeout s) (i : ℕ) : InTime clock timeout (s.dequeue i) :=
  h.of_step rfl (Nat.le_refl _) (fun op hop => ⟨op, hop, rfl⟩) List.mem_of_mem_eraseIdx fun _ => rfl

/-- A wait completes: it was armed for the operation outstanding. -/
theorem waitDone (h : InTime clock timeout s) {timer : Timer ℤ}
    (htimer : s.watchdog.timer.complete (clock.read s.instant) = some timer) :
    InTime clock timeout { s with
      watchdog := { s.watchdog with timer := timer }, queue := s.queue ++ [.wait none] } := by
  obtain ⟨hle, hexpiry, hwaits⟩ := Timer.complete_eq_some.mp htimer
  have hpos : 0 < s.watchdog.timer.waits := by omega
  refine ⟨h.withTimeout, h.past, fun _ op hop => (h.armed hpos op hop).trans hle,
    fun _ op hop => ?_⟩
  show op.2 + timeout ≤ timer.expiry
  rw [hexpiry]
  exact h.armed hpos op hop

/-- The handler of a completion runs. One that starts the next operation finds no
completed wait. -/
theorem handle (h : InTime clock timeout s) {i : ℕ} {c : Completion}
    (hok : c.Succeeded → .wait none ∉ s.queue) :
    InTime clock timeout ((s.dequeue i).handle clock timeout c) := by
  have hdequeued := h.dequeue i
  -- after `cancel` there is still no completed wait
  have hnext : c.Succeeded → ∀ op, InTime clock timeout
      (((s.dequeue i).cancelTimer.asyncStart clock op).startTimeout clock timeout) := by
    intro hsucceeded op
    refine inTime_startTimeout (s := (s.dequeue i).cancelTimer) h.withTimeout
      hdequeued.cancelTimer.past (fun hmem => ?_) op
    rcases List.mem_append.mp hmem with hold | hnew
    · exact hok hsucceeded (List.mem_of_mem_eraseIdx hold)
    · exact wait_notMem_aborted _ hnew
  rw [State.handle, hdequeued.withTimeout, if_pos rfl]
  cases c with
  | receive error n =>
    cases error with
    | none => exact hnext rfl _
    | some e => exact hdequeued.cancelTimer.stop
  | write error n =>
    cases error with
    | none => exact hnext rfl _
    | some e => exact hdequeued.cancelTimer.stop
  | wait error =>
    cases error with
    | none => exact hdequeued.stop
    | some e => exact hdequeued

end InTime

/-- **Every step that meets the condition keeps the waits in time.** -/
theorem inTime_next {l : Label} (h : InTime clock timeout s) (hok : NoStaleWait s l)
    (hs : s.next clock timeout l = some s') : InTime clock timeout s' := by
  cases next_step hs with
  | elapse => exact h.of_step rfl (Nat.le_succ _) (fun op hop => ⟨op, hop, rfl⟩) id fun _ => rfl
  | @receiveDone i chunk since hop _ =>
    have hcompleted := h.complete i (c := .receive none chunk.bytes.length) (by simp)
    exact hcompleted.of_step rfl (Nat.le_refl _) (fun op hop => ⟨op, hop, rfl⟩) id fun _ => rfl
  | receiveFails _ | writeDone _ | writeFails _ => exact h.complete _ (by simp)
  | writeSome hop _ _ _ =>
    refine h.of_step rfl (Nat.le_refl _) (fun op hmem => ?_) id fun _ => rfl
    -- the write goes on, since when it was started
    rcases List.mem_or_eq_of_mem_set hmem with hold | rfl
    · exact ⟨op, hold, rfl⟩
    · exact ⟨_, List.mem_of_getElem? hop, rfl⟩
  | waitDone htimer => exact h.waitDone htimer
  | run hc => exact h.handle (hok _ hc)

/-- **In time where no wait is stale.** In every run in which no operation that
succeeded is handled while a completed wait is queued behind it, a timeout closes the
session only when the outstanding operation has been so for at least the timeout. -/
theorem punctual_of_noStaleWait (h : (strandSystem clock timeout true).Reach NoStaleWait s) :
    Punctual clock timeout s := by
  have hinTime : InTime clock timeout s := by
    refine h.invariant (I := InTime clock timeout) (fun s h0 => ?_)
      fun s l s' _ hi hok hs => ?_
    · obtain ⟨buffer, rfl⟩ := h0
      exact inTime_startTimeout rfl (fun op hop => by cases hop) (List.not_mem_nil) _
    · simp only [strandSystem] at hs
      split at hs
      · exact inTime_next hi hok hs
      · cases hs
  intro rest hrest op hop
  refine hinTime.due ?_ op hop
  rw [hrest]
  exact List.mem_cons_self

/-- The second operation, a write, has had its five units of time when its timer
expires. -/
theorem punctual_of_noStaleWait_write :
    ∃ s, (strandSystem ticking 5 true).run ((State.new true .zero).start ticking 5)
        [.receiveDone 0 ⟨[7], by decide, by decide⟩, .run 0, .run 0, .elapse, .elapse, .elapse,
          .elapse, .waitDone] = some s ∧
      s.queue = [.wait none] ∧ s.outstanding = [(.write 1 0, 2)] ∧ Punctual ticking 5 s := by
  obtain ⟨s, hrun, hqueue, hout⟩ :
      ∃ s, (strandSystem ticking 5 true).run ((State.new true .zero).start ticking 5)
        [.receiveDone 0 ⟨[7], by decide, by decide⟩, .run 0, .run 0, .elapse, .elapse, .elapse,
          .elapse, .waitDone] = some s ∧
      s.queue = [.wait none] ∧ s.outstanding = [(.write 1 0, 2)] := ⟨_, rfl, rfl, rfl⟩
  have hstart : (strandSystem ticking 5 true).Reach NoStaleWait
      ((State.new true .zero).start ticking 5) := .init ⟨_, rfl⟩
  have hsteps : (strandSystem ticking 5 true).EveryStep NoStaleWait
      ((State.new true .zero).start ticking 5)
      [.receiveDone 0 ⟨[7], by decide, by decide⟩, .run 0, .run 0, .elapse, .elapse, .elapse,
        .elapse, .waitDone] := by decide
  exact ⟨s, hrun, hqueue, hout, punctual_of_noStaleWait (hstart.of_everyStep hsteps hrun)⟩

/-- **A stale timeout closes the session.** The receive completes and then its timer
expires, before the handler of the receive has run. That handler starts a write; two
units of time later the handler of the wait closes the session under it. -/
theorem stale_wait_closes :
    ∃ s s', (strandSystem ticking 5 true).run ((State.new true .zero).start ticking 5)
        [.elapse, .elapse, .elapse, .elapse, .receiveDone 0 ⟨[7], by decide, by decide⟩,
          .waitDone, .run 0] = some s ∧
      s.queue = [.wait none] ∧ s.outstanding = [(.write 1 0, 6)] ∧
      ticking.read s.instant = 8 ∧ ¬ Punctual ticking 5 s ∧
      (strandSystem ticking 5 true).next s (.run 0) = some s' ∧ s'.isOpen = false := by
  refine ⟨_, _, rfl, rfl, rfl, rfl, fun hpunctual => ?_, rfl, rfl⟩
  have hwrite := hpunctual [] rfl (.write 1 0, 6) List.mem_cons_self
  exact absurd hwrite (by decide)

end CcSnippets.Asio.Echo

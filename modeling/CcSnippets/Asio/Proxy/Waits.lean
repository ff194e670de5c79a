import CcSnippets.Asio.Waits
import CcSnippets.Asio.Proxy.Watched

/-!
# CcSnippets.Asio.Proxy.Waits

Each watchdog of a session has **one wait at most**, pending or completed
(`waiting_of_reach`).
-/

namespace CcSnippets.Asio.Proxy

open CcSnippets.Core

variable {clock : Clock ℤ} {timeout : ℤ} {s s' : State}

/-! ### One wait of each watchdog -/

/-- How many waits of the watchdog are pending or have completed. -/
def State.waiting (s : State) (d : Side) : ℕ :=
  (s.watchdog d).timer.waits + (s.waits d).length

@[simp] theorem waiting_stop (s : State) (d : Side) : s.stop.waiting d = s.waiting d := by
  simp [State.waiting, State.stop, Watchdog.stop, Timer.cancel, Nat.add_comm]

@[simp] theorem waiting_asyncStart (s : State) (d e : Side) (op : Operation) :
    (s.asyncStart clock e op).waiting d = s.waiting d := rfl

@[simp] theorem waiting_delay (s : State) (d e : Side) :
    (s.delay clock timeout e).waiting d = s.waiting d := by
  by_cases hde : d = e
  · subst hde
    simp [State.waiting, State.delay, Watchdog.delay]
  · simp [State.waiting, State.delay, Function.update_of_ne hde]

theorem waiting_startWatchdog_le (s : State) (d : Side) :
    (s.startWatchdog clock d).waiting d ≤ s.waiting d + 1 := by
  simp only [State.startWatchdog]
  split
  · rw [waiting_stop]
    exact Nat.le_succ _
  · rename_i watchdog aborted hsome
    obtain ⟨rfl, rfl⟩ := Watchdog.start_eq_some hsome
    simp [State.waiting, Timer.expiresAt, Timer.asyncWait]
    omega

theorem waiting_startWatchdog_of_ne (s : State) {d e : Side} (h : d ≠ e) :
    (s.startWatchdog clock e).waiting d = s.waiting d := by
  simp only [State.startWatchdog]
  split
  · rw [waiting_stop]
    rfl
  · simp [State.waiting, Function.update_of_ne h]

/-- Taking a completed wait out of the queue. -/
theorem waiting_dequeueWait {d : Side} {i : ℕ} {error : Option Error}
    (h : (s.waits d)[i]? = some error) : (s.dequeueWait d i).waiting d + 1 = s.waiting d := by
  obtain ⟨hlt, -⟩ := List.getElem?_eq_some_iff.mp h
  simp only [State.waiting, State.dequeueWait, Function.update_self, List.length_eraseIdx_of_lt hlt]
  omega

theorem waiting_dequeueWait_of_ne (s : State) {d e : Side} (h : d ≠ e) (i : ℕ) :
    (s.dequeueWait e i).waiting d = s.waiting d := by
  simp [State.waiting, State.dequeueWait, Function.update_of_ne h]

/-- **Every step keeps each watchdog at one wait at most.** -/
theorem waiting_next {l : Label} (hw : Watched clock timeout s) (h : ∀ d, s.waiting d ≤ 1)
    (hs : s.next clock timeout l = some s') (d : Side) : s'.waiting d ≤ 1 := by
  cases next_step hs with
  | elapse | connectDone _ | receiveDone _ _ | writeSome _ _ _ _ | writeDone _ => exact h d
  | receiveFails _ | writeFails _ =>
    rw [fails_eq]
    exact h d
  | @waitDone e timer htimer =>
    obtain ⟨-, -, hwaits⟩ := Timer.complete_eq_some.mp htimer
    by_cases hde : d = e
    · subst hde
      have hd := h d
      simp only [State.waiting, Function.update_self, List.length_append, List.length_singleton]
        at hd ⊢
      omega
    · simpa only [State.waiting, Function.update_of_ne hde] using h d
  | @runConnect error hconnect =>
    cases error with
    | some e => exact h d
    | none =>
      -- neither watchdog has been started before
      obtain ⟨hstopped, hbegun⟩ := hw.before (by simp [hconnect])
      have hzero : ∀ e, s.waiting e = 0 := by
        intro e
        have hcount := (hw.watches e).count hstopped
        rw [hbegun e] at hcount
        simpa [State.watch, State.waiting] using hcount
      simp only [State.handleConnect, State.startWatchdogs]
      cases d with
      | client =>
        rw [waiting_startWatchdog_of_ne _ (by decide)]
        refine (waiting_startWatchdog_le _ _).trans ?_
        simp only [State.receiveFromServer, State.receiveFromClient, State.receive, waiting_delay,
          waiting_asyncStart]
        exact (congrArg (· + 1) (hzero .client)).le
      | server =>
        refine (waiting_startWatchdog_le _ _).trans ?_
        rw [waiting_startWatchdog_of_ne _ (by decide)]
        simp only [State.receiveFromServer, State.receiveFromClient, State.receive, waiting_delay,
          waiting_asyncStart]
        exact (congrArg (· + 1) (hzero .server)).le
  | @runIo e i c hc =>
    have hdequeued : (s.dequeue e i).waiting d ≤ 1 := h d
    rcases handle_cases (s.dequeue e i) e c with ⟨-, heq⟩ | ⟨n, -, heq⟩ | ⟨n, -, heq⟩
    · rwa [heq, waiting_stop]
    · rwa [heq, State.send, waiting_delay, waiting_asyncStart]
    · rwa [heq, State.receive, waiting_delay, waiting_asyncStart]
  | @runWait e i error hwait =>
    have htaken := waiting_dequeueWait hwait
    have he := h e
    cases error with
    | some err =>
      by_cases hde : d = e
      · subst hde
        show (s.dequeueWait d i).waiting d ≤ 1
        omega
      · exact (waiting_dequeueWait_of_ne s hde i).trans_le (h d)
    | none =>
      by_cases hde : d = e
      · subst hde
        refine (waiting_startWatchdog_le _ _).trans ?_
        omega
      · refine (waiting_startWatchdog_of_ne _ hde).trans_le ?_
        exact (waiting_dequeueWait_of_ne s hde i).trans_le (h d)

theorem waiting_of_reach (h : (system clock timeout).Reachable s) (d : Side) :
    s.waiting d ≤ 1 := by
  refine h.invariant (I := fun s => ∀ d, s.waiting d ≤ 1) (fun s h0 => ?_)
    (fun _ _ _ hr hw _ hs => waiting_next (watched_of_reach hr) hw hs) d
  obtain ⟨buffer, rfl⟩ := h0
  exact fun _ => Nat.zero_le 1

end CcSnippets.Asio.Proxy

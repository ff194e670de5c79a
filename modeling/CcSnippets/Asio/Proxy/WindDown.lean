import CcSnippets.Core.Termination
import CcSnippets.Asio.WindDown
import CcSnippets.Asio.Proxy.Close
import CcSnippets.Asio.Proxy.Waits

/-!
# CcSnippets.Asio.Proxy.WindDown

A stopped session **winds down**.

`stop` leaves completions that are queued as successes. An I/O handler that runs for
one starts an operation on a closed socket and moves the deadline of its watchdog; the
handler of a wait may find that deadline not passed and wait again. Each of these
makes the other at most a little longer: `State.left` bounds the steps that are left
in both directions, and every completion and every handler lowers it.
-/

namespace CcSnippets.Asio.Proxy

open CcSnippets.Core

variable {clock : Clock ℤ} {timeout : ℤ} {s s' : State}

/-! ### What is left to do -/

/-- How many steps an operation on a closed socket is good for: it fails and its handler
runs. A write may also succeed, if it was through before. -/
def Operation.left : Operation → ℕ
  | .receive _ _ => 2
  | .write _ _ _ _ => 6

/-- How many steps a completion is good for. The handler of a success starts an
operation, and it moves the deadline, which makes the watchdog wait once more. -/
def Completion.left : Completion → ℕ
  | .receive (some _) _ | .write (some _) _ => 1
  | .write none _ => 5
  | .receive none _ => 9

theorem Completion.left_pos (c : Completion) : 1 ≤ c.left := by
  cases c with
  | receive error n | write error n => cases error <;> simp [Completion.left]

namespace State

/-- How many steps are left in one direction of a stopped session. -/
def leftOf (clock : Clock ℤ) (s : State) (d : Side) : ℕ :=
  ((s.outstanding d).map Operation.left).sum + ((s.completed d).map Completion.left).sum +
    (s.watchdog d).left (clock.read s.instant) (s.waits d)

/-- How many steps are left in a stopped session. -/
def left (clock : Clock ℤ) (s : State) : ℕ := s.leftOf clock .client + s.leftOf clock .server

end State

/-- A step that takes `n` in one direction, and adds nothing in the other. -/
theorem left_add_le (d : Side) {n : ℕ} (hd : s'.leftOf clock d + n ≤ s.leftOf clock d)
    (hothers : ∀ e, e ≠ d → s'.leftOf clock e ≤ s.leftOf clock e) :
    s'.left clock + n ≤ s.left clock := by
  simp only [State.left]
  cases d with
  | client =>
    have hserver := hothers .server (by decide)
    omega
  | server =>
    have hclient := hothers .client (by decide)
    omega

section

variable (clock : Clock ℤ) (timeout : ℤ) (s : State) (d : Side)

theorem leftOf_stop (h : s.waiting d ≤ 1) : s.stop.leftOf clock d ≤ s.leftOf clock d :=
  Nat.add_le_add_left (Watchdog.left_stop h) _

/-- An operation is started and the deadline moved. -/
theorem leftOf_start (h : s.waiting d ≤ 1) (op : Operation) :
    ((s.asyncStart clock d op).delay clock timeout d).leftOf clock d ≤
      s.leftOf clock d + op.left + 2 := by
  have hlater := Watchdog.left_later h
    (clock.mono (show s.instant ≤ s.instant + 1 + 1 by omega))
  have hdelay := Watchdog.left_delay (clock.read (s.instant + 1 + 1)) h (clock.read (s.instant + 1))
    timeout
  simp only [State.leftOf, State.delay, State.asyncStart, Function.update_self, List.map_append,
    List.sum_append, List.map_cons, List.map_nil, List.sum_cons, List.sum_nil]
  omega

theorem leftOf_start_of_ne {e : Side} (hde : d ≠ e) (h : s.waiting d ≤ 1) (op : Operation) :
    ((s.asyncStart clock e op).delay clock timeout e).leftOf clock d ≤ s.leftOf clock d := by
  have hlater := Watchdog.left_later h
    (clock.mono (show s.instant ≤ s.instant + 1 + 1 by omega))
  simp only [State.leftOf, State.delay, State.asyncStart, Function.update_of_ne hde]
  omega

theorem leftOf_complete {i : ℕ} {op : Operation} (hop : (s.outstanding d)[i]? = some op)
    {c : Completion} (hc : c.left + 1 ≤ op.left) :
    (s.complete d i c).leftOf clock d + 1 ≤ s.leftOf clock d := by
  have hsum := sum_eraseIdx Operation.left hop
  simp only [State.leftOf, State.complete, Function.update_self, List.map_append, List.sum_append,
    List.map_cons, List.map_nil, List.sum_cons, List.sum_nil]
  omega

theorem leftOf_complete_of_ne {e : Side} (hde : d ≠ e) (i : ℕ) (c : Completion) :
    (s.complete e i c).leftOf clock d = s.leftOf clock d := by
  simp only [State.leftOf, State.complete, Function.update_of_ne hde]

@[simp] theorem leftOf_fails (socket : Side) (e : Event) :
    (s.fails socket e).leftOf clock d = s.leftOf clock d := by
  rw [fails_eq]
  rfl

theorem leftOf_dequeue {i : ℕ} {c : Completion} (hc : (s.completed d)[i]? = some c) :
    (s.dequeue d i).leftOf clock d + c.left = s.leftOf clock d := by
  have hsum := sum_eraseIdx Completion.left hc
  simp only [State.leftOf, State.dequeue, Function.update_self]
  omega

theorem leftOf_dequeue_of_ne {e : Side} (hde : d ≠ e) (i : ℕ) :
    (s.dequeue e i).leftOf clock d = s.leftOf clock d := by
  simp only [State.leftOf, State.dequeue, Function.update_of_ne hde]

theorem leftOf_startWatchdog_of_ne {e : Side} (hde : d ≠ e) (h : s.waiting d ≤ 1) :
    (s.startWatchdog clock e).leftOf clock d ≤ s.leftOf clock d := by
  have hlater := Watchdog.left_later h (clock.mono (show s.instant ≤ s.instant + 1 by omega))
  simp only [State.startWatchdog]
  split
  · refine Nat.le_trans (leftOf_stop clock _ d h) ?_
    simp only [State.leftOf]
    omega
  · simp only [State.leftOf, Function.update_of_ne hde]
    omega

/-- The handler of an aborted wait does nothing. -/
theorem leftOf_dequeueWait {i : ℕ} {e : Error} (hwait : (s.waits d)[i]? = some (some e)) :
    (s.dequeueWait d i).leftOf clock d + 1 = s.leftOf clock d := by
  have hsum := sum_eraseIdx
    (Watchdog.waitLeft (decide ((s.watchdog d).deadline ≤ clock.read s.instant))) hwait
  have htaken : (s.dequeueWait d i).leftOf clock d = ((s.outstanding d).map Operation.left).sum +
      ((s.completed d).map Completion.left).sum +
      (s.watchdog d).left (clock.read s.instant) ((s.waits d).eraseIdx i) := by
    simp only [State.leftOf, State.dequeueWait, Function.update_self]
  rw [htaken, State.leftOf]
  simp only [Watchdog.left, Watchdog.waitLeft] at hsum ⊢
  omega

theorem leftOf_dequeueWait_of_ne {e : Side} (hde : d ≠ e) (i : ℕ) :
    (s.dequeueWait e i).leftOf clock d = s.leftOf clock d := by
  simp only [State.leftOf, State.dequeueWait, Function.update_of_ne hde]

/-- The handler of a wait that completed without an error. -/
theorem leftOf_startWatchdog {i : ℕ} (h : s.waiting d ≤ 1) (hwait : (s.waits d)[i]? = some none) :
    ((s.dequeueWait d i).startWatchdog clock d).leftOf clock d + 1 ≤ s.leftOf clock d := by
  obtain ⟨hw, hwaits, hnil⟩ : (s.watchdog d).timer.waits = 0 ∧ s.waits d = [none] ∧
      (s.waits d).eraseIdx i = [] := by
    rcases Watchdog.wait_cases h with ⟨-, hnone⟩ | ⟨-, hnone⟩ | ⟨e, hw, hone⟩
    · rw [hnone] at hwait
      cases hwait
    · rw [hnone] at hwait
      cases hwait
    · rw [hone] at hwait
      obtain ⟨rfl, rfl⟩ := eq_of_getElem?_singleton hwait
      rw [hone]
      exact ⟨hw, rfl, rfl⟩
  have hleft : s.leftOf clock d = ((s.outstanding d).map Operation.left).sum +
      ((s.completed d).map Completion.left).sum +
      (s.watchdog d).left (clock.read s.instant) [none] := by rw [State.leftOf, hwaits]
  simp only [State.startWatchdog]
  split
  · refine Nat.le_trans (Nat.succ_le_succ (leftOf_stop clock _ d ?_)) ?_
    · simp [State.waiting, State.dequeueWait, hnil, hw]
    · have hwoken : 1 ≤ (s.watchdog d).left (clock.read s.instant) [none] := by
        rw [Watchdog.left_woken hw]
        split <;> omega
      rw [hleft]
      simp only [State.leftOf, State.dequeueWait, Function.update_self, hnil,
        Watchdog.left_nil hw]
      omega
  · rename_i watchdog aborted hsome
    have hsome' : (s.watchdog d).start (clock.read s.instant) = some (watchdog, aborted) := hsome
    have hstart := Watchdog.left_start (clock.read (s.instant + 1)) hw hsome'
    rw [hleft]
    simp only [State.leftOf, State.dequeueWait, Function.update_self, hnil, List.nil_append]
    omega

/-- The handler of a completion, which is out of the queue. -/
theorem leftOf_handle (h : ∀ e, s.waiting e ≤ 1) (c : Completion) :
    (s.handle clock timeout d c).leftOf clock d + 1 ≤ s.leftOf clock d + c.left ∧
      ∀ e, e ≠ d → (s.handle clock timeout d c).leftOf clock e ≤ s.leftOf clock e := by
  rcases handle_cases s d c with ⟨-, heq⟩ | ⟨n, rfl, heq⟩ | ⟨n, rfl, heq⟩
  · have hstop := leftOf_stop clock s d (h d)
    have hpos := c.left_pos
    rw [heq]
    exact ⟨by omega, fun e _ => leftOf_stop clock s e (h e)⟩
  · have hstart := leftOf_start clock timeout s d (h d)
      (.write d.other d (min n bufferSize) 0)
    rw [heq]
    exact ⟨Nat.succ_le_succ hstart, fun e hed => leftOf_start_of_ne clock timeout s e hed (h e) _⟩
  · have hstart := leftOf_start clock timeout s d (h d) (.receive d d)
    rw [heq]
    exact ⟨Nat.succ_le_succ hstart, fun e hed => leftOf_start_of_ne clock timeout s e hed (h e) _⟩

end

/-- Time passing is no work. -/
def Label.works : Label → Bool
  | .elapse => false
  | _ => true

/-- A session that has stopped, after some run. -/
def Stopped (clock : Clock ℤ) (timeout : ℤ) (s : State) : Prop :=
  (system clock timeout).Reachable s ∧ s.stopped = true

namespace Stopped

theorem not_isOpen (h : Stopped clock timeout s) (x : Side) : s.isOpen x = false := by
  rw [(closes_of_reach h.1).isOpen, h.2, Bool.not_true]

theorem handled (h : Stopped clock timeout s) : s.connect = .handled := by
  by_contra hnot
  have hopen := ((watched_of_reach h.1).before hnot).1
  rw [h.2] at hopen
  cases hopen

theorem waiting (h : Stopped clock timeout s) (d : Side) : s.waiting d ≤ 1 :=
  waiting_of_reach h.1 d

/-- **Every step of a stopped session leaves less to do.** -/
theorem left_next (h : Stopped clock timeout s) {l : Label}
    (hs : s.next clock timeout l = some s') : s'.left clock + l.works.toNat ≤ s.left clock := by
  have hlater : ∀ d, (s.watchdog d).left (clock.read (s.instant + 1)) (s.waits d) ≤
      (s.watchdog d).left (clock.read s.instant) (s.waits d) := fun d =>
    Watchdog.left_later (h.waiting d) (clock.mono (Nat.le_succ s.instant))
  cases next_step hs with
  | elapse =>
    exact left_add_le .client (Nat.add_le_add_left (hlater .client) _)
      fun e _ => Nat.add_le_add_left (hlater e) _
  | connectDone hconnect | runConnect hconnect =>
    rw [h.handled] at hconnect
    cases hconnect
  | receiveDone _ hopen | writeSome _ hopen _ _ =>
    rw [h.not_isOpen] at hopen
    cases hopen
  | @receiveFails d socket buffer i error hop =>
    refine left_add_le d ?_ fun e hed => ?_
    · rw [leftOf_fails]
      exact leftOf_complete clock s d hop (Nat.le_refl 2)
    · rw [leftOf_fails, leftOf_complete_of_ne clock s e hed]
  | @writeDone d socket buffer i bytes hop =>
    exact left_add_le d (leftOf_complete clock s d hop (Nat.le_refl 6)) fun e hed =>
      (leftOf_complete_of_ne clock s e hed _ _).le
  | @writeFails d socket buffer i bytes done error hop =>
    refine left_add_le d ?_ fun e hed => ?_
    · rw [leftOf_fails]
      exact leftOf_complete clock s d hop (by decide : 2 ≤ 6)
    · rw [leftOf_fails, leftOf_complete_of_ne clock s e hed]
  | @waitDone d timer htimer =>
    refine left_add_le d ?_ fun e hed => ?_
    · have hwoken := Watchdog.left_complete (h.waiting d) htimer
      simp only [State.leftOf, Function.update_self, Label.works, Bool.toNat_true]
      omega
    · simp only [State.leftOf, Function.update_of_ne hed, le_refl]
  | @runIo d i c hc =>
    have htaken := leftOf_dequeue clock s d hc
    have hwaiting : ∀ e, (s.dequeue d i).waiting e ≤ 1 := h.waiting
    have hothers : ∀ e, e ≠ d → (s.dequeue d i).leftOf clock e = s.leftOf clock e := fun e hed =>
      leftOf_dequeue_of_ne clock s e hed i
    obtain ⟨hself, hrest⟩ := leftOf_handle clock timeout (s.dequeue d i) d hwaiting c
    refine left_add_le d ?_ fun e hed => ?_
    · simp only [Label.works, Bool.toNat_true]
      omega
    · rw [← hothers e hed]
      exact hrest e hed
  | @runWait d i error hwait =>
    have hothers : ∀ e, e ≠ d → (s.dequeueWait d i).leftOf clock e = s.leftOf clock e :=
      fun e hed => leftOf_dequeueWait_of_ne clock s e hed i
    cases error with
    | some err =>
      exact left_add_le d (leftOf_dequeueWait clock s d hwait).le fun e hed => (hothers e hed).le
    | none =>
      refine left_add_le d (leftOf_startWatchdog clock s d (h.waiting d) hwait) fun e hed => ?_
      have hwaiting : (s.dequeueWait d i).waiting e ≤ 1 :=
        (waiting_dequeueWait_of_ne s hed i).trans_le (h.waiting e)
      rw [← hothers e hed]
      exact leftOf_startWatchdog_of_ne clock _ e hed hwaiting

/-- A stopped session moves no bytes. -/
theorem still_next (h : Stopped clock timeout s) {l : Label}
    (hs : s.next clock timeout l = some s') :
    s'.received = s.received ∧ s'.written = s.written := by
  have hstart (s : State) (d : Side) : (s.startWatchdog clock d).received = s.received ∧
      (s.startWatchdog clock d).written = s.written := by
    simp only [State.startWatchdog]
    split <;> exact ⟨rfl, rfl⟩
  cases next_step hs with
  | elapse | writeDone _ | waitDone _ => exact ⟨rfl, rfl⟩
  | connectDone hconnect | runConnect hconnect =>
    rw [h.handled] at hconnect
    cases hconnect
  | receiveDone _ hopen | writeSome _ hopen _ _ =>
    rw [h.not_isOpen] at hopen
    cases hopen
  | receiveFails _ | writeFails _ =>
    rw [fails_eq]
    exact ⟨rfl, rfl⟩
  | @runIo d i c _ =>
    rcases handle_cases (s.dequeue d i) d c with ⟨-, heq⟩ | ⟨n, -, heq⟩ | ⟨n, -, heq⟩ <;>
      rw [heq] <;> exact ⟨rfl, rfl⟩
  | @runWait d i error _ =>
    cases error with
    | some e => exact ⟨rfl, rfl⟩
    | none => exact hstart (s.dequeueWait d i) d

theorem next (h : Stopped clock timeout s) {l : Label} (hs : s.next clock timeout l = some s') :
    Stopped clock timeout s' := ⟨.step h.1 trivial hs, stopped_next h.2 hs⟩

/-- At most one operation or completion, and at most one wait. -/
theorem left_le (h : Stopped clock timeout s) : s.left clock ≤ 26 := by
  have hof : ∀ d, s.leftOf clock d ≤ 13 := by
    intro d
    have hwatch : (s.watchdog d).left (clock.read s.instant) (s.waits d) ≤ 4 :=
      Watchdog.left_le (h.waiting d)
    have hlane : ((s.outstanding d).map Operation.left).sum +
        ((s.completed d).map Completion.left).sum ≤ 9 := by
      cases (relays_of_reach h.1).lanes d with
      | quiet hout hdone _ =>
        rw [show s.outstanding d = [] from hout, show s.completed d = [] from hdone]
        simp
      | @busy op hout hdone _ =>
        rw [show s.outstanding d = [op] from hout, show s.completed d = [] from hdone]
        cases op <;> simp [Operation.left]
      | @queued c hout hdone _ =>
        rw [show s.outstanding d = [] from hout, show s.completed d = [c] from hdone]
        cases c with
        | receive error n | write error n => cases error <;> simp [Completion.left]
    simp only [State.leftOf]
    omega
  have hclient := hof .client
  have hserver := hof .server
  simp only [State.left]
  omega

end Stopped

/-- What is left to do is a variant of a stopped session. -/
theorem variant_left (clock : Clock ℤ) (timeout : ℤ) :
    (system clock timeout).Variant (Stopped clock timeout) Label.works (State.left clock) where
  keeps h hs := h.next hs
  lowers h hs := h.left_next hs

/-! ### The end of a session -/

/-- How many operations, completions and waits hold a pointer to the session. -/
def State.refs (s : State) : ℕ :=
  (if s.connect = .handled then 0 else 1) +
    (s.outstanding .client).length + (s.completed .client).length + s.waiting .client +
    (s.outstanding .server).length + (s.completed .server).length + s.waiting .server

/-- Time passes. -/
theorem run_elapse (s : State) (n : ℕ) :
    (system clock timeout).run s (List.replicate n .elapse) =
      some { s with instant := s.instant + n } :=
  System.run_replicate (fun n => { s with instant := s.instant + n }) (fun _ => rfl) n

/-- What is received in a step. -/
def Label.chunk : Label → Option Chunk
  | .receiveDone _ _ chunk => some chunk
  | _ => none

/-- An operation, a completion or a wait can go on without a receive, when enough time has
passed: where a receive could deliver something, it can fail as well. -/
theorem exists_works (hclock : ∀ t, ∃ n, t ≤ clock.read n) {d : Side}
    (h : 0 < (s.outstanding d).length + (s.completed d).length + s.waiting d) :
    ∃ n l s', l.works = true ∧ l.chunk = none ∧
      (system clock timeout).run s (List.replicate n .elapse ++ [l]) = some s' := by
  have hnow : ∀ l s', l.works = true → l.chunk = none → s.next clock timeout l = some s' →
      ∃ n l s', l.works = true ∧ l.chunk = none ∧
        (system clock timeout).run s (List.replicate n .elapse ++ [l]) = some s' :=
    fun l s' hl hchunk hs => exists_works_after 0 l rfl hs hl hchunk
  cases hout : s.outstanding d with
  | cons op rest =>
    cases op with
    | receive socket buffer =>
      exact hnow (.receiveFails d 0 .aborted) _ rfl rfl (by simp only [State.next, hout]; rfl)
    | write socket buffer bytes done =>
      exact hnow (.writeFails d 0 .aborted) _ rfl rfl (by simp only [State.next, hout]; rfl)
  | nil =>
    cases hdone : s.completed d with
    | cons c rest => exact hnow (.runIo d 0) _ rfl rfl (by simp only [State.next, hdone]; rfl)
    | nil =>
      cases hwaits : s.waits d with
      | cons e rest =>
        exact hnow (.runWait d 0) _ rfl rfl (by simp only [State.next, hwaits]; rfl)
      | nil =>
        -- the wait is pending, until its expiry has passed
        have hpos : 0 < (s.watchdog d).timer.waits := by
          simpa [hout, hdone, hwaits, State.waiting] using h
        obtain ⟨n, hn⟩ := hclock (s.watchdog d).timer.expiry
        have hdue : (s.watchdog d).timer.expiry ≤ clock.read (s.instant + n) :=
          hn.trans (clock.mono (Nat.le_add_left n s.instant))
        obtain ⟨s', hs'⟩ : ∃ s', State.next clock timeout { s with instant := s.instant + n }
            (.waitDone d) = some s' := by
          simp only [State.next, Timer.complete, if_pos (And.intro hdue hpos)]
          exact ⟨_, rfl⟩
        exact exists_works_after n (.waitDone d) (run_elapse s n) hs' rfl rfl

/-- Once the connect has been handled, one of the directions can go on. -/
theorem exists_works_of_handled (hclock : ∀ t, ∃ n, t ≤ clock.read n)
    (hconnect : s.connect = .handled) (h : s.refs ≠ 0) :
    ∃ n l s', l.works = true ∧ l.chunk = none ∧
      (system clock timeout).run s (List.replicate n .elapse ++ [l]) = some s' := by
  by_cases hclient : 0 < (s.outstanding .client).length + (s.completed .client).length +
      s.waiting .client
  · exact exists_works hclock hclient
  · refine exists_works hclock (d := .server) ?_
    simp only [State.refs, hconnect, if_true] at h
    omega

/-- What it means that a session winds down from `s` on. -/
structure WindsDown (clock : Clock ℤ) (timeout : ℤ) (s : State) : Prop where
  /-- No more than these completions and handlers are to come. -/
  few : ∀ ls t, (system clock timeout).run s ls = some t → ls.countP Label.works ≤ 26
  /-- The sockets stay closed, and no byte is read or written. -/
  still : ∀ ls t, (system clock timeout).run s ls = some t →
    (∀ x, t.isOpen x = false) ∧ t.received = s.received ∧ t.written = s.written
  /-- Another `stop` aborts the waits that are pending, and does nothing else. -/
  harmless : ∀ ls t, (system clock timeout).run s ls = some t →
    t.stop = { t with watchdog := t.stop.watchdog, waits := t.stop.waits } ∧
      ∀ d, (t.stop.watchdog d).deadline = (t.watchdog d).deadline ∧
        t.waits d <+: t.stop.waits d ∧ t.stop.waiting d = t.waiting d
  /-- Where the session is referred to there is more to come, once time has passed. -/
  goesOn : (∀ t, ∃ n, t ≤ clock.read n) → ∀ ls t, (system clock timeout).run s ls = some t →
    t.refs ≠ 0 → ∃ n l t', l.works = true ∧
      (system clock timeout).run t (List.replicate n .elapse ++ [l]) = some t'
  /-- If more comes wherever it can, then nothing refers to the session in the end. -/
  released : ∀ e : (system clock timeout).Execution s,
    (∀ n, (e.state n).refs ≠ 0 → ∃ m, n ≤ m ∧ (e.label m).works = true) →
    ∃ n, (e.state n).refs = 0

/-- **A stopped session winds down**, whichever handler stopped it. -/
theorem winds_down (h : (system clock timeout).Reachable s) (hstopped : s.stopped = true) :
    WindsDown clock timeout s := by
  have hs : Stopped clock timeout s := ⟨h, hstopped⟩
  have hrun : ∀ ls t, (system clock timeout).run s ls = some t → Stopped clock timeout t ∧
      t.received = s.received ∧ t.written = s.written := by
    intro ls t ht
    refine System.run_invariant (I := fun t => Stopped clock timeout t ∧
      t.received = s.received ∧ t.written = s.written) (fun t l t' hI ht' => ?_) ⟨hs, rfl, rfl⟩ ht
    obtain ⟨hstill, hreceived, hwritten⟩ := hI
    obtain ⟨hreceived', hwritten'⟩ := hstill.still_next ht'
    exact ⟨hstill.next ht', hreceived'.trans hreceived, hwritten'.trans hwritten⟩
  refine ⟨fun ls t ht => ?_, fun ls t ht => ?_, fun ls t ht => ?_, fun hclock ls t ht hrefs => ?_,
    fun e hfair => ?_⟩
  · have hcount := (variant_left clock timeout).count_le hs ht
    have hle := hs.left_le
    omega
  · obtain ⟨hstill, hmoved⟩ := hrun ls t ht
    exact ⟨hstill.not_isOpen, hmoved⟩
  · obtain ⟨hstill, -⟩ := hrun ls t ht
    refine ⟨?_, fun d => ⟨rfl, List.prefix_append _ _, waiting_stop t d⟩⟩
    have hclosed : t.isOpen = fun _ => false := funext hstill.not_isOpen
    simp only [State.stop, hclosed, ← hstill.2]
  · obtain ⟨hstill, -⟩ := hrun ls t ht
    obtain ⟨n, l, t', hl, -, hnext⟩ := exists_works_of_handled hclock hstill.handled hrefs
    exact ⟨n, l, t', hl, hnext⟩
  · exact (variant_left clock timeout).exists_done (fun t => t.refs = 0) hs e hfair

/-- The client ends its stream: a receive and two aborted waits are left. -/
theorem winds_down_eof :
    ∃ s, (system ticking 5).run (.start fun _ => .zero)
        [.connectDone none, .runConnect, .receiveFails .client 0 .eof, .runIo .client 0] = some s ∧
      s.refs = 3 ∧ WindsDown ticking 5 s := by
  obtain ⟨s, hrun, hstopped, hrefs⟩ : ∃ s, (system ticking 5).run (.start fun _ => .zero)
      [.connectDone none, .runConnect, .receiveFails .client 0 .eof, .runIo .client 0] = some s ∧
      s.stopped = true ∧ s.refs = 3 := ⟨_, rfl, rfl, rfl⟩
  exact ⟨s, hrun, hrefs, winds_down (System.Reach.run (.init ⟨_, rfl⟩) hrun) hstopped⟩

end CcSnippets.Asio.Proxy

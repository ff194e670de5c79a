import CcSnippets.Asio.Waits
import CcSnippets.Asio.WindDown
import CcSnippets.Asio.Echo.Steps

/-!
# CcSnippets.Asio.Echo.WindDown

The sessions of `asio/echo/server.cc` **wind down**, in either loop (`windsDown_system`).

`State.left` bounds the steps that are left in a session that receives no more: an operation
completes, its handler starts the next one and with it a wait, or moves the deadline of the
watchdog, which is then made to wait once more.
-/

namespace CcSnippets.Asio.Echo

open CcSnippets.Core

/-! ### What is left to do -/

/-- How many steps an operation is good for: it completes and its handler runs, and each byte of
a write may get through by itself. -/
def Operation.left : Operation → ℕ
  | .receive => 2
  | .write bytes done => 6 + (bytes - done)

/-- How many steps a completion is good for. The handler of a success starts an operation, and
the timer for it. -/
def Completion.left : Completion → ℕ
  | .receive none n => 9 + n
  | .write none _ => 5
  | .receive (some _) _ | .write (some _) _ => 1
  | .wait _ => 0

/-- The completed wait. -/
def Completion.ended : Completion → Option (Option Error)
  | .wait error => some error
  | _ => none

namespace State

/-- The completed waits. -/
def waits (s : State) : List (Option Error) := s.queue.filterMap Completion.ended

/-- How many steps the waits are good for. -/
def waitsLeft (clock : Clock ℤ) (s : State) : ℕ :=
  s.watchdog.leftIn s.withTimeout (clock.read s.instant) s.waits

/-- How many steps are left in a session that receives no more. -/
def left (clock : Clock ℤ) (s : State) : ℕ :=
  (s.outstanding.map fun op => op.1.left).sum + (s.queue.map Completion.left).sum +
    s.waitsLeft clock

/-- With a watchdog there is one wait at most. -/
def FewWaits (s : State) : Prop := s.watchdog.Few s.withTimeout s.waits

end State

variable {clock : Clock ℤ} {timeout : ℤ} {s s' : State}

theorem ended_aborted (n : ℕ) :
    (List.replicate n (Completion.wait (some .aborted))).filterMap Completion.ended =
      List.replicate n (some .aborted) :=
  List.filterMap_replicate_of_some rfl

theorem left_aborted (n : ℕ) :
    ((List.replicate n (Completion.wait (some .aborted))).map Completion.left).sum = 0 := by
  simp [Completion.left]

/-- What is done to the timer alone: waits may be aborted, and what is left grows by `n`. -/
structure Timed (clock : Clock ℤ) (s s' : State) (n : ℕ) : Prop where
  withTimeout : s'.withTimeout = s.withTimeout
  outstanding : s'.outstanding = s.outstanding
  queue : (s'.queue.map Completion.left).sum = (s.queue.map Completion.left).sum
  waits : s'.waitsLeft clock ≤ s.waitsLeft clock + n
  few : s'.FewWaits

theorem Timed.left_le {n : ℕ} (h : Timed clock s s' n) : s'.left clock ≤ s.left clock + n := by
  have hwaits := h.waits
  rw [State.left, State.left, h.outstanding, h.queue]
  omega

variable (clock) in
theorem timed_cancelTimer (h : s.FewWaits) : Timed clock s s.cancelTimer 0 := by
  have hwaits : s.cancelTimer.waits =
      s.waits ++ List.replicate s.watchdog.stop.2 (some .aborted) := by
    simp only [State.waits, State.cancelTimer, List.filterMap_append, ended_aborted]
  refine ⟨rfl, rfl, ?_, ?_, ?_⟩
  · simp only [State.cancelTimer, List.map_append, List.sum_append, left_aborted, Nat.add_zero]
  · rw [State.waitsLeft, hwaits]
    exact Watchdog.leftIn_stop _ h
  · rw [State.FewWaits, hwaits]
    exact Watchdog.Few.stop h

variable (clock) in
theorem timed_stop (h : s.FewWaits) : Timed clock s s.stop 0 := by
  obtain ⟨hmode, hout, hqueue, hwaits, hfew⟩ := timed_cancelTimer clock h
  exact ⟨hmode, hout, hqueue, hwaits, hfew⟩

variable (clock timeout) in
theorem timed_delay (h : s.FewWaits) : Timed clock s (s.delay clock timeout) 2 := by
  refine ⟨rfl, rfl, rfl, ?_, h⟩
  have hlater := Watchdog.leftIn_later h (clock.mono (Nat.le_succ s.instant))
  have hdelay := Watchdog.leftIn_delay (clock.read (s.instant + 1)) h
    (clock.read s.instant) timeout
  simp only [State.waitsLeft, State.delay]
  exact hdelay.trans (Nat.add_le_add_right hlater 2)

variable (clock timeout) in
theorem timed_startTimeout (hmode : s.withTimeout = true) :
    Timed clock s (s.startTimeout clock timeout) 2 := by
  refine ⟨rfl, rfl, ?_, ?_, fun hnot => ?_⟩
  · simp only [State.startTimeout, List.map_append, List.sum_append, left_aborted, Nat.add_zero]
  · simp only [State.waitsLeft, State.waits, State.startTimeout, List.filterMap_append,
      ended_aborted, hmode]
    exact Watchdog.leftIn_timeout _ _
  · exact absurd (hmode.symm.trans hnot) (by decide)

variable (clock) in
/-- An operation is started. -/
theorem left_asyncStart (h : s.FewWaits) (op : Operation) :
    (s.asyncStart clock op).left clock ≤ s.left clock + op.left ∧
      (s.asyncStart clock op).FewWaits := by
  have hlater := Watchdog.leftIn_later h (clock.mono (show s.instant ≤ s.instant + 1 by omega))
  refine ⟨?_, h⟩
  simp only [State.left, State.waitsLeft, State.waits, State.asyncStart, List.map_append,
    List.sum_append, List.map_cons, List.map_nil, List.sum_cons, List.sum_nil] at hlater ⊢
  omega

variable (clock) in
/-- The watchdog is started without a wait: its deadline has passed, or it waits. -/
theorem timed_startWatchdog (hmode : s.withTimeout = false) (hwaits : s.waits = [])
    (htimer : s.watchdog.timer.waits = 0) :
    ∃ n, Timed clock s (s.startWatchdog clock) n ∧
      n + 1 ≤ Watchdog.waitLeft (decide (s.watchdog.deadline ≤ clock.read s.instant)) none := by
  have hfew : s.FewWaits := by
    intro _
    simp [hwaits, htimer]
  simp only [State.startWatchdog]
  split
  · -- the session stops
    refine ⟨0, ?_, by simp only [Watchdog.waitLeft]; split <;> omega⟩
    obtain ⟨hmode', hout, hqueue, hleft, hfew'⟩ := timed_stop clock
      (s := { s with
        instant := s.instant + 1, log := s.log ++ [.expired (clock.read s.instant)] }) hfew
    refine ⟨hmode', hout, hqueue, hleft.trans ?_, hfew'⟩
    exact Watchdog.leftIn_later hfew (clock.mono (Nat.le_succ s.instant))
  · rename_i watchdog aborted hsome
    obtain ⟨htwo, hone, hthree⟩ := Watchdog.leftIn_start (clock.read (s.instant + 1)) htimer hsome
    refine ⟨2, ⟨rfl, rfl, ?_, ?_, ?_⟩, by rw [hthree]⟩
    · simp only [List.map_append, List.sum_append, left_aborted, Nat.add_zero]
    · simp only [State.waitsLeft, State.waits, List.filterMap_append, ended_aborted, hmode]
      rw [show s.queue.filterMap Completion.ended = [] from hwaits, List.nil_append, htwo]
      exact Nat.le_add_left 2 _
    · simp only [State.FewWaits, State.waits, List.filterMap_append, ended_aborted, hmode]
      rw [show s.queue.filterMap Completion.ended = [] from hwaits, List.nil_append]
      exact hone

variable (clock timeout) in
/-- The handler of an I/O completion, which is out of the queue. -/
theorem left_handle (h : s.FewWaits) {c : Completion} (hc : c.ended = none) :
    (s.handle clock timeout c).left clock + 1 ≤ s.left clock + c.left ∧
      (s.handle clock timeout c).FewWaits := by
  have hstops : ∀ m : State, m.FewWaits → m.left clock ≤ s.left clock → 1 ≤ c.left →
      m.stop.left clock + 1 ≤ s.left clock + c.left ∧ m.stop.FewWaits := by
    intro m hm hle hpos
    have hstop := timed_stop clock hm
    have hleft := hstop.left_le
    exact ⟨by omega, hstop.few⟩
  have hcancel := timed_cancelTimer clock h
  have hcancelled := hcancel.left_le
  cases hmode : s.withTimeout with
  | true =>
    have hstarts : ∀ op : Operation, op.left + 3 ≤ c.left →
        ((s.cancelTimer.asyncStart clock op).startTimeout clock timeout).left clock + 1 ≤
            s.left clock + c.left ∧
          ((s.cancelTimer.asyncStart clock op).startTimeout clock timeout).FewWaits := by
      intro op hop
      obtain ⟨hstart, -⟩ := left_asyncStart clock hcancel.few op
      have htimed := timed_startTimeout clock timeout
        (s := s.cancelTimer.asyncStart clock op) hmode
      have hleft := htimed.left_le
      exact ⟨by omega, htimed.few⟩
    rw [State.handle, hmode, if_pos rfl]
    cases c with
    | receive error n =>
      cases error with
      | none => exact hstarts _ (by simp only [Operation.left, Completion.left]; omega)
      | some e => exact hstops _ hcancel.few hcancelled (Nat.le_refl 1)
    | write error n =>
      cases error with
      | none => exact hstarts _ (Nat.le_refl 5)
      | some e => exact hstops _ hcancel.few hcancelled (Nat.le_refl 1)
    | wait error => cases hc
  | false =>
    have hstarts : ∀ op : Operation, op.left + 3 ≤ c.left →
        ((s.asyncStart clock op).delay clock timeout).left clock + 1 ≤ s.left clock + c.left ∧
          ((s.asyncStart clock op).delay clock timeout).FewWaits := by
      intro op hop
      obtain ⟨hstart, hfew⟩ := left_asyncStart clock h op
      have htimed := timed_delay clock timeout hfew
      have hleft := htimed.left_le
      exact ⟨by omega, htimed.few⟩
    rw [State.handle, hmode, if_neg Bool.false_ne_true]
    cases c with
    | receive error n =>
      cases error with
      | none => exact hstarts _ (by simp only [Operation.left, Completion.left]; omega)
      | some e => exact hstops s h (Nat.le_refl _) (Nat.le_refl 1)
    | write error n =>
      cases error with
      | none => exact hstarts _ (Nat.le_refl 5)
      | some e => exact hstops s h (Nat.le_refl _) (Nat.le_refl 1)
    | wait error => cases hc

variable (clock) in
/-- An I/O completion is taken out of the queue. What it is good for is gone. -/
theorem left_dequeue (h : s.FewWaits) {i : ℕ} {c : Completion} (hc : s.queue[i]? = some c)
    (hio : c.ended = none) :
    (s.dequeue i).left clock + c.left = s.left clock ∧ (s.dequeue i).FewWaits := by
  have hsum := sum_eraseIdx Completion.left hc
  have hsame : (s.dequeue i).waits = s.waits := filterMap_eraseIdx hc hio
  refine ⟨?_, ?_⟩
  · have hwaits : (s.dequeue i).waitsLeft clock = s.waitsLeft clock := by
      rw [State.waitsLeft, hsame]
      rfl
    rw [State.left, hwaits, State.left]
    simp only [State.dequeue]
    omega
  · rw [State.FewWaits, hsame]
    exact h

variable (clock timeout) in
/-- A wait is taken out of the queue and its handler runs. -/
theorem left_handle_wait (h : s.FewWaits) {i : ℕ} {error : Option Error}
    (hc : s.queue[i]? = some (.wait error)) :
    ((s.dequeue i).handle clock timeout (.wait error)).left clock + 1 ≤ s.left clock ∧
      ((s.dequeue i).handle clock timeout (.wait error)).FewWaits := by
  obtain ⟨before, after, hold, htaken⟩ :=
    exists_filterMap_eraseIdx (f := Completion.ended) hc rfl
  have hsum := sum_eraseIdx Completion.left hc
  have hfew : (s.dequeue i).FewWaits := by
    rw [State.FewWaits, State.waits, hold] at h
    rw [State.FewWaits, State.waits, State.dequeue, htaken]
    exact h.insert
  have hleft : (s.dequeue i).left clock + Watchdog.waitLeft
      (s.withTimeout || decide (s.watchdog.deadline ≤ clock.read s.instant)) error =
        s.left clock := by
    have hwaits : s.waitsLeft clock = (s.dequeue i).waitsLeft clock + Watchdog.waitLeft
        (s.withTimeout || decide (s.watchdog.deadline ≤ clock.read s.instant)) error := by
      rw [State.waitsLeft, State.waitsLeft, State.waits, State.waits, hold, State.dequeue, htaken]
      exact Watchdog.leftIn_insert _ _ _
    rw [State.left, State.left, hwaits]
    simp only [State.dequeue, Completion.left] at hsum ⊢
    omega
  have hpos := Watchdog.waitLeft_pos
    (s.withTimeout || decide (s.watchdog.deadline ≤ clock.read s.instant)) error
  cases error with
  | some e =>
    have hsame : (s.dequeue i).handle clock timeout (.wait (some e)) = s.dequeue i := by
      simp only [State.handle, State.handleWithTimeout, State.handleWithWatchdog, ite_self]
    rw [hsame]
    exact ⟨by omega, hfew⟩
  | none =>
    cases hmode : s.withTimeout with
    | true =>
      have hstop := timed_stop clock hfew
      have hle := hstop.left_le
      rw [State.handle, show (s.dequeue i).withTimeout = true from hmode, if_pos rfl]
      exact ⟨by simp only [State.handleWithTimeout]; omega, hstop.few⟩
    | false =>
      -- this was the only wait
      rw [State.FewWaits, hmode, State.waits, hold] at h
      obtain ⟨htimer, hnil⟩ := h.only
      obtain ⟨n, htimed, hn⟩ := timed_startWatchdog clock (s := s.dequeue i) hmode
        (htaken.trans hnil) htimer
      have hle := htimed.left_le
      rw [hmode, Bool.false_or] at hleft
      rw [State.handle, show (s.dequeue i).withTimeout = false from hmode,
        if_neg Bool.false_ne_true]
      exact ⟨(Nat.succ_le_succ hle).trans (hleft ▸ Nat.add_le_add_left hn _), htimed.few⟩

/-! ### Steps -/

/-- Time passing is no work. -/
def Label.works : Label → Bool
  | .elapse => false
  | _ => true

/-- What is received in a step. -/
def Label.chunk : Label → Option Chunk
  | .receiveDone _ chunk => some chunk
  | _ => none

/-- How many operations, completions and waits hold a pointer to the session. -/
def State.refs (s : State) : ℕ :=
  s.outstanding.length + s.queue.length + s.watchdog.timer.waits

/-- What is seen of a session of `server.cc`. -/
def view : View State Label where
  elapse := .elapse
  works := Label.works
  chunk := Label.chunk
  isOpen := State.isOpen
  refs := State.refs

variable (clock) in
theorem left_complete {i : ℕ} {op : Operation} {since : ℤ}
    (hop : s.outstanding[i]? = some (op, since)) {c : Completion} (hc : c.ended = none) :
    (s.complete i c).left clock + op.left = s.left clock + c.left ∧
      (s.complete i c).waits = s.waits := by
  have hsum : ((s.outstanding.eraseIdx i).map fun op => op.1.left).sum + op.left =
      (s.outstanding.map fun op => op.1.left).sum := sum_eraseIdx _ hop
  have hwaits : (s.complete i c).waits = s.waits := by
    simp only [State.waits, State.complete, List.filterMap_append, List.filterMap_cons, hc,
      List.filterMap_nil, List.append_nil]
  have hleft : (s.complete i c).waitsLeft clock = s.waitsLeft clock := by
    rw [State.waitsLeft, hwaits]
    rfl
  refine ⟨?_, hwaits⟩
  rw [State.left, hleft, State.left]
  simp only [State.complete, List.map_append, List.sum_append, List.map_cons, List.map_nil,
    List.sum_cons, List.sum_nil]
  omega

/-- **Every step is paid for.** -/
theorem left_next (h : s.FewWaits) {l : Label} (hs : s.next clock timeout l = some s') :
    s'.left clock + 1 ≤ s.left clock + view.credit 8 l ∧ s'.FewWaits := by
  have hcompletes : ∀ {i : ℕ} {op : Operation} {since : ℤ} {c : Completion},
      s.outstanding[i]? = some (op, since) → c.ended = none → c.left + 1 ≤ op.left →
      (s.complete i c).left clock + 1 ≤ s.left clock ∧ (s.complete i c).FewWaits := by
    intro i op since c hop hc hle
    obtain ⟨hleft, hwaits⟩ := left_complete clock hop hc
    refine ⟨by omega, ?_⟩
    rw [State.FewWaits, hwaits]
    exact h
  cases next_step hs with
  | elapse =>
    have hlater := Watchdog.leftIn_later h (clock.mono (Nat.le_succ s.instant))
    exact ⟨Nat.succ_le_succ (Nat.add_le_add_left hlater _), h⟩
  | @receiveDone i chunk since hop _ =>
    obtain ⟨hleft, hwaits⟩ := left_complete clock hop
      (c := .receive none chunk.bytes.length) rfl
    refine ⟨?_, ?_⟩
    · simp only [Operation.left, Completion.left] at hleft
      show (s.complete i (.receive none chunk.bytes.length)).left clock + 1 ≤
        s.left clock + (8 + chunk.bytes.length + 0)
      omega
    · show Watchdog.Few _ _ (s.complete i (.receive none chunk.bytes.length)).waits
      rw [hwaits]
      exact h
  | receiveFails hop => exact hcompletes hop rfl (Nat.le_refl 2)
  | @writeSome i k bytes done since hop _ hpos hle =>
    refine ⟨?_, h⟩
    obtain ⟨before, after, hout, herase⟩ := exists_eraseIdx hop
    have hlt : i < s.outstanding.length := (List.getElem?_eq_some_iff.mp hop).1
    have hset := sum_eraseIdx (fun op : Operation × ℤ => op.1.left)
      (List.getElem?_set_self (a := (.write bytes (done + k), since)) hlt)
    have hold := sum_eraseIdx (fun op : Operation × ℤ => op.1.left) hop
    rw [List.eraseIdx_set_eq] at hset
    simp only [State.left, Operation.left, view, View.credit, View.price, Label.chunk,
      Label.works] at hset hold ⊢
    simp only [State.waitsLeft, State.waits]
    omega
  | writeDone hop =>
    exact hcompletes hop rfl (by simp only [Operation.left, Completion.left]; omega)
  | writeFails hop =>
    exact hcompletes hop rfl (by simp only [Operation.left, Completion.left]; omega)
  | @waitDone timer htimer =>
    have hwoken := Watchdog.leftIn_complete h htimer
    have hfew := Watchdog.Few.complete h htimer
    have hwaits : (s.queue ++ [Completion.wait none]).filterMap Completion.ended =
        s.waits ++ [none] := by
      rw [List.filterMap_append]
      rfl
    refine ⟨?_, ?_⟩
    · simp only [State.left, State.waitsLeft, State.waits, List.map_append, List.sum_append]
        at hwoken ⊢
      rw [hwaits]
      simp only [State.waits, Completion.left, List.map_cons, List.map_nil, List.sum_cons,
        List.sum_nil]
      omega
    · rw [State.FewWaits, State.waits, hwaits]
      exact hfew
  | @run i c hc =>
    cases c with
    | wait error => exact left_handle_wait clock timeout h hc
    | receive error n =>
      obtain ⟨hleft, hfew⟩ := left_dequeue clock h hc rfl
      obtain ⟨hle, hfew'⟩ := left_handle clock timeout hfew
        (c := .receive error n) rfl
      exact ⟨hle.trans_eq hleft, hfew'⟩
    | write error n =>
      obtain ⟨hleft, hfew⟩ := left_dequeue clock h hc rfl
      obtain ⟨hle, hfew'⟩ := left_handle clock timeout hfew
        (c := .write error n) rfl
      exact ⟨hle.trans_eq hleft, hfew'⟩

/-- `start` starts a receive and its timeout, or the watchdog. -/
theorem left_start (withTimeout : Bool) (buffer : Buffer) :
    ((State.new withTimeout buffer).start clock timeout).left clock ≤ 4 ∧
      ((State.new withTimeout buffer).start clock timeout).FewWaits := by
  have hnew : ∀ withTimeout, (State.new withTimeout buffer).left clock = 0 ∧
      (State.new withTimeout buffer).FewWaits := by
    intro withTimeout
    cases withTimeout <;>
      simp [State.new, State.left, State.waitsLeft, State.waits, State.FewWaits, Watchdog.leftIn,
        Watchdog.left, Watchdog.Few, Watchdog.new]
  cases withTimeout with
  | true =>
    obtain ⟨hzero, hfew⟩ := hnew true
    obtain ⟨hstart, -⟩ := left_asyncStart clock hfew .receive
    have htimed := timed_startTimeout clock timeout
      (s := (State.new true buffer).asyncStart clock .receive) rfl
    have hleft := htimed.left_le
    simp only [Operation.left] at hstart
    refine ⟨?_, htimed.few⟩
    show (((State.new true buffer).asyncStart clock .receive).startTimeout clock timeout).left
      clock ≤ 4
    omega
  | false =>
    obtain ⟨n, htimed, hn⟩ := timed_startWatchdog clock
      (s := (State.new false buffer).receiveWithWatchdog clock timeout) rfl rfl rfl
    have hleft := htimed.left_le
    have htwo : ((State.new false buffer).receiveWithWatchdog clock timeout).left clock = 2 := by
      simp [State.receiveWithWatchdog, State.delay, State.asyncStart, State.new, State.left,
        State.waitsLeft, State.waits, Watchdog.leftIn, Watchdog.left, Watchdog.delay, Watchdog.new,
        Operation.left]
    have hthree : ∀ b, Watchdog.waitLeft b none ≤ 3 := by decide
    have hle := hthree (decide (((State.new false buffer).receiveWithWatchdog clock
      timeout).watchdog.deadline ≤
        clock.read ((State.new false buffer).receiveWithWatchdog clock timeout).instant))
    refine ⟨?_, htimed.few⟩
    show (((State.new false buffer).receiveWithWatchdog clock timeout).startWatchdog clock).left
      clock ≤ 4
    omega

/-- Time passes. -/
theorem run_elapse (withTimeout : Bool) (s : State) (n : ℕ) :
    (system clock timeout withTimeout).run s (List.replicate n .elapse) =
      some { s with instant := s.instant + n } :=
  System.run_replicate (fun n => { s with instant := s.instant + n }) (fun _ => rfl) n

/-- An operation, a completion or a wait can go on, when enough time has passed. -/
theorem exists_works (hclock : ∀ t, ∃ n, t ≤ clock.read n) (withTimeout : Bool)
    (h : s.refs ≠ 0) :
    ∃ n l s', l.works = true ∧ l.chunk = none ∧
      (system clock timeout withTimeout).run s (List.replicate n .elapse ++ [l]) = some s' := by
  have hnow : ∀ l s', l.works = true → l.chunk = none → s.next clock timeout l = some s' →
      ∃ n l s', l.works = true ∧ l.chunk = none ∧
        (system clock timeout withTimeout).run s (List.replicate n .elapse ++ [l]) = some s' :=
    fun l s' hl hchunk hs => exists_works_after 0 l rfl hs hl hchunk
  cases hout : s.outstanding with
  | cons op rest =>
    obtain ⟨op, since⟩ := op
    cases op with
    | receive =>
      exact hnow (.receiveFails 0 .aborted) _ rfl rfl (by simp only [State.next, hout]; rfl)
    | write bytes done =>
      exact hnow (.writeFails 0 .aborted) _ rfl rfl (by simp only [State.next, hout]; rfl)
  | nil =>
    cases hqueue : s.queue with
    | cons c rest => exact hnow (.run 0) _ rfl rfl (by simp only [State.next, hqueue]; rfl)
    | nil =>
      -- a wait is pending, until its expiry has passed
      have hpos : 0 < s.watchdog.timer.waits := by
        simp only [State.refs, hout, hqueue, List.length_nil] at h
        omega
      obtain ⟨n, hn⟩ := hclock s.watchdog.timer.expiry
      have hdue : s.watchdog.timer.expiry ≤ clock.read (s.instant + n) :=
        hn.trans (clock.mono (Nat.le_add_left n s.instant))
      obtain ⟨s', hs'⟩ : ∃ s', State.next clock timeout { s with instant := s.instant + n }
          .waitDone = some s' := by
        simp only [State.next, Timer.complete, if_pos (And.intro hdue hpos)]
        exact ⟨_, rfl⟩
      exact exists_works_after n .waitDone (run_elapse withTimeout s n) hs' rfl rfl

/-- A session that nothing refers to is left alone. -/
theorem next_eq_none_of_refs (h : s.refs = 0) {l : Label} (hl : l.works = true) :
    s.next clock timeout l = none := by
  obtain ⟨hout, hqueue, hwaits⟩ :
      s.outstanding = [] ∧ s.queue = [] ∧ s.watchdog.timer.waits = 0 := by
    simp only [State.refs] at h
    exact ⟨List.eq_nil_of_length_eq_zero (by omega), List.eq_nil_of_length_eq_zero (by omega),
      by omega⟩
  cases l with
  | elapse => cases hl
  | waitDone => simp [State.next, Timer.complete, hwaits]
  | run i => simp [State.next, hqueue]
  | receiveDone _ _ | receiveFails _ _ | writeSome _ _ | writeDone _ | writeFails _ _ =>
    simp [State.next, hout]

theorem isOpen_startWatchdog (h : s.isOpen = false) : (s.startWatchdog clock).isOpen = false := by
  simp only [State.startWatchdog]
  split
  · rfl
  · exact h

/-- A closed socket stays closed, and receives nothing. -/
theorem closed_next (h : s.isOpen = false) {l : Label} (hs : s.next clock timeout l = some s') :
    l.chunk = none ∧ s'.isOpen = false := by
  cases next_step hs with
  | elapse | receiveFails _ | writeDone _ | writeFails _ | waitDone _ => exact ⟨rfl, h⟩
  | receiveDone _ hopen | writeSome _ hopen _ _ =>
    rw [h] at hopen
    cases hopen
  | @run i c _ =>
    refine ⟨rfl, ?_⟩
    have hclosed : (s.dequeue i).isOpen = false := h
    cases c with
    | receive error n | write error n =>
      cases error <;> simp only [State.handle] <;> split <;> first | exact hclosed | rfl
    | wait error =>
      cases error with
      | some e =>
        simp only [State.handle]
        split <;> exact hclosed
      | none =>
        simp only [State.handle]
        split
        · rfl
        · exact isOpen_startWatchdog hclosed

/-- The steps of a session are paid for. -/
theorem amortised_system (clock : Clock ℤ) (timeout : ℤ) (withTimeout : Bool) :
    (system clock timeout withTimeout).Amortised State.FewWaits (view.credit 8)
      (State.left clock) :=
  ⟨fun h hs => (left_next h hs).2, fun h hs => (left_next h hs).1⟩

/-- **The sessions of `server.cc` wind down**, in either loop. -/
theorem windsDown_system (clock : Clock ℤ) (timeout : ℤ) (withTimeout : Bool) :
    WindsDown (system clock timeout withTimeout) view clock 4 8 := by
  refine .of_amortised (amortised_system clock timeout withTimeout) (fun s h0 => ?_)
    (fun hclock s hrefs => exists_works hclock withTimeout hrefs)
    (fun s hrefs l hl => next_eq_none_of_refs hrefs hl)
    fun s l s' hopen hs => closed_next hopen hs
  obtain ⟨buffer, rfl⟩ := h0
  exact (left_start withTimeout buffer).symm

end CcSnippets.Asio.Echo

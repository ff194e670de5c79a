import CcSnippets.Asio.Echo.Coroutine.Steps
import CcSnippets.Asio.Echo.WindDown

/-!
# CcSnippets.Asio.Echo.Coroutine.WindDown

The sessions of `asio/echo/co_server.cc` **wind down** too, in either loop
(`windsDown_system`): `echo` ends when an operation fails, and what waits for the timer
ends when its wait is aborted or closes the socket.
-/

namespace CcSnippets.Asio.Echo.Coroutine

open CcSnippets.Core

/-! ### What is left to do -/

/-- How many steps an operation of `echo` is good for. -/
def opLeft : Operation → ℕ
  | .receive => 2
  | .write bytes done => 7 + (bytes - done)

namespace Task

/-- How many steps a task is good for, besides the waits. Where `echo` goes on it starts an
operation, and a timeout for it. -/
def left : Task → ℕ
  | .echo => 6
  | .received none n => 11 + n
  | .written none => 6
  | .received (some _) _ | .written (some _) => 1
  | .wait => 3
  | .waited _ | .watch | .watched _ => 0

/-- The completed wait. What is spawned to watch is as good as one. -/
def ended : Task → Option (Option Error)
  | .waited ec | .watched ec => some ec
  | .watch => some none
  | _ => none

/-- The task is one of this loop. -/
def Fits (withTimeout : Bool) : Task → Prop
  | .wait | .waited _ => withTimeout = true
  | .watch | .watched _ => withTimeout = false
  | _ => True

end Task

namespace State

/-- The completed waits. -/
def waits (s : State) : List (Option Error) := s.ready.filterMap Task.ended

/-- How many steps the waits are good for. -/
def waitsLeft (clock : Clock ℤ) (s : State) : ℕ :=
  s.watchdog.leftIn s.withTimeout (clock.read s.instant) s.waits

/-- How many steps are left in a session that receives no more. -/
def left (clock : Clock ℤ) (s : State) : ℕ :=
  (s.outstanding.map opLeft).getD 0 + (s.ready.map Task.left).sum + s.waitsLeft clock

/-- The tasks are those of the loop, and with a watchdog there is one wait at most. -/
structure Sound (s : State) : Prop where
  fits : ∀ task ∈ s.ready, task.Fits s.withTimeout
  few : s.watchdog.Few s.withTimeout s.waits

end State

variable {clock : Clock ℤ} {timeout : ℤ} {dispatches : Bool} {s s' : State}

theorem ended_resumed (s : State) (ec : Option Error) : (s.resumed ec).ended = some ec := by
  unfold State.resumed
  split <;> rfl

theorem left_resumed (s : State) (ec : Option Error) : (s.resumed ec).left = 0 := by
  unfold State.resumed
  split <;> rfl

theorem fits_resumed (s : State) (ec : Option Error) : (s.resumed ec).Fits s.withTimeout := by
  unfold State.resumed
  split
  · assumption
  · rename_i hmode
    exact Bool.eq_false_iff.mpr hmode

theorem ended_aborted (s : State) (n : ℕ) :
    (List.replicate n (s.resumed (some .aborted))).filterMap Task.ended =
      List.replicate n (some .aborted) :=
  List.filterMap_replicate_of_some (ended_resumed s _)

theorem left_aborted (s : State) (n : ℕ) :
    ((List.replicate n (s.resumed (some .aborted))).map Task.left).sum = 0 := by
  simp [left_resumed]

theorem State.Sound.fits_aborted (h : s.Sound) (n : ℕ) :
    ∀ task ∈ s.ready ++ List.replicate n (s.resumed (some .aborted)), task.Fits s.withTimeout := by
  intro task hmem
  rcases List.mem_append.mp hmem with hold | hnew
  · exact h.fits task hold
  · rw [List.eq_of_mem_replicate hnew]
    exact fits_resumed s _

/-- What is done beside `echo`'s operation: what is left grows by `n`. -/
structure Beside (clock : Clock ℤ) (s s' : State) (n : ℕ) : Prop where
  withTimeout : s'.withTimeout = s.withTimeout
  outstanding : s'.outstanding = s.outstanding
  left : (s'.ready.map Task.left).sum + s'.waitsLeft clock ≤
    (s.ready.map Task.left).sum + s.waitsLeft clock + n
  sound : s'.Sound

theorem Beside.left_le {n : ℕ} (h : Beside clock s s' n) : s'.left clock ≤ s.left clock + n := by
  have hleft := h.left
  rw [State.left, State.left, h.outstanding]
  omega

variable (clock) in
theorem beside_cancelTimer (h : s.Sound) : Beside clock s s.cancelTimer 0 := by
  have hwaits : s.cancelTimer.waits =
      s.waits ++ List.replicate s.watchdog.stop.2 (some .aborted) := by
    simp only [State.waits, State.cancelTimer, List.filterMap_append, ended_aborted]
  refine ⟨rfl, rfl, ?_, ⟨h.fits_aborted _, ?_⟩⟩
  · have hstop := Watchdog.leftIn_stop (clock.read s.instant) h.few
    rw [← hwaits] at hstop
    simp only [State.cancelTimer, List.map_append, List.sum_append, left_aborted, Nat.add_zero]
    exact Nat.add_le_add_left hstop _
  · rw [hwaits]
    exact h.few.stop

variable (clock timeout) in
theorem beside_delay (h : s.Sound) : Beside clock s (s.delay clock timeout) 2 := by
  refine ⟨rfl, rfl, ?_, ⟨h.fits, h.few⟩⟩
  have hlater := Watchdog.leftIn_later h.few (clock.mono (Nat.le_succ s.instant))
  have hdelay := Watchdog.leftIn_delay (clock.read (s.instant + 1)) h.few
    (clock.read s.instant) timeout
  rw [Nat.add_assoc]
  exact Nat.add_le_add_left (hdelay.trans (Nat.add_le_add_right hlater 2)) _

variable (clock timeout) in
theorem beside_wait (h : s.Sound) (hmode : s.withTimeout = true) :
    Beside clock s (s.wait clock timeout) 2 := by
  refine ⟨rfl, rfl, ?_, ⟨h.fits_aborted _, fun hnot => ?_⟩⟩
  · simp only [State.waitsLeft, State.waits, State.wait, List.map_append, List.sum_append,
      List.filterMap_append, left_aborted, ended_aborted, hmode, Nat.add_zero]
    rw [Nat.add_assoc]
    exact Nat.add_le_add_left (Watchdog.leftIn_timeout _ _) _
  · exact absurd (hmode.symm.trans hnot) (by decide)

variable (clock timeout dispatches) in
theorem beside_startTimeout (h : s.Sound) (hmode : s.withTimeout = true) :
    Beside clock s (s.startTimeout clock timeout dispatches) 3 := by
  unfold State.startTimeout
  split
  · have hwait := beside_wait clock timeout h hmode
    exact ⟨hwait.withTimeout, hwait.outstanding, hwait.left.trans (Nat.le_succ _), hwait.sound⟩
  · have hwaits : State.waits { s with ready := s.ready ++ [.wait] } = s.waits := by
      simp [State.waits, Task.ended]
    refine ⟨rfl, rfl, ?_, ⟨fun task hmem => ?_, ?_⟩⟩
    · simp only [State.waitsLeft, hwaits, List.map_append, List.sum_append, List.map_cons,
        List.map_nil, List.sum_cons, List.sum_nil, Task.left]
      omega
    · rcases List.mem_append.mp hmem with hold | hnew
      · exact h.fits task hold
      · rw [List.mem_singleton.mp hnew]
        exact hmode
    · rw [hwaits]
      exact h.few

variable (clock) in
/-- An iteration of `watch`, without a wait: the deadline has passed, or it waits. -/
theorem beside_watch (h : s.Sound) (hmode : s.withTimeout = false) (hwaits : s.waits = [])
    (htimer : s.watchdog.timer.waits = 0) :
    ∃ n, Beside clock s (s.watch clock) n ∧
      n + 1 ≤ Watchdog.waitLeft (decide (s.watchdog.deadline ≤ clock.read s.instant)) none := by
  simp only [State.watch]
  split
  · refine ⟨0, ⟨rfl, rfl, ?_, ⟨h.fits, h.few⟩⟩,
      by simp only [Watchdog.waitLeft]; split <;> omega⟩
    exact Nat.add_le_add_left
      (Watchdog.leftIn_later h.few (clock.mono (Nat.le_succ s.instant))) _
  · rename_i watchdog aborted hsome
    obtain ⟨htwo, hone, hthree⟩ := Watchdog.leftIn_start (clock.read (s.instant + 1)) htimer hsome
    have hnil : s.ready.filterMap Task.ended = [] := hwaits
    refine ⟨2, ⟨rfl, rfl, ?_, ⟨h.fits_aborted _, ?_⟩⟩, by rw [hthree]⟩
    · simp only [State.waitsLeft, State.waits, List.map_append, List.sum_append,
        List.filterMap_append, left_aborted, ended_aborted, hmode, hnil, List.nil_append, htwo,
        Nat.add_zero]
      omega
    · simp only [State.waits, List.filterMap_append, ended_aborted, hmode, hnil, List.nil_append]
      exact hone

variable (clock) in
/-- `echo` starts an operation. -/
theorem left_suspend (h : s.Sound) (buffer : List UInt8) (op : Operation) :
    State.left clock { s with buffer := buffer, outstanding := some op } ≤
        s.left clock + opLeft op ∧
      State.Sound { s with buffer := buffer, outstanding := some op } := by
  refine ⟨?_, ⟨h.fits, h.few⟩⟩
  simp only [State.left, State.waitsLeft, State.waits, Option.map_some, Option.getD_some]
  omega

theorem Beside.trans {m : State} {j k : ℕ} (h : Beside clock s m j) (h' : Beside clock m s' k) :
    Beside clock s s' (j + k) where
  withTimeout := h'.withTimeout.trans h.withTimeout
  outstanding := h'.outstanding.trans h.outstanding
  left := by
    have hleft := h.left
    have hleft' := h'.left
    omega
  sound := h'.sound

/-- `echo` goes on: it has done something beside, and starts a receive. -/
theorem Beside.asyncReceive {n : ℕ} (h : Beside clock s s' n) :
    ((s'.resizeBuffer maxReceive).asyncReceive).left clock ≤ s.left clock + n + 2 ∧
      ((s'.resizeBuffer maxReceive).asyncReceive).Sound := by
  obtain ⟨hleft, hsound⟩ := left_suspend clock h.sound
    (resize s'.buffer maxReceive) .receive
  exact ⟨hleft.trans (Nat.add_le_add_right h.left_le 2), hsound⟩

/-- Or it starts a write of what it has received. -/
theorem Beside.asyncWrite {n : ℕ} (h : Beside clock s s' n) (bytes : ℕ) :
    ((s'.resizeBuffer bytes).asyncWrite).left clock ≤ s.left clock + n + (7 + bytes) ∧
      ((s'.resizeBuffer bytes).asyncWrite).Sound := by
  have hlength : (s'.resizeBuffer bytes).buffer.length = bytes := length_resize _ _
  obtain ⟨hleft, hsound⟩ := left_suspend clock h.sound (resize s'.buffer bytes)
    (.write bytes 0)
  rw [State.asyncWrite, hlength]
  exact ⟨hleft.trans (Nat.add_le_add_right h.left_le _), hsound⟩

variable (clock timeout dispatches) in
/-- A task runs, which is out of the queue and no wait. -/
theorem left_resume (h : s.Sound) {task : Task} (htask : task.ended = none)
    (hfits : task.Fits s.withTimeout) :
    (s.resume clock timeout dispatches task).left clock + 1 ≤ s.left clock + task.left ∧
      (s.resume clock timeout dispatches task).Sound := by
  have hcancel := beside_cancelTimer clock h
  have hdelay := beside_delay clock timeout h
  have hends : ∀ {m : State} {n : ℕ}, Beside clock s m n → n + 1 ≤ task.left →
      m.left clock + 1 ≤ s.left clock + task.left ∧ m.Sound := by
    intro m n hbeside hn
    have hle := hbeside.left_le
    exact ⟨by omega, hbeside.sound⟩
  cases hmode : s.withTimeout with
  | true =>
    have hstart := beside_startTimeout clock timeout dispatches h hmode
    have hrestart := hcancel.trans
      (beside_startTimeout clock timeout dispatches hcancel.sound hmode)
    cases task with
    | echo =>
      obtain ⟨hle, hsound⟩ := hstart.asyncReceive
      simp only [State.resume, hmode, if_true, State.receiveWithTimeout, Task.left]
      exact ⟨by omega, hsound⟩
    | received ec n =>
      simp only [State.resume, hmode, if_true]
      cases ec with
      | none =>
        obtain ⟨hle, hsound⟩ := hrestart.asyncWrite n
        simp only [State.receivedWithTimeout, Task.left]
        exact ⟨by omega, hsound⟩
      | some e => exact hends hcancel (Nat.le_refl 1)
    | written ec =>
      simp only [State.resume, hmode, if_true]
      cases ec with
      | none =>
        obtain ⟨hle, hsound⟩ := hrestart.asyncReceive
        simp only [State.writtenWithTimeout, State.receiveWithTimeout, Task.left]
        exact ⟨by omega, hsound⟩
      | some e => exact hends hcancel (Nat.le_refl 1)
    | wait => exact hends (beside_wait clock timeout h hmode) (Nat.le_refl 3)
    | waited ec => cases htask
    | watch => cases htask
    | watched ec => cases htask
  | false =>
    cases task with
    | echo =>
      obtain ⟨hle, hsound⟩ := hdelay.asyncReceive
      simp only [State.resume, hmode, Bool.false_eq_true, if_false, State.receiveWithWatchdog,
        Task.left]
      exact ⟨by omega, hsound⟩
    | received ec n =>
      simp only [State.resume, hmode, Bool.false_eq_true, if_false]
      cases ec with
      | none =>
        obtain ⟨hle, hsound⟩ := hdelay.asyncWrite n
        simp only [State.receivedWithWatchdog, Task.left]
        exact ⟨by omega, hsound⟩
      | some e => exact hends hcancel (Nat.le_refl 1)
    | written ec =>
      simp only [State.resume, hmode, Bool.false_eq_true, if_false]
      cases ec with
      | none =>
        obtain ⟨hle, hsound⟩ := hdelay.asyncReceive
        simp only [State.writtenWithWatchdog, State.receiveWithWatchdog, Task.left]
        exact ⟨by omega, hsound⟩
      | some e => exact hends hcancel (Nat.le_refl 1)
    | wait => exact absurd (hmode.symm.trans hfits) (by decide)
    | waited ec => cases htask
    | watch => cases htask
    | watched ec => cases htask

theorem fits_dequeue {i : ℕ} (h : ∀ task ∈ s.ready, task.Fits s.withTimeout) :
    ∀ task ∈ (s.dequeue i).ready, task.Fits s.withTimeout :=
  fun task hmem => h task (List.mem_of_mem_eraseIdx hmem)

variable (clock) in
/-- A task is taken off the strand that is no wait. What it is good for is gone. -/
theorem left_dequeue (h : s.Sound) {i : ℕ} {task : Task} (ht : s.ready[i]? = some task)
    (hended : task.ended = none) :
    (s.dequeue i).left clock + task.left = s.left clock ∧ (s.dequeue i).Sound := by
  have hsum := sum_eraseIdx Task.left ht
  have hsame : (s.dequeue i).waits = s.waits := filterMap_eraseIdx ht hended
  refine ⟨?_, ⟨fits_dequeue h.fits, ?_⟩⟩
  · have hwaits : (s.dequeue i).waitsLeft clock = s.waitsLeft clock := by
      rw [State.waitsLeft, hsame]
      rfl
    rw [State.left, hwaits, State.left]
    simp only [State.dequeue]
    omega
  · rw [hsame]
    exact h.few

variable (clock timeout dispatches) in
/-- What waits for the timer is taken off the strand, and goes on. -/
theorem left_resume_wait (h : s.Sound) {i : ℕ} {task : Task} {ec : Option Error}
    (ht : s.ready[i]? = some task) (hended : task.ended = some ec) :
    ((s.dequeue i).resume clock timeout dispatches task).left clock + 1 ≤ s.left clock ∧
      ((s.dequeue i).resume clock timeout dispatches task).Sound := by
  obtain ⟨before, after, hold, htaken⟩ := exists_filterMap_eraseIdx ht hended
  have hfits := h.fits task (List.mem_of_getElem? ht)
  have hsum := sum_eraseIdx Task.left ht
  have hzero : task.left = 0 := by
    cases task with
    | waited _ | watch | watched _ => rfl
    | echo | received _ _ | written _ | wait => cases hended
  have hsound : (s.dequeue i).Sound := by
    refine ⟨fits_dequeue h.fits, ?_⟩
    have hfew := h.few
    rw [State.waits, hold] at hfew
    rw [State.waits, State.dequeue, htaken]
    exact hfew.insert
  have hleft : (s.dequeue i).left clock + Watchdog.waitLeft
      (s.withTimeout || decide (s.watchdog.deadline ≤ clock.read s.instant)) ec =
        s.left clock := by
    have hwaits : s.waitsLeft clock = (s.dequeue i).waitsLeft clock + Watchdog.waitLeft
        (s.withTimeout || decide (s.watchdog.deadline ≤ clock.read s.instant)) ec := by
      rw [State.waitsLeft, State.waitsLeft, State.waits, State.waits, hold, State.dequeue, htaken]
      exact Watchdog.leftIn_insert _ _ _
    rw [State.left, State.left, hwaits]
    simp only [State.dequeue] at hsum ⊢
    omega
  have hpos := Watchdog.waitLeft_pos
    (s.withTimeout || decide (s.watchdog.deadline ≤ clock.read s.instant)) ec
  have hreturns : (s.dequeue i).left clock + 1 ≤ s.left clock ∧ (s.dequeue i).Sound :=
    ⟨by omega, hsound⟩
  have hwatch : s.withTimeout = false → ec = none →
      ((s.dequeue i).watch clock).left clock + 1 ≤ s.left clock ∧
        ((s.dequeue i).watch clock).Sound := by
    intro hmode hnone
    subst hnone
    -- this was the only wait
    have hfew := h.few
    rw [hmode, State.waits, hold] at hfew
    obtain ⟨htimer, hnil⟩ := hfew.only
    obtain ⟨n, hbeside, hn⟩ := beside_watch clock hsound hmode (htaken.trans hnil) htimer
    have hle := hbeside.left_le
    rw [hmode, Bool.false_or] at hleft
    exact ⟨(Nat.succ_le_succ hle).trans (hleft ▸ Nat.add_le_add_left hn _), hbeside.sound⟩
  cases task with
  | waited error =>
    cases error with
    | none => exact ⟨hreturns.1, ⟨hsound.fits, hsound.few⟩⟩
    | some e => exact hreturns
  | watch => exact hwatch hfits (Option.some.inj hended).symm
  | watched error =>
    cases error with
    | none => exact hwatch hfits (Option.some.inj hended).symm
    | some e => exact hreturns
  | echo | received _ _ | written _ | wait => cases hended

/-! ### Steps -/

/-- Time passing is no work. -/
def Label.works : Label → Bool
  | .elapse => false
  | _ => true

/-- What is received in a step. -/
def Label.chunk : Label → Option Chunk
  | .receiveDone chunk => some chunk
  | _ => none

/-- How many coroutines hold a pointer to the session: those that wait for an operation or for
the timer, and those that are ready. -/
def State.refs (s : State) : ℕ :=
  s.outstanding.toList.length + s.ready.length + s.watchdog.timer.waits

/-- What is seen of a session of `co_server.cc`. -/
def view : View State Label where
  elapse := .elapse
  works := Label.works
  chunk := Label.chunk
  isOpen := State.isOpen
  refs := State.refs

variable (clock) in
/-- The operation completes, with a task that is no wait. -/
theorem left_complete (h : s.Sound) {op : Operation} (hop : s.outstanding = some op) (task : Task)
    (hended : task.ended = none) (hfits : task.Fits s.withTimeout) :
    (s.complete task).left clock + opLeft op = s.left clock + task.left ∧
      (s.complete task).Sound := by
  have hwaits : (s.complete task).waits = s.waits := by
    simp only [State.waits, State.complete, List.filterMap_append, List.filterMap_cons, hended,
      List.filterMap_nil, List.append_nil]
  have hleft : (s.complete task).waitsLeft clock = s.waitsLeft clock := by
    rw [State.waitsLeft, hwaits]
    rfl
  refine ⟨?_, ⟨fun t hmem => ?_, ?_⟩⟩
  · rw [State.left, hleft, State.left, hop]
    simp only [State.complete, List.map_append, List.sum_append, List.map_cons, List.map_nil,
      List.sum_cons, List.sum_nil, Option.map_some, Option.map_none, Option.getD_some,
      Option.getD_none]
    omega
  · rcases List.mem_append.mp hmem with hold | hnew
    · exact h.fits t hold
    · rw [List.mem_singleton.mp hnew]
      exact hfits
  · rw [hwaits]
    exact h.few

/-- **Every step is paid for.** -/
theorem left_next (h : s.Sound) {l : Label} (hs : s.next clock timeout dispatches l = some s') :
    s'.left clock + 1 ≤ s.left clock + view.credit 10 l ∧ s'.Sound := by
  cases next_step hs with
  | elapse =>
    have hlater := Watchdog.leftIn_later h.few (clock.mono (Nat.le_succ s.instant))
    exact ⟨Nat.succ_le_succ (Nat.add_le_add_left hlater _), ⟨h.fits, h.few⟩⟩
  | @receiveDone chunk hop _ _ =>
    obtain ⟨hleft, hsound⟩ := left_complete clock h hop (.received none chunk.bytes.length) rfl
      trivial
    simp only [opLeft, Task.left] at hleft
    refine ⟨?_, ⟨hsound.fits, hsound.few⟩⟩
    show (s.complete (.received none chunk.bytes.length)).left clock + 1 ≤
      s.left clock + (10 + chunk.bytes.length + 0)
    omega
  | @receiveFails error hop =>
    obtain ⟨hleft, hsound⟩ := left_complete clock h hop (.received (some error) 0) rfl trivial
    exact ⟨by simp only [opLeft, Task.left] at hleft; omega, hsound⟩
  | writeSome hop _ hpos hle =>
    refine ⟨?_, ⟨h.fits, h.few⟩⟩
    simp only [State.left, State.waitsLeft, State.waits, hop, Option.map_some,
      Option.getD_some, opLeft]
    omega
  | writeDone hop =>
    obtain ⟨hleft, hsound⟩ := left_complete clock h hop (.written none) rfl trivial
    exact ⟨by simp only [opLeft, Task.left] at hleft; omega, hsound⟩
  | @writeFails _ _ error hop =>
    obtain ⟨hleft, hsound⟩ := left_complete clock h hop (.written (some error)) rfl trivial
    exact ⟨by simp only [opLeft, Task.left] at hleft; omega, hsound⟩
  | waitDone htimer =>
    have hwoken := Watchdog.leftIn_complete h.few htimer
    have hfew := h.few.complete htimer
    have hwaits : (s.ready ++ [s.resumed none]).filterMap Task.ended = s.waits ++ [none] := by
      rw [List.filterMap_append, List.filterMap_cons_some (ended_resumed s none)]
      rfl
    refine ⟨?_, ⟨fun task hmem => ?_, ?_⟩⟩
    · simp only [State.left, State.waitsLeft, State.waits, List.map_append, List.sum_append]
        at hwoken ⊢
      rw [hwaits]
      simp only [State.waits, List.map_cons, List.map_nil, List.sum_cons, List.sum_nil,
        left_resumed]
      omega
    · rcases List.mem_append.mp hmem with hold | hnew
      · exact h.fits task hold
      · rw [List.mem_singleton.mp hnew]
        exact fits_resumed s none
    · rw [State.waits, hwaits]
      exact hfew
  | @run i task ht =>
    cases hended : task.ended with
    | some ec => exact left_resume_wait clock timeout dispatches h ht hended
    | none =>
      obtain ⟨hleft, hsound⟩ := left_dequeue clock h ht hended
      have hfits := h.fits task (List.mem_of_getElem? ht)
      obtain ⟨hle, hsound'⟩ := left_resume clock timeout dispatches hsound hended hfits
      exact ⟨hle.trans_eq hleft, hsound'⟩

/-- `start` spawns `echo`, and `watch`. -/
theorem left_start (withTimeout : Bool) :
    (State.new withTimeout).start.left clock ≤ 9 ∧ (State.new withTimeout).start.Sound := by
  cases withTimeout with
  | true =>
    refine ⟨by simp [State.new, State.start, State.left, State.waitsLeft, State.waits,
      Watchdog.leftIn, Watchdog.new, Task.left, Task.ended, List.filterMap_cons],
      fun task hmem => ?_, nofun⟩
    obtain rfl := List.mem_singleton.mp hmem
    exact trivial
  | false =>
    have hthree : ∀ b, Watchdog.waitLeft b none ≤ 3 := by decide
    refine ⟨?_, fun task hmem => ?_, fun _ => Nat.le_refl 1⟩
    · have hle := hthree (decide ((0 : ℤ) ≤ clock.read 0))
      simp only [State.new, State.start, State.left, State.waitsLeft, State.waits,
        Watchdog.leftIn, Watchdog.left, Watchdog.new, List.map_cons, List.map_nil,
        List.filterMap_cons, List.filterMap_nil, Task.left, Task.ended, List.sum_cons,
        List.sum_nil, Bool.false_eq_true, if_false, Option.map_none, Option.getD_none]
      omega
    · rcases List.mem_cons.mp hmem with rfl | hlast
      · exact trivial
      · obtain rfl := List.mem_singleton.mp hlast
        rfl

/-- Time passes. -/
theorem run_elapse (dispatches withTimeout : Bool) (s : State) (n : ℕ) :
    (system clock timeout dispatches withTimeout).run s (List.replicate n .elapse) =
      some { s with instant := s.instant + n } :=
  System.run_replicate (fun n => { s with instant := s.instant + n }) (fun _ => rfl) n

/-- A coroutine can go on, when enough time has passed. -/
theorem exists_works (hclock : ∀ t, ∃ n, t ≤ clock.read n) (dispatches withTimeout : Bool)
    (h : s.refs ≠ 0) :
    ∃ n l s', l.works = true ∧ l.chunk = none ∧
      (system clock timeout dispatches withTimeout).run s (List.replicate n .elapse ++ [l]) =
        some s' := by
  have hnow : ∀ l s', l.works = true → l.chunk = none →
      s.next clock timeout dispatches l = some s' →
      ∃ n l s', l.works = true ∧ l.chunk = none ∧
        (system clock timeout dispatches withTimeout).run s (List.replicate n .elapse ++ [l]) =
          some s' :=
    fun l s' hl hchunk hs => exists_works_after 0 l rfl hs hl hchunk
  cases hout : s.outstanding with
  | some op =>
    cases op with
    | receive =>
      exact hnow (.receiveFails .aborted) _ rfl rfl (by simp only [State.next, hout]; rfl)
    | write bytes done =>
      exact hnow (.writeFails .aborted) _ rfl rfl (by simp only [State.next, hout]; rfl)
  | none =>
    cases hready : s.ready with
    | cons task rest => exact hnow (.run 0) _ rfl rfl (by simp only [State.next, hready]; rfl)
    | nil =>
      -- a wait is pending, until its expiry has passed
      have hpos : 0 < s.watchdog.timer.waits := by
        simp only [State.refs, hout, hready, Option.toList_none, List.length_nil] at h
        omega
      obtain ⟨n, hn⟩ := hclock s.watchdog.timer.expiry
      have hdue : s.watchdog.timer.expiry ≤ clock.read (s.instant + n) :=
        hn.trans (clock.mono (Nat.le_add_left n s.instant))
      obtain ⟨s', hs'⟩ : ∃ s', State.next clock timeout dispatches
          { s with instant := s.instant + n } .waitDone = some s' := by
        simp only [State.next, Timer.complete, if_pos (And.intro hdue hpos)]
        exact ⟨_, rfl⟩
      exact exists_works_after n .waitDone (run_elapse dispatches withTimeout s n) hs' rfl rfl

/-- A session that no coroutine refers to is left alone. -/
theorem next_eq_none_of_refs (h : s.refs = 0) {l : Label} (hl : l.works = true) :
    s.next clock timeout dispatches l = none := by
  have hout : s.outstanding = none := by
    cases hout : s.outstanding with
    | none => rfl
    | some op =>
      simp only [State.refs, hout, Option.toList_some, List.length_singleton] at h
      omega
  have hready : s.ready = [] := by
    refine List.eq_nil_of_length_eq_zero ?_
    simp only [State.refs] at h
    omega
  have hwaits : s.watchdog.timer.waits = 0 := by simp only [State.refs] at h; omega
  cases l with
  | elapse => cases hl
  | waitDone => simp [State.next, Timer.complete, hwaits]
  | run i => simp [State.next, hready]
  | receiveDone _ | receiveFails _ | writeSome _ | writeDone | writeFails _ =>
    simp [State.next, hout]

theorem isOpen_startTimeout : (s.startTimeout clock timeout dispatches).isOpen = s.isOpen := by
  unfold State.startTimeout
  split <;> rfl

theorem isOpen_watch (h : s.isOpen = false) : (s.watch clock).isOpen = false := by
  simp only [State.watch]
  split
  · rfl
  · exact h

/-- No task opens the socket. -/
theorem isOpen_resume_of_closed (h : s.isOpen = false) (task : Task) :
    (s.resume clock timeout dispatches task).isOpen = false := by
  have hreceive : ∀ m : State, m.isOpen = false →
      (m.receiveWithTimeout clock timeout dispatches).isOpen = false := by
    intro m hm
    exact isOpen_startTimeout.trans hm
  cases task with
  | echo =>
    simp only [State.resume]
    split
    · exact hreceive s h
    · exact h
  | received ec n =>
    simp only [State.resume]
    split
    · cases ec with
      | none => exact isOpen_startTimeout.trans h
      | some e => exact h
    · cases ec <;> exact h
  | written ec =>
    simp only [State.resume]
    split
    · cases ec with
      | none => exact hreceive s.cancelTimer h
      | some e => exact h
    · cases ec <;> exact h
  | wait => exact h
  | waited ec => cases ec <;> first | rfl | exact h
  | watch => exact isOpen_watch h
  | watched ec =>
    cases ec with
    | none => exact isOpen_watch h
    | some e => exact h

/-- A closed socket stays closed, and receives nothing. -/
theorem closed_next (h : s.isOpen = false) {l : Label}
    (hs : s.next clock timeout dispatches l = some s') : l.chunk = none ∧ s'.isOpen = false := by
  cases next_step hs with
  | elapse | receiveFails _ | writeDone _ | writeFails _ | waitDone _ => exact ⟨rfl, h⟩
  | receiveDone _ hopen _ | writeSome _ hopen _ _ =>
    rw [h] at hopen
    cases hopen
  | @run i task _ => exact ⟨rfl, isOpen_resume_of_closed (s := s.dequeue i) h task⟩

/-- **The sessions of `co_server.cc` wind down**, in either loop. -/
theorem windsDown_system (clock : Clock ℤ) (timeout : ℤ) (dispatches withTimeout : Bool) :
    WindsDown (system clock timeout dispatches withTimeout) view clock 9 10 := by
  refine .of_amortised (I := State.Sound) (μ := State.left clock)
    ⟨fun h hs => (left_next h hs).2, fun h hs => (left_next h hs).1⟩ (fun s h0 => ?_)
    (fun hclock s hrefs => exists_works hclock dispatches withTimeout hrefs)
    (fun s hrefs l hl => next_eq_none_of_refs hrefs hl)
    fun s l s' hopen hs => closed_next hopen hs
  obtain rfl := h0
  exact (left_start withTimeout).symm

end CcSnippets.Asio.Echo.Coroutine

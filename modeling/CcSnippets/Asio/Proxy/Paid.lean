import CcSnippets.Asio.WindDown
import CcSnippets.Asio.Proxy.WindDown

/-!
# CcSnippets.Asio.Proxy.Paid

The sessions of the proxy **wind down** from any state, not only once they are stopped
(`windsDown_system`): what is left to do is owed to the chunks received so far.

`State.owed` adds to `State.left` the bytes that are still to be written, each of which may
get through by itself, and the connect.
-/

namespace CcSnippets.Asio.Proxy

open CcSnippets.Core

variable {clock : Clock ℤ} {timeout : ℤ} {s s' : State}

/-! ### What is owed -/

/-- How many bytes a write has still to get through. -/
def Operation.unsent : Operation → ℕ
  | .receive _ _ => 0
  | .write _ _ bytes done => bytes - done

/-- How many bytes are to be written for a completion. -/
def Completion.unsent : Completion → ℕ
  | .receive none n => n
  | _ => 0

/-- How many steps the connect is good for: its handler starts two receives and both
watchdogs. -/
def Connect.left : Connect → ℕ
  | .outstanding => 14
  | .completed _ => 13
  | .handled => 0

namespace State

/-- How many bytes one direction has still to write. -/
def unsentOf (s : State) (d : Side) : ℕ :=
  ((s.outstanding d).map Operation.unsent).sum + ((s.completed d).map Completion.unsent).sum

/-- What is owed in one direction. -/
def owedOf (clock : Clock ℤ) (s : State) (d : Side) : ℕ := s.leftOf clock d + s.unsentOf d

/-- How many steps are left in a session that receives no more. -/
def owed (clock : Clock ℤ) (s : State) : ℕ :=
  s.owedOf clock .client + s.owedOf clock .server + s.connect.left

end State

/-- A step that takes `m` in one direction and brings `n`, and adds nothing in the other. -/
theorem owed_add_le (d : Side) {m n : ℕ} (hconnect : s'.connect = s.connect)
    (hd : s'.owedOf clock d + m ≤ s.owedOf clock d + n)
    (hothers : ∀ e, e ≠ d → s'.owedOf clock e ≤ s.owedOf clock e) :
    s'.owed clock + m ≤ s.owed clock + n := by
  rw [State.owed, State.owed, hconnect]
  cases d with
  | client =>
    have hserver := hothers .server (by decide)
    omega
  | server =>
    have hclient := hothers .client (by decide)
    omega

section

variable (clock : Clock ℤ) (timeout : ℤ) (s : State) (d : Side)

@[simp] theorem unsentOf_fails (socket : Side) (e : Event) :
    (s.fails socket e).unsentOf d = s.unsentOf d := by
  rw [fails_eq]
  rfl

@[simp] theorem unsentOf_startWatchdog (e : Side) :
    (s.startWatchdog clock e).unsentOf d = s.unsentOf d := by
  simp only [State.startWatchdog]
  split <;> rfl

@[simp] theorem startWatchdog_connect : (s.startWatchdog clock d).connect = s.connect := by
  simp only [State.startWatchdog]
  split <;> rfl

theorem handle_connect (c : Completion) :
    (s.handle clock timeout d c).connect = s.connect := by
  rcases handle_cases s d c with ⟨-, heq⟩ | ⟨n, -, heq⟩ | ⟨n, -, heq⟩ <;> rw [heq] <;> rfl

theorem unsentOf_start (op : Operation) :
    ((s.asyncStart clock d op).delay clock timeout d).unsentOf d = s.unsentOf d + op.unsent := by
  simp only [State.unsentOf, State.delay, State.asyncStart, Function.update_self, List.map_append,
    List.sum_append, List.map_cons, List.map_nil, List.sum_cons, List.sum_nil]
  omega

theorem unsentOf_start_of_ne {e : Side} (hde : d ≠ e) (op : Operation) :
    ((s.asyncStart clock e op).delay clock timeout e).unsentOf d = s.unsentOf d := by
  simp only [State.unsentOf, State.delay, State.asyncStart, Function.update_of_ne hde]

/-- An operation completes. -/
theorem owedOf_complete {i : ℕ} {op : Operation} (hop : (s.outstanding d)[i]? = some op)
    (c : Completion) :
    (s.complete d i c).owedOf clock d + (op.left + op.unsent) =
      s.owedOf clock d + (c.left + c.unsent) := by
  have hleft := sum_eraseIdx Operation.left hop
  have hunsent := sum_eraseIdx Operation.unsent hop
  simp only [State.owedOf, State.leftOf, State.unsentOf, State.complete, Function.update_self,
    List.map_append, List.sum_append, List.map_cons, List.map_nil, List.sum_cons, List.sum_nil]
  omega

theorem owedOf_complete_of_ne {e : Side} (hde : d ≠ e) (i : ℕ) (c : Completion) :
    (s.complete e i c).owedOf clock d = s.owedOf clock d := by
  simp only [State.owedOf, State.leftOf, State.unsentOf, State.complete, Function.update_of_ne hde]

theorem owedOf_dequeue {i : ℕ} {c : Completion} (hc : (s.completed d)[i]? = some c) :
    (s.dequeue d i).owedOf clock d + (c.left + c.unsent) = s.owedOf clock d := by
  have hleft := leftOf_dequeue clock s d hc
  have hunsent := sum_eraseIdx Completion.unsent hc
  simp only [State.owedOf, State.unsentOf, State.dequeue, Function.update_self] at hleft ⊢
  omega

/-- The handler of a completion, which is out of the queue. -/
theorem owedOf_handle (h : ∀ e, s.waiting e ≤ 1) (c : Completion) :
    (s.handle clock timeout d c).owedOf clock d + 1 ≤ s.owedOf clock d + (c.left + c.unsent) ∧
      ∀ e, e ≠ d → (s.handle clock timeout d c).owedOf clock e ≤ s.owedOf clock e := by
  obtain ⟨hleft, hothers⟩ := leftOf_handle clock timeout s d h c
  have hunsent : (s.handle clock timeout d c).unsentOf d ≤ s.unsentOf d + c.unsent ∧
      ∀ e, e ≠ d → (s.handle clock timeout d c).unsentOf e = s.unsentOf e := by
    rcases handle_cases s d c with ⟨-, heq⟩ | ⟨n, rfl, heq⟩ | ⟨n, rfl, heq⟩
    · rw [heq]
      exact ⟨Nat.le_add_right _ _, fun e _ => rfl⟩
    · rw [heq]
      refine ⟨(unsentOf_start clock timeout s d _).trans_le (Nat.add_le_add_left ?_ _), fun e hed =>
        unsentOf_start_of_ne clock timeout s e hed _⟩
      exact Nat.min_le_left n bufferSize
    · rw [heq]
      exact ⟨(unsentOf_start clock timeout s d _).le, fun e hed =>
        unsentOf_start_of_ne clock timeout s e hed _⟩
  refine ⟨?_, fun e hed => ?_⟩
  · have hbytes := hunsent.1
    simp only [State.owedOf]
    omega
  · rw [State.owedOf, State.owedOf, hunsent.2 e hed]
    exact Nat.add_le_add_right (hothers e hed) _

end

/-! ### The connect -/

variable (clock) in
/-- The watchdog is started for the first time. -/
theorem leftOf_startWatchdog_first (d : Side) (h : s.waiting d = 0) :
    (s.startWatchdog clock d).leftOf clock d ≤ s.leftOf clock d + 2 := by
  have hw : (s.watchdog d).timer.waits = 0 := Nat.eq_zero_of_add_eq_zero_right h
  have hnil : s.waits d = [] := List.eq_nil_of_length_eq_zero (Nat.eq_zero_of_add_eq_zero_left h)
  simp only [State.startWatchdog]
  split
  · have hstop := leftOf_stop clock
      { s with
        instant := s.instant + 1
        begun := Function.update s.begun d true
        log := s.log ++ [.expired d (clock.read s.instant)] } d (h.trans_le (Nat.zero_le 1))
    have hlater := Watchdog.left_later (h.trans_le (Nat.zero_le 1))
      (clock.mono (Nat.le_succ s.instant))
    exact (hstop.trans (Nat.add_le_add_left hlater _)).trans (Nat.le_add_right _ 2)
  · rename_i watchdog aborted hsome
    have hstart := Watchdog.left_start (clock.read (s.instant + 1)) hw hsome
    have hwoken : (s.watchdog d).left (clock.read s.instant) [none] =
        if (s.watchdog d).deadline ≤ clock.read s.instant then 1 else 3 := Watchdog.left_woken hw
    simp only [State.leftOf, Function.update_self, hnil, List.nil_append]
    split at hwoken <;> omega

theorem waiting_receive (d e : Side) :
    (s.receive clock timeout e e e).waiting d = s.waiting d := by
  rw [State.receive, waiting_delay, waiting_asyncStart]

variable (clock timeout) in
/-- `handle_connect` starts two receives and both watchdogs. -/
theorem owed_handleConnect (h : ∀ d, s.waiting d = 0) :
    (s.handleConnect clock timeout none).owed clock ≤ s.owed clock + 12 := by
  have hreceive : ∀ (m : State) (d : Side), (∀ e, m.waiting e = 0) →
      (m.receive clock timeout d d d).owed clock ≤ m.owed clock + 4 := by
    intro m d hm
    refine owed_add_le (m := 0) d rfl ?_ fun e hed => ?_
    · have hleft := leftOf_start clock timeout m d ((hm d).trans_le (Nat.zero_le 1)) (.receive d d)
      have hunsent := unsentOf_start clock timeout m d (.receive d d)
      simp only [State.owedOf, State.receive, Operation.left, Operation.unsent] at hleft hunsent ⊢
      omega
    · have hleft := leftOf_start_of_ne clock timeout m e hed ((hm e).trans_le (Nat.zero_le 1))
        (.receive d d)
      have hunsent := unsentOf_start_of_ne clock timeout m e hed
        (.receive d d)
      simp only [State.owedOf, State.receive] at hleft hunsent ⊢
      omega
  have hwatch : ∀ (m : State) (d : Side), m.waiting d = 0 → (∀ e, m.waiting e ≤ 1) →
      (m.startWatchdog clock d).owed clock ≤ m.owed clock + 2 := by
    intro m d hzero hm
    refine owed_add_le (m := 0) d (startWatchdog_connect clock m d) ?_ fun e hed => ?_
    · have hleft := leftOf_startWatchdog_first clock d hzero
      rw [State.owedOf, State.owedOf, unsentOf_startWatchdog]
      omega
    · have hleft := leftOf_startWatchdog_of_ne clock m e hed (hm e)
      rw [State.owedOf, State.owedOf, unsentOf_startWatchdog]
      omega
  have hclient := hreceive s .client h
  have hserver := hreceive (s.receive clock timeout .client .client .client) .server fun d =>
    (waiting_receive d .client).trans (h d)
  have hzero : ∀ d, ((s.receive clock timeout .client .client .client).receive clock timeout
      .server .server .server).waiting d = 0 := fun d =>
    (waiting_receive d .server).trans ((waiting_receive d .client).trans (h d))
  have hfirst := hwatch _ .client (hzero .client) fun e => (hzero e).trans_le (Nat.zero_le 1)
  have hnone : (((s.receive clock timeout .client .client .client).receive clock timeout
      .server .server .server).startWatchdog clock .client).waiting .server = 0 := by
    rw [waiting_startWatchdog_of_ne _ (by decide), hzero]
  have hsecond := hwatch _ .server hnone fun e => by
    cases e with
    | client => exact (waiting_startWatchdog_le _ _).trans (congrArg (· + 1) (hzero .client)).le
    | server => exact hnone.trans_le (Nat.zero_le 1)
  show ((((s.receive clock timeout .client .client .client).receive clock timeout .server .server
    .server).startWatchdog clock .client).startWatchdog clock .server).owed clock ≤ _
  omega

/-! ### Steps -/

/-- What is seen of a session of the proxy. -/
def view : View State Label where
  elapse := .elapse
  works := Label.works
  chunk := Label.chunk
  isOpen s := s.isOpen .client || s.isOpen .server
  refs := State.refs

/-- A write gets on, by at least a byte. -/
theorem owed_writeSome {d socket buffer : Side} {i k bytes done : ℕ}
    (hop : (s.outstanding d)[i]? = some (.write socket buffer bytes done)) (hpos : 0 < k)
    (hle : done + k ≤ bytes) (written : Side → List UInt8) :
    State.owed clock { s with
      outstanding := Function.update s.outstanding d
        ((s.outstanding d).set i (.write socket buffer bytes (done + k)))
      written := written } + 1 ≤ s.owed clock := by
  have hlt : i < (s.outstanding d).length := (List.getElem?_eq_some_iff.mp hop).1
  have hnew := List.getElem?_set_self (a := Operation.write socket buffer bytes (done + k)) hlt
  have hleft := sum_eraseIdx Operation.left hop
  have hunsent := sum_eraseIdx Operation.unsent hop
  have hleft' := sum_eraseIdx Operation.left hnew
  have hunsent' := sum_eraseIdx Operation.unsent hnew
  rw [List.eraseIdx_set_eq] at hleft' hunsent'
  refine owed_add_le (n := 0) d rfl ?_ fun e hed => ?_
  · simp only [Operation.left, Operation.unsent] at hleft hunsent hleft' hunsent'
    simp only [State.owedOf, State.leftOf, State.unsentOf, Function.update_self]
    omega
  · simp only [State.owedOf, State.leftOf, State.unsentOf, Function.update_of_ne hed]
    exact Nat.le_refl _

/-- The handler of the connect runs; neither watchdog has been started before. -/
theorem owed_runConnect (h : (system clock timeout).Reachable s) {error : Option Error}
    (hconnect : s.connect = .completed error) :
    (State.handleConnect clock timeout { s with connect := .handled } error).owed clock + 1 ≤
      s.owed clock := by
  have hhandled : State.owed clock { s with connect := .handled } + 13 = s.owed clock := by
    simp only [State.owed, State.owedOf, State.leftOf, State.unsentOf, hconnect, Connect.left]
  cases error with
  | some e =>
    show State.owed clock { s with connect := .handled } + 1 ≤ s.owed clock
    omega
  | none =>
    have hzero : ∀ d, s.waiting d = 0 := by
      intro d
      have hw := watched_of_reach h
      obtain ⟨hstopped, hbegun⟩ := hw.before (by simp [hconnect])
      have hcount := (hw.watches d).count hstopped
      rw [hbegun d] at hcount
      simpa [State.watch, State.waiting] using hcount
    have hle := owed_handleConnect clock timeout (s := { s with connect := .handled }) hzero
    omega

/-- The handler of a completed operation runs. -/
theorem owed_runIo (hwaiting : ∀ d, s.waiting d ≤ 1) {d : Side} {i : ℕ} {c : Completion}
    (hc : (s.completed d)[i]? = some c) :
    ((s.dequeue d i).handle clock timeout d c).owed clock + 1 ≤ s.owed clock := by
  have htaken := owedOf_dequeue clock s d hc
  have hothers : ∀ e, e ≠ d → (s.dequeue d i).owedOf clock e = s.owedOf clock e := by
    intro e hed
    simp only [State.owedOf, State.leftOf, State.unsentOf, State.dequeue,
      Function.update_of_ne hed]
  obtain ⟨hself, hrest⟩ := owedOf_handle clock timeout (s.dequeue d i) d hwaiting c
  have hconnect : ((s.dequeue d i).handle clock timeout d c).connect = s.connect :=
    handle_connect clock timeout (s.dequeue d i) d c
  refine owed_add_le (n := 0) d hconnect (by omega) fun e hed => ?_
  rw [← hothers e hed]
  exact hrest e hed

/-- The handler of a completed wait runs. -/
theorem owed_runWait (hwaiting : ∀ d, s.waiting d ≤ 1) {d : Side} {i : ℕ} {error : Option Error}
    (hwait : (s.waits d)[i]? = some error) :
    ((s.dequeueWait d i).handleWait clock d error).owed clock + 1 ≤ s.owed clock := by
  have hothers : ∀ e, e ≠ d → (s.dequeueWait d i).leftOf clock e = s.leftOf clock e :=
    fun e hed => leftOf_dequeueWait_of_ne clock s e hed i
  cases error with
  | some err =>
    have hself := leftOf_dequeueWait clock s d hwait
    refine owed_add_le (m := 1) (n := 0) d rfl ?_ fun e hed =>
      Nat.add_le_add_right (hothers e hed).le _
    show (s.dequeueWait d i).leftOf clock d + s.unsentOf d + 1 ≤
      s.leftOf clock d + s.unsentOf d + 0
    omega
  | none =>
    have hself := leftOf_startWatchdog clock s d (hwaiting d) hwait
    have hconnect : ((s.dequeueWait d i).startWatchdog clock d).connect = s.connect :=
      startWatchdog_connect clock (s.dequeueWait d i) d
    have hunsent : ∀ e, ((s.dequeueWait d i).startWatchdog clock d).unsentOf e = s.unsentOf e :=
      fun e => unsentOf_startWatchdog clock (s.dequeueWait d i) e d
    refine owed_add_le (m := 1) (n := 0) d hconnect ?_ fun e hed => ?_
    · show ((s.dequeueWait d i).startWatchdog clock d).leftOf clock d +
        ((s.dequeueWait d i).startWatchdog clock d).unsentOf d + 1 ≤ _
      rw [hunsent, State.owedOf]
      omega
    · have hwaiting' : (s.dequeueWait d i).waiting e ≤ 1 :=
        (waiting_dequeueWait_of_ne s hed i).trans_le (hwaiting e)
      have hle := leftOf_startWatchdog_of_ne clock (s.dequeueWait d i) e hed hwaiting'
      rw [hothers e hed] at hle
      show ((s.dequeueWait d i).startWatchdog clock d).leftOf clock e +
        ((s.dequeueWait d i).startWatchdog clock d).unsentOf e ≤ _
      rw [hunsent, State.owedOf]
      omega

/-- **Every step is paid for.** -/
theorem owed_next (h : (system clock timeout).Reachable s) {l : Label}
    (hs : s.next clock timeout l = some s') :
    s'.owed clock + 1 ≤ s.owed clock + view.credit 8 l := by
  have hwaiting : ∀ d, s.waiting d ≤ 1 := waiting_of_reach h
  -- an operation that completes is good for one step more than its completion
  have hcompletes : ∀ {d : Side} {i : ℕ} {op : Operation} {c : Completion},
      (s.outstanding d)[i]? = some op → c.left + c.unsent + 1 ≤ op.left + op.unsent →
      (s.complete d i c).owed clock + 1 ≤ s.owed clock + 0 := by
    intro d i op c hop hle
    have hself := owedOf_complete clock s d hop c
    refine owed_add_le d rfl (by omega) fun e hed => ?_
    exact (owedOf_complete_of_ne clock s e hed i c).le
  have hfails : ∀ (m : State) socket e, (m.fails socket e).owed clock = m.owed clock := by
    intro m socket e
    simp only [State.owed, State.owedOf, leftOf_fails, unsentOf_fails]
    rw [fails_eq]
  cases next_step hs with
  | elapse =>
    have hlater : ∀ d, State.owedOf clock { s with instant := s.instant + 1 } d ≤
        s.owedOf clock d := fun d =>
      Nat.add_le_add_right (Nat.add_le_add_left (Watchdog.left_later (hwaiting d)
        (clock.mono (Nat.le_succ s.instant))) _) _
    exact owed_add_le (m := 1) .client rfl (Nat.add_le_add_right (hlater .client) 1)
      fun e _ => hlater e
  | connectDone hconnect =>
    simp only [State.owed, State.owedOf, State.leftOf, State.unsentOf, hconnect, Connect.left,
      view, View.credit, View.price, Label.chunk, Label.works]
    omega
  | @receiveDone d socket buffer i chunk hop _ =>
    have hself := owedOf_complete clock s d hop (.receive none chunk.bytes.length)
    simp only [Operation.left, Operation.unsent, Completion.left, Completion.unsent] at hself
    have hdone : (s.complete d i (.receive none chunk.bytes.length)).owed clock + 1 ≤
        s.owed clock + (8 + chunk.bytes.length) := by
      refine owed_add_le d rfl (by omega) fun e hed => ?_
      exact (owedOf_complete_of_ne clock s e hed i _).le
    exact hdone
  | receiveFails hop =>
    rw [hfails]
    exact hcompletes hop (Nat.le_refl 2)
  | writeSome hop _ hpos hle => exact owed_writeSome hop hpos hle _
  | writeDone hop =>
    exact hcompletes hop (by simp only [Operation.left, Completion.left, Completion.unsent]; omega)
  | writeFails hop =>
    rw [hfails]
    exact hcompletes hop (by simp only [Operation.left, Completion.left, Completion.unsent]; omega)
  | @waitDone d timer htimer =>
    refine owed_add_le (n := 0) d rfl ?_ fun e hed => ?_
    · have hwoken := Watchdog.left_complete (hwaiting d) htimer
      simp only [State.owedOf, State.leftOf, State.unsentOf, Function.update_self]
      omega
    · simp only [State.owedOf, State.leftOf, State.unsentOf, Function.update_of_ne hed, le_refl]
  | runConnect hconnect => exact owed_runConnect h hconnect
  | runIo hc => exact owed_runIo hwaiting hc
  | runWait hwait => exact owed_runWait hwaiting hwait

/-- The connect, an operation, a completion or a wait can go on without a receive, when enough
time has passed. -/
theorem exists_works_deaf (hclock : ∀ t, ∃ n, t ≤ clock.read n) (h : s.refs ≠ 0) :
    ∃ n l s', l.works = true ∧ l.chunk = none ∧
      (system clock timeout).run s (List.replicate n .elapse ++ [l]) = some s' := by
  have hnow : ∀ l s', l.works = true → l.chunk = none → s.next clock timeout l = some s' →
      ∃ n l s', l.works = true ∧ l.chunk = none ∧
        (system clock timeout).run s (List.replicate n .elapse ++ [l]) = some s' :=
    fun l s' hl hchunk hs => exists_works_after 0 l rfl hs hl hchunk
  cases hconnect : s.connect with
  | outstanding =>
    exact hnow (.connectDone none) _ rfl rfl (by simp only [State.next, hconnect, if_true]; rfl)
  | completed error => exact hnow .runConnect _ rfl rfl (by simp only [State.next, hconnect]; rfl)
  | handled => exact exists_works_of_handled hclock hconnect h

/-- A session that nothing refers to is left alone. -/
theorem next_eq_none_of_refs (h : s.refs = 0) {l : Label} (hl : l.works = true) :
    s.next clock timeout l = none := by
  have hconnect : s.connect = .handled := by
    by_contra hnot
    simp only [State.refs, if_neg hnot] at h
    omega
  have hnone : ∀ d, s.outstanding d = [] ∧ s.completed d = [] ∧
      (s.watchdog d).timer.waits = 0 ∧ s.waits d = [] := by
    simp only [State.refs, State.waiting] at h
    intro d
    cases d <;>
      exact ⟨List.eq_nil_of_length_eq_zero (by omega), List.eq_nil_of_length_eq_zero (by omega),
        by omega, List.eq_nil_of_length_eq_zero (by omega)⟩
  cases l with
  | elapse => cases hl
  | connectDone _ | runConnect => simp [State.next, hconnect]
  | waitDone d => simp [State.next, Timer.complete, (hnone d).2.2.1]
  | runIo d _ => simp [State.next, (hnone d).2.1]
  | runWait d _ => simp [State.next, (hnone d).2.2.2]
  | receiveDone d _ _ | receiveFails d _ _ | writeSome d _ _ | writeDone d _ | writeFails d _ _ =>
    simp [State.next, (hnone d).1]

theorem isOpen_startWatchdog (d : Side) (h : ∀ x, s.isOpen x = false) (x : Side) :
    (s.startWatchdog clock d).isOpen x = false := by
  simp only [State.startWatchdog]
  split
  · rfl
  · exact h x

/-- Closed sockets stay closed, and receive nothing. -/
theorem closed_next (h : ∀ x, s.isOpen x = false) {l : Label}
    (hs : s.next clock timeout l = some s') : l.chunk = none ∧ ∀ x, s'.isOpen x = false := by
  cases next_step hs with
  | elapse | connectDone _ | writeDone _ | waitDone _ => exact ⟨rfl, h⟩
  | receiveFails _ | writeFails _ =>
    rw [fails_eq]
    exact ⟨rfl, h⟩
  | receiveDone _ hopen | writeSome _ hopen _ _ =>
    rw [h] at hopen
    cases hopen
  | @runConnect error _ =>
    cases error with
    | some e => exact ⟨rfl, h⟩
    | none => exact ⟨rfl, isOpen_startWatchdog .server (isOpen_startWatchdog .client h)⟩
  | @runIo d i c _ =>
    rcases handle_cases (s.dequeue d i) d c with ⟨-, heq⟩ | ⟨n, -, heq⟩ | ⟨n, -, heq⟩
    · rw [heq]
      exact ⟨rfl, fun _ => rfl⟩
    · rw [heq]
      exact ⟨rfl, h⟩
    · rw [heq]
      exact ⟨rfl, h⟩
  | @runWait d i error _ =>
    cases error with
    | some e => exact ⟨rfl, h⟩
    | none => exact ⟨rfl, isOpen_startWatchdog (s := s.dequeueWait d i) d h⟩

/-- The steps of a session are paid for. -/
theorem amortised_system (clock : Clock ℤ) (timeout : ℤ) :
    (system clock timeout).Amortised (system clock timeout).Reachable (view.credit 8)
      (State.owed clock) :=
  ⟨fun h hs => .step h trivial hs, fun h hs => owed_next h hs⟩

/-- Only the connect is owed at first. -/
theorem owed_start (buffer : Side → Buffer) : (State.start buffer).owed clock ≤ 14 := by
  simp [State.owed, State.owedOf, State.leftOf, State.unsentOf, State.start, Watchdog.left,
    Watchdog.new, Connect.left]

/-- **The sessions of the proxy wind down.** -/
theorem windsDown_system (clock : Clock ℤ) (timeout : ℤ) :
    Asio.WindsDown (system clock timeout) view clock 14 8 := by
  refine .of_amortised (amortised_system clock timeout) (fun s h0 => ⟨.init h0, ?_⟩)
    (fun hclock s hrefs => exists_works_deaf hclock hrefs)
    (fun s hrefs l hl => next_eq_none_of_refs hrefs hl) (fun s l s' hopen hs => ?_)
  · obtain ⟨buffer, rfl⟩ := h0
    exact owed_start buffer
  · have hboth : ∀ m : State, (m.isOpen .client || m.isOpen .server) = false ↔
        ∀ x, m.isOpen x = false := by
      intro m
      rw [Bool.or_eq_false_iff]
      exact ⟨fun hm x => by cases x with
        | client => exact hm.1
        | server => exact hm.2, fun hm => ⟨hm _, hm _⟩⟩
    obtain ⟨hl, hclosed⟩ := closed_next ((hboth s).mp hopen) hs
    exact ⟨hl, (hboth s').mpr hclosed⟩

end CcSnippets.Asio.Proxy

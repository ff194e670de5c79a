import CcSnippets.Asio.Echo.Steps
import CcSnippets.Asio.Echo.Machine

/-!
# CcSnippets.Asio.Echo.Callbacks

The session of `server.cc` is an **echo machine**, in either loop.

At any time the session has one operation outstanding, or one completion of an
operation queued, or it has ended (`State.InTurn`). Whatever the timers do besides
is seen only in how the next operation completes.
-/

namespace CcSnippets.Asio.Echo

open CcSnippets.Core Machine

variable {clock : Clock ℤ} {timeout : ℤ} {s m s' : State}

/-! ### What is seen -/

/-- What is requested of the socket. -/
def Operation.request (buffer : Buffer) : Operation → Request
  | .receive => .receive buffer.bytes.length
  | .write bytes _ => .write (buffer.bytes.take bytes)

/-- The requests for these operations. -/
def State.requests (s : State) (ops : List (Operation × ℤ)) : List Machine.Event :=
  ops.map fun op => .request (op.1.request s.buffer)

/-- What is seen of a session once it is started. -/
def State.seen (s : State) : List Machine.Event := s.requests s.outstanding

/-- What is seen of a step. -/
def observe (s : State) (l : Label) (s' : State) : List Machine.Event :=
  match l with
  | .receiveDone _ chunk => [.received chunk]
  | .writeSome _ _ => [.sent (s'.written.drop s.written.length)]
  | .writeDone _ => [.written]
  | .receiveFails _ error | .writeFails _ error => [.failed error]
  | .run _ => s'.requests (s'.outstanding.drop s.outstanding.length)
  | .elapse | .waitDone => []

/-- The completion of an operation on the socket. -/
def Completion.isIo : Completion → Bool
  | .wait _ => false
  | _ => true

/-- The completions of operations on the socket, queued. -/
def State.io (s : State) : List Completion := s.queue.filter Completion.isIo

/-- No handler of such a completion is still to run. -/
def State.Settled (s : State) : Prop := s.io = []

/-! ### Handlers -/

/-- The operation that the handler of a completion starts. -/
def Completion.starts : Completion → List Operation
  | .receive none bytes => [.write (min bytes bufferSize) 0]
  | .write none _ => [.receive]
  | _ => []

/-- What is done: some operations are started and some waits aborted. -/
structure State.Starts (s : State) (ops : List Operation) (s' : State) : Prop where
  outstanding : ∃ t, s'.outstanding = s.outstanding ++ ops.map fun op => (op, t)
  buffer : s'.buffer = s.buffer
  queue : ∃ n, s'.queue = s.queue ++ List.replicate n (.wait (some .aborted))

namespace State.Starts

theorem refl (s : State) : s.Starts [] s := ⟨⟨0, by simp⟩, rfl, 0, by simp⟩

theorem trans {ops ops' : List Operation} (h : s.Starts ops m) (h' : m.Starts ops' s')
    (hone : ops = [] ∨ ops' = []) : s.Starts (ops ++ ops') s' := by
  obtain ⟨⟨t, hout⟩, hbuffer, n, hqueue⟩ := h
  obtain ⟨⟨t', hout'⟩, hbuffer', n', hqueue'⟩ := h'
  refine ⟨?_, hbuffer'.trans hbuffer, n + n', ?_⟩
  · rcases hone with rfl | rfl
    · exact ⟨t', by simpa [hout] using hout'⟩
    · exact ⟨t, by simpa [hout] using hout'⟩
  · rw [hqueue', hqueue, List.append_assoc, List.replicate_append_replicate]

/-- Something is done before the operations are started. -/
theorem before {ops : List Operation} (h : s.Starts [] m) (h' : m.Starts ops s') :
    s.Starts ops s' := h.trans h' (.inl rfl)

/-- Something is done behind it. -/
theorem behind {ops : List Operation} (h : s.Starts ops m) (h' : m.Starts [] s') :
    s.Starts ops s' := by
  simpa using h.trans h' (.inr rfl)

theorem cancelTimer (s : State) : s.Starts [] s.cancelTimer :=
  ⟨⟨0, by simp [State.cancelTimer]⟩, rfl, _, rfl⟩

theorem stop (s : State) : s.Starts [] s.stop :=
  ⟨⟨0, by simp [State.stop, State.cancelTimer]⟩, rfl, _, rfl⟩

theorem delay (s : State) : s.Starts [] (s.delay clock timeout) :=
  ⟨⟨0, by simp [State.delay]⟩, rfl, 0, by simp [State.delay]⟩

theorem startTimeout (s : State) : s.Starts [] (s.startTimeout clock timeout) :=
  ⟨⟨0, by simp [State.startTimeout]⟩, rfl, _, rfl⟩

theorem startWatchdog (s : State) : s.Starts [] (s.startWatchdog clock) := by
  simp only [State.startWatchdog]
  split
  · exact ⟨⟨0, by simp [State.stop, State.cancelTimer]⟩, rfl, _, rfl⟩
  · exact ⟨⟨0, by simp⟩, rfl, _, rfl⟩

theorem asyncStart (s : State) (op : Operation) : s.Starts [op] (s.asyncStart clock op) :=
  ⟨⟨_, rfl⟩, rfl, 0, by simp [State.asyncStart]⟩

variable (clock timeout) in
/-- **The handler of a completion.** -/
theorem handle (s : State) (c : Completion) : s.Starts c.starts (s.handle clock timeout c) := by
  unfold State.handle
  split
  · cases c with
    | receive error bytes =>
      cases error with
      | none => exact (cancelTimer s).before ((asyncStart _ _).behind (startTimeout _))
      | some _ => exact (cancelTimer s).before (stop _)
    | write error bytes =>
      cases error with
      | none => exact (cancelTimer s).before ((asyncStart _ _).behind (startTimeout _))
      | some _ => exact (cancelTimer s).before (stop _)
    | wait error =>
      cases error with
      | none => exact stop s
      | some _ => exact refl s
  · cases c with
    | receive error bytes =>
      cases error with
      | none => exact (asyncStart _ _).behind (delay _)
      | some _ => exact stop s
    | write error bytes =>
      cases error with
      | none => exact (asyncStart _ _).behind (delay _)
      | some _ => exact stop s
    | wait error =>
      cases error with
      | none => exact startWatchdog s
      | some _ => exact refl s

variable (clock timeout) in
/-- `start` starts a receive. -/
theorem start (s : State) : s.Starts [.receive] (s.start clock timeout) := by
  unfold State.start
  split
  · exact (asyncStart s _).behind (startTimeout _)
  · exact ((asyncStart s _).behind (delay _)).behind (startWatchdog _)

theorem io {ops : List Operation} (h : s.Starts ops s') : s'.io = s.io := by
  obtain ⟨n, hqueue⟩ := h.queue
  have hwait : ¬ (Completion.wait (some .aborted)).isIo = true := by simp [Completion.isIo]
  rw [State.io, hqueue, List.filter_append, List.filter_replicate_of_neg hwait, List.append_nil]
  rfl

end State.Starts

/-! ### The session's turn -/

/-- The session is where the machine is. -/
def State.InTurn (s : State) : Turn → Prop
  | .toReceive => s.outstanding = [] ∧ ∃ n, s.io = [.write none n]
  | .receiving => (∃ t, s.outstanding = [(.receive, t)]) ∧ s.io = []
  | .toWrite chunk =>
    s.outstanding = [] ∧ s.io = [.receive none chunk.bytes.length] ∧
      s.buffer.bytes.take chunk.bytes.length = chunk.bytes
  | .writing chunk rest =>
    (∃ k t, s.outstanding = [(.write chunk.bytes.length k, t)] ∧ rest = chunk.bytes.drop k) ∧
      s.io = [] ∧ s.buffer.bytes.take chunk.bytes.length = chunk.bytes
  | .ended _ => s.outstanding = [] ∧ ∀ c ∈ s.io, c.starts = []

theorem State.InTurn.congr {t : Turn} (h : s.InTurn t) (hout : s'.outstanding = s.outstanding)
    (hbuffer : s'.buffer = s.buffer) (hio : s'.io = s.io) : s'.InTurn t := by
  cases t <;> simpa only [State.InTurn, hout, hbuffer, hio] using h

/-- A settled session owes no request. -/
theorem State.InTurn.due_eq_nil {t : Turn} (h : s.InTurn t) (hs : s.Settled) : t.due = [] := by
  cases t with
  | toReceive =>
    obtain ⟨-, n, hio⟩ := h
    cases hio.symm.trans hs
  | toWrite chunk => cases h.2.1.symm.trans hs
  | receiving | writing | ended => rfl

/-- Completion `c` is taken out of the queue, and its handler runs. -/
theorem State.InTurn.handle {t : Turn} (h : s.InTurn t) {before after : List Completion}
    {c : Completion} (hc : c.isIo = true) (hio : s.io = before ++ c :: after)
    (hstarts : m.Starts c.starts s') (hout : m.outstanding = s.outstanding)
    (hbuffer : m.buffer = s.buffer) (hrest : m.io = before ++ after) :
    ∃ t', turns.run t (s'.requests (s'.outstanding.drop s.outstanding.length)) = some t' ∧
      s'.InTurn t' := by
  obtain ⟨now, hnow⟩ := hstarts.outstanding
  have hio' : s'.io = before ++ after := hstarts.io.trans hrest
  rw [hout] at hnow
  rw [State.requests, hnow, List.drop_left' rfl, hstarts.buffer, hbuffer]
  cases t with
  | toReceive =>
    obtain ⟨hnone, n, hone⟩ := h
    obtain ⟨rfl, rfl, rfl⟩ : before = [] ∧ c = .write none n ∧ after = [] := by
      simpa [List.append_eq_cons_iff] using hio.symm.trans hone
    refine ⟨.receiving, ?_, ⟨now, by rw [hnow, hnone]; rfl⟩, hio'⟩
    simp [Completion.starts, Operation.request, s.buffer.size, turns, System.run, Request.first]
  | toWrite chunk =>
    obtain ⟨hnone, hone, hchunk⟩ := h
    obtain ⟨rfl, rfl, rfl⟩ : before = [] ∧ c = .receive none chunk.bytes.length ∧ after = [] := by
      simpa [List.append_eq_cons_iff] using hio.symm.trans hone
    have hmin : min chunk.bytes.length bufferSize = chunk.bytes.length := Nat.min_eq_left chunk.le
    refine ⟨.writing chunk chunk.bytes, ?_, ⟨0, now, ?_, rfl⟩, hio', ?_⟩
    · simp [Completion.starts, Operation.request, hmin, hchunk, turns, System.run]
    · rw [hnow, hnone, Completion.starts, hmin]
      rfl
    · rw [hstarts.buffer, hbuffer]
      exact hchunk
  | receiving =>
    rw [h.2] at hio
    exact absurd hio.symm (by simp)
  | writing chunk rest =>
    rw [h.2.1] at hio
    exact absurd hio.symm (by simp)
  | ended rest =>
    obtain ⟨hnone, herrors⟩ := h
    have hnil : c.starts = [] := herrors c (by simp [hio])
    rw [hnil]
    refine ⟨.ended rest, rfl, ?_, fun d hd => herrors d ?_⟩
    · rw [hnow, hnone, hnil]
      rfl
    · rw [hio'] at hd
      rw [hio]
      exact ((List.sublist_cons_self c after).append_left before).subset hd

/-- **A handler that runs** makes the request that the machine owes. -/
theorem State.InTurn.run {t : Turn} (h : s.InTurn t) {i : ℕ} {c : Completion}
    (hc : s.queue[i]? = some c) :
    ∃ t', turns.run t (observe s (.run i) ((s.dequeue i).handle clock timeout c)) = some t' ∧
      ((s.dequeue i).handle clock timeout c).InTurn t' := by
  have hstarts := State.Starts.handle clock timeout (s.dequeue i) c
  cases hwait : c.isIo with
  | true =>
    obtain ⟨before, after, hio, hrest⟩ := exists_filter_eraseIdx hc hwait
    exact h.handle (m := s.dequeue i) hwait hio hstarts rfl rfl hrest
  | false =>
    have hnil : c.starts = [] := by
      cases c with
      | wait => rfl
      | receive | write => cases hwait
    have hio : (s.dequeue i).io = s.io := filter_eraseIdx hc hwait
    obtain ⟨now, hout⟩ := hstarts.outstanding
    have hsame : ((s.dequeue i).handle clock timeout c).outstanding = s.outstanding := by
      rw [hout, hnil]
      exact List.append_nil _
    refine ⟨t, ?_, h.congr hsame hstarts.buffer (hstarts.io.trans hio)⟩
    rw [observe, hsame, List.drop_length]
    rfl

/-- A receive is outstanding only while the machine is receiving, -/
theorem State.InTurn.of_receive {t : Turn} (h : s.InTurn t) {i : ℕ} {since : ℤ}
    (hop : s.outstanding[i]? = some (.receive, since)) :
    t = .receiving ∧ s.outstanding.eraseIdx i = [] ∧ s.io = [] := by
  cases t with
  | receiving =>
    obtain ⟨⟨now, hout⟩, hio⟩ := h
    rw [hout] at hop ⊢
    obtain ⟨rfl, -⟩ := eq_of_getElem?_singleton hop
    exact ⟨rfl, rfl, hio⟩
  | writing chunk rest =>
    obtain ⟨⟨k, now, hout, -⟩, -, -⟩ := h
    rw [hout] at hop
    cases (eq_of_getElem?_singleton hop).2
  | toReceive | toWrite | ended =>
    rw [h.1] at hop
    cases hop

/-- and a write only while it is writing. -/
theorem State.InTurn.of_write {t : Turn} (h : s.InTurn t) {i bytes done : ℕ} {since : ℤ}
    (hop : s.outstanding[i]? = some (.write bytes done, since)) :
    ∃ chunk : Chunk, t = .writing chunk (chunk.bytes.drop done) ∧ bytes = chunk.bytes.length ∧
      i = 0 ∧ s.outstanding = [(.write bytes done, since)] ∧ s.io = [] ∧
      s.buffer.bytes.take chunk.bytes.length = chunk.bytes := by
  cases t with
  | writing chunk rest =>
    obtain ⟨⟨k, now, hout, rfl⟩, hio, hchunk⟩ := h
    rw [hout] at hop
    obtain ⟨rfl, heq⟩ := eq_of_getElem?_singleton hop
    cases heq
    exact ⟨chunk, rfl, rfl, rfl, hout, hio, hchunk⟩
  | receiving =>
    obtain ⟨⟨now, hout⟩, -⟩ := h
    rw [hout] at hop
    cases (eq_of_getElem?_singleton hop).2
  | toReceive | toWrite | ended =>
    rw [h.1] at hop
    cases hop

/-- One more completion is queued. -/
theorem io_complete (s : State) (i : ℕ) {c : Completion} (hc : c.isIo = true) :
    (s.complete i c).io = s.io ++ [c] := by
  rw [State.io, State.complete, List.filter_append, List.filter_cons_of_pos hc]
  rfl

/-- **Step lemma.** Every step of a session is one of the machine, or is not seen. -/
theorem simulates (clock : Clock ℤ) (timeout : ℤ) (withTimeout : Bool) :
    (system clock timeout withTimeout).Simulates turns observe State.InTurn := by
  intro s t l s' h hs
  cases next_step hs with
  | elapse => exact ⟨t, rfl, h.congr rfl rfl rfl⟩
  | @receiveDone i chunk since hop hopen =>
    obtain ⟨rfl, hout, hio⟩ := h.of_receive hop
    refine ⟨.toWrite chunk, rfl, hout, ?_, Buffer.take_fill s.buffer chunk⟩
    show (s.complete i (.receive none chunk.bytes.length)).io = _
    rw [io_complete s i rfl, hio]
    rfl
  | @receiveFails i error since hop =>
    obtain ⟨rfl, hout, hio⟩ := h.of_receive hop
    refine ⟨.ended [], rfl, hout, fun c hc => ?_⟩
    rw [io_complete s i rfl, hio] at hc
    rw [List.mem_singleton.mp hc]
    rfl
  | @writeSome i k bytes done since hop hopen hk hle =>
    obtain ⟨chunk, rfl, rfl, rfl, hout, hio, hchunk⟩ := h.of_write hop
    have htake : s.buffer.bytes.take (done + k) = chunk.bytes.take (done + k) := by
      rw [← hchunk, List.take_take, Nat.min_eq_left hle]
    refine ⟨.writing chunk (chunk.bytes.drop (done + k)), ?_, ⟨done + k, since, ?_, rfl⟩, hio,
      hchunk⟩
    · rw [observe, List.drop_left' rfl, htake]
      exact run_sent chunk hle
    · show s.outstanding.set 0 _ = _
      rw [hout]
      rfl
  | @writeDone i bytes since hop =>
    obtain ⟨chunk, rfl, rfl, rfl, hout, hio, hchunk⟩ := h.of_write hop
    refine ⟨.toReceive, ?_, ?_, chunk.bytes.length, ?_⟩
    · simp [observe, System.run, turns]
    · show s.outstanding.eraseIdx 0 = []
      rw [hout]
      rfl
    · rw [io_complete s 0 rfl, hio]
      rfl
  | @writeFails i bytes done error since hop =>
    obtain ⟨chunk, rfl, rfl, rfl, hout, hio, -⟩ := h.of_write hop
    refine ⟨.ended (chunk.bytes.drop done), rfl, ?_, fun c hc => ?_⟩
    · show s.outstanding.eraseIdx 0 = []
      rw [hout]
      rfl
    · rw [io_complete s 0 rfl, hio] at hc
      rw [List.mem_singleton.mp hc]
      rfl
  | waitDone htimer =>
    refine ⟨t, rfl, h.congr rfl rfl ?_⟩
    show (s.queue ++ [Completion.wait none]).filter Completion.isIo = _
    rw [List.filter_append]
    exact List.append_nil _
  | run hc => exact h.run hc

/-- **A session echoes**, whatever its timers do. -/
theorem echoes (clock : Clock ℤ) (timeout : ℤ) (withTimeout : Bool) :
    Echoes (strandSystem clock timeout withTimeout) State.seen observe State.Settled := by
  refine echoes_of_simulates (simulates clock timeout withTimeout) ?_ fun s t h => h.due_eq_nil
  intro s₀ h₀
  obtain ⟨buffer, rfl⟩ := h₀
  have hstarts := State.Starts.start clock timeout (.new withTimeout buffer)
  obtain ⟨now, hout⟩ := hstarts.outstanding
  refine ⟨.receiving, ?_, ⟨now, hout⟩, hstarts.io⟩
  rw [State.seen, hout]
  simp [State.requests, State.new, Operation.request, Buffer.size, System.run, turns,
    Request.first]

/-! ### Any outcomes -/

/-- A timer expires. -/
def Label.expires : Label → Bool
  | .waitDone => true
  | _ => false

/-- The label is one of the strand, and no timer expires. -/
def Label.Untimed (l : Label) : Prop := l.InOrder = true ∧ l.expires = false

/-- Only aborted waits are queued. -/
def State.Quiet (s : State) : Prop := ∀ c ∈ s.queue, c = .wait (some .aborted)

/-- The session has made the request, and nothing but its outcome is to come. -/
def State.Waits (s : State) : Option Request → Prop
  | some (.receive _) =>
    s.Quiet ∧ s.isOpen = true ∧ ∃ t, s.outstanding = [(.receive, t)]
  | some (.write bytes) =>
    s.Quiet ∧ s.isOpen = true ∧ 0 < bytes.length ∧
      ∃ t, s.outstanding = [(.write bytes.length 0, t)]
  | none => s.Quiet

theorem State.Waits.quiet {r : Option Request} (h : s.Waits r) : s.Quiet := by
  rcases r with _ | _ | _
  · exact h
  · exact h.1
  · exact h.1

theorem State.Waits.settled {r : Option Request} (h : s.Waits r) : s.Settled := by
  refine List.filter_eq_nil_iff.mpr fun c hc => ?_
  rw [h.quiet c hc]
  simp [Completion.isIo]

/-- Handlers have no outcomes. -/
theorem outcomes_requests (s : State) (ops : List (Operation × ℤ)) :
    outcomes (s.requests ops) = [] := by
  induction ops with
  | nil => rfl
  | cons op ops ih => exact ih

theorem outcomes_trace_run (n : ℕ) (s : State) (withTimeout : Bool) :
    outcomes ((system clock timeout withTimeout).trace observe s (List.replicate n (.run 0))) =
      [] := by
  induction n generalizing s with
  | zero => rfl
  | succ n ih =>
    rw [List.replicate_succ, System.trace]
    split
    · rw [outcomes_append, ih, List.append_nil]
      exact outcomes_requests _ _
    · rfl

/-- The handlers of aborted waits do nothing. -/
theorem run_aborted (withTimeout : Bool) {n : ℕ} {c : Completion}
    (hqueue : s.queue = List.replicate n (.wait (some .aborted)) ++ [c]) :
    (system clock timeout withTimeout).run s (List.replicate (n + 1) (.run 0)) =
      some (({ s with queue := [] } : State).handle clock timeout c) := by
  induction n generalizing s with
  | zero =>
    refine System.run_cons_eq_some.mpr ⟨_, ?_, rfl⟩
    simp [system, State.next, State.dequeue, hqueue]
  | succ n ih =>
    have hnext : (s.dequeue 0).handle clock timeout (.wait (some .aborted)) = s.dequeue 0 := by
      unfold State.handle
      split <;> rfl
    refine System.run_cons_eq_some.mpr ⟨s.dequeue 0, ?_, ?_⟩
    · simp only [system, State.next, hqueue, List.replicate_succ, List.cons_append,
        List.getElem?_cons_zero, hnext]
    · refine ih ?_
      rw [State.dequeue, hqueue]
      rfl

/-- An operation that succeeds leaves the socket open. -/
theorem isOpen_handle {c : Completion} (hc : c.starts ≠ []) :
    (s.handle clock timeout c).isOpen = s.isOpen := by
  unfold State.handle
  cases c with
  | receive error bytes =>
    cases error with
    | none => split <;> rfl
    | some _ => exact absurd rfl hc
  | write error bytes =>
    cases error with
    | none => split <;> rfl
    | some _ => exact absurd rfl hc
  | wait error => exact absurd rfl hc

/-- Where the completion of the operation is queued behind aborted waits, its handler
gets to run. -/
theorem run_handler (withTimeout : Bool) (hquiet : s.Quiet) {c : Completion}
    (hqueue : m.queue = s.queue ++ [c]) (hout : m.outstanding = []) :
    ∃ s', (system clock timeout withTimeout).run m
        (List.replicate (s.queue.length + 1) (.run 0)) = some s' ∧ s'.Quiet ∧
      (∃ t, s'.outstanding = c.starts.map fun op => (op, t)) ∧
      (c.starts ≠ [] → s'.isOpen = m.isOpen) := by
  rw [List.eq_replicate_of_mem hquiet] at hqueue
  have hstarts := State.Starts.handle clock timeout { m with queue := [] } c
  refine ⟨_, run_aborted withTimeout hqueue, fun d hd => ?_, ?_, fun hc => isOpen_handle hc⟩
  · obtain ⟨n, hn⟩ := hstarts.queue
    rw [hn] at hd
    exact List.eq_of_mem_replicate hd
  · obtain ⟨t, ht⟩ := hstarts.outstanding
    refine ⟨t, ht.trans ?_⟩
    rw [show ({ m with queue := [] } : State).outstanding = [] from hout, List.nil_append]

/-- **From an outcome to the next request.** -/
theorem State.Waits.answer {r r' : Option Request} {o : Outcome} (h : s.Waits r)
    (hr : conversation.next r o = some r') (withTimeout : Bool) :
    ∃ ls s', (∀ l ∈ ls, l.Untimed) ∧
      (system clock timeout withTimeout).run s ls = some s' ∧ s'.Waits r' ∧
      outcomes ((system clock timeout withTimeout).trace observe s ls) = [o] := by
  -- one label completes the operation, and then the handlers queued run
  have hsteps : ∀ (pre : List Label) (c : Completion) (m : State), (∀ l ∈ pre, l.Untimed) →
      (system clock timeout withTimeout).run s pre = some m →
      outcomes ((system clock timeout withTimeout).trace observe s pre) = [o] →
      m.queue = s.queue ++ [c] → m.outstanding = [] →
      (∀ s' : State, s'.Quiet → (∃ t, s'.outstanding = c.starts.map fun op => (op, t)) →
        (c.starts ≠ [] → s'.isOpen = m.isOpen) → s'.Waits r') →
      ∃ ls s', (∀ l ∈ ls, l.Untimed) ∧
        (system clock timeout withTimeout).run s ls = some s' ∧ s'.Waits r' ∧
        outcomes ((system clock timeout withTimeout).trace observe s ls) = [o] := by
    intro pre c m hpre hm hseen hqueue hout hwaits
    obtain ⟨s', hs', hquiet', hout', hopen⟩ := run_handler withTimeout h.quiet hqueue hout
    refine exists_run_answer hpre hm hseen (fun l hl => ?_) hs' (outcomes_trace_run _ m withTimeout)
      (hwaits s' hquiet' hout' hopen)
    rw [List.eq_of_mem_replicate hl]
    exact ⟨rfl, rfl⟩
  rcases r with _ | _ | bytes
  · cases hr
  · obtain ⟨-, hopen, t, hout⟩ := h
    cases o with
    | received chunk =>
      cases hr
      refine hsteps [.receiveDone 0 chunk] (.receive none chunk.bytes.length)
        { s.complete 0 (.receive none chunk.bytes.length) with
          buffer := s.buffer.fill chunk, received := s.received ++ chunk.bytes }
        (List.forall_mem_singleton.mpr ⟨rfl, rfl⟩) ?_ ?_ rfl
        (by simp [State.complete, hout]) ?_
      · simp [System.run, system, State.next, hout, hopen]
      · simp [System.trace, system, State.next, hout, hopen, observe, outcomes, Event.outcome?]
      · intro s' hquiet' hout' hopen'
        obtain ⟨t', ht'⟩ := hout'
        refine ⟨hquiet', (hopen' (by simp [Completion.starts])).trans hopen,
          List.length_pos_iff.mpr chunk.nonempty, t', ?_⟩
        rw [ht', Completion.starts, Nat.min_eq_left chunk.le]
        rfl
    | failed error =>
      cases hr
      refine hsteps [.receiveFails 0 error] (.receive (some error) 0)
        (s.complete 0 (.receive (some error) 0)) (List.forall_mem_singleton.mpr ⟨rfl, rfl⟩) ?_ ?_
        rfl (by simp [State.complete, hout]) fun s' hquiet' _ _ => hquiet'
      · simp [System.run, system, State.next, hout]
      · simp [System.trace, system, State.next, hout, observe, outcomes, Event.outcome?]
    | written => cases hr
  · obtain ⟨-, hopen, hpos, t, hout⟩ := h
    cases o with
    | written =>
      cases hr
      let wrote : State :=
        { s with
          outstanding := [(.write bytes.length bytes.length, t)]
          written := s.written ++ (s.buffer.bytes.take bytes.length).drop 0 }
      refine hsteps [.writeSome 0 bytes.length, .writeDone 0] (.write none bytes.length)
        (wrote.complete 0 (.write none bytes.length))
        (List.forall_mem_cons.mpr ⟨⟨rfl, rfl⟩, List.forall_mem_singleton.mpr ⟨rfl, rfl⟩⟩)
        ?_ ?_ rfl rfl ?_
      · simp [System.run, system, State.next, hout, hopen, hpos, wrote]
      · simp [System.trace, system, State.next, hout, hopen, hpos, observe, outcomes]
        rfl
      · intro s' hquiet' hout' hopen'
        exact ⟨hquiet', (hopen' (by simp [Completion.starts])).trans hopen, hout'⟩
    | failed error =>
      cases hr
      refine hsteps [.writeFails 0 error] (.write (some error) 0)
        (s.complete 0 (.write (some error) 0)) (List.forall_mem_singleton.mpr ⟨rfl, rfl⟩) ?_ ?_
        rfl (by simp [State.complete, hout]) fun s' hquiet' _ _ => hquiet'
      · simp [System.run, system, State.next, hout]
      · simp [System.trace, system, State.next, hout, observe, outcomes, Event.outcome?]
    | received chunk => cases hr

/-- **Any outcomes can happen to a session**, without a timer that expires. -/
theorem realizes (hclock : Prompt clock timeout) (withTimeout : Bool) :
    Realizes (strandSystem clock timeout withTimeout) State.seen observe State.Settled
      Label.expires := by
  refine realizes_of_answers (M := system clock timeout withTimeout) (S := State.Waits) ?_
    (fun s r o r' h hr => h.answer hr withTimeout) fun s r h => h.settled
  intro s₀ h₀
  obtain ⟨buffer, rfl⟩ := h₀
  refine ⟨[], _, by simp, rfl, ?_, ?_⟩
  case refine_2 =>
    rw [System.trace, List.append_nil]
    exact outcomes_requests _ _
  cases withTimeout with
  | true => exact ⟨fun c hc => (by cases hc), rfl, _, rfl⟩
  | false =>
    have hdue : ¬ clock.read 2 ≥ clock.read 1 + timeout := not_le.mpr (hclock 1)
    simp [State.Waits, State.start, State.new, State.receiveWithWatchdog, State.asyncStart,
      State.delay, State.startWatchdog, Watchdog.start, Watchdog.delay, Watchdog.new, hdue,
      State.Quiet, Timer.expiresAt, Request.first]

end CcSnippets.Asio.Echo

import CcSnippets.Core.Timer
import CcSnippets.Asio.Echo.Coroutine.Steps
import CcSnippets.Asio.Echo.Machine

/-!
# CcSnippets.Asio.Echo.Coroutines

The session of `co_server.cc` is an **echo machine**, in either loop.

`echo` is suspended in an operation, or ready to go on behind it, or at its end
(`State.InTurn`). The coroutines that wait for the timer run beside it
(`State.Aside`): they can close the socket, which is seen only in how the next
operation completes.
-/

namespace CcSnippets.Asio.Echo.Coroutine

open CcSnippets.Core Machine

variable {clock : Clock ℤ} {timeout : ℤ} {dispatches : Bool} {s m s' : State}

/-! ### What is seen -/

/-- What is requested of the socket. -/
def State.request (s : State) : Operation → Request
  | .receive => .receive s.buffer.length
  | .write bytes _ => .write (s.buffer.take bytes)

/-- The request for the operation in which `echo` is suspended. -/
def State.seen (s : State) : List Machine.Event :=
  s.outstanding.toList.map fun op => .request (s.request op)

/-- What is seen of a step. -/
def observe (s : State) (l : Label) (s' : State) : List Machine.Event :=
  match l with
  | .receiveDone chunk => [.received chunk]
  | .writeSome _ => [.sent (s'.written.drop s.written.length)]
  | .writeDone => [.written]
  | .receiveFails error | .writeFails error => [.failed error]
  | .run _ => if s'.outstanding = s.outstanding then [] else s'.seen
  | .elapse | .waitDone => []

/-- The task is `echo`. -/
def Task.isEcho : Task → Bool
  | .echo | .received _ _ | .written _ => true
  | _ => false

/-- `echo` itself, where it is ready. -/
def State.io (s : State) : List Task := s.ready.filter Task.isEcho

/-- `echo` is not ready. -/
def State.Settled (s : State) : Prop := s.io = []

/-! ### What runs beside -/

/-- The task neither closes the socket nor uses it. -/
def Task.Quiet : Task → Prop
  | .wait | .waited (some _) | .watched (some _) => True
  | _ => False

theorem Task.Quiet.not_isEcho {task : Task} (h : task.Quiet) : task.isEcho = false := by
  cases task with
  | echo | received | written => exact absurd h id
  | wait | waited | watch | watched => rfl

theorem quiet_resumed (s : State) (error : Error) : (s.resumed (some error)).Quiet := by
  unfold State.resumed
  split <;> trivial

/-- What is done leaves `echo` and its buffer alone. -/
structure State.Aside (s s' : State) : Prop where
  outstanding : s'.outstanding = s.outstanding
  buffer : s'.buffer = s.buffer
  ready : ∃ tasks, (∀ task ∈ tasks, task.Quiet) ∧ s'.ready = s.ready ++ tasks

namespace State.Aside

theorem refl (s : State) : s.Aside s := ⟨rfl, rfl, [], by simp, by simp⟩

theorem trans (h : s.Aside m) (h' : m.Aside s') : s.Aside s' := by
  obtain ⟨hout, hbuffer, tasks, hquiet, hready⟩ := h
  obtain ⟨hout', hbuffer', tasks', hquiet', hready'⟩ := h'
  refine ⟨hout'.trans hout, hbuffer'.trans hbuffer, tasks ++ tasks', ?_, ?_⟩
  · exact List.forall_mem_append.mpr ⟨hquiet, hquiet'⟩
  · rw [hready', hready, List.append_assoc]

/-- Some waits are aborted. -/
theorem aborts (n : ℕ) (hout : s'.outstanding = s.outstanding) (hbuffer : s'.buffer = s.buffer)
    (hready : s'.ready = s.ready ++ List.replicate n (s.resumed (some .aborted))) :
    s.Aside s' := by
  refine ⟨hout, hbuffer, _, fun task htask => ?_, hready⟩
  rw [List.eq_of_mem_replicate htask]
  exact quiet_resumed s .aborted

theorem cancelTimer (s : State) : s.Aside s.cancelTimer := aborts _ rfl rfl rfl

theorem wait (s : State) : s.Aside (s.wait clock timeout) := aborts _ rfl rfl rfl

theorem delay (s : State) : s.Aside (s.delay clock timeout) :=
  aborts 0 rfl rfl (by simp [State.delay])

theorem startTimeout (s : State) : s.Aside (s.startTimeout clock timeout dispatches) := by
  unfold State.startTimeout
  split
  · exact wait s
  · exact ⟨rfl, rfl, [.wait], by simp [Task.Quiet], rfl⟩

theorem close (s : State) : s.Aside s.close := aborts 0 rfl rfl (by simp [State.close])

theorem watch (s : State) : s.Aside (s.watch clock) := by
  simp only [State.watch]
  split
  · exact aborts 0 rfl rfl (by simp [State.close])
  · exact aborts _ rfl rfl rfl

theorem io (h : s.Aside s') : s'.io = s.io := by
  obtain ⟨tasks, hquiet, hready⟩ := h.ready
  have hnone : tasks.filter Task.isEcho = [] := by
    refine List.filter_eq_nil_iff.mpr fun task htask => ?_
    rw [(hquiet task htask).not_isEcho]
    simp
  rw [State.io, hready, List.filter_append, hnone, List.append_nil]
  rfl

end State.Aside

/-! ### Tasks -/

section

variable (clock timeout dispatches)

/-- `echo` at its start, or behind a write that has succeeded, requests a receive. -/
theorem resume_receive (s : State) {task : Task} (htask : task = .echo ∨ task = .written none) :
    ∃ m, s.Aside m ∧ m.isOpen = s.isOpen ∧
      s.resume clock timeout dispatches task = (m.resizeBuffer maxReceive).asyncReceive := by
  have hopen : ∀ s : State, (s.startTimeout clock timeout dispatches).isOpen = s.isOpen := by
    intro s
    unfold State.startTimeout
    split <;> rfl
  rcases htask with rfl | rfl
  · simp only [State.resume]
    split
    · exact ⟨_, .startTimeout s, hopen s, rfl⟩
    · exact ⟨_, .delay s, rfl, rfl⟩
  · simp only [State.resume]
    split
    · exact ⟨_, (State.Aside.cancelTimer s).trans (.startTimeout _), hopen _, rfl⟩
    · exact ⟨_, .delay s, rfl, rfl⟩

/-- `echo` behind a receive of `n` bytes requests a write of the first `n` bytes. -/
theorem resume_received (s : State) (n : ℕ) :
    ∃ m, s.Aside m ∧ m.isOpen = s.isOpen ∧
      s.resume clock timeout dispatches (.received none n) = (m.resizeBuffer n).asyncWrite := by
  simp only [State.resume]
  split
  · refine ⟨_, (State.Aside.cancelTimer s).trans (.startTimeout _), ?_, rfl⟩
    unfold State.startTimeout
    split <;> rfl
  · exact ⟨_, .delay s, rfl, rfl⟩

/-- `echo` is done for. -/
def Task.fails : Task → Bool
  | .received (some _) _ | .written (some _) => true
  | _ => false

/-- Any other task leaves `echo` where it is. -/
theorem resume_aside (s : State) {task : Task} (htask : task.isEcho = true → task.fails = true) :
    s.Aside (s.resume clock timeout dispatches task) := by
  cases task with
  | echo => exact absurd (htask rfl) (by simp [Task.fails])
  | received ec n =>
    cases ec with
    | none => exact absurd (htask rfl) (by simp [Task.fails])
    | some _ =>
      simp only [State.resume]
      split <;> exact .cancelTimer s
  | written ec =>
    cases ec with
    | none => exact absurd (htask rfl) (by simp [Task.fails])
    | some _ =>
      simp only [State.resume]
      split <;> exact .cancelTimer s
  | wait => exact .wait s
  | watch => exact .watch s
  | waited ec =>
    cases ec with
    | none => exact .close s
    | some _ => exact .refl s
  | watched ec =>
    cases ec with
    | none => exact .watch s
    | some _ => exact .refl s

end

/-! ### The session's turn -/

/-- The session is where the machine is. -/
def State.InTurn (s : State) : Turn → Prop
  | .toReceive =>
    s.outstanding = none ∧ ∃ task, s.io = [task] ∧ (task = .echo ∨ task = .written none)
  | .receiving => s.outstanding = some .receive ∧ s.io = []
  | .toWrite chunk =>
    s.outstanding = none ∧ s.io = [.received none chunk.bytes.length] ∧
      chunk.bytes <+: s.buffer
  | .writing chunk rest =>
    (∃ k, s.outstanding = some (.write chunk.bytes.length k) ∧ rest = chunk.bytes.drop k) ∧
      s.io = [] ∧ s.buffer = chunk.bytes
  | .ended _ => s.outstanding = none ∧ ∀ task ∈ s.io, task.fails = true

theorem State.InTurn.congr {t : Turn} (h : s.InTurn t) (hout : s'.outstanding = s.outstanding)
    (hbuffer : s'.buffer = s.buffer) (hio : s'.io = s.io) : s'.InTurn t := by
  cases t <;> simpa only [State.InTurn, hout, hbuffer, hio] using h

/-- A settled session owes no request. -/
theorem State.InTurn.due_eq_nil {t : Turn} (h : s.InTurn t) (hs : s.Settled) : t.due = [] := by
  cases t with
  | toReceive =>
    obtain ⟨-, task, hio, -⟩ := h
    cases hio.symm.trans hs
  | toWrite chunk => cases h.2.1.symm.trans hs
  | receiving | writing | ended => rfl

/-- `echo`, which is ready, goes on. -/
theorem State.InTurn.resume {t : Turn} (h : s.InTurn t) {before after : List Task} {task : Task}
    (htask : task.isEcho = true) (hio : s.io = before ++ task :: after)
    (hout : m.outstanding = s.outstanding) (hbuffer : m.buffer = s.buffer)
    (hrest : m.io = before ++ after) :
    ∃ t', turns.run t (observe s (.run 0) (m.resume clock timeout dispatches task)) = some t' ∧
      (m.resume clock timeout dispatches task).InTurn t' := by
  cases t with
  | toReceive =>
    obtain ⟨hnone, task', hone, htask'⟩ := h
    obtain ⟨rfl, rfl, rfl⟩ : before = [] ∧ task = task' ∧ after = [] := by
      simpa [List.append_eq_cons_iff] using hio.symm.trans hone
    obtain ⟨m', haside, -, hresume⟩ := resume_receive clock timeout dispatches m htask'
    rw [hresume]
    refine ⟨.receiving, ?_, rfl, ?_⟩
    · simp [observe, State.asyncReceive, State.resizeBuffer, hnone, State.seen, State.request,
        System.run, turns, Request.first, maxReceive, bufferSize]
    · exact haside.io.trans hrest
  | toWrite chunk =>
    obtain ⟨hnone, hone, hchunk⟩ := h
    obtain ⟨rfl, rfl, rfl⟩ : before = [] ∧ task = .received none chunk.bytes.length ∧
        after = [] := by
      simpa [List.append_eq_cons_iff] using hio.symm.trans hone
    obtain ⟨m', haside, -, hresume⟩ :=
      resume_received clock timeout dispatches m chunk.bytes.length
    have hresize : Asio.resize m'.buffer chunk.bytes.length = chunk.bytes := by
      rw [haside.buffer, hbuffer, resize_of_le hchunk.length_le]
      exact (List.prefix_iff_eq_take.mp hchunk).symm
    rw [hresume]
    refine ⟨.writing chunk chunk.bytes, ?_, ⟨0, ?_, rfl⟩, haside.io.trans hrest, hresize⟩
    · simp [observe, State.asyncWrite, State.resizeBuffer, hnone, State.seen, State.request,
        System.run, turns, hresize]
    · simp [State.asyncWrite, State.resizeBuffer]
  | receiving =>
    rw [h.2] at hio
    exact absurd hio.symm (by simp)
  | writing chunk rest =>
    rw [h.2.1] at hio
    exact absurd hio.symm (by simp)
  | ended rest =>
    obtain ⟨hnone, hfails⟩ := h
    have haside := resume_aside clock timeout dispatches m fun _ => hfails task (by simp [hio])
    have hsame := haside.outstanding.trans hout
    refine ⟨.ended rest, ?_, hsame.trans hnone, fun d hd => hfails d ?_⟩
    · rw [observe, if_pos hsame]
      rfl
    · rw [haside.io, hrest] at hd
      rw [hio]
      exact ((List.sublist_cons_self task after).append_left before).subset hd

/-- **A task that runs** makes the request that the machine owes, if it is `echo`. -/
theorem State.InTurn.run {t : Turn} (h : s.InTurn t) {i : ℕ} {task : Task}
    (htask : s.ready[i]? = some task) :
    ∃ t', turns.run t (observe s (.run i)
        ((s.dequeue i).resume clock timeout dispatches task)) = some t' ∧
      ((s.dequeue i).resume clock timeout dispatches task).InTurn t' := by
  cases hecho : task.isEcho with
  | true =>
    obtain ⟨before, after, hio, hrest⟩ := exists_filter_eraseIdx htask hecho
    exact h.resume (m := s.dequeue i) hecho hio rfl rfl hrest
  | false =>
    have haside := resume_aside clock timeout dispatches (s.dequeue i)
      fun hpos => absurd (hpos.symm.trans hecho) (by simp)
    have hio : (s.dequeue i).io = s.io := filter_eraseIdx htask hecho
    have hsame : ((s.dequeue i).resume clock timeout dispatches task).outstanding =
        s.outstanding := haside.outstanding
    refine ⟨t, ?_, h.congr hsame haside.buffer (haside.io.trans hio)⟩
    rw [observe, if_pos hsame]
    rfl

/-- A receive is outstanding only while the machine is receiving, -/
theorem State.InTurn.of_receive {t : Turn} (h : s.InTurn t)
    (hop : s.outstanding = some .receive) : t = .receiving ∧ s.io = [] := by
  cases t with
  | receiving => exact ⟨rfl, h.2⟩
  | writing chunk rest =>
    obtain ⟨⟨k, hout, -⟩, -, -⟩ := h
    cases hop.symm.trans hout
  | toReceive | toWrite | ended => cases hop.symm.trans h.1

/-- and a write only while it is writing. -/
theorem State.InTurn.of_write {t : Turn} (h : s.InTurn t) {bytes done : ℕ}
    (hop : s.outstanding = some (.write bytes done)) :
    ∃ chunk : Chunk, t = .writing chunk (chunk.bytes.drop done) ∧ bytes = chunk.bytes.length ∧
      s.io = [] ∧ s.buffer = chunk.bytes := by
  cases t with
  | writing chunk rest =>
    obtain ⟨⟨k, hout, rfl⟩, hio, hbuffer⟩ := h
    cases hop.symm.trans hout
    exact ⟨chunk, rfl, rfl, hio, hbuffer⟩
  | receiving => cases hop.symm.trans h.1
  | toReceive | toWrite | ended => cases hop.symm.trans h.1

/-- `echo` is ready. -/
theorem io_complete (s : State) {task : Task} (htask : task.isEcho = true) :
    (s.complete task).io = s.io ++ [task] := by
  rw [State.io, State.complete, List.filter_append, List.filter_cons_of_pos htask]
  rfl

/-- **Step lemma.** Every step of a session is one of the machine, or is not seen. -/
theorem simulates (clock : Clock ℤ) (timeout : ℤ) (dispatches withTimeout : Bool) :
    (system clock timeout dispatches withTimeout).Simulates turns observe State.InTurn := by
  intro s t l s' h hs
  cases next_step hs with
  | elapse => exact ⟨t, rfl, h.congr rfl rfl rfl⟩
  | @receiveDone chunk hop _ _ =>
    obtain ⟨rfl, hio⟩ := h.of_receive hop
    refine ⟨.toWrite chunk, rfl, rfl, ?_, List.prefix_append _ _⟩
    show (s.complete (.received none chunk.bytes.length)).io = _
    rw [io_complete s rfl, hio]
    rfl
  | receiveFails hop =>
    obtain ⟨rfl, hio⟩ := h.of_receive hop
    refine ⟨.ended [], rfl, rfl, fun task htask => ?_⟩
    rw [io_complete s rfl, hio] at htask
    rw [List.mem_singleton.mp htask]
    rfl
  | @writeSome k bytes done hop _ _ hle =>
    obtain ⟨chunk, rfl, rfl, hio, hbuffer⟩ := h.of_write hop
    refine ⟨.writing chunk (chunk.bytes.drop (done + k)), ?_, ⟨done + k, rfl, rfl⟩, hio, hbuffer⟩
    rw [observe, List.drop_left' rfl, hbuffer]
    exact run_sent chunk hle
  | writeDone hop =>
    obtain ⟨chunk, rfl, rfl, hio, hbuffer⟩ := h.of_write hop
    refine ⟨.toReceive, ?_, rfl, .written none, ?_, .inr rfl⟩
    · simp [observe, System.run, turns]
    · rw [io_complete s rfl, hio]
      rfl
  | @writeFails bytes done error hop =>
    obtain ⟨chunk, rfl, rfl, hio, -⟩ := h.of_write hop
    refine ⟨.ended (chunk.bytes.drop done), rfl, rfl, fun task htask => ?_⟩
    rw [io_complete s rfl, hio] at htask
    rw [List.mem_singleton.mp htask]
    rfl
  | waitDone _ =>
    refine ⟨t, rfl, h.congr rfl rfl ?_⟩
    have hnone : (s.resumed none).isEcho = false := by
      unfold State.resumed
      split <;> rfl
    show (s.ready ++ [s.resumed none]).filter Task.isEcho = _
    rw [List.filter_append, List.filter_cons_of_neg (by simp [hnone])]
    exact List.append_nil _
  | run htask => exact h.run htask

/-- **A session echoes**, whatever its timers do. -/
theorem echoes (clock : Clock ℤ) (timeout : ℤ) (dispatches withTimeout : Bool) :
    Echoes (strandSystem clock timeout dispatches withTimeout) State.seen observe
      State.Settled := by
  refine echoes_of_simulates (simulates clock timeout dispatches withTimeout) ?_
    fun s t h => h.due_eq_nil
  intro s₀ h₀
  obtain rfl : s₀ = (State.new withTimeout).start := h₀
  refine ⟨.toReceive, rfl, rfl, .echo, ?_, .inl rfl⟩
  cases withTimeout <;> rfl

/-! ### Any outcomes -/

/-- A timer expires. -/
def Label.expires : Label → Bool
  | .waitDone => true
  | _ => false

/-- The label is one of the strand, and no timer expires. -/
def Label.Untimed (l : Label) : Prop := l.InOrder = true ∧ l.expires = false

/-- Only tasks are ready that neither close the socket nor use it. -/
def State.Quiet (s : State) : Prop := ∀ task ∈ s.ready, task.Quiet

/-- The session has made the request, and nothing but its outcome is to come. -/
def State.Waits (s : State) : Option Request → Prop
  | some (.receive _) =>
    s.Quiet ∧ s.isOpen = true ∧ s.outstanding = some .receive ∧ s.buffer.length = maxReceive
  | some (.write bytes) =>
    s.Quiet ∧ s.isOpen = true ∧ s.outstanding = some (.write bytes.length 0) ∧ 0 < bytes.length
  | none => s.Quiet

theorem State.Waits.quiet {r : Option Request} (h : s.Waits r) : s.Quiet := by
  rcases r with _ | _ | _
  · exact h
  · exact h.1
  · exact h.1

theorem State.Waits.settled {r : Option Request} (h : s.Waits r) : s.Settled := by
  refine List.filter_eq_nil_iff.mpr fun task htask => ?_
  rw [(h.quiet task htask).not_isEcho]
  simp

theorem State.Aside.quiet (h : s.Aside s') (hs : s.Quiet) : s'.Quiet := by
  obtain ⟨tasks, hquiet, hready⟩ := h.ready
  rw [State.Quiet, hready]
  exact List.forall_mem_append.mpr ⟨hs, hquiet⟩

/-- Tasks have no outcomes. -/
theorem outcomes_trace_run (n : ℕ) (s : State) (withTimeout : Bool) :
    outcomes ((system clock timeout dispatches withTimeout).trace observe s
      (List.replicate n (.run 0))) = [] := by
  induction n generalizing s with
  | zero => rfl
  | succ n ih =>
    rw [List.replicate_succ, System.trace]
    split
    · rename_i s' hs'
      rw [outcomes_append, ih, List.append_nil, observe, State.seen]
      split
      · rfl
      · cases s'.outstanding <;> rfl
    · rfl

theorem isOpen_resume {task : Task} (h : task.Quiet) :
    (s.resume clock timeout dispatches task).isOpen = s.isOpen := by
  cases task with
  | echo | received | written | watch => exact absurd h id
  | wait => rfl
  | waited ec | watched ec =>
    cases ec with
    | none => exact absurd h id
    | some _ => rfl

variable (clock timeout dispatches)

/-- The tasks ahead of `behind` run. -/
theorem run_quiet (withTimeout : Bool) {ahead behind : List Task}
    (hahead : ∀ task ∈ ahead, task.Quiet) (hready : s.ready = ahead ++ behind) :
    ∃ m, (system clock timeout dispatches withTimeout).run s
        (List.replicate ahead.length (.run 0)) = some m ∧
      ({ s with ready := behind } : State).Aside m ∧ m.isOpen = s.isOpen := by
  induction ahead generalizing s behind with
  | nil => exact ⟨s, rfl, ⟨rfl, rfl, [], by simp, by simpa using hready⟩, rfl⟩
  | cons task ahead ih =>
    obtain ⟨htask, hrest⟩ := List.forall_mem_cons.mp hahead
    have haside := resume_aside clock timeout dispatches (s.dequeue 0)
      fun hecho : task.isEcho = true => absurd (htask.not_isEcho.symm.trans hecho) (by simp)
    obtain ⟨tasks, hquiet, htasks⟩ := haside.ready
    have hbehind : ((s.dequeue 0).resume clock timeout dispatches task).ready =
        ahead ++ (behind ++ tasks) := by
      rw [htasks, State.dequeue, hready, ← List.append_assoc]
      rfl
    have hfirst : ({ s with ready := behind } : State).Aside
        { (s.dequeue 0).resume clock timeout dispatches task with ready := behind ++ tasks } :=
      ⟨haside.outstanding, haside.buffer, tasks, hquiet, rfl⟩
    obtain ⟨m, hm, hasidem, hopen⟩ := ih hrest hbehind
    refine ⟨m, System.run_cons_eq_some.mpr ⟨_, ?_, hm⟩, hfirst.trans hasidem,
      hopen.trans (isOpen_resume htask)⟩
    simp only [system, State.next, hready, List.cons_append, List.getElem?_cons_zero]

/-- Where `echo` is ready behind tasks that do nothing to it, it gets to run. -/
theorem run_echo (withTimeout : Bool) (hquiet : s.Quiet) {task : Task}
    (hready : m.ready = s.ready ++ [task]) :
    ∃ m' : State, (system clock timeout dispatches withTimeout).run m
        (List.replicate (s.ready.length + 1) (.run 0)) =
          some (m'.resume clock timeout dispatches task) ∧
      m'.Quiet ∧ m'.buffer = m.buffer ∧ m'.isOpen = m.isOpen := by
  obtain ⟨m', hm', haside, hopen⟩ := run_quiet clock timeout dispatches withTimeout hquiet hready
  obtain ⟨tasks, htasks, hready'⟩ := haside.ready
  have hhead : m'.ready = task :: tasks := hready'
  refine ⟨m'.dequeue 0, ?_, ?_, haside.buffer, hopen⟩
  · rw [List.replicate_succ']
    refine System.run_append_eq_some.mpr ⟨m', hm', System.run_cons_eq_some.mpr ⟨_, ?_, rfl⟩⟩
    simp only [system, State.next, hhead, List.getElem?_cons_zero]
  · intro d hd
    rw [State.dequeue, hhead] at hd
    exact htasks d hd

/-- `echo` gets to its first request, or from a write that has succeeded to the next. -/
theorem waits_receive (hquiet : m.Quiet) (hopen : m.isOpen = true) {task : Task}
    (htask : task = .echo ∨ task = .written none) :
    (m.resume clock timeout dispatches task).Waits (some .first) := by
  obtain ⟨m', haside, hsame, hresume⟩ := resume_receive clock timeout dispatches m htask
  rw [hresume]
  exact ⟨haside.quiet hquiet, hsame.trans hopen, rfl, length_resize _ _⟩

/-- **From an outcome to the next request.** -/
theorem State.Waits.answer {r r' : Option Request} {o : Outcome} (h : s.Waits r)
    (hr : conversation.next r o = some r') (withTimeout : Bool) :
    ∃ ls s', (∀ l ∈ ls, l.Untimed) ∧
      (system clock timeout dispatches withTimeout).run s ls = some s' ∧ s'.Waits r' ∧
      outcomes ((system clock timeout dispatches withTimeout).trace observe s ls) = [o] := by
  -- `pre` completes the operation, and then the tasks queued run
  have hsteps : ∀ (pre : List Label) (task : Task) (m : State), (∀ l ∈ pre, l.Untimed) →
      (system clock timeout dispatches withTimeout).run s pre = some m →
      outcomes ((system clock timeout dispatches withTimeout).trace observe s pre) = [o] →
      m.ready = s.ready ++ [task] →
      (∀ m' : State, m'.Quiet → m'.buffer = m.buffer → m'.isOpen = m.isOpen →
        (m'.resume clock timeout dispatches task).Waits r') →
      ∃ ls s', (∀ l ∈ ls, l.Untimed) ∧
        (system clock timeout dispatches withTimeout).run s ls = some s' ∧ s'.Waits r' ∧
        outcomes ((system clock timeout dispatches withTimeout).trace observe s ls) = [o] := by
    intro pre task m hpre hm hseen hready hwaits
    obtain ⟨m', hm', hquiet, hbuffer, hopen⟩ :=
      run_echo clock timeout dispatches withTimeout h.quiet hready
    refine exists_run_answer hpre hm hseen (fun l hl => ?_) hm'
      (outcomes_trace_run _ m withTimeout) (hwaits m' hquiet hbuffer hopen)
    rw [List.eq_of_mem_replicate hl]
    exact ⟨rfl, rfl⟩
  rcases r with _ | _ | bytes
  · cases hr
  · obtain ⟨-, hopen, hout, hbuffer⟩ := h
    cases o with
    | received chunk =>
      cases hr
      have hle : chunk.bytes.length ≤ s.buffer.length := hbuffer ▸ chunk.le
      refine hsteps [.receiveDone chunk] (.received none chunk.bytes.length)
        { s.complete (.received none chunk.bytes.length) with
          buffer := chunk.bytes ++ s.buffer.drop chunk.bytes.length
          received := s.received ++ chunk.bytes }
        (List.forall_mem_singleton.mpr ⟨rfl, rfl⟩) ?_ ?_ rfl ?_
      · simp [System.run, system, State.next, hout, hopen, hle]
      · simp [System.trace, system, State.next, hout, hopen, hle, observe, outcomes,
          Event.outcome?]
      · intro m' hquiet' hbuffer' hopen'
        obtain ⟨m'', haside, hsame, hresume⟩ :=
          resume_received clock timeout dispatches m' chunk.bytes.length
        rw [hresume]
        refine ⟨haside.quiet hquiet', (hsame.trans hopen').trans hopen, ?_,
          List.length_pos_iff.mpr chunk.nonempty⟩
        simp [State.asyncWrite, State.resizeBuffer]
    | failed error =>
      cases hr
      refine hsteps [.receiveFails error] (.received (some error) 0)
        (s.complete (.received (some error) 0))
        (List.forall_mem_singleton.mpr ⟨rfl, rfl⟩) ?_ ?_ rfl
        fun m' hquiet' _ _ => (resume_aside clock timeout dispatches m' fun _ => rfl).quiet hquiet'
      · simp [System.run, system, State.next, hout]
      · simp [System.trace, system, State.next, hout, observe, outcomes, Event.outcome?]
    | written => cases hr
  · obtain ⟨-, hopen, hout, hpos⟩ := h
    cases o with
    | written =>
      cases hr
      let wrote : State :=
        { s with
          outstanding := some (.write bytes.length bytes.length)
          written := s.written ++ (s.buffer.take bytes.length).drop 0 }
      refine hsteps [.writeSome bytes.length, .writeDone] (.written none)
        (wrote.complete (.written none))
        (List.forall_mem_cons.mpr ⟨⟨rfl, rfl⟩, List.forall_mem_singleton.mpr ⟨rfl, rfl⟩⟩) ?_ ?_ rfl
        fun m' hquiet' _ hopen' =>
          waits_receive clock timeout dispatches hquiet' (hopen'.trans hopen) (.inr rfl)
      · simp [System.run, system, State.next, hout, hopen, hpos, wrote]
      · simp [System.trace, system, State.next, hout, hopen, hpos, observe, outcomes]
        rfl
    | failed error =>
      cases hr
      refine hsteps [.writeFails error] (.written (some error))
        (s.complete (.written (some error)))
        (List.forall_mem_singleton.mpr ⟨rfl, rfl⟩) ?_ ?_ rfl
        fun m' hquiet' _ _ => (resume_aside clock timeout dispatches m' fun _ => rfl).quiet hquiet'
      · simp [System.run, system, State.next, hout]
      · simp [System.trace, system, State.next, hout, observe, outcomes, Event.outcome?]
    | received chunk => cases hr

/-- **Any outcomes can happen to a session**, without a timer that expires. -/
theorem realizes (hclock : Prompt clock timeout) (withTimeout : Bool) :
    Realizes (strandSystem clock timeout dispatches withTimeout) State.seen observe
      State.Settled Label.expires := by
  refine realizes_of_answers (M := system clock timeout dispatches withTimeout)
    (S := State.Waits) ?_
    (fun s r o r' h hr => h.answer clock timeout dispatches hr withTimeout) fun s r h => h.settled
  intro s₀ h₀
  obtain rfl : s₀ = (State.new withTimeout).start := h₀
  have hsilent : ∀ n, outcomes ((State.new withTimeout).start.seen ++
      (system clock timeout dispatches withTimeout).trace observe (State.new withTimeout).start
        (List.replicate n (.run 0))) = [] := fun n => outcomes_trace_run n _ withTimeout
  cases withTimeout with
  | true =>
    -- `echo` runs
    refine ⟨List.replicate 1 (.run 0), _, by simp [Label.InOrder, Label.expires], rfl,
      waits_receive clock timeout dispatches (fun task htask => ?_) rfl (.inl rfl), hsilent 1⟩
    cases htask
  | false =>
    -- `echo` runs, and then `watch`, which finds the deadline ahead
    have hdue : ¬ clock.read 1 ≥ clock.read 0 + timeout := not_le.mpr (hclock 0)
    refine ⟨List.replicate 2 (.run 0), _, by simp [Label.InOrder, Label.expires], rfl, ?_,
      hsilent 2⟩
    simp [State.Waits, State.resume, State.receiveWithWatchdog, State.delay, State.resizeBuffer,
      State.asyncReceive, State.watch, Watchdog.start, Watchdog.delay, hdue, State.Quiet,
      State.dequeue, State.start, State.new, Watchdog.new, Timer.expiresAt, Request.first]

end CcSnippets.Asio.Echo.Coroutine

import CcSnippets.Asio.Proxy.Basic

/-!
# CcSnippets.Asio.Proxy.Steps

Everything a step of a session can do (`Step`), read off the step function, and what
the handlers do in either direction.
-/

namespace CcSnippets.Asio.Proxy

open CcSnippets.Core

/-- Everything a step can do. -/
inductive Step (clock : Clock ℤ) (timeout : ℤ) (s : State) : Label → State → Prop
  | elapse : Step clock timeout s .elapse { s with instant := s.instant + 1 }
  | connectDone {error : Option Error} :
      s.connect = .outstanding →
      Step clock timeout s (.connectDone error) { s with connect := .completed error }
  | receiveDone {d socket buffer : Side} {i : ℕ} {chunk : Chunk} :
      (s.outstanding d)[i]? = some (.receive socket buffer) → s.isOpen socket = true →
      Step clock timeout s (.receiveDone d i chunk)
        { s.complete d i (.receive none chunk.bytes.length) with
          buffer := Function.update s.buffer buffer ((s.buffer buffer).fill chunk)
          received := Function.update s.received socket (s.received socket ++ chunk.bytes) }
  | receiveFails {d socket buffer : Side} {i : ℕ} {error : Error} :
      (s.outstanding d)[i]? = some (.receive socket buffer) →
      Step clock timeout s (.receiveFails d i error)
        ((s.complete d i (.receive (some error) 0)).fails socket (.receiveFailed d error))
  | writeSome {d socket buffer : Side} {i k bytes done : ℕ} :
      (s.outstanding d)[i]? = some (.write socket buffer bytes done) →
      s.isOpen socket = true → 0 < k → done + k ≤ bytes →
      Step clock timeout s (.writeSome d i k)
        { s with
          outstanding := Function.update s.outstanding d
            ((s.outstanding d).set i (.write socket buffer bytes (done + k)))
          written := Function.update s.written socket
            (s.written socket ++ ((s.buffer buffer).bytes.take (done + k)).drop done) }
  | writeDone {d socket buffer : Side} {i bytes : ℕ} :
      (s.outstanding d)[i]? = some (.write socket buffer bytes bytes) →
      Step clock timeout s (.writeDone d i) (s.complete d i (.write none bytes))
  | writeFails {d socket buffer : Side} {i bytes done : ℕ} {error : Error} :
      (s.outstanding d)[i]? = some (.write socket buffer bytes done) →
      Step clock timeout s (.writeFails d i error)
        ((s.complete d i (.write (some error) done)).fails socket (.writeFailed d error))
  | waitDone {d : Side} {timer : Timer ℤ} :
      (s.watchdog d).timer.complete (clock.read s.instant) = some timer →
      Step clock timeout s (.waitDone d)
        { s with
          watchdog := Function.update s.watchdog d { s.watchdog d with timer := timer }
          waits := Function.update s.waits d (s.waits d ++ [none]) }
  | runConnect {error : Option Error} :
      s.connect = .completed error →
      Step clock timeout s .runConnect
        ({ s with connect := .handled }.handleConnect clock timeout error)
  | runIo {d : Side} {i : ℕ} {c : Completion} :
      (s.completed d)[i]? = some c →
      Step clock timeout s (.runIo d i) ((s.dequeue d i).handle clock timeout d c)
  | runWait {d : Side} {i : ℕ} {error : Option Error} :
      (s.waits d)[i]? = some error →
      Step clock timeout s (.runWait d i) ((s.dequeueWait d i).handleWait clock d error)

theorem next_step {clock : Clock ℤ} {timeout : ℤ} {s s' : State} {l : Label}
    (h : s.next clock timeout l = some s') : Step clock timeout s l s' := by
  cases l with
  | elapse =>
    obtain rfl := Option.some.inj h
    exact .elapse
  | connectDone error =>
    simp only [State.next] at h
    split at h
    · rename_i hout
      obtain rfl := Option.some.inj h
      exact .connectDone hout
    · cases h
  | receiveDone d i chunk =>
    simp only [State.next] at h
    split at h
    · rename_i hop
      split at h
      · rename_i hopen
        obtain rfl := Option.some.inj h
        exact .receiveDone hop hopen
      · cases h
    · cases h
  | receiveFails d i error =>
    simp only [State.next] at h
    split at h
    · rename_i hop
      obtain rfl := Option.some.inj h
      exact .receiveFails hop
    · cases h
  | writeSome d i k =>
    simp only [State.next] at h
    split at h
    · rename_i hop
      split at h
      · rename_i hk
        obtain ⟨hopen, hpos, hle⟩ := hk
        obtain rfl := Option.some.inj h
        exact .writeSome hop hopen hpos hle
      · cases h
    · cases h
  | writeDone d i =>
    simp only [State.next] at h
    split at h
    · rename_i hop
      split at h
      · rename_i heq
        obtain rfl := Option.some.inj h
        rw [heq] at hop
        exact .writeDone hop
      · cases h
    · cases h
  | writeFails d i error =>
    simp only [State.next] at h
    split at h
    · rename_i hop
      obtain rfl := Option.some.inj h
      exact .writeFails hop
    · cases h
  | waitDone d =>
    simp only [State.next] at h
    split at h
    · rename_i htimer
      obtain rfl := Option.some.inj h
      exact .waitDone htimer
    · cases h
  | runConnect =>
    simp only [State.next] at h
    split at h
    · rename_i hconnect
      obtain rfl := Option.some.inj h
      exact .runConnect hconnect
    · cases h
  | runIo d i =>
    simp only [State.next] at h
    split at h
    · rename_i hc
      obtain rfl := Option.some.inj h
      exact .runIo hc
    · cases h
  | runWait d i =>
    simp only [State.next] at h
    split at h
    · rename_i hwait
      obtain rfl := Option.some.inj h
      exact .runWait hwait
    · cases h

/-! ### The handlers -/

section

variable {clock : Clock ℤ} {timeout : ℤ} (s : State) (d : Side)

/-- What the handler of a completion does: an error stops the session, a chunk received
from the one peer is written to the other, and once it is written the next is
received. -/
theorem handle_cases (c : Completion) :
    (c.error ≠ none ∧ s.handle clock timeout d c = s.stop) ∨
      (∃ n, c = .receive none n ∧
        s.handle clock timeout d c = s.send clock timeout d d.other d n) ∨
      ∃ n, c = .write none n ∧ s.handle clock timeout d c = s.receive clock timeout d d d := by
  cases c with
  | receive error n =>
    cases error with
    | none =>
      refine .inr (.inl ⟨n, rfl, ?_⟩)
      cases d <;> rfl
    | some e => exact .inl ⟨Option.some_ne_none e, rfl⟩
  | write error n =>
    cases error with
    | none =>
      refine .inr (.inr ⟨n, rfl, ?_⟩)
      cases d <;> rfl
    | some e => exact .inl ⟨Option.some_ne_none e, rfl⟩

theorem connect_startWatchdog : (s.startWatchdog clock d).connect = s.connect := by
  simp only [State.startWatchdog]
  split <;> rfl

theorem connect_startWatchdogs : (s.startWatchdogs clock).connect = s.connect :=
  (connect_startWatchdog _ _).trans (connect_startWatchdog s _)

/-- A failure is of no more consequence than its entry in the log. -/
theorem fails_eq (socket : Side) (e : Event) :
    s.fails socket e = { s with log := (s.fails socket e).log } := by
  unfold State.fails
  split <;> rfl

theorem connect_fails (socket : Side) (e : Event) : (s.fails socket e).connect = s.connect := by
  rw [fails_eq]

theorem stopped_startWatchdog (h : s.stopped = true) :
    (s.startWatchdog clock d).stopped = true := by
  simp only [State.startWatchdog]
  split
  · rfl
  · exact h

end

/-- `stop` is for ever. -/
theorem stopped_next {clock : Clock ℤ} {timeout : ℤ} {s s' : State} {l : Label}
    (h : s.stopped = true) (hs : s.next clock timeout l = some s') : s'.stopped = true := by
  cases next_step hs with
  | elapse | connectDone _ | receiveDone _ _ | writeSome _ _ _ _ | writeDone _ | waitDone _ =>
    exact h
  | receiveFails _ | writeFails _ =>
    rw [fails_eq]
    exact h
  | @runConnect error _ =>
    cases error with
    | some e => exact h
    | none => exact stopped_startWatchdog _ _ (stopped_startWatchdog _ _ h)
  | @runIo d i c _ =>
    rcases @handle_cases clock timeout (s.dequeue d i) d c with
      ⟨-, heq⟩ | ⟨n, -, heq⟩ | ⟨n, -, heq⟩
    · rw [heq]
      rfl
    · rw [heq]
      exact h
    · rw [heq]
      exact h
  | @runWait d i error _ =>
    cases error with
    | some e => exact h
    | none => exact stopped_startWatchdog _ _ h

end CcSnippets.Asio.Proxy

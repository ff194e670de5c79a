import CcSnippets.Asio.Echo.Coroutine

/-!
# CcSnippets.Asio.Echo.Coroutine.Steps

Everything a step of a session of `co_server.cc` can do (`Step`), read off the step
function.
-/

namespace CcSnippets.Asio.Echo.Coroutine

open CcSnippets.Core

/-- Everything a step can do. -/
inductive Step (clock : Clock ℤ) (timeout : ℤ) (dispatches : Bool) (s : State) :
    Label → State → Prop
  | elapse : Step clock timeout dispatches s .elapse { s with instant := s.instant + 1 }
  | receiveDone {chunk : Chunk} :
      s.outstanding = some .receive → s.isOpen = true →
      chunk.bytes.length ≤ s.buffer.length →
      Step clock timeout dispatches s (.receiveDone chunk)
        { s.complete (.received none chunk.bytes.length) with
          buffer := chunk.bytes ++ s.buffer.drop chunk.bytes.length
          received := s.received ++ chunk.bytes }
  | receiveFails {error : Error} :
      s.outstanding = some .receive →
      Step clock timeout dispatches s (.receiveFails error) (s.complete (.received (some error) 0))
  | writeSome {k bytes done : ℕ} :
      s.outstanding = some (.write bytes done) →
      s.isOpen = true → 0 < k → done + k ≤ bytes →
      Step clock timeout dispatches s (.writeSome k)
        { s with
          outstanding := some (.write bytes (done + k))
          written := s.written ++ (s.buffer.take (done + k)).drop done }
  | writeDone {bytes : ℕ} :
      s.outstanding = some (.write bytes bytes) →
      Step clock timeout dispatches s .writeDone (s.complete (.written none))
  | writeFails {bytes done : ℕ} {error : Error} :
      s.outstanding = some (.write bytes done) →
      Step clock timeout dispatches s (.writeFails error) (s.complete (.written (some error)))
  | waitDone {timer : Timer ℤ} :
      s.watchdog.timer.complete (clock.read s.instant) = some timer →
      Step clock timeout dispatches s .waitDone
        { s with
          watchdog := { s.watchdog with timer := timer }, ready := s.ready ++ [s.resumed none] }
  | run {i : ℕ} {task : Task} :
      s.ready[i]? = some task →
      Step clock timeout dispatches s (.run i)
        ((s.dequeue i).resume clock timeout dispatches task)

theorem next_step {clock : Clock ℤ} {timeout : ℤ} {dispatches : Bool} {s s' : State} {l : Label}
    (h : s.next clock timeout dispatches l = some s') : Step clock timeout dispatches s l s' := by
  cases l with
  | elapse =>
    obtain rfl := Option.some.inj h
    exact .elapse
  | receiveDone chunk =>
    simp only [State.next] at h
    split at h
    · rename_i hop
      split at h
      · rename_i hfits
        obtain rfl := Option.some.inj h
        exact .receiveDone hop hfits.1 hfits.2
      · cases h
    · cases h
  | receiveFails error =>
    simp only [State.next] at h
    split at h
    · rename_i hop
      obtain rfl := Option.some.inj h
      exact .receiveFails hop
    · cases h
  | writeSome k =>
    simp only [State.next] at h
    split at h
    · rename_i hop
      split at h
      · rename_i hk
        obtain ⟨hopen, hpos, hle⟩ := hk
        obtain rfl := Option.some.inj h
        exact .writeSome hop hopen hpos hle
      · cases h
    · cases h
  | writeDone =>
    simp only [State.next] at h
    split at h
    · rename_i hop
      split at h
      · rename_i heq
        obtain rfl := Option.some.inj h
        rw [heq] at hop
        exact .writeDone hop
      · cases h
    · cases h
  | writeFails error =>
    simp only [State.next] at h
    split at h
    · rename_i hop
      obtain rfl := Option.some.inj h
      exact .writeFails hop
    · cases h
  | waitDone =>
    simp only [State.next] at h
    split at h
    · rename_i htimer
      obtain rfl := Option.some.inj h
      exact .waitDone htimer
    · cases h
  | run i =>
    simp only [State.next] at h
    split at h
    · rename_i htask
      obtain rfl := Option.some.inj h
      exact .run htask
    · cases h

end CcSnippets.Asio.Echo.Coroutine

import CcSnippets.Asio.Echo.Basic

/-!
# CcSnippets.Asio.Echo.Steps

Everything a step of a session can do (`Step`), read off the step function.
-/

namespace CcSnippets.Asio.Echo

open CcSnippets.Core

/-- Everything a step can do. -/
inductive Step (clock : Clock ℤ) (timeout : ℤ) (s : State) : Label → State → Prop
  | elapse : Step clock timeout s .elapse { s with instant := s.instant + 1 }
  | receiveDone {i : ℕ} {chunk : Chunk} {since : ℤ} :
      s.outstanding[i]? = some (.receive, since) → s.isOpen = true →
      Step clock timeout s (.receiveDone i chunk)
        { s.complete i (.receive none chunk.bytes.length) with
          buffer := s.buffer.fill chunk
          received := s.received ++ chunk.bytes }
  | receiveFails {i : ℕ} {error : Error} {since : ℤ} :
      s.outstanding[i]? = some (.receive, since) →
      Step clock timeout s (.receiveFails i error) (s.complete i (.receive (some error) 0))
  | writeSome {i k bytes done : ℕ} {since : ℤ} :
      s.outstanding[i]? = some (.write bytes done, since) →
      s.isOpen = true → 0 < k → done + k ≤ bytes →
      Step clock timeout s (.writeSome i k)
        { s with
          outstanding := s.outstanding.set i (.write bytes (done + k), since)
          written := s.written ++ (s.buffer.bytes.take (done + k)).drop done }
  | writeDone {i bytes : ℕ} {since : ℤ} :
      s.outstanding[i]? = some (.write bytes bytes, since) →
      Step clock timeout s (.writeDone i) (s.complete i (.write none bytes))
  | writeFails {i bytes done : ℕ} {error : Error} {since : ℤ} :
      s.outstanding[i]? = some (.write bytes done, since) →
      Step clock timeout s (.writeFails i error) (s.complete i (.write (some error) done))
  | waitDone {timer : Timer ℤ} :
      s.watchdog.timer.complete (clock.read s.instant) = some timer →
      Step clock timeout s .waitDone
        { s with
          watchdog := { s.watchdog with timer := timer }, queue := s.queue ++ [.wait none] }
  | run {i : ℕ} {c : Completion} :
      s.queue[i]? = some c → Step clock timeout s (.run i) ((s.dequeue i).handle clock timeout c)

theorem next_step {clock : Clock ℤ} {timeout : ℤ} {s s' : State} {l : Label}
    (h : s.next clock timeout l = some s') : Step clock timeout s l s' := by
  cases l with
  | elapse =>
    obtain rfl := Option.some.inj h
    exact .elapse
  | receiveDone i chunk =>
    simp only [State.next] at h
    split at h
    · rename_i hop
      split at h
      · rename_i hopen
        obtain rfl := Option.some.inj h
        exact .receiveDone hop hopen
      · cases h
    · cases h
  | receiveFails i error =>
    simp only [State.next] at h
    split at h
    · rename_i hop
      obtain rfl := Option.some.inj h
      exact .receiveFails hop
    · cases h
  | writeSome i k =>
    simp only [State.next] at h
    split at h
    · rename_i hop
      split at h
      · rename_i hk
        obtain ⟨hopen, hpos, hle⟩ := hk
        obtain rfl := Option.some.inj h
        exact .writeSome hop hopen hpos hle
      · cases h
    · cases h
  | writeDone i =>
    simp only [State.next] at h
    split at h
    · rename_i hop
      split at h
      · rename_i heq
        obtain rfl := Option.some.inj h
        rw [heq] at hop
        exact .writeDone hop
      · cases h
    · cases h
  | writeFails i error =>
    simp only [State.next] at h
    split at h
    · rename_i hop
      obtain rfl := Option.some.inj h
      exact .writeFails hop
    · cases h
  | waitDone =>
    simp only [State.next] at h
    split at h
    · rename_i htimer
      obtain rfl := Option.some.inj h
      exact .waitDone htimer
    · cases h
  | run i =>
    simp only [State.next] at h
    split at h
    · rename_i hc
      obtain rfl := Option.some.inj h
      exact .run hc
    · cases h

end CcSnippets.Asio.Echo

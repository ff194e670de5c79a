import CcSnippets.Null.SpscRingBuffer.Basic

/-!
# CcSnippets.Null.SpscRingBuffer.Steps

Everything a step can do (`Step`), read off the step function.
-/

namespace CcSnippets.SpscRingBuffer

open CcSnippets.Core

variable {T : Type*} [Inhabited T]

/-- Everything a step can do. -/
inductive Step (capacity : ℕ) (s : State T) : Label T → State T → Prop
  | push {item : T} :
      s.producer = .idle →
      Step capacity s (.push item) { s with producer := .loadingHead item }
  | pushLoadHead {item : T} {currHead before : ℕ} :
      s.producer = .loadingHead item → s.heads.getLast? = some (currHead, before) →
      Step capacity s .pushLoadHead { s with producer := .loadingTail item currHead }
  | pushFull {item : T} {currHead j : ℕ} :
      s.producer = .loadingTail item currHead → s.seenTail ≤ j →
      s.tails[j]? = some (nextIndex capacity currHead) →
      Step capacity s (.pushLoadTail j)
        { s with producer := .idle, seenTail := j, pushReturned := s.pushReturned ++ [false] }
  | pushRoom {item : T} {currHead tail j : ℕ} :
      s.producer = .loadingTail item currHead → s.seenTail ≤ j → s.tails[j]? = some tail →
      nextIndex capacity currHead ≠ tail →
      Step capacity s (.pushLoadTail j)
        { s with producer := .writing item currHead, seenTail := j }
  | pushWrite {item : T} {currHead : ℕ} :
      s.producer = .writing item currHead →
      Step capacity s .pushWrite
        { s with producer := .storing item currHead, writes := s.writes ++ [(currHead, item)] }
  | pushStoreHead {item : T} {currHead : ℕ} :
      s.producer = .storing item currHead →
      Step capacity s .pushStoreHead
        { s with
          producer := .idle
          heads := s.heads ++ [(nextIndex capacity currHead, s.writes.length)]
          pushed := s.pushed ++ [item]
          pushReturned := s.pushReturned ++ [true] }
  | pop :
      s.consumer = .idle → Step capacity s .pop { s with consumer := .loadingTail }
  | popLoadTail {currTail : ℕ} :
      s.consumer = .loadingTail → s.tails.getLast? = some currTail →
      Step capacity s .popLoadTail { s with consumer := .loadingHead currTail }
  | popEmpty {currTail before j : ℕ} :
      s.consumer = .loadingHead currTail → s.seenHead ≤ j →
      s.heads[j]? = some (currTail, before) →
      Step capacity s (.popLoadHead j)
        { s with
          consumer := .idle, seenHead := j, visible := max s.visible before
          popReturned := s.popReturned ++ [false] }
  | popSome {currTail head before j : ℕ} :
      s.consumer = .loadingHead currTail → s.seenHead ≤ j → s.heads[j]? = some (head, before) →
      currTail ≠ head →
      Step capacity s (.popLoadHead j)
        { s with consumer := .reading currTail, seenHead := j, visible := max s.visible before }
  | popRead {currTail m : ℕ} :
      s.consumer = .reading currTail → s.visible ≤ m → m ≤ s.writes.length →
      Step capacity s (.popRead m)
        { s with consumer := .storing (slotAfter (s.writes.take m) currTail) currTail }
  | popStoreTail {elem : T} {currTail : ℕ} :
      s.consumer = .storing elem currTail →
      Step capacity s .popStoreTail
        { s with
          consumer := .idle
          tails := s.tails ++ [nextIndex capacity currTail]
          popped := s.popped ++ [elem]
          popReturned := s.popReturned ++ [true] }

theorem nextPush_step {capacity : ℕ} {s s' : State T} {l : Label T}
    (h : nextPush capacity s l = some s') : Step capacity s l s' := by
  cases l with
  | push item =>
    simp only [nextPush] at h
    split at h
    · rename_i hpc
      obtain rfl := Option.some.inj h
      exact .push hpc
    · cases h
  | pushLoadHead =>
    simp only [nextPush] at h
    split at h
    · rename_i hpc hlast
      obtain rfl := Option.some.inj h
      exact .pushLoadHead hpc hlast
    · cases h
  | pushLoadTail j =>
    simp only [nextPush] at h
    split at h
    · rename_i hpc hj
      split at h
      · cases h
      · rename_i hseen
        split at h
        · rename_i hfull
          obtain rfl := Option.some.inj h
          exact .pushFull hpc (Nat.le_of_not_lt hseen) (hfull ▸ hj)
        · rename_i hroom
          obtain rfl := Option.some.inj h
          exact .pushRoom hpc (Nat.le_of_not_lt hseen) hj hroom
    · cases h
  | pushWrite =>
    simp only [nextPush] at h
    split at h
    · rename_i hpc
      obtain rfl := Option.some.inj h
      exact .pushWrite hpc
    · cases h
  | pushStoreHead =>
    simp only [nextPush] at h
    split at h
    · rename_i hpc
      obtain rfl := Option.some.inj h
      exact .pushStoreHead hpc
    · cases h
  | pop | popLoadTail | popLoadHead j | popRead m | popStoreTail => cases h

theorem nextPop_step {capacity : ℕ} {s s' : State T} {l : Label T}
    (h : nextPop capacity s l = some s') : Step capacity s l s' := by
  cases l with
  | pop =>
    simp only [nextPop] at h
    split at h
    · rename_i hpc
      obtain rfl := Option.some.inj h
      exact .pop hpc
    · cases h
  | popLoadTail =>
    simp only [nextPop] at h
    split at h
    · rename_i hpc hlast
      obtain rfl := Option.some.inj h
      exact .popLoadTail hpc hlast
    · cases h
  | popLoadHead j =>
    simp only [nextPop] at h
    split at h
    · rename_i hpc hj
      split at h
      · cases h
      · rename_i hseen
        split at h
        · rename_i hempty
          obtain rfl := Option.some.inj h
          exact .popEmpty hpc (Nat.le_of_not_lt hseen) (hempty ▸ hj)
        · rename_i hsome
          obtain rfl := Option.some.inj h
          exact .popSome hpc (Nat.le_of_not_lt hseen) hj hsome
    · cases h
  | popRead m =>
    simp only [nextPop] at h
    split at h
    · rename_i hpc
      split at h
      · rename_i hm
        obtain rfl := Option.some.inj h
        exact .popRead hpc hm.1 hm.2
      · cases h
    · cases h
  | popStoreTail =>
    simp only [nextPop] at h
    split at h
    · rename_i hpc
      obtain rfl := Option.some.inj h
      exact .popStoreTail hpc
    · cases h
  | push item | pushLoadHead | pushLoadTail j | pushWrite | pushStoreHead => cases h

theorem next_step {capacity : ℕ} {s s' : State T} {l : Label T}
    (h : (system T capacity).next s l = some s') : Step capacity s l s' := by
  simp only [system] at h
  cases hpush : nextPush capacity s l with
  | some s'' =>
    rw [hpush] at h
    obtain rfl := Option.some.inj h
    exact nextPush_step hpush
  | none =>
    rw [hpush] at h
    exact nextPop_step h

end CcSnippets.SpscRingBuffer

import CcSnippets.Asio.Client.Monitor

/-!
# CcSnippets.Asio.Client.Steps

Everything a step of a run of `client.cc` can do (`Step`), read off the step function:
one session moves on, or `monitor` does, or neither.
-/

namespace CcSnippets.Asio.Client

open CcSnippets.Core Callback

variable {n : Connections} {s s' : Run n}

/-- How a session moves on, and the updates made. -/
inductive Moves : Phase → List Update → Phase → Prop
  | start {port : ℕ} : Moves .unstarted [] (.waiting .new (.connect port) .handleConnect)
  | complete {session : Session} {op : Operation} {h : Handler} {o : Outcome} :
      Moves (.waiting session op h) [] (.running (handle h (op.deliver o session) o.error))
  | update {session : Session} {u : Update} {us : List Update}
      {next : Option (Operation × Handler)} :
      Moves (.running { session, updates := u :: us, next }) [u]
        (.running { session, updates := us, next })
  | finish {session : Session} {next : Option (Operation × Handler)} :
      Moves (.running { session, updates := [], next }) []
        (Run.after { session, updates := [], next })

/-- A thread that has started `j` sessions has not started the others. -/
def Run.Fresh (s : Run n) : Prop :=
  ∀ t j, s.thread t = .starting j → ∀ k : Fin n.conns, j ≤ k → s.phase (t, k) = .unstarted

/-- Everything a step can do. -/
inductive Step (s : Run n) : Label n → Run n → Prop
  /-- A thread changes where it is, and one of its sessions moves on. -/
  | moves {l : Label n} {t : Fin 10} {j : Fin n.conns} {us : List Update} {p : Phase}
      {x : Thread n.conns} :
      l ≠ .monitor → Moves (s.phase (t, j)) us p →
      (∀ i, x = .starting i → s.thread t = .starting j ∧ i = j + 1) →
      Step s l
        { s with
          counters := s.counters.updates us
          phase := Function.update s.phase (t, j) p
          thread := Function.update s.thread t x }
  /-- A thread changes where it is, but for good: it starts no more sessions. -/
  | thread {l : Label n} {t : Fin 10} {x : Thread n.conns} :
      l ≠ .monitor → (∀ i, x ≠ .starting i) →
      Step s l { s with thread := Function.update s.thread t x }
  | monitor {s' : Run n} : s.nextMonitor = some s' → Step s .monitor s'
  | interrupt : Step s .interrupt { s with stop := true }
  | stopContext :
      Step s .stopContext { s with stoppedContexts := s.stoppedContexts + 1 }

theorem next_step (hf : s.Fresh) {l : Label n} (h : s.next l = some s') : Step s l s' := by
  cases l with
  | start t =>
    simp only [Run.next] at h
    split at h
    · rename_i j hthread
      split at h
      · rename_i hj
        obtain rfl := Option.some.inj h
        have hmoves : Moves (s.phase (t, ⟨j, hj⟩)) []
            (.waiting .new (.connect (8080 + t)) .handleConnect) := by
          rw [hf t j hthread ⟨j, hj⟩ (Nat.le_refl j)]
          exact .start
        refine .moves (by simp) hmoves fun i hi => ?_
        cases hi
        exact ⟨hthread, rfl⟩
      · cases h
    · cases h
  | throws t =>
    simp only [Run.next] at h
    split at h
    · split at h
      · obtain rfl := Option.some.inj h
        exact .thread (by simp) (by simp)
      · cases h
    · cases h
  | run t =>
    simp only [Run.next] at h
    split at h
    · split at h
      · obtain rfl := Option.some.inj h
        exact .thread (by simp) (by simp)
      · cases h
    · cases h
  | complete t j o =>
    simp only [Run.next] at h
    split at h
    · rename_i session op handler hthread hphase
      split at h
      · obtain rfl := Option.some.inj h
        have hmoves : Moves (s.phase (t, j)) []
            (.running (handle handler (op.deliver o session) o.error)) := by
          rw [hphase]
          exact .complete
        exact .moves (by simp) hmoves (by simp)
      · cases h
    · cases h
  | update t =>
    simp only [Run.next] at h
    split at h
    · rename_i j hthread
      split at h
      · rename_i session u us next hphase
        obtain rfl := Option.some.inj h
        have hmoves : Moves (s.phase (t, j)) [u] (.running { session, updates := us, next }) := by
          rw [hphase]
          exact .update
        have hstep := Step.moves (s := s) (l := .update t) (x := .handling j) (by simp) hmoves
          (by simp)
        rwa [← hthread, Function.update_eq_self] at hstep
      · cases h
    · cases h
  | finish t =>
    simp only [Run.next] at h
    split at h
    · rename_i j hthread
      split at h
      · rename_i session next hphase
        obtain rfl := Option.some.inj h
        have hmoves : Moves (s.phase (t, j)) []
            (Run.after { session, updates := [], next }) := by
          rw [hphase]
          exact .finish
        exact .moves (by simp) hmoves (by simp)
      · cases h
    · cases h
  | monitor => exact .monitor h
  | interrupt =>
    obtain rfl := Option.some.inj h
    exact .interrupt
  | stopContext =>
    simp only [Run.next] at h
    split at h
    · obtain rfl := Option.some.inj h
      exact .stopContext
    · cases h

/-- `monitor` changes no session and no counter. -/
theorem nextMonitor_frame (h : s.nextMonitor = some s') :
    s'.phase = s.phase ∧ s'.counters = s.counters ∧ s'.thread = s.thread := by
  unfold Run.nextMonitor at h
  split at h
  case h_7 | h_8 => cases h
  all_goals
    obtain rfl := Option.some.inj h
    exact ⟨rfl, rfl, rfl⟩

theorem fresh_step {l : Label n} (hf : s.Fresh) (hs : Step s l s') : s'.Fresh := by
  cases hs with
  | @moves _ t j us p x _ _ hx =>
    intro t' i (hi : Function.update s.thread t x t' = .starting i) k hk
    by_cases ht : t' = t
    · subst ht
      rw [Function.update_self] at hi
      obtain ⟨hstarting, rfl⟩ := hx i hi
      have hne : k ≠ j := by
        intro heq
        subst heq
        omega
      show Function.update s.phase (t', j) p (t', k) = _
      rw [Function.update_of_ne (by simp [hne])]
      exact hf t' j hstarting k (by omega)
    · rw [Function.update_of_ne ht] at hi
      show Function.update s.phase (t, j) p (t', k) = _
      rw [Function.update_of_ne (by simp [ht])]
      exact hf t' i hi k hk
  | @thread _ t x _ hx =>
    intro t' i (hi : Function.update s.thread t x t' = .starting i) k hk
    by_cases ht : t' = t
    · subst ht
      rw [Function.update_self] at hi
      exact absurd hi (hx i)
    · rw [Function.update_of_ne ht] at hi
      exact hf t' i hi k hk
  | monitor hm =>
    obtain ⟨hphase, -, hthread⟩ := nextMonitor_frame hm
    intro t i hi k hk
    rw [hthread] at hi
    rw [hphase]
    exact hf t i hi k hk
  | interrupt | stopContext => exact hf

end CcSnippets.Asio.Client

import CcSnippets.Null.BlockingQueue.Wakeups

/-!
# CcSnippets.Null.BlockingQueue.Exceptions

What a call that exits by an exception does to the other threads. A thread that
is woken by the one `notify_one` and then throws at `push_back`, or at the move
of the front element, has used up a wake-up that no other sleeper gets. The
condition `ThrowCovered` is exact: runs that meet it strand nobody, and the
first step that fails it can be continued to a quiescent state with a sleeper
whose condition holds (`throw_strands_iff`).
-/

namespace CcSnippets.BlockingQueue

open CcSnippets.Core

variable {τ T : Type*} [Fintype τ] [DecidableEq τ]

/-- The exception, if any, comes from `push_back` or from the move of the front
element, not from the construction of the returned optional. -/
def Label.throwsInBody : Label τ T → Bool
  | .leave _ throws => !throws
  | _ => true

/-! ### Every awake thread can be driven out by throwing -/

/-- Thread `u` alone moves from `s` to `s'`, throwing at most in a body, and
leaves the queue as it was. -/
structure Moves (u : τ) (s s' : State τ T) : Prop where
  run : ∃ ls, (∀ l ∈ ls, l.throwsInBody = true) ∧ (system τ T s.q.capacity).run s ls = some s'
  q : s'.q = s.q
  others : ∀ v, v ≠ u → s'.pc v = s.pc v

theorem Moves.refl (u : τ) (s : State τ T) : Moves u s s :=
  ⟨⟨[], by simp, rfl⟩, rfl, fun _ _ => rfl⟩

/-- One step of `u`, then the rest. -/
theorem Moves.head {u : τ} {s m s' : State τ T} {l : Label τ T} {x : Pc T}
    (hs : next s l = some m) (hl : l.throwsInBody = true) (hq : m.q = s.q)
    (hpc : m.pc = Function.update s.pc u x) (h : Moves u m s') : Moves u s s' := by
  obtain ⟨ls, hls, hrun⟩ := h.run
  refine ⟨⟨l :: ls, ?_, ?_⟩, h.q.trans hq, fun v hv => ?_⟩
  · intro l' hl'
    rcases List.mem_cons.mp hl' with rfl | hl'
    · exact hl
    · exact hls l' hl'
  · rw [hq] at hrun
    exact System.run_cons_eq_some.mpr ⟨m, hs, hrun⟩
  · rw [h.others v hv, hpc, Function.update_of_ne hv]

/-- Where a driven thread ends: quiet, with the mutex free. -/
def DrivenOut (u : τ) (s : State τ T) : Prop :=
  ∃ s', Moves u s s' ∧ s'.mutex = none ∧ (s'.pc u).quiet = true

theorem drivenOut_leaving {s : State τ T} {u : τ} {r : Result T} {arg : Option T}
    (hpc : s.pc u = .leaving r arg) : DrivenOut u s := by
  have hs : next s (.leave u false) = some { s.goto u .idle with
      mutex := none
      done := Function.update s.done u (s.done u + 1)
      returned := s.returned ++ [(s.callId u, r, arg)] } := by
    simp [next, hpc]
  exact ⟨_, (Moves.refl u _).head hs rfl rfl rfl, rfl, by simp [State.goto, Pc.quiet]⟩

theorem drivenOut_mutating {s : State τ T} {u : τ} {op : Op T} (hpc : s.pc u = .mutating op) :
    DrivenOut u s := by
  have hs : next s (.body u true) = some (s.goto u (.leaving .threw op.method.arg)) := by
    simp only [next, hpc, if_true]
  obtain ⟨s', hmoves, hdone⟩ :=
    drivenOut_leaving (s := s.goto u (.leaving .threw op.method.arg)) (u := u)
      (Function.update_self _ _ _)
  exact ⟨s', hmoves.head hs rfl rfl rfl, hdone⟩

/-- On an open queue a thread that owns the mutex either goes to sleep or gets
as far as the body. -/
theorem drivenOut_testing {s : State τ T} {u : τ} {op : Op T} (hopen : s.q.closed = false)
    (hpc : s.pc u = .testing op false) : DrivenOut u s := by
  by_cases hp : op.method.pred s.q = true
  · have hs : next s (.test u) = some (s.goto u (.deciding op true)) := by
      simp only [next, hpc, hp, if_true]
    have hr : op.method.refuses s.q true = false := by
      rw [← Bool.not_eq_true]
      intro hr
      rw [closed_of_method_refuses hr] at hopen
      cases hopen
    have hd : next (s.goto u (.deciding op true)) (.decide u)
        = some ((s.goto u (.deciding op true)).goto u (.mutating op)) := by
      simp [next, State.goto, hr]
    obtain ⟨s', hmoves, hdone⟩ :=
      drivenOut_mutating (s := (s.goto u (.deciding op true)).goto u (.mutating op)) (u := u)
        (Function.update_self _ _ _)
    exact ⟨s', (hmoves.head hd rfl rfl rfl).head hs rfl rfl rfl, hdone⟩
  · have hs : next s (.test u) = some { s.goto u (.asleep op) with mutex := none } := by
      simp [next, hpc, hp]
    exact ⟨_, (Moves.refl u _).head hs rfl rfl rfl, rfl, by simp [State.goto, Pc.quiet]⟩

/-- On its way to the mutex in one of the four waiting operations. -/
def Pc.Arriving (pc : Pc T) : Prop := ∃ op, pc = .entering op ∨ pc = .woken op

theorem drivenOut_arriving {s : State τ T} {u : τ} (hm : s.mutex = none)
    (hopen : s.q.closed = false) (hpc : (s.pc u).Arriving) : DrivenOut u s := by
  obtain ⟨op, hop⟩ := hpc
  have hs : next s (.lock u false) =
      some { s.goto u (.testing op false) with mutex := some u } := by
    rcases hop with hop | hop <;> simp [next, hm, hop]
  obtain ⟨s', hmoves, hdone⟩ :=
    drivenOut_testing (s := { s.goto u (.testing op false) with mutex := some u }) (u := u) hopen
      (Function.update_self _ _ _)
  exact ⟨s', hmoves.head hs rfl rfl rfl, hdone⟩

/-- With the mutex free and every other thread on its way to it, everybody can
be driven out: the run ends quiescent, with the same queue, and whoever was
quiet has not moved. The induction is on the number of threads still awake. -/
theorem exists_quiescent {s : State τ T} (hm : s.mutex = none) (hopen : s.q.closed = false)
    (hpc : ∀ u, (s.pc u).quiet = true ∨ (s.pc u).Arriving) :
    ∃ ls s', (∀ l ∈ ls, l.throwsInBody = true) ∧
      (system τ T s.q.capacity).run s ls = some s' ∧ Quiescent s' ∧ s'.q = s.q ∧
      ∀ u, (s.pc u).quiet = true → s'.pc u = s.pc u := by
  generalize hn : tally (fun pc : Pc T => (!pc.quiet).toNat) s.pc = n
  induction n using Nat.strong_induction_on generalizing s with
  | _ n ih =>
    by_cases hq : Quiescent s
    · exact ⟨[], s, by simp, rfl, hq, rfl, fun _ _ => rfl⟩
    · obtain ⟨u, hu⟩ := not_forall.mp hq
      -- one thread that is awake is driven out; the others stay where they are
      obtain ⟨m, hmoves, hmutex, hquiet⟩ :=
        drivenOut_arriving hm hopen ((hpc u).resolve_left hu)
      have hupd : m.pc = Function.update s.pc u (m.pc u) :=
        (Function.eq_update_iff).mpr ⟨rfl, fun v hv => hmoves.others v hv⟩
      have hless : tally (fun pc : Pc T => (!pc.quiet).toNat) m.pc < n := by
        have := tally_update (fun pc : Pc T => (!pc.quiet).toNat) s.pc u (m.pc u)
        rw [← hupd, hquiet, hn] at this
        simp only [Bool.not_eq_true] at hu
        simp only [hu, Bool.not_false, Bool.toNat_true, Bool.not_true, Bool.toNat_false] at this
        omega
      have hpc' : ∀ v, (m.pc v).quiet = true ∨ (m.pc v).Arriving := by
        intro v
        by_cases hv : v = u
        · exact .inl (hv ▸ hquiet)
        · rw [hmoves.others v hv]
          exact hpc v
      obtain ⟨ls, s', hls, hrun, hquiescent, hq', hkeep⟩ :=
        ih _ hless hmutex (by rw [hmoves.q]; exact hopen) hpc' rfl
      obtain ⟨ls₀, hls₀, hrun₀⟩ := hmoves.run
      rw [hmoves.q] at hrun
      refine ⟨ls₀ ++ ls, s', ?_, System.run_append_eq_some.mpr ⟨m, hrun₀, hrun⟩, hquiescent,
        hq'.trans hmoves.q, fun v hv => ?_⟩
      · intro l hl
        exact (List.mem_append.mp hl).elim (hls₀ l) (hls l)
      · have hvu : v ≠ u := by
          intro heq
          subst heq
          exact hu hv
        rw [hkeep v (by rw [hmoves.others v hvu]; exact hv), hmoves.others v hvu]

/-! ### The condition is exact -/

/-- The rest of a run that throws nowhere but in a body ends with somebody
stranded. -/
def CanStrand (s : State τ T) : Prop :=
  ∃ ls s', (∀ l ∈ ls, l.throwsInBody = true) ∧
    (system τ T s.q.capacity).run s ls = some s' ∧ Quiescent s' ∧ ¬ NobodyStranded s'

omit [Fintype τ] [DecidableEq τ] in
/-- A sleeper with something available to it is stranded. -/
theorem not_nobodyStranded {s : State τ T} {t : τ} {op : Op T} (hpc : s.pc t = .asleep op)
    (hpos : 0 < s.q.available op.method.waitsOn) : ¬ NobodyStranded s := by
  intro h
  cases op with
  | push x | tryPush x =>
    have := (h.producers t _ hpc ⟨x, by simp⟩).1
    exact absurd hpos (Nat.not_lt_of_le (Nat.sub_eq_zero_of_le this).le)
  | pop | tryPop =>
    have hnil := (h.consumers t _ hpc (by simp)).1
    have : 0 < s.q.queue.length := hpos
    simp [hnil] at this

omit [DecidableEq τ] in
theorem exists_sleeper {s : State τ T} {cv : Cv} (h : 0 < s.sleepers cv) :
    ∃ u op, s.pc u = .asleep op ∧ op.method.waitsOn = cv := by
  obtain ⟨u, hu⟩ := exists_of_tally_pos h
  have hsleeps : (s.pc u).sleepsOn cv = true := by
    cases hb : (s.pc u).sleepsOn cv with
    | true => rfl
    | false => simp [Pc.asleepOn, hb] at hu
  exact ⟨u, Pc.sleepsOn_eq_true hsleeps⟩

/-- Past a throw that was not covered, with everyone else driven out by
throwing, a sleeper is left with something available to it. -/
theorem canStrand_of_not_covered {s : State τ T} {t : τ} {op : Op T} (hO : Owned s)
    (hW : WakeOk s op.method.waitsOn) (hpc : s.pc t = .mutating op)
    (hno : ¬ ThrowCovered s (.body t true)) :
    CanStrand (s.goto t (.leaving .threw op.method.arg)) := by
  have hpos := hO.available_pos hpc
  simp only [ThrowCovered, hpc, Pc.mutating.injEq, forall_eq', not_or] at hno
  obtain ⟨hsleep, hclose, -⟩ := hno
  have hopen : s.q.closed = false := by
    rcases hW with h | h | ⟨h, -⟩
    · exact absurd h hsleep
    · exact absurd h hclose
    · exact h
  obtain ⟨u, op', hu, hcv⟩ := exists_sleeper (Nat.pos_of_ne_zero hsleep)
  -- the thread that throws returns; whoever is left awake waits for the mutex
  obtain ⟨m, hmoves, hmutex, hquiet⟩ :=
    drivenOut_leaving (s := s.goto t (.leaving .threw op.method.arg)) (u := t)
      (Function.update_self _ _ _)
  have hothers : ∀ v, v ≠ t → m.pc v = s.pc v := fun v hv => by
    rw [hmoves.others v hv, State.goto_pc_of_ne hv]
  have hpcs : ∀ v, (m.pc v).quiet = true ∨ (m.pc v).Arriving := by
    intro v
    by_cases hv : v = t
    · exact .inl (hv ▸ hquiet)
    · have hholds := hO.owner.not_holds (by rw [hpc]; rfl) hv
      have hnot := tally_eq_zero.mp (Nat.eq_zero_of_not_pos hclose) v
      have hpast := hO.closing v
      rw [hopen] at hpast
      rw [hothers v hv]
      cases hs : s.pc v <;>
        simp_all [Pc.quiet, Pc.Arriving, Pc.holds, Pc.closing, Pc.pastClose]
  obtain ⟨ls, s', hls, hrun, hquiescent, hq', hkeep⟩ :=
    exists_quiescent hmutex (by rw [hmoves.q]; exact hopen) hpcs
  obtain ⟨ls₀, hls₀, hrun₀⟩ := hmoves.run
  rw [hmoves.q] at hrun
  refine ⟨ls₀ ++ ls, s', fun l hl => (List.mem_append.mp hl).elim (hls₀ l) (hls l),
    System.run_append_eq_some.mpr ⟨m, hrun₀, hrun⟩, hquiescent, ?_⟩
  -- the sleeper has not moved, and what is there for it is still there
  have hut : u ≠ t := by
    intro heq
    subst heq
    rw [hpc] at hu
    cases hu
  have hstill : s'.pc u = .asleep op' := by
    rw [hkeep u (by rw [hothers u hut, hu]; rfl), hothers u hut, hu]
  refine not_nobodyStranded hstill ?_
  rw [hcv, hq', hmoves.q]
  exact hpos

/-- **Exceptions strand nobody exactly where they are covered.** Runs whose
every throw is covered keep every quiescent state free of stranded threads; and
the first throw that is not covered can be continued to a stranded one. -/
theorem throw_strands_iff (capacity : ℕ) :
    (∀ s : State τ T, (system τ T capacity).Reach ThrowCovered s → Quiescent s →
      NobodyStranded s) ∧
    ∀ (s s' : State τ T) (l : Label τ T), (system τ T capacity).Reach ThrowCovered s →
      next s l = some s' → ¬ ThrowCovered s l → CanStrand s' := by
  refine ⟨fun s h hq => nobodyStranded_of_wakeOk (wake_of_reach h) hq, ?_⟩
  intro s s' l h hs hno
  cases next_step hs
  case bodyThrows t op hpc =>
    exact canStrand_of_not_covered (owned_of_reach h) (wake_of_reach h _) hpc hno
  all_goals exact absurd trivial hno

/-! ### A stranded producer -/

/-- Capacity 1: the queue is full, two producers sleep, a `pop` wakes the first
of them, and its `push_back` throws. -/
def throwAfterWakeup : List (Label (Fin 3) ℕ) :=
  [.call 0 (.push 1), .lock 0 false, .test 0, .decide 0, .body 0 false, .notify 0 none,
    .leave 0 false,
    .call 1 (.push 2), .lock 1 false, .test 1,
    .call 2 (.push 3), .lock 2 false, .test 2,
    .call 0 .pop, .lock 0 false, .test 0, .decide 0, .body 0 false, .notify 0 (some 1),
    .leave 0 false,
    .lock 1 false, .test 1, .decide 1, .body 1 true, .leave 1 false]

/-- The state it ends in. -/
def strandedState : State (Fin 3) ℕ :=
  ((system (Fin 3) ℕ 1).run (.start 1) throwAfterWakeup).get (by decide)

/-- The second producer sleeps on an empty queue while nobody runs. -/
theorem throw_strands_producer :
    ¬ ∀ s : State (Fin 3) ℕ,
      (system (Fin 3) ℕ 1).Reach (fun _ l => l.throwsInBody = true) s → Quiescent s →
        NobodyStranded s := by
  intro h
  have hreach : (system (Fin 3) ℕ 1).Reach (fun _ l => l.throwsInBody = true) strandedState :=
    .of_run (.init rfl) (by decide) (Option.some_get _).symm
  have hasleep : strandedState.pc 2 = .asleep (.push 3) := by decide
  exact not_nobodyStranded hasleep (by decide) (h strandedState hreach (by decide))

end CcSnippets.BlockingQueue

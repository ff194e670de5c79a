import CcSnippets.Core.Linearizability
import CcSnippets.Core.Transition

/-!
# CcSnippets.Core.Monitor

**Monitors**: objects whose every method takes one mutex, and holds it until it is done.

A method is run step by step under the mutex, and what a step does may be chosen by the
environment (which allocation throws, say). Between its steps the object may be in any
state, but nobody else sees it: every history of calls is linearizable with respect to
the methods run in one piece (`Monitor.linearizable`).
-/

namespace CcSnippets.Core

/-- An object with the states `σ` and the methods `ο`, whose results are in `ρ`. A method
in progress is at some `π`. -/
structure Monitor (σ ο π χ ρ : Type*) where
  start : σ
  /-- Where a method starts. -/
  enter : ο → π
  /-- One step of a method, which goes on, or is done with a result. -/
  step : χ → π → σ → Option (σ × (π ⊕ ρ))

namespace Monitor

variable {τ σ ο π χ ρ : Type*}

/-- Where a thread is. -/
inductive Pc (ο π ρ : Type*)
  | idle
  /-- About to take the mutex. -/
  | entering (op : ο)
  /-- In the method, and about to do the step at `p`. -/
  | inside (op : ο) (p : π)
  /-- Done, and about to release the mutex. -/
  | leaving (r : ρ)
  /-- About to return. -/
  | returning (r : ρ)
  deriving DecidableEq, Repr

/-- A method that holds the mutex. -/
def Pc.holds : Pc ο π ρ → Bool
  | .inside _ _ | .leaving _ => true
  | .idle | .entering _ | .returning _ => false

/-- The object, its mutex, and the threads. -/
structure State (τ σ ο π ρ : Type*) where
  obj : σ
  mutex : Option τ
  pc : τ → Pc ο π ρ
  /-- The object when the last method to be done was done. -/
  settled : σ
  /-- How many calls of each thread have returned. -/
  returned : τ → ℕ

/-- What happens next. -/
inductive Label (τ ο χ : Type*)
  | call (t : τ) (op : ο)
  | lock (t : τ)
  | step (t : τ) (c : χ)
  | unlock (t : τ)
  | ret (t : τ)
  deriving DecidableEq, Repr

variable [DecidableEq τ] (m : Monitor σ ο π χ ρ)

/-- Thread `t` goes to `pc`. -/
def State.goto (s : State τ σ ο π ρ) (t : τ) (pc : Pc ο π ρ) : State τ σ ο π ρ :=
  { s with pc := Function.update s.pc t pc }

/-- The successor of a state. -/
def next (s : State τ σ ο π ρ) : Label τ ο χ → Option (State τ σ ο π ρ)
  | .call t op =>
    match s.pc t with
    | .idle => some (s.goto t (.entering op))
    | _ => none
  | .lock t =>
    match s.pc t, s.mutex with
    | .entering op, none => some { s.goto t (.inside op (m.enter op)) with mutex := some t }
    | _, _ => none
  | .step t c =>
    match s.pc t with
    | .inside op p =>
      match m.step c p s.obj with
      | some (obj, .inl q) => some { s.goto t (.inside op q) with obj := obj }
      | some (obj, .inr r) => some { s.goto t (.leaving r) with obj := obj, settled := obj }
      | none => none
    | _ => none
  | .unlock t =>
    match s.pc t with
    | .leaving r => some { s.goto t (.returning r) with mutex := none }
    | _ => none
  | .ret t =>
    match s.pc t with
    | .returning _ =>
      some { s.goto t .idle with
        returned := Function.update s.returned t (s.returned t + 1) }
    | _ => none

/-- No thread in a call. -/
def init : State τ σ ο π ρ where
  obj := m.start
  mutex := none
  pc _ := .idle
  settled := m.start
  returned _ := 0

/-- The monitor in the hands of any number of threads. -/
def system (τ : Type*) [DecidableEq τ] : System (State τ σ ο π ρ) (Label τ ο χ) where
  init s := s = m.init
  next := m.next

/-- What is seen of a step from outside. -/
def seen (s : State τ σ ο π ρ) (l : Label τ ο χ) (_ : State τ σ ο π ρ) :
    List (CallEvent (τ × ℕ) ο ρ) :=
  match l with
  | .call t op => [.call (t, s.returned t) op]
  | .ret t =>
    match s.pc t with
    | .returning r => [.ret (t, s.returned t) r]
    | _ => []
  | .lock _ | .step _ _ | .unlock _ => []

/-! ### Methods in one piece -/

/-- A method goes on from `p` to its end. -/
inductive Runs : π → σ → ρ → σ → Prop
  | last {c : χ} {p : π} {obj obj' : σ} {r : ρ} : m.step c p obj = some (obj', .inr r) →
      Runs p obj r obj'
  | more {c : χ} {p q : π} {obj mid obj' : σ} {r : ρ} : m.step c p obj = some (mid, .inl q) →
      Runs q mid r obj' → Runs p obj r obj'

theorem runs_iff {m : Monitor σ ο π χ ρ} {p : π} {obj obj' : σ} {r : ρ} :
    m.Runs p obj r obj' ↔ (∃ c, m.step c p obj = some (obj', .inr r)) ∨
      ∃ c mid q, m.step c p obj = some (mid, .inl q) ∧ m.Runs q mid r obj' := by
  constructor
  · intro h
    cases h with
    | last hstep => exact .inl ⟨_, hstep⟩
    | more hstep hrest => exact .inr ⟨_, _, _, hstep, hrest⟩
  · intro h
    rcases h with ⟨c, hstep⟩ | ⟨c, mid, q, hstep, hrest⟩
    · exact .last hstep
    · exact .more hstep hrest

/-- The methods as those of a sequential object. -/
def sequential : Object σ ο ρ ρ where
  start := m.start
  Does obj op r obj' := m.Runs (m.enter op) obj r obj'
  Shows := Eq

/-! ### Linearizability -/

/-- How far a call is. -/
def Pc.phase : Pc ο π ρ → Phase ο ρ
  | .idle => .fresh
  | .entering op | .inside op _ => .called op
  | .leaving r | .returning r => .performed r

def State.phase (s : State τ σ ο π ρ) (t : τ) : Phase ο ρ := (s.pc t).phase

/-- The atomic object that a state is one of: a method is performed as it is done. -/
def State.atomic (s : State τ σ ο π ρ) : Atomic σ (τ × ℕ) ο ρ :=
  Atomic.ofThreads s.settled s.returned s.phase

/-- Everything a step can do. -/
inductive Step (s : State τ σ ο π ρ) : Label τ ο χ → State τ σ ο π ρ → Prop
  | call {t : τ} {op : ο} : s.pc t = .idle → Step s (.call t op) (s.goto t (.entering op))
  | lock {t : τ} {op : ο} : s.pc t = .entering op → s.mutex = none →
      Step s (.lock t) { s.goto t (.inside op (m.enter op)) with mutex := some t }
  | goesOn {t : τ} {c : χ} {op : ο} {p q : π} {obj : σ} : s.pc t = .inside op p →
      m.step c p s.obj = some (obj, .inl q) →
      Step s (.step t c) { s.goto t (.inside op q) with obj := obj }
  | done {t : τ} {c : χ} {op : ο} {p : π} {r : ρ} {obj : σ} : s.pc t = .inside op p →
      m.step c p s.obj = some (obj, .inr r) →
      Step s (.step t c) { s.goto t (.leaving r) with obj := obj, settled := obj }
  | unlock {t : τ} {r : ρ} : s.pc t = .leaving r →
      Step s (.unlock t) { s.goto t (.returning r) with mutex := none }
  | ret {t : τ} {r : ρ} : s.pc t = .returning r →
      Step s (.ret t) { s.goto t .idle with
        returned := Function.update s.returned t (s.returned t + 1) }

variable {m} {s s' : State τ σ ο π ρ}

theorem next_step {l : Label τ ο χ} (h : m.next s l = some s') : m.Step s l s' := by
  cases l with
  | call t op =>
    simp only [next] at h
    split at h
    · rename_i hpc
      exact Option.some.inj h ▸ .call hpc
    · cases h
  | lock t =>
    simp only [next] at h
    split at h
    · rename_i hpc hmutex
      exact Option.some.inj h ▸ .lock hpc hmutex
    · cases h
  | step t c =>
    simp only [next] at h
    split at h
    · rename_i hpc
      split at h
      · rename_i hstep
        exact Option.some.inj h ▸ .goesOn hpc hstep
      · rename_i hstep
        exact Option.some.inj h ▸ .done hpc hstep
      · cases h
    · cases h
  | unlock t =>
    simp only [next] at h
    split at h
    · rename_i hpc
      exact Option.some.inj h ▸ .unlock hpc
    · cases h
  | ret t =>
    simp only [next] at h
    split at h
    · rename_i hpc
      exact Option.some.inj h ▸ .ret hpc
    · cases h

@[simp] theorem State.goto_pc_self (s : State τ σ ο π ρ) (t : τ) (pc : Pc ο π ρ) :
    (s.goto t pc).pc t = pc := Function.update_self _ _ _

theorem State.goto_pc_of_ne (s : State τ σ ο π ρ) {t u : τ} (h : u ≠ t) (pc : Pc ο π ρ) :
    (s.goto t pc).pc u = s.pc u := Function.update_of_ne h _ _

/-- Who holds the mutex is in the method, and has only done steps of it. -/
structure Held (m : Monitor σ ο π χ ρ) (s : State τ σ ο π ρ) : Prop where
  owner : ∀ t, (s.pc t).holds = true ↔ s.mutex = some t
  under : ∀ t op p, s.pc t = .inside op p → ∀ r obj, m.Runs p s.obj r obj →
    m.Runs (m.enter op) s.settled r obj
  outside : (∀ t op p, s.pc t ≠ .inside op p) → s.obj = s.settled

omit [DecidableEq τ] in
theorem held_init : Held m (m.init : State τ σ ο π ρ) where
  owner t := by simp [init, Pc.holds]
  under t op p hpc := nomatch hpc
  outside _ := rfl

namespace Held

omit [DecidableEq τ] in
/-- A thread that holds the mutex is the only one. -/
theorem eq_of_holds (h : Held m s) {t u : τ} (ht : (s.pc t).holds = true)
    (hu : (s.pc u).holds = true) : u = t :=
  Option.some.inj (((h.owner u).mp hu).symm.trans ((h.owner t).mp ht))

/-- A thread moves outside of the mutex. -/
theorem goto (h : Held m s) {t : τ} {pc : Pc ο π ρ} (hfrom : (s.pc t).holds = false)
    (hto : pc.holds = false) : Held m (s.goto t pc) where
  owner u := by
    by_cases hu : u = t
    · subst hu
      show _ ↔ s.mutex = some u
      rw [State.goto_pc_self, hto, ← h.owner u, hfrom]
    · rw [State.goto_pc_of_ne s hu]
      exact h.owner u
  under u op p hpc := by
    by_cases hu : u = t
    · subst hu
      rw [State.goto_pc_self] at hpc
      rw [hpc] at hto
      cases hto
    · rw [State.goto_pc_of_ne s hu] at hpc
      exact h.under u op p hpc
  outside hnone := by
    refine h.outside fun u op p hpc => ?_
    by_cases hu : u = t
    · subst hu
      rw [hpc] at hfrom
      cases hfrom
    · exact hnone u op p (by rwa [State.goto_pc_of_ne s hu])

/-- The thread that takes or holds the mutex goes on with it. -/
theorem hold (h : Held m s) {t : τ} {op : ο} {p : π} {obj : σ}
    (hmutex : s.mutex = none ∨ s.mutex = some t)
    (hruns : ∀ r obj', m.Runs p obj r obj' → m.Runs (m.enter op) s.settled r obj') :
    Held m { s.goto t (.inside op p) with mutex := some t, obj := obj } where
  owner u := by
    by_cases hu : u = t
    · subst hu
      simp [Pc.holds]
    · have hnot : s.mutex ≠ some u := by
        rcases hmutex with hnone | hsome
        · simp [hnone]
        · simp [hsome, Ne.symm hu]
      have hfree : (s.pc u).holds ≠ true := fun hholds => hnot ((h.owner u).mp hholds)
      show ((s.goto t (.inside op p)).pc u).holds = true ↔ some t = some u
      rw [State.goto_pc_of_ne s hu]
      exact iff_of_false hfree fun heq => hu (Option.some.inj heq).symm
  under u op' p' hpc := by
    by_cases hu : u = t
    · subst hu
      have hpc' : (s.goto u (.inside op p)).pc u = .inside op' p' := hpc
      rw [State.goto_pc_self] at hpc'
      obtain ⟨rfl, rfl⟩ := Pc.inside.inj hpc'
      exact hruns
    · have hpc' : (s.goto t (.inside op p)).pc u = .inside op' p' := hpc
      rw [State.goto_pc_of_ne s hu] at hpc'
      have howner := (h.owner u).mp (by rw [hpc']; rfl)
      rcases hmutex with hnone | hsome
      · rw [hnone] at howner
        cases howner
      · exact absurd (Option.some.inj (howner.symm.trans hsome)) hu
  outside hnone := absurd (State.goto_pc_self s t _) (hnone t op p)

end Held

theorem held_step {l : Label τ ο χ} (h : Held m s) (hs : m.Step s l s') : Held m s' := by
  cases hs with
  | call hpc => exact h.goto (by rw [hpc]; rfl) rfl
  | @lock t op hpc hmutex =>
    have hsettled : s.obj = s.settled := by
      refine h.outside fun u op p hu => ?_
      have howner := (h.owner u).mp (by rw [hu]; rfl)
      rw [hmutex] at howner
      cases howner
    exact h.hold (.inl hmutex) fun r obj hruns => hsettled ▸ hruns
  | @goesOn t c op p q obj hpc hstep =>
    have howner := (h.owner t).mp (by rw [hpc]; rfl)
    have hheld : Held m { s.goto t (.inside op q) with mutex := some t, obj := obj } :=
      h.hold (.inr howner) fun r obj' hruns => h.under t op p hpc r obj' (.more hstep hruns)
    rwa [← howner] at hheld
  | @done t c op p r obj hpc hstep =>
    have hholds : (s.pc t).holds = true := by rw [hpc]; rfl
    refine ⟨fun u => ?_, fun u op' p' hu => ?_, fun _ => rfl⟩
    · show ((s.goto t (.leaving r)).pc u).holds = true ↔ s.mutex = some u
      by_cases hut : u = t
      · subst hut
        rw [State.goto_pc_self, ← h.owner u, hholds]
        rfl
      · rw [State.goto_pc_of_ne s hut]
        exact h.owner u
    · have hu' : (s.goto t (.leaving r)).pc u = .inside op' p' := hu
      by_cases hut : u = t
      · subst hut
        rw [State.goto_pc_self] at hu'
        cases hu'
      · rw [State.goto_pc_of_ne s hut] at hu'
        exact absurd (h.eq_of_holds hholds (by rw [hu']; rfl)) hut
  | @unlock t r hpc =>
    have hholds : (s.pc t).holds = true := by rw [hpc]; rfl
    have hothers : ∀ u, ((s.goto t (.returning r)).pc u).holds = false := by
      intro u
      by_cases hut : u = t
      · subst hut
        rw [State.goto_pc_self]
        rfl
      · rw [State.goto_pc_of_ne s hut, ← Bool.not_eq_true]
        exact fun hu => hut (h.eq_of_holds hholds hu)
    refine ⟨fun u => ?_, fun u op p hu => ?_, fun _ => ?_⟩
    · exact iff_of_false (by rw [hothers u]; exact Bool.false_ne_true) (by simp)
    · have hu' : (s.goto t (.returning r)).pc u = .inside op p := hu
      have hfree := hothers u
      rw [hu'] at hfree
      cases hfree
    · refine h.outside fun u op p hu => ?_
      obtain rfl := h.eq_of_holds hholds (by rw [hu]; rfl)
      rw [hpc] at hu
      cases hu
  | ret hpc =>
    have hheld : Held m (s.goto _ .idle) := h.goto (by rw [hpc]; rfl) rfl
    exact ⟨hheld.owner, hheld.under, hheld.outside⟩

theorem State.goto_phase (s : State τ σ ο π ρ) (t : τ) (pc : Pc ο π ρ) :
    (s.goto t pc).phase = Function.update s.phase t pc.phase := by
  funext u
  rw [State.phase]
  by_cases hu : u = t
  · subst hu
    simp
  · rw [State.goto_pc_of_ne s hu, Function.update_of_ne hu, State.phase]

/-- A step of the monitor is a step of the object, or none that anybody sees. -/
theorem exec_step {l : Label τ ο χ} (h : Held m s) (hs : m.Step s l s') :
    Atomic.Exec m.sequential s.atomic (seen s l s') s'.atomic := by
  -- a step that leaves the call where it is
  have hwithin : ∀ {t : τ} {pc : Pc ο π ρ}, pc.phase = s.phase t →
      Atomic.Exec m.sequential s.atomic []
        (Atomic.ofThreads s.settled s.returned (s.goto t pc).phase) := by
    intro t pc hphase
    rw [State.goto_phase, hphase, Function.update_eq_self]
    exact .refl
  cases hs with
  | @call t op hpc =>
    have hphase : s.phase t = .fresh := by rw [State.phase, hpc]; rfl
    rw [State.atomic, State.atomic, State.goto_phase]
    exact Atomic.exec_call hphase op
  | @lock t op hpc _ => exact hwithin (by rw [State.phase, hpc]; rfl)
  | @goesOn t c op p q obj hpc _ => exact hwithin (by rw [State.phase, hpc]; rfl)
  | @done t c op p r obj hpc hstep =>
    have hphase : s.phase t = .called op := by rw [State.phase, hpc]; rfl
    have hdoes : m.Runs (m.enter op) s.settled r obj := h.under t op p hpc r obj (.last hstep)
    show Atomic.Exec _ _ [] (Atomic.ofThreads obj s.returned (s.goto t (.leaving r)).phase)
    rw [State.goto_phase]
    exact Atomic.exec_perform hphase hdoes
  | @unlock t r hpc => exact hwithin (by rw [State.phase, hpc]; rfl)
  | @ret t r hpc =>
    have hphase : s.phase t = .performed r := by rw [State.phase, hpc]; rfl
    rw [seen, hpc]
    show Atomic.Exec _ _ _ (Atomic.ofThreads s.settled _ (s.goto t .idle).phase)
    rw [State.goto_phase]
    exact Atomic.exec_ret hphase rfl

/-- **A monitor is linearizable**: its methods are as good as atomic, whatever the order of
their steps. -/
theorem linearizable {ls : List (Label τ ο χ)} (hrun : (m.system τ).run m.init ls = some s) :
    m.sequential.Linearizable ((m.system τ).trace seen m.init ls) := by
  have hmatched : ∀ (s : State τ σ ο π ρ) l s', Held m s → (m.system τ).next s l = some s' →
      Held m s' ∧ Atomic.Exec m.sequential s.atomic (seen s l s') s'.atomic := by
    intro s l s' h hs
    have hstep : m.Step s l s' := next_step hs
    exact ⟨held_step h hstep, exec_step h hstep⟩
  exact Atomic.linearizable_of_simulates hmatched held_init
    (Atomic.ofThreads_start m.sequential) hrun

/-! ### Progress -/

theorem held_of_reach (h : (m.system τ).Reachable s) : Held m s := by
  refine h.invariant (I := Held m) ?_ ?_
  · intro s h0
    obtain rfl := h0
    exact held_init
  · intro s l s' _ hs _ hnext
    exact held_step hs (next_step hnext)

/-- Between methods the object meets `I`, and at each point of a method what makes the step
there defined. -/
structure Sound (m : Monitor σ ο π χ ρ) (I : σ → Prop) (Ok : π → σ → Prop) : Prop where
  start : I m.start
  enter : ∀ {op obj}, I obj → Ok (m.enter op) obj
  defined : ∀ {p obj} (c : χ), Ok p obj → (m.step c p obj).isSome = true
  goesOn : ∀ {p obj c obj' q}, Ok p obj → m.step c p obj = some (obj', .inl q) → Ok q obj'
  done : ∀ {p obj c obj' r}, Ok p obj → m.step c p obj = some (obj', .inr r) → I obj'

namespace Sound

variable {I : σ → Prop} {Ok : π → σ → Prop}

/-- Whoever is in a method is where its step is defined. -/
theorem inside (h : Sound m I Ok) (hreach : (m.system τ).Reachable s) :
    I s.settled ∧ ∀ t op p, s.pc t = .inside op p → Ok p s.obj := by
  refine hreach.invariant (I := fun s : State τ σ ο π ρ =>
    I s.settled ∧ ∀ t op p, s.pc t = .inside op p → Ok p s.obj) ?_ ?_
  · intro s h0
    obtain rfl := h0
    exact ⟨h.start, fun t op p hpc => nomatch hpc⟩
  · intro s l s' hreach hs _ hnext
    have hheld := held_of_reach hreach
    -- another thread that goes on in a method was there before
    have hothers : ∀ {t u : τ} {pc : Pc ο π ρ} {op : ο} {p : π}, pc.holds = false →
        (s.goto t pc).pc u = .inside op p → Ok p s.obj := by
      intro t u pc op p hpc hu
      by_cases hut : u = t
      · subst hut
        rw [State.goto_pc_self] at hu
        rw [hu] at hpc
        cases hpc
      · rw [State.goto_pc_of_ne s hut] at hu
        exact hs.2 u op p hu
    -- and none was, beside the one that holds the mutex
    have halone : ∀ {t u : τ} {pc : Pc ο π ρ} {op : ο} {p : π}, (s.pc t).holds = true →
        (s.goto t pc).pc u = .inside op p → pc = .inside op p := by
      intro t u pc op p ht hu
      by_cases hut : u = t
      · subst hut
        rwa [State.goto_pc_self] at hu
      · rw [State.goto_pc_of_ne s hut] at hu
        exact absurd (hheld.eq_of_holds ht (by rw [hu]; rfl)) hut
    cases next_step hnext with
    | call _ | ret _ => exact ⟨hs.1, fun u op p hu => hothers rfl hu⟩
    | unlock hpc =>
      refine ⟨hs.1, fun u op p hu => ?_⟩
      cases halone (by rw [hpc]; rfl) hu
    | @lock t op hpc hmutex =>
      have hfree : ∀ u op' p', s.pc u ≠ .inside op' p' := by
        intro u op' p' hu
        have howner := (hheld.owner u).mp (by rw [hu]; rfl)
        rw [hmutex] at howner
        cases howner
      refine ⟨hs.1, fun u op' p' hu => ?_⟩
      have hu' : (s.goto t (.inside op (m.enter op))).pc u = .inside op' p' := hu
      by_cases hut : u = t
      · subst hut
        rw [State.goto_pc_self] at hu'
        obtain ⟨rfl, rfl⟩ := Pc.inside.inj hu'
        show Ok _ s.obj
        rw [hheld.outside hfree]
        exact h.enter hs.1
      · rw [State.goto_pc_of_ne s hut] at hu'
        exact absurd hu' (hfree u op' p')
    | @goesOn t c op p q obj hpc hstep =>
      refine ⟨hs.1, fun u op' p' hu => ?_⟩
      obtain ⟨rfl, rfl⟩ := Pc.inside.inj (halone (by rw [hpc]; rfl) hu)
      exact h.goesOn (hs.2 t op p hpc) hstep
    | @done t c op p r obj hpc hstep =>
      refine ⟨h.done (hs.2 t op p hpc) hstep, fun u op' p' hu => ?_⟩
      cases halone (by rw [hpc]; rfl) hu

/-- As long as a thread is in a call some thread can go on. -/
theorem exists_next [Inhabited χ] (h : Sound m I Ok) (hreach : (m.system τ).Reachable s) {t : τ}
    (ht : s.pc t ≠ .idle) : ∃ l s', (∀ u op, l ≠ .call u op) ∧ m.next s l = some s' := by
  have hheld := held_of_reach hreach
  have hholder : ∀ u, (s.pc u).holds = true →
      ∃ l s', (∀ v op, l ≠ .call v op) ∧ m.next s l = some s' := by
    intro u hu
    cases hpc : s.pc u with
    | inside op p =>
      obtain ⟨⟨obj, q | r⟩, hstep⟩ :=
        Option.isSome_iff_exists.mp (h.defined default ((h.inside hreach).2 u op p hpc))
      · exact ⟨.step u default, _, nofun, by simp only [next, hpc, hstep]; rfl⟩
      · exact ⟨.step u default, _, nofun, by simp only [next, hpc, hstep]; rfl⟩
    | leaving r => exact ⟨.unlock u, _, nofun, by simp only [next, hpc]; rfl⟩
    | idle | entering _ | returning _ =>
      rw [hpc] at hu
      cases hu
  cases hpc : s.pc t with
  | idle => exact absurd hpc ht
  | entering op =>
    cases hmutex : s.mutex with
    | none => exact ⟨.lock t, _, nofun, by simp only [next, hpc, hmutex]; rfl⟩
    | some u => exact hholder u ((hheld.owner u).mpr hmutex)
  | inside op p => exact hholder t (by rw [hpc]; rfl)
  | leaving r => exact hholder t (by rw [hpc]; rfl)
  | returning r => exact ⟨.ret t, _, nofun, by simp only [next, hpc]; rfl⟩

end Sound

end Monitor

end CcSnippets.Core

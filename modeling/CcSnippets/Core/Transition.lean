import Mathlib.Data.List.Basic

/-!
# CcSnippets.Core.Transition

Labelled transition systems with an **executable** step function: every choice
the environment makes (which thread moves, which waiter is woken, which call
throws) is part of the label, so one label has at most one successor.

`Reach ok` is reachability by runs whose every step meets the condition `ok` on
the state before the step and the label; plain reachability is the case where
`ok` always holds. A claim about every run is an invariant of `Reach`
(`Reach.invariant`), a claim about the future of a state is an invariant of
`run` (`run_invariant`).
-/

namespace CcSnippets.Core

/-- A labelled transition system: its initial states, and the successor of a
state under a label (`none` where the label is not enabled). -/
structure System (σ : Type*) (ι : Type*) where
  init : σ → Prop
  next : σ → ι → Option σ

namespace System

variable {σ ι : Type*} (M : System σ ι)

/-- The states reached by runs whose every step meets `ok`. -/
inductive Reach (ok : σ → ι → Prop) : σ → Prop
  /-- The empty run. -/
  | init {s : σ} : M.init s → Reach ok s
  /-- One more step, allowed by `ok`. -/
  | step {s s' : σ} {l : ι} : Reach ok s → ok s l → M.next s l = some s' → Reach ok s'

/-- Every step is allowed. -/
def anyStep : σ → ι → Prop := fun _ _ => True

/-- The states reached by any run. -/
abbrev Reachable : σ → Prop := M.Reach anyStep

/-- The run along a list of labels. -/
def run (s : σ) : List ι → Option σ
  | [] => some s
  | l :: ls => (M.next s l).bind fun s' => run s' ls

variable {M} {ok ok' : σ → ι → Prop}

/-- A weaker condition on the steps reaches at least as much. -/
theorem Reach.mono (hok : ∀ s l, ok s l → ok' s l) {s : σ} (h : M.Reach ok s) :
    M.Reach ok' s := by
  induction h with
  | init h0 => exact .init h0
  | step _ hl hs ih => exact .step ih (hok _ _ hl) hs

/-- **Invariant rule.** What holds initially, and is kept by every allowed step
from a reached state, holds in every reached state. -/
theorem Reach.invariant {I : σ → Prop} (hinit : ∀ s, M.init s → I s)
    (hstep : ∀ s l s', M.Reach ok s → I s → ok s l → M.next s l = some s' → I s')
    {s : σ} (h : M.Reach ok s) : I s := by
  induction h with
  | init h0 => exact hinit _ h0
  | step hr hl hs ih => exact hstep _ _ _ hr ih hl hs

theorem run_cons (s : σ) (l : ι) (ls : List ι) :
    M.run s (l :: ls) = (M.next s l).bind fun s' => M.run s' ls := rfl

/-- A run along a nonempty list of labels starts with a step. -/
theorem run_cons_eq_some {s s' : σ} {l : ι} {ls : List ι} :
    M.run s (l :: ls) = some s' ↔ ∃ m, M.next s l = some m ∧ M.run m ls = some s' := by
  rw [run_cons, Option.bind_eq_some_iff]

theorem run_append (s : σ) (ls ls' : List ι) :
    M.run s (ls ++ ls') = (M.run s ls).bind fun s' => M.run s' ls' := by
  induction ls generalizing s with
  | nil => rfl
  | cons l ls ih =>
    rw [List.cons_append, run_cons, run_cons]
    cases M.next s l with
    | none => rfl
    | some m => exact ih m

/-- A run along `ls ++ ls'` passes through the state after `ls`. -/
theorem run_append_eq_some {s s' : σ} {ls ls' : List ι} :
    M.run s (ls ++ ls') = some s' ↔ ∃ m, M.run s ls = some m ∧ M.run m ls' = some s' := by
  rw [run_append, Option.bind_eq_some_iff]

/-- The run along one label that goes through the states `path`. -/
theorem run_replicate {l : ι} (path : ℕ → σ) (hpath : ∀ n, M.next (path n) l = some (path (n + 1)))
    (n : ℕ) : M.run (path 0) (List.replicate n l) = some (path n) := by
  induction n with
  | zero => rfl
  | succ n ih =>
    rw [List.replicate_succ', run_append, ih]
    exact run_cons_eq_some.mpr ⟨path (n + 1), hpath n, rfl⟩

/-- What every step under an allowed label keeps, every run under such labels keeps. -/
theorem run_invariant_of (allowed : ι → Prop) {I : σ → Prop}
    (hstep : ∀ s l s', allowed l → I s → M.next s l = some s' → I s') {ls : List ι} {s s' : σ}
    (hls : ∀ l ∈ ls, allowed l) (hs : I s) (h : M.run s ls = some s') : I s' := by
  induction ls generalizing s with
  | nil =>
    obtain rfl : s = s' := Option.some.inj h
    exact hs
  | cons l ls ih =>
    obtain ⟨m, hm, hrest⟩ := run_cons_eq_some.mp h
    exact ih (fun l' hl' => hls l' (List.mem_cons_of_mem l hl'))
      (hstep _ _ _ (hls l List.mem_cons_self) hs hm) hrest

/-- What every step keeps, every run keeps. -/
theorem run_invariant {I : σ → Prop}
    (hstep : ∀ s l s', I s → M.next s l = some s' → I s') {ls : List ι} {s s' : σ}
    (hs : I s) (h : M.run s ls = some s') : I s' :=
  run_invariant_of (fun _ => True) (fun s l s' _ => hstep s l s') (fun _ _ => trivial) hs h

variable (M) in
/-- The system in which only some of the labels are allowed. -/
def restrict (allowed : ι → Bool) : System σ ι where
  init := M.init
  next s l := if allowed l then M.next s l else none

theorem restrict_next {allowed : ι → Bool} {s s' : σ} {l : ι} :
    (M.restrict allowed).next s l = some s' ↔ allowed l = true ∧ M.next s l = some s' := by
  cases h : allowed l <;> simp [restrict, h]

theorem restrict_run {allowed : ι → Bool} {s s' : σ} {ls : List ι} :
    (M.restrict allowed).run s ls = some s' ↔
      (∀ l ∈ ls, allowed l = true) ∧ M.run s ls = some s' := by
  induction ls generalizing s with
  | nil => exact ⟨fun h => ⟨by simp, h⟩, fun h => h.2⟩
  | cons l ls ih =>
    rw [run_cons_eq_some, run_cons_eq_some, List.forall_mem_cons]
    constructor
    · intro h
      obtain ⟨m, hm, hrest⟩ := h
      obtain ⟨hl, hm⟩ := restrict_next.mp hm
      obtain ⟨hls, hrest⟩ := ih.mp hrest
      exact ⟨⟨hl, hls⟩, m, hm, hrest⟩
    · intro h
      obtain ⟨⟨hl, hls⟩, m, hm, hrest⟩ := h
      exact ⟨m, restrict_next.mpr ⟨hl, hm⟩, ih.mpr ⟨hls, hrest⟩⟩

/-- A run along labels that are enabled wherever `I` holds, and keep it, goes
through. -/
theorem run_of_enabled {I : σ → Prop} {ls : List ι}
    (hstep : ∀ s, I s → ∀ l ∈ ls, ∃ s', M.next s l = some s' ∧ I s') {s : σ} (hs : I s) :
    ∃ s', M.run s ls = some s' ∧ I s' := by
  induction ls generalizing s with
  | nil => exact ⟨s, rfl, hs⟩
  | cons l ls ih =>
    obtain ⟨m, hm, hIm⟩ := hstep s hs l List.mem_cons_self
    obtain ⟨s', hs', hIs'⟩ := ih (fun s hs l hl => hstep s hs l (List.mem_cons_of_mem _ hl)) hIm
    exact ⟨s', run_cons_eq_some.mpr ⟨m, hm, hs'⟩, hIs'⟩

/-- Where a label is enabled until `done`, and each time lowers a measure, a run
along it gets there. -/
theorem exists_run_done {I done : σ → Prop} {μ : σ → ℕ} {l : ι}
    (hstep : ∀ s, I s → ¬ done s → ∃ s', M.next s l = some s' ∧ I s' ∧ μ s' < μ s) {s : σ}
    (hs : I s) : ∃ n s', M.run s (List.replicate n l) = some s' ∧ I s' ∧ done s' := by
  -- By induction on a bound of the measure.
  suffices hbound : ∀ m s, μ s ≤ m → I s →
      ∃ n s', M.run s (List.replicate n l) = some s' ∧ I s' ∧ done s' from
    hbound (μ s) s (Nat.le_refl _) hs
  intro m
  induction m with
  | zero =>
    intro s hm hs
    by_cases hdone : done s
    · exact ⟨0, s, rfl, hs, hdone⟩
    · obtain ⟨t, -, -, hlt⟩ := hstep s hs hdone
      omega
  | succ m ih =>
    intro s hm hs
    by_cases hdone : done s
    · exact ⟨0, s, rfl, hs, hdone⟩
    · obtain ⟨t, ht, hIt, hlt⟩ := hstep s hs hdone
      obtain ⟨n, s', hrun, hI', hdone'⟩ := ih t (by omega) hIt
      exact ⟨n + 1, s', run_cons_eq_some.mpr ⟨t, ht, hrun⟩, hI', hdone'⟩

/-! ### Along one run -/

variable (M) in
/-- Every state of the run along a list of labels satisfies `P`. -/
def EveryState (P : σ → Prop) (s : σ) : List ι → Prop
  | [] => P s
  | l :: ls => P s ∧ ∀ s', M.next s l = some s' → EveryState P s' ls

variable (M) in
/-- Every step of the run along a list of labels meets `ok`. -/
def EveryStep (ok : σ → ι → Prop) (s : σ) : List ι → Prop
  | [] => True
  | l :: ls => ok s l ∧ ∀ s', M.next s l = some s' → EveryStep ok s' ls

/-- A condition on the labels alone. -/
theorem everyStep_of_forall {ls : List ι} (h : ∀ l ∈ ls, ∀ s, ok s l) (s : σ) :
    M.EveryStep ok s ls := by
  induction ls generalizing s with
  | nil => trivial
  | cons l ls ih =>
    exact ⟨h l List.mem_cons_self s,
      fun s' _ => ih (fun l' hl' => h l' (List.mem_cons_of_mem l hl')) s'⟩

/-- Along one run, a condition on the steps is decided by going through it. -/
instance decidableEveryStep [∀ s l, Decidable (ok s l)] (s : σ) :
    ∀ ls, Decidable (M.EveryStep ok s ls)
  | [] => inferInstanceAs (Decidable True)
  | l :: ls =>
    match h : M.next s l with
    | none =>
      decidable_of_iff (ok s l)
        ⟨fun hok => ⟨hok, fun s' hs' => absurd (h.symm.trans hs') (by simp)⟩, And.left⟩
    | some m =>
      have := decidableEveryStep m ls
      decidable_of_iff (ok s l ∧ M.EveryStep ok m ls)
        ⟨fun hall => ⟨hall.1, fun s' hs' => Option.some.inj (h.symm.trans hs') ▸ hall.2⟩,
          fun hall => ⟨hall.1, hall.2 m h⟩⟩

/-- Where `ok` keeps an invariant `R` that gives `P`, and a step that is not `ok` loses
`P`, it is `ok` that keeps `P` along a run. -/
theorem everyState_iff_everyStep_of {R P : σ → Prop}
    (henabled : ∀ s l, R s → ∃ s', M.next s l = some s') (hP : ∀ s, R s → P s)
    (hkeep : ∀ s l s', R s → ok s l → M.next s l = some s' → R s')
    (hbreak : ∀ s l s', R s → ¬ ok s l → M.next s l = some s' → ¬ P s')
    {s : σ} (hR : R s) (ls : List ι) : M.EveryState P s ls ↔ M.EveryStep ok s ls := by
  induction ls generalizing s with
  | nil => exact ⟨fun _ => trivial, fun _ => hP s hR⟩
  | cons l ls ih =>
    obtain ⟨m, hm⟩ := henabled s l hR
    have hnext : ∀ {Q : σ → Prop}, (∀ s', M.next s l = some s' → Q s') ↔ Q m := by
      intro Q
      refine ⟨fun h => h m hm, fun h s' hs' => ?_⟩
      obtain rfl := Option.some.inj (hm.symm.trans hs')
      exact h
    rw [EveryState, EveryStep, hnext, hnext]
    constructor
    · intro hevery
      obtain ⟨-, hrest⟩ := hevery
      have hPm : P m := by
        cases ls with
        | nil => exact hrest
        | cons _ _ => exact hrest.1
      by_cases hok : ok s l
      · exact ⟨hok, (ih (hkeep s l m hR hok hm)).mp hrest⟩
      · exact absurd hPm (hbreak s l m hR hok hm)
    · intro hevery
      obtain ⟨hok, hrest⟩ := hevery
      exact ⟨hP s hR, (ih (hkeep s l m hR hok hm)).mpr hrest⟩

/-- Where `ok` is what keeps `P` from one state to the next, it is what keeps it
along a run. -/
theorem everyState_iff_everyStep {I P : σ → Prop}
    (henabled : ∀ s l, I s → ∃ s', M.next s l = some s' ∧ I s')
    (hstep : ∀ s l s', I s → P s → M.next s l = some s' → (P s' ↔ ok s l))
    {s : σ} (hI : I s) (hP : P s) (ls : List ι) :
    M.EveryState P s ls ↔ M.EveryStep ok s ls := by
  refine everyState_iff_everyStep_of (R := fun s => I s ∧ P s) ?_ (fun _ h => h.2) ?_ ?_
    ⟨hI, hP⟩ ls
  · intro s l hR
    obtain ⟨s', hs', -⟩ := henabled s l hR.1
    exact ⟨s', hs'⟩
  · intro s l s' hR hok hs'
    obtain ⟨m, hm, hIm⟩ := henabled s l hR.1
    obtain rfl := Option.some.inj (hm.symm.trans hs')
    exact ⟨hIm, (hstep s l m hR.1 hR.2 hm).mpr hok⟩
  · intro s l s' hR hok hs' hP'
    exact hok ((hstep s l s' hR.1 hR.2 hs').mp hP')

/-- Where `ok` is what keeps `P`, and `P` once lost (`D`) is lost for ever, `P`
holds at the end of a run exactly where every step of it met `ok`. -/
theorem last_iff_everyStep {P D : σ → Prop} (hPD : ∀ s, P s → ¬ D s)
    (hkeep : ∀ s l s', P s → ok s l → M.next s l = some s' → P s')
    (hlose : ∀ s l s', P s → ¬ ok s l → M.next s l = some s' → D s')
    (hlost : ∀ s l s', D s → M.next s l = some s' → D s')
    {s s' : σ} {ls : List ι} (hP : P s) (h : M.run s ls = some s') :
    P s' ↔ M.EveryStep ok s ls := by
  induction ls generalizing s with
  | nil =>
    obtain rfl : s = s' := Option.some.inj h
    exact ⟨fun _ => trivial, fun _ => hP⟩
  | cons l ls ih =>
    obtain ⟨m, hm, hrest⟩ := run_cons_eq_some.mp h
    by_cases hok : ok s l
    · rw [ih (hkeep s l m hP hok hm) hrest]
      refine ⟨fun hall => ⟨hok, fun s'' hs'' => ?_⟩, fun hall => hall.2 m hm⟩
      obtain rfl := Option.some.inj (hm.symm.trans hs'')
      exact hall
    · have hD : D s' := run_invariant hlost (hlose s l m hP hok hm) hrest
      exact ⟨fun hP' => absurd hD (hPD s' hP'), fun hall => absurd hall.1 hok⟩

/-- A run whose labels are all allowed reaches its last state. -/
theorem Reach.of_run {allowed : ι → Prop} {s s' : σ} {ls : List ι}
    (hs : M.Reach (fun _ l => allowed l) s) (hls : ∀ l ∈ ls, allowed l)
    (h : M.run s ls = some s') : M.Reach (fun _ l => allowed l) s' :=
  run_invariant_of allowed (fun _ _ _ hl hr hstep => .step hr hl hstep) hls hs h

/-- A run whose every step meets the condition reaches its last state. -/
theorem Reach.of_everyStep {s s' : σ} {ls : List ι} (hs : M.Reach ok s)
    (hls : M.EveryStep ok s ls) (h : M.run s ls = some s') : M.Reach ok s' := by
  induction ls generalizing s with
  | nil =>
    obtain rfl : s = s' := Option.some.inj h
    exact hs
  | cons l ls ih =>
    obtain ⟨m, hm, hrest⟩ := run_cons_eq_some.mp h
    exact ih (.step hs hls.1 hm) (hls.2 m hm) hrest

/-- A run from a reachable state ends in a reachable state. -/
theorem Reach.run {s s' : σ} {ls : List ι} (hs : M.Reachable s)
    (h : M.run s ls = some s') : M.Reachable s' :=
  run_invariant (I := M.Reachable) (fun _ _ _ hr hstep => .step hr trivial hstep) hs h

end System

end CcSnippets.Core

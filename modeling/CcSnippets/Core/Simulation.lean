import CcSnippets.Core.Transition

/-!
# CcSnippets.Core.Simulation

What is observed along a run, and simulations that preserve it.

An observation gives each step of a system the list of its visible events, which is
empty for an internal step. A system is **simulated** by another one, whose labels
are the events, where a relation of their states is kept by every step
(`Simulates`): then what is observed along any run is a run of the other
(`Simulates.run`). In the other direction, a system whose states answer any label of
the other by a run has a run for every run of the other (`exists_run_of_steps`).
-/

namespace CcSnippets.Core

namespace System

variable {σ ι ε α ο : Type*} {M : System σ ι} {N : System α ε} {observe : σ → ι → σ → List ε}

variable (M observe) in
/-- What is observed along a run. -/
def trace (s : σ) : List ι → List ε
  | [] => []
  | l :: ls =>
    match M.next s l with
    | some s' => observe s l s' ++ trace s' ls
    | none => []

theorem trace_cons {s m : σ} {l : ι} (h : M.next s l = some m) (ls : List ι) :
    M.trace observe s (l :: ls) = observe s l m ++ M.trace observe m ls := by
  rw [trace, h]

theorem trace_append {s m : σ} {ls : List ι} (h : M.run s ls = some m) (ls' : List ι) :
    M.trace observe s (ls ++ ls') = M.trace observe s ls ++ M.trace observe m ls' := by
  induction ls generalizing s with
  | nil =>
    obtain rfl : s = m := Option.some.inj h
    rfl
  | cons l ls ih =>
    obtain ⟨s', hs', hrest⟩ := run_cons_eq_some.mp h
    rw [List.cons_append, trace_cons hs', trace_cons hs', ih hrest, List.append_assoc]

/-- Along a run of a restricted system the same is observed. -/
theorem trace_restrict {allowed : ι → Bool} {s s' : σ} {ls : List ι}
    (h : (M.restrict allowed).run s ls = some s') :
    (M.restrict allowed).trace observe s ls = M.trace observe s ls := by
  induction ls generalizing s with
  | nil => rfl
  | cons l ls ih =>
    obtain ⟨m, hm, hrest⟩ := run_cons_eq_some.mp h
    rw [trace_cons hm, trace_cons (restrict_next.mp hm).2, ih hrest]

/-- Every step of `M` is matched by a run of `N` along what is observed of it. -/
def Simulates (M : System σ ι) (N : System α ε) (observe : σ → ι → σ → List ε)
    (R : σ → α → Prop) : Prop :=
  ∀ s a l s', R s a → M.next s l = some s' → ∃ a', N.run a (observe s l s') = some a' ∧ R s' a'

/-- **Simulation rule.** What is observed along a run of `M` is a run of `N`. -/
theorem Simulates.run {R : σ → α → Prop} (h : Simulates M N observe R) {s s' : σ} {a : α}
    {ls : List ι} (hR : R s a) (hrun : M.run s ls = some s') :
    ∃ a', N.run a (M.trace observe s ls) = some a' ∧ R s' a' := by
  induction ls generalizing s a with
  | nil =>
    obtain rfl : s = s' := Option.some.inj hrun
    exact ⟨a, rfl, hR⟩
  | cons l ls ih =>
    obtain ⟨m, hm, hrest⟩ := run_cons_eq_some.mp hrun
    obtain ⟨b, hb, hRb⟩ := h s a l m hR hm
    obtain ⟨a', ha', hR'⟩ := ih hRb hrest
    rw [trace_cons hm]
    exact ⟨a', run_append_eq_some.mpr ⟨b, hb, ha'⟩, hR'⟩

/-- Where any label of `N` is answered by a run of `M` in which it is what is seen, every
run of `N` is. `allowed` restricts the labels that `M` needs for that. -/
theorem exists_run_of_steps {P : System α ο} {R : σ → α → Prop} (allowed : ι → Prop)
    {view : List ε → List ο} (hnil : view [] = [])
    (hview : ∀ t t', view (t ++ t') = view t ++ view t')
    (hstep : ∀ s a o a', R s a → P.next a o = some a' → ∃ ls s', (∀ l ∈ ls, allowed l) ∧
      M.run s ls = some s' ∧ R s' a' ∧ view (M.trace observe s ls) = [o])
    {s : σ} {a a' : α} {os : List ο} (hR : R s a) (hrun : P.run a os = some a') :
    ∃ ls s', (∀ l ∈ ls, allowed l) ∧ M.run s ls = some s' ∧ R s' a' ∧
      view (M.trace observe s ls) = os := by
  induction os generalizing s a with
  | nil =>
    obtain rfl : a = a' := Option.some.inj hrun
    exact ⟨[], s, by simp, rfl, hR, hnil⟩
  | cons o os ih =>
    obtain ⟨b, hb, hrest⟩ := run_cons_eq_some.mp hrun
    obtain ⟨ls, m, hls, hm, hRm, hseen⟩ := hstep s a o b hR hb
    obtain ⟨ls', s', hls', hs', hR', hseen'⟩ := ih hRm hrest
    refine ⟨ls ++ ls', s', List.forall_mem_append.mpr ⟨hls, hls'⟩,
      run_append_eq_some.mpr ⟨m, hm, hs'⟩, hR', ?_⟩
    rw [trace_append hm, hview, hseen, hseen', List.singleton_append]

end System

end CcSnippets.Core

import CcSnippets.Core.Transition

/-!
# CcSnippets.Core.Termination

Systems that **run down**. A variant is a number that no step raises and that every
step worth counting lowers (`Variant`). It bounds how often such steps are made in a
run (`Variant.count_le`); and an execution that keeps making them as long as
something is left to do gets to where nothing is (`Variant.exists_done`).

Where new work can come in, each step is paid for out of what is owed and what its
label brings (`Amortised`), and a run is no longer than what it was paid
(`Amortised.length_le`).
-/

namespace CcSnippets.Core

namespace System

variable {σ ι : Type*} (M : System σ ι)

/-- A run that goes on for ever. -/
structure Execution (s : σ) where
  state : ℕ → σ
  label : ℕ → ι
  start : state 0 = s
  step : ∀ n, M.next (state n) (label n) = some (state (n + 1))

/-- Where `I` holds it is kept, no step raises `μ`, and a step under a label that
`counts` lowers it. -/
structure Variant (I : σ → Prop) (counts : ι → Bool) (μ : σ → ℕ) : Prop where
  keeps : ∀ {s s' : σ} {l : ι}, I s → M.next s l = some s' → I s'
  lowers : ∀ {s s' : σ} {l : ι}, I s → M.next s l = some s' → μ s' + (counts l).toNat ≤ μ s

variable {M} {I : σ → Prop} {counts : ι → Bool} {μ : σ → ℕ}

namespace Variant

/-- The variant bounds how many steps of a run count. -/
theorem count_le (h : M.Variant I counts μ) {s s' : σ} {ls : List ι} (hs : I s)
    (hrun : M.run s ls = some s') : ls.countP counts + μ s' ≤ μ s := by
  induction ls generalizing s with
  | nil =>
    obtain rfl : s = s' := Option.some.inj hrun
    simp
  | cons l ls ih =>
    obtain ⟨m, hm, hrest⟩ := run_cons_eq_some.mp hrun
    have hfirst := h.lowers hs hm
    have hothers := ih (h.keeps hs hm) hrest
    rw [List.countP_cons]
    cases hl : counts l with
    | false =>
      simp only [hl, Bool.toNat_false] at hfirst
      simp only [Bool.false_eq_true, if_false]
      omega
    | true =>
      simp only [hl, Bool.toNat_true] at hfirst
      simp only [if_true]
      omega

/-- Along an execution `I` is kept. -/
theorem holds (h : M.Variant I counts μ) {s : σ} (hs : I s) (e : M.Execution s) (n : ℕ) :
    I (e.state n) := by
  induction n with
  | zero =>
    rw [e.start]
    exact hs
  | succ n ih => exact h.keeps ih (e.step n)

/-- Along an execution the variant is not raised. -/
theorem antitone (h : M.Variant I counts μ) {s : σ} (hs : I s) (e : M.Execution s) {n m : ℕ}
    (hnm : n ≤ m) : μ (e.state m) ≤ μ (e.state n) := by
  induction hnm with
  | refl => exact Nat.le_refl _
  | @step m _ ih =>
    have hstep := h.lowers (h.holds hs e m) (e.step m)
    exact Nat.le_trans (Nat.le_of_add_right_le hstep) ih

/-- **An execution runs down.** If a step that counts is made again and again as long as
something is left to do, then there is nothing left at some moment. -/
theorem exists_done (h : M.Variant I counts μ) (done : σ → Prop) {s : σ} (hs : I s)
    (e : M.Execution s)
    (hfair : ∀ n, ¬ done (e.state n) → ∃ m, n ≤ m ∧ counts (e.label m) = true) :
    ∃ n, done (e.state n) := by
  have hfalls : ∀ n, ¬ done (e.state n) → ∃ m, μ (e.state m) < μ (e.state n) := by
    intro n hn
    obtain ⟨m, hnm, hm⟩ := hfair n hn
    have hlow := h.lowers (h.holds hs e m) (e.step m)
    have hle := h.antitone hs e hnm
    rw [hm, Bool.toNat_true] at hlow
    exact ⟨m + 1, by omega⟩
  -- By induction on a bound of the variant, from any moment on.
  suffices hbound : ∀ b n, μ (e.state n) ≤ b → ∃ m, done (e.state m) from
    hbound _ 0 (Nat.le_refl _)
  intro b
  induction b with
  | zero =>
    intro n hn
    by_cases hdone : done (e.state n)
    · exact ⟨n, hdone⟩
    · obtain ⟨m, hm⟩ := hfalls n hdone
      omega
  | succ b ih =>
    intro n hn
    by_cases hdone : done (e.state n)
    · exact ⟨n, hdone⟩
    · obtain ⟨m, hm⟩ := hfalls n hdone
      exact ih m (by omega)

/-- Where a step that counts can be reached as long as something is left to do, a run
gets to where nothing is. -/
theorem exists_run_done (h : M.Variant I counts μ) {done : σ → Prop}
    (hstep : ∀ s, I s → ¬ done s →
      ∃ ls l s', M.run s (ls ++ [l]) = some s' ∧ counts l = true) {s : σ} (hs : I s) :
    ∃ ls s', M.run s ls = some s' ∧ I s' ∧ done s' := by
  -- By induction on a bound of the variant.
  suffices hbound : ∀ b s, μ s ≤ b → I s → ∃ ls s', M.run s ls = some s' ∧ I s' ∧ done s' from
    hbound (μ s) s (Nat.le_refl _) hs
  intro b
  induction b with
  | zero =>
    intro s hb hs
    by_cases hdone : done s
    · exact ⟨[], s, rfl, hs, hdone⟩
    · obtain ⟨ls, l, s', hrun, hl⟩ := hstep s hs hdone
      have hle := h.count_le hs hrun
      rw [List.countP_append, List.countP_singleton, if_pos hl] at hle
      omega
  | succ b ih =>
    intro s hb hs
    by_cases hdone : done s
    · exact ⟨[], s, rfl, hs, hdone⟩
    · obtain ⟨ls, l, s', hrun, hl⟩ := hstep s hs hdone
      have hle := h.count_le hs hrun
      rw [List.countP_append, List.countP_singleton, if_pos hl] at hle
      have hs' := run_invariant (fun _ _ _ hI hnext => h.keeps hI hnext) hs hrun
      obtain ⟨ls', s'', hrun', hI'', hdone'⟩ := ih s' (by omega) hs'
      exact ⟨ls ++ [l] ++ ls', s'', run_append_eq_some.mpr ⟨s', hrun, hrun'⟩, hI'', hdone'⟩

end Variant

/-! ### Work that comes in -/

variable (M) in
/-- Where `I` holds it is kept, and each step is paid for out of `μ` and the `credit` that
its label brings. -/
structure Amortised (I : σ → Prop) (credit : ι → ℕ) (μ : σ → ℕ) : Prop where
  keeps : ∀ {s s' : σ} {l : ι}, I s → M.next s l = some s' → I s'
  pays : ∀ {s s' : σ} {l : ι}, I s → M.next s l = some s' → μ s' + 1 ≤ μ s + credit l

/-- What the labels of a run bring. -/
def paid (credit : ι → ℕ) : List ι → ℕ
  | [] => 0
  | l :: ls => credit l + paid credit ls

/-- **A run is paid for.** -/
theorem Amortised.length_le {credit : ι → ℕ} (h : M.Amortised I credit μ) {s s' : σ}
    {ls : List ι} (hs : I s) (hrun : M.run s ls = some s') :
    ls.length + μ s' ≤ μ s + paid credit ls := by
  induction ls generalizing s with
  | nil =>
    obtain rfl : s = s' := Option.some.inj hrun
    simp
  | cons l ls ih =>
    obtain ⟨m, hm, hrest⟩ := run_cons_eq_some.mp hrun
    have hfirst := h.pays hs hm
    have hothers := ih (h.keeps hs hm) hrest
    rw [List.length_cons, paid]
    omega

namespace Amortised

variable {credit : ι → ℕ}

/-- The steps of a run that count are paid for, where the others cost what they bring. -/
theorem count_le (h : M.Amortised I credit μ) (counts : ι → Bool) (pay : ι → ℕ)
    (hpay : ∀ l, credit l + (counts l).toNat ≤ 1 + pay l) {s s' : σ} {ls : List ι} (hs : I s)
    (hrun : M.run s ls = some s') : ls.countP counts + μ s' ≤ μ s + paid pay ls := by
  induction ls generalizing s with
  | nil =>
    obtain rfl : s = s' := Option.some.inj hrun
    simp
  | cons l ls ih =>
    obtain ⟨m, hm, hrest⟩ := run_cons_eq_some.mp hrun
    have hfirst := h.pays hs hm
    have hothers := ih (h.keeps hs hm) hrest
    have hl := hpay l
    rw [List.countP_cons, paid]
    cases hcounts : counts l with
    | false =>
      simp only [hcounts, Bool.toNat_false] at hl
      simp only [Bool.false_eq_true, if_false]
      omega
    | true =>
      simp only [hcounts, Bool.toNat_true] at hl
      simp only [if_true]
      omega

/-- Where no work comes in, the system runs down. -/
theorem variant (h : M.Amortised I credit μ) (counts : ι → Bool) :
    (M.restrict fun l => decide (credit l + (counts l).toNat ≤ 1)).Variant I counts μ where
  keeps hs hnext := h.keeps hs (restrict_next.mp hnext).2
  lowers := by
    intro s s' l hs hnext
    obtain ⟨hallowed, hnext⟩ := restrict_next.mp hnext
    have hpays := h.pays hs hnext
    have hle := of_decide_eq_true hallowed
    omega

/-- **An execution into which no more work comes gets done**, if a step that counts is made
again and again as long as it is not. -/
theorem exists_done (h : M.Amortised I credit μ) (counts : ι → Bool) (done : σ → Prop) {s : σ}
    (hs : I s) (e : M.Execution s) {k : ℕ}
    (hquiet : ∀ n, k ≤ n → credit (e.label n) + (counts (e.label n)).toNat ≤ 1)
    (hfair : ∀ n, ¬ done (e.state n) → ∃ m, n ≤ m ∧ counts (e.label m) = true) :
    ∃ n, done (e.state n) := by
  have hkeeps : ∀ n, I (e.state n) := by
    intro n
    induction n with
    | zero =>
      rw [e.start]
      exact hs
    | succ n ih => exact h.keeps ih (e.step n)
  let quiet : (M.restrict fun l => decide (credit l + (counts l).toNat ≤ 1)).Execution
      (e.state k) :=
    { state := fun n => e.state (k + n)
      label := fun n => e.label (k + n)
      start := rfl
      step := fun n => restrict_next.mpr
        ⟨decide_eq_true (hquiet (k + n) (Nat.le_add_right k n)), e.step (k + n)⟩ }
  obtain ⟨n, hn⟩ := (h.variant counts).exists_done done (hkeeps k) quiet fun n hn => by
    obtain ⟨m, hle, hm⟩ := hfair (k + n) hn
    exact ⟨m - k, by omega, by rwa [show quiet.label (m - k) = e.label m from
      congrArg e.label (by omega)]⟩
  exact ⟨k + n, hn⟩

end Amortised

/-- What labels of two kinds bring. -/
theorem paid_eq (c d : ℕ) (p q : ι → Bool) (ls : List ι) :
    paid (fun l => c * (p l).toNat + d * (q l).toNat) ls = c * ls.countP p + d * ls.countP q := by
  induction ls with
  | nil => rfl
  | cons l ls ih =>
    rw [paid, ih, List.countP_cons, List.countP_cons]
    cases p l <;> cases q l <;> simp [Nat.mul_add] <;> omega

end System

end CcSnippets.Core

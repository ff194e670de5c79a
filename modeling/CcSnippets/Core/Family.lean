import Mathlib.Algebra.BigOperators.Group.List.Basic
import Mathlib.Algebra.GroupWithZero.Nat
import CcSnippets.Core.Termination

/-!
# CcSnippets.Core.Family

**Families** of systems: components are added one by one, and each makes its own steps.

What every start and every step of a component keeps, the components of a family keep
(`forall_mem_family_next`). Where the steps of a component are paid for, so are those of the
family, if what adds a component brings what it needs to start (`Amortised.family`).
-/

namespace CcSnippets.Core

namespace System

variable {β σ ι : Type*}

/-- What happens in a family. -/
inductive Growth (β ι : Type*)
  /-- A component is added. -/
  | add (b : β)
  /-- Component number `i` makes a step. -/
  | step (i : ℕ) (l : ι)

/-- The components, each added with what it starts from. -/
def family (M : System σ ι) (start : β → σ) : System (List σ) (Growth β ι) where
  init ss := ss = []
  next ss
    | .add b => some (ss ++ [start b])
    | .step i l =>
      match ss[i]? with
      | some s => (M.next s l).map (ss.set i)
      | none => none

variable {M : System σ ι} {start : β → σ}

/-- A component makes a step. -/
theorem family_next_step {ss ss' : List σ} {i : ℕ} {l : ι}
    (h : (M.family start).next ss (.step i l) = some ss') :
    ∃ before s after s', before.length = i ∧ ss = before ++ s :: after ∧
      M.next s l = some s' ∧ ss' = before ++ s' :: after := by
  simp only [family] at h
  split at h
  · rename_i s hs
    obtain ⟨s', hs', rfl⟩ := Option.map_eq_some_iff.mp h
    obtain ⟨hlt, rfl⟩ := List.getElem?_eq_some_iff.mp hs
    refine ⟨ss.take i, ss[i], ss.drop (i + 1), s', ?_, ?_, hs', List.set_eq_take_append_cons_drop ..
      |>.trans (if_pos hlt)⟩
    · rw [List.length_take, Nat.min_eq_left (Nat.le_of_lt hlt)]
    · rw [List.getElem_cons_drop, List.take_append_drop]
  · cases h

theorem family_next_of_next {s s' : σ} {l : ι} (h : M.next s l = some s')
    (before after : List σ) :
    (M.family start).next (before ++ s :: after) (.step before.length l) =
      some (before ++ s' :: after) := by
  simp [family, h]

/-- What every component satisfies is kept, where every start and every step keeps it. -/
theorem forall_mem_family_next {I : σ → Prop} (hstart : ∀ b, I (start b))
    (hstep : ∀ {s s' : σ} {l : ι}, I s → M.next s l = some s' → I s') {ss ss' : List σ}
    {l : Growth β ι} (hss : ∀ s ∈ ss, I s) (h : (M.family start).next ss l = some ss') :
    ∀ s ∈ ss', I s := by
  cases l with
  | add b =>
    obtain rfl := Option.some.inj h
    exact List.forall_mem_append.mpr ⟨hss, List.forall_mem_singleton.mpr (hstart b)⟩
  | step i l =>
    obtain ⟨before, s, after, s', -, rfl, hs, rfl⟩ := family_next_step h
    obtain ⟨hbefore, hrest⟩ := List.forall_mem_append.mp hss
    obtain ⟨hI, hafter⟩ := List.forall_mem_cons.mp hrest
    exact List.forall_mem_append.mpr ⟨hbefore, List.forall_mem_cons.mpr ⟨hstep hI hs, hafter⟩⟩

/-- What a step brings to a family whose components need `first` to start. -/
def familyCredit (first : ℕ) (credit : ι → ℕ) : Growth β ι → ℕ
  | .add _ => first + 1
  | .step _ l => credit l

/-- **The steps of a family are paid for** where those of the components are. -/
theorem Amortised.family {I : σ → Prop} {credit : ι → ℕ} {μ : σ → ℕ}
    (h : M.Amortised I credit μ) {first : ℕ} (hstart : ∀ b, I (start b) ∧ μ (start b) ≤ first) :
    (M.family start).Amortised (fun ss => ∀ s ∈ ss, I s) (familyCredit first credit)
      (fun ss => (ss.map μ).sum) where
  keeps hss hnext := forall_mem_family_next (fun b => (hstart b).1) h.keeps hss hnext
  pays := by
    intro ss ss' l hss hnext
    cases l with
    | add b =>
      obtain rfl := Option.some.inj hnext
      have hle := (hstart b).2
      rw [List.map_append, List.sum_append, List.map_singleton, List.sum_singleton, familyCredit]
      omega
    | step i l =>
      obtain ⟨before, s, after, s', -, rfl, hs, rfl⟩ := family_next_step hnext
      have hpays := h.pays (hss s (List.mem_append_right _ List.mem_cons_self)) hs
      rw [List.map_append, List.map_append, List.sum_append, List.sum_append, List.map_cons,
        List.map_cons, List.sum_cons, List.sum_cons, familyCredit]
      omega

end System

end CcSnippets.Core

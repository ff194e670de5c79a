import Mathlib.Logic.Equiv.Basic
import Mathlib.Data.List.Nodup

/-!
# CcSnippets.Core.Ownership

**Exclusive ownership** of objects by places.

`own` says which object each place owns. An object that was handed in is owned
by one place, or was given back, or was destroyed: exactly one of these, and
each once. Moving an object to an empty place and exchanging what two places own
both permute the places, so they need no argument of their own (`comp`).
-/

namespace CcSnippets.Core

variable {Loc Obj : Type*}

/-- The one-owner partition. -/
structure Exclusive (own : Loc → Option Obj) (handed : Obj → Prop) (released destroyed : List Obj) :
    Prop where
  unique : ∀ l m o, own l = some o → own m = some o → l = m
  /-- What is owned has been neither given back nor destroyed. -/
  kept : ∀ l o, own l = some o → o ∉ released ∧ o ∉ destroyed
  once : (released ++ destroyed).Nodup
  handed : ∀ o, handed o ↔ (∃ l, own l = some o) ∨ o ∈ released ∨ o ∈ destroyed

/-- What has become of one object. -/
structure OneFate (own : Loc → Option Obj) (handed : Obj → Prop) (released destroyed : List Obj)
    (o : Obj) : Prop where
  /-- Once handed in, it is in one of three states, -/
  some_fate : handed o ↔ (∃ l, own l = some o) ∨ o ∈ released ∨ o ∈ destroyed
  /-- and in no two of them, -/
  owned : (∃ l, own l = some o) → o ∉ released ∧ o ∉ destroyed
  givenBack : o ∈ released → o ∉ destroyed
  /-- and in each only once. -/
  owner : ∀ l m, own l = some o → own m = some o → l = m
  once : released.Nodup ∧ destroyed.Nodup

namespace Exclusive

variable {own : Loc → Option Obj} {handed : Obj → Prop} {released destroyed : List Obj}

theorem oneFate (h : Exclusive own handed released destroyed) (o : Obj) :
    OneFate own handed released destroyed o where
  some_fate := h.handed o
  owned hown := by
    obtain ⟨l, hl⟩ := hown
    exact h.kept l o hl
  givenBack hrel hdes := List.disjoint_of_nodup_append h.once hrel hdes
  owner l m := h.unique l m o
  once := ⟨h.once.of_append_left, h.once.of_append_right⟩

/-- Nothing owned yet. -/
theorem empty : Exclusive (fun _ : Loc => (none : Option Obj)) (fun _ => False) [] [] where
  unique l m o hl := by cases hl
  kept l o hl := by cases hl
  once := List.nodup_nil
  handed o := by simp

/-- **The places are permuted.** -/
theorem comp (h : Exclusive own handed released destroyed) (σ : Equiv.Perm Loc) :
    Exclusive (own ∘ σ) handed released destroyed where
  unique l m o hl hm := σ.injective (h.unique _ _ o hl hm)
  kept l o hl := h.kept _ o hl
  once := h.once
  handed o := by
    rw [h.handed o]
    refine or_congr_left ⟨?_, ?_⟩
    · intro hown
      obtain ⟨l, hl⟩ := hown
      exact ⟨σ.symm l, by rw [Function.comp_apply, Equiv.apply_symm_apply]; exact hl⟩
    · intro hown
      obtain ⟨l, hl⟩ := hown
      exact ⟨σ l, hl⟩

variable [DecidableEq Loc]

/-- An exchange of two places, as a permutation. -/
theorem update_update_eq_comp_swap (own : Loc → Option Obj) (a b : Loc) :
    Function.update (Function.update own a (own b)) b (own a) = own ∘ Equiv.swap a b := by
  funext l
  rw [Function.comp_apply, Equiv.swap_apply_def]
  by_cases hb : l = b
  · subst hb
    rw [Function.update_self]
    by_cases ha : l = a
    · rw [if_pos ha, ha]
    · rw [if_neg ha, if_pos rfl]
  · rw [Function.update_of_ne hb]
    by_cases ha : l = a
    · rw [if_pos ha, ha, Function.update_self]
    · rw [if_neg ha, if_neg hb, Function.update_of_ne ha]

/-- Two places exchange what they own. -/
theorem swap (h : Exclusive own handed released destroyed) (a b : Loc) :
    Exclusive (Function.update (Function.update own a (own b)) b (own a)) handed released
      destroyed := by
  rw [update_update_eq_comp_swap]
  exact h.comp _

/-- An object is handed in to a place that owns nothing. -/
theorem enter (h : Exclusive own handed released destroyed) {l : Loc} {o : Obj}
    (hl : own l = none) (ho : ¬ handed o) :
    Exclusive (Function.update own l (some o)) (fun p => p = o ∨ handed p) released destroyed := by
  have hnot := (h.handed o).not.mp ho
  have hown : ∀ m p, Function.update own l (some o) m = some p ↔
      m = l ∧ p = o ∨ m ≠ l ∧ own m = some p := by
    intro m p
    by_cases hm : m = l
    · subst hm
      simp [eq_comm]
    · simp [hm]
  refine ⟨fun a b p ha hb => ?_, fun a p ha => ?_, h.once, fun p => ?_⟩
  · rcases (hown a p).mp ha with ⟨rfl, rfl⟩ | ⟨-, ha'⟩
    · rcases (hown b p).mp hb with ⟨rfl, -⟩ | ⟨-, hb⟩
      · rfl
      · exact absurd (.inl ⟨b, hb⟩) hnot
    · rcases (hown b p).mp hb with ⟨rfl, rfl⟩ | ⟨-, hb'⟩
      · exact absurd (.inl ⟨a, ha'⟩) hnot
      · exact h.unique a b p ha' hb'
  · rcases (hown a p).mp ha with ⟨rfl, rfl⟩ | ⟨-, ha⟩
    · exact ⟨fun hr => hnot (.inr (.inl hr)), fun hd => hnot (.inr (.inr hd))⟩
    · exact h.kept a p ha
  · rw [h.handed p]
    constructor
    · intro hcase
      rcases hcase with rfl | ⟨m, hm⟩ | hgone
      · exact .inl ⟨l, Function.update_self _ _ _⟩
      · refine .inl ⟨m, (hown m p).mpr (.inr ⟨?_, hm⟩)⟩
        intro heq
        subst heq
        rw [hl] at hm
        cases hm
      · exact .inr hgone
    · intro hcase
      rcases hcase with ⟨m, hm⟩ | hgone
      · rcases (hown m p).mp hm with ⟨-, rfl⟩ | ⟨-, hm⟩
        · exact .inl rfl
        · exact .inr (.inl ⟨m, hm⟩)
      · exact .inr (.inr hgone)

/-- A place that owns nothing may come and go. -/
theorem clear (h : Exclusive own handed released destroyed) {l : Loc} (hl : own l = none) :
    Exclusive (Function.update own l none) handed released destroyed := by
  rw [← hl, Function.update_eq_self]
  exact h

/-- Who owns what, once a place has let go of its object. -/
theorem own_let_go (h : Exclusive own handed released destroyed) {l : Loc} {o : Obj}
    (hl : own l = some o) (m : Loc) (p : Obj) :
    Function.update own l none m = some p ↔ own m = some p ∧ p ≠ o := by
  by_cases hm : m = l
  · subst hm
    rw [Function.update_self, hl]
    simp [eq_comm]
  · rw [Function.update_of_ne hm]
    refine ⟨fun hp => ⟨hp, ?_⟩, fun hp => hp.1⟩
    intro heq
    subst heq
    exact hm (h.unique m l p hp hl)

/-- A place lets go of its object, which is then among what is given back or destroyed. -/
theorem let_go (h : Exclusive own handed released destroyed) {l : Loc} {o : Obj}
    (hl : own l = some o) {released' destroyed' : List Obj}
    (hgone : ∀ p, p ∈ released' ∨ p ∈ destroyed' ↔ p = o ∨ p ∈ released ∨ p ∈ destroyed)
    (honce : (released' ++ destroyed').Nodup) :
    Exclusive (Function.update own l none) handed released' destroyed' := by
  have hown := h.own_let_go hl
  refine ⟨fun a b p ha hb => ?_, fun a p ha => ?_, honce, fun p => ?_⟩
  · exact h.unique a b p ((hown a p).mp ha).1 ((hown b p).mp hb).1
  · obtain ⟨ha, hne⟩ := (hown a p).mp ha
    have hkept := h.kept a p ha
    rw [← not_or, hgone p, not_or, not_or]
    exact ⟨hne, hkept⟩
  · rw [h.handed p, hgone p]
    by_cases hp : p = o
    · subst hp
      simp only [true_or, or_true, iff_true]
      exact .inl ⟨l, hl⟩
    · simp [hown, hp]

/-- A place gives its object back. -/
theorem release (h : Exclusive own handed released destroyed) {l : Loc} {o : Obj}
    (hl : own l = some o) :
    Exclusive (Function.update own l none) handed (released ++ [o]) destroyed := by
  obtain ⟨hrel, hdes⟩ := h.kept l o hl
  refine h.let_go hl (fun p => ?_) ?_
  · rw [List.mem_append, List.mem_singleton, or_right_comm, or_comm]
  · have hmid : (released ++ o :: destroyed).Nodup :=
      List.nodup_middle.mpr (List.nodup_cons.mpr ⟨by simp [hrel, hdes], h.once⟩)
    rwa [List.append_assoc, List.singleton_append]

/-- A place destroys its object. -/
theorem destroy (h : Exclusive own handed released destroyed) {l : Loc} {o : Obj}
    (hl : own l = some o) :
    Exclusive (Function.update own l none) handed released (destroyed ++ [o]) := by
  obtain ⟨hrel, hdes⟩ := h.kept l o hl
  refine h.let_go hl (fun p => ?_) ?_
  · rw [List.mem_append, List.mem_singleton, ← or_assoc, or_comm]
  · rw [← List.append_assoc]
    exact List.nodup_append_comm.mp (List.nodup_cons.mpr ⟨by simp [hrel, hdes], h.once⟩)

end Exclusive

end CcSnippets.Core

import Mathlib.Data.List.Basic
import Mathlib.Data.Nat.ModEq

/-!
# CcSnippets.Core.Cyclic

Lists held in consecutive slots of a cyclic array.

`HoldsFrom slots i xs` says that the slots from `i` on, around the end, hold `xs`.
What the other slots hold does not matter, so a list that leaves **one slot
free** can be extended there, and a write to that slot changes nothing of it.
-/

namespace CcSnippets.Core.Cyclic

variable {α : Type*} {slots xs : List α} {i : ℕ} {x : α}

/-- The slots from `i` on, around the end of the array, hold `xs`. -/
def HoldsFrom (slots : List α) (i : ℕ) (xs : List α) : Prop :=
  ∀ k x, xs[k]? = some x → slots[(i + k) % slots.length]? = some x

theorem HoldsFrom.nil (slots : List α) (i : ℕ) : HoldsFrom slots i [] := by
  intro k x hk
  cases hk

/-- Two slots less than the array apart are different. -/
theorem slot_ne {m k n : ℕ} (i : ℕ) (hk : k < n) (hn : n < m) : (i + n) % m ≠ (i + k) % m := by
  intro h
  have hnk : n ≡ k [MOD m] := Nat.ModEq.add_left_cancel' i h
  have heq := hnk.eq_of_lt_of_lt hn (hk.trans hn)
  omega

/-- **A write behind the list changes nothing of it.** -/
theorem HoldsFrom.set (h : HoldsFrom slots i xs) (hfree : xs.length < slots.length) (y : α) :
    HoldsFrom (slots.set ((i + xs.length) % slots.length) y) i xs := by
  intro k x hk
  have hlt : k < xs.length := (List.getElem?_eq_some_iff.mp hk).1
  rw [List.length_set, List.getElem?_set_ne (slot_ne i hlt hfree)]
  exact h k x hk

/-- **A write behind the list extends it.** -/
theorem HoldsFrom.concat (h : HoldsFrom slots i xs) (hfree : xs.length < slots.length) (x : α) :
    HoldsFrom (slots.set ((i + xs.length) % slots.length) x) i (xs ++ [x]) := by
  intro k y hk
  rcases Nat.lt_trichotomy k xs.length with hlt | rfl | hgt
  · rw [List.getElem?_append_left hlt] at hk
    exact h.set hfree x k y hk
  · rw [List.getElem?_concat_length] at hk
    obtain rfl := Option.some.inj hk
    rw [List.length_set, List.getElem?_set_self (Nat.mod_lt _ (by omega))]
  · rw [List.getElem?_eq_none (by rw [List.length_append, List.length_singleton]; exact hgt)] at hk
    cases hk

/-- The list starts where it says. -/
theorem HoldsFrom.head (h : HoldsFrom slots i (x :: xs)) (hi : i < slots.length) :
    slots[i]? = some x := by
  have hfirst := h 0 x rfl
  rwa [Nat.add_zero, Nat.mod_eq_of_lt hi] at hfirst

/-- Without its first element it starts one slot further. -/
theorem HoldsFrom.tail (h : HoldsFrom slots i (x :: xs)) :
    HoldsFrom slots ((i + 1) % slots.length) xs := by
  intro k y hk
  rw [Nat.mod_add_mod, Nat.add_assoc, Nat.add_comm 1 k]
  exact h (k + 1) y hk

end CcSnippets.Core.Cyclic

import Mathlib.Algebra.BigOperators.Group.Finset.Basic
import Mathlib.Algebra.BigOperators.Group.Finset.Piecewise
import Mathlib.Algebra.Order.BigOperators.Group.Finset
import Mathlib.Data.Fintype.Basic

/-!
# CcSnippets.Core.Tally

Counting over a finite set of threads. `tally w f` adds up a weight over the
local states `f` of all threads; with a `0`/`1` weight it counts the threads in
some phase. An interleaving step changes the local state of one thread, so the
one fact every counting invariant needs is `tally_update`: the sum moves by the
weights of the one local state that was replaced. A machine counter that holds such
a sum need not be wide enough for it (`ofNat_tally_update`).
-/

namespace CcSnippets.Core

variable {τ α : Type*} [Fintype τ]

/-- The sum of `w` over the local states of all threads. -/
def tally (w : α → ℕ) (f : τ → α) : ℕ := ∑ t, w (f t)

/-- The sum is zero exactly where every thread weighs nothing. -/
theorem tally_eq_zero {w : α → ℕ} {f : τ → α} : tally w f = 0 ↔ ∀ t, w (f t) = 0 := by
  simp [tally]

/-- Each thread's weight is part of the sum. -/
theorem le_tally (w : α → ℕ) (f : τ → α) (t : τ) : w (f t) ≤ tally w f :=
  Finset.single_le_sum (f := fun t => w (f t)) (fun _ _ => Nat.zero_le _) (Finset.mem_univ t)

/-- A positive sum has a thread that contributes. -/
theorem exists_of_tally_pos {w : α → ℕ} {f : τ → α} (h : 0 < tally w f) :
    ∃ t, 0 < w (f t) := by
  by_contra hno
  have hzero : tally w f = 0 := tally_eq_zero.mpr fun t => by
    have := not_exists.mp hno t
    omega
  omega

theorem tally_mono {w : α → ℕ} {f g : τ → α} (h : ∀ t, w (f t) ≤ w (g t)) :
    tally w f ≤ tally w g :=
  Finset.sum_le_sum fun t _ => h t

theorem tally_congr {w v : α → ℕ} {f g : τ → α} (h : ∀ t, w (f t) = v (g t)) :
    tally w f = tally v g :=
  Finset.sum_congr rfl fun t _ => h t

theorem tally_add (w v : α → ℕ) (f : τ → α) :
    tally (fun a => w a + v a) f = tally w f + tally v f :=
  Finset.sum_add_distrib

/-- With weights up to 1 the sum is at most the number of threads, -/
theorem tally_le_card {w : α → ℕ} (hw : ∀ a, w a ≤ 1) (f : τ → α) :
    tally w f ≤ Fintype.card τ :=
  (Finset.sum_le_card_nsmul _ _ 1 fun t _ => hw (f t)).trans_eq (Nat.mul_one _)

/-- and reaches it exactly where every thread weighs 1. -/
theorem tally_eq_card {w : α → ℕ} (hw : ∀ a, w a ≤ 1) {f : τ → α} :
    tally w f = Fintype.card τ ↔ ∀ t, w (f t) = 1 := by
  have hones : Fintype.card τ = ∑ _t : τ, 1 := by simp
  rw [tally, hones, Finset.sum_eq_sum_iff_of_le fun t _ => hw (f t)]
  simp

/-- A `0`/`1` weight counts. -/
theorem tally_ite (p : α → Prop) [DecidablePred p] (f : τ → α) :
    tally (fun a => if p a then 1 else 0) f = (Finset.univ.filter fun t => p (f t)).card :=
  (Finset.card_filter _ _).symm

variable [DecidableEq τ]

/-- **One thread moves**: the sum loses the old weight and gains the new one. -/
theorem tally_update (w : α → ℕ) (f : τ → α) (t : τ) (a : α) :
    tally w (Function.update f t a) + w (f t) = tally w f + w a := by
  have hsplit : ∀ g : τ → α, tally w g = w (g t) + ∑ u ∈ Finset.univ.erase t, w (g u) :=
    fun g => (Finset.add_sum_erase _ (fun u => w (g u)) (Finset.mem_univ t)).symm
  have hrest : ∑ u ∈ Finset.univ.erase t, w (Function.update f t a u)
      = ∑ u ∈ Finset.univ.erase t, w (f u) :=
    Finset.sum_congr rfl fun u hu => by
      rw [Function.update_of_ne (Finset.ne_of_mem_erase hu)]
  rw [hsplit (Function.update f t a), hsplit f, hrest, Function.update_self]
  omega

/-- A counter of a fixed width that holds the sum still holds it if it is moved by
what the one weight has been moved by. -/
theorem ofNat_tally_update {n : ℕ} {w : α → ℕ} {f : τ → α} {t : τ} {a : α} {k d : BitVec n}
    (hk : k = BitVec.ofNat n (tally w f))
    (hd : BitVec.ofNat n (w a) = BitVec.ofNat n (w (f t)) + d) :
    k + d = BitVec.ofNat n (tally w (Function.update f t a)) := by
  have hmove := congrArg (BitVec.ofNat n) (tally_update w f t a)
  rw [BitVec.ofNat_add, BitVec.ofNat_add, hd, ← hk] at hmove
  have hcancel : BitVec.ofNat n (tally w (Function.update f t a)) + BitVec.ofNat n (w (f t)) =
      k + d + BitVec.ofNat n (w (f t)) := by
    rw [hmove, BitVec.add_assoc, BitVec.add_comm d]
  exact (BitVec.add_left_inj _).mp hcancel.symm

end CcSnippets.Core

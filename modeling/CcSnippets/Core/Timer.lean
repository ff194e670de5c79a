import Mathlib.Algebra.Order.Monoid.Defs
import Mathlib.Data.List.Basic

/-!
# CcSnippets.Core.Timer

Waitable timers, and the **watch** that is kept over some activity with one.

A timer has one expiry. A wait on it completes without an error at or after the
expiry, or is aborted: `cancel` and a new expiry abort the waits that are pending,
and leave alone those that have completed.

A watch has a deadline, which every start of the activity moves to at least a
timeout later. While it is kept there is one wait, pending or completed, and the
expiry of a pending one is never after the deadline (`Watch.Sound`): a wait that
comes too early is made again, and the watch ends at the deadline only.
-/

namespace CcSnippets.Core

/-- The readings of a monotone clock. -/
structure Clock (τ : Type*) [LE τ] where
  read : ℕ → τ
  mono : ∀ {i j}, i ≤ j → read i ≤ read j

/-- A timer with its pending waits. -/
structure Timer (τ : Type*) where
  expiry : τ
  waits : ℕ
  deriving DecidableEq, Repr

namespace Timer

variable {τ : Type*} (t : Timer τ)

/-- The pending waits are aborted; their number is returned. -/
def cancel : Timer τ × ℕ := ({ t with waits := 0 }, t.waits)

/-- A new expiry, which aborts the pending waits; their number is returned. -/
def expiresAt (expiry : τ) : Timer τ × ℕ := (⟨expiry, 0⟩, t.waits)

def asyncWait : Timer τ := { t with waits := t.waits + 1 }

/-- A pending wait completes without an error. -/
def complete [LE τ] [DecidableLE τ] (now : τ) : Option (Timer τ) :=
  if t.expiry ≤ now ∧ 0 < t.waits then some { t with waits := t.waits - 1 } else none

theorem complete_eq_some [LE τ] [DecidableLE τ] {t t' : Timer τ} {now : τ} :
    t.complete now = some t' ↔
      t.expiry ≤ now ∧ t'.expiry = t.expiry ∧ t.waits = t'.waits + 1 := by
  obtain ⟨expiry, waits⟩ := t
  obtain ⟨expiry', waits'⟩ := t'
  unfold complete
  constructor
  · intro h
    split at h
    · rename_i hdue
      obtain ⟨rfl, rfl⟩ := Timer.mk.inj (Option.some.inj h)
      exact ⟨hdue.1, rfl, (Nat.sub_add_cancel hdue.2).symm⟩
    · cases h
  · intro h
    obtain ⟨hdue, rfl, rfl⟩ := h
    rw [if_pos ⟨hdue, Nat.succ_pos _⟩, Nat.add_sub_cancel]

end Timer

theorem eq_of_getElem?_singleton {α : Type*} {x y : α} {i : ℕ} (h : [x][i]? = some y) :
    i = 0 ∧ x = y := by
  cases i with
  | zero => exact ⟨rfl, Option.some.inj h⟩
  | succ i => cases h

/-- An element of a list, and the list without it. -/
theorem exists_eraseIdx {α : Type*} {xs : List α} {i : ℕ} {x : α} (h : xs[i]? = some x) :
    ∃ before after, xs = before ++ x :: after ∧ xs.eraseIdx i = before ++ after := by
  obtain ⟨hlt, rfl⟩ := List.getElem?_eq_some_iff.mp h
  refine ⟨xs.take i, xs.drop (i + 1), ?_, List.eraseIdx_eq_take_drop_succ xs i⟩
  rw [List.getElem_cons_drop, List.take_append_drop]

/-- The same of those elements that meet `p`, where this one does, -/
theorem exists_filter_eraseIdx {α : Type*} {p : α → Bool} {xs : List α} {i : ℕ} {x : α}
    (h : xs[i]? = some x) (hp : p x = true) :
    ∃ before after, xs.filter p = before ++ x :: after ∧
      (xs.eraseIdx i).filter p = before ++ after := by
  obtain ⟨before, after, hxs, herase⟩ := exists_eraseIdx h
  refine ⟨before.filter p, after.filter p, ?_, by rw [herase, List.filter_append]⟩
  rw [hxs, List.filter_append, List.filter_cons_of_pos hp]

/-- and where it does not. -/
theorem filter_eraseIdx {α : Type*} {p : α → Bool} {xs : List α} {i : ℕ} {x : α}
    (h : xs[i]? = some x) (hp : p x = false) : (xs.eraseIdx i).filter p = xs.filter p := by
  obtain ⟨before, after, hxs, herase⟩ := exists_eraseIdx h
  have hneg : ¬ p x = true := by simp [hp]
  rw [herase, hxs, List.filter_append, List.filter_append, List.filter_cons_of_neg hneg]

/-- A watch over some activity. -/
structure Watch (τ : Type*) where
  now : τ
  deadline : τ
  timer : Timer τ
  /-- The waits completed and not handled: whether each completed without an error. -/
  woken : List Bool
  /-- When the activity was started. -/
  starts : List τ
  /-- The watch is over. -/
  ended : Bool

namespace Watch

variable {τ : Type*} [AddCommMonoid τ] [LinearOrder τ] {timeout : τ} {n : ℕ} {w : Watch τ}

/-- The watch is kept by `n` waits. -/
structure Sound (timeout : τ) (n : ℕ) (w : Watch τ) : Prop where
  past : ∀ u ∈ w.starts, u ≤ w.now
  covered : ∀ u ∈ w.starts, u + timeout ≤ w.deadline
  ahead : w.starts ≠ [] → w.deadline ≤ w.now + timeout
  started : w.ended = false → 0 < n → w.starts ≠ []
  count : w.ended = false → w.timer.waits + w.woken.length = n
  fine : w.ended = false → ∀ b ∈ w.woken, b = true
  early : w.ended = false → 0 < w.timer.waits → w.timer.expiry ≤ w.deadline

namespace Sound

/-- Before anything is started or waited for. -/
theorem fresh (hstarts : w.starts = []) (hwoken : w.woken = []) (hwaits : w.timer.waits = 0) :
    w.Sound timeout 0 where
  past u hu := by
    rw [hstarts] at hu
    cases hu
  covered u hu := by
    rw [hstarts] at hu
    cases hu
  ahead hne := absurd hstarts hne
  started _ hn := absurd hn (Nat.lt_irrefl 0)
  count _ := by rw [hwaits, hwoken, List.length_nil]
  fine _ b hb := by
    rw [hwoken] at hb
    cases hb
  early _ hpos := absurd hwaits (Nat.ne_of_gt hpos)

/-- Where the deadline has passed, every start is at least the timeout ago. -/
theorem patient (h : w.Sound timeout n) {t : τ} (ht : w.deadline ≤ t) {u : τ}
    (hu : u ∈ w.starts) : u + timeout ≤ t := (h.covered u hu).trans ht

/-- What is over needs no waits. -/
theorem of_ended (h : w.Sound timeout n) (hended : w.ended = true) (m : ℕ) :
    w.Sound timeout m :=
  { h with
    started := fun hnot => by rw [hended] at hnot; cases hnot
    count := fun hnot => by rw [hended] at hnot; cases hnot }

/-- The watch is ended, whatever becomes of its waits. -/
theorem finish (h : w.Sound timeout n) (timer : Timer τ) (woken : List Bool) (m : ℕ) :
    { w with timer := timer, woken := woken, ended := true }.Sound timeout m where
  past := h.past
  covered := h.covered
  ahead := h.ahead
  started hnot := by cases hnot
  count hnot := by cases hnot
  fine hnot := by cases hnot
  early hnot := by cases hnot

/-- A pending wait completes. -/
theorem wake (h : w.Sound timeout n) {timer : Timer τ}
    (htimer : w.timer.complete w.now = some timer) :
    { w with timer := timer, woken := w.woken ++ [true] }.Sound timeout n := by
  obtain ⟨-, hexpiry, hwaits⟩ := Timer.complete_eq_some.mp htimer
  refine { h with count := fun hon => ?_, fine := fun hon b hb => ?_, early := fun hon _ => ?_ }
  · show timer.waits + (w.woken ++ [true]).length = n
    rw [List.length_append, List.length_singleton, ← h.count hon, hwaits]
    omega
  · rcases List.mem_append.mp hb with hold | hnew
    · exact h.fine hon b hold
    · exact List.mem_singleton.mp hnew
  · show timer.expiry ≤ w.deadline
    rw [hexpiry]
    exact h.early hon (by omega)

/-- A completed wait is taken out of the queue. -/
theorem take {before after : List Bool} {b : Bool} (h : w.Sound timeout (n + 1))
    (hwoken : w.woken = before ++ b :: after) :
    { w with woken := before ++ after }.Sound timeout n := by
  refine { h with started := fun hon hn => ?_, count := fun hon => ?_, fine := fun hon c hc => ?_ }
  · exact h.started hon (Nat.succ_pos n)
  · have hcount := h.count hon
    rw [hwoken, List.length_append, List.length_cons] at hcount
    show w.timer.waits + (before ++ after).length = n
    rw [List.length_append]
    omega
  · refine h.fine hon c ?_
    rw [hwoken]
    rcases List.mem_append.mp hc with hbefore | hafter
    · exact List.mem_append_left _ hbefore
    · exact List.mem_append_right _ (List.mem_cons_of_mem _ hafter)

/-- A wait that was aborted: the watch was over. -/
theorem ended_of_aborted (h : w.Sound timeout n) (hmem : false ∈ w.woken) : w.ended = true := by
  cases hended : w.ended with
  | true => rfl
  | false => exact absurd (h.fine hended false hmem) (by simp)

/-- Without a wait, one is made at the deadline. -/
theorem arm (h : w.Sound timeout 0) (hstarts : w.ended = false → w.starts ≠ []) :
    { w with
      timer := (w.timer.expiresAt w.deadline).1.asyncWait
      woken := w.woken ++ List.replicate w.timer.waits false }.Sound timeout 1 := by
  refine { h with
    started := fun hon _ => hstarts hon, count := fun hon => ?_, fine := fun hon b hb => ?_
    early := fun _ _ => le_refl w.deadline }
  · have hcount := h.count hon
    show 1 + (w.woken ++ List.replicate w.timer.waits false).length = 1
    rw [List.length_append, List.length_replicate]
    omega
  · have hzero : w.timer.waits = 0 := by
      have hcount := h.count hon
      omega
    rcases List.mem_append.mp hb with hold | hnew
    · exact h.fine hon b hold
    · rw [hzero] at hnew
      cases hnew

variable [IsOrderedAddMonoid τ]

/-- Time passes. -/
theorem later (h : w.Sound timeout n) {t : τ} (ht : w.now ≤ t) :
    { w with now := t }.Sound timeout n :=
  { h with
    past := fun u hu => (h.past u hu).trans ht
    ahead := fun hstarts => (h.ahead hstarts).trans (add_le_add_left ht timeout) }

/-- The activity is started at `u`, and the deadline moved at `t`. -/
theorem start (h : w.Sound timeout n) {u t now : τ} (hu : w.now ≤ u) (ht : u ≤ t)
    (hnow : t ≤ now) :
    { w with now := now, deadline := t + timeout, starts := w.starts ++ [u] }.Sound timeout n := by
  have hstarts : w.starts ++ [u] ≠ [] := List.append_ne_nil_of_right_ne_nil _ (List.cons_ne_nil _ _)
  -- no start is after `t`
  have hle : ∀ v ∈ w.starts ++ [u], v ≤ t := by
    intro v hv
    rcases List.mem_append.mp hv with hold | hnew
    · exact (h.past v hold).trans (hu.trans ht)
    · exact (List.mem_singleton.mp hnew).trans_le ht
  refine { h with
    past := fun v hv => (hle v hv).trans hnow
    covered := fun v hv => add_le_add_left (hle v hv) timeout
    ahead := fun _ => add_le_add_left hnow timeout
    started := fun _ _ => hstarts, early := fun hon hwaits => ?_ }
  have hn : 0 < n := (Nat.lt_add_right _ hwaits).trans_eq (h.count hon)
  calc w.timer.expiry ≤ w.deadline := h.early hon hwaits
    _ ≤ w.now + timeout := h.ahead (h.started hon hn)
    _ ≤ t + timeout := add_le_add_left (hu.trans ht) timeout

end Sound

end Watch

end CcSnippets.Core

import Mathlib.Algebra.BigOperators.Group.List.Basic
import Mathlib.Algebra.GroupWithZero.Nat
import CcSnippets.Asio.Basic

/-!
# CcSnippets.Asio.Waits

How many steps the **waits of a watchdog** are good for.

With one wait at most, pending or completed, `Watchdog.left` bounds them while the
deadline stays: the wait completes and its handler runs, once more where the deadline has
moved behind the expiry. Where each operation has a timeout of its own there may be any
number of waits, but none is made again. `Watchdog.leftIn` bounds the steps in either loop
of an echo session.
-/

namespace CcSnippets.Asio

open CcSnippets.Core

theorem sum_eraseIdx {α : Type*} (f : α → ℕ) {xs : List α} {i : ℕ} {x : α} (h : xs[i]? = some x) :
    ((xs.eraseIdx i).map f).sum + f x = (xs.map f).sum := by
  obtain ⟨before, after, hxs, herase⟩ := exists_eraseIdx h
  rw [herase, hxs]
  simp
  omega

/-- What is taken out of a list may be something to `f`, -/
theorem exists_filterMap_eraseIdx {α β : Type*} {f : α → Option β} {xs : List α} {i : ℕ} {x : α}
    {y : β} (h : xs[i]? = some x) (hx : f x = some y) :
    ∃ before after, xs.filterMap f = before ++ y :: after ∧
      (xs.eraseIdx i).filterMap f = before ++ after := by
  obtain ⟨before, after, hxs, herase⟩ := exists_eraseIdx h
  refine ⟨before.filterMap f, after.filterMap f, ?_, by rw [herase, List.filterMap_append]⟩
  rw [hxs, List.filterMap_append, List.filterMap_cons_some hx]

/-- or nothing. -/
theorem filterMap_eraseIdx {α β : Type*} {f : α → Option β} {xs : List α} {i : ℕ} {x : α}
    (h : xs[i]? = some x) (hx : f x = none) : (xs.eraseIdx i).filterMap f = xs.filterMap f := by
  obtain ⟨before, after, hxs, herase⟩ := exists_eraseIdx h
  rw [herase, hxs, List.filterMap_append, List.filterMap_append, List.filterMap_cons_none hx]

/-! ### One wait at most -/

namespace Watchdog

/-- How many steps a completed wait is good for. Where it completed without an error its
handler is the end of the watchdog if the deadline has passed, and else waits again. -/
def waitLeft (due : Bool) : Option Error → ℕ
  | some _ => 1
  | none => if due then 1 else 3

theorem waitLeft_pos (due : Bool) (e : Option Error) : 1 ≤ waitLeft due e := by
  cases e <;> cases due <;> simp [waitLeft]

/-- How many steps the waits of a watchdog are good for, the pending ones and the
completed ones, as long as the deadline is not moved. -/
def left (w : Watchdog) (now : ℤ) (waits : List (Option Error)) : ℕ :=
  w.timer.waits * (if w.deadline ≤ w.timer.expiry then 2 else 4) +
    (waits.map (waitLeft (decide (w.deadline ≤ now)))).sum

variable {w : Watchdog} {now : ℤ} {waits : List (Option Error)}

/-- With at most one wait there is none, or it is pending, or it has completed. -/
theorem wait_cases (h : w.timer.waits + waits.length ≤ 1) :
    (w.timer.waits = 0 ∧ waits = []) ∨ (w.timer.waits = 1 ∧ waits = []) ∨
      ∃ e, w.timer.waits = 0 ∧ waits = [e] := by
  cases waits with
  | nil =>
    rw [List.length_nil] at h
    rcases Nat.le_one_iff_eq_zero_or_eq_one.mp h with hzero | hone
    · exact .inl ⟨hzero, rfl⟩
    · exact .inr (.inl ⟨hone, rfl⟩)
  | cons e rest =>
    rw [List.length_cons] at h
    obtain rfl : rest = [] := List.eq_nil_of_length_eq_zero (by omega)
    exact .inr (.inr ⟨e, by omega, rfl⟩)

theorem left_nil (hw : w.timer.waits = 0) : w.left now [] = 0 := by
  simp [left, hw]

theorem left_pending (hw : w.timer.waits = 1) :
    w.left now [] = if w.deadline ≤ w.timer.expiry then 2 else 4 := by
  simp [left, hw]

theorem left_aborted (hw : w.timer.waits = 0) (e : Error) : w.left now [some e] = 1 := by
  simp [left, hw, waitLeft]

theorem left_woken (hw : w.timer.waits = 0) :
    w.left now [none] = if w.deadline ≤ now then 1 else 3 := by
  simp [left, hw, waitLeft]

theorem left_le (h : w.timer.waits + waits.length ≤ 1) : w.left now waits ≤ 4 := by
  rcases wait_cases h with ⟨hw, rfl⟩ | ⟨hw, rfl⟩ | ⟨e, hw, rfl⟩
  · rw [left_nil hw]
    omega
  · rw [left_pending hw]
    split <;> omega
  · cases e with
    | some e =>
      rw [left_aborted hw]
      omega
    | none =>
      rw [left_woken hw]
      split <;> omega

/-- Time passes. -/
theorem left_later (h : w.timer.waits + waits.length ≤ 1) {now' : ℤ} (hnow : now ≤ now') :
    w.left now' waits ≤ w.left now waits := by
  rcases wait_cases h with ⟨hw, rfl⟩ | ⟨hw, rfl⟩ | ⟨e, hw, rfl⟩
  · rw [left_nil hw, left_nil hw]
  · rw [left_pending hw, left_pending hw]
  · cases e with
    | some e => rw [left_aborted hw, left_aborted hw]
    | none =>
      rw [left_woken hw, left_woken hw]
      split <;> split <;> omega

variable (now) in
/-- The deadline is moved. -/
theorem left_delay (h : w.timer.waits + waits.length ≤ 1) (t dur : ℤ) :
    (w.delay t dur).left now waits ≤ w.left now waits + 2 := by
  rcases wait_cases h with ⟨hw, rfl⟩ | ⟨hw, rfl⟩ | ⟨e, hw, rfl⟩
  · rw [left_nil hw, left_nil (w := w.delay t dur) hw]
    omega
  · rw [left_pending hw, left_pending (w := w.delay t dur) hw]
    split <;> split <;> omega
  · cases e with
    | some e =>
      rw [left_aborted hw, left_aborted (w := w.delay t dur) hw]
      omega
    | none =>
      rw [left_woken hw, left_woken (w := w.delay t dur) hw]
      split <;> split <;> omega

/-- The pending waits are aborted. -/
theorem left_stop (h : w.timer.waits + waits.length ≤ 1) :
    w.stop.1.left now (waits ++ List.replicate w.stop.2 (some .aborted)) ≤ w.left now waits := by
  have hnone : w.stop.1.timer.waits = 0 := rfl
  have hcount : w.stop.2 = w.timer.waits := rfl
  rw [hcount]
  rcases wait_cases h with ⟨hw, rfl⟩ | ⟨hw, rfl⟩ | ⟨e, hw, rfl⟩
  · rw [hw, List.replicate_zero, List.append_nil, left_nil hnone]
    omega
  · rw [hw, List.replicate_one, List.nil_append, left_aborted hnone, left_pending hw]
    split <;> omega
  · rw [hw, List.replicate_zero, List.append_nil]
    cases e with
    | some e => rw [left_aborted hnone, left_aborted hw]
    | none =>
      rw [left_woken hnone, left_woken hw]
      rfl

/-- A pending wait completes: then its expiry has passed. -/
theorem left_complete (h : w.timer.waits + waits.length ≤ 1) {timer : Timer ℤ}
    (htimer : w.timer.complete now = some timer) :
    ({ w with timer := timer } : Watchdog).left now (waits ++ [none]) + 1 ≤ w.left now waits := by
  obtain ⟨hle, hexpiry, hwaits⟩ := Timer.complete_eq_some.mp htimer
  rcases wait_cases h with ⟨hw, rfl⟩ | ⟨hw, rfl⟩ | ⟨e, hw, rfl⟩
  · omega
  · have hzero : timer.waits = 0 := by omega
    rw [List.nil_append, left_woken (w := { w with timer := timer }) hzero, left_pending hw]
    show (if w.deadline ≤ now then 1 else 3) + 1 ≤ _
    -- where the deadline had not moved, it has passed now
    split <;> split <;> omega
  · omega

/-- The handler of a wait that completed too early waits again. -/
theorem left_start (now' : ℤ) {w' : Watchdog} {aborted : ℕ} (hw : w.timer.waits = 0)
    (hstart : w.start now = some (w', aborted)) :
    w'.left now' (List.replicate aborted (some .aborted)) + 1 ≤ w.left now [none] := by
  have hnot : ¬ w.deadline ≤ now := by
    intro hle
    rw [start_eq_none.mpr hle] at hstart
    cases hstart
  obtain ⟨rfl, rfl⟩ := start_eq_some hstart
  simp [left, hw, waitLeft, hnot, Timer.expiresAt, Timer.asyncWait]

/-! ### The waits of either loop -/

/-- How many steps the waits of a session are good for. -/
def leftIn (withTimeout : Bool) (w : Watchdog) (now : ℤ) (waits : List (Option Error)) : ℕ :=
  if withTimeout then 2 * w.timer.waits + waits.length else w.left now waits

/-- A session with a watchdog has one wait at most. -/
def Few (withTimeout : Bool) (w : Watchdog) (waits : List (Option Error)) : Prop :=
  withTimeout = false → w.timer.waits + waits.length ≤ 1

variable {withTimeout : Bool}

/-- A completed wait is taken out. -/
theorem leftIn_insert (before after : List (Option Error)) (e : Option Error) :
    w.leftIn withTimeout now (before ++ e :: after) = w.leftIn withTimeout now (before ++ after) +
      waitLeft (withTimeout || decide (w.deadline ≤ now)) e := by
  cases withTimeout with
  | false =>
    simp only [leftIn, left, Bool.false_or, List.map_append, List.map_cons, List.sum_append,
      List.sum_cons, Bool.false_eq_true, if_false]
    omega
  | true =>
    have hone : waitLeft true e = 1 := by cases e <;> rfl
    simp only [leftIn, Bool.true_or, hone, List.length_append, List.length_cons, if_true]
    omega

theorem Few.insert {before after : List (Option Error)} {e : Option Error}
    (h : w.Few withTimeout (before ++ e :: after)) : w.Few withTimeout (before ++ after) := by
  intro hmode
  have hle := h hmode
  rw [List.length_append, List.length_cons] at hle
  rw [List.length_append]
  omega

/-- With a watchdog the wait that has completed is the only one. -/
theorem Few.only {before after : List (Option Error)} {e : Option Error}
    (h : w.Few false (before ++ e :: after)) : w.timer.waits = 0 ∧ before ++ after = [] := by
  have hle := h rfl
  rw [List.length_append, List.length_cons] at hle
  refine ⟨by omega, List.eq_nil_of_length_eq_zero ?_⟩
  rw [List.length_append]
  omega

theorem Few.stop (h : w.Few withTimeout waits) :
    w.stop.1.Few withTimeout (waits ++ List.replicate w.stop.2 (some .aborted)) := by
  intro hmode
  have hle := h hmode
  simp only [Watchdog.stop, Timer.cancel, List.length_append, List.length_replicate]
  omega

variable (now) in
theorem leftIn_stop (h : w.Few withTimeout waits) :
    w.stop.1.leftIn withTimeout now (waits ++ List.replicate w.stop.2 (some .aborted)) ≤
      w.leftIn withTimeout now waits := by
  cases withTimeout with
  | false => exact left_stop (h rfl)
  | true =>
    simp only [leftIn, Watchdog.stop, Timer.cancel, List.length_append, List.length_replicate,
      if_true]
    omega

theorem leftIn_later (h : w.Few withTimeout waits) {now' : ℤ} (hnow : now ≤ now') :
    w.leftIn withTimeout now' waits ≤ w.leftIn withTimeout now waits := by
  cases withTimeout with
  | false => exact left_later (h rfl) hnow
  | true => exact Nat.le_refl _

variable (now) in
theorem leftIn_delay (h : w.Few withTimeout waits) (t dur : ℤ) :
    (w.delay t dur).leftIn withTimeout now waits ≤ w.leftIn withTimeout now waits + 2 := by
  cases withTimeout with
  | false => exact left_delay now (h rfl) t dur
  | true => exact Nat.le_add_right _ 2

/-- A pending wait completes. -/
theorem leftIn_complete (h : w.Few withTimeout waits) {timer : Timer ℤ}
    (htimer : w.timer.complete now = some timer) :
    ({ w with timer := timer } : Watchdog).leftIn withTimeout now (waits ++ [none]) + 1 ≤
      w.leftIn withTimeout now waits := by
  cases withTimeout with
  | false => exact left_complete (h rfl) htimer
  | true =>
    obtain ⟨-, -, hwaits⟩ := Timer.complete_eq_some.mp htimer
    simp only [leftIn, List.length_append, List.length_singleton, if_true]
    omega

theorem Few.complete (h : w.Few withTimeout waits) {timer : Timer ℤ}
    (htimer : w.timer.complete now = some timer) :
    ({ w with timer := timer } : Watchdog).Few withTimeout (waits ++ [none]) := by
  intro hmode
  have hle := h hmode
  obtain ⟨-, -, hwaits⟩ := Timer.complete_eq_some.mp htimer
  rw [List.length_append, List.length_singleton]
  show timer.waits + _ ≤ 1
  omega

/-- A timeout is started: what is pending is aborted. -/
theorem leftIn_timeout (expiry now' : ℤ) :
    ({ w with timer := (w.timer.expiresAt expiry).1.asyncWait } : Watchdog).leftIn true now'
        (waits ++ List.replicate (w.timer.expiresAt expiry).2 (some .aborted)) ≤
      w.leftIn true now waits + 2 := by
  simp only [leftIn, Timer.expiresAt, Timer.asyncWait, List.length_append, List.length_replicate,
    if_true]
  omega

/-- A watchdog that has no wait waits. -/
theorem leftIn_start (now' : ℤ) {w' : Watchdog} {aborted : ℕ} (hw : w.timer.waits = 0)
    (hstart : w.start now = some (w', aborted)) :
    w'.leftIn false now' (List.replicate aborted (some .aborted)) = 2 ∧
      w'.Few false (List.replicate aborted (some .aborted)) ∧
      waitLeft (decide (w.deadline ≤ now)) none = 3 := by
  have hnot : ¬ w.deadline ≤ now := by
    intro hle
    rw [start_eq_none.mpr hle] at hstart
    cases hstart
  obtain ⟨rfl, rfl⟩ := start_eq_some hstart
  simp [leftIn, left, Few, hw, waitLeft, hnot, Timer.expiresAt, Timer.asyncWait]

end Watchdog

end CcSnippets.Asio

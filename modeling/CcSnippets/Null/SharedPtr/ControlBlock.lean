import Mathlib.Data.Int.Basic

/-!
# CcSnippets.Null.SharedPtr.ControlBlock

The two counts of `control_block_base` (`null/shared_ptr.h`) and the atomic
operations on them. What `dec_use_count` and `dec_weak_count` go on to do when
they find a count of one is up to their callers in the model: `dispose ()` and
`destroy ()` are steps of their own.
-/

namespace CcSnippets.SharedPtr

/-- The counts of a control block. -/
structure ControlBlock where
  useCount : ℤ
  weakCount : ℤ
  deriving DecidableEq, Repr

namespace ControlBlock

/-- `control_block_base ()`. -/
def new : ControlBlock := { useCount := 1, weakCount := 1 }

/-- `inc_use_count`. -/
def incUseCount (cb : ControlBlock) : ControlBlock := { cb with useCount := cb.useCount + 1 }

/-- `inc_weak_count`. -/
def incWeakCount (cb : ControlBlock) : ControlBlock := { cb with weakCount := cb.weakCount + 1 }

/-- The `fetch_sub` of `dec_use_count`. -/
def subUseCount (cb : ControlBlock) : ControlBlock := { cb with useCount := cb.useCount - 1 }

/-- The `fetch_sub` of `dec_weak_count`. -/
def subWeakCount (cb : ControlBlock) : ControlBlock := { cb with weakCount := cb.weakCount - 1 }

/-- `use_count.compare_exchange_weak (count, count + 1)`: the block with the new
count, or, where it fails, the value it leaves in `count`. It may fail
spuriously. -/
def compareExchange (cb : ControlBlock) (count : ℤ) (spurious : Bool) : Except ℤ ControlBlock :=
  if cb.useCount = count ∧ spurious = false then .ok { cb with useCount := count + 1 }
  else .error cb.useCount

@[simp] theorem new_useCount : new.useCount = 1 := rfl

@[simp] theorem new_weakCount : new.weakCount = 1 := rfl

section Counts

variable (cb : ControlBlock)

@[simp] theorem incUseCount_useCount : cb.incUseCount.useCount = cb.useCount + 1 := rfl

@[simp] theorem incUseCount_weakCount : cb.incUseCount.weakCount = cb.weakCount := rfl

@[simp] theorem incWeakCount_useCount : cb.incWeakCount.useCount = cb.useCount := rfl

@[simp] theorem incWeakCount_weakCount : cb.incWeakCount.weakCount = cb.weakCount + 1 := rfl

@[simp] theorem subUseCount_useCount : cb.subUseCount.useCount = cb.useCount - 1 := rfl

@[simp] theorem subUseCount_weakCount : cb.subUseCount.weakCount = cb.weakCount := rfl

@[simp] theorem subWeakCount_useCount : cb.subWeakCount.useCount = cb.useCount := rfl

@[simp] theorem subWeakCount_weakCount : cb.subWeakCount.weakCount = cb.weakCount - 1 := rfl

end Counts

/-- A successful exchange found `count` and adds one. -/
theorem compareExchange_ok {cb cb' : ControlBlock} {count : ℤ} {spurious : Bool}
    (h : cb.compareExchange count spurious = .ok cb') :
    cb.useCount = count ∧ cb' = cb.incUseCount := by
  unfold compareExchange at h
  split at h
  · rename_i hfound
    obtain rfl := Except.ok.inj h
    refine ⟨hfound.1, ?_⟩
    unfold incUseCount
    rw [hfound.1]
  · cases h

/-- A failed one leaves the count it found. -/
theorem compareExchange_error {cb : ControlBlock} {count found : ℤ} {spurious : Bool}
    (h : cb.compareExchange count spurious = .error found) : found = cb.useCount := by
  unfold compareExchange at h
  split at h
  · cases h
  · exact (Except.error.inj h).symm

/-- The loop of `lock_use_count` from `count` on; each compare-exchange fails
spuriously or not as the list says, and `none` is a loop that is not done yet. -/
def lockLoop (cb : ControlBlock) (count : ℤ) : List Bool → Option (ControlBlock × Bool)
  | [] => if count = 0 then some (cb, false) else none
  | spurious :: rest =>
    if count = 0 then some (cb, false)
    else
      match cb.compareExchange count spurious with
      | .ok cb' => some (cb', true)
      | .error found => cb.lockLoop found rest

/-- `lock_use_count`, with nobody else at the block. -/
def lockUseCount (cb : ControlBlock) (spurious : List Bool) : Option (ControlBlock × Bool) :=
  cb.lockLoop cb.useCount spurious

/-- After any number of spurious failures the loop ends: with one more use, or,
where there is none left, refused. -/
theorem lockUseCount_eq (cb : ControlBlock) (n : ℕ) :
    cb.lockUseCount (List.replicate n true ++ [false]) =
      some (if cb.useCount = 0 then (cb, false) else (cb.incUseCount, true)) := by
  unfold lockUseCount
  by_cases hzero : cb.useCount = 0
  · rw [if_pos hzero]
    cases n with
    | zero => simp only [List.replicate, List.nil_append, lockLoop, if_pos hzero]
    | succ n => simp only [List.replicate_succ, List.cons_append, lockLoop, if_pos hzero]
  · rw [if_neg hzero]
    induction n with
    | zero =>
      simp [lockLoop, hzero, compareExchange, incUseCount]
    | succ n ih =>
      simp only [List.replicate_succ, List.cons_append, lockLoop, if_neg hzero]
      have hfail : cb.compareExchange cb.useCount true = .error cb.useCount := by
        simp [compareExchange]
      rw [hfail]
      exact ih

end ControlBlock

end CcSnippets.SharedPtr

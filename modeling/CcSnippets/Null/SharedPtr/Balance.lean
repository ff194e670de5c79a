import CcSnippets.Null.SharedPtr.Accounts

/-!
# CcSnippets.Null.SharedPtr.Balance

The **balance** of an object's account: how its items add up to the counts of its
control block and to the one call of its deleter, and that each thing a step can
do to an account keeps it. A step takes an entry from one item and puts it under
another, which a hypothesis `a' i + one x i = a i + one y i` says for all items
at once; what remains is arithmetic on eight numbers and two counts.
-/

namespace CcSnippets.SharedPtr

variable {D : Type*}

/-! ### The equations -/

/-- The account of an object that has a control block. -/
structure Managed (blk : Block D) (a : Item → ℕ) : Prop where
  use : blk.counts.useCount = a .shared + a .decUse
  /-- In use, and the deleter was not called; or out of use, and it was, is being
  or is about to be. -/
  stage :
    (0 < blk.counts.useCount ∧ a .dispose + a .delete + a .deleted = 0 ∧
      blk.counts.weakCount = a .weak + a .decWeak + 1) ∨
    (blk.counts.useCount = 0 ∧ a .dispose + a .delete + a .deleted = 1 ∧
      blk.counts.weakCount = a .weak + a .decWeak + a .dispose)
  /-- `destroy ()` comes after the last weak reference, once. -/
  destroy :
    (0 < blk.counts.weakCount ∧ a .destroy + blk.destroyed.toNat = 0) ∨
    (blk.counts.weakCount = 0 ∧ a .destroy + blk.destroyed.toNat = 1)

/-- The account of any object, with its control block and the deleter it was
handed in with. -/
inductive Balanced : Option (Block D) → Option D → (Item → ℕ) → Prop
  /-- It has a control block, made with that deleter. -/
  | managed {blk : Block D} {a : Item → ℕ} : Managed blk a → Balanced (some blk) (some blk.del) a
  /-- It has none: never handed in, or the allocation failed. -/
  | unmanaged {handed : Option D} {a : Item → ℕ} :
      (∀ i, i ≠ .delete → i ≠ .deleted → a i = 0) →
      a .delete + a .deleted = handed.toList.length → Balanced none handed a

namespace Balanced

variable {blk : Block D} {handed : Option D} {a : Item → ℕ}

theorem of_some (h : Balanced (some blk) handed a) : handed = some blk.del ∧ Managed blk a := by
  cases h with
  | managed hm => exact ⟨rfl, hm⟩

/-- Anything but a call of the deleter needs a control block. -/
theorem exists_block {o : Option (Block D)} (h : Balanced o handed a) {i : Item} (hi : 0 < a i)
    (hdelete : i ≠ .delete) (hdeleted : i ≠ .deleted) : ∃ blk, o = some blk := by
  cases h with
  | managed _ => exact ⟨_, rfl⟩
  | unmanaged hzero _ =>
    have := hzero i hdelete hdeleted
    omega

/-- An object that was not handed in has an empty account. -/
theorem eq_zero {o : Option (Block D)} (h : Balanced o none a) : o = none ∧ ∀ i, a i = 0 := by
  cases h with
  | unmanaged hzero hdel =>
    refine ⟨rfl, fun i => ?_⟩
    rw [Option.toList_none, List.length_nil] at hdel
    by_cases hdelete : i = .delete
    · subst hdelete
      omega
    by_cases hdeleted : i = .deleted
    · subst hdeleted
      omega
    exact hzero i hdelete hdeleted

end Balanced

namespace Managed

variable {blk : Block D} {a a' : Item → ℕ}

/-- Where anything refers to the block, it has not been destroyed. -/
theorem alive (h : Managed blk a) {i : Item} (hi : 0 < a i) (hdelete : i ≠ .delete)
    (hdeleted : i ≠ .deleted) : blk.destroyed = false := by
  obtain ⟨huse, hstage, hdestroy⟩ := h
  cases hd : blk.destroyed with
  | false => rfl
  | true =>
    -- All counts are at zero, and `destroy ()` was the last call.
    rw [hd, Bool.toNat_true] at hdestroy
    cases i <;> first | contradiction | omega

/-! ### What steps do to it -/

/-- A shared handle is copied, or made by `lock`. -/
theorem incUse (h : Managed blk a) (hlive : blk.counts.useCount ≠ 0)
    (ha : ∀ i, a' i = a i + one .shared i) :
    Managed { blk with counts := blk.counts.incUseCount } a' := by
  simp only [Item.forall, one, reduceCtorEq, if_true, if_false] at ha
  obtain ⟨huse, hstage, hdestroy⟩ := h
  refine ⟨?_, ?_, ?_⟩ <;>
    simp only [ControlBlock.incUseCount_useCount, ControlBlock.incUseCount_weakCount] <;> omega

/-- A weak handle is made from a handle. -/
theorem incWeak (h : Managed blk a) (hlive : 0 < a .shared + a .weak)
    (ha : ∀ i, a' i = a i + one .weak i) :
    Managed { blk with counts := blk.counts.incWeakCount } a' := by
  simp only [Item.forall, one, reduceCtorEq, if_true, if_false] at ha
  obtain ⟨huse, hstage, hdestroy⟩ := h
  refine ⟨?_, ?_, ?_⟩ <;>
    simp only [ControlBlock.incWeakCount_useCount, ControlBlock.incWeakCount_weakCount] <;> omega

/-- A handle goes, and its reference passes to a call. -/
theorem release (h : Managed blk a) {kind : Kind}
    (ha : ∀ i, a' i + one kind.item i = a i + one kind.released i) : Managed blk a' := by
  obtain ⟨huse, hstage, hdestroy⟩ := h
  cases kind <;>
    simp only [Item.forall, Kind.item, Kind.released, one, reduceCtorEq, if_true, if_false]
      at ha <;>
    exact ⟨by omega, by omega, by omega⟩

/-- The `fetch_sub` of `dec_use_count` leaves other uses. -/
theorem decUse (h : Managed blk a) (hmore : blk.counts.useCount ≠ 1)
    (ha : ∀ i, a' i + one .decUse i = a i) :
    Managed { blk with counts := blk.counts.subUseCount } a' := by
  simp only [Item.forall, one, reduceCtorEq, if_true, if_false] at ha
  obtain ⟨huse, hstage, hdestroy⟩ := h
  refine ⟨?_, ?_, ?_⟩ <;>
    simp only [ControlBlock.subUseCount_useCount, ControlBlock.subUseCount_weakCount] <;> omega

/-- It was the last use. -/
theorem decUse_last (h : Managed blk a) (hlast : blk.counts.useCount = 1)
    (ha : ∀ i, a' i + one .decUse i = a i + one .dispose i) :
    Managed { blk with counts := blk.counts.subUseCount } a' := by
  simp only [Item.forall, one, reduceCtorEq, if_true, if_false] at ha
  obtain ⟨huse, hstage, hdestroy⟩ := h
  refine ⟨?_, ?_, ?_⟩ <;>
    simp only [ControlBlock.subUseCount_useCount, ControlBlock.subUseCount_weakCount] <;> omega

/-- `dispose ()` is entered; the weak reference of the uses is still held. -/
theorem dispose (h : Managed blk a)
    (ha : ∀ i, a' i + one .dispose i = a i + one .decWeak i + one .delete i) :
    Managed blk a' := by
  simp only [Item.forall, one, reduceCtorEq, if_true, if_false] at ha
  obtain ⟨huse, hstage, hdestroy⟩ := h
  exact ⟨by omega, by omega, by omega⟩

/-- The deleter is called. -/
theorem delete (h : Managed blk a) (ha : ∀ i, a' i + one .delete i = a i + one .deleted i) :
    Managed blk a' := by
  simp only [Item.forall, one, reduceCtorEq, if_true, if_false] at ha
  obtain ⟨huse, hstage, hdestroy⟩ := h
  exact ⟨by omega, by omega, by omega⟩

/-- The `fetch_sub` of `dec_weak_count` leaves other weak references. -/
theorem decWeak (h : Managed blk a) (hmore : blk.counts.weakCount ≠ 1)
    (ha : ∀ i, a' i + one .decWeak i = a i) :
    Managed { blk with counts := blk.counts.subWeakCount } a' := by
  simp only [Item.forall, one, reduceCtorEq, if_true, if_false] at ha
  obtain ⟨huse, hstage, hdestroy⟩ := h
  refine ⟨?_, ?_, ?_⟩ <;>
    simp only [ControlBlock.subWeakCount_useCount, ControlBlock.subWeakCount_weakCount] <;> omega

/-- It was the last weak reference. -/
theorem decWeak_last (h : Managed blk a) (hlast : blk.counts.weakCount = 1)
    (ha : ∀ i, a' i + one .decWeak i = a i + one .destroy i) :
    Managed { blk with counts := blk.counts.subWeakCount } a' := by
  simp only [Item.forall, one, reduceCtorEq, if_true, if_false] at ha
  obtain ⟨huse, hstage, hdestroy⟩ := h
  refine ⟨?_, ?_, ?_⟩ <;>
    simp only [ControlBlock.subWeakCount_useCount, ControlBlock.subWeakCount_weakCount] <;> omega

/-- `destroy ()` is called. -/
theorem destroyed (h : Managed blk a) (hlive : blk.destroyed = false)
    (ha : ∀ i, a' i + one .destroy i = a i) : Managed { blk with destroyed := true } a' := by
  simp only [Item.forall, one, reduceCtorEq, if_true, if_false] at ha
  obtain ⟨huse, hstage, hdestroy⟩ := h
  rw [hlive, Bool.toNat_false] at hdestroy
  refine ⟨?_, ?_, ?_⟩ <;> dsimp only
  · omega
  · omega
  · rw [Bool.toNat_true]
    omega

/-- A new control block, with its first handle. -/
theorem new (del : D) (ha : ∀ i, a' i = one .shared i) :
    Managed { counts := .new, del := del, destroyed := false } a' := by
  simp only [Item.forall, one, reduceCtorEq, if_true, if_false] at ha
  refine ⟨?_, ?_, ?_⟩ <;>
    simp only [ControlBlock.new_useCount, ControlBlock.new_weakCount, Bool.toNat_false] <;> omega

end Managed

/-- The deleter of an object without a control block is called. -/
theorem Balanced.delete {o : Option (Block D)} {handed : Option D} {a a' : Item → ℕ}
    (h : Balanced o handed a) (ha : ∀ i, a' i + one .delete i = a i + one .deleted i) :
    Balanced o handed a' := by
  cases h with
  | managed hm => exact .managed (hm.delete ha)
  | unmanaged hzero hdel =>
    have hcall := ha .delete
    have hmade := ha .deleted
    simp only [one, reduceCtorEq, if_true, if_false] at hcall hmade
    refine .unmanaged (fun i hdelete hdeleted => ?_) (by omega)
    have hi := ha i
    rw [one, one, if_neg (Ne.symm hdelete), if_neg (Ne.symm hdeleted), hzero i hdelete hdeleted]
      at hi
    omega

end CcSnippets.SharedPtr

import CcSnippets.Null.SharedPtr.Unwinds

/-!
# CcSnippets.Null.SharedPtr.Counts

Between operations the calls in the middle of a decrement are gone, and the
balance of each account says that **the counts are the numbers of live handles**:
`use_count` of the `shared_ptr`s, `weak_count` of the `weak_ptr`s and one more for
all the uses together. An object handed in has been deleted, once and by its own
deleter, exactly where no `shared_ptr` is left on it.
-/

namespace CcSnippets.SharedPtr

open CcSnippets.Core

variable {Loc Obj D : Type*} [Fintype Loc] [DecidableEq Loc] [DecidableEq Obj]
variable {s : State Loc Obj D}

/-- The number of live handles of this kind that refer to the control block `b`. -/
def State.handlesOn (s : State Loc Obj D) (kind : Kind) (b : Obj) : ℕ :=
  (Finset.univ.filter fun l =>
    (s.handle l).map (fun h => (h.kind, h.cb)) = some (kind, some b)).card

/-- What the counts and the deleted objects are between two operations. -/
structure Settled (s : State Loc Obj D) : Prop where
  useCount : ∀ b blk, s.liveBlock b = some blk → blk.counts.useCount = s.handlesOn .shared b
  weakCount : ∀ b blk, s.liveBlock b = some blk →
    blk.counts.weakCount = s.handlesOn .weak b + if 0 < blk.counts.useCount then 1 else 0
  /-- No handle refers to a destroyed control block. -/
  live : ∀ l h b, s.handle l = some h → h.cb = some b → ∃ blk, s.liveBlock b = some blk
  null : ∀ l h, s.handle l = some h → (h.ptr = none ↔ h.cb = none)
  /-- An object handed in, to a constructor that returned or threw, is deleted by
  its own deleter once no shared handle is left on it. -/
  deleted : ∀ o del, s.handed o = some del →
    (s.deleted.filter fun e => e.1 = o) =
      if 0 < s.handlesOn .shared o then [] else [(o, del)]
  /-- Nothing else is. -/
  handed : ∀ o del, (o, del) ∈ s.deleted → s.handed o = some del

/-! ### Accounts between operations -/

omit [DecidableEq Loc] in
/-- The handles in an account are counted one by one. -/
theorem account_kind (s : State Loc Obj D) (kind : Kind) (o : Obj) :
    s.account o kind.item = s.handlesOn kind o := by
  have hcalls := s.calls_eq_zero o (i := kind.item) (by cases kind <;> simp [Kind.item])
  have hdeletions := s.deletions_eq o kind.item
  rw [if_neg (by cases kind <;> simp [Kind.item])] at hdeletions
  have htally : s.handlesOn kind o = tally (fun h =>
      if h.map (fun h => (h.kind, h.cb)) = some (kind, some o) then 1 else 0) s.handle :=
    (tally_ite (fun h : Option (Handle Obj) =>
      h.map (fun h => (h.kind, h.cb)) = some (kind, some o)) s.handle).symm
  unfold State.account
  rw [hcalls, hdeletions, htally, Nat.add_zero]
  refine tally_congr fun l => ?_
  cases s.handle l with
  | none => rfl
  | some h =>
    obtain ⟨k, ptr, cb⟩ := h
    cases cb with
    | none => simp [Handle.item]
    | some b => cases k <;> cases kind <;> simp [Handle.item, Kind.item, entry, one]

omit [DecidableEq Loc] in
/-- So are the calls of the deleter that were made. -/
theorem account_deleted (s : State Loc Obj D) (o : Obj) :
    s.account o .deleted = (s.deleted.filter fun e => e.1 = o).length := by
  unfold State.account
  rw [s.handles_eq_zero o (by decide) (by decide), s.calls_eq_zero o (.inr (.inr rfl)),
    s.deletions_eq, if_pos rfl, Nat.zero_add]

omit [DecidableEq Loc] in
/-- Nothing is in the middle of a call. -/
theorem account_settled (hdone : s.stack = []) (o : Obj) {i : Item} (hshared : i ≠ .shared)
    (hweak : i ≠ .weak) (hdeleted : i ≠ .deleted) : s.account o i = 0 := by
  unfold State.account
  rw [s.handles_eq_zero o hshared hweak, s.deletions_eq, if_neg hdeleted, hdone]
  rfl

omit [DecidableEq Loc] in
theorem account_calls (hdone : s.stack = []) (o : Obj) : s.account o .decUse = 0 ∧
    s.account o .dispose = 0 ∧ s.account o .delete = 0 ∧ s.account o .decWeak = 0 :=
  ⟨account_settled hdone o (by decide) (by decide) (by decide),
    account_settled hdone o (by decide) (by decide) (by decide),
    account_settled hdone o (by decide) (by decide) (by decide),
    account_settled hdone o (by decide) (by decide) (by decide)⟩

/-! ### Between operations -/

namespace Sound

variable [Fintype Obj]

/-- The deleter of an object handed in was called once if no shared handle is
left on it, and else not at all. -/
theorem deletions_length (h : Sound s) (hdone : s.stack = []) {o : Obj} {del : D}
    (hdel : s.handed o = some del) : (s.deleted.filter fun e => e.1 = o).length =
      if 0 < s.handlesOn .shared o then 0 else 1 := by
  obtain ⟨hdecUse, hdispose, hdelete, -⟩ := account_calls hdone o
  have hshared : s.account o .shared = s.handlesOn .shared o := account_kind s .shared o
  rw [← account_deleted, ← hshared]
  have hbal := h.balanced o
  rw [hdel] at hbal
  cases hblk : s.block o with
  | none =>
    -- the constructor that it was handed to threw
    rw [hblk] at hbal
    cases hbal with
    | unmanaged hzero hcount =>
      rw [hzero .shared (by decide) (by decide), if_neg (by omega)]
      simpa [hdelete] using hcount
  | some blk =>
    obtain ⟨huse, hstage, -⟩ := h.managed hblk
    split_ifs <;> omega

/-- What was deleted was deleted by the deleter it was handed in with. -/
theorem deletions_eq_singleton (h : Sound s) {o : Obj} {del : D} (hdel : s.handed o = some del)
    (hone : (s.deleted.filter fun e => e.1 = o).length = 1) :
    (s.deleted.filter fun e => e.1 = o) = [(o, del)] := by
  obtain ⟨⟨p, d⟩, he⟩ := List.length_eq_one_iff.mp hone
  have hin : (p, d) ∈ s.deleted.filter fun e => e.1 = o := he ▸ List.mem_singleton_self _
  have hmem : (p, d) ∈ s.deleted ∧ p = o := by simpa using hin
  obtain ⟨hmem, rfl⟩ := hmem
  obtain rfl : del = d := Option.some.inj (hdel.symm.trans (h.deleters p d (.inl hmem)))
  exact he

theorem settled (h : Sound s) (hdone : s.stack = []) : Settled s := by
  have hshared : ∀ o, s.account o .shared = s.handlesOn .shared o := account_kind s .shared
  have hweak : ∀ o, s.account o .weak = s.handlesOn .weak o := account_kind s .weak
  refine ⟨fun b blk hlive => ?_, fun b blk hlive => ?_, fun l x b hx hb => ?_, fun l x hx => ?_,
    fun o del hdel => ?_, fun o del hd => h.deleters o del (.inl hd)⟩
  · obtain ⟨huse, -, -⟩ := h.managed (block_of_liveBlock hlive)
    obtain ⟨hdecUse, -⟩ := account_calls hdone b
    rw [huse, hdecUse, hshared]
    exact Int.add_zero _
  · obtain ⟨-, hstage, -⟩ := h.managed (block_of_liveBlock hlive)
    obtain ⟨-, hdispose, -, hdecWeak⟩ := account_calls hdone b
    rw [hdispose, hdecWeak, hweak] at hstage
    split_ifs <;> omega
  · obtain ⟨blk, -, hlive, -⟩ := h.live_of_handle hx hb
    exact ⟨blk, hlive⟩
  · rw [h.pointed l x hx]
  · have hcount := h.deletions_length hdone hdel
    split_ifs at hcount ⊢ with hpos
    · exact List.eq_nil_of_length_eq_zero hcount
    · exact h.deletions_eq_singleton hdel hcount

end Sound

end CcSnippets.SharedPtr

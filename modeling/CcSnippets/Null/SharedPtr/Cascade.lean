import CcSnippets.Null.SharedPtr.Counts
import Mathlib.Data.Fintype.EquivFin
import Mathlib.Order.WellFounded

/-!
# CcSnippets.Null.SharedPtr.Cascade

What the recursion of destructors disposes: **exactly the objects left with no
shared owner**, `Lost`, the least set of objects all of whose shared handles are
about to be destroyed or are members of objects in the set. The set is read off the
state in which an operation has done its own work and destroyed nothing yet;
`Unwound` relates that state to those the recursion goes through.
-/

namespace CcSnippets.SharedPtr

open CcSnippets.Core

variable {Loc Obj D : Type*}

/-! ### The objects left without an owner -/

/-- A `shared_ptr` to the object `o` lives at `l`. -/
def State.SharedAt (s : State Loc Obj D) (l : Loc) (o : Obj) : Prop :=
  ∃ ptr, s.handle l = some ⟨.shared, ptr, some o⟩

/-- The objects that lose their last shared owner, directly or because the objects
that own them do. -/
inductive Lost (s : State Loc Obj D) : Obj → Prop
  /-- Handed to a constructor that threw: its deleter is about to be called. -/
  | refused {o : Obj} {del : D} : .delete o del ∈ s.stack → Lost s o
  /-- Each of its shared handles is about to be destroyed, or is a member of a
  lost object. -/
  | orphaned {o : Obj} (owner : Loc → Obj) :
      (∃ l, s.SharedAt l o) →
      (∀ l, s.SharedAt l o → .drop l ∉ s.stack → l ∈ s.members (owner l)) →
      (∀ l, s.SharedAt l o → .drop l ∉ s.stack → Lost s (owner l)) → Lost s o

/-- The handles that go with them. -/
def Doomed (s : State Loc Obj D) (l : Loc) : Prop :=
  .drop l ∈ s.stack ∨ ∃ o, Lost s o ∧ l ∈ s.members o

/-- An object is lost where its shared handles are doomed. -/
theorem Lost.of_doomed {s : State Loc Obj D} {o : Obj} (hshared : ∃ l, s.SharedAt l o)
    (hdoomed : ∀ l, s.SharedAt l o → Doomed s l) : Lost s o := by
  have howner : ∀ l, ∃ p, s.SharedAt l o → .drop l ∉ s.stack → Lost s p ∧ l ∈ s.members p := by
    intro l
    by_cases hl : s.SharedAt l o ∧ .drop l ∉ s.stack
    · obtain ⟨p, hp⟩ := (hdoomed l hl.1).resolve_left hl.2
      exact ⟨p, fun _ _ => hp⟩
    · exact ⟨o, fun h1 h2 => absurd ⟨h1, h2⟩ hl⟩
  choose owner howner using howner
  exact .orphaned owner hshared (fun l h1 h2 => (howner l h1 h2).2)
    fun l h1 h2 => (howner l h1 h2).1

/-! ### The recursion -/

/-- The recursion that starts in `s` has come to `t`. -/
structure Unwound (s t : State Loc Obj D) : Prop where
  handed : t.handed = s.handed
  /-- Handles only go, and only doomed ones. -/
  handle : ∀ l, t.handle l = s.handle l ∨ t.handle l = none ∧ Doomed s l
  dropping : ∀ l, .drop l ∈ t.stack → Doomed s l
  decUse : ∀ b, .decUse b ∈ t.stack → ∃ l, s.SharedAt l b
  /-- Only lost objects are disposed. -/
  disposing : ∀ o, .dispose o ∈ t.stack → Lost s o
  deleting : ∀ o del, .delete o del ∈ t.stack → Lost s o
  deleted : ∃ disposed, t.deleted = s.deleted ++ disposed ∧ ∀ e ∈ disposed, Lost s e.1
  /-- A deleted object's members are destroyed, or about to be. -/
  members : ∀ o, t.members o = s.members o ∨
    t.members o = [] ∧ ∀ l ∈ s.members o, t.handle l = none ∨ .drop l ∈ t.stack
  dropped : ∀ l, .drop l ∈ s.stack → t.handle l = none ∨ .drop l ∈ t.stack

/-- A call that the recursion that starts in `s` may come to. -/
def Expected (s : State Loc Obj D) : Frame Loc Obj D → Prop
  | .drop l => Doomed s l
  | .decUse b => ∃ l, s.SharedAt l b
  | .dispose o | .delete o _ => Lost s o
  | .decWeak _ | .destroy _ => True

namespace Unwound

variable {s t t' : State Loc Obj D} {l : Loc} {o : Obj}

/-- Where the recursion starts: in a state in which an operation has destroyed
nothing yet. -/
theorem refl (hstack : ∀ f ∈ s.stack, (∃ l, f = .drop l) ∨ ∃ o del, f = .delete o del) :
    Unwound s s where
  handed := rfl
  handle _ := .inl rfl
  dropping _ hl := .inl hl
  decUse b hb := by
    rcases hstack _ hb with ⟨l, hl⟩ | ⟨o, del, ho⟩
    · cases hl
    · cases ho
  disposing o ho := by
    rcases hstack _ ho with ⟨l, hl⟩ | ⟨o, del, ho⟩
    · cases hl
    · cases ho
  deleting _ _ ho := .refused ho
  deleted := ⟨[], (List.append_nil _).symm, fun e he => by cases he⟩
  members _ := .inl rfl
  dropped _ hl := .inr hl

/-- Between two operations there is nothing to unwind. -/
theorem of_done (hdone : s.stack = []) : Unwound s s := by
  refine .refl fun f hf => ?_
  rw [hdone] at hf
  cases hf

/-- A handle that is still there was there before. -/
theorem handle_of_some (h : Unwound s t) {x : Handle Obj} (hx : t.handle l = some x) :
    s.handle l = some x := by
  rcases h.handle l with heq | ⟨hnone, -⟩
  · rw [← heq, hx]
  · rw [hnone] at hx
    cases hx

/-- One that is not, is doomed. -/
theorem doomed_of_none (h : Unwound s t) {x : Handle Obj} (hx : s.handle l = some x)
    (hnone : t.handle l = none) : Doomed s l := by
  rcases h.handle l with heq | ⟨-, hdoomed⟩
  · rw [hnone, hx] at heq
    cases heq
  · exact hdoomed

/-- What is called in the recursion was called for. -/
theorem expected (h : Unwound s t) : ∀ g ∈ t.stack, Expected s g := by
  intro g hg
  cases g with
  | drop l => exact h.dropping l hg
  | decUse b => exact h.decUse b hg
  | dispose o => exact h.disposing o hg
  | delete o del => exact h.deleting o del hg
  | decWeak _ | destroy _ => trivial

/-- A call is carried out and makes the calls `fs`: what it does to the handles,
the deleted objects and their members is what the recursion is there for. -/
theorem of_frames (h : Unwound s t) {f : Frame Loc Obj D} {fs k : List (Frame Loc Obj D)}
    (hstack : t.stack = f :: k) (hstack' : t'.stack = fs ++ k) (hfs : ∀ g ∈ fs, Expected s g)
    (hhanded : t'.handed = t.handed)
    (hhandle : ∀ l, t'.handle l = t.handle l ∨ t'.handle l = none ∧ Doomed s l)
    (hdeleted : ∃ disposed, t'.deleted = t.deleted ++ disposed ∧ ∀ e ∈ disposed, Lost s e.1)
    (hmembers : ∀ o, t'.members o = t.members o ∨
      t'.members o = [] ∧ ∀ l ∈ t.members o, t'.handle l = none ∨ .drop l ∈ t'.stack)
    (hgone : ∀ l, t.handle l = none ∨ .drop l ∈ t.stack →
      t'.handle l = none ∨ .drop l ∈ t'.stack) : Unwound s t' := by
  have hall : ∀ g ∈ t'.stack, Expected s g := by
    intro g hg
    rw [hstack'] at hg
    rcases List.mem_append.mp hg with hg | hg
    · exact hfs g hg
    · exact h.expected g (hstack ▸ List.mem_cons_of_mem f hg)
  refine ⟨hhanded.trans h.handed, fun l => ?_, fun l hl => hall _ hl, fun b hb => hall _ hb,
    fun o ho => hall _ ho, fun o del ho => hall _ ho, ?_, fun o => ?_,
    fun l hl => hgone l (h.dropped l hl)⟩
  · rcases hhandle l with heq | hgone
    · rw [heq]
      exact h.handle l
    · exact .inr hgone
  · obtain ⟨before, hbefore, hlost⟩ := h.deleted
    obtain ⟨disposed, hdisposed, hlost'⟩ := hdeleted
    refine ⟨before ++ disposed, ?_, fun e he => ?_⟩
    · rw [hdisposed, hbefore, List.append_assoc]
    · exact (List.mem_append.mp he).elim (hlost e) (hlost' e)
  · -- members that were given up before, and members given up by this call
    rcases h.members o with hsame | ⟨hnil, hbefore⟩ <;> rcases hmembers o with heq | ⟨hnil', hnow⟩
    · exact .inl (heq.trans hsame)
    · exact .inr ⟨hnil', fun l hl => hnow l (hsame ▸ hl)⟩
    · exact .inr ⟨heq.trans hnil, fun l hl => hgone l (hbefore l hl)⟩
    · exact .inr ⟨hnil', fun l hl => hgone l (hbefore l hl)⟩

/-- A call that destroys no handle itself. -/
theorem of_call (h : Unwound s t) (fs : List (Frame Loc Obj D)) {f : Frame Loc Obj D}
    {k : List (Frame Loc Obj D)} (hstack : t.stack = f :: k) (hf : ∀ l, f ≠ .drop l)
    (hfs : ∀ g ∈ fs, Expected s g) (block : Obj → Option (Block D)) :
    Unwound s { t with block := block, stack := fs ++ k } := by
  refine h.of_frames hstack rfl hfs rfl (fun _ => .inl rfl)
    ⟨[], (List.append_nil _).symm, fun e he => by cases he⟩ (fun _ => .inl rfl) fun l hl => ?_
  refine hl.imp_right fun hl => ?_
  rw [hstack] at hl
  rcases List.mem_cons.mp hl with heq | hl
  · exact absurd heq.symm (hf l)
  · exact List.mem_append_right _ hl

/-- A handle's destructor; where it was a shared handle, a use is given up. -/
theorem of_drop [DecidableEq Loc] (h : Unwound s t) (fs : List (Frame Loc Obj D))
    {k : List (Frame Loc Obj D)} (hstack : t.stack = .drop l :: k)
    (hfs : ∀ g ∈ fs, (∃ b, g = .decWeak b) ∨ ∃ b, g = .decUse b ∧ t.SharedAt l b) :
    Unwound s { t with handle := Function.update t.handle l none, stack := fs ++ k } := by
  refine h.of_frames hstack rfl (fun g hg => ?_) rfl (fun m => ?_)
    ⟨[], (List.append_nil _).symm, fun e he => by cases he⟩ (fun _ => .inl rfl) fun m hm => ?_
  · rcases hfs g hg with ⟨b, rfl⟩ | ⟨b, rfl, ptr, hshared⟩
    · trivial
    · exact ⟨l, ptr, h.handle_of_some hshared⟩
  · show Function.update t.handle l none m = _ ∨ Function.update t.handle l none m = none ∧ _
    by_cases hml : m = l
    · rw [hml, Function.update_self]
      exact .inr ⟨rfl, h.dropping l (hstack ▸ List.mem_cons_self)⟩
    · rw [Function.update_of_ne hml]
      exact .inl rfl
  · show Function.update t.handle l none m = none ∨ .drop m ∈ fs ++ k
    by_cases hml : m = l
    · rw [hml, Function.update_self]
      exact .inl rfl
    · rw [Function.update_of_ne hml]
      refine hm.imp_right fun hm => ?_
      rw [hstack] at hm
      rcases List.mem_cons.mp hm with heq | hm
      · cases heq
        exact absurd rfl hml
      · exact List.mem_append_right _ hm

/-- The deleter of a lost object: its members are to be destroyed next. -/
theorem of_delete [DecidableEq Obj] (h : Unwound s t) {k : List (Frame Loc Obj D)} {del : D}
    (hstack : t.stack = .delete o del :: k) :
    Unwound s { t with
      deleted := t.deleted ++ [(o, del)]
      members := Function.update t.members o []
      stack := (t.members o).reverse.map .drop ++ k } := by
  have hlost : Lost s o := h.deleting o del (hstack ▸ List.mem_cons_self)
  refine h.of_frames hstack rfl (fun g hg => ?_) rfl (fun _ => .inl rfl)
    ⟨[(o, del)], rfl, fun e he => List.mem_singleton.mp he ▸ hlost⟩ (fun p => ?_) fun l hl => ?_
  · obtain ⟨l, hl, rfl⟩ := List.mem_map.mp hg
    -- a member that is still there was one before
    rcases h.members o with hsame | ⟨hnil, -⟩
    · exact .inr ⟨o, hlost, hsame ▸ List.mem_reverse.mp hl⟩
    · rw [hnil] at hl
      cases hl
  · show Function.update t.members o [] p = _ ∨ Function.update t.members o [] p = [] ∧ _
    by_cases hp : p = o
    · rw [hp, Function.update_self]
      exact .inr ⟨rfl, fun l hl => .inr (List.mem_append_left _
        (List.mem_map_of_mem (List.mem_reverse.mpr hl)))⟩
    · rw [Function.update_of_ne hp]
      exact .inl rfl
  · refine hl.imp_right fun hl => ?_
    rw [hstack] at hl
    rcases List.mem_cons.mp hl with heq | hl
    · cases heq
    · exact List.mem_append_right _ hl

variable [Fintype Loc] [Fintype Obj] [DecidableEq Loc] [DecidableEq Obj]

/-- Where the last use is given up, every shared handle the object had is gone. -/
theorem lost_of_last (h : Unwound s t) (ht : Sound t) {b : Obj} {blk : Block D}
    {k : List (Frame Loc Obj D)} (hstack : t.stack = .decUse b :: k) (hblk : t.block b = some blk)
    (hlast : blk.counts.useCount = 1) : Lost s b := by
  obtain ⟨huse, -, -⟩ := ht.managed hblk
  have hcall := t.account_stack_cons hstack b .decUse
  simp only [Frame.item, entry_self, one, if_true] at hcall
  refine .of_doomed (h.decUse b (hstack ▸ List.mem_cons_self)) fun l hl => ?_
  obtain ⟨ptr, hl⟩ := hl
  refine h.doomed_of_none hl (Option.eq_none_iff_forall_ne_some.mpr fun x hx => ?_)
  obtain rfl : Handle.mk .shared ptr (some b) = x :=
    Option.some.inj (hl.symm.trans (h.handle_of_some hx))
  have hpos := account_handle_pos hx rfl
  simp only [Kind.item] at hpos
  omega

/-- Every call keeps it. -/
theorem step (h : Unwound s t) (ht : Sound t) (hstep : next t .step = some t') : Unwound s t' := by
  cases hstack : t.stack with
  | nil =>
    simp only [SharedPtr.next, hstack] at hstep
    cases hstep
  | cons f k =>
    simp only [SharedPtr.next, hstack] at hstep
    cases exec_cases hstep with
    | dropNull _ => exact h.of_drop [] hstack (by simp)
    | @dropShared _ ptr b hx =>
      exact h.of_drop [.decUse b] hstack (by simpa [State.SharedAt] using ⟨ptr, hx⟩)
    | dropWeak _ => exact h.of_drop [.decWeak _] hstack (by simp)
    | decUse hblk hmore => exact h.of_call [] hstack (by simp) (by simp) _
    | @decUseLast b blk hblk hlast =>
      have hlost := h.lost_of_last ht hstack hblk hlast
      exact h.of_call [.dispose b] hstack (by simp) (by simpa [Expected] using hlost) _
    | @dispose b blk hblk =>
      have hlost := h.disposing b (hstack ▸ List.mem_cons_self)
      exact h.of_call [.delete b blk.del, .decWeak b] hstack (by simp)
        (by simpa [Expected] using hlost) _
    | delete => exact h.of_delete hstack
    | decWeak hblk hmore => exact h.of_call [] hstack (by simp) (by simp) _
    | @decWeakLast b blk hblk hlast =>
      exact h.of_call [.destroy b] hstack (by simp) (by simp [Expected]) _
    | destroy hblk => exact h.of_call [] hstack (by simp) (by simp) _

end Unwound

/-! ### Exactly the lost objects -/

section Exact

variable [Fintype Loc] [Fintype Obj] [DecidableEq Loc] [DecidableEq Obj]
variable {s t : State Loc Obj D} {l : Loc} {o : Obj}

omit [Fintype Obj] [DecidableEq Loc] in
theorem handlesOn_pos : 0 < s.handlesOn .shared o ↔ ∃ l, s.SharedAt l o := by
  unfold State.handlesOn State.SharedAt
  rw [Finset.card_pos]
  constructor
  · intro hmem
    obtain ⟨l, hl⟩ := hmem
    obtain ⟨⟨kind, ptr, cb⟩, hx, heq⟩ := Option.map_eq_some_iff.mp (Finset.mem_filter.mp hl).2
    cases heq
    exact ⟨l, ptr, hx⟩
  · intro hheld
    obtain ⟨l, ptr, hl⟩ := hheld
    exact ⟨l, Finset.mem_filter.mpr ⟨Finset.mem_univ l, by rw [hl]; rfl⟩⟩

namespace Sound

omit [Fintype Obj] [DecidableEq Loc] in
/-- No call of the deleter was made where the account has none. -/
theorem notMem_deleted (hzero : s.account o .deleted = 0) (del : D) : (o, del) ∉ s.deleted := by
  rw [account_deleted] at hzero
  intro hmem
  have hin : (o, del) ∈ s.deleted.filter fun e => e.1 = o := by simpa using hmem
  rw [List.eq_nil_of_length_eq_zero hzero] at hin
  cases hin

/-- An object with a shared handle was handed in and not deleted. -/
theorem undeleted_of_shared (h : Sound s) (hl : s.SharedAt l o) :
    (∃ del, s.handed o = some del) ∧ ∀ del, (o, del) ∉ s.deleted := by
  obtain ⟨ptr, hx⟩ := hl
  obtain ⟨blk, -, -, hdel, hm, hpos⟩ := h.live_of_handle hx rfl
  obtain ⟨huse, hstage, -⟩ := hm
  simp only [Kind.item] at hpos
  exact ⟨⟨blk.del, hdel⟩, notMem_deleted (by omega)⟩

/-- One whose deleter is about to be called has no shared handle, and was not
deleted. -/
theorem undeleted_of_deleting (h : Sound s) {del : D} (ho : .delete o del ∈ s.stack) :
    (∀ l, ¬ s.SharedAt l o) ∧ ∀ del, (o, del) ∉ s.deleted := by
  have hcall := s.entry_call_le ho o .delete
  simp only [Frame.item, entry_self, one, if_true] at hcall
  have hnone : s.account o .shared = 0 ∧ s.account o .deleted = 0 := by
    have hbal := h.balanced o
    rw [h.deleters o del (.inr ho)] at hbal
    cases hblk : s.block o with
    | none =>
      rw [hblk] at hbal
      cases hbal with
      | unmanaged hzero hcount =>
        rw [Option.toList_some, List.length_singleton] at hcount
        exact ⟨hzero _ (by decide) (by decide), by omega⟩
    | some blk =>
      obtain ⟨huse, hstage, -⟩ := h.managed hblk
      omega
  refine ⟨fun l hl => ?_, notMem_deleted hnone.2⟩
  obtain ⟨ptr, hx⟩ := hl
  have hpos := account_handle_pos hx rfl
  simp only [Kind.item] at hpos
  omega

/-- No object is deleted twice. -/
theorem nodup_deleted (h : Sound s) : (s.deleted.map Prod.fst).Nodup := by
  refine List.nodup_iff_count_le_one.mpr fun o => ?_
  have hcount : (s.deleted.map Prod.fst).count o = s.account o .deleted := by
    rw [account_deleted, List.count, List.countP_map, List.countP_eq_length_filter]
    rfl
  rw [hcount]
  have hbal := h.balanced o
  cases hblk : s.block o with
  | none =>
    rw [hblk] at hbal
    cases hbal with
    | unmanaged _ hdel => cases hh : s.handed o <;> rw [hh] at hdel <;> simp at hdel <;> omega
  | some blk =>
    obtain ⟨-, hstage, -⟩ := h.managed hblk
    omega

end Sound

namespace Unwound

omit [Fintype Loc] [Fintype Obj] [DecidableEq Loc] [DecidableEq Obj] in
/-- A shared handle that is still there was there before. -/
theorem sharedAt (h : Unwound s t) (hl : t.SharedAt l o) : s.SharedAt l o := by
  obtain ⟨ptr, hx⟩ := hl
  exact ⟨ptr, h.handle_of_some hx⟩

/-- An object with no shared handle left has been deleted, when the recursion is
done. -/
theorem deleted_of_unshared (h : Unwound s t) (ht : Sound t) (hdone : t.stack = []) {del : D}
    (hdel : s.handed o = some del) (hnone : ∀ l, ¬ t.SharedAt l o) : (o, del) ∈ t.deleted := by
  have hfilter := (ht.settled hdone).deleted o del (by rw [h.handed, hdel])
  rw [if_neg fun hpos => (handlesOn_pos.mp hpos).elim hnone] at hfilter
  have hmem : (o, del) ∈ t.deleted.filter fun e => e.1 = o := hfilter ▸ List.mem_singleton_self _
  exact List.mem_of_mem_filter hmem

omit [Fintype Loc] [Fintype Obj] [DecidableEq Loc] [DecidableEq Obj] in
/-- A handle whose destructor was to be called is gone, when the recursion is done, -/
theorem gone_of_dropping (h : Unwound s t) (hdone : t.stack = []) (hdrop : .drop l ∈ s.stack) :
    t.handle l = none := by
  refine (h.dropped l hdrop).resolve_right fun hpending => ?_
  rw [hdone] at hpending
  cases hpending

/-- and so is a member of an object that was disposed. -/
theorem gone_of_member (h : Unwound s t) (ht : Sound t) (hdone : t.stack = []) {del : D}
    (hdel : (o, del) ∈ t.deleted) (hl : l ∈ s.members o) : t.handle l = none := by
  rcases h.members o with hsame | ⟨-, hgone⟩
  · rw [← hsame, ht.emptied _ del hdel] at hl
    cases hl
  · refine (hgone l hl).resolve_right fun hpending => ?_
    rw [hdone] at hpending
    cases hpending

/-- Every lost object is disposed in the recursion. -/
theorem deleted_of_lost (h : Unwound s t) (hs : Sound s) (ht : Sound t) (hdone : t.stack = [])
    (ho : Lost s o) : (∃ del, (o, del) ∈ t.deleted) ∧ ∀ del, (o, del) ∉ s.deleted := by
  induction ho with
  | @refused o del hdelete =>
    obtain ⟨hunshared, hnew⟩ := hs.undeleted_of_deleting hdelete
    have hdel := hs.deleters o del (.inr hdelete)
    exact ⟨⟨del, h.deleted_of_unshared ht hdone hdel fun l hl => hunshared l (h.sharedAt hl)⟩, hnew⟩
  | @orphaned o owner hshared howner _ ih =>
    obtain ⟨l₀, hl₀⟩ := hshared
    obtain ⟨⟨del, hdel⟩, hnew⟩ := hs.undeleted_of_shared hl₀
    refine ⟨⟨del, h.deleted_of_unshared ht hdone hdel fun l hl => ?_⟩, hnew⟩
    have hgone : t.handle l = none := by
      by_cases hdrop : .drop l ∈ s.stack
      · exact h.gone_of_dropping hdone hdrop
      · -- Its owner was disposed, and took it along.
        obtain ⟨⟨d, hd⟩, -⟩ := ih l (h.sharedAt hl) hdrop
        exact h.gone_of_member ht hdone hd (howner l (h.sharedAt hl) hdrop)
    obtain ⟨ptr, hx⟩ := hl
    rw [hgone] at hx
    cases hx

/-- **Exactness**: what the recursion disposes is what was lost. -/
theorem disposed_iff (h : Unwound s t) (hs : Sound s) (ht : Sound t) (hdone : t.stack = []) :
    ∃ disposed, t.deleted = s.deleted ++ disposed ∧
      ∀ o, (∃ del, (o, del) ∈ disposed) ↔ Lost s o := by
  obtain ⟨disposed, hdisposed, hlost⟩ := h.deleted
  refine ⟨disposed, hdisposed, fun o => ⟨fun ⟨del, hdel⟩ => hlost _ hdel, fun ho => ?_⟩⟩
  obtain ⟨⟨del, hdel⟩, hnew⟩ := h.deleted_of_lost hs ht hdone ho
  rw [hdisposed] at hdel
  exact ⟨del, (List.mem_append.mp hdel).resolve_left (hnew del)⟩

end Unwound

end Exact

end CcSnippets.SharedPtr

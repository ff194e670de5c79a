import CcSnippets.Null.SharedPtr.Handles

/-!
# CcSnippets.Null.SharedPtr.Disposal

Disposal through `shared_ptr` **is exact**: the handle that an operation assigns has its
new value before anything is disposed, exactly the objects left without a shared owner
are, and a heap without cycles is gone with the last handle from outside.
-/

namespace CcSnippets.SharedPtr

open CcSnippets.Core

variable {Loc Obj D : Type*} [DecidableEq Loc] [DecidableEq Obj]
variable {s s' : State Loc Obj D}

/-! ### The new value -/

/-- What a handle refers to. -/
def Handle.value (h : Handle Obj) : Option Obj × Option Obj := (h.ptr, h.cb)

/-- The handle that an operation assigns, and what it refers to afterwards. -/
def Op.newValue (s : State Loc Obj D) : Op Loc Obj D → Option (Loc × (Option Obj × Option Obj))
  | .copyAssign _ dst src _ | .moveAssign dst src _ =>
    (s.handle src).map fun x => (dst, x.value)
  | .reset l ptr _ fails _ =>
    -- Where it throws, the handle is left alone.
    if fails && ptr.isSome then (s.handle l).map fun x => (l, x.value) else some (l, (ptr, ptr))
  | .weakReset l _ => some (l, (none, none))
  | _ => none

omit [DecidableEq Loc] [DecidableEq Obj] in
/-- What an operation promises of its handles gives the one it assigns the new value. -/
theorem Called.newValue {op : Op Loc Obj D} (h : Called op s s') {l : Loc}
    {v : Option Obj × Option Obj} (hv : op.newValue s = some (l, v)) :
    (s'.handle l).map Handle.value = some v := by
  have heffect := h.effect
  cases op with
  | allocate _ _ | defaultConstruct _ _ | construct _ _ _ _ | copyConstruct _ _ _
  | moveConstruct _ _ | destruct _ | swap _ _ | lock _ _ _ => cases hv
  | copyAssign kind dst src tmp =>
    obtain ⟨x, hx, heq⟩ := Option.map_eq_some_iff.mp hv
    cases heq
    rw [heffect.1, hx]
    rfl
  | moveAssign dst src tmp =>
    obtain ⟨x, hx, heq⟩ := Option.map_eq_some_iff.mp hv
    cases heq
    rw [heffect.1, hx]
    rfl
  | reset l ptr del fails tmp =>
    simp only [Op.newValue, Op.Effect] at hv heffect
    split at hv
    · rename_i hthrows
      rw [if_pos hthrows] at heffect
      obtain ⟨x, hx, heq⟩ := Option.map_eq_some_iff.mp hv
      cases heq
      rw [heffect.1, hx]
      rfl
    · rename_i hreturns
      rw [if_neg hreturns] at heffect
      cases hv
      rw [heffect.1]
      rfl
  | weakReset l tmp =>
    cases hv
    rw [heffect.1]
    rfl

/-! ### Heaps without cycles -/

/-- The object `p` has a `shared_ptr` member to the object `o`. -/
def State.Edge (s : State Loc Obj D) (p o : Obj) : Prop := ∃ l ∈ s.members p, s.SharedAt l o

/-- The `shared_ptr` members of objects form no cycle. -/
def State.Acyclic (s : State Loc Obj D) : Prop := ∀ o, ¬ Relation.TransGen s.Edge o o

/-- The only handles left are members of objects that were handed in. -/
def State.Enclosed (s : State Loc Obj D) : Prop :=
  ∀ l h, s.handle l = some h → ∃ p, l ∈ s.members p ∧ (s.handed p).isSome

omit [DecidableEq Loc] [DecidableEq Obj] in
/-- The recursion of destructors adds no edge. -/
theorem Unwound.acyclic {t : State Loc Obj D} (h : Unwound s t) (hs : s.Acyclic) : t.Acyclic := by
  intro o hcycle
  refine hs o (Relation.TransGen.mono (fun p q hedge => ?_) o o hcycle)
  obtain ⟨l, hl, hshared⟩ := hedge
  rcases h.members p with hsame | ⟨hnil, -⟩
  · exact ⟨l, hsame ▸ hl, h.sharedAt hshared⟩
  · rw [hnil] at hl
    cases hl

section Everything

variable [Fintype Loc] [Fintype Obj]

omit [DecidableEq Loc] [DecidableEq Obj] [Fintype Loc] in
/-- Objects can be taken with their owners before them. -/
theorem wellFounded_edge (h : s.Acyclic) : WellFounded s.Edge := by
  have htrans : WellFounded (Relation.TransGen s.Edge) := by
    have : IsTrans Obj (Relation.TransGen s.Edge) := ⟨fun _ _ _ => Relation.TransGen.trans⟩
    have : Std.Irrefl (Relation.TransGen s.Edge) := ⟨h⟩
    exact Finite.wellFounded_of_trans_of_irrefl _
  exact Subrelation.wf (fun hedge => Relation.TransGen.single hedge) htrans

/-- In an acyclic heap that no handle reaches from outside, nothing has an owner. -/
theorem not_sharedAt (h : Sound s) (hdone : s.stack = []) (hacyclic : s.Acyclic)
    (henclosed : s.Enclosed) (o : Obj) : ∀ l, ¬ s.SharedAt l o := by
  induction o using (wellFounded_edge hacyclic).induction with
  | _ o ih =>
    intro l hl
    obtain ⟨ptr, hx⟩ := hl
    obtain ⟨p, hp, hhanded⟩ := henclosed l _ hx
    obtain ⟨del, hdel⟩ := Option.isSome_iff_exists.mp hhanded
    -- The owner has no owner itself, so it was deleted; but its member lives.
    have hmem : (p, del) ∈ s.deleted :=
      (Unwound.of_done hdone).deleted_of_unshared h hdone hdel (ih p ⟨l, hp, ptr, hx⟩)
    rw [h.emptied p del hmem] at hp
    cases hp

/-- So everything is gone. -/
theorem everything_gone (h : Sound s) (hdone : s.stack = []) (hacyclic : s.Acyclic)
    (henclosed : s.Enclosed) {o : Obj} {del : D} (hdel : s.handed o = some del) :
    (o, del) ∈ s.deleted ∧ ∀ blk, s.block o = some blk → blk.destroyed = true := by
  have hdeleted : ∀ p d, s.handed p = some d → (p, d) ∈ s.deleted := fun p d hd =>
    (Unwound.of_done hdone).deleted_of_unshared h hdone hd
      (not_sharedAt h hdone hacyclic henclosed p)
  refine ⟨hdeleted o del hdel, fun blk hblk => ?_⟩
  -- No handle of any kind is left.
  have hvacant : ∀ l, s.handle l = none := by
    intro l
    refine Option.eq_none_iff_forall_ne_some.mpr fun x hx => ?_
    obtain ⟨p, hp, hhanded⟩ := henclosed l x hx
    obtain ⟨d, hd⟩ := Option.isSome_iff_exists.mp hhanded
    rw [h.emptied p d (hdeleted p d hd)] at hp
    cases hp
  have hnone : ∀ i, i ≠ .deleted → s.account o i = 0 := by
    intro i hi
    unfold State.account
    rw [hdone, s.deletions_eq, if_neg hi, tally_eq_zero.mpr fun l => by rw [hvacant l]; rfl]
    rfl
  obtain ⟨huse, hstage, hdestroy⟩ := h.managed hblk
  rw [hnone .shared (by decide), hnone .decUse (by decide)] at huse
  rw [hnone .weak (by decide), hnone .decWeak (by decide), hnone .dispose (by decide)] at hstage
  rw [hnone .destroy (by decide)] at hdestroy
  cases hd : blk.destroyed with
  | true => rfl
  | false =>
    rw [hd, Bool.toNat_false] at hdestroy
    omega

/-! ### Over every run -/

/-- **Disposal is exact.** Every operation that may be called does to its handles what it
promises, and gives the one it assigns the new value before any disposal; the recursion
of destructors that it sets off ends, disposes each object once at most, and disposes
exactly the objects left without a shared owner; no control block is touched after its
`destroy ()`; and if the heap has no cycles, then with the last handle from outside
everything is gone. -/
theorem disposal_exact (h : (system Loc Obj D).Reachable s) (hdone : s.stack = [])
    {op : Op Loc Obj D} (hok : op.Ok s) :
    ∃ s₁ s', next s (.call op) = some s₁ ∧ Called op s s₁ ∧ Returns s₁ s' ∧ Sweeps s₁ s' ∧
      (s₁.deleted = s.deleted ∧
        ∀ l v, op.newValue s = some (l, v) → (s₁.handle l).map Handle.value = some v) ∧
      ((s'.deleted.map Prod.fst).Nodup ∧ ∃ disposed, s'.deleted = s.deleted ++ disposed ∧
        ∀ o, (∃ del, (o, del) ∈ disposed) ↔ Lost s₁ o) ∧
      (∀ n t f k b, (system Loc Obj D).run s₁ (List.replicate n .step) = some t →
        t.stack = f :: k → f.touches = some b → ∃ blk, t.liveBlock b = some blk) ∧
      (s₁.Acyclic → s'.Enclosed → ∀ o del, s'.handed o = some del →
        (o, del) ∈ s'.deleted ∧ ∀ blk, s'.block o = some blk → blk.destroyed = true) := by
  obtain ⟨s₁, s', hnext, hcalled, hsound₁, ⟨n, hrun, hdone'⟩, hsound', hunwound⟩ :=
    exists_call (sound_of_reach h) hdone hok
  obtain ⟨disposed, hdisposed, hiff⟩ := hunwound.disposed_iff hsound₁ hsound' hdone'
  rw [hcalled.deleted] at hdisposed
  refine ⟨s₁, s', hnext, hcalled, ⟨n, hrun, hdone'⟩, hunwound.sweeps hsound₁ hsound' hdone',
    ⟨hcalled.deleted, fun l v hv => hcalled.newValue hv⟩,
    ⟨hsound'.nodup_deleted, disposed, hdisposed, hiff⟩, fun m t f k b hrun' hstack' hb => ?_,
    fun hacyclic henclosed o del hdel =>
      everything_gone hsound' hdone' (hunwound.acyclic hacyclic) henclosed hdel⟩
  have hreach : (system Loc Obj D).Reachable t :=
    System.Reach.run (.step (l := .call op) h trivial hnext) hrun'
  exact (sound_of_reach hreach).live_of_touches hstack' hb

/-- The head of a two-element list, which refers weakly to itself, is assigned its
own next element: a member of the object that the assignment disposes. -/
theorem disposal_exact_ownMember :
    ∃ s s₁ s' : State (Fin 4) (Fin 2) Unit,
      (system (Fin 4) (Fin 2) Unit).run .empty
        [.call (.allocate 0 [(1, .shared), (2, .weak)]), .call (.allocate 1 []),
          .call (.construct 0 (some 0) () false), .call (.reset 1 (some 1) () false 3), .step,
          .call (.copyAssign .weak 2 0 3), .step] = some s ∧
      next s (.call (.copyAssign .shared 0 1 3)) = some s₁ ∧ Returns s₁ s' ∧
      (s₁.handle 0).map Handle.value = some (some 1, some 1) ∧
      ∀ o, (∃ del, (o, del) ∈ s'.deleted) ↔ Lost s₁ o := by
  obtain ⟨s, hrun, hdone, hok, hvalue, hnew⟩ : ∃ s, (system (Fin 4) (Fin 2) Unit).run .empty
      [.call (.allocate 0 [(1, .shared), (2, .weak)]), .call (.allocate 1 []),
        .call (.construct 0 (some 0) () false), .call (.reset 1 (some 1) () false 3), .step,
        .call (.copyAssign .weak 2 0 3), .step] = some s ∧ s.stack = [] ∧
      (Op.copyAssign .shared 0 1 3).Ok s ∧
      (Op.copyAssign .shared 0 1 3).newValue s = some (0, (some 1, some 1)) ∧ s.deleted = [] :=
    ⟨_, rfl, rfl, by decide, rfl, rfl⟩
  obtain ⟨s₁, s', hcall, -, hreturns, -, ⟨-, hassigned⟩, ⟨-, disposed, hdeleted, hlost⟩, -⟩ :=
    disposal_exact (System.Reach.run (.init rfl) hrun) hdone hok
  rw [hnew, List.nil_append] at hdeleted
  exact ⟨s, s₁, s', hrun, hcall, hreturns, hassigned 0 _ hvalue, hdeleted ▸ hlost⟩

end Everything

end CcSnippets.SharedPtr

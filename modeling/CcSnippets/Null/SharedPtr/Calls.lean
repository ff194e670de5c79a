import CcSnippets.Null.SharedPtr.Basic

/-!
# CcSnippets.Null.SharedPtr.Calls

Every operation **does to the handles it names what it promises** (`Called`), before the
destructor of what it gives up runs, if any.

The assignments and the resets end alike: the temporary is swapped with the target and
destroyed (`handle_swapInto`), so the target has what the temporary had, and what the
target had is about to be given up.
-/

namespace CcSnippets.SharedPtr

open CcSnippets.Core

variable {Loc Obj D : Type*}

/-- A handle that refers to nothing. -/
def Handle.null (kind : Kind) : Handle Obj := ⟨kind, none, none⟩

/-- A handle of this kind that refers to the same. -/
def Handle.toKind (x : Handle Obj) (kind : Kind) : Handle Obj := { x with kind := kind }

/-- `use_count ()`. -/
def State.useCount (s : State Loc Obj D) (x : Handle Obj) : ℤ :=
  match x.cb.bind s.liveBlock with
  | some blk => blk.counts.useCount
  | none => 0

/-- The places an operation names. -/
def Op.places : Op Loc Obj D → List Loc
  | .allocate _ members => members.map Prod.fst
  | .defaultConstruct _ l | .construct l _ _ _ | .destruct l => [l]
  | .copyConstruct _ l src | .moveConstruct l src | .lock l src _ => [l, src]
  | .copyAssign _ dst src tmp | .moveAssign dst src tmp => [dst, src, tmp]
  | .swap a b => [a, b]
  | .reset l _ _ _ tmp | .weakReset l tmp => [l, tmp]

/-- What an operation does to the handles it names, before the destructor of the handle
it gives up runs. -/
def Op.Effect (s s' : State Loc Obj D) : Op Loc Obj D → Prop
  | .allocate _ members => ∀ m ∈ members, s'.handle m.1 = some (.null m.2)
  | .defaultConstruct kind l => s'.handle l = some (.null kind)
  | .construct l ptr _ fails =>
    s'.handle l = if fails && ptr.isSome then s.handle l else some ⟨.shared, ptr, ptr⟩
  | .copyConstruct kind l src =>
    s'.handle l = (s.handle src).map (·.toKind kind) ∧ s'.handle src = s.handle src
  | .moveConstruct l src =>
    s'.handle l = s.handle src ∧ s'.handle src = (s.handle src).map fun x => .null x.kind
  | .destruct l => s'.handle l = s.handle l
  | .copyAssign kind dst src tmp =>
    s'.handle dst = (s.handle src).map (·.toKind kind) ∧ s'.handle tmp = s.handle dst ∧
      (src ≠ dst → s'.handle src = s.handle src)
  | .moveAssign dst src tmp =>
    s'.handle dst = s.handle src ∧
      (src = dst → s'.handle tmp = (s.handle src).map fun x => .null x.kind) ∧
      (src ≠ dst → s'.handle tmp = s.handle dst ∧
        s'.handle src = (s.handle src).map fun x => .null x.kind)
  | .swap a b => s'.handle a = s.handle b ∧ s'.handle b = s.handle a
  | .reset l ptr _ fails tmp =>
    if fails && ptr.isSome then s'.handle l = s.handle l ∧ s'.handle tmp = s.handle tmp
    else s'.handle l = some ⟨.shared, ptr, ptr⟩ ∧ s'.handle tmp = s.handle l
  | .weakReset l tmp => s'.handle l = some (.null .weak) ∧ s'.handle tmp = s.handle l
  | .lock l src _ =>
    s'.handle src = s.handle src ∧ s'.handle l = (s.handle src).map fun x =>
      if s.useCount x = 0 then .null .shared else x.toKind .shared

/-- The calls an operation leaves to be made: the destructor of the handle it gives up,
or the deleter where it throws. -/
def Op.calls : Op Loc Obj D → List (Frame Loc Obj D)
  | .destruct l => [.drop l]
  | .copyAssign _ _ _ tmp | .moveAssign _ _ tmp | .weakReset _ tmp => [.drop tmp]
  | .construct _ ptr del fails => if fails then ptr.toList.map (.delete · del) else []
  | .reset _ ptr del fails tmp =>
    if fails && ptr.isSome then ptr.toList.map (.delete · del) else [.drop tmp]
  | .allocate _ _ | .defaultConstruct _ _ | .copyConstruct _ _ _ | .moveConstruct _ _
  | .swap _ _ | .lock _ _ _ => []

/-- A call of `op`, up to the calls it leaves to be made. -/
structure Called (op : Op Loc Obj D) (s s' : State Loc Obj D) : Prop where
  effect : op.Effect s s'
  others : ∀ l, l ∉ op.places → s'.handle l = s.handle l
  stack : s'.stack = op.calls
  deleted : s'.deleted = s.deleted

theorem Op.calls_cases (op : Op Loc Obj D) :
    ∀ f ∈ op.calls, (∃ l, f = .drop l) ∨ ∃ o del, f = .delete o del := by
  have hdelete : ∀ (ptr : Option Obj) (del : D), ∀ f ∈ ptr.toList.map (.delete · del),
      ∃ o del, f = (.delete o del : Frame Loc Obj D) := by
    intro ptr del f hf
    obtain ⟨o, -, rfl⟩ := List.mem_map.mp hf
    exact ⟨o, del, rfl⟩
  intro f hf
  cases op with
  | allocate _ _ | defaultConstruct _ _ | copyConstruct _ _ _ | moveConstruct _ _ | swap _ _
  | lock _ _ _ => cases hf
  | destruct l | weakReset _ l | moveAssign _ _ l | copyAssign _ _ _ l =>
    exact .inl ⟨l, List.mem_singleton.mp hf⟩
  | construct l ptr del fails =>
    simp only [Op.calls] at hf
    split at hf
    · exact .inr (hdelete ptr del f hf)
    · cases hf
  | reset l ptr del fails tmp =>
    simp only [Op.calls] at hf
    split at hf
    · exact .inr (hdelete ptr del f hf)
    · exact .inl ⟨tmp, List.mem_singleton.mp hf⟩

/-! ### The calls -/

variable {s s₁ s' : State Loc Obj D}

/-- A handle lives where no vacant place is. -/
theorem ne_of_vacant {l m : Loc} {x : Handle Obj} (hl : s.Vacant l) (hm : s.handle m = some x) :
    m ≠ l := by
  intro heq
  subst heq
  rw [Option.isNone_iff_eq_none.mp hl] at hm
  cases hm

theorem exists_of_holds {kind : Kind} {l : Loc} (h : s.Holds kind l) :
    ∃ x, s.handle l = some x ∧ x.kind = kind := Option.map_eq_some_iff.mp h

/-- A move or a swap is between handles of one kind. -/
theorem exists_of_same_kind {a b : Loc}
    (h : s.Holds .shared a ∧ s.Holds .shared b ∨ s.Holds .weak a ∧ s.Holds .weak b) :
    ∃ x y, s.handle a = some x ∧ s.handle b = some y ∧ x.kind = y.kind := by
  rcases h with ⟨ha, hb⟩ | ⟨ha, hb⟩ <;>
  · obtain ⟨x, hx, hxkind⟩ := exists_of_holds ha
    obtain ⟨y, hy, hykind⟩ := exists_of_holds hb
    exact ⟨x, y, hx, hy, hxkind.trans hykind.symm⟩

variable [DecidableEq Loc]

/-- **Swap with the temporary and destroy it**: the common end of the assignments and of
the resets. -/
theorem handle_swapInto {tmp dst : Loc} {x y : Handle Obj}
    (h : (swap s₁ tmp dst).bind (fun s => some (destruct s tmp)) = some s')
    (hx : s₁.handle tmp = some x) (hy : s₁.handle dst = some y) (hkind : x.kind = y.kind)
    (hne : dst ≠ tmp) :
    s'.handle dst = some x ∧ s'.handle tmp = some y ∧
      (∀ l, l ≠ tmp → l ≠ dst → s'.handle l = s₁.handle l) ∧
      s'.stack = .drop tmp :: s₁.stack ∧ s'.deleted = s₁.deleted := by
  obtain ⟨s₂, hswap, heq⟩ := Option.bind_eq_some_iff.mp h
  obtain rfl := Option.some.inj heq
  obtain ⟨x', y', hx', hy', rfl⟩ := swap_eq hswap
  obtain rfl : x = x' := Option.some.inj (hx.symm.trans hx')
  obtain rfl : y = y' := Option.some.inj (hy.symm.trans hy')
  refine ⟨?_, ?_, fun l htmp hdst => ?_, rfl, rfl⟩
  · show ((State.setHandle _ dst _).handle dst) = _
    rw [State.setHandle_handle_self, ← hkind]
  · show ((State.setHandle _ dst _).handle tmp) = _
    rw [State.setHandle_handle_of_ne _ hne.symm, State.setHandle_handle_self, hkind]
  · show ((State.setHandle _ dst _).handle l) = _
    rw [State.setHandle_handle_of_ne _ hdst, State.setHandle_handle_of_ne _ htmp]

/-- The member handles of an object come to life. -/
theorem constructMembers_handle (handle : Loc → Option (Handle Obj)) {members : List (Loc × Kind)}
    (h : (members.map Prod.fst).Nodup) :
    (∀ m ∈ members, constructMembers handle members m.1 = some (.null m.2)) ∧
      ∀ l, l ∉ members.map Prod.fst → constructMembers handle members l = handle l := by
  induction members generalizing handle with
  | nil => exact ⟨fun m hm => (List.not_mem_nil hm).elim, fun _ _ => rfl⟩
  | cons member members ih =>
    obtain ⟨l, kind⟩ := member
    obtain ⟨hnew, hrest⟩ := List.nodup_cons.mp h
    obtain ⟨hmembers, hothers⟩ :=
      ih (Function.update handle l (some ⟨kind, none, none⟩)) hrest
    refine ⟨fun m hm => ?_, fun k hk => ?_⟩
    · rcases List.mem_cons.mp hm with rfl | hm
      · exact (hothers l hnew).trans (Function.update_self _ _ _)
      · exact hmembers m hm
    · rw [List.map_cons, List.mem_cons, not_or] at hk
      exact (hothers k hk.2).trans (Function.update_of_ne hk.1 _ _)

variable [DecidableEq Obj]

/-- `lock` grants a handle where the use count is not zero. -/
theorem lock_handle {l src : Loc} {failures : ℕ} (h : lock s l src failures = some s') :
    ∃ x, s.handle src = some x ∧ s'.handle = Function.update s.handle l
      (some (if s.useCount x = 0 then .null .shared else x.toKind .shared)) := by
  unfold lock at h
  cases hx : s.handle src with
  | none =>
    rw [hx] at h
    cases h
  | some x =>
    obtain ⟨kind, ptr, cb⟩ := x
    rw [hx] at h
    refine ⟨_, rfl, ?_⟩
    cases cb with
    | none =>
      obtain rfl := Option.some.inj h
      rfl
    | some b =>
      dsimp only at h
      cases hlive : s.liveBlock b with
      | none =>
        rw [hlive] at h
        cases h
      | some blk =>
        have hcount : s.useCount (⟨kind, ptr, some b⟩ : Handle Obj) = blk.counts.useCount := by
          simp only [State.useCount, Option.bind_some, hlive]
        rw [hlive] at h
        dsimp only at h
        rw [ControlBlock.lockUseCount_eq] at h
        rw [hcount]
        split_ifs at h ⊢ with hzero
        · obtain rfl := Option.some.inj h
          rfl
        · obtain rfl := Option.some.inj h
          rfl

/-- **Every operation does what it promises.** -/
theorem called_of_run (hdone : s.stack = []) {op : Op Loc Obj D} (hok : op.Ok s)
    (h : op.run s = some s') : Called op s s' := by
  cases op with
  | allocate o members =>
    obtain rfl := Option.some.inj h
    obtain ⟨hmembers, hothers⟩ := constructMembers_handle s.handle hok.2.1
    exact ⟨hmembers, hothers, hdone, rfl⟩
  | defaultConstruct kind l =>
    obtain rfl := Option.some.inj h
    exact ⟨Function.update_self _ _ _,
      fun m hm => Function.update_of_ne (by simpa [Op.places] using hm) _ _, hdone, rfl⟩
  | construct l ptr del fails =>
    obtain rfl := Option.some.inj h
    cases hc : construct s l ptr del fails with
    | mk s₁ thrown =>
      cases thrown with
      | true =>
        obtain ⟨rfl, o, rfl, rfl⟩ := construct_throws hc
        exact ⟨rfl, fun _ _ => rfl, congrArg (_ :: ·) hdone, rfl⟩
      | false =>
        obtain ⟨hreturns, handed, block, rfl⟩ := construct_returns hc
        refine ⟨?_, fun m hm => Function.update_of_ne (by simpa [Op.places] using hm) _ _, ?_, rfl⟩
        · simp only [Op.Effect, hreturns]
          exact Function.update_self _ _ _
        · refine hdone.trans ?_
          cases fails <;> cases ptr <;> first | rfl | cases hreturns
  | copyConstruct kind l src =>
    obtain ⟨x, block, hx, rfl⟩ := copyConstruct_eq h
    have hne : src ≠ l := ne_of_vacant hok.1 hx
    refine ⟨⟨?_, Function.update_of_ne hne _ _⟩, fun m hm => ?_, hdone, rfl⟩
    · rw [hx]
      exact Function.update_self _ _ _
    · simp only [Op.places, List.mem_cons, List.not_mem_nil, or_false, not_or] at hm
      exact Function.update_of_ne hm.1 _ _
  | moveConstruct l src =>
    obtain ⟨x, hx, rfl⟩ := moveConstruct_eq h
    have hne : src ≠ l := ne_of_vacant hok.1 hx
    refine ⟨⟨?_, ?_⟩, fun m hm => ?_, hdone, rfl⟩
    · rw [State.setHandle_handle_self, hx]
    · rw [State.setHandle_handle_of_ne _ hne, State.setHandle_handle_self, hx]
      rfl
    · simp only [Op.places, List.mem_cons, List.not_mem_nil, or_false, not_or] at hm
      rw [State.setHandle_handle_of_ne _ hm.1, State.setHandle_handle_of_ne _ hm.2]
  | destruct l =>
    obtain rfl := Option.some.inj h
    exact ⟨rfl, fun _ _ => rfl, congrArg (_ :: ·) hdone, rfl⟩
  | copyAssign kind dst src tmp =>
    obtain ⟨htmp, hdst, -⟩ := hok
    obtain ⟨y, hy, hykind⟩ := exists_of_holds hdst
    obtain ⟨s₁, hs₁, hswap⟩ := Option.bind_eq_some_iff.mp h
    obtain ⟨x, block, hx, rfl⟩ := copyConstruct_eq hs₁
    have hne := ne_of_vacant htmp hy
    obtain ⟨hto, hfrom, hothers, hstack, hdeleted⟩ := handle_swapInto hswap
      (Function.update_self _ _ _) ((Function.update_of_ne hne _ _).trans hy) hykind.symm hne
    have hsame : ∀ l, l ≠ tmp → l ≠ dst → s'.handle l = s.handle l := fun l hl hl' =>
      (hothers l hl hl').trans (Function.update_of_ne hl _ _)
    refine ⟨⟨?_, hfrom.trans hy.symm, fun hsrc => hsame src (ne_of_vacant htmp hx) hsrc⟩,
      fun m hm => ?_, hstack.trans (congrArg (_ :: ·) hdone), hdeleted⟩
    · rw [hto, hx]
      rfl
    · simp only [Op.places, List.mem_cons, List.not_mem_nil, or_false, not_or] at hm
      exact hsame m hm.2.2 hm.1
  | moveAssign dst src tmp =>
    obtain ⟨htmp, hkinds⟩ := hok
    obtain ⟨y, x, hy, hx, hkind⟩ := exists_of_same_kind hkinds
    obtain ⟨s₁, hs₁, hswap⟩ := Option.bind_eq_some_iff.mp h
    obtain ⟨x', hx', rfl⟩ := moveConstruct_eq hs₁
    obtain rfl : x = x' := Option.some.inj (hx.symm.trans hx')
    have hne := ne_of_vacant htmp hy
    have hsrc := ne_of_vacant htmp hx
    by_cases hself : src = dst
    · subst hself
      obtain ⟨hto, hfrom, hothers, hstack, hdeleted⟩ := handle_swapInto hswap
        (State.setHandle_handle_self _ _ _)
        ((State.setHandle_handle_of_ne _ hsrc _).trans (State.setHandle_handle_self _ _ _)) rfl hsrc
      refine ⟨⟨hto.trans hx.symm, fun _ => ?_, fun hno => absurd rfl hno⟩, fun m hm => ?_,
        hstack.trans (congrArg (_ :: ·) hdone), hdeleted⟩
      · rw [hfrom, hx]
        rfl
      · simp only [Op.places, List.mem_cons, List.not_mem_nil, or_false, not_or] at hm
        rw [hothers m hm.2.2 hm.1, State.setHandle_handle_of_ne _ hm.2.2,
          State.setHandle_handle_of_ne _ hm.1]
    · obtain ⟨hto, hfrom, hothers, hstack, hdeleted⟩ := handle_swapInto hswap
        (State.setHandle_handle_self _ _ _)
        ((State.setHandle_handle_of_ne _ hne _).trans
          ((State.setHandle_handle_of_ne _ (Ne.symm hself) _).trans hy)) hkind.symm hne
      refine ⟨⟨hto.trans hx.symm, fun heq => absurd heq hself, fun _ => ⟨hfrom.trans hy.symm, ?_⟩⟩,
        fun m hm => ?_, hstack.trans (congrArg (_ :: ·) hdone), hdeleted⟩
      · rw [hothers src hsrc hself, State.setHandle_handle_of_ne _ hsrc,
          State.setHandle_handle_self, hx]
        rfl
      · simp only [Op.places, List.mem_cons, List.not_mem_nil, or_false, not_or] at hm
        rw [hothers m hm.2.2 hm.1, State.setHandle_handle_of_ne _ hm.2.2,
          State.setHandle_handle_of_ne _ hm.2.1]
  | swap a b =>
    obtain ⟨x, y, hx, hy, rfl⟩ := swap_eq h
    obtain ⟨x', y', hx', hy', hkind⟩ := exists_of_same_kind hok
    obtain rfl := Option.some.inj (hx.symm.trans hx')
    obtain rfl := Option.some.inj (hy.symm.trans hy')
    refine ⟨⟨?_, ?_⟩, fun m hm => ?_, hdone, rfl⟩
    · by_cases hab : a = b
      · subst hab
        obtain rfl := Option.some.inj (hx.symm.trans hy)
        rw [State.setHandle_handle_self, hx]
      · rw [State.setHandle_handle_of_ne _ hab, State.setHandle_handle_self, hkind, hy]
    · rw [State.setHandle_handle_self, ← hkind, hx]
    · simp only [Op.places, List.mem_cons, List.not_mem_nil, or_false, not_or] at hm
      rw [State.setHandle_handle_of_ne _ hm.2, State.setHandle_handle_of_ne _ hm.1]
  | reset l ptr del fails tmp =>
    obtain ⟨hl, -, htmp⟩ := hok
    obtain ⟨y, hy, hykind⟩ := exists_of_holds hl
    have hne := ne_of_vacant htmp hy
    simp only [Op.run, reset] at h
    cases hc : construct s tmp ptr del fails with
    | mk s₁ thrown =>
      rw [hc] at h
      cases thrown with
      | true =>
        obtain rfl := Option.some.inj h
        obtain ⟨rfl, o, rfl, rfl⟩ := construct_throws hc
        exact ⟨⟨rfl, rfl⟩, fun _ _ => rfl, congrArg (_ :: ·) hdone, rfl⟩
      | false =>
        obtain ⟨hreturns, handed, block, rfl⟩ := construct_returns hc
        obtain ⟨hto, hfrom, hothers, hstack, hdeleted⟩ := handle_swapInto h
          (Function.update_self _ _ _) ((Function.update_of_ne hne _ _).trans hy) hykind.symm hne
        refine ⟨?_, fun m hm => ?_, ?_, hdeleted⟩
        · simp only [Op.Effect, hreturns]
          exact ⟨hto, hfrom.trans hy.symm⟩
        · simp only [Op.places, List.mem_cons, List.not_mem_nil, or_false, not_or] at hm
          exact (hothers m hm.2 hm.1).trans (Function.update_of_ne hm.2 _ _)
        · simp only [Op.calls, hreturns]
          exact hstack.trans (congrArg (_ :: ·) hdone)
  | weakReset l tmp =>
    obtain ⟨hl, htmp⟩ := hok
    obtain ⟨y, hy, hykind⟩ := exists_of_holds hl
    have hne := ne_of_vacant htmp hy
    obtain ⟨hto, hfrom, hothers, hstack, hdeleted⟩ := handle_swapInto h
      (State.setHandle_handle_self _ _ _) ((State.setHandle_handle_of_ne _ hne _).trans hy)
      hykind.symm hne
    refine ⟨⟨hto, hfrom.trans hy.symm⟩, fun m hm => ?_,
      hstack.trans (congrArg (_ :: ·) hdone), hdeleted⟩
    simp only [Op.places, List.mem_cons, List.not_mem_nil, or_false, not_or] at hm
    rw [hothers m hm.2 hm.1]
    exact State.setHandle_handle_of_ne _ hm.2 _
  | lock l src failures =>
    obtain ⟨y, hy, -⟩ := exists_of_holds hok.2
    have hne := ne_of_vacant hok.1 hy
    obtain ⟨x, hx, hhandle⟩ := lock_handle h
    obtain ⟨_, block, heq⟩ := lock_eq h
    refine ⟨⟨?_, ?_⟩, fun m hm => ?_, ?_, ?_⟩
    · rw [hhandle, Function.update_of_ne hne]
    · rw [hhandle, Function.update_self, hx]
      rfl
    · simp only [Op.places, List.mem_cons, List.not_mem_nil, or_false, not_or] at hm
      rw [hhandle, Function.update_of_ne hm.1]
    · rw [heq]
      exact hdone
    · rw [heq]

end CcSnippets.SharedPtr

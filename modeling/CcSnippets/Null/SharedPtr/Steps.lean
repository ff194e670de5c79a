import CcSnippets.Null.SharedPtr.Sound

/-!
# CcSnippets.Null.SharedPtr.Steps

Every step of handles in one thread is **enabled and keeps the invariant**: the
operations, put together from the constructors, `swap` and the destructor of the
temporary as in the source, and the calls on the stack.
-/

namespace CcSnippets.SharedPtr

open CcSnippets.Core

variable {Loc Obj D : Type*} [Fintype Loc] [Fintype Obj] [DecidableEq Loc] [DecidableEq Obj]
variable {s s' : State Loc Obj D}

/-! ### The operations -/

namespace Sound

/-- `swap` with a temporary that is then destroyed. -/
theorem swapDestruct (h : Sound s) {kind : Kind} {dst tmp : Loc} (htmp : s.Holds kind tmp)
    (hdst : s.Holds kind dst) (hclaims : s.claims tmp = 0) :
    ∃ s₁, SharedPtr.swap s tmp dst = some s₁ ∧ Sound (SharedPtr.destruct s₁ tmp) := by
  obtain ⟨s₁, hs₁, hsound⟩ := h.swap htmp hdst
  refine ⟨s₁, hs₁, hsound.destruct ?_ ?_⟩
  · obtain ⟨x, y, -, -, rfl⟩ := swap_eq hs₁
    exact isSome_update _ tmp (by rw [State.setHandle_handle_self]; rfl)
  · obtain ⟨x, y, -, -, rfl⟩ := swap_eq hs₁
    exact hclaims

/-- A temporary of this kind is made at a vacant place; the handle to be assigned
is another one. -/
theorem assign (h : Sound s) {kind : Kind} {dst tmp : Loc} {x : Handle Obj}
    {handle : Loc → Option (Handle Obj)} {block : Obj → Option (Block D)}
    {handed : Obj → Option D} (hvacant : s.Vacant tmp) (hdst : s.Holds kind dst)
    (hx : x.kind = kind)
    (hhandle : ∀ m, s.Holds kind m → (handle m).map Handle.kind = some kind)
    (hs' : s' = { s with
      handle := Function.update handle tmp (some x), block := block, handed := handed })
    (hsound : Sound s') :
    ∃ s₁, SharedPtr.swap s' tmp dst = some s₁ ∧ Sound (SharedPtr.destruct s₁ tmp) := by
  have hne : dst ≠ tmp := by
    intro heq
    unfold State.Holds at hdst
    rw [heq, Option.isNone_iff_eq_none.mp hvacant] at hdst
    cases hdst
  subst hs'
  refine hsound.swapDestruct (?_ : State.Holds _ kind tmp) ?_ (h.claims_vacant hvacant)
  · show (Function.update handle tmp (some x) tmp).map Handle.kind = some kind
    rw [Function.update_self, Option.map_some, hx]
  · show (Function.update handle tmp (some x) dst).map Handle.kind = some kind
    rw [Function.update_of_ne hne]
    exact hhandle dst hdst

/-- Every operation a program may call goes through, up to the destruction of what
it gives up. -/
theorem run (h : Sound s) (hstack : s.stack = []) {op : Op Loc Obj D} (hok : op.Ok s) :
    ∃ s', op.run s = some s' ∧ Sound s' := by
  cases op with
  | allocate o members =>
    obtain ⟨hnew, hnodup, hvacant⟩ := hok
    exact ⟨_, rfl, h.allocate hnew hnodup hvacant⟩
  | defaultConstruct kind l => exact ⟨_, rfl, h.defaultConstruct hok kind⟩
  | construct l ptr del fails => exact ⟨_, rfl, h.construct hok.1 hok.2 del fails⟩
  | copyConstruct kind l src => exact h.copyConstruct hok.1 hok.2
  | moveConstruct l src => exact h.moveConstruct hok.1 hok.2
  | destruct l =>
    obtain ⟨hlive, hout⟩ := hok
    -- no call is in progress, and no object has the place among its members
    refine ⟨_, rfl, h.destruct ?_ (s.claims_eq_zero hstack hout)⟩
    exact Option.isSome_iff_ne_none.mpr fun hnone => hlive (Option.isNone_iff_eq_none.mpr hnone)
  | copyAssign kind dst src tmp =>
    obtain ⟨hvacant, hdst, hsrc⟩ := hok
    -- copy into the temporary, swap it with the target, destroy it
    obtain ⟨s₁, hs₁, hsound⟩ := h.copyConstruct hvacant hsrc
    obtain ⟨x, block, -, heq⟩ := copyConstruct_eq hs₁
    obtain ⟨s₂, hs₂, hsound₂⟩ := h.assign hvacant hdst rfl (fun m hm => hm) heq hsound
    refine ⟨SharedPtr.destruct s₂ tmp, ?_, hsound₂⟩
    simp only [Op.run, copyAssign, hs₁, hs₂, Option.bind_eq_bind, Option.bind_some, Option.pure_def]
  | moveAssign dst src tmp =>
    obtain ⟨hvacant, hkinds⟩ := hok
    obtain ⟨kind, hdst, hsrc⟩ : ∃ kind, s.Holds kind dst ∧ s.Holds kind src :=
      hkinds.elim (fun h => ⟨_, h⟩) fun h => ⟨_, h⟩
    obtain ⟨x, hx, hxk⟩ := Option.map_eq_some_iff.mp hsrc
    have hlive : ¬ s.Vacant src := by
      unfold State.Vacant
      rw [hx]
      exact Bool.false_ne_true
    obtain ⟨s₁, hs₁, hsound⟩ := h.moveConstruct hvacant hlive
    obtain ⟨y, hy, heq⟩ := moveConstruct_eq hs₁
    obtain rfl : x = y := Option.some.inj (hx.symm.trans hy)
    -- The target may be the source itself, which is null now.
    have hkeep : ∀ m, s.Holds kind m →
        ((s.setHandle src (some ⟨x.kind, none, none⟩)).handle m).map Handle.kind = some kind := by
      intro m hm
      by_cases hms : m = src
      · rw [hms, State.setHandle_handle_self]
        exact congrArg some hxk
      · rw [s.setHandle_handle_of_ne hms]
        exact hm
    obtain ⟨s₂, hs₂, hsound₂⟩ := h.assign hvacant hdst hxk hkeep heq hsound
    refine ⟨SharedPtr.destruct s₂ tmp, ?_, hsound₂⟩
    simp only [Op.run, moveAssign, hs₁, hs₂, Option.bind_eq_bind, Option.bind_some, Option.pure_def]
  | swap a b =>
    rcases hok with ⟨ha, hb⟩ | ⟨ha, hb⟩
    · exact h.swap ha hb
    · exact h.swap ha hb
  | reset l ptr del fails tmp =>
    obtain ⟨hdst, hfresh, hvacant⟩ := hok
    have hsound := h.construct hvacant hfresh del fails
    simp only [Op.run, reset]
    cases hc : SharedPtr.construct s tmp ptr del fails with
    | mk s₁ thrown =>
      rw [hc] at hsound
      cases thrown with
      -- the target keeps its handle, and the deleter is to be called
      | true => exact ⟨_, rfl, hsound⟩
      | false =>
        obtain ⟨-, handed, block, heq⟩ := construct_returns hc
        obtain ⟨s₂, hs₂, hsound₂⟩ := h.assign hvacant hdst rfl (fun m hm => hm) heq hsound
        refine ⟨SharedPtr.destruct s₂ tmp, ?_, hsound₂⟩
        simp only [hs₂, Option.bind_eq_bind, Option.bind_some, Option.pure_def]
  | weakReset l tmp =>
    obtain ⟨hdst, hvacant⟩ := hok
    obtain ⟨s₂, hs₂, hsound₂⟩ :=
      h.assign hvacant hdst rfl (fun m hm => hm) rfl (h.defaultConstruct hvacant .weak)
    replace hs₂ : SharedPtr.swap (SharedPtr.defaultConstruct s .weak tmp) tmp l = some s₂ := hs₂
    refine ⟨SharedPtr.destruct s₂ tmp, ?_, hsound₂⟩
    simp only [Op.run, weakReset, hs₂, Option.bind_eq_bind, Option.bind_some, Option.pure_def]
  | lock l src failures => exact h.lock hok.1 hok.2 failures

/-! ### The calls of the stack -/

/-- A call that destroys no handle itself, and calls none that do. -/
theorem of_call (h : Sound s) {f : Frame Loc Obj D} {k : List (Frame Loc Obj D)}
    (fs : List (Frame Loc Obj D)) {block : Obj → Option (Block D)} (hstack : s.stack = f :: k)
    (hplace : f.place = none) (hplaces : ∀ g ∈ fs, g.place = none)
    (hdelete : ∀ o d, .delete o d ∈ fs → s.handed o = some d)
    (hbalanced : ∀ o, Balanced (block o) (s.handed o)
      (({ s with block := block, stack := fs ++ k } : State Loc Obj D).account o)) :
    Sound { s with block := block, stack := fs ++ k } where
  balanced := hbalanced
  claimed l := by
    have hbefore := s.claims_stack_cons hstack l
    have hnone : fs.countP (fun g => g.place = some l) = 0 := by
      refine List.countP_eq_zero.mpr fun g hg => ?_
      rw [hplaces g hg]
      simp
    rw [hplace, if_neg (by simp)] at hbefore
    have hclaimed := h.claimed l
    unfold State.claims at hbefore hclaimed ⊢
    rw [List.countP_append, hnone]
    dsimp only at hbefore hclaimed ⊢
    omega
  pointed := h.pointed
  deleters o d hd := by
    rcases hd with hd | hd
    · exact h.deleters o d (.inl hd)
    · rcases List.mem_append.mp hd with hd | hd
      · exact hdelete o d hd
      · exact h.deleters o d (.inr (hstack ▸ List.mem_cons_of_mem f hd))
  fresh := h.fresh
  emptied := h.emptied

variable {b : Obj} {k : List (Frame Loc Obj D)}

/-- The control block of the call on top was not destroyed. -/
theorem live_of_call (h : Sound s) {f : Frame Loc Obj D} {i : Item} (hstack : s.stack = f :: k)
    (hf : f.item = some (i, b)) (hdelete : i ≠ .delete) (hdeleted : i ≠ .deleted) :
    ∃ blk, s.block b = some blk ∧ s.liveBlock b = some blk ∧ s.handed b = some blk.del ∧
      Managed blk (s.account b) := by
  refine h.live_of_account (i := i) ?_ hdelete hdeleted
  have hacc := s.account_stack_cons hstack b i
  rw [hf, entry_self, one, if_pos rfl] at hacc
  omega

/-- So every control block that a call touches is there. -/
theorem live_of_touches (h : Sound s) {f : Frame Loc Obj D} (hstack : s.stack = f :: k)
    (hb : f.touches = some b) : ∃ blk, s.liveBlock b = some blk := by
  obtain ⟨i, hi, hdelete, hdeleted⟩ : ∃ i, f.item = some (i, b) ∧ i ≠ .delete ∧ i ≠ .deleted := by
    cases f with
    | drop l => cases hb
    | delete o del => cases hb
    | _ =>
      cases hb
      exact ⟨_, rfl, by decide, by decide⟩
  obtain ⟨blk, -, hlive, -⟩ := h.live_of_call hstack hi hdelete hdeleted
  exact ⟨blk, hlive⟩

/-- A call that changes one control block, and passes its entry on. -/
theorem of_call_at (h : Sound s) (fs : List (Frame Loc Obj D)) {f : Frame Loc Obj D} {i : Item}
    {blk : Block D} (hstack : s.stack = f :: k) (hf : f.item = some (i, b))
    (hfs : ∀ g ∈ fs, ∃ j, g.item = some (j, b)) (hdel : s.handed b = some blk.del)
    (hdelete : ∀ o d, .delete o d ∈ fs → s.handed o = some d)
    (hm : ∀ a' : Item → ℕ, (∀ j, a' j + one i j =
      s.account b j + (fs.map fun g => entry g.item b j).sum) → Managed blk a') :
    Sound { s with block := Function.update s.block b (some blk), stack := fs ++ k } := by
  have hplace : ∀ {g : Frame Loc Obj D} {j : Item}, g.item = some (j, b) → g.place = none := by
    intro g j hg
    cases g with
    | drop l => cases hg
    | _ => rfl
  have hacc := fun o j => s.account_call fs
    (Function.update s.block b (some blk)) hstack o j
  refine h.of_call fs hstack (hplace hf) (fun g hg => hplace (hfs g hg).choose_spec) hdelete
    (h.balanced_at (o := b) (fun p hp => ⟨Function.update_of_ne hp _ _, rfl, fun j => ?_⟩) ?_)
  · -- No other account has a part in it.
    have hsum : (fs.map fun g => entry g.item p j).sum = 0 := by
      refine List.sum_eq_zero fun n hn => ?_
      obtain ⟨g, hg, rfl⟩ := List.mem_map.mp hn
      obtain ⟨y, hy⟩ := hfs g hg
      rw [hy, entry_of_ne hp]
    have heq := hacc p j
    rw [hf, entry_of_ne hp, hsum] at heq
    exact heq
  · rw [Function.update_self, hdel]
    refine .managed (hm _ fun j => ?_)
    rw [← hacc b j, hf, entry_self]

/-- `dec_use_count ()`. -/
theorem decUse (h : Sound s) (hstack : s.stack = .decUse b :: k) :
    ∃ s', Frame.exec { s with stack := k } (.decUse b) = some s' ∧ Sound s' := by
  obtain ⟨blk, -, hlive, hdel, hm⟩ := h.live_of_call hstack rfl (by decide) (by decide)
  replace hlive : ({ s with stack := k } : State Loc Obj D).liveBlock b = some blk := hlive
  simp only [Frame.exec, hlive]
  by_cases hlast : blk.counts.useCount = 1
  · rw [if_pos hlast]
    refine ⟨_, rfl, h.of_call_at [.dispose b] hstack rfl ?_ hdel ?_ fun a' ha => ?_⟩
    · simp [Frame.item]
    · simp
    · exact hm.decUse_last hlast (by simpa [Frame.item] using ha)
  · rw [if_neg hlast]
    refine ⟨_, rfl, h.of_call_at [] hstack rfl (by simp) hdel (by simp) fun a' ha => ?_⟩
    exact hm.decUse hlast (by simpa using ha)

/-- `dispose ()`. -/
theorem dispose (h : Sound s) (hstack : s.stack = .dispose b :: k) :
    ∃ s', Frame.exec { s with stack := k } (.dispose b) = some s' ∧ Sound s' := by
  obtain ⟨blk, hblk, hlive, hdel, hm⟩ := h.live_of_call hstack rfl (by decide) (by decide)
  replace hlive : ({ s with stack := k } : State Loc Obj D).liveBlock b = some blk := hlive
  have hsame : Function.update s.block b (some blk) = s.block := by
    rw [← hblk, Function.update_eq_self]
  have hsound := h.of_call_at [.delete b blk.del, .decWeak b] hstack rfl
    (by simp [Frame.item]) hdel (by simpa using hdel) fun a' ha => hm.dispose fun i => by
      have hi := ha i
      simp only [List.map_cons, List.map_nil, List.sum_cons, List.sum_nil, Frame.item,
        entry_self] at hi
      omega
  rw [hsame] at hsound
  simp only [Frame.exec, hlive]
  exact ⟨_, rfl, hsound⟩

/-- `dec_weak_count ()`. -/
theorem decWeak (h : Sound s) (hstack : s.stack = .decWeak b :: k) :
    ∃ s', Frame.exec { s with stack := k } (.decWeak b) = some s' ∧ Sound s' := by
  obtain ⟨blk, -, hlive, hdel, hm⟩ := h.live_of_call hstack rfl (by decide) (by decide)
  replace hlive : ({ s with stack := k } : State Loc Obj D).liveBlock b = some blk := hlive
  simp only [Frame.exec, hlive]
  by_cases hlast : blk.counts.weakCount = 1
  · rw [if_pos hlast]
    refine ⟨_, rfl, h.of_call_at [.destroy b] hstack rfl ?_ hdel ?_ fun a' ha => ?_⟩
    · simp [Frame.item]
    · simp
    · exact hm.decWeak_last hlast (by simpa [Frame.item] using ha)
  · rw [if_neg hlast]
    refine ⟨_, rfl, h.of_call_at [] hstack rfl (by simp) hdel (by simp) fun a' ha => ?_⟩
    exact hm.decWeak hlast (by simpa using ha)

/-- `destroy ()`. -/
theorem destroy (h : Sound s) (hstack : s.stack = .destroy b :: k) :
    ∃ s', Frame.exec { s with stack := k } (.destroy b) = some s' ∧ Sound s' := by
  obtain ⟨blk, -, hlive, hdel, hm⟩ := h.live_of_call hstack rfl (by decide) (by decide)
  have hpos : 0 < s.account b .destroy := by
    have hacc := s.account_stack_cons hstack b .destroy
    simp only [Frame.item, entry_self, one, if_true] at hacc
    omega
  have halive := hm.alive hpos (by decide) (by decide)
  replace hlive : ({ s with stack := k } : State Loc Obj D).liveBlock b = some blk := hlive
  simp only [Frame.exec, hlive]
  refine ⟨_, rfl, h.of_call_at [] hstack rfl (by simp) hdel (by simp) fun a' ha => ?_⟩
  exact hm.destroyed halive (by simpa using ha)

/-- The deleter's call: the members of the object are about to be destroyed. -/
theorem delete (h : Sound s) {d : D} (hstack : s.stack = .delete b d :: k) :
    ∃ s', Frame.exec { s with stack := k } (.delete b d) = some s' ∧ Sound s' := by
  have hd : s.handed b = some d := h.deleters b d (.inr (hstack ▸ List.mem_cons_self))
  -- The call below it, and the state its member destructors start in.
  let s₀ : State Loc Obj D := { s with stack := k }
  let s₁ : State Loc Obj D :=
    { s₀ with deleted := s.deleted ++ [(b, d)], members := Function.update s.members b [] }
  refine ⟨s₁.push ((s.members b).reverse.map .drop), rfl, fun p => ?_, fun m => ?_, h.pointed,
    fun p e he => ?_, fun p hp => ?_, fun p e he => ?_⟩
  · refine h.balanced_pass (o := b) (fun p i => ?_) (fun ha => (h.balanced b).delete ha) p
    have hbefore := s.account_stack_cons hstack p i
    have hafter : s₁.account p i = s₀.account p i + entry (some (.deleted, b)) p i := by
      simp only [s₁, s₀, State.account, List.map_append, List.sum_append, List.map_cons,
        List.map_nil, List.sum_cons, List.sum_nil]
      omega
    rw [State.account_push_drops, hafter, hbefore]
    exact Nat.add_right_comm _ _ _
  · -- The claims of the object pass to the calls of its members' destructors.
    have hdrops := s₁.claims_push_drops (s.members b).reverse m
    have hmembers := s₀.claims_setMembers (t := s₁) rfl rfl m
    have hbefore := s.claims_stack_cons hstack m
    have hclaimed := h.claimed m
    rw [List.count_reverse] at hdrops
    simp only [Frame.place, reduceCtorEq, if_false, Nat.add_zero] at hbefore
    rw [List.count_nil, Nat.add_zero] at hmembers
    show (s₁.push _).claims m ≤ if (s.handle m).isSome then 1 else 0
    rw [hdrops, hmembers]
    exact hbefore ▸ hclaimed
  · rcases he with he | he
    · rcases List.mem_append.mp he with he | he
      · exact h.deleters p e (.inl he)
      · cases List.mem_singleton.mp he
        exact hd
    · rcases List.mem_append.mp he with he | he
      · obtain ⟨l, -, hl⟩ := List.mem_map.mp he
        cases hl
      · exact h.deleters p e (.inr (hstack ▸ List.mem_cons_of_mem _ he))
  · have hpb : p ≠ b := by
      intro heq
      have hnone := (h.fresh p hp).1
      rw [heq, hd] at hnone
      cases hnone
    exact ⟨(h.fresh p hp).1, (Function.update_of_ne hpb _ _).trans (h.fresh p hp).2⟩
  · show Function.update s.members b [] p = []
    by_cases hpb : p = b
    · rw [hpb, Function.update_self]
    · rw [Function.update_of_ne hpb]
      rcases List.mem_append.mp he with he | he
      · exact h.emptied p e he
      · cases List.mem_singleton.mp he
        exact absurd rfl hpb

/-- The handle at `l` goes, and what it referred to is to be decremented. -/
theorem dropHandle (h : Sound s) (fs : List (Frame Loc Obj D)) {l : Loc} {x : Handle Obj}
    (hstack : s.stack = .drop l :: k) (hx : s.handle l = some x) (hfs : ∀ g ∈ fs, g.place = none)
    (hdelete : ∀ o d, .delete o d ∉ fs)
    (hbalanced : ∀ a' : Obj → Item → ℕ, (∀ o i, a' o i + entry x.item o i =
      s.account o i + (fs.map fun g => entry g.item o i).sum) →
        ∀ o, Balanced (s.block o) (s.handed o) (a' o)) :
    Sound { s with handle := Function.update s.handle l none, stack := fs ++ k } := by
  let s₁ : State Loc Obj D := s.setHandle l none
  refine ⟨hbalanced _ fun o i => ?_, fun m => ?_, fun m y hy => ?_, fun o d hd => ?_,
    h.fresh, h.emptied⟩
  · have hcall := s₁.account_call (f := .drop l) fs s.block hstack o i
    have hset := s.account_setHandle l none o i
    rw [hx] at hset
    simp only [Frame.item, entry_none, Nat.add_zero, Option.bind_some, Option.bind_none]
      at hcall hset
    show (State.account { s₁ with block := s.block, stack := fs ++ k } o i) + _ = _
    rw [hcall, ← hset]
    exact Nat.add_right_comm _ _ _
  · -- The call was the one claim on its place.
    have hbefore := s.claims_stack_cons hstack m
    have hclaimed := h.claimed m
    have hnone : fs.countP (fun g => g.place = some m) = 0 := by
      refine List.countP_eq_zero.mpr fun g hg => ?_
      rw [hfs g hg]
      simp
    have hafter : State.claims { s with
        handle := Function.update s.handle l none, stack := fs ++ k } m =
        ({ s with stack := k } : State Loc Obj D).claims m := by
      unfold State.claims
      rw [List.countP_append, hnone, Nat.zero_add]
    show _ ≤ if (Function.update s.handle l none m).isSome then 1 else 0
    rw [hafter]
    by_cases hm : m = l
    · subst hm
      rw [hx] at hclaimed
      simp only [Frame.place, if_true, Option.isSome_some] at hbefore hclaimed
      omega
    · rw [Function.update_of_ne hm]
      omega
  · by_cases hm : m = l
    · rw [hm] at hy
      cases (Function.update_self l none s.handle).symm.trans hy
    · exact h.pointed m y ((Function.update_of_ne hm _ _).symm.trans hy)
  · rcases hd with hd | hd
    · exact h.deleters o d (.inl hd)
    · rcases List.mem_append.mp hd with hd | hd
      · exact absurd hd (hdelete o d)
      · exact h.deleters o d (.inr (hstack ▸ List.mem_cons_of_mem _ hd))

/-- The destructor of a handle. -/
theorem drop (h : Sound s) {l : Loc} (hstack : s.stack = .drop l :: k) :
    ∃ s', Frame.exec { s with stack := k } (.drop l) = some s' ∧ Sound s' := by
  obtain ⟨x, hx⟩ := h.exists_handle (l := l) (by
    rw [s.claims_stack_cons hstack l]
    simp [Frame.place])
  simp only [Frame.exec, hx]
  cases hcb : x.cb with
  | none =>
    refine ⟨_, rfl, h.dropHandle [] hstack hx (by simp) (by simp) fun a' ha o => ?_⟩
    have hsame : a' o = s.account o := by
      funext i
      simpa [Handle.item, hcb] using ha o i
    rw [hsame]
    exact h.balanced o
  | some o =>
    obtain ⟨blk, hblk, -, hdel, hm, -⟩ := h.live_of_handle hx hcb
    have hpass : ∀ a' : Obj → Item → ℕ, (∀ p i, a' p i + entry (some (x.kind.item, o)) p i =
        s.account p i + entry (some (x.kind.released, o)) p i) →
          ∀ p, Balanced (s.block p) (s.handed p) (a' p) := by
      intro a' ha
      refine h.balanced_pass ha fun ho => ?_
      rw [hblk, hdel]
      exact .managed (hm.release ho)
    cases hk : x.kind with
    | shared =>
      rw [hk] at hpass
      refine ⟨_, rfl, h.dropHandle [.decUse o] hstack hx (by simp [Frame.place]) (by simp)
        fun a' ha => hpass a' fun p i => ?_⟩
      simpa [Handle.item, hcb, hk, Frame.item, Kind.released] using ha p i
    | weak =>
      rw [hk] at hpass
      refine ⟨_, rfl, h.dropHandle [.decWeak o] hstack hx (by simp [Frame.place]) (by simp)
        fun a' ha => hpass a' fun p i => ?_⟩
      simpa [Handle.item, hcb, hk, Frame.item, Kind.released] using ha p i

/-- Every call of the stack goes through. -/
theorem exec (h : Sound s) {f : Frame Loc Obj D} (hstack : s.stack = f :: k) :
    ∃ s', f.exec { s with stack := k } = some s' ∧ Sound s' := by
  cases f with
  | drop l => exact h.drop hstack
  | decUse b => exact h.decUse hstack
  | dispose b => exact h.dispose hstack
  | delete o d => exact h.delete hstack
  | decWeak b => exact h.decWeak hstack
  | destroy b => exact h.destroy hstack

end Sound

end CcSnippets.SharedPtr

import CcSnippets.Null.UniquePtr.Sound

/-!
# CcSnippets.Null.UniquePtr.Calls

Every operation that a program may call goes through, keeps the ownership
invariant, and does to the handles it names what it promises (`Called`).

The assignments and `reset` end alike: the temporary is swapped with the target
and destroyed (`swap_destruct`), so the target has what the temporary had, and
what the target had is about to be deleted.
-/

namespace CcSnippets.UniquePtr

open CcSnippets.Core

variable {Ty Loc Obj D : Type*}

/-- The places an operation names. -/
def Op.places : Op Loc Obj D → List Loc
  | .allocate _ members => members
  | .defaultConstruct l | .construct l _ | .constructWith l _ _ | .destruct l | .release l => [l]
  | .moveConstruct l src | .convertConstruct l src => [l, src]
  | .moveAssign dst src tmp | .convertAssign dst src tmp => [dst, src, tmp]
  | .swap a b => [a, b]
  | .reset l _ tmp => [l, tmp]

/-- The handle an operation destroys. -/
def Op.drops : Op Loc Obj D → Option Loc
  | .destruct l => some l
  | .moveAssign _ _ tmp | .convertAssign _ _ tmp | .reset _ _ tmp => some tmp
  | _ => none

/-- What an operation does to the handles it names, before the destructor of the
handle it destroys runs. -/
def Op.Effect (s s' : State Loc Obj D) : Op Loc Obj D → Prop
  | .allocate _ members => ∀ l ∈ members, s'.ptr l = none
  | .defaultConstruct l => s'.ptr l = none
  | .construct l ptr | .constructWith l ptr _ => s'.ptr l = ptr
  | .moveConstruct l src | .convertConstruct l src => s'.ptr l = s.ptr src ∧ s'.ptr src = none
  | .destruct l => s'.handle l = s.handle l
  | .moveAssign dst src tmp | .convertAssign dst src tmp =>
    (dst = src → s'.handle dst = s.handle dst ∧ s'.ptr tmp = none) ∧
    (dst ≠ src → s'.ptr dst = s.ptr src ∧ s'.ptr src = none ∧ s'.ptr tmp = s.ptr dst)
  | .swap a b => s'.handle a = s.handle b ∧ s'.handle b = s.handle a
  | .reset l ptr tmp => s'.ptr l = ptr ∧ s'.ptr tmp = s.ptr l
  | .release l => s'.ptr l = none

/-- What an operation gives back. -/
def Op.givesBack (s : State Loc Obj D) : Op Loc Obj D → List Obj
  | .release l => (s.ptr l).toList
  | _ => []

/-- A call of `op`, up to the destruction of what it gives up. -/
structure Called (op : Op Loc Obj D) (s s' : State Loc Obj D) : Prop where
  sound : Sound s'
  stack : s'.stack = op.drops.toList
  effect : op.Effect s s'
  others : ∀ l, l ∉ op.places → s'.handle l = s.handle l
  deleted : s'.deleted = s.deleted
  released : s'.released = s.released ++ op.givesBack s

section Ledger

variable [DecidableEq Obj] (s : State Loc Obj D)

@[simp] theorem enter_members (ptr : Option Obj) (del : D) :
    (s.enter ptr del).members = s.members := by
  cases ptr <;> rfl

@[simp] theorem enter_deleted (ptr : Option Obj) (del : D) :
    (s.enter ptr del).deleted = s.deleted := by
  cases ptr <;> rfl

@[simp] theorem enter_released (ptr : Option Obj) (del : D) :
    (s.enter ptr del).released = s.released := by
  cases ptr <;> rfl

@[simp] theorem convert_deleted (ptr : Option Obj) (recv : D → D) :
    (s.convert ptr recv).deleted = s.deleted := by
  cases ptr <;> rfl

@[simp] theorem convert_released (ptr : Option Obj) (recv : D → D) :
    (s.convert ptr recv).released = s.released := by
  cases ptr <;> rfl

end Ledger

variable [DecidableEq Loc]

/-! ### Two handles at once -/

/-- From `s` to `s'` only the handles at `a` and `b` change, to `x` and `y`. -/
structure Rewritten (s s' : State Loc Obj D) (a : Loc) (x : Handle Obj D) (b : Loc)
    (y : Handle Obj D) : Prop where
  first : s'.handle a = some x
  second : s'.handle b = some y
  others : ∀ l, l ≠ a → l ≠ b → s'.handle l = s.handle l
  members : s'.members = s.members
  due : s'.due = s.due
  released : s'.released = s.released
  deleted : s'.deleted = s.deleted

variable {s : State Loc Obj D}

omit [DecidableEq Loc] in
/-- A handle lives where no vacant place is. -/
theorem ne_of_vacant {l m : Loc} {x : Handle Obj D} (hl : s.Vacant l) (hm : s.handle m = some x) :
    m ≠ l := by
  intro heq
  subst heq
  rw [Option.isNone_iff_eq_none.mp hl] at hm
  cases hm

theorem rewritten_setHandle (s : State Loc Obj D) {a b : Loc} (x y : Handle Obj D)
    (hab : a ≠ b ∨ x = y) :
    Rewritten s ((s.setHandle a (some x)).setHandle b (some y)) a x b y where
  first := by
    by_cases hne : a = b
    · subst hne
      rw [hab.resolve_left (fun hc => hc rfl), setHandle_handle_self]
    · rw [setHandle_handle_of_ne _ hne, setHandle_handle_self]
  second := setHandle_handle_self _ _ _
  others l ha hb := by rw [setHandle_handle_of_ne _ hb, setHandle_handle_of_ne _ ha]
  members := rfl
  due := rfl
  released := rfl
  deleted := rfl

/-- The move constructors. -/
theorem exists_moveFrom (h : Sound s) (Δ : Deleters Ty D) (ty : Loc → Ty) (recv : D → D)
    {l src : Loc} {other : Handle Obj D} (hl : s.Vacant l) (hsrc : s.handle src = some other) :
    ∃ s', moveFrom Δ ty s recv l src = some s' ∧ Sound s' ∧ s'.stack = s.stack ∧
      Rewritten s s' src ⟨none, Δ.moved (ty src) (ty l) other.del⟩
        l ⟨other.ptr, recv other.del⟩ := by
  refine ⟨_, by rw [moveFrom, hsrc], h.moveFrom hl hsrc, rfl, ?_⟩
  exact rewritten_setHandle s _ _ (.inl (ne_of_vacant hl hsrc))

theorem exists_swap (h : Sound s) {a b : Loc} {x y : Handle Obj D} (ha : s.handle a = some x)
    (hb : s.handle b = some y) :
    ∃ s', swap s a b = some s' ∧ Sound s' ∧ s'.stack = s.stack ∧ Rewritten s s' a y b x := by
  refine ⟨_, by rw [swap, ha, hb], h.swap ha hb, rfl, rewritten_setHandle s y x ?_⟩
  by_cases hab : a = b
  · subst hab
    exact .inr (Option.some.inj (hb.symm.trans ha))
  · exact .inl hab

/-- **Swap with the temporary and destroy it**: the common end of the assignments
and of `reset`. -/
theorem exists_swap_destruct (h : Sound s) (hstack : s.stack = []) {tmp dst : Loc}
    {x y : Handle Obj D} (htmp : s.handle tmp = some x) (hdst : s.handle dst = some y)
    (hout : s.Outside tmp) :
    ∃ s', ((swap s tmp dst).bind fun s => some (destruct s tmp)) = some s' ∧ Sound s' ∧
      s'.stack = [tmp] ∧ Rewritten s s' tmp y dst x := by
  obtain ⟨m, hm, hsound, hstk, hrw⟩ := exists_swap h htmp hdst
  have hout' : m.Outside tmp := by
    rw [State.Outside, hrw.members]
    exact hout
  have hlive : (m.handle tmp).isSome := by
    rw [hrw.first]
    rfl
  refine ⟨destruct m tmp, by rw [hm]; rfl, hsound.push (hstk.trans hstack) hlive hout', ?_,
    hrw.first, hrw.second, hrw.others, hrw.members, hrw.due, hrw.released, hrw.deleted⟩
  show tmp :: m.stack = [tmp]
  rw [hstk, hstack]

/-! ### The calls -/

omit [DecidableEq Loc] in
/-- A call is described by the handles before it; the ledger of what is due does
not matter. -/
theorem Called.congr {op : Op Loc Obj D} {s₀ s' : State Loc Obj D} (h : Called op s₀ s')
    (hh : s₀.handle = s.handle) (hd : s₀.deleted = s.deleted) (hr : s₀.released = s.released) :
    Called op s s' := by
  have hptr : s₀.ptr = s.ptr := by
    funext l
    rw [State.ptr, State.ptr, hh]
  refine ⟨h.sound, h.stack, ?_, fun l hl => ?_, h.deleted.trans hd, ?_⟩
  · have heffect := h.effect
    cases op <;> simpa only [Op.Effect, hptr, hh] using heffect
  · rw [h.others l hl, hh]
  · have hreleased := h.released
    cases op <;> simpa only [Op.givesBack, hptr, hr] using hreleased

variable {Δ : Deleters Ty D} {ty : Loc → Ty}

variable (Δ ty) in
/-- The move constructors. -/
theorem called_moveFrom (h : Sound s) (hstack : s.stack = []) (recv : D → D) {l src : Loc}
    {op : Op Loc Obj D} (hl : s.Vacant l) (hsrc : ¬ s.Vacant src)
    (hop : op = .moveConstruct l src ∨ op = .convertConstruct l src) :
    ∃ s', moveFrom Δ ty s recv l src = some s' ∧ Called op s s' := by
  obtain ⟨other, hother⟩ := exists_handle_of_not_vacant s hsrc
  obtain ⟨s', hs', hsound, hstk, hrw⟩ := exists_moveFrom h Δ ty recv hl hother
  have heffect : s'.ptr l = s.ptr src ∧ s'.ptr src = none := by
    rw [ptr_eq_of_handle _ hrw.second, ptr_eq_of_handle _ hrw.first, ptr_eq_of_handle s hother]
    exact ⟨rfl, rfl⟩
  have hothers : ∀ m, m ∉ [l, src] → s'.handle m = s.handle m := by
    intro m hm
    rw [List.mem_cons, List.mem_singleton, not_or] at hm
    exact hrw.others m hm.2 hm.1
  refine ⟨s', hs', ?_⟩
  rcases hop with rfl | rfl <;>
    exact ⟨hsound, hstk.trans hstack, heffect, hothers, hrw.deleted,
      hrw.released.trans (List.append_nil _).symm⟩

variable (Δ ty) in
/-- The two halves of a move assignment: the temporary takes over from the source,
then it is swapped with the target. -/
theorem exists_moveInto (h : Sound s) (hstack : s.stack = []) (recv : D → D) {dst src tmp : Loc}
    {other y : Handle Obj D} (htmp : s.Vacant tmp) (hother : s.handle src = some other)
    (hy : s.handle dst = some y) :
    ∃ m s' z, moveFrom Δ ty s recv tmp src = some m ∧
      Rewritten s m src ⟨none, Δ.moved (ty src) (ty tmp) other.del⟩
        tmp ⟨other.ptr, recv other.del⟩ ∧
      m.handle dst = some z ∧
      ((swap m tmp dst).bind fun s => some (destruct s tmp)) = some s' ∧ Sound s' ∧
      s'.stack = [tmp] ∧ Rewritten m s' tmp z dst ⟨other.ptr, recv other.del⟩ := by
  obtain ⟨m, hm, hmsound, hmstack, hmoved⟩ := exists_moveFrom h Δ ty recv htmp hother
  obtain ⟨z, hz⟩ : ∃ z, m.handle dst = some z := by
    by_cases hds : dst = src
    · exact ⟨_, hds ▸ hmoved.first⟩
    · exact ⟨y, (hmoved.others dst hds (ne_of_vacant htmp hy)).trans hy⟩
  have hout : m.Outside tmp := by
    rw [State.Outside, hmoved.members]
    exact h.outside_of_vacant htmp
  obtain ⟨s', hs', hsound, hstk, hswap⟩ := exists_swap_destruct hmsound (hmstack.trans hstack)
    hmoved.second hz hout
  exact ⟨m, s', z, hm, hmoved, hz, hs', hsound, hstk, hswap⟩

variable (Δ ty) in
/-- The move assignments. -/
theorem called_moveAssign (h : Sound s) (hstack : s.stack = []) (recv : D → D)
    {dst src tmp : Loc} {op : Op Loc Obj D} (htmp : s.Vacant tmp) (hdst : ¬ s.Vacant dst)
    (hsrc : ¬ s.Vacant src) (hself : dst = src → recv = id)
    (hop : op = .moveAssign dst src tmp ∨ op = .convertAssign dst src tmp) :
    ∃ s', ((moveFrom Δ ty s recv tmp src).bind fun s => (swap s tmp dst).bind fun s =>
      some (destruct s tmp)) = some s' ∧ Called op s s' := by
  obtain ⟨other, hother⟩ := exists_handle_of_not_vacant s hsrc
  obtain ⟨y, hy⟩ := exists_handle_of_not_vacant s hdst
  obtain ⟨m, s', z, hm, hmoved, hz, hs', hsound, hstk, hswap⟩ := exists_moveInto Δ ty h hstack
    recv htmp hother hy
  refine ⟨s', by rw [hm, Option.bind_some, hs'], ?_⟩
  have hown : dst = src → s'.handle dst = s.handle dst ∧ s'.ptr tmp = none := by
    intro hds
    subst hds
    obtain rfl := Option.some.inj (hz.symm.trans hmoved.first)
    rw [hswap.second, hself rfl, hother, ptr_eq_of_handle _ hswap.first]
    exact ⟨rfl, rfl⟩
  have htaken : dst ≠ src → s'.ptr dst = s.ptr src ∧ s'.ptr src = none ∧
      s'.ptr tmp = s.ptr dst := by
    intro hds
    have hdst' := (hmoved.others dst hds (ne_of_vacant htmp hy)).trans hy
    have hzy : z = y := Option.some.inj (hz.symm.trans hdst')
    have hsrc' := (hswap.others src (ne_of_vacant htmp hother) (Ne.symm hds)).trans hmoved.first
    rw [ptr_eq_of_handle _ hswap.second, ptr_eq_of_handle _ hsrc', ptr_eq_of_handle _ hswap.first,
      ptr_eq_of_handle s hother, ptr_eq_of_handle s hy, hzy]
    exact ⟨rfl, rfl, rfl⟩
  have hothers : ∀ l, l ∉ [dst, src, tmp] → s'.handle l = s.handle l := by
    intro l hl
    rw [List.mem_cons, List.mem_cons, List.mem_singleton, not_or, not_or] at hl
    rw [hswap.others l hl.2.2 hl.1, hmoved.others l hl.2.1 hl.2.2]
  have hdel := hswap.deleted.trans hmoved.deleted
  have hrel := (hswap.released.trans hmoved.released).trans (List.append_nil _).symm
  rcases hop with rfl | rfl
  · exact ⟨hsound, hstk, ⟨hown, htaken⟩, hothers, hdel, hrel⟩
  · exact ⟨hsound, hstk, ⟨hown, htaken⟩, hothers, hdel, hrel⟩

/-- A handle comes to life at a vacant place. -/
theorem others_setHandle {l : Loc} (x : Option (Handle Obj D)) :
    ∀ m, m ∉ [l] → (s.setHandle l x).handle m = s.handle m := by
  intro m hm
  rw [List.mem_singleton] at hm
  exact setHandle_handle_of_ne s hm x

variable [DecidableEq Obj]

variable (Δ ty) in
/-- The temporary that `reset` makes, with the deleter of the handle due to its
pointer. -/
theorem made_handle (s : State Loc Obj D) (tmp : Loc) (ptr : Option Obj) (due : D) (m : Loc) :
    ((construct Δ ty s tmp ptr).enter ptr due).handle m =
      if m = tmp then some ⟨ptr, Δ.default (ty tmp)⟩ else s.handle m := by
  rw [enter_handle, construct]
  by_cases hm : m = tmp
  · rw [hm, setHandle_handle_self, if_pos rfl]
  · rw [setHandle_handle_of_ne _ hm, if_neg hm, enter_handle]

variable (Δ ty) in
theorem exists_reset (h : Sound s) (hstack : s.stack = []) {l tmp : Loc} {ptr : Option Obj}
    {x : Handle Obj D} (hx : s.handle l = some x) (hptr : s.Fresh ptr) (htmp : s.Vacant tmp) :
    ∃ s', reset Δ ty s l ptr tmp = some s' ∧ Sound s' ∧ s'.stack = [tmp] ∧
      Rewritten ((construct Δ ty s tmp ptr).enter ptr x.del) s' tmp x l
        ⟨ptr, Δ.default (ty tmp)⟩ := by
  have hmade : Sound (construct Δ ty s tmp ptr) := h.enter htmp hptr _ _
  have hdue : ∀ o, ptr = some o → ((construct Δ ty s tmp ptr).due o).isSome := by
    intro o heq
    subst heq
    show (Function.update s.due o _ o).isSome
    rw [Function.update_self]
    rfl
  have hout : ((construct Δ ty s tmp ptr).enter ptr x.del).Outside tmp := by
    rw [State.Outside, enter_members]
    show ∀ o, tmp ∉ (s.enter ptr _).members o
    rw [enter_members]
    exact h.outside_of_vacant htmp
  have hstk : ((construct Δ ty s tmp ptr).enter ptr x.del).stack = [] := by
    rw [enter_stack]
    show (s.enter ptr _).stack = []
    rw [enter_stack, hstack]
  have hl := (made_handle Δ ty s tmp ptr x.del l).trans
    (if_neg (ne_of_vacant htmp hx))
  obtain ⟨s', hs', hrest⟩ := exists_swap_destruct (hmade.reenter hdue) hstk
    ((made_handle Δ ty s tmp ptr x.del tmp).trans (if_pos rfl)) (hl.trans hx) hout
  refine ⟨s', ?_, hrest⟩
  rw [reset, hx]
  exact hs'

/-- `reset`. -/
theorem called_reset (h : Sound s) (hstack : s.stack = []) {l tmp : Loc} {ptr : Option Obj}
    (hl : ¬ s.Vacant l) (hptr : s.Fresh ptr) (htmp : s.Vacant tmp) :
    ∃ s', reset Δ ty s l ptr tmp = some s' ∧ Called (.reset l ptr tmp) s s' := by
  obtain ⟨x, hx⟩ := exists_handle_of_not_vacant s hl
  obtain ⟨s', hs', hsound, hstk, hswap⟩ := exists_reset Δ ty h hstack hx hptr htmp
  refine ⟨s', hs', hsound, hstk, ⟨?_, ?_⟩, ?_, ?_, ?_⟩
  · exact ptr_eq_of_handle _ hswap.second
  · rw [ptr_eq_of_handle _ hswap.first, ptr_eq_of_handle s hx]
  · intro m hm
    rw [Op.places, List.mem_cons, List.mem_singleton, not_or] at hm
    rw [hswap.others m hm.2 hm.1, made_handle, if_neg hm.2]
  · rw [hswap.deleted, enter_deleted]
    exact enter_deleted s _ _
  · rw [hswap.released, enter_released]
    exact (enter_released s _ _).trans (List.append_nil _).symm

/-- **Every operation a program may call goes through.** -/
theorem exists_called (h : Sound s) (hstack : s.stack = []) {op : Op Loc Obj D}
    (hok : op.Ok ty s) : ∃ s', op.run Δ ty s = some s' ∧ Called op s s' := by
  cases op with
  | allocate o members =>
    obtain ⟨ho, honce, hls⟩ := hok
    refine ⟨_, rfl, h.allocate ho honce hls, hstack, fun l hl => ?_, fun l hl =>
      constructMembers_of_notMem hl, rfl, (List.append_nil _).symm⟩
    rw [ptr_allocate hls, ptr_eq_none_of_vacant s (hls l hl)]
  | defaultConstruct l =>
    exact ⟨_, rfl, h.setNull (ptr_eq_none_of_vacant s hok) _, hstack,
      ptr_eq_of_handle _ (setHandle_handle_self _ _ _), others_setHandle _, rfl,
      (List.append_nil _).symm⟩
  | construct l ptr | constructWith l ptr del =>
    refine ⟨_, rfl, h.enter hok.1 hok.2 _ _, (enter_stack s _ _).trans hstack,
      ptr_eq_of_handle _ (setHandle_handle_self _ _ _), fun m hm => ?_, enter_deleted s _ _,
      (enter_released s _ _).trans (List.append_nil _).symm⟩
    exact (others_setHandle _ m hm).trans (congrFun (enter_handle s _ _) m)
  | moveConstruct l src => exact called_moveFrom Δ ty h hstack id hok.1 hok.2.1 (.inl rfl)
  | convertConstruct l src =>
    obtain ⟨s', hs', hcalled⟩ := called_moveFrom Δ ty
      (h.convert (s.ptr src) (Δ.convert (ty src) (ty l))) ((convert_stack s _ _).trans hstack)
      (Δ.convert (ty src) (ty l))
      (by rw [State.Vacant, convert_handle]; exact hok.1)
      (by rw [State.Vacant, convert_handle]; exact hok.2.1)
      (.inr (rfl : Op.convertConstruct l src = _))
    exact ⟨s', hs', hcalled.congr (convert_handle s _ _) (convert_deleted s _ _)
      (convert_released s _ _)⟩
  | destruct l =>
    obtain ⟨x, hx⟩ := exists_handle_of_not_vacant s hok.1
    refine ⟨_, rfl, h.push hstack (by rw [hx]; rfl) hok.2, ?_, rfl, fun _ _ => rfl, rfl,
      (List.append_nil _).symm⟩
    show l :: s.stack = [l]
    rw [hstack]
  | moveAssign dst src tmp =>
    exact called_moveAssign Δ ty h hstack id hok.1 hok.2.1 hok.2.2.1 (fun _ => rfl) (.inl rfl)
  | convertAssign dst src tmp =>
    obtain ⟨hvac, hdst, hsrc, htydst, htysrc⟩ := hok
    obtain ⟨s', hs', hcalled⟩ := called_moveAssign Δ ty
      (h.convert (s.ptr src) (Δ.convert (ty src) (ty tmp))) ((convert_stack s _ _).trans hstack)
      (Δ.convert (ty src) (ty tmp))
      (by rw [State.Vacant, convert_handle]; exact hvac)
      (by rw [State.Vacant, convert_handle]; exact hdst)
      (by rw [State.Vacant, convert_handle]; exact hsrc)
      (fun hds => absurd (hds ▸ rfl) htysrc) (.inr (rfl : Op.convertAssign dst src tmp = _))
    exact ⟨s', hs', hcalled.congr (convert_handle s _ _) (convert_deleted s _ _)
      (convert_released s _ _)⟩
  | swap a b =>
    obtain ⟨x, hx⟩ := exists_handle_of_not_vacant s hok.1
    obtain ⟨y, hy⟩ := exists_handle_of_not_vacant s hok.2.1
    obtain ⟨s', hs', hsound, hstk, hrw⟩ := exists_swap h hx hy
    refine ⟨s', hs', hsound, hstk.trans hstack, ⟨hrw.first.trans hy.symm,
      hrw.second.trans hx.symm⟩, fun l hl => ?_, hrw.deleted,
      hrw.released.trans (List.append_nil _).symm⟩
    rw [Op.places, List.mem_cons, List.mem_singleton, not_or] at hl
    exact hrw.others l hl.1 hl.2
  | reset l ptr tmp => exact called_reset h hstack hok.1 hok.2.1 hok.2.2.1
  | release l =>
    obtain ⟨x, hx⟩ := exists_handle_of_not_vacant s hok
    refine ⟨_, by rw [Op.run, UniquePtr.release, hx], h.release hx, hstack,
      ptr_eq_of_handle (h := ⟨none, x.del⟩) _ (setHandle_handle_self _ _ _), others_setHandle _,
      rfl, ?_⟩
    rw [Op.givesBack, ptr_eq_of_handle s hx]

end CcSnippets.UniquePtr

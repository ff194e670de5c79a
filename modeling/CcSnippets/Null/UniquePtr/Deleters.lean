import CcSnippets.Null.UniquePtr.Ownership

/-!
# CcSnippets.Null.UniquePtr.Deleters

Which deleter an object is deleted with.

The deleter travels with the pointer through every operation but one (`Matched`):
`reset` swaps the whole handle with a temporary whose deleter is default-constructed,
so the handle **loses its deleter**, and the new pointer is deleted with a default
one. The pairing survives a run exactly where every `reset` in it is of a handle
whose deleter is in the default state anyway.
-/

namespace CcSnippets.UniquePtr

open CcSnippets.Core

variable {Ty Loc Obj D : Type*}

/-- Every object deleted so far was deleted with the deleter due to it. -/
def RightDeleters (s : State Loc Obj D) : Prop := ∀ o d, (o, d) ∈ s.deleted → s.due o = some d

/-- Every pointer is with the deleter due to its object. -/
structure Matched (s : State Loc Obj D) : Prop where
  owned : ∀ l x o, s.handle l = some x → x.ptr = some o → s.due o = some x.del
  deleted : RightDeleters s

theorem matched_start : Matched (.start : State Loc Obj D) where
  owned l x o hl := by cases hl
  deleted o d hd := by cases hd

namespace Matched

variable {s s' : State Loc Obj D}

/-- Two handles are rewritten, each with the deleter due to its pointer. -/
theorem rewritten {a b : Loc} {x y : Handle Obj D} (h : Matched s) (hrw : Rewritten s s' a x b y)
    (hx : ∀ o, x.ptr = some o → s.due o = some x.del)
    (hy : ∀ o, y.ptr = some o → s.due o = some y.del) : Matched s' := by
  refine ⟨fun l z o hl hz => ?_, fun o d hd => ?_⟩
  · rw [hrw.due]
    by_cases ha : l = a
    · rw [ha, hrw.first] at hl
      obtain rfl := Option.some.inj hl
      exact hx o hz
    · by_cases hb : l = b
      · rw [hb, hrw.second] at hl
        obtain rfl := Option.some.inj hl
        exact hy o hz
      · rw [hrw.others l ha hb] at hl
        exact h.owned l z o hl hz
  · rw [hrw.due]
    rw [hrw.deleted] at hd
    exact h.deleted o d hd

variable [DecidableEq Loc]

theorem setHandle (h : Matched s) (l : Loc) {x : Handle Obj D}
    (hx : ∀ o, x.ptr = some o → s.due o = some x.del) : Matched (s.setHandle l (some x)) := by
  refine ⟨fun m z o hm hz => ?_, h.deleted⟩
  by_cases hml : m = l
  · rw [hml, setHandle_handle_self] at hm
    obtain rfl := Option.some.inj hm
    exact hx o hz
  · rw [setHandle_handle_of_ne s hml] at hm
    exact h.owned m z o hm hz

variable [DecidableEq Obj]

omit [DecidableEq Loc] in
/-- A fresh object has no deletion on record. -/
theorem enter (h : Matched s) (hs : Sound s) {ptr : Option Obj} (hptr : s.Fresh ptr) (del : D) :
    Matched (s.enter ptr del) ∧ ∀ o, ptr = some o → (s.enter ptr del).due o = some del := by
  cases ptr with
  | none => exact ⟨h, fun o ho => by cases ho⟩
  | some o =>
    have hnot : ¬ (s.due o).isSome := by
      rw [Option.isNone_iff_eq_none.mp hptr.2]
      exact Bool.false_ne_true
    have hhanded := (hs.exclusive.handed o).not.mp hnot
    refine ⟨⟨fun l z p hl hz => ?_, fun p d hd => ?_⟩, fun p hp => ?_⟩
    · have hpo : p ≠ o := by
        intro heq
        subst heq
        exact hhanded (.inl ⟨l, (ptr_eq_of_handle s hl).trans hz⟩)
      exact (Function.update_of_ne hpo _ _).trans (h.owned l z p hl hz)
    · have hpo : p ≠ o := by
        intro heq
        subst heq
        exact hhanded (.inr (.inr (List.mem_map.mpr ⟨_, hd, rfl⟩)))
      exact (Function.update_of_ne hpo _ _).trans (h.deleted p d hd)
    · obtain rfl := Option.some.inj hp
      exact Function.update_self _ _ _

/-- The first half of a move: the deleter, converted or not, goes with the
pointer. -/
theorem moved (h : Matched s) (hs : Sound s) {l src : Loc} {recv : D → D}
    {other left : Handle Obj D} (hother : s.handle src = some other) (hleft : left.ptr = none)
    (hrw : Rewritten (s.convert (s.ptr src) recv) s' src left l ⟨other.ptr, recv other.del⟩) :
    Matched s' := by
  have hptr := ptr_eq_of_handle s hother
  -- the ledger changes for the object moved only
  have hdue : ∀ p, s.ptr src ≠ some p → s'.due p = s.due p := by
    intro p hp
    rw [hrw.due]
    cases hsrc : s.ptr src with
    | none => rfl
    | some o =>
      have hpo : p ≠ o := fun heq => hp (by rw [hsrc, heq])
      exact Function.update_of_ne hpo _ _
  have hmoved : ∀ o, other.ptr = some o → s'.due o = some (recv other.del) := by
    intro o ho
    rw [hrw.due, hptr, ho]
    show Function.update s.due o ((s.due o).map recv) o = _
    rw [Function.update_self, h.owned src other o hother ho, Option.map_some]
  refine ⟨fun m z p hm hz => ?_, fun p d hd => ?_⟩
  · by_cases hml : m = l
    · rw [hml, hrw.second] at hm
      obtain rfl := Option.some.inj hm
      exact hmoved p hz
    · by_cases hms : m = src
      · rw [hms, hrw.first] at hm
        obtain rfl := Option.some.inj hm
        rw [hleft] at hz
        cases hz
      · rw [hrw.others m hms hml, convert_handle] at hm
        rw [hdue p ?_, h.owned m z p hm hz]
        intro hsrc
        exact hms (hs.exclusive.unique m src p ((ptr_eq_of_handle s hm).trans hz) hsrc)
  · rw [hrw.deleted, convert_deleted] at hd
    rw [hdue p ?_, h.deleted p d hd]
    intro hsrc
    exact (hs.exclusive.kept src p hsrc).2 (List.mem_map.mpr ⟨_, hd, rfl⟩)

end Matched

/-! ### One step -/

variable [DecidableEq Loc] {Δ : Deleters Ty D} {ty : Loc → Ty} {s : State Loc Obj D}

/-- A destructor deletes the object with the deleter that its handle has. -/
theorem Matched.destroyFirst [DecidableEq Obj] (h : Matched s) {s' : State Loc Obj D}
    (hs : UniquePtr.destroyFirst s = some s') : Matched s' := by
  obtain ⟨l, rest, x, -, hx, hcase⟩ := destroyFirst_cases hs
  have hhandle : ∀ m z, (s.setHandle l none).handle m = some z → s.handle m = some z := by
    intro m z hm
    by_cases hml : m = l
    · rw [hml, setHandle_handle_self] at hm
      cases hm
    · rwa [setHandle_handle_of_ne s hml] at hm
  rcases hcase with ⟨-, rfl⟩ | ⟨o, ho, rfl⟩
  · exact ⟨fun m z p hm hz => h.owned m z p (hhandle m z hm) hz, h.deleted⟩
  · refine ⟨fun m z p hm hz => h.owned m z p (hhandle m z hm) hz, fun p d hd => ?_⟩
    rcases List.mem_append.mp hd with hold | hnew
    · exact h.deleted p d hold
    · obtain ⟨rfl, rfl⟩ := Prod.mk.inj (List.mem_singleton.mp hnew)
      exact h.owned l x p hx ho

variable [DecidableEq Obj]

omit [DecidableEq Loc] in
/-- A plain move converts nothing. -/
theorem convert_id (s : State Loc Obj D) (ptr : Option Obj) : s.convert ptr id = s := by
  cases ptr with
  | none => rfl
  | some o => rw [State.convert, Option.map_id, id, Function.update_eq_self]

variable (Δ ty) in
/-- The move constructors. -/
theorem exists_matched_moveFrom (hs : Sound s) (h : Matched s) (recv : D → D) {l src : Loc}
    (hl : s.Vacant l) (hsrc : ¬ s.Vacant src) :
    ∃ s', moveFrom Δ ty (s.convert (s.ptr src) recv) recv l src = some s' ∧ Matched s' := by
  obtain ⟨other, hother⟩ := exists_handle_of_not_vacant s hsrc
  obtain ⟨s', hs', -, -, hrw⟩ := exists_moveFrom (l := l)
    (hs.convert (s.ptr src) recv) Δ ty recv (by rw [State.Vacant, convert_handle]; exact hl)
    (by rw [convert_handle]; exact hother)
  exact ⟨s', hs', h.moved hs hother rfl hrw⟩

variable (Δ ty) in
/-- The move assignments. -/
theorem exists_matched_moveAssign (hs : Sound s) (hstack : s.stack = []) (h : Matched s)
    (recv : D → D) {dst src tmp : Loc} (htmp : s.Vacant tmp) (hdst : ¬ s.Vacant dst)
    (hsrc : ¬ s.Vacant src) :
    ∃ s', ((moveFrom Δ ty (s.convert (s.ptr src) recv) recv tmp src).bind fun s =>
      (swap s tmp dst).bind fun s => some (destruct s tmp)) = some s' ∧ Matched s' := by
  obtain ⟨other, hother⟩ := exists_handle_of_not_vacant s hsrc
  obtain ⟨y, hy⟩ := exists_handle_of_not_vacant s hdst
  obtain ⟨m, s', z, hm, hmoved, hz, hs', -, -, hswap⟩ := exists_moveInto Δ ty
    (hs.convert (s.ptr src) recv) ((convert_stack s _ _).trans hstack) recv
    (by rw [State.Vacant, convert_handle]; exact htmp)
    (by rw [convert_handle]; exact hother) (by rw [convert_handle]; exact hy)
  have hmatched : Matched m := h.moved hs hother rfl hmoved
  refine ⟨s', by rw [hm, Option.bind_some, hs'], hmatched.rewritten hswap ?_ ?_⟩
  · intro o ho
    exact hmatched.owned dst z o hz ho
  · intro o ho
    exact hmatched.owned tmp _ o hmoved.second ho

/-- The step is a `reset` of a handle whose deleter is in the default state, or no
`reset`. -/
def ResetsDefault (Δ : Deleters Ty D) (ty : Loc → Ty) (s : State Loc Obj D) :
    Label Loc Obj D → Prop
  | .call (.reset l _ _) => s.del l = some (Δ.default (ty l))
  | _ => True

instance [DecidableEq D] (s : State Loc Obj D) :
    ∀ a : Label Loc Obj D, Decidable (ResetsDefault Δ ty s a)
  | .call (.reset _ _ _) => inferInstanceAs (Decidable (_ = _))
  | .call (.allocate _ _) | .call (.defaultConstruct _) | .call (.construct _ _)
  | .call (.constructWith _ _ _) | .call (.moveConstruct _ _) | .call (.convertConstruct _ _)
  | .call (.destruct _) | .call (.moveAssign _ _ _) | .call (.convertAssign _ _ _)
  | .call (.swap _ _) | .call (.release _) | .step => inferInstanceAs (Decidable True)

/-- **Step lemma.** Every operation keeps each pointer with its deleter, a `reset`
where the deleter of its handle is in the default state. -/
theorem exists_matched_call (hs : Sound s) (hstack : s.stack = []) (h : Matched s)
    {op : Op Loc Obj D} (hok : op.Ok ty s) (hreset : ResetsDefault Δ ty s (.call op)) :
    ∃ s', op.run Δ ty s = some s' ∧ Matched s' := by
  cases op with
  | allocate o members =>
    refine ⟨_, rfl, fun l x p hl hx => ?_, h.deleted⟩
    have hl' : constructMembers Δ ty s.handle members l = some x := hl
    by_cases hmem : l ∈ members
    · rw [constructMembers_of_mem hmem] at hl'
      obtain rfl := Option.some.inj hl'
      cases hx
    · rw [constructMembers_of_notMem hmem] at hl'
      exact h.owned l x p hl' hx
  | defaultConstruct l =>
    exact ⟨_, rfl, h.setHandle l fun o ho => by cases ho⟩
  | construct l ptr | constructWith l ptr del =>
    obtain ⟨hentered, hdue⟩ := h.enter hs hok.2 _
    exact ⟨_, rfl, hentered.setHandle l hdue⟩
  | moveConstruct l src =>
    have hmoved := exists_matched_moveFrom Δ ty hs h id hok.1 hok.2.1
    rwa [convert_id] at hmoved
  | convertConstruct l src => exact exists_matched_moveFrom Δ ty hs h _ hok.1 hok.2.1
  | destruct l => exact ⟨_, rfl, h.owned, h.deleted⟩
  | moveAssign dst src tmp =>
    have hmoved := exists_matched_moveAssign Δ ty hs hstack h id hok.1
      hok.2.1 hok.2.2.1
    rwa [convert_id] at hmoved
  | convertAssign dst src tmp =>
    exact exists_matched_moveAssign Δ ty hs hstack h _ hok.1 hok.2.1 hok.2.2.1
  | swap a b =>
    obtain ⟨x, hx⟩ := exists_handle_of_not_vacant s hok.1
    obtain ⟨y, hy⟩ := exists_handle_of_not_vacant s hok.2.1
    obtain ⟨s', hs', -, -, hrw⟩ := exists_swap hs hx hy
    exact ⟨s', hs', h.rewritten hrw (fun o ho => h.owned b y o hy ho) fun o ho =>
      h.owned a x o hx ho⟩
  | reset l ptr tmp =>
    obtain ⟨hl, hptr, htmp, hty⟩ := hok
    obtain ⟨x, hx⟩ := exists_handle_of_not_vacant s hl
    obtain ⟨s', hs', -, -, hrw⟩ := exists_reset Δ ty hs hstack hx hptr htmp
    have hdefault : x.del = Δ.default (ty tmp) := by
      rw [hty]
      have hdel : s.del l = some x.del := by rw [State.del, hx, Option.map_some]
      exact Option.some.inj (hdel.symm.trans hreset)
    -- the temporary has the deleter that the handle had
    have hsame : (construct Δ ty s tmp ptr).enter ptr x.del = construct Δ ty s tmp ptr := by
      cases ptr with
      | none => rfl
      | some o => simp only [construct, State.enter, State.setHandle, hdefault,
          Function.update_idem]
    obtain ⟨hentered, hdue⟩ := h.enter hs hptr (Δ.default (ty tmp))
    have hmade : Matched (construct Δ ty s tmp ptr) := hentered.setHandle tmp hdue
    rw [hsame] at hrw
    refine ⟨s', hs', hmade.rewritten hrw (fun o ho => ?_) hdue⟩
    have hlh : (construct Δ ty s tmp ptr).handle l = some x := by
      rw [← hsame, made_handle, if_neg (ne_of_vacant htmp hx), hx]
    exact hmade.owned l x o hlh ho
  | release l =>
    obtain ⟨x, hx⟩ := exists_handle_of_not_vacant s hok
    have hnull : Matched (s.setHandle l (some ⟨none, x.del⟩)) :=
      h.setHandle l fun o ho => by cases ho
    refine ⟨{ s.setHandle l (some ⟨none, x.del⟩) with released := s.released ++ x.ptr.toList },
      by rw [Op.run, UniquePtr.release, hx], hnull.owned, hnull.deleted⟩

/-! ### Runs -/

variable [DecidableEq Ty] [Fintype Obj]

/-- The step leaves the deleter of the handle that it resets, or releases the
pointer of, as it is. -/
def KeepsDeleter (Δ : Deleters Ty D) (ty : Loc → Ty) (s : State Loc Obj D)
    (a : Label Loc Obj D) : Prop :=
  ∀ l, a = .call (.release l) ∨ (∃ ptr tmp, a = .call (.reset l ptr tmp)) →
    ∀ s', next Δ ty s a = some s' → s'.del l = s.del l

theorem exists_of_next_call {op : Op Loc Obj D} {s' : State Loc Obj D}
    (h : next Δ ty s (.call op) = some s') : s.stack = [] ∧ op.Ok ty s ∧
      op.run Δ ty s = some s' := by
  simp only [next] at h
  split at h
  · rename_i hok
    exact ⟨hok.1, hok.2, h⟩
  · cases h

/-- `reset` leaves its handle with a default-constructed deleter. -/
theorem del_of_reset (hs : Sound s) {l tmp : Loc} {ptr : Option Obj} {s' : State Loc Obj D}
    (h : next Δ ty s (.call (.reset l ptr tmp)) = some s') :
    s'.del l = some (Δ.default (ty l)) := by
  obtain ⟨hstack, ⟨hl, hptr, htmp, hty⟩, hrun⟩ := exists_of_next_call h
  obtain ⟨x, hx⟩ := exists_handle_of_not_vacant s hl
  obtain ⟨m, hm, -, -, hrw⟩ := exists_reset Δ ty hs hstack hx hptr htmp
  obtain rfl := Option.some.inj (hm.symm.trans hrun)
  rw [State.del, hrw.second, Option.map_some, hty]

theorem del_of_release {l : Loc} {s' : State Loc Obj D}
    (h : next Δ ty s (.call (.release l)) = some s') : s'.del l = s.del l := by
  obtain ⟨-, hok, hrun⟩ := exists_of_next_call h
  obtain ⟨x, hx⟩ := exists_handle_of_not_vacant s hok
  rw [Op.run, UniquePtr.release, hx] at hrun
  obtain rfl := Option.some.inj hrun
  have hdel : s.del l = some x.del := by rw [State.del, hx, Option.map_some]
  show ((s.setHandle l (some ⟨none, x.del⟩)).handle l).map Handle.del = s.del l
  rw [setHandle_handle_self, hdel]
  rfl

/-- A step keeps the deleters of the handles exactly where it is no `reset` of a
handle with another deleter than a default-constructed one. -/
theorem keepsDeleter_iff (hs : Sound s) {a : Label Loc Obj D} {s' : State Loc Obj D}
    (h : next Δ ty s a = some s') : KeepsDeleter Δ ty s a ↔ ResetsDefault Δ ty s a := by
  constructor
  · intro hkeep
    cases a with
    | step => trivial
    | call op =>
      cases op with
      | reset l ptr tmp =>
        exact (hkeep l (.inr ⟨ptr, tmp, rfl⟩) s' h).symm.trans (del_of_reset hs h)
      | _ => trivial
  · intro hdefault l hl m hm
    rcases hl with rfl | ⟨ptr, tmp, rfl⟩
    · exact del_of_release hm
    · exact (del_of_reset hs hm).trans hdefault.symm

theorem matched_next (hs : Sound s) (h : Matched s) {a : Label Loc Obj D} {s' : State Loc Obj D}
    (hnext : next Δ ty s a = some s') (hreset : ResetsDefault Δ ty s a) : Matched s' := by
  cases a with
  | step => exact h.destroyFirst hnext
  | call op =>
    obtain ⟨hstack, hok, hrun⟩ := exists_of_next_call hnext
    obtain ⟨m, hm, hmatched⟩ := exists_matched_call (Δ := Δ) hs hstack h hok hreset
    obtain rfl := Option.some.inj (hm.symm.trans hrun)
    exact hmatched

/-- **The deleters are right exactly where every `reset` finds a default one.** In
a run, every object is deleted with the deleter due to it and no `reset` or
`release` changes the deleter of its handle, if and only if every `reset` is of a
handle whose deleter is in the default state. -/
theorem right_deleters_iff {ls : List (Label Loc Obj D)} {s : State Loc Obj D}
    (h : (system Δ ty).run .start ls = some s) :
    (system Δ ty).EveryState RightDeleters .start ls ∧
        (system Δ ty).EveryStep (KeepsDeleter Δ ty) .start ls ↔
      (system Δ ty).EveryStep (ResetsDefault Δ ty) .start ls := by
  -- by induction on the run, from any state that is matched
  suffices hall : ∀ (ls : List (Label Loc Obj D)) (s₀ : State Loc Obj D),
      (system Δ ty).Reachable s₀ → Matched s₀ → (system Δ ty).run s₀ ls = some s →
      ((system Δ ty).EveryState RightDeleters s₀ ls ∧
        (system Δ ty).EveryStep (KeepsDeleter Δ ty) s₀ ls ↔
      (system Δ ty).EveryStep (ResetsDefault Δ ty) s₀ ls) from
    hall ls .start (.init rfl) matched_start h
  intro ls
  induction ls with
  | nil =>
    intro s₀ _ hmatched _
    exact ⟨fun _ => trivial, fun _ => ⟨hmatched.deleted, trivial⟩⟩
  | cons a ls ih =>
    intro s₀ hreach hmatched hrun
    obtain ⟨m, hm, hrest⟩ := System.run_cons_eq_some.mp hrun
    have hsound := sound_of_reach hreach
    have hiff := keepsDeleter_iff hsound hm
    have hreach' : (system Δ ty).Reachable m := .step hreach trivial hm
    constructor
    · intro hright
      obtain ⟨⟨-, hstates⟩, hkeep, hsteps⟩ := hright
      have hdefault := hiff.mp hkeep
      refine ⟨hdefault, fun m' hm' => ?_⟩
      obtain rfl := Option.some.inj (hm.symm.trans hm')
      exact (ih m hreach' (matched_next hsound hmatched hm hdefault) hrest).mp
        ⟨hstates m hm, hsteps m hm⟩
    · intro hdefaults
      obtain ⟨hdefault, hsteps⟩ := hdefaults
      obtain ⟨hstates, hkeeps⟩ := (ih m hreach' (matched_next hsound hmatched hm hdefault)
        hrest).mpr (hsteps m hm)
      refine ⟨⟨hmatched.deleted, fun m' hm' => ?_⟩, hiff.mpr hdefault, fun m' hm' => ?_⟩
      · obtain rfl := Option.some.inj (hm.symm.trans hm')
        exact hstates
      · obtain rfl := Option.some.inj (hm.symm.trans hm')
        exact hkeeps

/-- A handle with a deleter of its own is moved from, swapped and destroyed, and a
default-constructed one reset and destroyed. -/
def swapThenReset : List (Label (Fin 4) Bool ℕ) :=
  [.call (.allocate true []), .call (.allocate false []),
    .call (.constructWith 0 (some true) 7), .call (.moveConstruct 1 0), .call (.swap 0 1),
    .call (.defaultConstruct 2), .call (.reset 2 (some false) 3), .step,
    .call (.destruct 0), .step, .call (.destruct 2), .step]

/-- Each is deleted with the deleter it came with, or found. -/
theorem right_deleters_iff_moved :
    (system (⟨fun _ => 0, fun _ _ _ => 1, fun _ _ d => d⟩ : Deleters Unit ℕ) fun _ =>
      ()).EveryState RightDeleters .start swapThenReset := by
  obtain ⟨s, hrun⟩ : ∃ s, (system (⟨fun _ => 0, fun _ _ _ => 1, fun _ _ d => d⟩ :
      Deleters Unit ℕ) fun _ => ()).run .start swapThenReset = some s := ⟨_, rfl⟩
  exact ((right_deleters_iff hrun).mpr (by decide)).1

/-- **A `reset` loses the deleter of its handle**: a handle made with deleter 7 is
reset to a second object, which is then deleted with the default deleter 0. -/
theorem reset_loses_deleter :
    ∃ s, (system (⟨fun _ => 0, fun _ _ _ => 1, fun _ _ d => d⟩ : Deleters Unit ℕ) fun _ => () :
        System (State (Fin 2) Bool ℕ) _).run .start
        [.call (.allocate false []), .call (.allocate true []),
          .call (.constructWith 0 (some false) 7), .call (.reset 0 (some true) 1), .step,
          .call (.destruct 0), .step] = some s ∧
      s.deleted = [(false, 7), (true, 0)] ∧ s.due true = some 7 ∧ ¬ RightDeleters s := by
  refine ⟨_, rfl, rfl, rfl, fun hright => ?_⟩
  have hdue := hright true 0 (List.mem_cons_of_mem _ List.mem_cons_self)
  exact absurd (Option.some.inj hdue) (by decide)

end CcSnippets.UniquePtr

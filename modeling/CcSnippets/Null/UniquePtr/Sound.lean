import CcSnippets.Core.Ownership
import CcSnippets.Null.UniquePtr.Basic

/-!
# CcSnippets.Null.UniquePtr.Sound

The ownership invariant of `unique_ptr`, and that every piece an operation is
made of keeps it.

`Shape` says where the member handles and the handles about to be destroyed are;
`Sound` adds that what the handles point to is owned exclusively. Seen from there
an operation is a permutation of places: a move exchanges what its source owns
with what its empty target owns, and `swap` exchanges two handles.
-/

namespace CcSnippets.UniquePtr

open CcSnippets.Core

variable {Ty Loc Obj D : Type*}

/-- Members and handles to be destroyed. -/
structure Shape (s : State Loc Obj D) : Prop where
  memberLive : ∀ o l, l ∈ s.members o → (s.handle l).isSome
  memberOnce : ∀ o, (s.members o).Nodup
  memberOf : ∀ o p l, l ∈ s.members o → l ∈ s.members p → o = p
  stackLive : ∀ l ∈ s.stack, (s.handle l).isSome
  stackOnce : s.stack.Nodup
  /-- A handle about to be destroyed is no member any more. -/
  stackApart : ∀ o l, l ∈ s.members o → l ∉ s.stack
  unallocated : ∀ o, s.allocated o = false → s.due o = none
  /-- A deleted object has no members left. -/
  emptied : ∀ o ∈ s.deleted.map Prod.fst, s.members o = []

/-- **The ownership invariant.** -/
structure Sound (s : State Loc Obj D) : Prop where
  shape : Shape s
  exclusive : Exclusive s.ptr (fun o => (s.due o).isSome) s.released (s.deleted.map Prod.fst)

/-! ### Pointers -/

section Ptr

variable (s : State Loc Obj D)

theorem ptr_eq_of_handle {l : Loc} {h : Handle Obj D} (hl : s.handle l = some h) :
    s.ptr l = h.ptr := by
  rw [State.ptr, hl, Option.bind_some]

theorem ptr_eq_none_of_vacant {l : Loc} (hl : s.Vacant l) : s.ptr l = none := by
  rw [State.ptr, Option.isNone_iff_eq_none.mp hl, Option.bind_none]

theorem exists_handle_of_not_vacant {l : Loc} (hl : ¬ s.Vacant l) : ∃ h, s.handle l = some h := by
  rw [← Option.isSome_iff_exists, Option.isSome_iff_ne_none]
  exact fun hnone => hl (Option.isNone_iff_eq_none.mpr hnone)

variable [DecidableEq Loc]

@[simp] theorem setHandle_handle_self (l : Loc) (h : Option (Handle Obj D)) :
    (s.setHandle l h).handle l = h :=
  Function.update_self _ _ _

theorem setHandle_handle_of_ne {l m : Loc} (hm : m ≠ l) (h : Option (Handle Obj D)) :
    (s.setHandle l h).handle m = s.handle m :=
  Function.update_of_ne hm _ _

/-- What a place owns once a handle is written there. -/
theorem ptr_setHandle (l : Loc) (h : Option (Handle Obj D)) :
    (s.setHandle l h).ptr = Function.update s.ptr l (h.bind Handle.ptr) := by
  funext m
  by_cases hm : m = l
  · subst hm
    rw [Function.update_self, State.ptr, setHandle_handle_self]
  · rw [Function.update_of_ne hm, State.ptr, setHandle_handle_of_ne s hm, State.ptr]

theorem isSome_setHandle_some (l : Loc) (h : Handle Obj D) {m : Loc}
    (hm : (s.handle m).isSome) : ((s.setHandle l (some h)).handle m).isSome := by
  by_cases hml : m = l
  · subst hml
    rw [setHandle_handle_self]
    rfl
  · rwa [setHandle_handle_of_ne s hml]

end Ptr

section Ledger

variable [DecidableEq Obj] (s : State Loc Obj D)

@[simp] theorem enter_handle (ptr : Option Obj) (del : D) :
    (s.enter ptr del).handle = s.handle := by
  cases ptr <;> rfl

@[simp] theorem enter_stack (ptr : Option Obj) (del : D) : (s.enter ptr del).stack = s.stack := by
  cases ptr <;> rfl

@[simp] theorem convert_handle (ptr : Option Obj) (recv : D → D) :
    (s.convert ptr recv).handle = s.handle := by
  cases ptr <;> rfl

@[simp] theorem convert_stack (ptr : Option Obj) (recv : D → D) :
    (s.convert ptr recv).stack = s.stack := by
  cases ptr <;> rfl

end Ledger

/-! ### The pieces of an operation -/

namespace Shape

variable {s : State Loc Obj D}

/-- A handle is written somewhere. -/
theorem setHandle [DecidableEq Loc] (h : Shape s) (l : Loc) (x : Handle Obj D) :
    Shape (s.setHandle l (some x)) where
  memberLive o m hm := isSome_setHandle_some s l x (h.memberLive o m hm)
  memberOnce := h.memberOnce
  memberOf := h.memberOf
  stackLive m hm := isSome_setHandle_some s l x (h.stackLive m hm)
  stackOnce := h.stackOnce
  stackApart := h.stackApart
  unallocated := h.unallocated
  emptied := h.emptied

/-- Only the ledger of what is due changes, for objects that were allocated. -/
theorem withDue (h : Shape s) {due : Obj → Option D}
    (hdue : ∀ o, s.allocated o = false → due o = none) : Shape { s with due := due } where
  memberLive := h.memberLive
  memberOnce := h.memberOnce
  memberOf := h.memberOf
  stackLive := h.stackLive
  stackOnce := h.stackOnce
  stackApart := h.stackApart
  unallocated := hdue
  emptied := h.emptied

end Shape

namespace Sound

variable {s : State Loc Obj D}

section Handles

variable [DecidableEq Loc]

/-- A null handle comes to life. -/
theorem setNull (h : Sound s) {l : Loc} (hl : s.ptr l = none) (del : D) :
    Sound (s.setHandle l (some ⟨none, del⟩)) := by
  refine ⟨h.shape.setHandle l _, ?_⟩
  rw [ptr_setHandle]
  exact h.exclusive.clear hl

/-- The pieces of a move: the target takes over what the source owned. -/
theorem moveFrom (h : Sound s) {Δ : Deleters Ty D} {ty : Loc → Ty} {recv : D → D} {l src : Loc}
    {other : Handle Obj D} (hl : s.Vacant l) (hsrc : s.handle src = some other) :
    Sound ((s.setHandle src (some ⟨none, Δ.moved (ty src) (ty l) other.del⟩)).setHandle l
      (some ⟨other.ptr, recv other.del⟩)) := by
  refine ⟨(h.shape.setHandle _ _).setHandle _ _, ?_⟩
  have hswap := h.exclusive.swap src l
  rw [ptr_eq_none_of_vacant s hl, ptr_eq_of_handle s hsrc] at hswap
  rw [ptr_setHandle, ptr_setHandle]
  exact hswap

/-- Two handles are exchanged. -/
theorem swap (h : Sound s) {a b : Loc} {x y : Handle Obj D} (ha : s.handle a = some x)
    (hb : s.handle b = some y) :
    Sound ((s.setHandle a (some ⟨y.ptr, y.del⟩)).setHandle b (some ⟨x.ptr, x.del⟩)) := by
  refine ⟨(h.shape.setHandle _ _).setHandle _ _, ?_⟩
  have hswap := h.exclusive.swap a b
  rw [ptr_eq_of_handle s ha, ptr_eq_of_handle s hb] at hswap
  rw [ptr_setHandle, ptr_setHandle]
  exact hswap

/-- A handle gives its pointer back. -/
theorem release (h : Sound s) {l : Loc} {x : Handle Obj D} (hl : s.handle l = some x) :
    Sound { s.setHandle l (some ⟨none, x.del⟩) with released := s.released ++ x.ptr.toList } := by
  have hptr := ptr_eq_of_handle s hl
  refine ⟨⟨(h.shape.setHandle l _).memberLive, h.shape.memberOnce, h.shape.memberOf,
    (h.shape.setHandle l _).stackLive, h.shape.stackOnce, h.shape.stackApart,
    h.shape.unallocated, h.shape.emptied⟩, ?_⟩
  show Exclusive (s.setHandle l _).ptr _ (s.released ++ x.ptr.toList) _
  rw [ptr_setHandle]
  cases hx : x.ptr with
  | none =>
    rw [hx] at hptr
    rw [Option.toList_none, List.append_nil]
    exact h.exclusive.clear hptr
  | some o =>
    rw [hx] at hptr
    exact h.exclusive.release hptr

end Handles

/-- A handle that is no member is to be destroyed next. -/
theorem push (h : Sound s) {l : Loc} (hstack : s.stack = []) (hl : (s.handle l).isSome)
    (hout : s.Outside l) : Sound (s.push l) := by
  refine ⟨⟨h.shape.memberLive, h.shape.memberOnce, h.shape.memberOf, ?_, ?_, ?_,
    h.shape.unallocated, h.shape.emptied⟩, h.exclusive⟩
  · intro m hm
    rw [State.push, hstack] at hm
    rw [List.mem_singleton.mp hm]
    exact hl
  · rw [State.push, hstack]
    exact List.nodup_singleton l
  · intro o m hm
    rw [State.push, hstack, List.mem_singleton]
    intro heq
    subst heq
    exact hout o hm

/-- A vacant place is no member. -/
theorem outside_of_vacant (h : Sound s) {l : Loc} (hl : s.Vacant l) : s.Outside l := by
  intro o hmem
  have hlive := h.shape.memberLive o l hmem
  rw [Option.isNone_iff_eq_none.mp hl] at hlive
  cases hlive

/-- A deleted object was handed in, so it was allocated. -/
theorem not_deleted_of_unallocated (h : Sound s) {o : Obj} (ho : s.allocated o = false) :
    o ∉ s.deleted.map Prod.fst := by
  intro hdel
  have hhanded := (h.exclusive.handed o).mpr (.inr (.inr hdel))
  rw [h.shape.unallocated o ho] at hhanded
  cases hhanded

section Ledger

variable [DecidableEq Obj]

/-- What is due may change for an object that was handed in. -/
theorem reenter (h : Sound s) {ptr : Option Obj} {del : D}
    (hdue : ∀ o, ptr = some o → (s.due o).isSome) : Sound (s.enter ptr del) := by
  cases ptr with
  | none => exact h
  | some o =>
    have hsome := hdue o rfl
    refine ⟨h.shape.withDue fun p hp => ?_, ?_⟩
    · have hnone := h.shape.unallocated p hp
      by_cases hpo : p = o
      · subst hpo
        rw [hnone] at hsome
        cases hsome
      · rwa [Function.update_of_ne hpo]
    · have heq : (fun p => ((Function.update s.due o (some del)) p).isSome = true) =
          fun p => (s.due p).isSome = true := by
        funext p
        by_cases hpo : p = o
        · subst hpo
          simp [hsome]
        · rw [Function.update_of_ne hpo]
      show Exclusive s.ptr (fun p => ((Function.update s.due o (some del)) p).isSome = true) _ _
      rw [heq]
      exact h.exclusive

/-- A deleter that is due is converted. -/
theorem convert (h : Sound s) (ptr : Option Obj) (recv : D → D) : Sound (s.convert ptr recv) := by
  cases ptr with
  | none => exact h
  | some o =>
    have hsame : ∀ p, (Function.update s.due o ((s.due o).map recv) p).isSome =
        (s.due p).isSome := by
      intro p
      by_cases hpo : p = o
      · subst hpo
        rw [Function.update_self, Option.isSome_map]
      · rw [Function.update_of_ne hpo]
    refine ⟨h.shape.withDue fun p hp => ?_, ?_⟩
    · rw [← Option.isNone_iff_eq_none, ← Option.not_isSome, hsame, h.shape.unallocated p hp]
      rfl
    · show Exclusive s.ptr
        (fun p => (Function.update s.due o ((s.due o).map recv) p).isSome = true) _ _
      simp only [hsame]
      exact h.exclusive

variable [DecidableEq Loc]

/-- A handle comes to life with a pointer that is fresh or null. -/
theorem enter (h : Sound s) {l : Loc} {ptr : Option Obj} (hl : s.Vacant l) (hptr : s.Fresh ptr)
    (due del : D) : Sound ((s.enter ptr due).setHandle l (some ⟨ptr, del⟩)) := by
  have hnone := ptr_eq_none_of_vacant s hl
  cases ptr with
  | none => exact h.setNull hnone del
  | some o =>
    obtain ⟨halloc, hfresh⟩ := hptr
    have hshape : Shape (s.enter (some o) due) := by
      refine h.shape.withDue fun p hp => ?_
      have hpo : p ≠ o := by
        intro heq
        subst heq
        rw [halloc] at hp
        cases hp
      rw [Function.update_of_ne hpo]
      exact h.shape.unallocated p hp
    refine ⟨hshape.setHandle l _, ?_⟩
    have hnot : ¬ (s.due o).isSome := by
      rw [Option.isNone_iff_eq_none.mp hfresh]
      exact Bool.false_ne_true
    have hentered := h.exclusive.enter hnone hnot
    rw [ptr_setHandle]
    have heq : (fun p => ((Function.update s.due o (some due)) p).isSome = true) =
        fun p => p = o ∨ (s.due p).isSome = true := by
      funext p
      by_cases hpo : p = o
      · subst hpo
        simp
      · simp [hpo]
    show Exclusive (Function.update s.ptr l (some o))
      (fun p => ((Function.update s.due o (some due)) p).isSome = true) _ _
    rw [heq]
    exact hentered

end Ledger

end Sound

/-! ### Allocation -/

section Allocate

variable [DecidableEq Loc] {Δ : Deleters Ty D} {ty : Loc → Ty}

theorem constructMembers_of_notMem {handle : Loc → Option (Handle Obj D)} {ls : List Loc} {l : Loc}
    (hl : l ∉ ls) : constructMembers Δ ty handle ls l = handle l := by
  induction ls generalizing handle with
  | nil => rfl
  | cons m ls ih =>
    rw [List.mem_cons, not_or] at hl
    rw [constructMembers, ih hl.2, Function.update_of_ne hl.1]

theorem constructMembers_of_mem {handle : Loc → Option (Handle Obj D)} {ls : List Loc} {l : Loc}
    (hl : l ∈ ls) : constructMembers Δ ty handle ls l = some ⟨none, Δ.default (ty l)⟩ := by
  induction ls generalizing handle with
  | nil => cases hl
  | cons m ls ih =>
    rw [constructMembers]
    by_cases hmem : l ∈ ls
    · exact ih hmem
    · obtain rfl : l = m := (List.mem_cons.mp hl).resolve_right hmem
      rw [constructMembers_of_notMem hmem, Function.update_self]

variable [DecidableEq Obj]

/-- Member handles come to life null. -/
theorem ptr_allocate {s : State Loc Obj D} {o : Obj} {ls : List Loc}
    (hls : ∀ l ∈ ls, s.Vacant l) : (allocate Δ ty s o ls).ptr = s.ptr := by
  funext l
  show (constructMembers Δ ty s.handle ls l).bind Handle.ptr = s.ptr l
  by_cases hl : l ∈ ls
  · rw [ptr_eq_none_of_vacant s (hls l hl), constructMembers_of_mem hl]
    rfl
  · rw [constructMembers_of_notMem hl, State.ptr]

theorem Sound.allocate {s : State Loc Obj D} (h : Sound s) {o : Obj} {ls : List Loc}
    (ho : s.allocated o = false) (honce : ls.Nodup) (hls : ∀ l ∈ ls, s.Vacant l) :
    Sound (allocate Δ ty s o ls) := by
  have hlive : ∀ l, (s.handle l).isSome → (constructMembers Δ ty s.handle ls l).isSome := by
    intro l hl
    by_cases hmem : l ∈ ls
    · rw [constructMembers_of_mem hmem]
      rfl
    · rwa [constructMembers_of_notMem hmem]
  have hnew : ∀ l ∈ ls, ¬ (s.handle l).isSome := by
    intro l hl hsome
    rw [Option.isNone_iff_eq_none.mp (hls l hl)] at hsome
    cases hsome
  have hmembers : ∀ p l, l ∈ Function.update s.members o ls p ↔
      p = o ∧ l ∈ ls ∨ p ≠ o ∧ l ∈ s.members p := by
    intro p l
    by_cases hp : p = o
    · subst hp
      simp
    · simp [hp]
  refine ⟨⟨?_, ?_, ?_, ?_, h.shape.stackOnce, ?_, ?_, ?_⟩, ?_⟩
  · intro p l hl
    rcases (hmembers p l).mp hl with ⟨-, hl⟩ | ⟨-, hl⟩
    · show (constructMembers Δ ty s.handle ls l).isSome
      rw [constructMembers_of_mem hl]
      rfl
    · exact hlive l (h.shape.memberLive p l hl)
  · intro p
    show (Function.update s.members o ls p).Nodup
    by_cases hp : p = o
    · rw [hp, Function.update_self]
      exact honce
    · rw [Function.update_of_ne hp]
      exact h.shape.memberOnce p
  · intro p q l hp hq
    rcases (hmembers p l).mp hp with ⟨hpo, hnl⟩ | ⟨hpo, hpl⟩
    · rcases (hmembers q l).mp hq with ⟨hqo, -⟩ | ⟨-, hql⟩
      · rw [hpo, hqo]
      · exact absurd (h.shape.memberLive q l hql) (hnew l hnl)
    · rcases (hmembers q l).mp hq with ⟨-, hnl⟩ | ⟨-, hql⟩
      · exact absurd (h.shape.memberLive p l hpl) (hnew l hnl)
      · exact h.shape.memberOf p q l hpl hql
  · intro l hl
    exact hlive l (h.shape.stackLive l hl)
  · intro p l hp hstack
    rcases (hmembers p l).mp hp with ⟨-, hnl⟩ | ⟨-, hpl⟩
    · exact hnew l hnl (h.shape.stackLive l hstack)
    · exact h.shape.stackApart p l hpl hstack
  · intro p hp
    change Function.update s.allocated o true p = false at hp
    have hpo : p ≠ o := by
      intro heq
      subst heq
      rw [Function.update_self] at hp
      cases hp
    rw [Function.update_of_ne hpo] at hp
    exact h.shape.unallocated p hp
  · intro p hp
    have hpo : p ≠ o := by
      intro heq
      subst heq
      exact h.not_deleted_of_unallocated ho hp
    exact (Function.update_of_ne hpo _ _).trans (h.shape.emptied p hp)
  · rw [ptr_allocate hls]
    exact h.exclusive

end Allocate

/-! ### Destructors -/

section Destroy

variable [DecidableEq Loc] [DecidableEq Obj]

/-- What the destructor of the first handle of the stack does. -/
theorem destroyFirst_cases {s s' : State Loc Obj D} (h : destroyFirst s = some s') :
    ∃ l rest x, s.stack = l :: rest ∧ s.handle l = some x ∧
      (x.ptr = none ∧ s' = { s.setHandle l none with stack := rest } ∨
      ∃ o, x.ptr = some o ∧ s' = { s.setHandle l none with
        deleted := s.deleted ++ [(o, x.del)]
        members := Function.update s.members o []
        stack := (s.members o).reverse ++ rest }) := by
  rw [destroyFirst] at h
  split at h
  · cases h
  · rename_i l rest hstack
    split at h
    · cases h
    · rename_i x hx
      split at h <;> cases h
      · rename_i hptr
        exact ⟨l, rest, x, hstack, hx, .inl ⟨hptr, rfl⟩⟩
      · rename_i o hptr
        exact ⟨l, rest, x, hstack, hx, .inr ⟨o, hptr, rfl⟩⟩

/-- There is a destructor to run as long as the stack is not empty. -/
theorem exists_destroyFirst {s : State Loc Obj D} (h : Sound s) (hstack : s.stack ≠ []) :
    ∃ s', destroyFirst s = some s' := by
  obtain ⟨l, rest, hs⟩ := List.exists_cons_of_ne_nil hstack
  have hlive := h.shape.stackLive l (by rw [hs]; exact List.mem_cons_self)
  obtain ⟨x, hx⟩ := Option.isSome_iff_exists.mp hlive
  rw [destroyFirst, hs]
  simp only [hx]
  cases x.ptr with
  | none => exact ⟨_, rfl⟩
  | some o => exact ⟨_, rfl⟩

/-- **A destructor keeps the ownership invariant.** -/
theorem Sound.destroyFirst {s s' : State Loc Obj D} (h : Sound s)
    (hs : UniquePtr.destroyFirst s = some s') : Sound s' := by
  obtain ⟨l, rest, x, hstack, hx, hcase⟩ := destroyFirst_cases hs
  have hptr := ptr_eq_of_handle s hx
  have honce : l ∉ rest ∧ rest.Nodup := by
    have := h.shape.stackOnce
    rwa [hstack, List.nodup_cons] at this
  have hmember : ∀ o m, m ∈ s.members o → m ≠ l := by
    intro o m hm heq
    subst heq
    exact h.shape.stackApart o m hm (by rw [hstack]; exact List.mem_cons_self)
  have hrest : ∀ m ∈ rest, (s.handle m).isSome ∧ m ≠ l := by
    intro m hm
    refine ⟨h.shape.stackLive m (by rw [hstack]; exact List.mem_cons_of_mem l hm), ?_⟩
    intro heq
    subst heq
    exact honce.1 hm
  have hlive : ∀ m, m ≠ l → (s.handle m).isSome → ((s.setHandle l none).handle m).isSome := by
    intro m hm hsome
    rwa [setHandle_handle_of_ne s hm]
  have hapart : ∀ o m, m ∈ s.members o → m ∉ rest := fun o m hm hmr =>
    h.shape.stackApart o m hm (by rw [hstack]; exact List.mem_cons_of_mem l hmr)
  rcases hcase with ⟨hnull, rfl⟩ | ⟨o, ho, rfl⟩
  · refine ⟨⟨fun p m hm => hlive m (hmember p m hm) (h.shape.memberLive p m hm),
      h.shape.memberOnce, h.shape.memberOf, fun m hm => hlive m (hrest m hm).2 (hrest m hm).1,
      honce.2, hapart, h.shape.unallocated, h.shape.emptied⟩, ?_⟩
    show Exclusive (s.setHandle l none).ptr _ _ _
    rw [ptr_setHandle]
    exact h.exclusive.clear (hptr.trans hnull)
  · have hmembers : ∀ p m, m ∈ Function.update s.members o [] p ↔ p ≠ o ∧ m ∈ s.members p := by
      intro p m
      by_cases hp : p = o
      · subst hp
        simp
      · simp [hp]
    refine ⟨⟨?_, ?_, ?_, ?_, ?_, ?_, h.shape.unallocated, ?_⟩, ?_⟩
    · intro p m hm
      obtain ⟨-, hm⟩ := (hmembers p m).mp hm
      exact hlive m (hmember p m hm) (h.shape.memberLive p m hm)
    · intro p
      show (Function.update s.members o [] p).Nodup
      by_cases hp : p = o
      · rw [hp, Function.update_self]
        exact List.nodup_nil
      · rw [Function.update_of_ne hp]
        exact h.shape.memberOnce p
    · intro p q m hp hq
      exact h.shape.memberOf p q m ((hmembers p m).mp hp).2 ((hmembers q m).mp hq).2
    · intro m hm
      rcases List.mem_append.mp hm with hm | hm
      · rw [List.mem_reverse] at hm
        exact hlive m (hmember o m hm) (h.shape.memberLive o m hm)
      · exact hlive m (hrest m hm).2 (hrest m hm).1
    · refine List.nodup_append'.mpr ⟨List.nodup_reverse.mpr (h.shape.memberOnce o), honce.2, ?_⟩
      intro m hm hmr
      exact hapart o m (List.mem_reverse.mp hm) hmr
    · intro p m hm hstk
      obtain ⟨hpo, hm⟩ := (hmembers p m).mp hm
      rcases List.mem_append.mp hstk with hmo | hmr
      · exact hpo (h.shape.memberOf p o m hm (List.mem_reverse.mp hmo))
      · exact hapart p m hm hmr
    · intro p hp
      show Function.update s.members o [] p = []
      by_cases hpo : p = o
      · rw [hpo, Function.update_self]
      · rw [Function.update_of_ne hpo]
        rw [List.map_append, List.mem_append] at hp
        exact h.shape.emptied p (hp.resolve_right fun hc => hpo (List.mem_singleton.mp hc))
    · show Exclusive (s.setHandle l none).ptr _ _ ((s.deleted ++ [(o, x.del)]).map Prod.fst)
      rw [ptr_setHandle, List.map_append]
      exact h.exclusive.destroy (hptr.trans ho)

end Destroy

end CcSnippets.UniquePtr

import CcSnippets.Core.Tally
import CcSnippets.Null.UniquePtr.Calls

/-!
# CcSnippets.Null.UniquePtr.Ownership

**One owner, one deletion.** In every state, also between the destructors of a
recursion, each object handed in is owned by one handle, or was given back, or
was deleted. An operation that gives up an object deletes exactly what that
object owned through its members, all the way down (`Below`).
-/

namespace CcSnippets.UniquePtr

open CcSnippets.Core

variable {Ty Loc Obj D : Type*}

/-! ### What a deletion takes with it -/

/-- `o` is `p`, or is owned through members of `p`, all the way down. -/
inductive Below (s : State Loc Obj D) (p : Obj) : Obj → Prop
  | self : Below s p p
  | member {q o : Obj} {l : Loc} : Below s p q → l ∈ s.members q → s.ptr l = some o → Below s p o

/-- The destructors to be run will delete `o`. -/
def Falls (s : State Loc Obj D) (o : Obj) : Prop :=
  ∃ l ∈ s.stack, ∃ p, s.ptr l = some p ∧ Below s p o

/-- Deleted, or about to be. -/
def Fallen (s : State Loc Obj D) (o : Obj) : Prop := o ∈ s.deleted.map Prod.fst ∨ Falls s o

theorem Below.mono {s s' : State Loc Obj D} (hm : ∀ q l, l ∈ s'.members q → l ∈ s.members q)
    (hp : ∀ l o, s'.ptr l = some o → s.ptr l = some o) {p o : Obj} (h : Below s' p o) :
    Below s p o := by
  induction h with
  | self => exact .self
  | member _ hl ho ih => exact .member ih (hm _ _ hl) (hp _ _ ho)

theorem Below.trans {s : State Loc Obj D} {p q o : Obj} (h : Below s p q) (h' : Below s q o) :
    Below s p o := by
  induction h' with
  | self => exact h
  | member _ hl ho ih => exact .member ih hl ho

/-- What falls is owned. -/
theorem Falls.owned {s : State Loc Obj D} {o : Obj} (h : Falls s o) : ∃ l, s.ptr l = some o := by
  obtain ⟨l, -, p, hp, hbelow⟩ := h
  cases hbelow with
  | self => exact ⟨l, hp⟩
  | member _ _ ho => exact ⟨_, ho⟩

/-- What an object that falls owns through a member falls with it. -/
theorem Falls.member {s : State Loc Obj D} {q o : Obj} {l : Loc} (h : Falls s q)
    (hl : l ∈ s.members q) (ho : s.ptr l = some o) : Falls s o := by
  obtain ⟨r, hr, p, hp, hbelow⟩ := h
  exact ⟨r, hr, p, hp, .member hbelow hl ho⟩

variable [DecidableEq Loc] [DecidableEq Obj]

omit [DecidableEq Loc] [DecidableEq Obj] in
/-- The destructor of a null handle: it owned nothing. -/
theorem fallen_of_null {s s' : State Loc Obj D} {l : Loc} {rest : List Loc}
    (hstack : s.stack = l :: rest) (hl : s.ptr l = none) (hptr : s'.ptr = s.ptr)
    (hmembers : s'.members = s.members) (hstack' : s'.stack = rest)
    (hdeleted : s'.deleted = s.deleted) (o : Obj) : Fallen s' o ↔ Fallen s o := by
  rw [Fallen, Fallen, hdeleted]
  refine or_congr_right ⟨?_, ?_⟩
  · intro hfalls
    obtain ⟨m, hm, q, hq, hbelow⟩ := hfalls
    rw [hstack'] at hm
    refine ⟨m, by rw [hstack]; exact List.mem_cons_of_mem l hm, q, by rw [← hptr]; exact hq, ?_⟩
    exact hbelow.mono (fun _ _ hk => hmembers ▸ hk) fun _ _ hk => hptr ▸ hk
  · intro hfalls
    obtain ⟨m, hm, q, hq, hbelow⟩ := hfalls
    rw [hstack] at hm
    have hmr : m ∈ s'.stack := by
      rw [hstack']
      refine (List.mem_cons.mp hm).resolve_left fun hml => ?_
      rw [hml, hl] at hq
      cases hq
    refine ⟨m, hmr, q, by rw [hptr]; exact hq, ?_⟩
    exact hbelow.mono (fun _ _ hk => hmembers ▸ hk) fun _ _ hk => hptr ▸ hk

/-- The destructor of a handle that owns `p`: the members of `p` are put in front. -/
theorem fallen_of_delete {s s' : State Loc Obj D} (h : Sound s) {l : Loc} {rest : List Loc}
    {p : Obj} {del : D} (hstack : s.stack = l :: rest) (hl : s.ptr l = some p)
    (hptr : s'.ptr = Function.update s.ptr l none)
    (hmembers : s'.members = Function.update s.members p [])
    (hstack' : s'.stack = (s.members p).reverse ++ rest)
    (hdeleted : s'.deleted = s.deleted ++ [(p, del)]) (o : Obj) :
    Fallen s' o ↔ Fallen s o := by
  have hptr_of_ne : ∀ m, m ≠ l → s'.ptr m = s.ptr m := by
    intro m hm
    rw [hptr, Function.update_of_ne hm]
  have hptrl : s'.ptr l = none := by rw [hptr, Function.update_self]
  have hback : ∀ m q, s'.ptr m = some q → s.ptr m = some q := by
    intro m q hm
    have hml : m ≠ l := by
      intro heq
      subst heq
      rw [hptrl] at hm
      cases hm
    rwa [hptr_of_ne m hml] at hm
  have hmem : ∀ q m, m ∈ s'.members q ↔ q ≠ p ∧ m ∈ s.members q := by
    intro q m
    rw [hmembers]
    by_cases hq : q = p
    · subst hq
      simp
    · simp [hq]
  have hdel : ∀ q, q ∈ s'.deleted.map Prod.fst ↔ q ∈ s.deleted.map Prod.fst ∨ q = p := by
    intro q
    rw [hdeleted, List.map_append, List.mem_append]
    simp only [List.map_cons, List.map_nil, List.mem_singleton]
  have hroot : Falls s p := ⟨l, by rw [hstack]; exact List.mem_cons_self, p, hl, .self⟩
  constructor
  · intro hfallen
    rcases hfallen with hgone | ⟨m, hm, q, hq, hbelow⟩
    · rcases (hdel o).mp hgone with hold | rfl
      · exact .inl hold
      · exact .inr hroot
    · have hbelow' : Below s q o := hbelow.mono (fun r m hm => ((hmem r m).mp hm).2) hback
      rw [hstack'] at hm
      rcases List.mem_append.mp hm with hm | hm
      · obtain ⟨r, hr, p', hp', hpq⟩ := hroot.member (List.mem_reverse.mp hm) (hback m q hq)
        exact .inr ⟨r, hr, p', hp', hpq.trans hbelow'⟩
      · exact .inr ⟨m, by rw [hstack]; exact List.mem_cons_of_mem l hm, q, hback m q hq, hbelow'⟩
  · intro hfallen
    rcases hfallen with hgone | ⟨m, hm, q, hq, hbelow⟩
    · exact .inl ((hdel o).mpr (.inl hgone))
    · -- by induction on the way down from the root
      induction hbelow with
      | self =>
        rw [hstack] at hm
        rcases List.mem_cons.mp hm with rfl | hmr
        · obtain rfl : p = q := Option.some.inj (hl.symm.trans hq)
          exact .inl ((hdel p).mpr (.inr rfl))
        · have hml : m ≠ l := by
            intro hml
            have honce := h.shape.stackOnce
            rw [hstack, List.nodup_cons] at honce
            exact honce.1 (hml ▸ hmr)
          refine .inr ⟨m, by rw [hstack']; exact List.mem_append_right _ hmr, q, ?_, .self⟩
          rw [hptr_of_ne m hml, hq]
      | @member r t n _ hn ht ih =>
        have hnl : n ≠ l := by
          intro heq
          subst heq
          exact h.shape.stackApart r n hn (by rw [hstack]; exact List.mem_cons_self)
        have ht' : s'.ptr n = some t := (hptr_of_ne n hnl).trans ht
        rcases ih with hgone | hfalls
        · rcases (hdel r).mp hgone with hold | rfl
          · -- a deleted object has no members left
            rw [h.shape.emptied r hold] at hn
            cases hn
          · refine .inr ⟨n, ?_, t, ht', .self⟩
            rw [hstack']
            exact List.mem_append_left _ (List.mem_reverse.mpr hn)
        · have hrp : r ≠ p := by
            intro heq
            subst heq
            obtain ⟨k, hk⟩ := hfalls.owned
            rw [h.exclusive.unique k l r (hback k r hk) hl, hptrl] at hk
            cases hk
          exact .inr (hfalls.member ((hmem r n).mpr ⟨hrp, hn⟩) ht')

/-- What the destructor of the first handle of the stack changes. -/
structure Destroyed (s s' : State Loc Obj D) : Prop where
  sound : Sound s'
  /-- It deletes at most one object, -/
  deleted : ∃ gone, s'.deleted = s.deleted ++ gone
  released : s'.released = s.released
  /-- it ends one handle, -/
  handle : ∃ l rest, s.stack = l :: rest ∧ s'.handle = Function.update s.handle l none ∧
    /- and has the members of that object destroyed next. -/
    ∀ m ∈ s'.stack, m ∈ rest ∨ ∃ o, s.ptr l = some o ∧ m ∈ s.members o
  members : ∀ o m, m ∈ s'.members o → m ∈ s.members o
  fallen : ∀ o, Fallen s' o ↔ Fallen s o

/-- **One destructor changes nothing about what falls in the end.** -/
theorem destroyed_of_destroyFirst {s s' : State Loc Obj D} (h : Sound s)
    (hs : destroyFirst s = some s') : Destroyed s s' := by
  have hsound := h.destroyFirst hs
  obtain ⟨l, rest, x, hstack, hx, hcase⟩ := destroyFirst_cases hs
  have hl := ptr_eq_of_handle s hx
  have hptr : (s.setHandle l none).ptr = Function.update s.ptr l none := by
    rw [ptr_setHandle, Option.bind_none]
  rcases hcase with ⟨hnull, rfl⟩ | ⟨p, hp, rfl⟩
  · refine ⟨hsound, ⟨[], (List.append_nil _).symm⟩, rfl, ⟨l, rest, hstack, rfl, fun m hm =>
      .inl hm⟩, fun _ _ hm => hm, fallen_of_null hstack (hl.trans hnull) ?_ rfl rfl rfl⟩
    exact hptr.trans (by rw [← hl.trans hnull, Function.update_eq_self])
  · refine ⟨hsound, ⟨_, rfl⟩, rfl, ⟨l, rest, hstack, rfl, fun m hm => ?_⟩, fun o m hm => ?_,
      fallen_of_delete h hstack (hl.trans hp) hptr rfl rfl rfl⟩
    · rcases List.mem_append.mp hm with hm | hm
      · exact .inr ⟨p, hl.trans hp, List.mem_reverse.mp hm⟩
      · exact .inl hm
    · have hm' : m ∈ Function.update s.members p [] o := hm
      by_cases ho : o = p
      · rw [ho, Function.update_self] at hm'
        cases hm'
      · rwa [Function.update_of_ne ho] at hm'

/-! ### A recursion of destructors -/

/-- How far the recursion that starts in `s₁` has come in `s`. -/
structure Unwinding (s₁ s : State Loc Obj D) : Prop where
  sound : Sound s
  deleted : ∃ gone, s.deleted = s₁.deleted ++ gone
  released : s.released = s₁.released
  fallen : ∀ o, Fallen s o ↔ Fallen s₁ o
  members : ∀ o m, m ∈ s.members o → m ∈ s₁.members o
  stack : ∀ l ∈ s.stack, l ∈ s₁.stack ∨ ∃ o, Falls s₁ o ∧ l ∈ s₁.members o
  kept : ∀ l, l ∉ s₁.stack → (∀ o, Falls s₁ o → l ∉ s₁.members o) → s.handle l = s₁.handle l

/-- What the recursion leaves: exactly what was to fall is deleted, and no other
handle is touched. -/
structure Disposed (s₁ s₂ : State Loc Obj D) : Prop where
  stack : s₂.stack = []
  deleted : ∃ gone, s₂.deleted = s₁.deleted ++ gone ∧ ∀ o, o ∈ gone.map Prod.fst ↔ Falls s₁ o
  released : s₂.released = s₁.released
  kept : ∀ l, l ∉ s₁.stack → (∀ o, Falls s₁ o → l ∉ s₁.members o) → s₂.handle l = s₁.handle l

omit [DecidableEq Loc] [DecidableEq Obj] in
theorem Unwinding.refl {s : State Loc Obj D} (h : Sound s) : Unwinding s s :=
  ⟨h, ⟨[], (List.append_nil _).symm⟩, rfl, fun _ => .rfl, fun _ _ hm => hm, fun _ hl => .inl hl,
    fun _ _ _ => rfl⟩

omit [DecidableEq Obj] in
/-- **Step lemma.** -/
theorem Unwinding.destroyed {s₁ s s' : State Loc Obj D} (h : Unwinding s₁ s) (hsound : Sound s₁)
    (hd : Destroyed s s') : Unwinding s₁ s' := by
  obtain ⟨l, rest, hstack, hhandle, hpushed⟩ := hd.handle
  have hl : l ∈ s.stack := by
    rw [hstack]
    exact List.mem_cons_self
  refine ⟨hd.sound, ?_, hd.released.trans h.released, fun o => (hd.fallen o).trans (h.fallen o),
    fun o m hm => h.members o m (hd.members o m hm), ?_, ?_⟩
  · obtain ⟨gone, hgone⟩ := h.deleted
    obtain ⟨more, hmore⟩ := hd.deleted
    exact ⟨gone ++ more, by rw [hmore, hgone, List.append_assoc]⟩
  · intro m hm
    rcases hpushed m hm with hrest | ⟨o, ho, hmo⟩
    · exact h.stack m (by rw [hstack]; exact List.mem_cons_of_mem l hrest)
    · -- a member of the object that `l` owned
      have hmo₁ := h.members o m hmo
      rcases (h.fallen o).mp (.inr ⟨l, hl, o, ho, .self⟩) with hgone | hfalls
      · rw [hsound.shape.emptied o hgone] at hmo₁
        cases hmo₁
      · exact .inr ⟨o, hfalls, hmo₁⟩
  · intro k hk hkm
    have hkl : k ≠ l := by
      intro heq
      subst heq
      rcases h.stack k hl with hin | ⟨o, ho, hin⟩
      · exact hk hin
      · exact hkm o ho hin
    rw [hhandle, Function.update_of_ne hkl]
    exact h.kept k hk hkm

omit [DecidableEq Loc] [DecidableEq Obj] in
/-- Once no destructor is left to run, what was to fall has been deleted. -/
theorem Unwinding.disposed {s₁ s₂ : State Loc Obj D} (h : Unwinding s₁ s₂) (hsound : Sound s₁)
    (hstack : s₂.stack = []) : Disposed s₁ s₂ := by
  obtain ⟨gone, hgone⟩ := h.deleted
  refine ⟨hstack, ⟨gone, hgone, fun o => ?_⟩, h.released, h.kept⟩
  have honce : (s₁.deleted.map Prod.fst ++ gone.map Prod.fst).Nodup := by
    rw [← List.map_append, ← hgone]
    exact h.sound.exclusive.once.of_append_right
  constructor
  · intro ho
    have hfallen : Fallen s₂ o := by
      left
      rw [hgone, List.map_append]
      exact List.mem_append_right _ ho
    exact ((h.fallen o).mp hfallen).resolve_left fun hold =>
      List.disjoint_of_nodup_append honce hold ho
  · intro hfalls
    have hnot : o ∉ s₁.deleted.map Prod.fst := by
      obtain ⟨l, hl⟩ := hfalls.owned
      exact (hsound.exclusive.kept l o hl).2
    rcases (h.fallen o).mpr (.inr hfalls) with hdel | ⟨l, hl, -⟩
    · rw [hgone, List.map_append] at hdel
      exact (List.mem_append.mp hdel).resolve_left hnot
    · rw [hstack] at hl
      cases hl

section Runs

variable [DecidableEq Ty] [Fintype Obj] {Δ : Deleters Ty D} {ty : Loc → Ty}

/-- How many handles live. -/
def liveHandles [Fintype Loc] (s : State Loc Obj D) : ℕ :=
  tally (fun h => if h.isSome then 1 else 0) s.handle

omit [DecidableEq Obj] [Fintype Obj] in
/-- Every destructor ends one handle, so there is a last one. -/
theorem liveHandles_lt [Fintype Loc] {s s' : State Loc Obj D} (h : Sound s)
    (hd : Destroyed s s') : liveHandles s' < liveHandles s := by
  obtain ⟨l, rest, hstack, hhandle, -⟩ := hd.handle
  have hlive := h.shape.stackLive l (by rw [hstack]; exact List.mem_cons_self)
  have hcount := tally_update (fun h : Option (Handle Obj D) => if h.isSome then 1 else 0)
    s.handle l none
  simp only [hlive, if_true, Option.isSome_none, Bool.false_eq_true, if_false] at hcount
  rw [liveHandles, liveHandles, hhandle]
  omega

variable (Δ ty) in
/-- **Run lemma.** The destructors run to the end, and leave what they should. -/
theorem exists_disposed [Fintype Loc] {s₁ : State Loc Obj D} (h : Sound s₁) :
    ∃ n s₂, (system Δ ty).run s₁ (List.replicate n .step) = some s₂ ∧ Sound s₂ ∧
      Disposed s₁ s₂ := by
  have hstep : ∀ s, Unwinding s₁ s → ¬ s.stack = [] →
      ∃ s', (system Δ ty).next s .step = some s' ∧ Unwinding s₁ s' ∧
        liveHandles s' < liveHandles s := by
    intro s hs hne
    obtain ⟨s', hs'⟩ := exists_destroyFirst hs.sound hne
    have hd := destroyed_of_destroyFirst hs.sound hs'
    exact ⟨s', hs', hs.destroyed h hd, liveHandles_lt hs.sound hd⟩
  obtain ⟨n, s₂, hrun, hs₂, hdone⟩ := System.exists_run_done hstep (Unwinding.refl h)
  exact ⟨n, s₂, hrun, hs₂.sound, hs₂.disposed h hdone⟩

omit [DecidableEq Loc] [DecidableEq Obj] [DecidableEq Ty] [Fintype Obj] in
theorem sound_start : Sound (.start : State Loc Obj D) where
  shape := by constructor <;> simp [State.start]
  exclusive := by
    have hnone : (State.start : State Loc Obj D).ptr = fun _ => none := rfl
    have hnobody : (fun o => ((State.start : State Loc Obj D).due o).isSome = true) =
        fun _ => False := by
      funext o
      exact eq_false Bool.false_ne_true
    rw [hnone, hnobody]
    exact Exclusive.empty

/-- The ownership invariant holds in every reachable state. -/
theorem sound_of_reach {ok : State Loc Obj D → Label Loc Obj D → Prop} {s : State Loc Obj D}
    (h : (system Δ ty).Reach ok s) : Sound s := by
  refine h.invariant ?_ ?_
  · intro s heq
    subst heq
    exact sound_start
  · intro s l s' _ hs _ hnext
    cases l with
    | step => exact hs.destroyFirst hnext
    | call op =>
      simp only [system, next] at hnext
      split at hnext
      · rename_i hok
        obtain ⟨m, hm, hcalled⟩ := exists_called (Δ := Δ) hs hok.1 hok.2
        obtain rfl := Option.some.inj (hm.symm.trans hnext)
        exact hcalled.sound
      · cases hnext

/-- **Exclusive ownership, deletion exactly once.** In every reachable state each
object that was handed in is owned by exactly one handle, or was given back, or
was deleted once. Between two operations every operation a program may call goes
through: it does to its handles what it promises (`Called`), its destructors run
to the end, and what is deleted is exactly what the handle it destroys owned, all
the way down; nothing else changes hands. -/
theorem owned_exactly_once [Fintype Loc] {s : State Loc Obj D}
    (h : (system Δ ty).Reachable s) :
    (∀ o, OneFate s.ptr (fun o => (s.due o).isSome) s.released (s.deleted.map Prod.fst) o) ∧
    (s.stack = [] → ∀ op : Op Loc Obj D, op.Ok ty s →
      ∃ s₁ n s₂, (system Δ ty).next s (.call op) = some s₁ ∧ Called op s s₁ ∧
        (system Δ ty).run s₁ (List.replicate n .step) = some s₂ ∧ Disposed s₁ s₂) := by
  have hs := sound_of_reach h
  refine ⟨hs.exclusive.oneFate, fun hstack op hok => ?_⟩
  obtain ⟨s₁, hs₁, hcalled⟩ := exists_called (Δ := Δ) hs hstack hok
  obtain ⟨n, s₂, hrun, -, hdisposed⟩ := exists_disposed Δ ty hcalled.sound
  refine ⟨s₁, n, s₂, ?_, hcalled, hrun, hdisposed⟩
  simp only [system, next]
  rw [if_pos ⟨hstack, hok⟩]
  exact hs₁

/-- `p = std::move (p->next)` on a list of two: the first object is deleted, its
member with it, and `p` owns the second. -/
theorem owned_exactly_once_list :
    ∃ s, (system (⟨fun _ => 0, fun _ _ d => d, fun _ _ d => d⟩ : Deleters Unit ℕ) fun _ => () :
        System (State (Fin 3) Bool ℕ) _).run .start
        [.call (.allocate true []), .call (.allocate false [1]), .call (.construct 0 (some false)),
          .call (.reset 1 (some true) 2), .step, .call (.moveAssign 0 1 2), .step, .step]
        = some s ∧
      s.ptr 0 = some true ∧ s.handle 1 = none ∧
      OneFate s.ptr (fun o => (s.due o).isSome) s.released (s.deleted.map Prod.fst) false ∧
      s.deleted = [(false, 0)] := by
  obtain ⟨s, hrun, hptr, hgone, hdel⟩ : ∃ s, (system (⟨fun _ => 0, fun _ _ d => d, fun _ _ d => d⟩ :
        Deleters Unit ℕ) fun _ => () : System (State (Fin 3) Bool ℕ) _).run .start
        [.call (.allocate true []), .call (.allocate false [1]), .call (.construct 0 (some false)),
          .call (.reset 1 (some true) 2), .step, .call (.moveAssign 0 1 2), .step, .step]
        = some s ∧ s.ptr 0 = some true ∧ s.handle 1 = none ∧ s.deleted = [(false, 0)] :=
    ⟨_, rfl, rfl, rfl, rfl⟩
  exact ⟨s, hrun, hptr, hgone, (owned_exactly_once (System.Reach.run (.init rfl) hrun)).1 false,
    hdel⟩

end Runs

end CcSnippets.UniquePtr

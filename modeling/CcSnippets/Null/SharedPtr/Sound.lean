import CcSnippets.Null.SharedPtr.Balance

/-!
# CcSnippets.Null.SharedPtr.Sound

The invariant of `shared_ptr` and `weak_ptr` handles in one thread, **in the
middle of an operation too**: every account balances, no place has two claims,
and a handle's pointer is that of its control block. Each operation and each call
of the stack is enabled where it holds (no control block is touched after its
`destroy ()`, no handle is destroyed twice) and keeps it.
-/

namespace CcSnippets.SharedPtr

open CcSnippets.Core

variable {Loc Obj D : Type*} [Fintype Loc] [Fintype Obj] [DecidableEq Loc] [DecidableEq Obj]

/-- What holds between any two steps. -/
structure Sound (s : State Loc Obj D) : Prop where
  balanced : ∀ o, Balanced (s.block o) (s.handed o) (s.account o)
  claimed : ∀ l, s.claims l ≤ if (s.handle l).isSome then 1 else 0
  /-- A handle points to the object of its control block. -/
  pointed : ∀ l h, s.handle l = some h → h.ptr = h.cb
  /-- An object is deleted by the deleter it came with. -/
  deleters : ∀ o d, (o, d) ∈ s.deleted ∨ .delete o d ∈ s.stack → s.handed o = some d
  fresh : ∀ o, s.allocated o = false → s.handed o = none ∧ s.members o = []
  /-- A deleted object has no members left. -/
  emptied : ∀ o d, (o, d) ∈ s.deleted → s.members o = []

variable {s s' : State Loc Obj D} {l src a b : Loc}

/-! ### What the invariant gives -/

omit [Fintype Loc] [Fintype Obj] [DecidableEq Loc] [DecidableEq Obj] in
/-- The bound on the claims on a place holds on while its handle lives. -/
theorem claimed_of_live {n : ℕ} {x y : Option (Handle Obj)} (hn : n ≤ if x.isSome then 1 else 0)
    (hxy : x.isSome → y.isSome) : n ≤ if y.isSome then 1 else 0 := by
  by_cases hx : x.isSome = true
  · rw [if_pos (hxy hx)]
    rwa [if_pos hx] at hn
  · rw [if_neg hx] at hn
    omega

omit [Fintype Obj] [DecidableEq Loc] in
/-- A handle is in the account of the object it refers to. -/
theorem account_handle_pos {x : Handle Obj} (hx : s.handle l = some x) {o : Obj}
    (ho : x.cb = some o) : 0 < s.account o x.kind.item := by
  have hle := s.entry_handle_le hx o x.kind.item
  rw [Handle.item, ho, Option.map_some, entry_self, one, if_pos rfl] at hle
  omega

namespace Sound

/-- Nothing claims a vacant place. -/
theorem claims_vacant (h : Sound s) (hl : s.Vacant l) : s.claims l = 0 := by
  have hle := h.claimed l
  unfold State.Vacant at hl
  rw [Option.isNone_iff_eq_none.mp hl, Option.isSome_none, if_neg Bool.false_ne_true] at hle
  omega

/-- A claimed handle lives. -/
theorem exists_handle (h : Sound s) (hl : 0 < s.claims l) : ∃ x, s.handle l = some x := by
  have hle := h.claimed l
  cases hx : s.handle l with
  | some x => exact ⟨x, rfl⟩
  | none =>
    rw [hx, Option.isSome_none, if_neg Bool.false_ne_true] at hle
    omega

theorem managed (h : Sound s) {o : Obj} {blk : Block D} (hblk : s.block o = some blk) :
    Managed blk (s.account o) := by
  have hbal := h.balanced o
  rw [hblk] at hbal
  exact hbal.of_some.2

/-- What anything but a call of its deleter refers to is a control block that was
not destroyed. -/
theorem live_of_account (h : Sound s) {o : Obj} {i : Item} (hi : 0 < s.account o i)
    (hdelete : i ≠ .delete) (hdeleted : i ≠ .deleted) :
    ∃ blk, s.block o = some blk ∧ s.liveBlock o = some blk ∧ s.handed o = some blk.del ∧
      Managed blk (s.account o) := by
  obtain ⟨blk, hblk⟩ := (h.balanced o).exists_block hi hdelete hdeleted
  have hbal := h.balanced o
  rw [hblk] at hbal
  obtain ⟨hdel, hm⟩ := hbal.of_some
  refine ⟨blk, hblk, ?_, hdel, hm⟩
  unfold State.liveBlock
  rw [hblk]
  exact if_neg (by simp [hm.alive hi hdelete hdeleted])

/-- So a handle's control block was not destroyed. -/
theorem live_of_handle (h : Sound s) {x : Handle Obj} (hx : s.handle l = some x) {o : Obj}
    (ho : x.cb = some o) :
    ∃ blk, s.block o = some blk ∧ s.liveBlock o = some blk ∧ s.handed o = some blk.del ∧
      Managed blk (s.account o) ∧ 0 < s.account o x.kind.item := by
  have hpos := account_handle_pos hx ho
  obtain ⟨blk, hblk, hlive, hdel, hm⟩ :=
    h.live_of_account hpos (by cases x.kind <;> simp [Kind.item])
      (by cases x.kind <;> simp [Kind.item])
  exact ⟨blk, hblk, hlive, hdel, hm, hpos⟩

/-- A step that touches one object's account keeps all balances where it keeps
that one. -/
theorem balanced_at (h : Sound s) {o : Obj} {block : Obj → Option (Block D)}
    {handed : Obj → Option D} {a' : Obj → Item → ℕ}
    (hother : ∀ p, p ≠ o → block p = s.block p ∧ handed p = s.handed p ∧
      ∀ i, a' p i = s.account p i)
    (ho : Balanced (block o) (handed o) (a' o)) (p : Obj) :
    Balanced (block p) (handed p) (a' p) := by
  by_cases hp : p = o
  · rw [hp]
    exact ho
  · obtain ⟨hblock, hhanded, ha⟩ := hother p hp
    rw [hblock, hhanded, funext ha]
    exact h.balanced p

/-- So does one that passes an entry of that account from one item to another. -/
theorem balanced_pass (h : Sound s) {o : Obj} {x y : Item} {a' : Obj → Item → ℕ}
    (ha : ∀ p i, a' p i + entry (some (x, o)) p i = s.account p i + entry (some (y, o)) p i)
    (ho : (∀ i, a' o i + one x i = s.account o i + one y i) →
      Balanced (s.block o) (s.handed o) (a' o)) (p : Obj) :
    Balanced (s.block p) (s.handed p) (a' p) := by
  refine h.balanced_at (o := o) (fun q hq => ⟨rfl, rfl, fun i => ?_⟩) (ho fun i => ?_) p
  · have heq := ha q i
    rw [entry_of_ne hq, entry_of_ne hq] at heq
    exact heq
  · have heq := ha o i
    rw [entry_self, entry_self] at heq
    exact heq

/-- Handles and control blocks change, and no handle goes. -/
theorem of_handles (h : Sound s) {handle : Loc → Option (Handle Obj)}
    {block : Obj → Option (Block D)} (hlive : ∀ l, (s.handle l).isSome → (handle l).isSome)
    (hpointed : ∀ l x, handle l = some x → x.ptr = x.cb)
    (hbalanced : ∀ o, Balanced (block o) (s.handed o)
      (({ s with handle := handle, block := block } : State Loc Obj D).account o)) :
    Sound { s with handle := handle, block := block } where
  balanced := hbalanced
  claimed l := claimed_of_live (h.claimed l) (hlive l)
  pointed := hpointed
  deleters := h.deleters
  fresh := h.fresh
  emptied := h.emptied

/-- Handles change, no handle goes, and no account changes. -/
theorem of_accounts (h : Sound s) {handle : Loc → Option (Handle Obj)}
    (hlive : ∀ l, (s.handle l).isSome → (handle l).isSome)
    (hpointed : ∀ l x, handle l = some x → x.ptr = x.cb)
    (hacc : ∀ o i, ({ s with handle := handle } : State Loc Obj D).account o i = s.account o i) :
    Sound { s with handle := handle } := by
  refine h.of_handles hlive hpointed fun o => ?_
  show Balanced (s.block o) (s.handed o) (({ s with handle := handle } : State Loc Obj D).account o)
  rw [funext (hacc o)]
  exact h.balanced o

end Sound

/-! ### One handle -/

omit [Fintype Loc] [Fintype Obj] [DecidableEq Obj] in
/-- Setting a handle ends none. -/
theorem isSome_update {handle : Loc → Option (Handle Obj)} (x : Handle Obj) (m : Loc)
    (hm : (handle m).isSome) : (Function.update handle l (some x) m).isSome := by
  by_cases hml : m = l
  · rw [hml, Function.update_self]
    rfl
  · rwa [Function.update_of_ne hml]

omit [Fintype Loc] [Fintype Obj] [DecidableEq Obj] in
theorem pointed_update {handle : Loc → Option (Handle Obj)}
    (h : ∀ m x, handle m = some x → x.ptr = x.cb) {x : Handle Obj} (hx : x.ptr = x.cb) (m : Loc)
    (y : Handle Obj) (hy : Function.update handle l (some x) m = some y) : y.ptr = y.cb := by
  by_cases hml : m = l
  · rw [hml, Function.update_self] at hy
    rwa [← Option.some.inj hy]
  · rw [Function.update_of_ne hml] at hy
    exact h m y hy

omit [Fintype Loc] [Fintype Obj] [DecidableEq Obj] in
/-- The handle at `m` after `new`: null, where it is a member. -/
theorem constructMembers_cases (members : List (Loc × Kind)) (handle : Loc → Option (Handle Obj))
    (m : Loc) :
    (constructMembers handle members m = handle m ∧ m ∉ members.map Prod.fst) ∨
      (∃ kind, constructMembers handle members m = some ⟨kind, none, none⟩) ∧
        m ∈ members.map Prod.fst := by
  induction members generalizing handle with
  | nil => exact .inl ⟨rfl, List.not_mem_nil⟩
  | cons x members ih =>
    obtain ⟨l, kind⟩ := x
    rw [constructMembers, List.map_cons, List.mem_cons]
    rcases ih (Function.update handle l (some ⟨kind, none, none⟩)) with ⟨heq, hm⟩ | ⟨hnull, hm⟩
    · by_cases hml : m = l
      · rw [heq, hml, Function.update_self]
        exact .inr ⟨⟨kind, rfl⟩, .inl rfl⟩
      · rw [heq, Function.update_of_ne hml]
        exact .inl ⟨rfl, fun h => h.elim hml hm⟩
    · exact .inr ⟨hnull, .inr hm⟩

omit [Fintype Obj] in
/-- Null handles stand in no account. -/
theorem account_allocate {o : Obj} {members : List (Loc × Kind)}
    (hvacant : ∀ m ∈ members.map Prod.fst, s.Vacant m) (p : Obj) (i : Item) :
    (allocate s o members).account p i = s.account p i := by
  refine s.account_congr (t := allocate s o members) (fun m => ?_) rfl rfl p i
  show (constructMembers s.handle members m).bind Handle.item = _
  rcases constructMembers_cases members s.handle m with ⟨heq, -⟩ | ⟨⟨kind, heq⟩, hm⟩
  · rw [heq]
  · rw [heq, Option.isNone_iff_eq_none.mp (hvacant m hm)]
    rfl

omit [Fintype Loc] in
/-- The new object claims its members' places. -/
theorem claims_allocate {o : Obj} {members : List (Loc × Kind)} (hnone : s.members o = [])
    (m : Loc) :
    (allocate s o members).claims m = s.claims m + (members.map Prod.fst).count m := by
  have heq := s.claims_setMembers (t := allocate s o members) rfl rfl m
  rw [hnone, List.count_nil, Nat.add_zero] at heq
  exact heq

namespace Sound

/-- A null handle comes to a vacant place. -/
theorem defaultConstruct (h : Sound s) (hl : s.Vacant l) (kind : Kind) :
    Sound (defaultConstruct s kind l) := by
  refine h.of_accounts (isSome_update _) (pointed_update h.pointed rfl) fun o i => ?_
  have hacc := s.account_setHandle l (some ⟨kind, none, none⟩) o i
  rw [Option.isNone_iff_eq_none.mp hl] at hacc
  exact hacc

/-- A handle to a control block comes to a vacant place, and is counted. -/
theorem refer (h : Sound s) (hl : s.Vacant l) {kind : Kind} {o : Obj} {blk : Block D}
    (hdel : s.handed o = some blk.del)
    (hm : ∀ a' : Item → ℕ, (∀ i, a' i = s.account o i + one kind.item i) → Managed blk a') :
    Sound ((s.setBlock o blk).setHandle l (some ⟨kind, some o, some o⟩)) := by
  have hacc : ∀ p i, ((s.setBlock o blk).setHandle l (some ⟨kind, some o, some o⟩)).account p i =
      s.account p i + entry (some (kind.item, o)) p i := by
    intro p i
    have heq := (s.setBlock o blk).account_setHandle l (some ⟨kind, some o, some o⟩) p i
    have hnone : (s.setBlock o blk).handle l = none := Option.isNone_iff_eq_none.mp hl
    rw [hnone] at heq
    exact heq
  refine h.of_handles (isSome_update _) (pointed_update h.pointed rfl)
    (h.balanced_at (o := o) (fun p hp => ⟨s.setBlock_block_of_ne hp blk, rfl, fun i => ?_⟩) ?_)
  · rw [← Nat.add_zero (s.account p i), ← entry_of_ne hp kind.item i]
    exact hacc p i
  · rw [State.setBlock_block_self, hdel]
    refine .managed (hm _ fun i => ?_)
    rw [← entry_self kind.item o i]
    exact hacc o i

/-- The copy constructors. -/
theorem copyConstruct (h : Sound s) (hl : s.Vacant l) {kind : Kind}
    (hsrc : s.Holds .shared src ∨ kind = .weak ∧ s.Holds .weak src) :
    ∃ s', copyConstruct s kind l src = some s' ∧ Sound s' := by
  obtain ⟨x, hx, hkind⟩ : ∃ x, s.handle src = some x ∧ (x.kind = .shared ∨ kind = .weak) := by
    unfold State.Holds at hsrc
    rcases hsrc with hsrc | ⟨hkind, hsrc⟩ <;>
      obtain ⟨x, hx, hxk⟩ := Option.map_eq_some_iff.mp hsrc
    · exact ⟨x, hx, .inl hxk⟩
    · exact ⟨x, hx, .inr hkind⟩
  have hptr := h.pointed src x hx
  unfold SharedPtr.copyConstruct
  rw [hx]
  cases hcb : x.cb with
  | none =>
    rw [hcb] at hptr
    dsimp only
    rw [hcb, hptr]
    exact ⟨_, rfl, h.defaultConstruct hl kind⟩
  | some o =>
    obtain ⟨blk, hblk, hlive, hdel, hm, hpos⟩ := h.live_of_handle hx hcb
    rw [hcb] at hptr
    dsimp only
    rw [hcb, hptr]
    dsimp only
    rw [hlive]
    refine ⟨_, rfl, h.refer hl hdel fun a' ha => ?_⟩
    cases kind with
    | weak =>
      refine hm.incWeak ?_ ha
      cases hk : x.kind <;> rw [hk] at hpos <;> simp only [Kind.item] at hpos <;> omega
    | shared =>
      -- The source is a shared handle, so the object is in use.
      have hk : x.kind = .shared := by simpa using hkind
      rw [hk] at hpos
      have huse := hm.use
      simp only [Kind.item] at hpos
      exact hm.incUse (by omega) ha

/-- The move constructors. -/
theorem moveConstruct (h : Sound s) (hl : s.Vacant l) (hsrc : ¬ s.Vacant src) :
    ∃ s', moveConstruct s l src = some s' ∧ Sound s' := by
  obtain ⟨x, hx⟩ : ∃ x, s.handle src = some x := by
    unfold State.Vacant at hsrc
    exact Option.ne_none_iff_exists'.mp fun hnone => hsrc (Option.isNone_iff_eq_none.mpr hnone)
  have hnone := Option.isNone_iff_eq_none.mp hl
  have hne : l ≠ src := by
    intro heq
    rw [heq, hx] at hnone
    cases hnone
  unfold SharedPtr.moveConstruct
  rw [hx]
  refine ⟨_, rfl, h.of_accounts ?_ ?_ fun o i => ?_⟩
  · intro m hm
    exact isSome_update _ m (isSome_update _ m hm)
  · exact pointed_update (pointed_update h.pointed rfl) (h.pointed src x hx)
  · -- The entry goes from `src` to `l`.
    have hout := s.account_setHandle src (some ⟨x.kind, none, none⟩) o i
    have hin := (s.setHandle src (some ⟨x.kind, none, none⟩)).account_setHandle l (some x) o i
    rw [s.setHandle_handle_of_ne hne, hnone] at hin
    rw [hx] at hout
    simp only [Option.bind_some, Option.bind_none, entry_none, Handle.item, Option.map_none,
      Nat.add_zero] at hout hin
    show (State.setHandle _ l (some x)).account o i = _
    omega

/-- `swap`, of two handles of one kind; they may be the same. -/
theorem swap (h : Sound s) {kind : Kind} (ha : s.Holds kind a) (hb : s.Holds kind b) :
    ∃ s', swap s a b = some s' ∧ Sound s' := by
  obtain ⟨x, hx, hxk⟩ := Option.map_eq_some_iff.mp ha
  obtain ⟨y, hy, hyk⟩ := Option.map_eq_some_iff.mp hb
  have hkind : x.kind = y.kind := hxk.trans hyk.symm
  unfold SharedPtr.swap
  rw [hx, hy]
  refine ⟨_, rfl, h.of_accounts ?_ ?_ fun o i => ?_⟩
  · intro m hm
    exact isSome_update _ m (isSome_update _ m hm)
  · exact pointed_update (x := ⟨y.kind, x.ptr, x.cb⟩)
      (pointed_update (x := ⟨x.kind, y.ptr, y.cb⟩) h.pointed (h.pointed b y hy)) (h.pointed a x hx)
  · -- `a` gets the entry of `b`, and `b` that of `a`.
    have hfst := s.account_setHandle a (some ⟨x.kind, y.ptr, y.cb⟩) o i
    have hsnd := (s.setHandle a (some ⟨x.kind, y.ptr, y.cb⟩)).account_setHandle b
      (some ⟨y.kind, x.ptr, x.cb⟩) o i
    have hitem : ((s.setHandle a (some ⟨x.kind, y.ptr, y.cb⟩)).handle b).bind Handle.item =
        y.item := by
      by_cases hab : b = a
      · rw [hab, State.setHandle_handle_self, Option.bind_some, Handle.item, hkind]
        rfl
      · rw [s.setHandle_handle_of_ne hab, hy]
        rfl
    rw [hitem] at hsnd
    rw [hx] at hfst
    simp only [Option.bind_some, Handle.item, hkind] at hfst hsnd
    show (State.setHandle (State.setHandle s a (some ⟨x.kind, y.ptr, y.cb⟩)) b
      (some ⟨y.kind, x.ptr, x.cb⟩)).account o i = _
    rw [hkind]
    omega

/-- `weak_ptr::lock`. -/
theorem lock (h : Sound s) (hl : s.Vacant l) (hsrc : s.Holds .weak src) (failures : ℕ) :
    ∃ s', lock s l src failures = some s' ∧ Sound s' := by
  obtain ⟨x, hx, -⟩ := Option.map_eq_some_iff.mp hsrc
  have hptr := h.pointed src x hx
  unfold SharedPtr.lock
  rw [hx]
  cases hcb : x.cb with
  | none =>
    dsimp only
    rw [hcb]
    exact ⟨_, rfl, h.defaultConstruct hl .shared⟩
  | some o =>
    obtain ⟨blk, hblk, hlive, hdel, hm, -⟩ := h.live_of_handle hx hcb
    rw [hcb] at hptr
    dsimp only
    rw [hcb]
    dsimp only
    rw [hlive]
    dsimp only
    rw [ControlBlock.lockUseCount_eq]
    by_cases huse : blk.counts.useCount = 0
    · rw [if_pos huse]
      exact ⟨_, rfl, h.defaultConstruct hl .shared⟩
    · rw [if_neg huse, hptr]
      exact ⟨_, rfl, h.refer hl hdel fun a' ha => hm.incUse huse ha⟩

/-- An object is handed in once, after it was allocated. -/
theorem handIn (h : Sound s) {o : Obj} (ho : s.Fresh (some o)) (del : D) :
    (∀ p d, (p, d) ∈ s.deleted ∨ .delete p d ∈ s.stack →
      Function.update s.handed o (some del) p = some d) ∧
    ∀ p, s.allocated p = false →
      Function.update s.handed o (some del) p = none ∧ s.members p = [] := by
  obtain ⟨hallocated, hhanded⟩ := ho
  replace hhanded := Option.isNone_iff_eq_none.mp hhanded
  constructor
  · intro p d hd
    have hp := h.deleters p d hd
    have hpo : p ≠ o := by
      intro heq
      rw [heq, hhanded] at hp
      cases hp
    rw [Function.update_of_ne hpo]
    exact hp
  · intro p hp
    have hpo : p ≠ o := by
      intro heq
      rw [heq, hallocated] at hp
      cases hp
    rw [Function.update_of_ne hpo]
    exact h.fresh p hp

/-- A fresh object has no control block, and an empty account. -/
theorem fresh_eq_zero (h : Sound s) {o : Obj} (ho : s.Fresh (some o)) :
    s.block o = none ∧ ∀ i, s.account o i = 0 := by
  have hbal := h.balanced o
  rw [Option.isNone_iff_eq_none.mp ho.2] at hbal
  exact hbal.eq_zero

/-- A control block is made, with its first handle. -/
theorem constructReturns (h : Sound s) (hl : s.Vacant l) {o : Obj} (ho : s.Fresh (some o))
    (del : D) : Sound (SharedPtr.construct s l (some o) del false).1 := by
  obtain ⟨-, hzero⟩ := h.fresh_eq_zero ho
  obtain ⟨hdeleters, hfresh⟩ := h.handIn ho del
  have hacc : ∀ p i, (construct s l (some o) del false).1.account p i =
      s.account p i + entry (some (.shared, o)) p i := by
    intro p i
    have heq := s.account_setHandle l (some ⟨.shared, some o, some o⟩) p i
    rw [Option.isNone_iff_eq_none.mp hl] at heq
    exact heq
  refine ⟨h.balanced_at (o := o) (fun p hp =>
      ⟨Function.update_of_ne hp _ _, Function.update_of_ne hp _ _, fun i => ?_⟩) ?_,
    fun m => claimed_of_live (h.claimed m) (isSome_update _ m),
    pointed_update h.pointed rfl, hdeleters, hfresh, h.emptied⟩
  · rw [hacc, entry_of_ne hp, Nat.add_zero]
  · show Balanced (Function.update s.block o _ o) (Function.update s.handed o (some del) o) _
    rw [Function.update_self, Function.update_self]
    refine .managed (.new del fun i => ?_)
    rw [hacc, entry_self, hzero, Nat.zero_add]

/-- None can be allocated: the deleter is to be called, and is all there is in the
object's account. -/
theorem constructThrows (h : Sound s) (l : Loc) {o : Obj} (ho : s.Fresh (some o)) (del : D) :
    Sound (construct s l (some o) del true).1 := by
  obtain ⟨hblock, hzero⟩ := h.fresh_eq_zero ho
  obtain ⟨hdeleters, hfresh⟩ := h.handIn ho del
  have hacc : ∀ p i, (construct s l (some o) del true).1.account p i =
      s.account p i + entry (some (.delete, o)) p i :=
    fun p i => ({ s with handed := Function.update s.handed o (some del) } :
      State Loc Obj D).account_push_cons (.delete o del) [] p i
  refine ⟨h.balanced_at (o := o)
      (fun p hp => ⟨rfl, Function.update_of_ne hp _ _, fun i => ?_⟩) ?_,
    fun m => ?_, h.pointed, fun p d hd => ?_, hfresh, h.emptied⟩
  · rw [hacc, entry_of_ne hp, Nat.add_zero]
  · show Balanced (s.block o) (Function.update s.handed o (some del) o) _
    rw [hblock, Function.update_self]
    refine .unmanaged (fun i hdelete _ => ?_) ?_
    · rw [hacc, entry_self, hzero, one, if_neg (Ne.symm hdelete)]
    · rw [hacc, hacc, hzero, hzero, entry_self, entry_self]
      rfl
  · exact le_trans (le_of_eq (State.claims_push_cons _ _ _ m)) (h.claimed m)
  · rcases hd with hd | hd
    · exact hdeleters p d (.inl hd)
    · rcases List.mem_cons.mp hd with heq | hd
      · cases heq
        exact Function.update_self _ _ _
      · exact hdeleters p d (.inr hd)

/-- `shared_ptr (U *ptr, Deleter del)`. -/
theorem construct (h : Sound s) (hl : s.Vacant l) {ptr : Option Obj} (hptr : s.Fresh ptr) (del : D)
    (fails : Bool) : Sound (construct s l ptr del fails).1 := by
  cases ptr with
  | none => exact h.defaultConstruct hl .shared
  | some o =>
    cases fails with
    | true => exact h.constructThrows l hptr del
    | false => exact h.constructReturns hl hptr del

/-- `new`. -/
theorem allocate (h : Sound s) {o : Obj} {members : List (Loc × Kind)}
    (hnew : s.allocated o = false) (hnodup : (members.map Prod.fst).Nodup)
    (hvacant : ∀ m ∈ members, s.Vacant m.1) : Sound (allocate s o members) := by
  obtain ⟨hhanded, hnone⟩ := h.fresh o hnew
  have hmember : ∀ m ∈ members.map Prod.fst, s.Vacant m := by
    intro m hm
    obtain ⟨x, hx, rfl⟩ := List.mem_map.mp hm
    exact hvacant x hx
  refine ⟨fun p => ?_, fun m => ?_, fun m x hx => ?_, h.deleters, fun p hp => ?_, fun p d hd => ?_⟩
  · show Balanced (s.block p) (s.handed p) _
    rw [funext (account_allocate hmember p)]
    exact h.balanced p
  · rw [claims_allocate hnone]
    rcases constructMembers_cases members s.handle m with ⟨heq, hm⟩ | ⟨⟨kind, heq⟩, hm⟩
    · rw [List.count_eq_zero.mpr hm]
      exact claimed_of_live (h.claimed m) fun hlive => by
        rw [← heq] at hlive
        exact hlive
    · -- A new member: nothing claimed its place before.
      have hsome : ((SharedPtr.allocate s o members).handle m).isSome := by
        show (constructMembers s.handle members m).isSome
        rw [heq]
        rfl
      rw [h.claims_vacant (hmember m hm), List.count_eq_one_of_mem hnodup hm, if_pos hsome]
  · replace hx : constructMembers s.handle members m = some x := hx
    rcases constructMembers_cases members s.handle m with ⟨heq, -⟩ | ⟨⟨kind, heq⟩, -⟩
    · rw [heq] at hx
      exact h.pointed m x hx
    · rw [heq] at hx
      rw [← Option.some.inj hx]
  · have hpo : p ≠ o := by
      intro heq
      subst heq
      simp [SharedPtr.allocate] at hp
    have hp' : s.allocated p = false := by
      rw [← hp]
      exact (Function.update_of_ne hpo _ _).symm
    obtain ⟨hph, hpm⟩ := h.fresh p hp'
    exact ⟨hph, (Function.update_of_ne hpo _ _).trans hpm⟩
  · have hpo : p ≠ o := by
      intro heq
      have hpd := h.deleters p d (.inl hd)
      rw [heq, hhanded] at hpd
      cases hpd
    exact (Function.update_of_ne hpo _ _).trans (h.emptied p d hd)

/-- A destructor is about to run. -/
theorem destruct (h : Sound s) (hl : (s.handle l).isSome) (hclaims : s.claims l = 0) :
    Sound (destruct s l) := by
  refine ⟨fun o => ?_, fun m => ?_, h.pointed, fun o d hd => ?_, h.fresh, h.emptied⟩
  · have hacc : (SharedPtr.destruct s l).account o = s.account o := by
      funext i
      exact s.account_push_drops [l] o i
    rw [hacc]
    exact h.balanced o
  · have heq : (SharedPtr.destruct s l).claims m = s.claims m + [l].count m :=
      s.claims_push_drops [l] m
    rw [heq]
    by_cases hm : m = l
    · subst hm
      rw [hclaims, List.count_singleton_self]
      exact le_of_eq (if_pos hl).symm
    · rw [List.count_singleton, if_neg (by simpa using Ne.symm hm)]
      exact h.claimed m
  · rcases hd with hd | hd
    · exact h.deleters o d (.inl hd)
    · rcases List.mem_cons.mp hd with heq | hd
      · cases heq
      · exact h.deleters o d (.inr hd)

end Sound

end CcSnippets.SharedPtr

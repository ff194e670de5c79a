import CcSnippets.Core.Transition
import CcSnippets.Core.Tally
import CcSnippets.Null.SharedPtr.ControlBlock

/-!
# CcSnippets.Null.SharedPtr.Basic

The faithful model of `shared_ptr` and `weak_ptr` (`null/shared_ptr.h`,
`null/weak_ptr.h`) in one thread: handles, the objects they manage, and the
recursion of destructors that runs when the last owner of an object goes.

* A place (`Loc`) is a variable, a temporary or a member of an object that can
  hold a handle; an object (`Obj`) is what a raw pointer points to. Both are any
  finite sets: a run uses finitely many, and no object's address twice.
* A control block is named by the object it manages: an object is handed to a
  `shared_ptr` once, so it has at most one.
* The members of an object are its `shared_ptr` and `weak_ptr` members. A deleter
  destroys them in reverse order.
* An operation runs up to the destruction of the handle it gives up, if any; what
  that destruction sets off runs frame by frame on an explicit call stack
  (`Frame`). Where the code would touch a control block after its `destroy ()`
  there is no step.
* The converting constructors and assignments have the bodies of the plain ones,
  so they are the same operations here.
-/

namespace CcSnippets.SharedPtr

open CcSnippets.Core

/-- `shared_ptr` or `weak_ptr`. -/
inductive Kind
  | shared
  | weak
  deriving DecidableEq, Repr

/-- A live handle: its members `ptr_` and `cb_`. -/
structure Handle (Obj : Type*) where
  kind : Kind
  ptr : Option Obj
  cb : Option Obj
  deriving DecidableEq, Repr

/-- A control block. -/
structure Block (D : Type*) where
  counts : ControlBlock
  del : D
  destroyed : Bool
  deriving DecidableEq, Repr

/-- A call that is still to be made. -/
inductive Frame (Loc Obj D : Type*)
  /-- The destructor of the handle at `l`. -/
  | drop (l : Loc)
  /-- `dec_use_count ()`. -/
  | decUse (b : Obj)
  /-- `dispose (); dec_weak_count ();`, in `dec_use_count`. -/
  | dispose (b : Obj)
  /-- The deleter's call, `del (ptr)`. -/
  | delete (ptr : Obj) (del : D)
  /-- `dec_weak_count ()`. -/
  | decWeak (b : Obj)
  /-- `destroy ()`. -/
  | destroy (b : Obj)
  deriving DecidableEq, Repr

/-- The program's memory, its call stack, and which objects were deleted. -/
structure State (Loc Obj D : Type*) where
  /-- The live handles. -/
  handle : Loc → Option (Handle Obj)
  /-- The control blocks made. -/
  block : Obj → Option (Block D)
  /-- The member handles of each object that was allocated and not deleted. -/
  members : Obj → List Loc
  allocated : Obj → Bool
  /-- The deleter each object was handed in with. -/
  handed : Obj → Option D
  /-- The calls to be made, innermost first. -/
  stack : List (Frame Loc Obj D)
  /-- The calls of deleters made so far. -/
  deleted : List (Obj × D)

/-- An operation on handles; `tmp` is the place of its temporary. -/
inductive Op (Loc Obj D : Type*)
  /-- `new`: an object with default-constructed member handles. -/
  | allocate (o : Obj) (members : List (Loc × Kind))
  /-- The default constructors. -/
  | defaultConstruct (kind : Kind) (l : Loc)
  /-- `shared_ptr (U *ptr, Deleter del)`; `fails` says that the allocation of the
  control block throws. -/
  | construct (l : Loc) (ptr : Option Obj) (del : D) (fails : Bool)
  /-- The copy constructors, and `weak_ptr (const shared_ptr &)`. -/
  | copyConstruct (kind : Kind) (l src : Loc)
  /-- The move constructors. -/
  | moveConstruct (l src : Loc)
  /-- The destructors. -/
  | destruct (l : Loc)
  /-- The copy assignments, and that of a `shared_ptr` to a `weak_ptr`. -/
  | copyAssign (kind : Kind) (dst src tmp : Loc)
  /-- The move assignments. -/
  | moveAssign (dst src tmp : Loc)
  /-- `swap`. -/
  | swap (a b : Loc)
  /-- `shared_ptr::reset`. -/
  | reset (l : Loc) (ptr : Option Obj) (del : D) (fails : Bool) (tmp : Loc)
  /-- `weak_ptr::reset`. -/
  | weakReset (l tmp : Loc)
  /-- `weak_ptr::lock`, with so many spurious failures of its compare-exchange. -/
  | lock (l src : Loc) (failures : ℕ)
  deriving DecidableEq, Repr

/-- What happens next: an operation is called, or the next call of the stack is
made. -/
inductive Label (Loc Obj D : Type*)
  | call (op : Op Loc Obj D)
  | step
  deriving DecidableEq, Repr

variable {Loc Obj D : Type*}

namespace State

variable (s : State Loc Obj D)

/-- A handle of this kind lives at `l`. -/
def Holds (kind : Kind) (l : Loc) : Prop := (s.handle l).map Handle.kind = some kind

/-- No handle lives at `l`. -/
def Vacant (l : Loc) : Prop := (s.handle l).isNone

/-- The pointer is null, or its object was allocated and never handed in. -/
def Fresh : Option Obj → Prop
  | none => True
  | some o => s.allocated o = true ∧ (s.handed o).isNone

/-- No member of an object. -/
def Outside (l : Loc) : Prop := ∀ o, l ∉ s.members o

/-- The control block `b`, unless it was destroyed. -/
def liveBlock (b : Obj) : Option (Block D) :=
  match s.block b with
  | some blk => if blk.destroyed then none else some blk
  | none => none

/-- The calls `fs` are made next. -/
def push (fs : List (Frame Loc Obj D)) : State Loc Obj D := { s with stack := fs ++ s.stack }

variable [DecidableEq Loc] [DecidableEq Obj]

instance (kind : Kind) (l : Loc) : Decidable (s.Holds kind l) :=
  inferInstanceAs (Decidable (_ = _))

instance (l : Loc) : Decidable (s.Vacant l) := inferInstanceAs (Decidable (_ = true))

instance : ∀ ptr : Option Obj, Decidable (s.Fresh ptr)
  | none => inferInstanceAs (Decidable True)
  | some o => inferInstanceAs (Decidable (s.allocated o = true ∧ (s.handed o).isNone = true))

instance [Fintype Obj] (l : Loc) : Decidable (s.Outside l) :=
  inferInstanceAs (Decidable (∀ o, l ∉ s.members o))

/-- The handle at `l` becomes `h`. -/
def setHandle (l : Loc) (h : Option (Handle Obj)) : State Loc Obj D :=
  { s with handle := Function.update s.handle l h }

/-- The control block `b` becomes `blk`. -/
def setBlock (b : Obj) (blk : Block D) : State Loc Obj D :=
  { s with block := Function.update s.block b (some blk) }

omit [DecidableEq Obj] in
@[simp] theorem setHandle_handle_self (l : Loc) (h : Option (Handle Obj)) :
    (s.setHandle l h).handle l = h :=
  Function.update_self _ _ _

omit [DecidableEq Obj] in
theorem setHandle_handle_of_ne {l m : Loc} (hm : m ≠ l) (h : Option (Handle Obj)) :
    (s.setHandle l h).handle m = s.handle m :=
  Function.update_of_ne hm _ _

omit [DecidableEq Loc] in
@[simp] theorem setBlock_block_self (b : Obj) (blk : Block D) :
    (s.setBlock b blk).block b = some blk :=
  Function.update_self _ _ _

omit [DecidableEq Loc] in
theorem setBlock_block_of_ne {b o : Obj} (ho : o ≠ b) (blk : Block D) :
    (s.setBlock b blk).block o = s.block o :=
  Function.update_of_ne ho _ _

end State

section Operations

variable [DecidableEq Loc] [DecidableEq Obj] (s : State Loc Obj D)

/-! ### The operations -/

/-- The default constructors: `ptr_ (nullptr), cb_ (nullptr)`. -/
def defaultConstruct (kind : Kind) (l : Loc) : State Loc Obj D :=
  s.setHandle l (some ⟨kind, none, none⟩)

/-- `shared_ptr (U *ptr, Deleter del)`, and whether it throws: a control block is
allocated for a pointer that is not null; if that fails, `del (ptr)` is called. -/
def construct (l : Loc) (ptr : Option Obj) (del : D) (fails : Bool) : State Loc Obj D × Bool :=
  match ptr with
  | none => (s.setHandle l (some ⟨.shared, none, none⟩), false)
  | some o =>
    let s := { s with handed := Function.update s.handed o (some del) }
    if fails then (s.push [.delete o del], true)
    else
      ((s.setBlock o { counts := .new, del := del, destroyed := false }).setHandle l
        (some ⟨.shared, some o, some o⟩), false)

/-- The copy constructors: `ptr_ (other.ptr_), cb_ (other.cb_)`, and one more use
or weak reference. -/
def copyConstruct (kind : Kind) (l src : Loc) : Option (State Loc Obj D) :=
  match s.handle src with
  | none => none
  | some other =>
    match other.cb with
    | none => some (s.setHandle l (some ⟨kind, other.ptr, none⟩))
    | some b =>
      match s.liveBlock b with
      | none => none
      | some blk =>
        let counts := match kind with
          | .shared => blk.counts.incUseCount
          | .weak => blk.counts.incWeakCount
        some ((s.setBlock b { blk with counts := counts }).setHandle l
          (some ⟨kind, other.ptr, some b⟩))

/-- The move constructors: `std::exchange` of both members. -/
def moveConstruct (l src : Loc) : Option (State Loc Obj D) :=
  match s.handle src with
  | none => none
  | some other => some ((s.setHandle src (some ⟨other.kind, none, none⟩)).setHandle l (some other))

/-- `swap`. -/
def swap (a b : Loc) : Option (State Loc Obj D) :=
  match s.handle a, s.handle b with
  | some x, some y =>
    some ((s.setHandle a (some ⟨x.kind, y.ptr, y.cb⟩)).setHandle b (some ⟨y.kind, x.ptr, x.cb⟩))
  | _, _ => none

/-- The destructors, to be run. -/
def destruct (l : Loc) : State Loc Obj D := s.push [.drop l]

/-- `shared_ptr (other).swap (*this)`, with the temporary destroyed at the end. -/
def copyAssign (kind : Kind) (dst src tmp : Loc) : Option (State Loc Obj D) := do
  let s ← copyConstruct s kind tmp src
  let s ← swap s tmp dst
  return destruct s tmp

/-- `shared_ptr (std::move (other)).swap (*this)`. -/
def moveAssign (dst src tmp : Loc) : Option (State Loc Obj D) := do
  let s ← moveConstruct s tmp src
  let s ← swap s tmp dst
  return destruct s tmp

/-- `shared_ptr (ptr, std::move (del)).swap (*this)`; if the constructor throws,
nothing is swapped. -/
def reset (l : Loc) (ptr : Option Obj) (del : D) (fails : Bool) (tmp : Loc) :
    Option (State Loc Obj D) :=
  match construct s tmp ptr del fails with
  | (s, true) => some s
  | (s, false) => do
    let s ← swap s tmp l
    return destruct s tmp

/-- `weak_ptr ().swap (*this)`. -/
def weakReset (l tmp : Loc) : Option (State Loc Obj D) := do
  let s ← swap (defaultConstruct s .weak tmp) tmp l
  return destruct s tmp

/-- `weak_ptr::lock`. -/
def lock (l src : Loc) (failures : ℕ) : Option (State Loc Obj D) :=
  match s.handle src with
  | none => none
  | some other =>
    match other.cb with
    | none => some (s.setHandle l (some ⟨.shared, none, none⟩))
    | some b =>
      match s.liveBlock b with
      | none => none
      | some blk =>
        match blk.counts.lockUseCount (List.replicate failures true ++ [false]) with
        | none => none
        | some (counts, true) =>
          some ((s.setBlock b { blk with counts := counts }).setHandle l
            (some ⟨.shared, other.ptr, some b⟩))
        | some (_, false) => some (s.setHandle l (some ⟨.shared, none, none⟩))

omit [DecidableEq Obj] in
/-- The default constructors of the member handles. -/
def constructMembers (handle : Loc → Option (Handle Obj)) :
    List (Loc × Kind) → Loc → Option (Handle Obj)
  | [] => handle
  | (l, kind) :: members =>
    constructMembers (Function.update handle l (some ⟨kind, none, none⟩)) members

/-- `new`: the member handles of the object come to life. -/
def allocate (o : Obj) (members : List (Loc × Kind)) : State Loc Obj D :=
  { s with
    handle := constructMembers s.handle members
    members := Function.update s.members o (members.map Prod.fst)
    allocated := Function.update s.allocated o true }

namespace Op

/-- What a program must see to: the handles it uses live and have the right type,
the places it constructs at are vacant, a raw pointer is handed in once, and a
member handle is destroyed by its object only. -/
def Ok : Op Loc Obj D → Prop
  | .allocate o members =>
    s.allocated o = false ∧ (members.map Prod.fst).Nodup ∧ ∀ m ∈ members, s.Vacant m.1
  | .defaultConstruct _ l => s.Vacant l
  | .construct l ptr _ _ => s.Vacant l ∧ s.Fresh ptr
  | .copyConstruct kind l src =>
    s.Vacant l ∧ (s.Holds .shared src ∨ kind = .weak ∧ s.Holds .weak src)
  | .moveConstruct l src => s.Vacant l ∧ ¬ s.Vacant src
  | .destruct l => ¬ s.Vacant l ∧ s.Outside l
  | .copyAssign kind dst src tmp =>
    s.Vacant tmp ∧ s.Holds kind dst ∧ (s.Holds .shared src ∨ kind = .weak ∧ s.Holds .weak src)
  | .moveAssign dst src tmp =>
    s.Vacant tmp ∧
      (s.Holds .shared dst ∧ s.Holds .shared src ∨ s.Holds .weak dst ∧ s.Holds .weak src)
  | .swap a b => s.Holds .shared a ∧ s.Holds .shared b ∨ s.Holds .weak a ∧ s.Holds .weak b
  | .reset l ptr _ _ tmp => s.Holds .shared l ∧ s.Fresh ptr ∧ s.Vacant tmp
  | .weakReset l tmp => s.Holds .weak l ∧ s.Vacant tmp
  | .lock l src _ => s.Vacant l ∧ s.Holds .weak src

instance [Fintype Obj] : ∀ op : Op Loc Obj D, Decidable (op.Ok s)
  | .allocate _ _ => inferInstanceAs (Decidable (_ ∧ _ ∧ _))
  | .defaultConstruct _ l => inferInstanceAs (Decidable (s.Vacant l))
  | .construct _ _ _ _ => inferInstanceAs (Decidable (_ ∧ _))
  | .copyConstruct _ _ _ => inferInstanceAs (Decidable (_ ∧ (_ ∨ _ ∧ _)))
  | .moveConstruct _ _ => inferInstanceAs (Decidable (_ ∧ ¬ _))
  | .destruct _ => inferInstanceAs (Decidable (¬ _ ∧ _))
  | .copyAssign _ _ _ _ => inferInstanceAs (Decidable (_ ∧ _ ∧ (_ ∨ _ ∧ _)))
  | .moveAssign _ _ _ => inferInstanceAs (Decidable (_ ∧ (_ ∧ _ ∨ _ ∧ _)))
  | .swap _ _ => inferInstanceAs (Decidable (_ ∧ _ ∨ _ ∧ _))
  | .reset _ _ _ _ _ => inferInstanceAs (Decidable (_ ∧ _ ∧ _))
  | .weakReset _ _ => inferInstanceAs (Decidable (_ ∧ _))
  | .lock _ _ _ => inferInstanceAs (Decidable (_ ∧ _))

/-- The operation, up to the destruction of what it gives up. -/
def run : Op Loc Obj D → Option (State Loc Obj D)
  | .allocate o members => some (SharedPtr.allocate s o members)
  | .defaultConstruct kind l => some (SharedPtr.defaultConstruct s kind l)
  | .construct l ptr del fails => some (SharedPtr.construct s l ptr del fails).1
  | .copyConstruct kind l src => SharedPtr.copyConstruct s kind l src
  | .moveConstruct l src => SharedPtr.moveConstruct s l src
  | .destruct l => some (SharedPtr.destruct s l)
  | .copyAssign kind dst src tmp => SharedPtr.copyAssign s kind dst src tmp
  | .moveAssign dst src tmp => SharedPtr.moveAssign s dst src tmp
  | .swap a b => SharedPtr.swap s a b
  | .reset l ptr del fails tmp => SharedPtr.reset s l ptr del fails tmp
  | .weakReset l tmp => SharedPtr.weakReset s l tmp
  | .lock l src failures => SharedPtr.lock s l src failures

end Op

/-! ### The calls of the stack -/

/-- One call, taken off the stack `s` has below it. -/
def Frame.exec : Frame Loc Obj D → Option (State Loc Obj D)
  | .drop l =>
    match s.handle l with
    | none => none
    | some h =>
      match h.cb, h.kind with
      | none, _ => some (s.setHandle l none)
      | some b, .shared => some ((s.setHandle l none).push [.decUse b])
      | some b, .weak => some ((s.setHandle l none).push [.decWeak b])
  | .decUse b =>
    match s.liveBlock b with
    | none => none
    | some blk =>
      let s' := s.setBlock b { blk with counts := blk.counts.subUseCount }
      some (if blk.counts.useCount = 1 then s'.push [.dispose b] else s')
  | .dispose b =>
    match s.liveBlock b with
    | none => none
    | some blk => some (s.push [.delete b blk.del, .decWeak b])
  | .delete o del =>
    some { s with
      deleted := s.deleted ++ [(o, del)]
      members := Function.update s.members o []
      stack := (s.members o).reverse.map .drop ++ s.stack }
  | .decWeak b =>
    match s.liveBlock b with
    | none => none
    | some blk =>
      let s' := s.setBlock b { blk with counts := blk.counts.subWeakCount }
      some (if blk.counts.weakCount = 1 then s'.push [.destroy b] else s')
  | .destroy b =>
    match s.liveBlock b with
    | none => none
    | some blk => some (s.setBlock b { blk with destroyed := true })

/-- The control block a call touches. -/
def Frame.touches : Frame Loc Obj D → Option Obj
  | .drop _ | .delete _ _ => none
  | .decUse b | .dispose b | .decWeak b | .destroy b => some b

/-- The successor of a state: an operation is called only when the last one is
done. -/
def next [Fintype Obj] : Label Loc Obj D → Option (State Loc Obj D)
  | .call op => if s.stack = [] ∧ op.Ok s then op.run s else none
  | .step =>
    match s.stack with
    | [] => none
    | f :: k => f.exec { s with stack := k }

/-! ### What the operations change -/

variable {s} {s' : State Loc Obj D} {l src : Loc}

/-- A copy adds a handle, and changes a control block at most. -/
theorem copyConstruct_eq {kind : Kind} (h : copyConstruct s kind l src = some s') :
    ∃ x block, s.handle src = some x ∧ s' = { s with
      handle := Function.update s.handle l (some ⟨kind, x.ptr, x.cb⟩)
      block := block } := by
  unfold copyConstruct at h
  cases hx : s.handle src with
  | none =>
    rw [hx] at h
    cases h
  | some x =>
    obtain ⟨k, ptr, cb⟩ := x
    rw [hx] at h
    cases cb with
    | none => exact ⟨_, s.block, rfl, (Option.some.inj h).symm⟩
    | some b =>
      dsimp only at h
      cases hlive : s.liveBlock b with
      | none =>
        rw [hlive] at h
        cases h
      | some blk =>
        rw [hlive] at h
        exact ⟨_, _, rfl, (Option.some.inj h).symm⟩

omit [DecidableEq Obj] in
/-- A move leaves a null handle. -/
theorem moveConstruct_eq (h : moveConstruct s l src = some s') :
    ∃ x, s.handle src = some x ∧
      s' = (s.setHandle src (some ⟨x.kind, none, none⟩)).setHandle l (some x) := by
  unfold moveConstruct at h
  cases hx : s.handle src with
  | none =>
    rw [hx] at h
    cases h
  | some x =>
    rw [hx] at h
    exact ⟨x, rfl, (Option.some.inj h).symm⟩

omit [DecidableEq Obj] in
/-- A swap exchanges what two handles refer to. -/
theorem swap_eq {a b : Loc} (h : swap s a b = some s') :
    ∃ x y, s.handle a = some x ∧ s.handle b = some y ∧
      s' = (s.setHandle a (some ⟨x.kind, y.ptr, y.cb⟩)).setHandle b
        (some ⟨y.kind, x.ptr, x.cb⟩) := by
  unfold swap at h
  cases hx : s.handle a with
  | none =>
    rw [hx] at h
    cases h
  | some x =>
    cases hy : s.handle b with
    | none =>
      rw [hx, hy] at h
      cases h
    | some y =>
      rw [hx, hy] at h
      exact ⟨x, y, rfl, rfl, (Option.some.inj h).symm⟩

/-- A constructor that returns leaves a handle to its pointer, and a control block
for it. -/
theorem construct_returns {ptr : Option Obj} {del : D} {fails : Bool}
    (h : construct s l ptr del fails = (s', false)) :
    (fails && ptr.isSome) = false ∧ ∃ handed block, s' = { s with
      handle := Function.update s.handle l (some ⟨.shared, ptr, ptr⟩)
      handed := handed
      block := block } := by
  unfold construct at h
  cases ptr with
  | none => exact ⟨Bool.and_false fails, _, _, (congrArg Prod.fst h).symm⟩
  | some o =>
    cases fails with
    | true => cases congrArg Prod.snd h
    | false => exact ⟨rfl, _, _, (congrArg Prod.fst h).symm⟩

/-- One that throws leaves a call of the deleter. -/
theorem construct_throws {ptr : Option Obj} {del : D} {fails : Bool}
    (h : construct s l ptr del fails = (s', true)) :
    fails = true ∧ ∃ o, ptr = some o ∧
      s' = ({ s with handed := Function.update s.handed o (some del) } : State Loc Obj D).push
        [.delete o del] := by
  unfold construct at h
  cases ptr with
  | none => cases congrArg Prod.snd h
  | some o =>
    cases fails with
    | true => exact ⟨rfl, o, rfl, (congrArg Prod.fst h).symm⟩
    | false => cases congrArg Prod.snd h

/-- `lock` adds a handle, and changes a control block at most. -/
theorem lock_eq {failures : ℕ} (h : lock s l src failures = some s') :
    ∃ x block, s' = { s with handle := Function.update s.handle l (some x), block := block } := by
  unfold lock at h
  cases hx : s.handle src with
  | none =>
    rw [hx] at h
    cases h
  | some x =>
    obtain ⟨kind, ptr, cb⟩ := x
    rw [hx] at h
    cases cb with
    | none => exact ⟨_, s.block, (Option.some.inj h).symm⟩
    | some b =>
      dsimp only at h
      cases hlive : s.liveBlock b with
      | none =>
        rw [hlive] at h
        cases h
      | some blk =>
        rw [hlive] at h
        dsimp only at h
        rw [ControlBlock.lockUseCount_eq] at h
        split_ifs at h
        · exact ⟨_, s.block, (Option.some.inj h).symm⟩
        · exact ⟨_, _, (Option.some.inj h).symm⟩

end Operations

/-- Nothing allocated and no handle. -/
def State.empty : State Loc Obj D where
  handle _ := none
  block _ := none
  members _ := []
  allocated _ := false
  handed _ := none
  stack := []
  deleted := []

/-- A program's operations on its handles, in any order. -/
def system (Loc Obj D : Type*) [DecidableEq Loc] [DecidableEq Obj] [Fintype Obj] :
    System (State Loc Obj D) (Label Loc Obj D) where
  init s := s = .empty
  next s := SharedPtr.next s

end CcSnippets.SharedPtr

import Mathlib.Data.Fintype.Basic
import CcSnippets.Core.Transition

/-!
# CcSnippets.Null.UniquePtr.Basic

The faithful model of `unique_ptr` (`null/unique_ptr.h`) with a deleter class
that has a state: handles, the objects they own, and the recursion of destructors
that a deletion sets off.

* A place (`Loc`) is a variable, a temporary or a member of an object that can
  hold a handle; its type, with the deleter class, is fixed (`ty`). An object
  (`Obj`) is what a raw pointer points to; the conversions of pointers keep it.
* A handle is its base, the deleter, and its member `ptr_`. Constructing a
  deleter from another by a move leaves some state behind in that (`moved`).
* An operation runs up to the destruction of its temporary, if any. The places
  whose destructors are still to run are on a stack; one step runs the destructor
  of the first, whose deleter call puts the members of the object in front, last
  member first.

`due`, `released` and `deleted` are a ledger: the deleter each object is to be
deleted with since it was handed in, and which objects were given back or
deleted, with which deleter.
-/

namespace CcSnippets.UniquePtr

open CcSnippets.Core

/-- The deleter classes, by the type of the handle. -/
structure Deleters (Ty D : Type*) where
  /-- `base_type ()`. -/
  default : Ty → D
  /-- What a deleter is left with when one, of the same class or another, is constructed
  from it by a move. -/
  moved : Ty → Ty → D → D
  /-- A deleter constructed from one of another class, `base_type (std::move (other))`. -/
  convert : Ty → Ty → D → D

/-- A live handle. -/
structure Handle (Obj D : Type*) where
  ptr : Option Obj
  del : D
  deriving DecidableEq, Repr

/-- The program's memory, the destructors to be run, and the ledger. -/
structure State (Loc Obj D : Type*) where
  /-- The live handles. -/
  handle : Loc → Option (Handle Obj D)
  /-- The member handles of each object that was allocated and not deleted. -/
  members : Obj → List Loc
  allocated : Obj → Bool
  /-- The handles whose destructors are to be run, first one first. -/
  stack : List Loc
  /-- The deleter that is due to each object that was handed in. -/
  due : Obj → Option D
  /-- The objects given back by `release`. -/
  released : List Obj
  /-- The calls of deleters. -/
  deleted : List (Obj × D)

/-- An operation on handles; `tmp` is the place of its temporary. -/
inductive Op (Loc Obj D : Type*)
  /-- `new`: an object with default-constructed member handles. -/
  | allocate (o : Obj) (members : List Loc)
  /-- `unique_ptr ()` and `unique_ptr (std::nullptr_t)`. -/
  | defaultConstruct (l : Loc)
  /-- `unique_ptr (pointer ptr)`. -/
  | construct (l : Loc) (ptr : Option Obj)
  /-- `unique_ptr (pointer ptr, deleter_type del)`. -/
  | constructWith (l : Loc) (ptr : Option Obj) (del : D)
  /-- `unique_ptr (unique_ptr &&other)`. -/
  | moveConstruct (l src : Loc)
  /-- `unique_ptr (unique_ptr<Y, D> &&other)`. -/
  | convertConstruct (l src : Loc)
  /-- `~unique_ptr ()`. -/
  | destruct (l : Loc)
  /-- `operator= (unique_ptr &&other)`. -/
  | moveAssign (dst src tmp : Loc)
  /-- `operator= (unique_ptr<Y, D> &&other)`. -/
  | convertAssign (dst src tmp : Loc)
  /-- `swap`. -/
  | swap (a b : Loc)
  /-- `reset`. -/
  | reset (l : Loc) (ptr : Option Obj) (tmp : Loc)
  /-- `release`. -/
  | release (l : Loc)
  deriving DecidableEq, Repr

/-- What happens next: an operation is called, or the next destructor runs. -/
inductive Label (Loc Obj D : Type*)
  | call (op : Op Loc Obj D)
  | step
  deriving DecidableEq, Repr

variable {Ty Loc Obj D : Type*}

namespace State

variable (s : State Loc Obj D)

/-- Nothing allocated, no handles. -/
def start : State Loc Obj D where
  handle _ := none
  members _ := []
  allocated _ := false
  stack := []
  due _ := none
  released := []
  deleted := []

/-- No handle lives at `l`. -/
def Vacant (l : Loc) : Prop := (s.handle l).isNone

/-- The pointer is null, or its object was allocated and never handed in. -/
def Fresh : Option Obj → Prop
  | none => True
  | some o => s.allocated o = true ∧ (s.due o).isNone

/-- No member of an object. -/
def Outside (l : Loc) : Prop := ∀ o, l ∉ s.members o

/-- The pointer at `l`, null where no handle lives. -/
def ptr (l : Loc) : Option Obj := (s.handle l).bind Handle.ptr

/-- The deleter of the handle at `l`, as `get_deleter ()` returns it. -/
def del (l : Loc) : Option D := (s.handle l).map Handle.del

instance (l : Loc) : Decidable (s.Vacant l) := inferInstanceAs (Decidable (_ = true))

instance : ∀ ptr : Option Obj, Decidable (s.Fresh ptr)
  | none => inferInstanceAs (Decidable True)
  | some o => inferInstanceAs (Decidable (s.allocated o = true ∧ (s.due o).isNone = true))

instance [DecidableEq Loc] [Fintype Obj] (l : Loc) : Decidable (s.Outside l) :=
  inferInstanceAs (Decidable (∀ o, l ∉ s.members o))

/-- The destructor of the handle at `l` runs next. -/
def push (l : Loc) : State Loc Obj D := { s with stack := l :: s.stack }

variable [DecidableEq Loc] [DecidableEq Obj]

omit [DecidableEq Obj] in
/-- The handle at `l` becomes `h`. -/
def setHandle (l : Loc) (h : Option (Handle Obj D)) : State Loc Obj D :=
  { s with handle := Function.update s.handle l h }

omit [DecidableEq Loc] in
/-- The object behind `ptr`, if any, is due to be deleted with `del`. -/
def enter (ptr : Option Obj) (del : D) : State Loc Obj D :=
  match ptr with
  | none => s
  | some o => { s with due := Function.update s.due o (some del) }

omit [DecidableEq Loc] in
/-- The deleter due to the object behind `ptr`, if any, is converted. -/
def convert (ptr : Option Obj) (recv : D → D) : State Loc Obj D :=
  match ptr with
  | none => s
  | some o => { s with due := Function.update s.due o ((s.due o).map recv) }

end State

section Operations

variable [DecidableEq Loc] [DecidableEq Obj] (Δ : Deleters Ty D) (ty : Loc → Ty)
  (s : State Loc Obj D)

/-! ### The operations -/

/-- `unique_ptr ()`: `base_type (), ptr_ ()`. -/
def defaultConstruct (l : Loc) : State Loc Obj D :=
  s.setHandle l (some ⟨none, Δ.default (ty l)⟩)

/-- `unique_ptr (pointer ptr)`: `base_type (), ptr_ (ptr)`. -/
def construct (l : Loc) (ptr : Option Obj) : State Loc Obj D :=
  (s.enter ptr (Δ.default (ty l))).setHandle l (some ⟨ptr, Δ.default (ty l)⟩)

/-- `unique_ptr (pointer ptr, deleter_type del)`: `base_type (std::move (del)),
ptr_ (ptr)`. -/
def constructWith (l : Loc) (ptr : Option Obj) (del : D) : State Loc Obj D :=
  (s.enter ptr del).setHandle l (some ⟨ptr, del⟩)

/-- The move constructors: `base_type (std::move (other)), ptr_ (other.ptr_)`, then
`other.ptr_ = {}`. `recv` is the constructor of the deleter. -/
def moveFrom (recv : D → D) (l src : Loc) : Option (State Loc Obj D) :=
  match s.handle src with
  | none => none
  | some other =>
    some ((s.setHandle src (some ⟨none, Δ.moved (ty src) (ty l) other.del⟩)).setHandle l
      (some ⟨other.ptr, recv other.del⟩))

/-- `unique_ptr (unique_ptr &&other)`. -/
def moveConstruct (l src : Loc) : Option (State Loc Obj D) := moveFrom Δ ty s id l src

/-- `unique_ptr (unique_ptr<Y, D> &&other)`. -/
def convertConstruct (l src : Loc) : Option (State Loc Obj D) :=
  moveFrom Δ ty (s.convert (s.ptr src) (Δ.convert (ty src) (ty l))) (Δ.convert (ty src) (ty l)) l
    src

/-- `swap`: the bases and the pointers are exchanged. -/
def swap (a b : Loc) : Option (State Loc Obj D) :=
  match s.handle a, s.handle b with
  | some x, some y => some ((s.setHandle a (some ⟨y.ptr, y.del⟩)).setHandle b (some ⟨x.ptr, x.del⟩))
  | _, _ => none

/-- `~unique_ptr ()`, to be run. -/
def destruct (l : Loc) : State Loc Obj D := s.push l

/-- `unique_ptr (std::move (other)).swap (*this)`, with the temporary destroyed at
the end. -/
def moveAssign (dst src tmp : Loc) : Option (State Loc Obj D) := do
  let s ← moveConstruct Δ ty s tmp src
  let s ← swap s tmp dst
  return destruct s tmp

/-- The same, with `other` of another type. -/
def convertAssign (dst src tmp : Loc) : Option (State Loc Obj D) := do
  let s ← convertConstruct Δ ty s tmp src
  let s ← swap s tmp dst
  return destruct s tmp

/-- `unique_ptr (ptr).swap (*this)`. The ledger records that the deleter of the
handle is due to `ptr`. -/
def reset (l : Loc) (ptr : Option Obj) (tmp : Loc) : Option (State Loc Obj D) :=
  match s.handle l with
  | none => none
  | some h => do
    let s ← swap ((construct Δ ty s tmp ptr).enter ptr h.del) tmp l
    return destruct s tmp

omit [DecidableEq Obj] in
/-- `release`: `ptr_ = {}`, and the old pointer is returned. -/
def release (l : Loc) : Option (State Loc Obj D) :=
  match s.handle l with
  | none => none
  | some h =>
    some { s.setHandle l (some ⟨none, h.del⟩) with released := s.released ++ h.ptr.toList }

omit [DecidableEq Obj] in
/-- The default constructors of the member handles. -/
def constructMembers (handle : Loc → Option (Handle Obj D)) :
    List Loc → Loc → Option (Handle Obj D)
  | [] => handle
  | l :: members =>
    constructMembers (Function.update handle l (some ⟨none, Δ.default (ty l)⟩)) members

/-- `new`: the member handles of the object come to life. -/
def allocate (o : Obj) (members : List Loc) : State Loc Obj D :=
  { s with
    handle := constructMembers Δ ty s.handle members
    members := Function.update s.members o members
    allocated := Function.update s.allocated o true }

/-- The destructor of the first handle of the stack: `if (ptr_)` the deleter is
called, and destroys the members of the object. -/
def destroyFirst : Option (State Loc Obj D) :=
  match s.stack with
  | [] => none
  | l :: rest =>
    match s.handle l with
    | none => none
    | some h =>
      match h.ptr with
      | none => some { s.setHandle l none with stack := rest }
      | some o =>
        some { s.setHandle l none with
          deleted := s.deleted ++ [(o, h.del)]
          members := Function.update s.members o []
          stack := (s.members o).reverse ++ rest }

namespace Op

/-- What a program must see to: the handles it uses live and have the right type,
the places it constructs at are vacant, a raw pointer is handed in once, and a
member handle is destroyed by its object only. -/
def Ok : Op Loc Obj D → Prop
  | .allocate o members =>
    s.allocated o = false ∧ members.Nodup ∧ ∀ l ∈ members, s.Vacant l
  | .defaultConstruct l => s.Vacant l
  | .construct l ptr | .constructWith l ptr _ => s.Vacant l ∧ s.Fresh ptr
  | .moveConstruct l src => s.Vacant l ∧ ¬ s.Vacant src ∧ ty src = ty l
  | .convertConstruct l src => s.Vacant l ∧ ¬ s.Vacant src ∧ ty src ≠ ty l
  | .destruct l => ¬ s.Vacant l ∧ s.Outside l
  | .moveAssign dst src tmp =>
    s.Vacant tmp ∧ ¬ s.Vacant dst ∧ ¬ s.Vacant src ∧ ty tmp = ty dst ∧ ty src = ty dst
  | .convertAssign dst src tmp =>
    s.Vacant tmp ∧ ¬ s.Vacant dst ∧ ¬ s.Vacant src ∧ ty tmp = ty dst ∧ ty src ≠ ty dst
  | .swap a b => ¬ s.Vacant a ∧ ¬ s.Vacant b ∧ ty a = ty b
  | .reset l ptr tmp => ¬ s.Vacant l ∧ s.Fresh ptr ∧ s.Vacant tmp ∧ ty tmp = ty l
  | .release l => ¬ s.Vacant l

instance [DecidableEq Ty] [Fintype Obj] : ∀ op : Op Loc Obj D, Decidable (op.Ok ty s)
  | .allocate _ _ => inferInstanceAs (Decidable (_ ∧ _ ∧ _))
  | .defaultConstruct l => inferInstanceAs (Decidable (s.Vacant l))
  | .construct _ _ | .constructWith _ _ _ => inferInstanceAs (Decidable (_ ∧ _))
  | .moveConstruct _ _ => inferInstanceAs (Decidable (_ ∧ ¬ _ ∧ _ = _))
  | .convertConstruct _ _ => inferInstanceAs (Decidable (_ ∧ ¬ _ ∧ ¬ _ = _))
  | .destruct _ => inferInstanceAs (Decidable (¬ _ ∧ _))
  | .moveAssign _ _ _ => inferInstanceAs (Decidable (_ ∧ ¬ _ ∧ ¬ _ ∧ _ = _ ∧ _ = _))
  | .convertAssign _ _ _ => inferInstanceAs (Decidable (_ ∧ ¬ _ ∧ ¬ _ ∧ _ = _ ∧ ¬ _ = _))
  | .swap _ _ => inferInstanceAs (Decidable (¬ _ ∧ ¬ _ ∧ _ = _))
  | .reset _ _ _ => inferInstanceAs (Decidable (¬ _ ∧ _ ∧ _ ∧ _ = _))
  | .release _ => inferInstanceAs (Decidable (¬ _))

/-- The operation, up to the destruction of what it gives up. -/
def run : Op Loc Obj D → Option (State Loc Obj D)
  | .allocate o members => some (UniquePtr.allocate Δ ty s o members)
  | .defaultConstruct l => some (UniquePtr.defaultConstruct Δ ty s l)
  | .construct l ptr => some (UniquePtr.construct Δ ty s l ptr)
  | .constructWith l ptr del => some (UniquePtr.constructWith s l ptr del)
  | .moveConstruct l src => UniquePtr.moveConstruct Δ ty s l src
  | .convertConstruct l src => UniquePtr.convertConstruct Δ ty s l src
  | .destruct l => some (UniquePtr.destruct s l)
  | .moveAssign dst src tmp => UniquePtr.moveAssign Δ ty s dst src tmp
  | .convertAssign dst src tmp => UniquePtr.convertAssign Δ ty s dst src tmp
  | .swap a b => UniquePtr.swap s a b
  | .reset l ptr tmp => UniquePtr.reset Δ ty s l ptr tmp
  | .release l => UniquePtr.release s l

end Op

/-- The successor of a state. An operation is called when no destructor is
running. -/
def next [DecidableEq Ty] [Fintype Obj] : Label Loc Obj D → Option (State Loc Obj D)
  | .call op => if s.stack = [] ∧ op.Ok ty s then op.run Δ ty s else none
  | .step => destroyFirst s

end Operations

/-- Any number of handles and objects in one thread. -/
def system [DecidableEq Ty] [DecidableEq Loc] [DecidableEq Obj] [Fintype Obj] (Δ : Deleters Ty D)
    (ty : Loc → Ty) : System (State Loc Obj D) (Label Loc Obj D) where
  init s := s = .start
  next s l := next Δ ty s l

end CcSnippets.UniquePtr

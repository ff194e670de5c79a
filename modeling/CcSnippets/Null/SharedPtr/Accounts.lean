import Mathlib.Algebra.GroupWithZero.Nat
import CcSnippets.Null.SharedPtr.Basic

/-!
# CcSnippets.Null.SharedPtr.Accounts

What there is to count in a state of `shared_ptr` and `weak_ptr` handles. A
control block is kept in being by handles, and by calls in the middle of
`dec_use_count` or `dec_weak_count` that have given their handle up already;
**one account per object** lists both, next to the calls of its deleter, and
every step moves an entry of one account from one item to another.

A place is *claimed* by the object whose member it is, or by a call of its
destructor that is still to be made: no live handle has two claims.
-/

namespace CcSnippets.SharedPtr

open CcSnippets.Core

variable {Loc Obj D : Type*}

/-! ### Items -/

/-- The items of an object's account. -/
inductive Item
  /-- A `shared_ptr` that refers to the control block. -/
  | shared
  /-- A `weak_ptr` that does. -/
  | weak
  /-- A destructor of a `shared_ptr` that has not made its `fetch_sub` yet. -/
  | decUse
  /-- A `dec_use_count` that found the last use. -/
  | dispose
  /-- A call of the deleter still to be made. -/
  | delete
  /-- A weak reference about to be given up. -/
  | decWeak
  /-- A `dec_weak_count` that found the last weak reference. -/
  | destroy
  /-- A call of the deleter made. -/
  | deleted
  deriving DecidableEq, Repr

/-- A property of all items, item by item. -/
theorem Item.forall {p : Item → Prop} :
    (∀ i, p i) ↔ p .shared ∧ p .weak ∧ p .decUse ∧ p .dispose ∧ p .delete ∧ p .decWeak ∧
      p .destroy ∧ p .deleted := by
  constructor
  · intro h
    exact ⟨h _, h _, h _, h _, h _, h _, h _, h _⟩
  · rintro ⟨h1, h2, h3, h4, h5, h6, h7, h8⟩ (_ | _ | _ | _ | _ | _ | _ | _) <;> assumption

/-- The item of a handle of this kind. -/
def Kind.item : Kind → Item
  | .shared => .shared
  | .weak => .weak

/-- The item of the call that gives up the reference of such a handle. -/
def Kind.released : Kind → Item
  | .shared => .decUse
  | .weak => .decWeak

/-- The account a live handle stands in, and the item. -/
def Handle.item (h : Handle Obj) : Option (Item × Obj) := h.cb.map fun b => (h.kind.item, b)

/-- The account a call stands in, and the item. -/
def Frame.item : Frame Loc Obj D → Option (Item × Obj)
  | .drop _ => none
  | .decUse b => some (.decUse, b)
  | .dispose b => some (.dispose, b)
  | .delete o _ => some (.delete, o)
  | .decWeak b => some (.decWeak, b)
  | .destroy b => some (.destroy, b)

/-- The place a call destroys the handle at. -/
def Frame.place : Frame Loc Obj D → Option Loc
  | .drop l => some l
  | _ => none

/-- One entry under `x`, seen at the item `i`. -/
def one (x i : Item) : ℕ := if x = i then 1 else 0

section Entries

variable [DecidableEq Obj]

/-- One entry, or none, seen at the item `i` of the account of `o`. -/
def entry (x : Option (Item × Obj)) (o : Obj) (i : Item) : ℕ :=
  match x with
  | none => 0
  | some (y, b) => if b = o then one y i else 0

@[simp] theorem entry_none (o : Obj) (i : Item) : entry none o i = 0 := rfl

@[simp] theorem entry_self (y : Item) (b : Obj) (i : Item) : entry (some (y, b)) b i = one y i :=
  if_pos rfl

theorem entry_of_ne {o b : Obj} (h : o ≠ b) (y : Item) (i : Item) :
    entry (some (y, b)) o i = 0 :=
  if_neg (Ne.symm h)

end Entries

/-! ### Accounts -/

namespace State

section Account

variable [Fintype Loc] [DecidableEq Obj] (s : State Loc Obj D)

/-- The account of `o`. -/
def account (o : Obj) (i : Item) : ℕ :=
  tally (fun h => entry (h.bind Handle.item) o i) s.handle +
    (s.stack.map fun f => entry f.item o i).sum +
    (s.deleted.map fun e => entry (some (.deleted, e.1)) o i).sum

/-- A call on the stack stands in its account. -/
theorem account_stack_cons {f : Frame Loc Obj D} {k : List (Frame Loc Obj D)}
    (h : s.stack = f :: k) (o : Obj) (i : Item) :
    s.account o i = ({ s with stack := k } : State Loc Obj D).account o i + entry f.item o i := by
  unfold account
  rw [h, List.map_cons, List.sum_cons]
  dsimp only
  omega

@[simp] theorem account_push_cons (f : Frame Loc Obj D) (fs : List (Frame Loc Obj D)) (o : Obj)
    (i : Item) : (s.push (f :: fs)).account o i = (s.push fs).account o i + entry f.item o i :=
  account_stack_cons (s.push (f :: fs)) rfl o i

/-- A call is made, and makes the calls `fs`. -/
theorem account_call {f : Frame Loc Obj D} {k : List (Frame Loc Obj D)}
    (fs : List (Frame Loc Obj D)) (block : Obj → Option (Block D)) (h : s.stack = f :: k)
    (o : Obj) (i : Item) :
    ({ s with block := block, stack := fs ++ k } : State Loc Obj D).account o i +
      entry f.item o i = s.account o i + (fs.map fun g => entry g.item o i).sum := by
  unfold account
  rw [h, List.map_append, List.sum_append, List.map_cons, List.sum_cons]
  dsimp only
  omega

/-- Destructor calls stand in no account. -/
theorem account_push_drops (ls : List Loc) (o : Obj) (i : Item) :
    (s.push (ls.map .drop)).account o i = s.account o i := by
  induction ls with
  | nil => rfl
  | cons l ls ih =>
    rw [List.map_cons, account_push_cons, ih]
    rfl

/-- Every entry of a handle is part of its account. -/
theorem entry_handle_le {l : Loc} {h : Handle Obj} (hl : s.handle l = some h) (o : Obj)
    (i : Item) : entry h.item o i ≤ s.account o i := by
  have hle := le_tally (fun h => entry (h.bind Handle.item) o i) s.handle l
  rw [hl] at hle
  unfold account
  exact le_trans hle (by omega)

/-- So is that of a call on the stack. -/
theorem entry_call_le {f : Frame Loc Obj D} (hf : f ∈ s.stack) (o : Obj) (i : Item) :
    entry f.item o i ≤ s.account o i := by
  have hle : entry f.item o i ≤ (s.stack.map fun f => entry f.item o i).sum :=
    List.le_sum_of_mem (List.mem_map_of_mem hf)
  unfold account
  omega

/-- Handles that are created or destroyed with nothing in them change no account. -/
theorem account_congr {t : State Loc Obj D}
    (hhandle : ∀ l, (t.handle l).bind Handle.item = (s.handle l).bind Handle.item)
    (hstack : t.stack = s.stack) (hdeleted : t.deleted = s.deleted) (o : Obj) (i : Item) :
    t.account o i = s.account o i := by
  have htally : tally (fun h => entry (h.bind Handle.item) o i) t.handle =
      tally (fun h => entry (h.bind Handle.item) o i) s.handle :=
    tally_congr fun l => by rw [hhandle l]
  unfold account
  rw [hstack, hdeleted, htally]

/-- The item of the handle at `l` is replaced. -/
theorem account_setHandle [DecidableEq Loc] (l : Loc) (h : Option (Handle Obj)) (o : Obj)
    (i : Item) :
    (s.setHandle l h).account o i + entry ((s.handle l).bind Handle.item) o i =
      s.account o i + entry (h.bind Handle.item) o i := by
  have htally := tally_update (fun h => entry (h.bind Handle.item) o i) s.handle l h
  unfold account setHandle
  dsimp only
  omega

/-- Handles stand under two items only. -/
theorem handles_eq_zero (o : Obj) {i : Item} (hshared : i ≠ .shared) (hweak : i ≠ .weak) :
    tally (fun h => entry (h.bind Handle.item) o i) s.handle = 0 := by
  refine tally_eq_zero.mpr fun l => ?_
  cases s.handle l with
  | none => rfl
  | some h =>
    obtain ⟨kind, ptr, cb⟩ := h
    cases cb with
    | none => rfl
    | some b =>
      cases kind
      · simp [Handle.item, Kind.item, entry, one, Ne.symm hshared]
      · simp [Handle.item, Kind.item, entry, one, Ne.symm hweak]

omit [Fintype Loc] in
/-- Calls stand under the others but one. -/
theorem calls_eq_zero (o : Obj) {i : Item} (hi : i = .shared ∨ i = .weak ∨ i = .deleted) :
    (s.stack.map fun f => entry f.item o i).sum = 0 := by
  refine List.sum_eq_zero fun n hn => ?_
  obtain ⟨f, -, rfl⟩ := List.mem_map.mp hn
  rcases hi with rfl | rfl | rfl <;> cases f <;> simp [Frame.item, entry, one]

omit [Fintype Loc] in
/-- The calls of the deleter that were made stand under the last. -/
theorem deletions_eq (o : Obj) (i : Item) :
    (s.deleted.map fun e => entry (some (.deleted, e.1)) o i).sum =
      if i = .deleted then (s.deleted.filter fun e => e.1 = o).length else 0 := by
  induction s.deleted with
  | nil => simp
  | cons e es ih =>
    rw [List.map_cons, List.sum_cons, ih, List.filter_cons]
    by_cases hi : i = .deleted <;> by_cases he : e.1 = o <;>
      simp [hi, he, entry, one, eq_comm, Nat.add_comm]

end Account

/-! ### Claims -/

section Claims

variable [Fintype Obj] [DecidableEq Loc] (s : State Loc Obj D)

/-- The claims on a place. -/
def claims (l : Loc) : ℕ :=
  tally (List.count l) s.members + s.stack.countP fun f => f.place = some l

/-- A destructor call on the stack is a claim. -/
theorem claims_stack_cons {f : Frame Loc Obj D} {k : List (Frame Loc Obj D)}
    (h : s.stack = f :: k) (l : Loc) :
    s.claims l =
      ({ s with stack := k } : State Loc Obj D).claims l + if f.place = some l then 1 else 0 := by
  unfold claims
  rw [h, List.countP_cons]
  simp only [decide_eq_true_eq]
  omega

@[simp] theorem claims_push_cons (f : Frame Loc Obj D) (fs : List (Frame Loc Obj D)) (l : Loc) :
    (s.push (f :: fs)).claims l = (s.push fs).claims l + if f.place = some l then 1 else 0 :=
  claims_stack_cons (s.push (f :: fs)) rfl l

/-- The destructor calls of `ls` claim these places. -/
theorem claims_push_drops (ls : List Loc) (l : Loc) :
    (s.push (ls.map .drop)).claims l = s.claims l + ls.count l := by
  induction ls with
  | nil => rfl
  | cons l' ls ih =>
    rw [List.map_cons, claims_push_cons, ih, List.count_cons]
    simp only [Frame.place, Option.some.injEq, beq_iff_eq]
    omega

/-- A place nothing claims is no member. -/
theorem claims_eq_zero (hstack : s.stack = []) {l : Loc} (hl : s.Outside l) : s.claims l = 0 := by
  unfold claims
  rw [hstack, List.countP_nil, Nat.add_zero, tally_eq_zero]
  intro o
  exact List.count_eq_zero.mpr (hl o)

/-- The members of `o` are replaced. -/
theorem claims_setMembers [DecidableEq Obj] {t : State Loc Obj D} {o : Obj} {ls : List Loc}
    (hmembers : t.members = Function.update s.members o ls) (hstack : t.stack = s.stack)
    (l : Loc) : t.claims l + (s.members o).count l = s.claims l + ls.count l := by
  have htally := tally_update (List.count l) s.members o ls
  unfold claims
  rw [hmembers, hstack]
  omega

end Claims

end State

end CcSnippets.SharedPtr

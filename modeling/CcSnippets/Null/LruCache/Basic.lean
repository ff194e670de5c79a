import Mathlib.Data.Finmap
import CcSnippets.Core.Recency
import CcSnippets.Core.Transition

/-!
# CcSnippets.Null.LruCache.Basic

The faithful model of `lru_cache` (`null/lru_cache.h`).

* `list_` is the order of its nodes, front to back, and the nodes themselves are
  a heap: a node keeps its identity when it is spliced or its value assigned, and
  is gone once it is popped. Iterators and the `V *` a `get` returns are nodes.
* A node that was freed is never allocated again: a pointer to it stays invalid,
  as it does in C++ even when the allocator hands out the same address.
* `map_` is a finite map from keys to nodes.
* Every operation is `none` where the code's behaviour would be undefined: an
  iterator that is not into the list, or `back ()` of an empty list.
* The allocation and key copy of `push_front` and the insertion of `map_[key]`
  may throw where the call says so, without effect of their own.
-/

namespace CcSnippets.LruCache

open CcSnippets.Core

/-- A node of `list_`, as an iterator or a returned pointer designates it. -/
abbrev Node := ℕ

/-- The data members of the cache, with the nodes of its list. -/
structure Cache (K V : Type*) where
  capacity : ℕ
  /-- The nodes of `list_`, front to back. -/
  list : List Node
  /-- What each live node holds. -/
  node : Node → Option (K × V)
  map : Finmap fun _ : K => Node
  /-- How many nodes have been allocated. -/
  allocated : ℕ

/-- The two places where a `put` may throw. -/
inductive Throw
  /-- The allocation or the key copy of `list_.push_front`. -/
  | pushFront
  /-- The insertion of `map_[key]`. -/
  | mapInsert
  deriving DecidableEq, Repr

/-- A call. -/
inductive Op (K V : Type*)
  | get (key : K)
  | put (key : K) (value : V)
  deriving DecidableEq, Repr

/-- How a call ends. -/
inductive Out
  /-- `get` returns a pointer into a node, or null. -/
  | pointer (it : Option Node)
  /-- `put` returns. -/
  | done
  /-- `put` throws. -/
  | threw (place : Throw)
  deriving DecidableEq, Repr

/-- Both containers empty. -/
def Cache.empty (K V : Type*) (capacity : ℕ) : Cache K V :=
  { capacity := capacity, list := [], node := fun _ => none, map := ∅, allocated := 0 }

/-- The constructor. -/
def Cache.new (K V : Type*) (capacity : ℕ) : Except String (Cache K V) :=
  if capacity = 0 then .error "LRUCache capacity must be positive."
  else .ok (.empty K V capacity)

namespace Cache

variable {K V : Type*}

/-! ### The operations on the containers -/

/-- `list_.splice (list_.begin (), list_, it)`. -/
def splice (c : Cache K V) (it : Node) : Option (Cache K V) :=
  if it ∈ c.list then some { c with list := it :: c.list.erase it } else none

/-- `it->second = std::move (value)`. -/
def assign (c : Cache K V) (it : Node) (value : V) : Option (Cache K V) :=
  match c.node it with
  | none => none
  | some (key, _) => some { c with node := Function.update c.node it (some (key, value)) }

/-- `list_.push_front ({ key, std::move (value) })`. -/
def pushFront (c : Cache K V) (key : K) (value : V) : Cache K V :=
  { c with
    list := c.allocated :: c.list
    node := Function.update c.node c.allocated (some (key, value))
    allocated := c.allocated + 1 }

variable [DecidableEq K]

/-- `map_.erase (list_.back ().first)`, then `list_.pop_back ()`. -/
def evict (c : Cache K V) : Option (Cache K V) :=
  match c.list.getLast? with
  | none => none
  | some it =>
    match c.node it with
    | none => none
    | some (key, _) =>
      some { c with
        map := c.map.erase key
        list := c.list.dropLast
        node := Function.update c.node it none }

/-- `map_[key] = list_.begin ()`. -/
def mapBegin (c : Cache K V) (key : K) : Option (Cache K V) :=
  match c.list.head? with
  | none => none
  | some it => some { c with map := c.map.insert key it }

/-! ### The operations of the cache -/

/-- `lru_cache::get`. -/
def get (key : K) (c : Cache K V) : Option (Cache K V × Out) :=
  match c.map.lookup key with
  | none => some (c, .pointer none)
  | some it => do
    let c ← c.splice it
    return (c, .pointer (some it))

/-- The eviction of `lru_cache::put`. -/
def makeRoom (c : Cache K V) : Option (Cache K V) :=
  if c.capacity ≤ c.list.length then c.evict else some c

/-- The insertion of `lru_cache::put`. -/
def insertFront (throws : Option Throw) (key : K) (value : V) (c : Cache K V) :
    Option (Cache K V × Out) :=
  if throws = some .pushFront then some (c, .threw .pushFront)
  else if throws = some .mapInsert then some (c.pushFront key value, .threw .mapInsert)
  else do
    let c ← (c.pushFront key value).mapBegin key
    return (c, .done)

/-- `lru_cache::put`. The key is a value: one that refers into a node of the cache would
dangle after the eviction. -/
def put (throws : Option Throw) (key : K) (value : V) (c : Cache K V) :
    Option (Cache K V × Out) :=
  match c.map.lookup key with
  | some it => do
    let c ← c.assign it value
    let c ← c.splice it
    return (c, .done)
  | none => do
    let c ← c.makeRoom
    c.insertFront throws key value

/-- The code a call runs. -/
def call (op : Op K V) (throws : Option Throw) (c : Cache K V) : Option (Cache K V × Out) :=
  match op with
  | .get key => c.get key
  | .put key value => c.put throws key value

/-- What `list_` holds, front to back. -/
def entries (c : Cache K V) : List (K × V) := c.list.filterMap c.node

end Cache

/-! ### Runs -/

/-- The cache and the calls made so far, each with how it ended. -/
structure State (K V : Type*) where
  cache : Cache K V
  calls : List (Op K V × Out)

/-- The cache in the hands of one caller; a label is a call and where it
throws. -/
def system {K V : Type*} [DecidableEq K] (c₀ : Cache K V) :
    System (State K V) (Op K V × Option Throw) where
  init s := s = { cache := c₀, calls := [] }
  next s l :=
    (s.cache.call l.1 l.2).map fun r => { cache := r.1, calls := s.calls ++ [(l.1, r.2)] }

end CcSnippets.LruCache

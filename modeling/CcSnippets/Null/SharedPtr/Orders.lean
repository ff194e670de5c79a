import CcSnippets.Core.ReleaseAcquire
import CcSnippets.Null.SharedPtr.Protocol

/-!
# CcSnippets.Null.SharedPtr.Orders

The control-block protocol **under memory orders**: each atomic access of
`control_block_base` has the order it is written with (`Orders.source`), and what
one thread knows of another's doings is what these orders make known to it.

* A read-modify-write finds the newest count. The other accesses only load: the
  first load of `lock_use_count`, a compare-exchange that fails, and `expired ()`
  may find any count their thread has not seen overwritten.
* `use` stands for an access to the managed object through a shared handle.
* Whoever takes a handle over from another thread synchronizes with it, as the
  move of a handle without a race has to.

`uses` and `accesses` are history: the accesses to the managed object, and those to
the control block up to `destroy ()`.
-/

namespace CcSnippets.SharedPtr.Ordered

open CcSnippets.Core CcSnippets.SharedPtr CcSnippets.SharedPtr.Protocol

/-- The atomics of `control_block_base`. -/
inductive Counter
  | use
  | weak
  deriving DecidableEq, Repr

/-- The memory orders of the atomic accesses. -/
structure Orders where
  incUse : MemoryOrder
  incWeak : MemoryOrder
  /-- Of the load in `lock_use_count`. -/
  lockLoad : MemoryOrder
  /-- Of a compare-exchange there that succeeds. -/
  lock : MemoryOrder
  /-- Of one that fails. -/
  lockFail : MemoryOrder
  decUse : MemoryOrder
  decWeak : MemoryOrder
  /-- Of the load of `weak_ptr::expired`. -/
  expired : MemoryOrder
  deriving DecidableEq, Repr

/-- Those of `shared_ptr.h` and `weak_ptr.h`. -/
def Orders.source : Orders where
  incUse := .relaxed
  incWeak := .relaxed
  lockLoad := .relaxed
  lock := .acqRel
  lockFail := .relaxed
  decUse := .acqRel
  decWeak := .acqRel
  expired := .relaxed

/-- The protocol, what its threads know, and the accesses that must not race. -/
structure State (τ : Type*) where
  protocol : Protocol.State τ
  memory : Memory τ Counter ℤ
  /-- The accesses to the managed object through shared handles. -/
  uses : List (Event τ)
  /-- The accesses to the control block, but for `destroy ()`. -/
  accesses : List (Event τ)

/-- A step of a thread, with the choices the memory makes for it. -/
inductive Label (τ : Type*)
  /-- A step of the protocol that does more than load. -/
  | act (l : Protocol.Label τ)
  /-- The load of `lock_use_count` finds count number `i`. -/
  | lockLoad (t : τ) (i : ℕ)
  /-- A compare-exchange of `lock_use_count` fails, finding count number `i`. -/
  | lockFail (t : τ) (i : ℕ) (spurious : Bool)
  /-- `weak_ptr::expired` finds count number `i`. -/
  | expired (t : τ) (i : ℕ)
  /-- An access to the managed object. -/
  | use (t : τ)
  deriving DecidableEq, Repr

variable {τ : Type*} [DecidableEq τ]

/-- The thread that moves. -/
def mover : Protocol.Label τ → τ
  | .copyShared t | .weakFromShared t | .copyWeak t | .dropShared t | .dropWeak t | .lockLoad t
  | .lockExchange t _ | .expired t | .dispose t | .disposeReturn t | .decWeak t | .destroy t
  | .giveShared t _ | .giveWeak t _ => t

/-- The step writes nothing: it loads, or is a compare-exchange that fails. -/
def onlyLoads (s : Protocol.State τ) : Protocol.Label τ → Bool
  | .lockLoad _ | .expired _ => true
  | .lockExchange t spurious => spurious || decide ((s.threads t).pc ≠ .locking s.cb.useCount)
  | _ => false

/-- What a step does to memory; `cb` holds the counts after it. -/
def effect (o : Orders) (m : Memory τ Counter ℤ) (cb : ControlBlock) :
    Protocol.Label τ → Memory τ Counter ℤ
  | .copyShared t => m.exchange o.incUse t .use cb.useCount
  | .weakFromShared t | .copyWeak t => m.exchange o.incWeak t .weak cb.weakCount
  | .dropShared t => m.exchange o.decUse t .use cb.useCount
  | .dropWeak t | .decWeak t => m.exchange o.decWeak t .weak cb.weakCount
  | .lockExchange t _ => m.exchange o.lock t .use cb.useCount
  | .dispose t | .disposeReturn t | .destroy t | .lockLoad t | .expired t => m.tick t
  | .giveShared t u | .giveWeak t u => m.handOver t u

/-- The accesses to the control block, this step's with them; the one of `destroy ()`
is not recorded. -/
def record (m : Memory τ Counter ℤ) (accesses : List (Event τ)) :
    Protocol.Label τ → List (Event τ)
  | .giveShared _ _ | .giveWeak _ _ | .destroy _ => accesses
  | l => accesses ++ [m.now (mover l)]

/-- The protocol is at `p` after thread `t` has loaded the use count, number `i` of its
values. -/
def State.load (s : State τ) (order : MemoryOrder) (t : τ) (i : ℕ) (p : Protocol.State τ) :
    State τ :=
  let m := s.memory.load order t .use i
  { s with protocol := p, memory := m, accesses := s.accesses ++ [m.now t] }

/-- The successor of a state. -/
def next (o : Orders) (s : State τ) : Label τ → Option (State τ)
  | .act l =>
    if onlyLoads s.protocol l then none
    else
      (Protocol.next s.protocol l).map fun p =>
        let m := effect o s.memory p.cb l
        { s with protocol := p, memory := m, accesses := record m s.accesses l }
  | .lockLoad t i =>
    match s.protocol.threads t, s.memory.readable t .use i with
    | { shared := n, weak := w + 1, pc := .idle }, some count =>
      some (s.load o.lockLoad t i
        (s.protocol.set t { shared := n, weak := w + 1, pc := lockTest count }))
    | _, _ => none
  | .lockFail t i spurious =>
    match s.protocol.threads t, s.memory.readable t .use i with
    | { shared := n, weak := w, pc := .locking count }, some found =>
      if found ≠ count || spurious then
        some (s.load o.lockFail t i
          (s.protocol.set t { shared := n, weak := w, pc := lockTest found }))
      else none
    | _, _ => none
  | .expired t i =>
    match s.protocol.threads t, s.memory.readable t .use i with
    | { shared := _, weak := _ + 1, pc := .idle }, some count =>
      some (s.load o.expired t i
        { s.protocol with sawExpired := s.protocol.sawExpired || count = 0 })
    | _, _ => none
  | .use t =>
    match s.protocol.threads t with
    | { shared := _ + 1, weak := _, pc := .idle } =>
      let m := s.memory.tick t
      some { s with memory := m, uses := s.uses ++ [m.now t] }
    | _ => none

/-- The values the counts are constructed with, given the handles. -/
def initial (cb : ControlBlock) : Counter → ℤ
  | .use => cb.useCount
  | .weak => cb.weakCount

/-- The protocol from any distribution of handles, under the orders `o`. -/
def system (τ : Type*) [DecidableEq τ] [Fintype τ] (o : Orders) : System (State τ) (Label τ) where
  init s := (Protocol.system τ).init s.protocol ∧
    s.memory = .start (initial s.protocol.cb) ∧ s.uses = [] ∧ s.accesses = []
  next := next o

end CcSnippets.SharedPtr.Ordered

import CcSnippets.Core.ReleaseAcquire
import CcSnippets.Null.SpscRingBuffer.Basic

/-!
# CcSnippets.Null.SpscRingBuffer.Orders

The ring buffer **under memory orders**: every load and store of `head_` and `tail_`
has the order it is written with (`Orders.source`), and a side knows of the other's
doings what these orders make known to it.

The slots are not atomic. An assignment to a slot and a copy from one are recorded
with the slot's index and their event (`slotWrites`, `slotReads`); they race where
they concern the same slot and neither happens before the other.
-/

namespace CcSnippets.SpscRingBuffer.Ordered

open CcSnippets.Core

/-- The two threads. -/
inductive Side
  | producer
  | consumer
  deriving DecidableEq, Repr

/-- The atomics of the buffer. -/
inductive Index
  | head
  | tail
  deriving DecidableEq, Repr

/-- The memory orders of the accesses of `push` and `pop`. -/
structure Orders where
  /-- `head_.load` in `push`. -/
  pushOwn : MemoryOrder
  /-- `tail_.load` in `push`. -/
  pushLoad : MemoryOrder
  /-- `head_.store` in `push`. -/
  pushStore : MemoryOrder
  /-- `tail_.load` in `pop`. -/
  popOwn : MemoryOrder
  /-- `head_.load` in `pop`. -/
  popLoad : MemoryOrder
  /-- `tail_.store` in `pop`. -/
  popStore : MemoryOrder
  deriving DecidableEq, Repr

/-- Those of `spsc_ring_buffer.h`. -/
def Orders.source : Orders where
  pushOwn := .relaxed
  pushLoad := .acquire
  pushStore := .release
  popOwn := .relaxed
  popLoad := .acquire
  popStore := .release

/-- The buffer, what its two sides know, and the accesses to its slots. -/
structure State (T : Type*) where
  buffer : SpscRingBuffer.State T
  memory : Memory Side Index ℕ
  /-- The assignments to slots, each with the index of its slot. -/
  slotWrites : List (ℕ × Event Side)
  /-- The copies from slots. -/
  slotReads : List (ℕ × Event Side)

variable {T : Type*}

/-- The slot the producer is about to assign to. -/
def writesTo : Producer T → Option ℕ
  | .writing _ currHead => some currHead
  | _ => none

/-- The slot the consumer is about to copy from. -/
def readsFrom : Consumer T → Option ℕ
  | .reading currTail => some currTail
  | _ => none

/-- What a step does to memory; `b` is the buffer before it. -/
def effect (o : Orders) (capacity : ℕ) (m : Memory Side Index ℕ) (b : SpscRingBuffer.State T) :
    Label T → Memory Side Index ℕ
  | .push _ | .pop => m
  | .pushLoadHead => m.load o.pushOwn .producer .head (b.heads.length - 1)
  | .pushLoadTail j => m.load o.pushLoad .producer .tail j
  | .pushWrite => m.tick .producer
  | .pushStoreHead =>
    match b.producer with
    | .storing _ currHead => m.store o.pushStore .producer .head (nextIndex capacity currHead)
    | _ => m
  | .popLoadTail => m.load o.popOwn .consumer .tail (b.tails.length - 1)
  | .popLoadHead j => m.load o.popLoad .consumer .head j
  | .popRead _ => m.tick .consumer
  | .popStoreTail =>
    match b.consumer with
    | .storing _ currTail => m.store o.popStore .consumer .tail (nextIndex capacity currTail)
    | _ => m

/-- The successor of a state. -/
def next [Inhabited T] (o : Orders) (capacity : ℕ) (s : State T) (l : Label T) :
    Option (State T) :=
  ((SpscRingBuffer.system T capacity).next s.buffer l).map fun b =>
    let m := effect o capacity s.memory s.buffer l
    { buffer := b
      memory := m
      slotWrites := s.slotWrites ++
        match l with
        | .pushWrite => (writesTo s.buffer.producer).toList.map fun i => (i, m.now .producer)
        | _ => []
      slotReads := s.slotReads ++
        match l with
        | .popRead _ => (readsFrom s.buffer.consumer).toList.map fun i => (i, m.now .consumer)
        | _ => [] }

/-- The buffer as constructed. -/
def State.start : State T where
  buffer := .start
  memory := .start fun _ => 0
  slotWrites := []
  slotReads := []

/-- A buffer between its producer and its consumer, under the orders `o`. -/
def system (T : Type*) [Inhabited T] (o : Orders) (capacity : ℕ) : System (State T) (Label T) where
  init s := s = .start
  next := next o capacity

end CcSnippets.SpscRingBuffer.Ordered

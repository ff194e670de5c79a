import Mathlib.Algebra.GroupWithZero.Nat
import Mathlib.Data.List.Basic
import CcSnippets.Core.Transition

/-!
# CcSnippets.Null.SpscRingBuffer.Basic

The faithful model of `spsc_ring_buffer` (`null/spsc_ring_buffer.h`) between one
producer and one consumer, one step for each access to memory.

* `head_` and `tail_` are the lists of the values they have held, oldest first. A
  side loads its own index as it stored it last. A load of the other side's index
  returns any value from the one its previous load returned up to the current
  one: the label says which.
* The slots are the list of the writes made to them, oldest first; only the
  producer writes. Every stored `head_` remembers how many writes were made
  before it. An acquire load of it makes these visible to the consumer, and no
  more: a read of a slot may see any number of writes from there on, and the
  label says how many.
* Index arithmetic is that of `size_t`.
-/

namespace CcSnippets.SpscRingBuffer

open CcSnippets.Core

/-- Reduction of a sum to `size_t`. -/
def wrap (n : ℕ) : ℕ := n % 2 ^ 64

/-- `(i + 1) % (Capacity + 1)`. -/
def nextIndex (capacity i : ℕ) : ℕ := wrap (i + 1) % wrap (capacity + 1)

/-- Where the producer is. -/
inductive Producer (T : Type*)
  /-- In no `push`. -/
  | idle
  /-- About to load `head_`. -/
  | loadingHead (item : T)
  /-- About to load `tail_` and compare it with the index after `currHead`. -/
  | loadingTail (item : T) (currHead : ℕ)
  /-- About to assign `buffer_[currHead]`. -/
  | writing (item : T) (currHead : ℕ)
  /-- About to store the index after `currHead` in `head_`. -/
  | storing (item : T) (currHead : ℕ)
  deriving DecidableEq, Repr

/-- Where the consumer is. -/
inductive Consumer (T : Type*)
  /-- In no `pop`. -/
  | idle
  /-- About to load `tail_`. -/
  | loadingTail
  /-- About to load `head_` and compare it with `currTail`. -/
  | loadingHead (currTail : ℕ)
  /-- About to copy `buffer_[currTail]`. -/
  | reading (currTail : ℕ)
  /-- Copied `elem`; about to store the index after `currTail` in `tail_`. -/
  | storing (elem : T) (currTail : ℕ)
  deriving DecidableEq, Repr

/-- The buffer, its two threads, and the history of the run. -/
structure State (T : Type*) where
  /-- The values `head_` has held, each with the number of slot writes made
  before it was stored. -/
  heads : List (ℕ × ℕ)
  /-- The values `tail_` has held. -/
  tails : List ℕ
  /-- The assignments to slots, each with its index. -/
  writes : List (ℕ × T)
  producer : Producer T
  /-- Which of `tails` the producer's last load of `tail_` returned. -/
  seenTail : ℕ
  consumer : Consumer T
  /-- Which of `heads` the consumer's last load of `head_` returned. -/
  seenHead : ℕ
  /-- How many slot writes the consumer is sure to see. -/
  visible : ℕ
  /-- The elements of the pushes whose `head_` store has been performed. -/
  pushed : List T
  /-- The elements the successful pops have delivered. -/
  popped : List T
  /-- What each completed `push` returned. -/
  pushReturned : List Bool
  /-- What each completed `pop` returned. -/
  popReturned : List Bool

/-- A step of one side, with the choices the memory makes for it. -/
inductive Label (T : Type*)
  /-- The producer calls `push`. -/
  | push (item : T)
  /-- `head_.load (relaxed)`. -/
  | pushLoadHead
  /-- `tail_.load (acquire)` returns the value number `j`. -/
  | pushLoadTail (j : ℕ)
  /-- `buffer_[curr_head] = std::forward<U> (item)`. -/
  | pushWrite
  /-- `head_.store (next_head, release)`, and `return true`. -/
  | pushStoreHead
  /-- The consumer calls `pop`. -/
  | pop
  /-- `tail_.load (relaxed)`. -/
  | popLoadTail
  /-- `head_.load (acquire)` returns the value number `j`. -/
  | popLoadHead (j : ℕ)
  /-- `elem = buffer_[curr_tail]` sees the first `m` slot writes. -/
  | popRead (m : ℕ)
  /-- `tail_.store (..., release)`, and `return true`. -/
  | popStoreTail
  deriving DecidableEq, Repr

variable {T : Type*}

/-- What slot `i` holds after the writes `ws`; `T ()` where it was not written. -/
def slotAfter [Inhabited T] (ws : List (ℕ × T)) (i : ℕ) : T :=
  match ws.reverse.find? fun w => w.1 = i with
  | some w => w.2
  | none => default

/-- The buffer as constructed. -/
def State.start : State T where
  heads := [(0, 0)]
  tails := [0]
  writes := []
  producer := .idle
  seenTail := 0
  consumer := .idle
  seenHead := 0
  visible := 0
  pushed := []
  popped := []
  pushReturned := []
  popReturned := []

/-- A step of the producer, in `push`. -/
def nextPush (capacity : ℕ) (s : State T) : Label T → Option (State T)
  | .push item =>
    match s.producer with
    | .idle => some { s with producer := .loadingHead item }
    | _ => none
  | .pushLoadHead =>
    match s.producer, s.heads.getLast? with
    | .loadingHead item, some (currHead, _) =>
      some { s with producer := .loadingTail item currHead }
    | _, _ => none
  | .pushLoadTail j =>
    match s.producer, s.tails[j]? with
    | .loadingTail item currHead, some tail =>
      if j < s.seenTail then none
      else if nextIndex capacity currHead = tail then
        some { s with
          producer := .idle, seenTail := j, pushReturned := s.pushReturned ++ [false] }
      else some { s with producer := .writing item currHead, seenTail := j }
    | _, _ => none
  | .pushWrite =>
    match s.producer with
    | .writing item currHead =>
      some { s with
        producer := .storing item currHead, writes := s.writes ++ [(currHead, item)] }
    | _ => none
  | .pushStoreHead =>
    match s.producer with
    | .storing item currHead =>
      some { s with
        producer := .idle
        heads := s.heads ++ [(nextIndex capacity currHead, s.writes.length)]
        pushed := s.pushed ++ [item]
        pushReturned := s.pushReturned ++ [true] }
    | _ => none
  | _ => none

/-- A step of the consumer, in `pop`. -/
def nextPop [Inhabited T] (capacity : ℕ) (s : State T) : Label T → Option (State T)
  | .pop =>
    match s.consumer with
    | .idle => some { s with consumer := .loadingTail }
    | _ => none
  | .popLoadTail =>
    match s.consumer, s.tails.getLast? with
    | .loadingTail, some currTail => some { s with consumer := .loadingHead currTail }
    | _, _ => none
  | .popLoadHead j =>
    match s.consumer, s.heads[j]? with
    | .loadingHead currTail, some (head, before) =>
      if j < s.seenHead then none
      else if currTail = head then
        some { s with
          consumer := .idle, seenHead := j, visible := max s.visible before
          popReturned := s.popReturned ++ [false] }
      else
        some { s with
          consumer := .reading currTail, seenHead := j, visible := max s.visible before }
    | _, _ => none
  | .popRead m =>
    match s.consumer with
    | .reading currTail =>
      if s.visible ≤ m ∧ m ≤ s.writes.length then
        some { s with consumer := .storing (slotAfter (s.writes.take m) currTail) currTail }
      else none
    | _ => none
  | .popStoreTail =>
    match s.consumer with
    | .storing elem currTail =>
      some { s with
        consumer := .idle
        tails := s.tails ++ [nextIndex capacity currTail]
        popped := s.popped ++ [elem]
        popReturned := s.popReturned ++ [true] }
    | _ => none
  | _ => none

/-- A buffer between its producer and its consumer, under any interleaving. -/
def system (T : Type*) [Inhabited T] (capacity : ℕ) : System (State T) (Label T) where
  init s := s = .start
  next s l := (nextPush capacity s l).orElse fun _ => nextPop capacity s l

end CcSnippets.SpscRingBuffer

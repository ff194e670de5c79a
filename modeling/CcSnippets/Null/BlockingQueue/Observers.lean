import CcSnippets.Core.Linearizability
import CcSnippets.Null.BlockingQueue.Steps

/-!
# CcSnippets.Null.BlockingQueue.Observers

The queue together with its three `const` operations, `size`, `empty` and
`is_closed`, and what is seen of it from outside.

An observer is called by a thread that is in no other operation. It takes
`mutex_` in competition with everybody else, reads under it, and releases it as it
returns. A call is named by its thread and the number of calls that the thread has
completed before.
-/

namespace CcSnippets.BlockingQueue

open CcSnippets.Core

/-- The operations that only read. -/
inductive Observer
  | size
  | empty
  | isClosed
  deriving DecidableEq, Repr

/-- What may be called. -/
inductive Call (T : Type*)
  | op (op : Op T)
  | close
  | observe (o : Observer)
  deriving DecidableEq, Repr

/-- What a call hands back. -/
inductive Reply (T : Type*)
  | result (r : Result T)
  | closed
  | size (n : ℕ)
  | flag (b : Bool)
  deriving DecidableEq, Repr

/-- Where a thread is in an observer. -/
inductive Observing (T : Type*)
  /-- In none. -/
  | idle
  /-- Called; `mutex_` not yet taken. -/
  | asked (o : Observer)
  /-- Owns `mutex_` and is about to read. -/
  | locked (o : Observer)
  /-- About to release `mutex_` and return. -/
  | read (v : Reply T)
  deriving DecidableEq, Repr

variable {τ T : Type*}

/-- The value that is returned. -/
def Observer.value (o : Observer) (q : Queue T) : Reply T :=
  match o with
  | .size => .size q.queue.length
  | .empty => .flag q.queue.isEmpty
  | .isClosed => .flag q.closed

/-- In no observer. -/
def Observing.isIdle : Observing T → Bool
  | .idle => true
  | _ => false

/-- The queue and the observers. -/
structure Shared (τ : Type*) (T : Type*) where
  base : State τ T
  observing : τ → Observing T
  /-- The observer that owns `mutex_`. -/
  reader : Option τ
  /-- How many calls each thread has completed. -/
  count : τ → ℕ

/-- A step: of one of the other operations, or of an observer. -/
inductive SharedLabel (τ : Type*) (T : Type*)
  | base (l : Label τ T)
  /-- An idle thread calls an observer. -/
  | ask (t : τ) (o : Observer)
  /-- It takes the free mutex. -/
  | take (t : τ)
  /-- It reads. -/
  | read (t : τ)
  /-- It releases the mutex and returns. -/
  | answer (t : τ)
  deriving DecidableEq, Repr

/-- The thread that moves. -/
def Label.thread : Label τ T → τ
  | .call t _ | .callClose t | .lock t _ | .test t | .decide t | .body t _ | .notify t _
  | .leave t _ | .wake t | .close t => t

/-- The mutex is taken. -/
def Label.locks : Label τ T → Bool
  | .lock _ _ => true
  | _ => false

/-- The call that a step makes. -/
def Label.made : Label τ T → Option (Call T)
  | .call _ op => some (.op op)
  | .callClose _ => some .close
  | _ => none

/-- What is returned to the caller in a step. -/
def Label.reply (s : State τ T) : Label τ T → Option (Reply T)
  | .leave t throws =>
    match s.pc t with
    | .leaving r _ => some (.result (if throws then .threw else r))
    | _ => none
  | .close t =>
    match s.pc t with
    | .closeNotFull => some .closed
    | _ => none
  | _ => none

/-- In no operation. -/
def Pc.isIdle : Pc T → Bool
  | .idle => true
  | _ => false

/-- The queue as constructed. -/
def Shared.start (capacity : ℕ) : Shared τ T where
  base := .start capacity
  observing _ := .idle
  reader := none
  count _ := 0

section Next

variable [DecidableEq τ]

/-- The number of calls completed after a step of thread `t` that hands back `r`. -/
def countAfter (count : τ → ℕ) (t : τ) (r : Option (Reply T)) : τ → ℕ :=
  match r with
  | none => count
  | some _ => Function.update count t (count t + 1)

/-- The successor of a state. -/
def nextShared [Fintype τ] (s : Shared τ T) : SharedLabel τ T → Option (Shared τ T)
  | .base l =>
    if (s.observing l.thread).isIdle && !(l.locks && s.reader.isSome) then
      (next s.base l).map fun b =>
        { s with base := b, count := countAfter s.count l.thread (l.reply s.base) }
    else none
  | .ask t o =>
    if (s.base.pc t).isIdle && (s.observing t).isIdle then
      some { s with observing := Function.update s.observing t (.asked o) }
    else none
  | .take t =>
    match s.observing t, s.base.mutex, s.reader with
    | .asked o, none, none =>
      some { s with observing := Function.update s.observing t (.locked o), reader := some t }
    | _, _, _ => none
  | .read t =>
    match s.observing t with
    | .locked o =>
      some { s with observing := Function.update s.observing t (.read (o.value s.base.q)) }
    | _ => none
  | .answer t =>
    match s.observing t with
    | .read _ =>
      some { s with
        observing := Function.update s.observing t .idle
        reader := none
        count := Function.update s.count t (s.count t + 1) }
    | _ => none

/-- The queue with its observers, under any interleaving of any calls. -/
def shared (τ T : Type*) [DecidableEq τ] [Fintype τ] (capacity : ℕ) :
    System (Shared τ T) (SharedLabel τ T) where
  init s := s = .start capacity
  next := nextShared

end Next

/-- What is seen of a step of the other operations from outside. -/
def Label.seen (count : τ → ℕ) (s : State τ T) (l : Label τ T) :
    List (CallEvent (τ × ℕ) (Call T) (Reply T)) :=
  match l.made, l.reply s with
  | some c, _ => [.call (l.thread, count l.thread) c]
  | none, some r => [.ret (l.thread, count l.thread) r]
  | none, none => []

/-- What is seen of a step from outside. -/
def seen (s : Shared τ T) (l : SharedLabel τ T) (_ : Shared τ T) :
    List (CallEvent (τ × ℕ) (Call T) (Reply T)) :=
  match l with
  | .base l => l.seen s.count s.base
  | .ask t o => [.call (t, s.count t) (.observe o)]
  | .take _ | .read _ => []
  | .answer t =>
    match s.observing t with
    | .read v => [.ret (t, s.count t) v]
    | _ => []

end CcSnippets.BlockingQueue

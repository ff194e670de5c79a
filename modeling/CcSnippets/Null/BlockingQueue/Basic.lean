import CcSnippets.Core.Transition
import CcSnippets.Core.Tally

/-!
# CcSnippets.Null.BlockingQueue.Basic

The faithful model of `concurrent_blocking_queue`
(`null/concurrent_blocking_queue.h`): any number of threads calling `push`,
`try_push`, `pop`, `try_pop` and `close`, with one step per statement.

* The four waiting operations share one shape (`Method`): wait on a condition
  variable for a predicate, refuse or run the body, notify one waiter of the
  other condition variable. `push`, `tryPush`, `pop` and `tryPop` are that shape
  at each operation's own predicate, test and body.
* `mutex_` is an owner; the predicate is tested, the deque changed, the waiter
  notified and the value returned while the thread owns it. Going to sleep
  releases it in the same step.
* A wait set is the set of threads whose program counter is `asleep`.
  `notify_one` moves any one of them to `woken`; so do a spurious wake-up and a
  time-out. A woken thread takes the mutex again and tests its predicate again;
  a timed wait may then report a time-out whatever woke it.
* `push_back`, the move of the front element and the construction of the
  returned optional may throw where the label says so; the destructor of
  `unique_lock` then releases the mutex.

The fields after `pc` are history: which calls were made, whose `push_back` and
`pop_front` took effect in which order, and what each call returned.
-/

namespace CcSnippets.BlockingQueue

open CcSnippets.Core

/-- The two condition variables, `not_full_cv_` and `not_empty_cv_`. -/
inductive Cv
  | notFull
  | notEmpty
  deriving DecidableEq, Repr

/-- The data members an operation reads and writes under the mutex. -/
structure Queue (T : Type*) where
  capacity : ℕ
  queue : List T
  closed : Bool
  deriving DecidableEq, Repr

/-- What a call hands back: the `bool` of `push`/`try_push`, the optional of
`pop`/`try_pop`, or an exception. -/
inductive Result (T : Type*)
  | bool (b : Bool)
  | elem (o : Option T)
  | threw
  deriving DecidableEq, Repr

/-- The element a result carries to the caller. -/
def Result.elem? {T : Type*} : Result T → Option T
  | .elem o => o
  | _ => none

/-- What `push`, `try_push`, `pop` and `try_pop` have in common. -/
structure Method (T : Type*) where
  /-- The condition variable of the wait. -/
  waitsOn : Cv
  /-- The wait predicate. -/
  pred : Queue T → Bool
  /-- `wait_for` rather than `wait`. -/
  timed : Bool
  /-- The test after the wait, on the value the wait returned. -/
  refuses : Queue T → Bool → Bool
  /-- What a refused call returns. -/
  refusal : Result T
  /-- The change to the deque and the value returned; `none` where the code
  would call `front ()` on an empty deque. -/
  body : Queue T → Option (Queue T × Result T)
  /-- The condition variable notified after the body. -/
  notifies : Cv
  /-- The caller's argument. -/
  arg : Option T

section Methods

variable {T : Type*}

/-- The wait predicate of `push` and `try_push`. -/
def hasRoomOrClosed (q : Queue T) : Bool := decide (q.queue.length < q.capacity) || q.closed

/-- The wait predicate of `pop` and `try_pop`. -/
def hasElemOrClosed (q : Queue T) : Bool := !q.queue.isEmpty || q.closed

/-- `queue_.push_back (std::forward<U> (elem))`, then `return true`. -/
def pushBack (elem : T) (q : Queue T) : Option (Queue T × Result T) :=
  some ({ q with queue := q.queue ++ [elem] }, .bool true)

/-- `auto elem = std::move (queue_.front ())`, `queue_.pop_front ()`, then
`return elem`. -/
def popFront (q : Queue T) : Option (Queue T × Result T) :=
  match q.queue with
  | [] => none
  | x :: xs => some ({ q with queue := xs }, .elem (some x))

/-- `concurrent_blocking_queue::push`. -/
def push (elem : T) : Method T where
  waitsOn := .notFull
  pred := hasRoomOrClosed
  timed := false
  refuses q _ := q.closed
  refusal := .bool false
  body := pushBack elem
  notifies := .notEmpty
  arg := some elem

/-- `concurrent_blocking_queue::try_push`. -/
def tryPush (elem : T) : Method T where
  waitsOn := .notFull
  pred := hasRoomOrClosed
  timed := true
  refuses q success := !success || q.closed
  refusal := .bool false
  body := pushBack elem
  notifies := .notEmpty
  arg := some elem

/-- `concurrent_blocking_queue::pop`. -/
def pop : Method T where
  waitsOn := .notEmpty
  pred := hasElemOrClosed
  timed := false
  refuses q _ := q.queue.isEmpty && q.closed
  refusal := .elem none
  body := popFront
  notifies := .notFull
  arg := none

/-- `concurrent_blocking_queue::try_pop`. -/
def tryPop : Method T where
  waitsOn := .notEmpty
  pred := hasElemOrClosed
  timed := true
  refuses q success := !success || (q.queue.isEmpty && q.closed)
  refusal := .elem none
  body := popFront
  notifies := .notFull
  arg := none

end Methods

/-- A call of one of the four waiting operations. -/
inductive Op (T : Type*)
  | push (elem : T)
  | tryPush (elem : T)
  | pop
  | tryPop
  deriving DecidableEq, Repr

/-- The code a call runs. -/
def Op.method {T : Type*} : Op T → Method T
  | .push elem => BlockingQueue.push elem
  | .tryPush elem => BlockingQueue.tryPush elem
  | .pop => BlockingQueue.pop
  | .tryPop => BlockingQueue.tryPop

/-- Where a thread is. -/
inductive Pc (T : Type*)
  /-- In no operation. -/
  | idle
  /-- Called; `mutex_` not yet taken. -/
  | entering (op : Op T)
  /-- Owns the mutex and is about to test the wait predicate; `timedOut` says
  that the wait it returned from reported a time-out. -/
  | testing (op : Op T) (timedOut : Bool)
  /-- In the wait set of the operation's condition variable. -/
  | asleep (op : Op T)
  /-- Out of the wait set, before it owns the mutex again. -/
  | woken (op : Op T)
  /-- The wait returned `success`; about to make the test after the wait. -/
  | deciding (op : Op T) (success : Bool)
  /-- About to run the body. -/
  | mutating (op : Op T)
  /-- The body took effect; about to notify one waiter of `cv`. -/
  | notifying (cv : Cv) (r : Result T)
  /-- About to return `r` and release the mutex; `arg` is what is left of the
  caller's argument. -/
  | leaving (r : Result T) (arg : Option T)
  /-- `close ()` called; `mutex_` not yet taken. -/
  | closeEntering
  /-- `close ()` owns the mutex and is about to set `closed_`. -/
  | closeLocked
  /-- `close ()` released the mutex; about to notify all of `not_empty_cv_`. -/
  | closeNotEmpty
  /-- About to notify all of `not_full_cv_`. -/
  | closeNotFull
  deriving DecidableEq, Repr

/-- One call: its thread and how many calls that thread had completed before. -/
abbrev CallId (τ : Type*) := τ × ℕ

/-- The queue, its mutex, the threads, and the history of the run. -/
structure State (τ : Type*) (T : Type*) where
  q : Queue T
  mutex : Option τ
  pc : τ → Pc T
  /-- How many calls each thread has completed. -/
  done : τ → ℕ
  /-- The calls made. -/
  called : List (CallId τ × Op T)
  /-- The elements stored by `push_back`, in the order it took effect. -/
  accepted : List (CallId τ × T)
  /-- The elements removed by `pop_front`, in that order. -/
  removed : List (CallId τ × T)
  /-- What each completed call returned, and what it left of its argument. -/
  returned : List (CallId τ × Result T × Option T)

/-- A step: the thread that moves and the choices made for it. -/
inductive Label (τ : Type*) (T : Type*)
  /-- An idle thread calls an operation. -/
  | call (t : τ) (op : Op T)
  /-- An idle thread calls `close ()`. -/
  | callClose (t : τ)
  /-- A thread takes the free mutex; a timed wait may report a time-out. -/
  | lock (t : τ) (timedOut : Bool)
  /-- The predicate is tested; if it fails, the thread goes to sleep or, after
  a time-out, gives up. -/
  | test (t : τ)
  /-- The test after the wait. -/
  | decide (t : τ)
  /-- The body runs, or throws without effect. -/
  | body (t : τ) (throws : Bool)
  /-- `notify_one`, waking `waiter` (`none` where the wait set is empty). -/
  | notify (t : τ) (waiter : Option τ)
  /-- The value is returned, or building the optional throws. -/
  | leave (t : τ) (throws : Bool)
  /-- A spurious wake-up or a time-out takes a thread out of its wait set. -/
  | wake (t : τ)
  /-- The next statement of `close ()`. -/
  | close (t : τ)
  deriving DecidableEq, Repr

variable {τ T : Type*}

/-- In the wait set of `cv`. -/
def Pc.sleepsOn (cv : Cv) : Pc T → Bool
  | .asleep op => decide (op.method.waitsOn = cv)
  | _ => false

/-- `notify_all` on `cv`, for one thread. -/
def Pc.wakeOn (cv : Cv) : Pc T → Pc T
  | .asleep op => if op.method.waitsOn = cv then .woken op else .asleep op
  | pc => pc

namespace State

/-- The queue as constructed, with no thread in an operation. -/
def start (capacity : ℕ) : State τ T where
  q := { capacity := capacity, queue := [], closed := false }
  mutex := none
  pc _ := .idle
  done _ := 0
  called := []
  accepted := []
  removed := []
  returned := []

variable [DecidableEq τ]

/-- Thread `t` moves to `pc`. -/
def goto (s : State τ T) (t : τ) (pc : Pc T) : State τ T :=
  { s with pc := Function.update s.pc t pc }

@[simp] theorem goto_pc_self (s : State τ T) (t : τ) (pc : Pc T) : (s.goto t pc).pc t = pc :=
  Function.update_self _ _ _

theorem goto_pc_of_ne {s : State τ T} {t u : τ} (h : u ≠ t) (pc : Pc T) :
    (s.goto t pc).pc u = s.pc u :=
  Function.update_of_ne h _ _

/-- The call thread `t` is in. -/
def callId (s : State τ T) (t : τ) : CallId τ := (t, s.done t)

end State

section Next

variable [DecidableEq τ] [Fintype τ]

/-- The successor of a state. -/
def next (s : State τ T) : Label τ T → Option (State τ T)
  | .call t op =>
    match s.pc t with
    | .idle => some { s.goto t (.entering op) with called := s.called ++ [(s.callId t, op)] }
    | _ => none
  | .callClose t =>
    match s.pc t with
    | .idle => some (s.goto t .closeEntering)
    | _ => none
  | .lock t timedOut =>
    match s.mutex, s.pc t with
    | none, .entering op =>
      if timedOut then none else some { s.goto t (.testing op false) with mutex := some t }
    | none, .woken op =>
      if timedOut && !op.method.timed then none
      else some { s.goto t (.testing op timedOut) with mutex := some t }
    | none, .closeEntering =>
      if timedOut then none else some { s.goto t .closeLocked with mutex := some t }
    | _, _ => none
  | .test t =>
    match s.pc t with
    | .testing op timedOut =>
      if op.method.pred s.q then some (s.goto t (.deciding op true))
      else if timedOut then some (s.goto t (.deciding op false))
      else some { s.goto t (.asleep op) with mutex := none }
    | _ => none
  | .decide t =>
    match s.pc t with
    | .deciding op success =>
      if op.method.refuses s.q success then
        some (s.goto t (.leaving op.method.refusal op.method.arg))
      else some (s.goto t (.mutating op))
    | _ => none
  | .body t throws =>
    match s.pc t with
    | .mutating op =>
      if throws then some (s.goto t (.leaving .threw op.method.arg))
      else
        match op.method.body s.q with
        | none => none
        | some (q, r) =>
          some { s.goto t (.notifying op.method.notifies r) with
            q := q
            accepted := s.accepted ++ (op.method.arg.map fun x => (s.callId t, x)).toList
            removed := s.removed ++ (r.elem?.map fun x => (s.callId t, x)).toList }
    | _ => none
  | .notify t waiter =>
    match s.pc t, waiter with
    | .notifying cv r, none =>
      if ∀ u, (s.pc u).sleepsOn cv = false then some (s.goto t (.leaving r none)) else none
    | .notifying cv r, some u =>
      if (s.pc u).sleepsOn cv then
        some ((s.goto u ((s.pc u).wakeOn cv)).goto t (.leaving r none))
      else none
    | _, _ => none
  | .leave t throws =>
    match s.pc t with
    | .leaving r arg =>
      if throws && r.elem?.isNone then none
      else
        some { s.goto t .idle with
          mutex := none
          done := Function.update s.done t (s.done t + 1)
          returned := s.returned ++ [(s.callId t, if throws then .threw else r, arg)] }
    | _ => none
  | .wake t =>
    match s.pc t with
    | .asleep op => some (s.goto t (.woken op))
    | _ => none
  | .close t =>
    match s.pc t with
    | .closeLocked =>
      some { s.goto t .closeNotEmpty with q := { s.q with closed := true }, mutex := none }
    | .closeNotEmpty =>
      some { s with pc := Function.update (fun u => (s.pc u).wakeOn .notEmpty) t .closeNotFull }
    | .closeNotFull =>
      some { s with pc := Function.update (fun u => (s.pc u).wakeOn .notFull) t .idle }
    | _ => none

/-- The queue of the given capacity under any interleaving of any calls. -/
def system (τ T : Type*) [DecidableEq τ] [Fintype τ] (capacity : ℕ) :
    System (State τ T) (Label τ T) where
  init s := s = .start capacity
  next := next

end Next

end CcSnippets.BlockingQueue

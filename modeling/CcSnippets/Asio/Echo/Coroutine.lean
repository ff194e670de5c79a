import CcSnippets.Asio.Echo.Basic

/-!
# CcSnippets.Asio.Echo.Coroutine

The faithful model of a `session` of the coroutine echo server
(`asio/echo/co_server.cc`).

* `echo` is one coroutine, suspended in an operation or at its end. The timer is
  waited for by others: one for each operation where operations have timeouts, or
  one that keeps the watchdog.
* A coroutine that is spawned, or whose operation has completed, is a task on the
  strand. `strandSystem` runs them in the order queued, `system` in any order. A
  spawn on the strand from within it either queues the coroutine or runs it at once
  (`dispatches`).
* A task runs as a whole, up to where it is suspended next; time passes at each
  reading of the clock.

`received` and `written` are the history of the session.
-/

namespace CcSnippets.Asio.Echo.Coroutine

open CcSnippets.Core

/-- `max_receive`. -/
def maxReceive : ℕ := 1024

/-- A coroutine that is ready to run, by where it goes on. -/
inductive Task
  /-- `echo`, spawned. -/
  | echo
  /-- `echo`, behind `async_receive`. -/
  | received (ec : Option Error) (n : ℕ)
  /-- `echo`, behind `async_write`. -/
  | written (ec : Option Error)
  /-- `wait`, spawned. -/
  | wait
  /-- `wait`, behind `async_wait`. -/
  | waited (ec : Option Error)
  /-- `watch`, spawned. -/
  | watch
  /-- `watch`, behind `async_wait`. -/
  | watched (ec : Option Error)
  deriving DecidableEq, Repr

structure State where
  /-- The argument of `start`. -/
  withTimeout : Bool
  /-- How many readings of the clock are past. -/
  instant : ℕ
  isOpen : Bool
  buffer : List UInt8
  /-- The operation in which `echo` is suspended. -/
  outstanding : Option Operation
  /-- `timer_` and `deadline_`. -/
  watchdog : Watchdog
  ready : List Task
  received : List UInt8
  written : List UInt8

/-- What happens next, with the choices of the network and of the scheduler. -/
inductive Label
  /-- Time passes. -/
  | elapse
  /-- The receive delivers a chunk. -/
  | receiveDone (chunk : Chunk)
  | receiveFails (error : Error)
  /-- The write gets `k` more bytes through. -/
  | writeSome (k : ℕ)
  | writeDone
  | writeFails (error : Error)
  /-- A wait on the timer completes. -/
  | waitDone
  /-- Task number `i` runs. -/
  | run (i : ℕ)

namespace State

/-- A session as constructed. -/
def new (withTimeout : Bool) : State where
  withTimeout := withTimeout
  instant := 0
  isOpen := true
  buffer := []
  outstanding := none
  watchdog := .new
  ready := []
  received := []
  written := []

variable (clock : Clock ℤ) (timeout : ℤ) (dispatches : Bool) (s : State)

/-- `socket_.close ()`. -/
def close : State := { s with isOpen := false }

/-- The coroutine that waits for the timer, behind its wait. -/
def resumed (ec : Option Error) : Task := if s.withTimeout then .waited ec else .watched ec

/-- `timer_.cancel ()`. -/
def cancelTimer : State :=
  { s with
    watchdog := s.watchdog.stop.1
    ready := s.ready ++ List.replicate s.watchdog.stop.2 (s.resumed (some .aborted)) }

/-- `deadline_ = now () + timeout_`. -/
def delay : State :=
  { s with
    instant := s.instant + 1
    watchdog := s.watchdog.delay (clock.read s.instant) timeout }

/-- `buffer_.resize (n)`. -/
def resizeBuffer (n : ℕ) : State := { s with buffer := resize s.buffer n }

/-- `async_receive` of the whole buffer. -/
def asyncReceive : State := { s with outstanding := some .receive }

/-- `async_write` of the whole buffer. -/
def asyncWrite : State := { s with outstanding := some (.write s.buffer.length 0) }

/-- `wait`, up to its `async_wait`. -/
def wait : State :=
  let (timer, aborted) := s.watchdog.timer.expiresAt (clock.read s.instant + timeout)
  { s with
    instant := s.instant + 1
    watchdog := { s.watchdog with timer := timer.asyncWait }
    ready := s.ready ++ List.replicate aborted (s.resumed (some .aborted)) }

/-- `start_timeout`: `wait` is spawned. -/
def startTimeout : State :=
  if dispatches then s.wait clock timeout else { s with ready := s.ready ++ [.wait] }

/-- `watch`, from the start of an iteration. -/
def watch : State :=
  let now := clock.read s.instant
  match s.watchdog.start now with
  | none => close { s with instant := s.instant + 1 }
  | some (watchdog, aborted) =>
    { s with
      instant := s.instant + 1
      watchdog := watchdog
      ready := s.ready ++ List.replicate aborted (s.resumed (some .aborted)) }

/-- `echo` of `start_with_timeout`, from the start of an iteration. -/
def receiveWithTimeout : State :=
  ((s.startTimeout clock timeout dispatches).resizeBuffer maxReceive).asyncReceive

/-- The same, behind `async_receive`. -/
def receivedWithTimeout (ec : Option Error) (n : ℕ) : State :=
  match ec with
  | some _ => s.cancelTimer
  | none => ((s.cancelTimer.startTimeout clock timeout dispatches).resizeBuffer n).asyncWrite

/-- The same, behind `async_write`. -/
def writtenWithTimeout (ec : Option Error) : State :=
  match ec with
  | some _ => s.cancelTimer
  | none => s.cancelTimer.receiveWithTimeout clock timeout dispatches

/-- `echo` of `start_with_watchdog`, from the start of an iteration. -/
def receiveWithWatchdog : State :=
  ((s.delay clock timeout).resizeBuffer maxReceive).asyncReceive

/-- The same, behind `async_receive`. -/
def receivedWithWatchdog (ec : Option Error) (n : ℕ) : State :=
  match ec with
  | some _ => s.cancelTimer
  | none => ((s.delay clock timeout).resizeBuffer n).asyncWrite

/-- The same, behind `async_write`. -/
def writtenWithWatchdog (ec : Option Error) : State :=
  match ec with
  | some _ => s.cancelTimer
  | none => s.receiveWithWatchdog clock timeout

/-- A task runs. -/
def resume : Task → State
  | .echo =>
    if s.withTimeout then s.receiveWithTimeout clock timeout dispatches
    else s.receiveWithWatchdog clock timeout
  | .received ec n =>
    if s.withTimeout then s.receivedWithTimeout clock timeout dispatches ec n
    else s.receivedWithWatchdog clock timeout ec n
  | .written ec =>
    if s.withTimeout then s.writtenWithTimeout clock timeout dispatches ec
    else s.writtenWithWatchdog clock timeout ec
  | .wait => s.wait clock timeout
  | .waited none => s.close
  | .waited (some _) => s
  | .watch | .watched none => s.watch clock
  | .watched (some _) => s

/-- `start`: `echo` is spawned, and `watch`. -/
def start : State :=
  { s with ready := if s.withTimeout then [.echo] else [.echo, .watch] }

/-- `echo`'s operation completes, and `echo` is ready to go on with `task`. -/
def complete (task : Task) : State :=
  { s with outstanding := none, ready := s.ready ++ [task] }

/-- Task number `i` is taken off the strand. -/
def dequeue (i : ℕ) : State := { s with ready := s.ready.eraseIdx i }

/-- The successor of a state. -/
def next : Label → Option State
  | .elapse => some { s with instant := s.instant + 1 }
  | .receiveDone chunk =>
    match s.outstanding with
    | some .receive =>
      if s.isOpen ∧ chunk.bytes.length ≤ s.buffer.length then
        some { s.complete (.received none chunk.bytes.length) with
          buffer := chunk.bytes ++ s.buffer.drop chunk.bytes.length
          received := s.received ++ chunk.bytes }
      else none
    | _ => none
  | .receiveFails error =>
    match s.outstanding with
    | some .receive => some (s.complete (.received (some error) 0))
    | _ => none
  | .writeSome k =>
    match s.outstanding with
    | some (.write bytes done) =>
      if s.isOpen ∧ 0 < k ∧ done + k ≤ bytes then
        some { s with
          outstanding := some (.write bytes (done + k))
          written := s.written ++ (s.buffer.take (done + k)).drop done }
      else none
    | _ => none
  | .writeDone =>
    match s.outstanding with
    | some (.write bytes done) =>
      if done = bytes then some (s.complete (.written none)) else none
    | _ => none
  | .writeFails error =>
    match s.outstanding with
    | some (.write _ _) => some (s.complete (.written (some error)))
    | _ => none
  | .waitDone =>
    match s.watchdog.timer.complete (clock.read s.instant) with
    | some timer =>
      some { s with
        watchdog := { s.watchdog with timer := timer }, ready := s.ready ++ [s.resumed none] }
    | none => none
  | .run i =>
    match s.ready[i]? with
    | some task => some ((s.dequeue i).resume clock timeout dispatches task)
    | none => none

end State

/-- A session whose operations complete, and whose tasks run, in any order. -/
def system (clock : Clock ℤ) (timeout : ℤ) (dispatches withTimeout : Bool) :
    System State Label where
  init s := s = (State.new withTimeout).start
  next s l := s.next clock timeout dispatches l

/-- The task that runs is the first one queued. -/
def Label.InOrder : Label → Bool
  | .run i => i == 0
  | _ => true

/-- A session whose tasks run in the order queued. -/
def strandSystem (clock : Clock ℤ) (timeout : ℤ) (dispatches withTimeout : Bool) :
    System State Label where
  init s := s = (State.new withTimeout).start
  next s l := if l.InOrder then s.next clock timeout dispatches l else none

end CcSnippets.Asio.Echo.Coroutine

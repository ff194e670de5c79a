import CcSnippets.Core.Transition
import CcSnippets.Asio.Basic

/-!
# CcSnippets.Asio.Echo.Basic

The faithful model of a `session` of the echo server (`asio/echo/server.cc`).

* `start` chooses one of two loops for good: in one every operation has a timeout of
  its own, in the other a watchdog is moved on by every operation.
* An operation is outstanding until it completes; its completion is queued on the
  strand until its handler runs, and so are the completed waits on the timer.
  `strandSystem` runs the handlers in the order queued, `system` in any order.
* A handler runs as a whole, but time passes in it: each start of an operation and
  each reading of the clock is at the next instant.

`stopped`, `received`, `written` and `log` are the history of the session.
-/

namespace CcSnippets.Asio.Echo

open CcSnippets.Core

/-- An operation on the socket. -/
inductive Operation
  /-- `socket_.async_receive (buffer_)`. -/
  | receive
  /-- `async_write` of the first `bytes` bytes of `buffer_`, of which `done` are
  written. -/
  | write (bytes done : ℕ)
  deriving DecidableEq, Repr

/-- A completion queued on the strand. -/
inductive Completion
  | receive (error : Option Error) (bytes : ℕ)
  | write (error : Option Error) (bytes : ℕ)
  | wait (error : Option Error)
  deriving DecidableEq, Repr

/-- What the history of a session records. -/
inductive Event
  | started (t : ℤ)
  /-- The watchdog ended the session. -/
  | expired (t : ℤ)
  deriving DecidableEq, Repr

structure State where
  /-- The argument of `start`. -/
  withTimeout : Bool
  /-- How many readings of the clock are past. -/
  instant : ℕ
  isOpen : Bool
  buffer : Buffer
  /-- The outstanding operations, each with the time of its start. -/
  outstanding : List (Operation × ℤ)
  /-- `timer_` and `deadline_`. -/
  watchdog : Watchdog
  queue : List Completion
  /-- `stop` has run. -/
  stopped : Bool
  received : List UInt8
  written : List UInt8
  log : List Event

/-- What happens next, with the choices of the network and of the scheduler. -/
inductive Label
  /-- Time passes. -/
  | elapse
  /-- The operation number `i`, a receive, delivers a chunk. -/
  | receiveDone (i : ℕ) (chunk : Chunk)
  | receiveFails (i : ℕ) (error : Error)
  /-- The operation number `i`, a write, gets `k` more bytes through. -/
  | writeSome (i k : ℕ)
  | writeDone (i : ℕ)
  | writeFails (i : ℕ) (error : Error)
  /-- A wait on the timer completes. -/
  | waitDone
  /-- The handler of completion number `i` runs. -/
  | run (i : ℕ)

namespace State

/-- A session as constructed. -/
def new (withTimeout : Bool) (buffer : Buffer) : State where
  withTimeout := withTimeout
  instant := 0
  isOpen := true
  buffer := buffer
  outstanding := []
  watchdog := .new
  queue := []
  stopped := false
  received := []
  written := []
  log := []

variable (clock : Clock ℤ) (timeout : ℤ) (s : State)

/-- An operation is started. -/
def asyncStart (op : Operation) : State :=
  { s with
    instant := s.instant + 1
    outstanding := s.outstanding ++ [(op, clock.read s.instant)]
    log := s.log ++ [.started (clock.read s.instant)] }

/-- `timer_.cancel ()`. -/
def cancelTimer : State :=
  { s with
    watchdog := s.watchdog.stop.1
    queue := s.queue ++ List.replicate s.watchdog.stop.2 (.wait (some .aborted)) }

/-- `stop`. -/
def stop : State := { s.cancelTimer with isOpen := false, stopped := true }

/-- `deadline_ = now () + timeout_`. -/
def delay : State :=
  { s with
    instant := s.instant + 1
    watchdog := s.watchdog.delay (clock.read s.instant) timeout }

def receiveWithWatchdog : State := (s.asyncStart clock .receive).delay clock timeout

def sendWithWatchdog (bytes : ℕ) : State :=
  (s.asyncStart clock (.write (min bytes bufferSize) 0)).delay clock timeout

/-- `start_watchdog`. -/
def startWatchdog : State :=
  let now := clock.read s.instant
  match s.watchdog.start now with
  | none => stop { s with instant := s.instant + 1, log := s.log ++ [.expired now] }
  | some (watchdog, aborted) =>
    { s with
      instant := s.instant + 1
      watchdog := watchdog
      queue := s.queue ++ List.replicate aborted (.wait (some .aborted)) }

/-- `start_timeout`: `expires_after`, and a wait. -/
def startTimeout : State :=
  let (timer, aborted) := s.watchdog.timer.expiresAt (clock.read s.instant + timeout)
  { s with
    instant := s.instant + 1
    watchdog := { s.watchdog with timer := timer.asyncWait }
    queue := s.queue ++ List.replicate aborted (.wait (some .aborted)) }

def receiveWithTimeout : State := (s.asyncStart clock .receive).startTimeout clock timeout

def sendWithTimeout (bytes : ℕ) : State :=
  (s.asyncStart clock (.write (min bytes bufferSize) 0)).startTimeout clock timeout

/-- `start`. -/
def start : State :=
  if s.withTimeout then s.receiveWithTimeout clock timeout
  else (s.receiveWithWatchdog clock timeout).startWatchdog clock

/-- `handle_receive`, `handle_write` and `handle_wait` of the loop with timeouts. -/
def handleWithTimeout : Completion → State
  | .receive none bytes => s.cancelTimer.sendWithTimeout clock timeout bytes
  | .write none _ => s.cancelTimer.receiveWithTimeout clock timeout
  | .receive (some _) _ | .write (some _) _ => s.cancelTimer.stop
  | .wait none => s.stop
  | .wait (some _) => s

/-- `handle_receive`, `handle_write` and `handle_wait` of the loop with a watchdog. -/
def handleWithWatchdog : Completion → State
  | .receive none bytes => s.sendWithWatchdog clock timeout bytes
  | .write none _ => s.receiveWithWatchdog clock timeout
  | .receive (some _) _ | .write (some _) _ => s.stop
  | .wait none => s.startWatchdog clock
  | .wait (some _) => s

/-- The handler of a completion. -/
def handle (c : Completion) : State :=
  if s.withTimeout then s.handleWithTimeout clock timeout c
  else s.handleWithWatchdog clock timeout c

/-- The operation number `i` completes. -/
def complete (i : ℕ) (c : Completion) : State :=
  { s with outstanding := s.outstanding.eraseIdx i, queue := s.queue ++ [c] }

/-- Completion number `i` is taken out of the queue. -/
def dequeue (i : ℕ) : State := { s with queue := s.queue.eraseIdx i }

/-- The successor of a state. -/
def next : Label → Option State
  | .elapse => some { s with instant := s.instant + 1 }
  | .receiveDone i chunk =>
    match s.outstanding[i]? with
    | some (.receive, _) =>
      if s.isOpen then
        some { s.complete i (.receive none chunk.bytes.length) with
          buffer := s.buffer.fill chunk
          received := s.received ++ chunk.bytes }
      else none
    | _ => none
  | .receiveFails i error =>
    match s.outstanding[i]? with
    | some (.receive, _) => some (s.complete i (.receive (some error) 0))
    | _ => none
  | .writeSome i k =>
    match s.outstanding[i]? with
    | some (.write bytes done, since) =>
      if s.isOpen ∧ 0 < k ∧ done + k ≤ bytes then
        some { s with
          outstanding := s.outstanding.set i (.write bytes (done + k), since)
          written := s.written ++ (s.buffer.bytes.take (done + k)).drop done }
      else none
    | _ => none
  | .writeDone i =>
    match s.outstanding[i]? with
    | some (.write bytes done, _) =>
      if done = bytes then some (s.complete i (.write none bytes)) else none
    | _ => none
  | .writeFails i error =>
    match s.outstanding[i]? with
    | some (.write _ done, _) => some (s.complete i (.write (some error) done))
    | _ => none
  | .waitDone =>
    match s.watchdog.timer.complete (clock.read s.instant) with
    | some timer =>
      some { s with
        watchdog := { s.watchdog with timer := timer }, queue := s.queue ++ [.wait none] }
    | none => none
  | .run i =>
    match s.queue[i]? with
    | some c => some ((s.dequeue i).handle clock timeout c)
    | none => none

end State

/-- A session whose operations complete, and whose handlers run, in any order. -/
def system (clock : Clock ℤ) (timeout : ℤ) (withTimeout : Bool) : System State Label where
  init s := ∃ buffer, s = (State.new withTimeout buffer).start clock timeout
  next s l := s.next clock timeout l

/-- The handler that runs is that of the first completion queued. -/
def Label.InOrder : Label → Bool
  | .run i => i == 0
  | _ => true

/-- A session whose handlers run in the order queued. -/
def strandSystem (clock : Clock ℤ) (timeout : ℤ) (withTimeout : Bool) : System State Label where
  init s := ∃ buffer, s = (State.new withTimeout buffer).start clock timeout
  next s l := if l.InOrder then s.next clock timeout l else none

end CcSnippets.Asio.Echo

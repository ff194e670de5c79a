import Mathlib.Logic.Function.Basic
import CcSnippets.Core.Transition
import CcSnippets.Asio.Basic

/-!
# CcSnippets.Asio.Proxy.Basic

The faithful model of a proxy `session` (`asio/proxy/server.cc`), from the start of
its connect on.

* There are two directions, named by the peer that bytes come from; `client` is
  what uses `strand1_`, `client_buffer_` and `watchdog1_`, and `server` what uses
  `strand2_`, `server_buffer_` and `watchdog2_`.
* An operation is outstanding until it completes; its completion is queued until
  its handler runs, in any order. A handler runs as a whole, but time passes in it:
  each start of an operation and each reading of the clock is at the next instant.
* A receive delivers any chunk, a write its bytes in order in any pieces, on an open
  socket. On a closed one both can only fail.

`begun`, `stopped`, `received`, `written` and `log` are the history of the session.
-/

namespace CcSnippets.Asio.Proxy

open CcSnippets.Core

/-- A peer, with the socket to it; also the direction from it to the other peer. -/
inductive Side
  | client
  | server
  deriving DecidableEq, Repr

def Side.other : Side → Side
  | .client => .server
  | .server => .client

/-- An outstanding operation. -/
inductive Operation
  /-- `socket.async_receive (buffer)`. -/
  | receive (socket buffer : Side)
  /-- `async_write (socket, buffer)` of the first `bytes` bytes, of which `done` are
  written. -/
  | write (socket buffer : Side) (bytes done : ℕ)
  deriving DecidableEq, Repr

/-- A completion to be handled. -/
inductive Completion
  | receive (error : Option Error) (bytes : ℕ)
  | write (error : Option Error) (bytes : ℕ)
  deriving DecidableEq, Repr

def Completion.error : Completion → Option Error
  | .receive error _ | .write error _ => error

/-- Where the connect to the target is. -/
inductive Connect
  | outstanding
  | completed (error : Option Error)
  | handled
  deriving DecidableEq, Repr

/-- What the history of a session records. -/
inductive Event
  /-- An operation of the direction was started. -/
  | started (d : Side) (t : ℤ)
  /-- A receive failed on an open socket. -/
  | receiveFailed (d : Side) (error : Error)
  /-- A write failed on an open socket. -/
  | writeFailed (d : Side) (error : Error)
  /-- The watchdog of the direction called its callback. -/
  | expired (d : Side) (t : ℤ)
  deriving DecidableEq, Repr

structure State where
  /-- How many readings of the clock are past. -/
  instant : ℕ
  connect : Connect
  isOpen : Side → Bool
  buffer : Side → Buffer
  /-- The operations bound to the strand of each direction. -/
  outstanding : Side → List Operation
  completed : Side → List Completion
  watchdog : Side → Watchdog
  /-- The completed waits of each watchdog. -/
  waits : Side → List (Option Error)
  /-- The watchdog was started. -/
  begun : Side → Bool
  /-- `stop` has run. -/
  stopped : Bool
  /-- The bytes received from each peer. -/
  received : Side → List UInt8
  /-- The bytes written to each peer. -/
  written : Side → List UInt8
  log : List Event

/-- What happens next, with the choices of the network and of the scheduler. -/
inductive Label
  /-- Time passes. -/
  | elapse
  | connectDone (error : Option Error)
  /-- The receive number `i` of a direction delivers a chunk. -/
  | receiveDone (d : Side) (i : ℕ) (chunk : Chunk)
  | receiveFails (d : Side) (i : ℕ) (error : Error)
  /-- The write number `i` of a direction gets `k` more bytes through. -/
  | writeSome (d : Side) (i k : ℕ)
  | writeDone (d : Side) (i : ℕ)
  | writeFails (d : Side) (i : ℕ) (error : Error)
  /-- A wait of the watchdog completes. -/
  | waitDone (d : Side)
  /-- The handler of the connect runs. -/
  | runConnect
  /-- The handler of completion number `i` of a direction runs. -/
  | runIo (d : Side) (i : ℕ)
  /-- The handler of the completed wait number `i` runs. -/
  | runWait (d : Side) (i : ℕ)

namespace State

/-- After `start`: the connect is outstanding. -/
def start (buffer : Side → Buffer) : State where
  instant := 0
  connect := .outstanding
  isOpen _ := true
  buffer := buffer
  outstanding _ := []
  completed _ := []
  watchdog _ := .new
  waits _ := []
  begun _ := false
  stopped := false
  received _ := []
  written _ := []
  log := []

variable (clock : Clock ℤ) (timeout : ℤ) (s : State)

/-- An operation is started. -/
def asyncStart (d : Side) (op : Operation) : State :=
  { s with
    instant := s.instant + 1
    outstanding := Function.update s.outstanding d (s.outstanding d ++ [op])
    log := s.log ++ [.started d (clock.read s.instant)] }

/-- `watchdog::delay` of the watchdog of `d`. -/
def delay (d : Side) : State :=
  { s with
    instant := s.instant + 1
    watchdog :=
      Function.update s.watchdog d ((s.watchdog d).delay (clock.read s.instant) timeout) }

/-- `stop`: both sockets are closed and both watchdogs stopped. -/
def stop : State :=
  { s with
    isOpen := fun _ => false
    watchdog := fun d => (s.watchdog d).stop.1
    waits := fun d => s.waits d ++ List.replicate (s.watchdog d).stop.2 (some .aborted)
    stopped := true }

/-- The receive of one direction: `socket.async_receive (buffer)`, bound to the
strand of `d`, and `delay` of its watchdog. -/
def receive (d socket buffer : Side) : State :=
  (s.asyncStart clock d (.receive socket buffer)).delay clock timeout d

def receiveFromClient : State := s.receive clock timeout .client .client .client

def receiveFromServer : State := s.receive clock timeout .server .server .server

/-- The write of one direction: `async_write (socket, buffer (buffer, bytes))`,
bound to the strand of `d`, and `delay` of its watchdog. -/
def send (d socket buffer : Side) (bytes : ℕ) : State :=
  (s.asyncStart clock d (.write socket buffer (min bytes bufferSize) 0)).delay clock timeout d

def sendToServer (bytes : ℕ) : State := s.send clock timeout .client .server .client bytes

def sendToClient (bytes : ℕ) : State := s.send clock timeout .server .client .server bytes

/-- `watchdog::start` of the watchdog of `d`, with the callback `stop`. -/
def startWatchdog (d : Side) : State :=
  let now := clock.read s.instant
  match (s.watchdog d).start now with
  | none =>
    stop { s with
      instant := s.instant + 1
      begun := Function.update s.begun d true
      log := s.log ++ [.expired d now] }
  | some (watchdog, aborted) =>
    { s with
      instant := s.instant + 1
      begun := Function.update s.begun d true
      watchdog := Function.update s.watchdog d watchdog
      waits := Function.update s.waits d
        (s.waits d ++ List.replicate aborted (some .aborted)) }

def startWatchdogs : State := (s.startWatchdog clock .client).startWatchdog clock .server

/-- `handle_connect`. -/
def handleConnect : Option Error → State
  | some _ => s
  | none =>
    ((s.receiveFromClient clock timeout).receiveFromServer clock timeout).startWatchdogs clock

/-- `handle_receive` and `handle_write` of the direction `d`. -/
def handle (d : Side) : Completion → State
  | .receive (some _) _ | .write (some _) _ => s.stop
  | .receive none bytes =>
    match d with
    | .client => s.sendToServer clock timeout bytes
    | .server => s.sendToClient clock timeout bytes
  | .write none _ =>
    match d with
    | .client => s.receiveFromClient clock timeout
    | .server => s.receiveFromServer clock timeout

/-- `handle_wait`. -/
def handleWait (d : Side) : Option Error → State
  | some _ => s
  | none => s.startWatchdog clock d

/-- The operation number `i` of a direction completes. -/
def complete (d : Side) (i : ℕ) (c : Completion) : State :=
  { s with
    outstanding := Function.update s.outstanding d ((s.outstanding d).eraseIdx i)
    completed := Function.update s.completed d (s.completed d ++ [c]) }

/-- The failure of an operation on `socket`, which the log has where the socket is open. -/
def fails (socket : Side) (e : Event) : State :=
  if s.isOpen socket then { s with log := s.log ++ [e] } else s

/-- Completion number `i` of a direction is taken out of the queue. -/
def dequeue (d : Side) (i : ℕ) : State :=
  { s with completed := Function.update s.completed d ((s.completed d).eraseIdx i) }

/-- The completed wait number `i` is taken out of the queue. -/
def dequeueWait (d : Side) (i : ℕ) : State :=
  { s with waits := Function.update s.waits d ((s.waits d).eraseIdx i) }

/-- The successor of a state. -/
def next : Label → Option State
  | .elapse => some { s with instant := s.instant + 1 }
  | .connectDone error =>
    if s.connect = .outstanding then some { s with connect := .completed error } else none
  | .receiveDone d i chunk =>
    match (s.outstanding d)[i]? with
    | some (.receive socket buffer) =>
      if s.isOpen socket then
        some { s.complete d i (.receive none chunk.bytes.length) with
          buffer := Function.update s.buffer buffer ((s.buffer buffer).fill chunk)
          received := Function.update s.received socket (s.received socket ++ chunk.bytes) }
      else none
    | _ => none
  | .receiveFails d i error =>
    match (s.outstanding d)[i]? with
    | some (.receive socket _) =>
      some ((s.complete d i (.receive (some error) 0)).fails socket (.receiveFailed d error))
    | _ => none
  | .writeSome d i k =>
    match (s.outstanding d)[i]? with
    | some (.write socket buffer bytes done) =>
      if s.isOpen socket ∧ 0 < k ∧ done + k ≤ bytes then
        some { s with
          outstanding := Function.update s.outstanding d
            ((s.outstanding d).set i (.write socket buffer bytes (done + k)))
          written := Function.update s.written socket
            (s.written socket ++ ((s.buffer buffer).bytes.take (done + k)).drop done) }
      else none
    | _ => none
  | .writeDone d i =>
    match (s.outstanding d)[i]? with
    | some (.write _ _ bytes done) =>
      if done = bytes then some (s.complete d i (.write none bytes)) else none
    | _ => none
  | .writeFails d i error =>
    match (s.outstanding d)[i]? with
    | some (.write socket _ _ done) =>
      some ((s.complete d i (.write (some error) done)).fails socket (.writeFailed d error))
    | _ => none
  | .waitDone d =>
    match (s.watchdog d).timer.complete (clock.read s.instant) with
    | some timer =>
      some { s with
        watchdog := Function.update s.watchdog d { s.watchdog d with timer := timer }
        waits := Function.update s.waits d (s.waits d ++ [none]) }
    | none => none
  | .runConnect =>
    match s.connect with
    | .completed error => some ({ s with connect := .handled }.handleConnect clock timeout error)
    | _ => none
  | .runIo d i =>
    match (s.completed d)[i]? with
    | some c => some ((s.dequeue d i).handle clock timeout d c)
    | none => none
  | .runWait d i =>
    match (s.waits d)[i]? with
    | some error => some ((s.dequeueWait d i).handleWait clock d error)
    | none => none

end State

/-- A session whose operations complete, and whose handlers run, in any order. -/
def system (clock : Clock ℤ) (timeout : ℤ) : System State Label where
  init s := ∃ buffer, s = .start buffer
  next s l := s.next clock timeout l

end CcSnippets.Asio.Proxy

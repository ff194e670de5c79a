import Mathlib.Data.BitVec
import CcSnippets.Core.Tally
import CcSnippets.Asio.Basic

/-!
# CcSnippets.Asio.Client.Basic

The sessions of the two echo clients: callbacks (`asio/echo/client.cc`) and a
coroutine (`asio/echo/co_client.cc`).

Either way a session has at most one operation outstanding. When it completes, the
code that follows updates some counters, **one at a time and in its order**, and
starts the next operation or ends the session: a `Reaction`. What follows is named
by the handler that is bound, or by the point at which the coroutine is suspended.
-/

namespace CcSnippets.Asio.Client

/-! ### Counters -/

inductive Counter
  | completed
  | connected
  | failed
  | echoes
  deriving DecidableEq, Repr

/-- The values of the `std::atomic<int>`s, whose arithmetic wraps. -/
abbrev Counters := Counter → BitVec 32

inductive Update
  | increment (c : Counter)
  | decrement (c : Counter)
  deriving DecidableEq, Repr

/-- What the update adds to the counter `c`. -/
def Update.delta (c : Counter) : Update → BitVec 32
  | .increment d => if d = c then 1 else 0
  | .decrement d => if d = c then -1 else 0

def Counters.update (k : Counters) (u : Update) : Counters := fun c => k c + u.delta c

/-- One update after the other. -/
def Counters.updates (k : Counters) (us : List Update) : Counters := us.foldl Counters.update k

/-- The order of the updates makes no difference behind the last of them. -/
theorem Counters.updates_apply (k : Counters) (us : List Update) (c : Counter) :
    k.updates us c = k c + (us.map (Update.delta c)).sum := by
  induction us generalizing k with
  | nil => simp [Counters.updates]
  | cons u us ih =>
    show (k.update u).updates us c = _
    rw [ih, Counters.update, List.map_cons, List.sum_cons, BitVec.add_assoc]

/-! ### Sessions -/

/-- The buffers of a session. -/
structure Session where
  sendBuffer : List UInt8
  recvBuffer : List UInt8
  deriving DecidableEq, Repr

/-- As constructed. -/
def Session.new : Session := ⟨[], []⟩

/-- `"Hello world!"`. -/
def hello : List UInt8 := "Hello world!".toList.map fun c => UInt8.ofNat c.toNat

inductive Operation
  /-- `socket_.async_connect` to the local port. -/
  | connect (port : ℕ)
  /-- `asio::async_write`. -/
  | write (bytes : List UInt8)
  /-- `asio::async_read` of a buffer of this size. -/
  | read (size : ℕ)
  /-- `timer_.async_wait` this long after now. -/
  | wait (seconds : ℕ)
  deriving DecidableEq, Repr

/-- How an operation completes: its error, and the bytes that a read has received. -/
structure Outcome where
  error : Option Error
  reply : List UInt8
  deriving DecidableEq, Repr

/-- What the completion of an operation does to the buffers: a read fills the
receive buffer from its start. -/
def Operation.deliver (op : Operation) (o : Outcome) (s : Session) : Session :=
  match op with
  | .read size =>
    { s with recvBuffer := o.reply.take size ++ s.recvBuffer.drop o.reply.length }
  | _ => s

/-- What follows the completion of an operation. -/
structure Reaction (π : Type) where
  session : Session
  /-- The updates of the counters, in order. -/
  updates : List Update
  /-- The operation started, and where its completion continues; `none` where the
  session ends. -/
  next : Option (Operation × π)
  deriving DecidableEq, Repr

/-- The updates `us` come first. -/
def Reaction.after {π : Type} (us : List Update) (r : Reaction π) : Reaction π :=
  { r with updates := us ++ r.updates }

/-- `if (recv_buffer_ == send_buffer_) echoes++;` -/
def Session.check (s : Session) : List Update :=
  if s.recvBuffer = s.sendBuffer then [.increment .echoes] else []

/-- The two assignments before a message is written. -/
def Session.prepare (s : Session) : Session where
  sendBuffer := hello
  recvBuffer := resize s.recvBuffer hello.length

/-! ### `client.cc` -/

namespace Callback

/-- The handler bound to the operation outstanding. -/
inductive Handler
  | handleConnect
  | handleWrite
  | handleRead
  | handleWait
  deriving DecidableEq, Repr

def onError (s : Session) : Reaction Handler where
  session := s
  updates := [.increment .failed, .decrement .connected]
  next := none

/-- The private `start`. -/
def start (s : Session) : Reaction Handler where
  session := s.prepare
  updates := []
  next := some (.write s.prepare.sendBuffer, .handleWrite)

def handleConnect (s : Session) (error : Option Error) : Reaction Handler :=
  .after [.increment .completed] <|
    match error with
    | some _ => { session := s, updates := [.increment .failed], next := none }
    | none => .after [.increment .connected] (start s)

def handleWrite (s : Session) (error : Option Error) : Reaction Handler :=
  match error with
  | some _ => onError s
  | none =>
    { session := s, updates := [], next := some (.read s.recvBuffer.length, .handleRead) }

def handleRead (s : Session) (error : Option Error) : Reaction Handler :=
  match error with
  | some _ => onError s
  | none => { session := s, updates := s.check, next := some (.wait 1, .handleWait) }

def handleWait (s : Session) (error : Option Error) : Reaction Handler :=
  match error with
  | some _ => onError s
  | none => start s

def handle : Handler → Session → Option Error → Reaction Handler
  | .handleConnect => handleConnect
  | .handleWrite => handleWrite
  | .handleRead => handleRead
  | .handleWait => handleWait

/-- A handler ends the session exactly where it is called with an error. -/
theorem handle_next_eq_none {h : Handler} {s : Session} {e : Option Error} :
    (handle h s e).next = none ↔ e.isSome = true := by
  cases h <;> cases e <;>
    simp [handle, handleConnect, handleWrite, handleRead, handleWait, start, onError,
      Reaction.after]

/-- No handler connects again. -/
theorem handle_next_ne_connect {h h' : Handler} {s : Session} {e : Option Error}
    {op : Operation} (hnext : (handle h s e).next = some (op, h')) :
    h' ≠ .handleConnect := by
  cases h <;> cases e <;> cases hnext <;> simp

end Callback

/-! ### `co_client.cc` -/

namespace Coroutine

/-- Where `start` is suspended, by the comments in its body. -/
inductive Point
  | connect
  | send
  | recv
  | delay
  deriving DecidableEq, Repr

/-- The error exit of an iteration: `break`. -/
def fail (s : Session) : Reaction Point where
  session := s
  updates := [.decrement .connected, .increment .failed]
  next := none

/-- The loop, from the start of an iteration. -/
def echo (s : Session) : Reaction Point where
  session := s.prepare
  updates := []
  next := some (.write s.prepare.sendBuffer, .send)

/-- `start`, from where it is suspended to where it is suspended next. -/
def resume (p : Point) (s : Session) (ec : Option Error) : Reaction Point :=
  match p with
  | .connect =>
    .after [.increment .completed] <|
      match ec with
      | some _ => { session := s, updates := [.increment .failed], next := none }
      | none => .after [.increment .connected] (echo s)
  | .send =>
    match ec with
    | some _ => fail s
    | none => { session := s, updates := [], next := some (.read s.recvBuffer.length, .recv) }
  | .recv =>
    match ec with
    | some _ => fail s
    | none => { session := s, updates := s.check, next := some (.wait 1, .delay) }
  -- whatever `ec` is
  | .delay => echo s

end Coroutine

end CcSnippets.Asio.Client

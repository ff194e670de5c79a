import Mathlib.Data.Fintype.Prod
import CcSnippets.Core.Transition
import CcSnippets.Asio.Client.Basic

/-!
# CcSnippets.Asio.Client.Monitor

The faithful model of a run of `client.cc`: `main`, the ten threads with their
sessions, and `monitor`, one step for each access to an atomic.

A thread starts its sessions and then runs one handler at a time; a handler makes
its updates one by one. `monitor` waits until enough connects are completed, and
then until no session is connected any more. What it loads only to print is left
out.
-/

namespace CcSnippets.Asio.Client

open CcSnippets.Core Callback

/-- A positive `connections`. -/
structure Connections where
  count : ℕ
  pos : 0 < count
  lt : count < 2 ^ 31

/-- `conns`, the number of sessions that each thread starts. -/
def Connections.conns (n : Connections) : ℕ := n.count / 10 + if n.count % 10 = 0 then 0 else 1

/-- A session: its thread, and its number there. -/
abbrev SessionId (n : Connections) := Fin 10 × Fin n.conns

/-- Where a session is. -/
inductive Phase
  | unstarted
  /-- Its operation is outstanding. -/
  | waiting (session : Session) (op : Operation) (h : Handler)
  /-- Its handler is called; what is left of it. -/
  | running (r : Reaction Handler)
  | ended
  deriving DecidableEq, Repr

/-- Where a thread with `conns` sessions is. -/
inductive Thread (conns : ℕ)
  /-- It has started `j` sessions. -/
  | starting (j : ℕ)
  /-- In `io.run`, and in no handler. -/
  | polling
  /-- In the handler of session `j`. -/
  | handling (j : Fin conns)
  /-- A session could not be made. -/
  | thrown
  deriving DecidableEq, Repr

/-- Where `monitor` is. -/
inductive MonitorPc
  /-- The first loop: about to load `stop`, -/
  | connectingStop
  /-- and `completed`. -/
  | connectingCompleted
  /-- `if (stop) return;` -/
  | between
  /-- The second loop: about to load `stop`, -/
  | activeStop
  /-- and `connected`. -/
  | activeConnected
  /-- It has read `connected == 0`; about to set `stop`. -/
  | setStop
  /-- It has set `stop`. -/
  | finished
  /-- It has found `stop` set. -/
  | stopped
  deriving DecidableEq, Repr

structure Run (n : Connections) where
  counters : Counters
  stop : Bool
  phase : SessionId n → Phase
  thread : Fin 10 → Thread n.conns
  /-- How many of `ctxs` `main` has stopped. -/
  stoppedContexts : ℕ
  monitor : MonitorPc

/-- Who moves. -/
inductive Label (n : Connections)
  /-- The thread makes a session and starts it. -/
  | start (t : Fin 10)
  /-- `session::make` throws: no socket can be opened. -/
  | throws (t : Fin 10)
  /-- The thread calls `io.run`. -/
  | run (t : Fin 10)
  /-- The operation of session `j` of the thread has completed; its handler is called. -/
  | complete (t : Fin 10) (j : Fin n.conns) (o : Outcome)
  /-- The handler makes its next update. -/
  | update (t : Fin 10)
  /-- The handler returns. -/
  | finish (t : Fin 10)
  /-- The next load or store of `monitor`. -/
  | monitor
  /-- `SIGINT`. -/
  | interrupt
  /-- `main` has read `stop`, and stops the next of `ctxs`. -/
  | stopContext
  deriving DecidableEq, Repr

variable {n : Connections}

/-- At the start of the threads. -/
def Run.start (n : Connections) : Run n where
  counters _ := 0
  stop := false
  phase _ := .unstarted
  thread _ := .starting 0
  stoppedContexts := 0
  monitor := .connectingStop

namespace Run

variable (s : Run n)

/-- `monitor`, up to its next access of an atomic. -/
def nextMonitor : Option (Run n) :=
  match s.monitor with
  | .connectingStop =>
    some { s with monitor := if s.stop then .between else .connectingCompleted }
  | .connectingCompleted =>
    some { s with
      monitor := if (s.counters .completed).toInt < n.count then .connectingStop else .between }
  | .between => some { s with monitor := if s.stop then .stopped else .activeStop }
  | .activeStop => some { s with monitor := if s.stop then .stopped else .activeConnected }
  | .activeConnected =>
    some { s with monitor := if s.counters .connected = 0 then .setStop else .activeStop }
  | .setStop => some { s with stop := true, monitor := .finished }
  | .finished | .stopped => none

/-- Where the session is when its handler has returned. -/
def after (r : Reaction Handler) : Phase :=
  match r.next with
  | some (op, h) => .waiting r.session op h
  | none => .ended

def next : Label n → Option (Run n)
  | .start t =>
    match s.thread t with
    | .starting j =>
      if h : j < n.conns then
        some { s with
          thread := Function.update s.thread t (.starting (j + 1))
          phase := Function.update s.phase (t, ⟨j, h⟩)
            (.waiting .new (.connect (8080 + t)) .handleConnect) }
      else none
    | _ => none
  | .throws t =>
    match s.thread t with
    | .starting j =>
      if j < n.conns then some { s with thread := Function.update s.thread t .thrown } else none
    | _ => none
  | .run t =>
    match s.thread t with
    | .starting j =>
      if j = n.conns then some { s with thread := Function.update s.thread t .polling } else none
    | _ => none
  | .complete t j o =>
    match s.thread t, s.phase (t, j) with
    | .polling, .waiting session op h =>
      if s.stoppedContexts ≤ t then
        some { s with
          thread := Function.update s.thread t (.handling j)
          phase := Function.update s.phase (t, j)
            (.running (handle h (op.deliver o session) o.error)) }
      else none
    | _, _ => none
  | .update t =>
    match s.thread t with
    | .handling j =>
      match s.phase (t, j) with
      | .running { session, updates := u :: us, next } =>
        some { s with
          counters := s.counters.update u
          phase := Function.update s.phase (t, j) (.running { session, updates := us, next }) }
      | _ => none
    | _ => none
  | .finish t =>
    match s.thread t with
    | .handling j =>
      match s.phase (t, j) with
      | .running { session, updates := [], next } =>
        some { s with
          thread := Function.update s.thread t .polling
          phase := Function.update s.phase (t, j) (after { session, updates := [], next }) }
      | _ => none
    | _ => none
  | .monitor => s.nextMonitor
  | .interrupt => some { s with stop := true }
  | .stopContext =>
    if s.stop ∧ s.stoppedContexts < 10 then
      some { s with stoppedContexts := s.stoppedContexts + 1 }
    else none

end Run

/-- The program, under any interleaving and any outcomes. -/
def system (n : Connections) : System (Run n) (Label n) where
  init s := s = .start n
  next s l := s.next l

/-! ### What `monitor` is about -/

/-- The session has completed its connect, successfully or not. -/
def Phase.connectDone : Phase → Bool
  | .unstarted | .waiting _ _ .handleConnect => false
  | _ => true

/-- The session is connected, and not ended by an error. -/
def Phase.established : Phase → Bool
  | .waiting _ _ h => h ≠ .handleConnect
  | .running r => r.next.isSome
  | _ => false

/-- The session is between `completed++` and `connected++`. -/
def Phase.joining : Phase → Bool
  | .running r => r.updates.head? = some (.increment .connected)
  | _ => false

/-- **`monitor` is on time**: where it reads `connected == 0`, `completed` has come to the
number of sessions that the threads start, and no session is between its two
increments. -/
structure OnTime (s : Run n) (l : Label n) : Prop where
  completed : l = .monitor → s.monitor = .activeConnected → s.counters .connected = 0 →
    (s.counters .completed).toNat = 10 * n.conns
  joining : l = .monitor → s.monitor = .activeConnected → s.counters .connected = 0 →
    ∀ i, (s.phase i).joining = false

instance (s : Run n) (l : Label n) : Decidable (OnTime s l) :=
  decidable_of_iff (_ ∧ _) ⟨fun h => ⟨h.1, h.2⟩, fun h => ⟨h.completed, h.joining⟩⟩

end CcSnippets.Asio.Client

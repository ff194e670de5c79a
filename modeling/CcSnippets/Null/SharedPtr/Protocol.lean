import CcSnippets.Core.Transition
import CcSnippets.Core.Tally
import CcSnippets.Null.SharedPtr.ControlBlock

/-!
# CcSnippets.Null.SharedPtr.Protocol

The control-block protocol of `shared_ptr` and `weak_ptr` between threads: one
control block, any number of threads, each with any number of handles to it, and
one step for each atomic access.

* A thread uses only handles it owns: it copies a shared or weak handle, takes a
  weak one from a shared one, drops either, or calls `lock ()` on a weak one. It
  may hand a handle to another thread, which touches nothing.
* `lock_use_count` is its loop: a load, and then compare-exchanges, each of which
  may fail spuriously, until one succeeds or a count of zero is seen.
* The thread that took the last shared handle away calls `dispose ()`, then drops
  the weak reference the shared handles held together; the thread that took the
  last weak reference away calls `destroy ()`.

The counters after `threads` are history.
-/

namespace CcSnippets.SharedPtr.Protocol

open CcSnippets.Core CcSnippets.SharedPtr

/-- Where a thread is. -/
inductive Pc
  /-- In no operation. -/
  | idle
  /-- In the loop of `lock_use_count`, about to compare-exchange `count`. -/
  | locking (count : ℤ)
  /-- In `dec_use_count`, about to call `dispose ()`. -/
  | aboutToDispose
  /-- In `dispose ()`. -/
  | inDispose
  /-- In `dec_use_count`, about to call `dec_weak_count ()`. -/
  | aboutToDecWeak
  /-- In `dec_weak_count`, about to call `destroy ()`. -/
  | aboutToDestroy
  deriving DecidableEq, Repr

/-- A thread, and how many handles to the block it owns. -/
structure Thread where
  shared : ℕ
  weak : ℕ
  pc : Pc
  deriving DecidableEq, Repr

/-- The control block, its threads, and the history of the run. -/
structure State (τ : Type*) where
  cb : ControlBlock
  threads : τ → Thread
  /-- How often `dispose ()` was called. -/
  disposals : ℕ
  /-- How often `dispose ()` returned. -/
  returns : ℕ
  /-- How often `destroy ()` was called. -/
  destroys : ℕ
  /-- Some `expired ()` returned true. -/
  sawExpired : Bool

/-- A step of thread `t`. -/
inductive Label (τ : Type*)
  /-- Copy a shared handle: `inc_use_count`. -/
  | copyShared (t : τ)
  /-- Take a weak handle from a shared one: `inc_weak_count`. -/
  | weakFromShared (t : τ)
  /-- Copy a weak handle: `inc_weak_count`. -/
  | copyWeak (t : τ)
  /-- Drop a shared handle: the `fetch_sub` of `dec_use_count`. -/
  | dropShared (t : τ)
  /-- Drop a weak handle: the `fetch_sub` of `dec_weak_count`. -/
  | dropWeak (t : τ)
  /-- The load of `lock_use_count`. -/
  | lockLoad (t : τ)
  /-- A compare-exchange of `lock_use_count`. -/
  | lockExchange (t : τ) (spurious : Bool)
  /-- `weak_ptr::expired`. -/
  | expired (t : τ)
  /-- `dispose ()` is called. -/
  | dispose (t : τ)
  /-- `dispose ()` returns. -/
  | disposeReturn (t : τ)
  /-- The `fetch_sub` of the `dec_weak_count` after `dispose ()`. -/
  | decWeak (t : τ)
  /-- `destroy ()`. -/
  | destroy (t : τ)
  /-- A shared handle is moved to thread `u`. -/
  | giveShared (t u : τ)
  /-- A weak handle is moved to thread `u`. -/
  | giveWeak (t u : τ)
  deriving DecidableEq, Repr

/-- Every step but a move of a handle accesses the control block. -/
def Label.accesses {τ : Type*} : Label τ → Bool
  | .giveShared _ _ | .giveWeak _ _ => false
  | _ => true

/-- `if (count == 0) return false;`, else on to the compare-exchange. -/
def lockTest (count : ℤ) : Pc := if count = 0 then .idle else .locking count

variable {τ : Type*} [DecidableEq τ]

/-- Thread `t` becomes `x`. -/
def State.set (s : State τ) (t : τ) (x : Thread) : State τ :=
  { s with threads := Function.update s.threads t x }

/-- The successor of a state. -/
def next (s : State τ) : Label τ → Option (State τ)
  | .copyShared t =>
    match s.threads t with
    | { shared := n + 1, weak := w, pc := .idle } =>
      some { s.set t { shared := n + 2, weak := w, pc := .idle } with cb := s.cb.incUseCount }
    | _ => none
  | .weakFromShared t =>
    match s.threads t with
    | { shared := n + 1, weak := w, pc := .idle } =>
      some { s.set t { shared := n + 1, weak := w + 1, pc := .idle } with cb := s.cb.incWeakCount }
    | _ => none
  | .copyWeak t =>
    match s.threads t with
    | { shared := n, weak := w + 1, pc := .idle } =>
      some { s.set t { shared := n, weak := w + 2, pc := .idle } with cb := s.cb.incWeakCount }
    | _ => none
  | .dropShared t =>
    match s.threads t with
    | { shared := n + 1, weak := w, pc := .idle } =>
      some { s.set t { shared := n, weak := w,
                       pc := if s.cb.useCount = 1 then .aboutToDispose else .idle } with
        cb := s.cb.subUseCount }
    | _ => none
  | .dropWeak t =>
    match s.threads t with
    | { shared := n, weak := w + 1, pc := .idle } =>
      some { s.set t { shared := n, weak := w,
                       pc := if s.cb.weakCount = 1 then .aboutToDestroy else .idle } with
        cb := s.cb.subWeakCount }
    | _ => none
  | .lockLoad t =>
    match s.threads t with
    | { shared := n, weak := w + 1, pc := .idle } =>
      some (s.set t { shared := n, weak := w + 1, pc := lockTest s.cb.useCount })
    | _ => none
  | .lockExchange t spurious =>
    match s.threads t with
    | { shared := n, weak := w, pc := .locking count } =>
      match s.cb.compareExchange count spurious with
      | .ok cb => some { s.set t { shared := n + 1, weak := w, pc := .idle } with cb := cb }
      | .error count => some (s.set t { shared := n, weak := w, pc := lockTest count })
    | _ => none
  | .expired t =>
    match s.threads t with
    | { shared := _, weak := _ + 1, pc := .idle } =>
      some { s with sawExpired := s.sawExpired || s.cb.useCount = 0 }
    | _ => none
  | .dispose t =>
    match s.threads t with
    | { shared := n, weak := w, pc := .aboutToDispose } =>
      some { s.set t { shared := n, weak := w, pc := .inDispose } with
        disposals := s.disposals + 1 }
    | _ => none
  | .disposeReturn t =>
    match s.threads t with
    | { shared := n, weak := w, pc := .inDispose } =>
      some { s.set t { shared := n, weak := w, pc := .aboutToDecWeak } with
        returns := s.returns + 1 }
    | _ => none
  | .decWeak t =>
    match s.threads t with
    | { shared := n, weak := w, pc := .aboutToDecWeak } =>
      some { s.set t { shared := n, weak := w,
                       pc := if s.cb.weakCount = 1 then .aboutToDestroy else .idle } with
        cb := s.cb.subWeakCount }
    | _ => none
  | .destroy t =>
    match s.threads t with
    | { shared := n, weak := w, pc := .aboutToDestroy } =>
      some { s.set t { shared := n, weak := w, pc := .idle } with destroys := s.destroys + 1 }
    | _ => none
  | .giveShared t u =>
    match s.threads t with
    | { shared := n + 1, weak := w, pc := .idle } =>
      let s := s.set t { shared := n, weak := w, pc := .idle }
      some (s.set u { s.threads u with shared := (s.threads u).shared + 1 })
    | _ => none
  | .giveWeak t u =>
    match s.threads t with
    | { shared := n, weak := w + 1, pc := .idle } =>
      let s := s.set t { shared := n, weak := w, pc := .idle }
      some (s.set u { s.threads u with weak := (s.threads u).weak + 1 })
    | _ => none

/-! ### What the threads hold -/

variable [Fintype τ]

/-- What the threads have a stake in, added up. -/
structure Stakes where
  shared : ℕ
  weak : ℕ
  aboutToDispose : ℕ
  inDispose : ℕ
  aboutToDecWeak : ℕ
  aboutToDestroy : ℕ

/-- One thread's stake in `pc`. -/
def stake (pc : Pc) (x : Thread) : ℕ := if x.pc = pc then 1 else 0

/-- The threads at `pc`. -/
def State.countAt (s : State τ) (pc : Pc) : ℕ := tally (stake pc) s.threads

/-- The handles of all threads, and the threads between two steps of giving up
the last one. -/
def State.stakes (s : State τ) : Stakes where
  shared := tally Thread.shared s.threads
  weak := tally Thread.weak s.threads
  aboutToDispose := s.countAt .aboutToDispose
  inDispose := s.countAt .inDispose
  aboutToDecWeak := s.countAt .aboutToDecWeak
  aboutToDestroy := s.countAt .aboutToDestroy

/-- The protocol from any distribution of handles whose counts are right, with
at least one shared handle and every thread idle. -/
def system (τ : Type*) [DecidableEq τ] [Fintype τ] : System (State τ) (Label τ) where
  init s := s.cb.useCount = s.stakes.shared ∧ 0 < s.stakes.shared ∧
    s.cb.weakCount = s.stakes.weak + 1 ∧ (∀ t, (s.threads t).pc = .idle) ∧
    s.disposals = 0 ∧ s.returns = 0 ∧ s.destroys = 0 ∧ s.sawExpired = false
  next := next

end CcSnippets.SharedPtr.Protocol

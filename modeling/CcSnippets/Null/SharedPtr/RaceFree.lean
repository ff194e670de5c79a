import CcSnippets.Null.SharedPtr.Releases

/-!
# CcSnippets.Null.SharedPtr.RaceFree

The memory orders of `shared_ptr.h` are **enough, and the two that matter cannot be
weaker**: the decrements have to acquire and release, and then every use of the
object happens before its disposal and every access to the control block before its
destruction. The increments, the compare-exchange of `lock ()` and the loads could have
any order, and the loads, stale as they may be, never lead anybody to a handle of
an object that is gone, nor to the belief that a living one is.
-/

namespace CcSnippets.SharedPtr.Ordered

open CcSnippets.Core CcSnippets.SharedPtr CcSnippets.SharedPtr.Protocol

variable {τ : Type*} [DecidableEq τ] [Fintype τ]

omit [Fintype τ] in
theorem dispose_pc {o : Orders} {s s' : State τ} {t : τ}
    (h : next o s (.act (.dispose t)) = some s') :
    (s.protocol.threads t).pc = .aboutToDispose := by
  cases next_step h with
  | act _ hnext =>
    cases Protocol.next_step hnext with
    | dispose hx => exact congrArg Thread.pc hx

omit [Fintype τ] in
theorem destroy_pc {o : Orders} {s s' : State τ} {t : τ}
    (h : next o s (.act (.destroy t)) = some s') :
    (s.protocol.threads t).pc = .aboutToDestroy := by
  cases next_step h with
  | act _ hnext =>
    cases Protocol.next_step hnext with
    | destroy hx => exact congrArg Thread.pc hx

/-- **Whatever is done through a handle happens before the end**, under the memory
orders of `shared_ptr.h` and whatever stale counts the relaxed loads return: the
thread that calls `dispose ()` knows of every use of the object, and the thread that
calls `destroy ()` of every access to the block; afterwards there is none. -/
theorem released_before_gone {s : State τ} (h : (system τ .source).Reachable s) :
    (∀ t s', next .source s (.act (.dispose t)) = some s' →
      ∀ e ∈ s.uses, (s.memory.view t).Covers e) ∧
    (∀ t s', next .source s (.act (.destroy t)) = some s' →
      ∀ e ∈ s.accesses, (s.memory.view t).Covers e) ∧
    ∀ l s', next .source s l = some s' →
      (s'.uses ≠ s.uses → s.protocol.disposals = 0) ∧
      (s'.accesses ≠ s.accesses → s.protocol.destroys = 0) := by
  have hc := covered_of_reach Orders.source_strong h
  exact ⟨fun t s' hs e he => hc.uses_known (dispose_pc hs) he,
    fun t s' hs e he => hc.accesses_known (destroy_pc hs) he,
    fun l s' hs => hc.toGenuine.in_time (next_step hs)⟩

/-- Two threads with a shared handle each. -/
def twoOwners : State (Fin 2) where
  protocol := {
    cb := { useCount := 2, weakCount := 1 }
    threads _ := ⟨1, 0, .idle⟩
    disposals := 0
    returns := 0
    destroys := 0
    sawExpired := false }
  memory := .start (initial { useCount := 2, weakCount := 1 })
  uses := []
  accesses := []

theorem twoOwners_init (o : Orders) : (system (Fin 2) o).init twoOwners := by
  refine ⟨⟨?_, ?_, ?_, ?_, rfl, rfl, rfl, rfl⟩, rfl, rfl, rfl⟩ <;> decide

/-- One owner uses the object and drops its handle, the other one drops the last. -/
def useThenDrop {τ : Type*} (t u : τ) : List (Label τ) :=
  [.use t, .act (.dropShared t), .act (.dropShared u)]

/-- The second owner knows of the use when it calls `dispose ()`. -/
theorem released_before_gone_twoOwners :
    ∃ s s', (system (Fin 2) .source).run twoOwners (useThenDrop 0 1) = some s ∧
      next .source s (.act (.dispose 1)) = some s' ∧ s.uses = [(0, 1)] ∧
      (s.memory.view 1).Covers (0, 1) := by
  obtain ⟨s, s', hrun, hdispose, huses⟩ : ∃ s s',
      (system (Fin 2) .source).run twoOwners (useThenDrop 0 1) = some s ∧
      next .source s (.act (.dispose 1)) = some s' ∧ s.uses = [(0, 1)] :=
    ⟨_, _, rfl, rfl, rfl⟩
  have hsafe := released_before_gone (System.Reach.run (.init (twoOwners_init _)) hrun)
  exact ⟨s, s', hrun, hdispose, huses, hsafe.1 1 s' hdispose _ (by rw [huses]; exact .head _)⟩

/-! ### The orders that are needed -/

/-- A load finds the newest count. -/
def Label.Current (s : State τ) : Label τ → Prop
  | .lockLoad _ i | .lockFail _ i _ | .expired _ i => i + 1 = (s.memory.history .use).length
  | .act _ | .use _ => True

/-- Under these orders nothing done through a handle races with `dispose ()` or
`destroy ()`: in any run, or in any without stale loads. Where some of the orders are
`seq_cst`, the code has at least the runs without stale loads and at most all of them. -/
def Orders.Safe (stale : Bool) (o : Orders) : Prop :=
  ∀ (n : ℕ) (s : State (Fin n)),
    (system (Fin n) o).Reach (fun s l => stale = false → l.Current s) s →
    (∀ t s', next o s (.act (.dispose t)) = some s' → ∀ e ∈ s.uses, (s.memory.view t).Covers e) ∧
    ∀ t s', next o s (.act (.destroy t)) = some s' → ∀ e ∈ s.accesses, (s.memory.view t).Covers e

/-- One thread with the only shared handle, one with a weak one. -/
def ownerAndObserver : State (Fin 2) where
  protocol := Protocol.ownerAndObserver
  memory := .start (initial Protocol.ownerAndObserver.cb)
  uses := []
  accesses := []

theorem ownerAndObserver_init (o : Orders) : (system (Fin 2) o).init ownerAndObserver := by
  refine ⟨⟨?_, ?_, ?_, ?_, rfl, rfl, rfl, rfl⟩, rfl, rfl, rfl⟩ <;> decide

/-- The observer drops its handle, then the owner drops the last references. -/
def observerFirst {τ : Type*} (owner observer : τ) : List (Label τ) :=
  [.act (.dropWeak observer), .act (.dropShared owner), .act (.dispose owner),
    .act (.disposeReturn owner), .act (.decWeak owner)]

omit [DecidableEq τ] [Fintype τ] in
/-- Neither run loads anything. -/
theorem useThenDrop_current (t u : τ) : ∀ l ∈ useThenDrop t u, ∀ s : State τ, l.Current s := by
  intro l hl s
  simp only [useThenDrop, List.mem_cons, List.not_mem_nil, or_false] at hl
  rcases hl with rfl | rfl | rfl <;> trivial

omit [DecidableEq τ] [Fintype τ] in
theorem observerFirst_current (t u : τ) : ∀ l ∈ observerFirst t u, ∀ s : State τ, l.Current s := by
  intro l hl s
  simp only [observerFirst, List.mem_cons, List.not_mem_nil, or_false] at hl
  rcases hl with rfl | rfl | rfl | rfl | rfl <;> trivial

/-- What the second owner knows of the first when it disposes the object, with
decrements of any weaker order. -/
theorem useThenDrop_unknown {o : Orders}
    (h : ¬ (o.decUse.acquires = true ∧ o.decUse.releases = true)) :
    ∃ s s', (system (Fin 2) o).run twoOwners (useThenDrop 0 1) = some s ∧
      next o s (.act (.dispose 1)) = some s' ∧ s.uses = [(0, 1)] ∧
      s.memory.view 1 (.inl 0) = 0 := by
  obtain ⟨incUse, incWeak, lockLoad, lock, lockFail, decUse, decWeak, expired⟩ := o
  cases decUse with
  | acqRel | seqCst => exact absurd ⟨rfl, rfl⟩ h
  | relaxed | acquire | release => exact ⟨_, _, rfl, rfl, rfl, rfl⟩

/-- What the owner knows of the observer when it destroys the block. -/
theorem observerFirst_unknown {o : Orders}
    (h : ¬ (o.decWeak.acquires = true ∧ o.decWeak.releases = true)) :
    ∃ s s', (system (Fin 2) o).run ownerAndObserver (observerFirst 0 1) = some s ∧
      next o s (.act (.destroy 0)) = some s' ∧ (1, 1) ∈ s.accesses ∧
      s.memory.view 0 (.inl 1) = 0 := by
  obtain ⟨incUse, incWeak, lockLoad, lock, lockFail, decUse, decWeak, expired⟩ := o
  cases decWeak with
  | acqRel | seqCst => exact absurd ⟨rfl, rfl⟩ h
  | relaxed | acquire | release =>
    cases decUse <;> exact ⟨_, _, rfl, rfl, .head _, rfl⟩

/-- **Exactly the decrements have to acquire and release**, as `acq_rel` does and
`seq_cst`; no other order matters. -/
theorem safe_iff_decrements (stale : Bool) (o : Orders) : o.Safe stale ↔ o.Strong := by
  constructor
  · intro hsafe
    constructor
    · by_contra hweaker
      obtain ⟨s, s', hrun, hdispose, huses, hunknown⟩ := useThenDrop_unknown hweaker
      have hreach : (system (Fin 2) o).Reach (fun s l => stale = false → l.Current s) s :=
        .of_everyStep (.init (twoOwners_init o))
          (System.everyStep_of_forall (fun l hl s _ => useThenDrop_current 0 1 l hl s) _) hrun
      have hknown : 1 ≤ s.memory.view 1 (.inl 0) :=
        (hsafe 2 s hreach).1 1 s' hdispose (0, 1) (by rw [huses]; exact .head _)
      omega
    · by_contra hweaker
      obtain ⟨s, s', hrun, hdestroy, haccess, hunknown⟩ := observerFirst_unknown hweaker
      have hreach : (system (Fin 2) o).Reach (fun s l => stale = false → l.Current s) s :=
        .of_everyStep (.init (ownerAndObserver_init o))
          (System.everyStep_of_forall (fun l hl s _ => observerFirst_current 0 1 l hl s) _) hrun
      have hknown : 1 ≤ s.memory.view 0 (.inl 1) :=
        (hsafe 2 s hreach).2 0 s' hdestroy (1, 1) haccess
      omega
  · intro hstrong n s hreach
    have hc := covered_of_reach hstrong (hreach.mono fun _ _ _ => trivial)
    exact ⟨fun t s' hs e he => hc.uses_known (dispose_pc hs) he,
      fun t s' hs e he => hc.accesses_known (destroy_pc hs) he⟩

/-! ### Stale loads -/

section Stale

variable {o : Orders} {s : State τ}

/-- The object has no owner, and never will have again. -/
def Gone (o : Orders) (s : State τ) : Prop :=
  ∀ ls s', (system τ o).run s ls = some s' →
    s'.protocol.cb.useCount = 0 ∧ ∀ u, (s'.protocol.threads u).shared = 0

theorem useCount_eq_zero_kept (h : Genuine s) (hzero : s.protocol.cb.useCount = 0) {s' : State τ}
    {l : Label τ} (hs : Step o s l s') : s'.protocol.cb.useCount = 0 := by
  cases hs with
  | act hl hnext =>
    exact Protocol.useCount_eq_zero_step h.counted hzero (Protocol.next_step hnext)
  | lockLoad hx hread | lockFail hx hread | expired hx hread | use hx => exact hzero

theorem Genuine.gone (h : Genuine s) (hzero : s.protocol.cb.useCount = 0) : Gone o s := by
  intro ls s' hrun
  obtain ⟨hgenuine, hzero'⟩ := System.run_invariant
    (I := fun s => Genuine s ∧ s.protocol.cb.useCount = 0)
    (fun s l s' hs hnext => by
      have hstep : Step o s l s' := next_step hnext
      exact ⟨genuine_step hs.1 hstep, useCount_eq_zero_kept hs.1 hs.2 hstep⟩) ⟨h, hzero⟩ hrun
  exact ⟨hzero', shared_eq_zero hgenuine.counted hzero'⟩

omit [Fintype τ] in
theorem lockTest_eq_idle {count : ℤ} (h : lockTest count = .idle) : count = 0 := by
  unfold lockTest at h
  split at h
  · assumption
  · cases h

/-- **Stale loads mislead nobody**, whatever the memory orders: where `lock ()` gives
up, or `expired ()` returns true, the object is gone for good, and where `lock ()`
yields a handle, the count was positive and the object has not been disposed. -/
theorem stale_loads_truthful (h : (system τ o).Reachable s) :
    (∀ t i s', next o s (.lockLoad t i) = some s' → (s'.protocol.threads t).pc = .idle →
      Gone o s') ∧
    (∀ t i spurious s', next o s (.lockFail t i spurious) = some s' →
      (s'.protocol.threads t).pc = .idle → Gone o s') ∧
    (∀ t i s', next o s (.expired t i) = some s' → s'.protocol.sawExpired = true → Gone o s') ∧
    ∀ t spurious s', next o s (.act (.lockExchange t spurious)) = some s' →
      0 < s.protocol.cb.useCount ∧ 0 < s'.protocol.cb.useCount ∧ s'.protocol.disposals = 0 := by
  have hg := genuine_of_reach h
  refine ⟨fun t i s' hs hidle => ?_, fun t i spurious s' hs hidle => ?_, fun t i s' hs hsaw => ?_,
    fun t spurious s' hs => ?_⟩
  · have hg' := genuine_step hg (next_step hs)
    cases next_step hs with
    | lockLoad hx hread =>
      rw [State.load, set_threads_self] at hidle
      rw [lockTest_eq_idle hidle] at hread
      exact hg'.gone (hg.useCount_eq_zero hread)
  · have hg' := genuine_step hg (next_step hs)
    cases next_step hs with
    | lockFail hx hread =>
      rw [State.load, set_threads_self] at hidle
      rw [lockTest_eq_idle hidle] at hread
      exact hg'.gone (hg.useCount_eq_zero hread)
  · have hg' := genuine_step hg (next_step hs)
    exact hg'.gone (hg'.counted.expired hsaw)
  · have hg' := genuine_step hg (next_step hs)
    have hpos : 0 < s.protocol.cb.useCount ∧
        s'.protocol.cb.useCount = s.protocol.cb.useCount + 1 := by
      cases next_step hs with
      | act hl hnext =>
        obtain ⟨n, w, hx, rfl⟩ := lockExchange_grants hl hnext
        -- the count that was loaded was not zero, and is the one that is found
        have hlock := hg.counted.locking _ _ (congrArg Thread.pc hx)
        have huse := hg.counted.balanced.use
        exact ⟨by omega, s.protocol.cb.incUseCount_useCount⟩
    refine ⟨hpos.1, by omega, ?_⟩
    rcases hg'.counted.balanced.stage with hopen | hshut
    · exact hopen.undisposed
    · have hzero := hshut.use
      omega

/-- The owner has dropped its handle; the observer loads the count it had before, so it
goes on to the compare-exchange, which finds the object gone. -/
theorem stale_loads_truthful_lateLock :
    ∃ s s', (system (Fin 2) .source).run ownerAndObserver [.act (.dropShared 0), .lockLoad 1 0] =
        some s ∧
      next .source s (.lockFail 1 1 false) = some s' ∧ (s'.protocol.threads 1).pc = .idle ∧
      Gone .source s' := by
  obtain ⟨s, s', hrun, hfail, hidle⟩ : ∃ s s',
      (system (Fin 2) .source).run ownerAndObserver [.act (.dropShared 0), .lockLoad 1 0] =
        some s ∧
      next .source s (.lockFail 1 1 false) = some s' ∧ (s'.protocol.threads 1).pc = .idle :=
    ⟨_, _, rfl, rfl, rfl⟩
  have htruth := stale_loads_truthful (System.Reach.run (.init (ownerAndObserver_init _)) hrun)
  exact ⟨s, s', hrun, hfail, hidle, htruth.2.1 1 1 false s' hfail hidle⟩

end Stale

end CcSnippets.SharedPtr.Ordered

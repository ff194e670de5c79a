import CcSnippets.Core.Termination
import CcSnippets.Null.SharedPtr.Safety

/-!
# CcSnippets.Null.SharedPtr.LockFree

The control block is **lock-free**.

A thread in the loop of `lock_use_count` goes round again only because its
compare-exchange failed spuriously or because some other thread has changed the use count
since it last saw it. So a retry is paid for by the call that changed the count: what a
run of `n` threads does is at most `n + 4` steps for each call it makes, beside its
spurious failures (`lock_free`).
-/

namespace CcSnippets.SharedPtr.Protocol

open CcSnippets.Core CcSnippets.SharedPtr

variable {τ : Type*}

/-- A step that begins an operation, or is all of it. -/
def Label.begins : Label τ → Bool
  | .copyShared _ | .weakFromShared _ | .copyWeak _ | .dropShared _ | .dropWeak _ | .lockLoad _
  | .expired _ | .giveShared _ _ | .giveWeak _ _ => true
  | _ => false

/-- A compare-exchange that fails whatever it finds. -/
def Label.failsSpuriously : Label τ → Bool
  | .lockExchange _ spurious => spurious
  | _ => false

/-- What is owed to a thread, where the use count is `u`: the steps to the end of its
operation, and one retry for each of the `n` threads that its success may cost. -/
def Pc.owed (n : ℕ) (u : ℤ) : Pc → ℕ
  | .idle => 0
  | .locking count => if count = u then n else n + 1
  | .aboutToDispose => 4
  | .inDispose => 3
  | .aboutToDecWeak => 2
  | .aboutToDestroy => 1

/-- A change of the use count costs a thread one retry at most. -/
theorem Pc.owed_le (n : ℕ) (u u' : ℤ) (pc : Pc) : pc.owed n u' ≤ pc.owed n u + 1 := by
  cases pc with
  | locking count =>
    simp only [owed]
    split <;> split <;> omega
  | idle | aboutToDispose | inDispose | aboutToDecWeak | aboutToDestroy => simp [owed]

theorem owed_lockTest_le (n : ℕ) (u : ℤ) : (lockTest u).owed n u ≤ n := by
  unfold lockTest
  split <;> simp [Pc.owed]

variable [Fintype τ]

/-- What is owed to all threads. -/
def State.owed (s : State τ) : ℕ :=
  tally (fun x => x.pc.owed (Fintype.card τ) s.cb.useCount) s.threads

variable [DecidableEq τ]

/-- Thread `t` becomes `x`, and the use count stays. -/
theorem owed_move {s s' : State τ} {t : τ} {x y : Thread} {c : ℕ} (ht : s.threads t = y)
    (hthreads : s'.threads = Function.update s.threads t x)
    (hcount : s'.cb.useCount = s.cb.useCount)
    (hpaid : x.pc.owed (Fintype.card τ) s.cb.useCount + 1 ≤
      y.pc.owed (Fintype.card τ) s.cb.useCount + c) : s'.owed + 1 ≤ s.owed + c := by
  have hmove := tally_update (fun x => x.pc.owed (Fintype.card τ) s.cb.useCount) s.threads t x
  rw [ht] at hmove
  rw [State.owed, State.owed, hthreads, hcount]
  omega

/-- Thread `t` becomes `x`, and the use count changes: every other thread may have to try
again. -/
theorem owed_change {s s' : State τ} {t : τ} {x y : Thread} {c : ℕ} (ht : s.threads t = y)
    (hthreads : s'.threads = Function.update s.threads t x)
    (hsame : x.pc.owed (Fintype.card τ) s'.cb.useCount =
      x.pc.owed (Fintype.card τ) s.cb.useCount)
    (hpaid : x.pc.owed (Fintype.card τ) s.cb.useCount + Fintype.card τ ≤
      y.pc.owed (Fintype.card τ) s.cb.useCount + c) : s'.owed + 1 ≤ s.owed + c := by
  have hmove := tally_update (fun x => x.pc.owed (Fintype.card τ) s.cb.useCount) s.threads t x
  rw [ht] at hmove
  have hlt : s'.owed < tally (fun x => x.pc.owed (Fintype.card τ) s.cb.useCount + 1)
      (Function.update s.threads t x) := by
    rw [State.owed, hthreads]
    refine Finset.sum_lt_sum (fun u _ => Pc.owed_le _ _ _ _) ⟨t, Finset.mem_univ t, ?_⟩
    rw [Function.update_self]
    exact Nat.lt_succ_of_le hsame.le
  have hones : tally (fun _ => 1) (Function.update s.threads t x) = Fintype.card τ :=
    (tally_eq_card fun _ => Nat.le_refl 1).mpr fun _ => rfl
  rw [tally_add, hones] at hlt
  have howed : s.owed = tally (fun x => x.pc.owed (Fintype.card τ) s.cb.useCount) s.threads := rfl
  omega

/-- A handle is moved to another thread: nothing is owed for it. -/
theorem owed_give {s m : State τ} {t u : τ} {n w c : ℕ} {pc : Pc} {x : Thread}
    (ht : (s.threads t).pc = pc) (hm : m = s.set t ⟨n, w, pc⟩) (hx : x.pc = (m.threads u).pc)
    (hc : 1 ≤ c) : (m.set u x).owed + 1 ≤ s.owed + c := by
  subst hm
  refine Nat.add_le_add (tally_congr fun v => ?_).le hc
  have hpc : (((s.set t ⟨n, w, pc⟩).set u x).threads v).pc = (s.threads v).pc := by
    by_cases hvt : v = t <;> by_cases hvu : v = u <;> simp_all [State.set, Function.update]
  rw [hpc]
  rfl

/-- What a step brings. -/
def credit (n : ℕ) (l : Label τ) : ℕ := (n + 4) * l.begins.toNat + 1 * l.failsSpuriously.toNat

omit [Fintype τ] [DecidableEq τ] in
theorem le_credit {l : Label τ} (h : l.begins = true) (n : ℕ) : n + 4 ≤ credit n l := by
  simp [credit, h]

omit [Fintype τ] in
/-- A compare-exchange that finds what it expects, and does not fail spuriously, is no retry. -/
theorem next_lockExchange {s : State τ} {t : τ} {n w : ℕ}
    (ht : s.threads t = ⟨n, w, .locking s.cb.useCount⟩) :
    next s (.lockExchange t false) =
      some { s.set t ⟨n + 1, w, .idle⟩ with cb := s.cb.incUseCount } := by
  simp [next, ht, ControlBlock.compareExchange, ControlBlock.incUseCount]

/-- **Every step is paid for.** -/
theorem owed_step {s s' : State τ} {l : Label τ} (h : next s l = some s') :
    s'.owed + 1 ≤ s.owed + credit (Fintype.card τ) l := by
  -- what a begun operation brings covers whatever becomes of the thread
  have hbegins : l.begins = true → ∀ {x k : ℕ}, x ≤ Fintype.card τ + 4 →
      x ≤ k + credit (Fintype.card τ) l := by
    intro hl x k hx
    have hcredit := le_credit hl (Fintype.card τ)
    omega
  cases next_step h with
  | copyShared ht | weakFromShared ht | copyWeak ht =>
    exact owed_change ht rfl rfl (hbegins rfl (by simp [Pc.owed]))
  | dropShared ht =>
    refine owed_change ht rfl ?_ (hbegins rfl ?_)
    · split <;> rfl
    · split
      · simp [Pc.owed]
        omega
      · simp [Pc.owed]
  | dropWeak ht =>
    refine owed_move ht rfl rfl (hbegins rfl ?_)
    split <;> simp [Pc.owed]
  | lockLoad ht =>
    refine owed_move ht rfl rfl (hbegins rfl ?_)
    have htest := owed_lockTest_le (Fintype.card τ) s.cb.useCount
    simp only
    omega
  | lockGrant ht => exact owed_change ht rfl rfl (by simp [Pc.owed])
  | @lockRetry t n w count spurious ht =>
    refine owed_move ht rfl rfl ?_
    have htest := owed_lockTest_le (Fintype.card τ) s.cb.useCount
    cases spurious with
    | true =>
      have hcount : Fintype.card τ ≤ Pc.owed (Fintype.card τ) s.cb.useCount (.locking count) := by
        simp only [Pc.owed]
        split <;> omega
      simp only [credit, Label.begins, Label.failsSpuriously, Bool.toNat_true, Bool.toNat_false]
      omega
    | false =>
      -- what it expected is not the use count any more
      have hcount : count ≠ s.cb.useCount := by
        rintro rfl
        have hgrant := congrArg (fun m => m.map fun m : State τ => (m.threads t).shared)
          ((next_lockExchange ht).symm.trans h)
        simp [State.set] at hgrant
      have howed : Pc.owed (Fintype.card τ) s.cb.useCount (.locking count) =
          Fintype.card τ + 1 := if_neg hcount
      exact (Nat.succ_le_succ htest).trans (howed.ge.trans (Nat.le_add_right _ _))
  | expired ht =>
    refine owed_move ht (Function.update_eq_self _ s.threads).symm rfl (hbegins rfl ?_)
    rw [ht]
    simp [Pc.owed]
  | dispose ht | disposeReturn ht | destroy ht =>
    exact owed_move ht rfl rfl (by simp [Pc.owed])
  | decWeak ht =>
    refine owed_move ht rfl rfl ?_
    split
    · simp [Pc.owed]
    · simp [Pc.owed]
      omega
  | giveShared ht hm | giveWeak ht hm =>
    exact owed_give (congrArg Thread.pc ht) hm rfl (Nat.le_trans (by omega) (le_credit rfl _))

/-- **The control block is lock-free.** However its threads are scheduled, a run takes at
most `n + 4` steps for each call its `n` threads make and one for each spurious failure. -/
theorem lock_free {s s' : State τ} {ls : List (Label τ)} (hinit : (system τ).init s)
    (hrun : (system τ).run s ls = some s') :
    ls.length ≤ (Fintype.card τ + 4) * ls.countP Label.begins +
      ls.countP Label.failsSpuriously := by
  have hpaid : (system τ).Amortised (fun _ => True) (credit (Fintype.card τ)) State.owed :=
    ⟨fun _ _ => trivial, fun _ hnext => owed_step hnext⟩
  have hlength := hpaid.length_le trivial hrun
  have howed : s.owed = 0 := by
    refine tally_eq_zero.mpr fun t => ?_
    rw [hinit.2.2.2.1 t]
    rfl
  unfold credit at hlength
  rw [System.paid_eq, howed] at hlength
  omega

/-- One thread drops a shared handle between the load and the compare-exchange of the other. -/
def dropBetween (t u : τ) : List (Label τ) :=
  [.lockLoad t, .dropShared u, .lockExchange t false, .lockExchange t false]

theorem lock_free_dropBetween :
    ∃ s s', (system Bool).init s ∧ (system Bool).run s (dropBetween false true) = some s' ∧
      (s'.threads false).shared = 2 ∧
      (dropBetween false true).length ≤ (Fintype.card Bool + 4) * 2 + 0 := by
  have hrun : ∃ s s', (system Bool).init s ∧
      (system Bool).run s (dropBetween false true) = some s' ∧ (s'.threads false).shared = 2 :=
    ⟨⟨⟨2, 2⟩, fun t => ⟨1, (!t).toNat, .idle⟩, 0, 0, 0, false⟩, _,
      ⟨by decide, by decide, by decide, by decide, rfl, rfl, rfl, rfl⟩, rfl, rfl⟩
  obtain ⟨s, s', hinit, hs', hshared⟩ := hrun
  exact ⟨s, s', hinit, hs', hshared, lock_free hinit hs'⟩

end CcSnippets.SharedPtr.Protocol

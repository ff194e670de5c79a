import Mathlib.Algebra.BigOperators.Ring.Finset
import CcSnippets.Core.Termination
import CcSnippets.Null.BlockingQueue.EndOfStream

/-!
# CcSnippets.Null.BlockingQueue.Closing

**Closing lets everybody go.** Once `closed_` is set nobody goes to sleep any more, and
whoever sleeps has a `close ()` that is about to notify it (`Roused`). From there on a
thread has a bounded number of steps to go (`Pc.left`), and as long as one is in an
operation some thread can take one of them: a call returns without waiting for anybody
to push, pop or wake it.
-/

namespace CcSnippets.BlockingQueue

open CcSnippets.Core

variable {τ T : Type*}

/-! ### The steps left -/

/-- The most steps that a thread has to go on a closed queue, its being woken included. -/
def Pc.left : Pc T → ℕ
  | .idle => 0
  | .leaving _ _ | .closeNotFull => 1
  | .notifying _ _ | .closeNotEmpty => 2
  | .mutating _ | .closeLocked => 3
  | .deciding _ _ | .closeEntering => 4
  | .testing _ _ => 5
  | .entering _ | .woken _ => 6
  | .asleep _ => 7

/-- In an operation, as a weight. -/
def Pc.busy : Pc T → ℕ
  | .idle => 0
  | _ => 1

/-- A step that makes a call. -/
def Label.calls : Label τ T → Bool
  | .call _ _ | .callClose _ => true
  | _ => false

/-- A step that a thread takes on its own: no new call, no exception, and no spurious
wake-up. -/
def Label.onItsOwn : Label τ T → Bool
  | .call _ _ | .callClose _ | .wake _ => false
  | .lock _ _ | .test _ | .decide _ | .notify _ _ | .close _ => true
  | .body _ throws | .leave _ throws => !throws

theorem Pc.left_le (pc : Pc T) : pc.left ≤ 7 * pc.busy := by
  cases pc <;> simp [Pc.left, Pc.busy]

theorem Pc.left_wakeOn_le (cv : Cv) (pc : Pc T) : (pc.wakeOn cv).left ≤ pc.left := by
  cases pc <;> simp only [Pc.wakeOn, le_refl]
  split <;> simp [Pc.left]

section Step

variable [DecidableEq τ] [Fintype τ]

/-- A thread that moves takes its steps with it. -/
theorem left_update {pc pc' : τ → Pc T} {t : τ} {x : Pc T} {n : ℕ}
    (hle : ∀ u, (pc' u).left ≤ (pc u).left) (ht : x.left + 1 ≤ (pc' t).left + n) :
    tally Pc.left (Function.update pc' t x) + 1 ≤ tally Pc.left pc + n := by
  have hupdate := tally_update Pc.left pc' t x
  have hmono := tally_mono hle
  omega

/-- Every step on a closed queue leaves fewer, but for the ones that a new call brings. -/
theorem left_step {s s' : State τ T} {l : Label τ T} (hclosed : s.q.closed = true)
    (hs : Step s l s') :
    tally Pc.left s'.pc + 1 ≤ tally Pc.left s.pc + 7 * l.calls.toNat := by
  have hpred : ∀ op : Op T, op.method.pred s.q ≠ false := fun op hp => by
    rw [method_pred_of_closed op hclosed] at hp
    cases hp
  have hsame : ∀ u, (s.pc u).left ≤ (s.pc u).left := fun _ => le_refl _
  cases hs with
  | call hpc => exact left_update hsame (by simp [hpc, Pc.left, Label.calls])
  | callClose hpc => exact left_update hsame (by simp [hpc, Pc.left, Label.calls])
  | enter _ hpc => exact left_update hsame (by simp [hpc, Pc.left])
  | relock _ hpc _ => exact left_update hsame (by simp [hpc, Pc.left])
  | lockClose _ hpc => exact left_update hsame (by simp [hpc, Pc.left])
  | pass hpc _ => exact left_update hsame (by simp [hpc, Pc.left])
  | giveUp _ hp => exact absurd hp (hpred _)
  | sleep _ hp => exact absurd hp (hpred _)
  | refuse hpc _ => exact left_update hsame (by simp [hpc, Pc.left, Label.calls])
  | proceed hpc _ => exact left_update hsame (by simp [hpc, Pc.left])
  | bodyThrows hpc => exact left_update hsame (by simp [hpc, Pc.left, Label.calls])
  | body hpc _ => exact left_update hsame (by simp [hpc, Pc.left])
  | notifyNone hpc _ => exact left_update hsame (by simp [hpc, Pc.left])
  | @notifyOne t u op r hpc hu =>
    refine left_update (fun v => ?_) ?_
    · by_cases hv : v = u
      · subst hv
        simp [hu, Pc.left]
      · rw [State.goto_pc_of_ne hv]
    · simp [goto_pc_of_asleep hpc hu, Pc.left]
  | leave hpc _ => exact left_update hsame (by simp [hpc, Pc.left])
  | wake hpc => exact left_update hsame (by simp [hpc, Pc.left])
  | closeSet hpc => exact left_update hsame (by simp [hpc, Pc.left])
  | closeNotEmpty hpc =>
    exact left_update (fun u => Pc.left_wakeOn_le _ _) (by simp [hpc, Pc.left, Pc.wakeOn])
  | closeNotFull hpc =>
    exact left_update (fun u => Pc.left_wakeOn_le _ _) (by simp [hpc, Pc.left, Pc.wakeOn])

/-- The steps of a run on a closed queue. -/
theorem left_run {capacity : ℕ} {s s' : State τ T} {ls : List (Label τ T)}
    (hreach : (system τ T capacity).Reachable s) (hclosed : s.q.closed = true)
    (hrun : (system τ T capacity).run s ls = some s') :
    ls.length + tally Pc.left s'.pc ≤ tally Pc.left s.pc + 7 * ls.countP Label.calls := by
  have hpaid : (system τ T capacity).Amortised
      (fun s => (system τ T capacity).Reachable s ∧ s.q.closed = true)
      (fun l => 7 * l.calls.toNat + 0 * l.calls.toNat) (fun s => tally Pc.left s.pc) := by
    constructor
    · intro s m l hs hnext
      have hone : (system τ T capacity).run s [l] = some m :=
        System.run_cons_eq_some.mpr ⟨m, hnext, rfl⟩
      exact ⟨.step hs.1 trivial hnext, closed_of_run hs.1 hs.2 hone⟩
    · intro s m l hs hnext
      have hfirst := left_step hs.2 (next_step hnext)
      omega
  have hlength := hpaid.length_le ⟨hreach, hclosed⟩ hrun
  rw [System.paid_eq] at hlength
  omega

/-! ### Whoever sleeps will be notified -/

/-- A `close ()` that has set `closed_` and has yet to call `notify_all` on `cv`. -/
def Pc.rouses (cv : Cv) : Pc T → Prop
  | .closeNotEmpty => True
  | .closeNotFull => cv = .notFull
  | _ => False

/-- On a closed queue whoever sleeps is about to be notified. -/
def Roused (s : State τ T) : Prop :=
  s.q.closed = true → ∀ u cv, (s.pc u).sleepsOn cv = true → ∃ t, (s.pc t).rouses cv

/-- `notify_all` leaves nobody asleep on its own condition variable, and puts nobody to
sleep. -/
theorem Pc.wakeOn_sleepsOn {cv cv' : Cv} {pc : Pc T} (h : (pc.wakeOn cv).sleepsOn cv' = true) :
    pc.sleepsOn cv' = true ∧ cv' ≠ cv := by
  cases pc <;> simp only [Pc.wakeOn] at h <;> try cases h
  split at h
  · cases h
  · case _ op hne =>
    refine ⟨h, fun heq => hne ?_⟩
    simpa [Pc.sleepsOn, heq] using h

theorem Pc.wakeOn_rouses {cv cv' : Cv} {pc : Pc T} (h : pc.rouses cv') :
    (pc.wakeOn cv).rouses cv' := by
  cases pc <;> first | exact h | cases h

omit [Fintype τ] in
/-- A thread that does not rouse anybody moves, and does not go to sleep. -/
theorem Roused.move {s s' : State τ T} (h : Roused s) {t : τ} {x y : Pc T} (hpc : s.pc t = y)
    (hpc' : s'.pc = Function.update s.pc t x) (hq : s'.q.closed = s.q.closed)
    (hy : ∀ cv, ¬ y.rouses cv) (hx : ∀ cv, x.sleepsOn cv = false) : Roused s' := by
  intro hclosed u cv hu
  rw [hpc'] at hu
  by_cases hut : u = t
  · subst hut
    rw [Function.update_self, hx] at hu
    cases hu
  · rw [Function.update_of_ne hut] at hu
    obtain ⟨v, hv⟩ := h (hq ▸ hclosed) u cv hu
    refine ⟨v, ?_⟩
    have hvt : v ≠ t := by
      intro hvt
      rw [hvt, hpc] at hv
      exact hy cv hv
    rwa [hpc', Function.update_of_ne hvt]

omit [Fintype τ] in
/-- Every step keeps this. -/
theorem roused_step {s s' : State τ T} {l : Label τ T} (ho : Owned s) (h : Roused s)
    (hs : Step s l s') : Roused s' := by
  cases hs with
  | call hpc => exact h.move hpc rfl rfl (fun _ => not_false) fun _ => rfl
  | callClose hpc => exact h.move hpc rfl rfl (fun _ => not_false) fun _ => rfl
  | enter _ hpc => exact h.move hpc rfl rfl (fun _ => not_false) fun _ => rfl
  | relock _ hpc _ => exact h.move hpc rfl rfl (fun _ => not_false) fun _ => rfl
  | lockClose _ hpc => exact h.move hpc rfl rfl (fun _ => not_false) fun _ => rfl
  | pass hpc _ => exact h.move hpc rfl rfl (fun _ => not_false) fun _ => rfl
  | giveUp hpc _ => exact h.move hpc rfl rfl (fun _ => not_false) fun _ => rfl
  | sleep _ hp =>
    intro hclosed
    have hopen := (method_pred_eq_false hp).2
    exact absurd (hopen.symm.trans hclosed) (by simp)
  | refuse hpc _ =>
    exact h.move hpc rfl rfl (fun _ => not_false) fun _ => rfl
  | proceed hpc _ => exact h.move hpc rfl rfl (fun _ => not_false) fun _ => rfl
  | bodyThrows hpc => exact h.move hpc rfl rfl (fun _ => not_false) fun _ => rfl
  | body hpc hb =>
    have hclosed := (method_body_spec (ho.available_pos hpc) hb).closed
    exact h.move hpc rfl hclosed (fun _ => not_false) fun _ => rfl
  | notifyNone hpc _ => exact h.move hpc rfl rfl (fun _ => not_false) fun _ => rfl
  | @notifyOne t u op r hpc hu =>
    have hmid : Roused (s.goto u (.woken op)) :=
      h.move hu rfl rfl (fun _ => not_false) fun _ => rfl
    exact hmid.move (goto_pc_of_asleep hpc hu _) rfl rfl (fun _ => not_false) fun _ => rfl
  | leave hpc _ => exact h.move hpc rfl rfl (fun _ => not_false) fun _ => rfl
  | wake hpc => exact h.move hpc rfl rfl (fun _ => not_false) fun _ => rfl
  | @closeSet t hpc => exact fun _ _ _ _ => ⟨t, by simp [Pc.rouses]⟩
  | @closeNotEmpty t hpc =>
    intro _ u cv hu
    change Pc.sleepsOn cv (Function.update (fun v => (s.pc v).wakeOn .notEmpty) t _ u) = true at hu
    refine ⟨t, ?_⟩
    change Pc.rouses cv (Function.update (fun v => (s.pc v).wakeOn .notEmpty) t _ t)
    by_cases hut : u = t
    · subst hut
      rw [Function.update_self] at hu
      cases hu
    · rw [Function.update_of_ne hut] at hu
      have hne := (Pc.wakeOn_sleepsOn hu).2
      rw [Function.update_self]
      cases cv
      · rfl
      · exact absurd rfl hne
  | @closeNotFull t hpc =>
    intro hclosed u cv hu
    change Pc.sleepsOn cv (Function.update (fun v => (s.pc v).wakeOn .notFull) t _ u) = true at hu
    by_cases hut : u = t
    · subst hut
      rw [Function.update_self] at hu
      cases hu
    · rw [Function.update_of_ne hut] at hu
      obtain ⟨hsleeps, hne⟩ := Pc.wakeOn_sleepsOn hu
      obtain ⟨v, hv⟩ := h hclosed u cv hsleeps
      have hvt : v ≠ t := by
        intro hvt
        rw [hvt, hpc] at hv
        exact hne hv
      refine ⟨v, ?_⟩
      change Pc.rouses cv (Function.update (fun v => (s.pc v).wakeOn .notFull) t _ v)
      rw [Function.update_of_ne hvt]
      exact Pc.wakeOn_rouses hv

theorem roused_of_reach {capacity : ℕ} {s : State τ T}
    (h : (system τ T capacity).Reachable s) : Roused s :=
  h.invariant (I := Roused) (fun _ h0 => by rw [h0]; exact nofun)
    fun _ _ _ hreach hr _ hs => roused_step (owned_of_reach hreach) hr (next_step hs)

/-! ### Somebody can move -/

omit [DecidableEq τ] [Fintype τ] in
/-- A body that comes to run on an open or closed queue is defined. -/
theorem exists_body {op : Op T} {q : Queue T} (hp : op.method.pred q = true)
    (hr : op.method.refuses q true = false) : ∃ q' r, op.method.body q = some (q', r) := by
  have hpos := method_available_pos hp hr
  cases op with
  | push x | tryPush x => exact ⟨_, _, rfl⟩
  | pop | tryPop =>
    obtain ⟨x, xs, hq⟩ := List.exists_cons_of_length_pos hpos
    simp [Op.method, pop, tryPop, popFront, hq]

/-- The thread that owns the mutex can move. -/
theorem exists_next_of_holds {s : State τ T} (ho : Owned s) {t : τ}
    (ht : (s.pc t).holds = true) :
    ∃ l s', l.onItsOwn = true ∧ next s l = some s' := by
  cases hpc : s.pc t with
  | testing op timedOut =>
    refine ⟨.test t, ?_⟩
    simp only [next, hpc]
    split_ifs <;> exact ⟨_, rfl, rfl⟩
  | deciding op success => exact ⟨.decide t, _, rfl, next_decide hpc⟩
  | mutating op =>
    obtain ⟨hp, hr⟩ := ho.sound_at hpc
    obtain ⟨q, r, hb⟩ := exists_body hp hr
    obtain ⟨s', hs', -⟩ := exists_next_body hpc hb
    exact ⟨_, s', rfl, hs'⟩
  | notifying cv r =>
    obtain ⟨waiter, s', hs', -⟩ := exists_next_notify hpc
    exact ⟨_, s', rfl, hs'⟩
  | leaving r arg =>
    obtain ⟨s', hs', -⟩ := exists_next_leave hpc
    exact ⟨_, s', rfl, hs'⟩
  | closeLocked => exact ⟨.close t, _, rfl, by simp only [next, hpc]; rfl⟩
  | idle | entering _ | asleep _ | woken _ | closeEntering | closeNotEmpty | closeNotFull =>
    rw [hpc] at ht
    cases ht

/-- As long as a thread is in an operation on a closed queue, some thread can move. -/
theorem exists_next_of_closed {capacity : ℕ} {s : State τ T}
    (hreach : (system τ T capacity).Reachable s) (hclosed : s.q.closed = true) {t : τ}
    (ht : s.pc t ≠ .idle) : ∃ l s', l.onItsOwn = true ∧ next s l = some s' := by
  have ho := owned_of_reach hreach
  cases hm : s.mutex with
  | some u => exact exists_next_of_holds ho ((ho.owner u).mpr hm)
  | none =>
    have hfree : ∀ u, (s.pc u).holds = false := fun u => by
      rw [← Bool.not_eq_true, ho.owner u, hm]
      simp
    have hcloser : ∀ u cv, (s.pc u).rouses cv → ∃ l s', l.onItsOwn = true ∧ next s l = some s' := by
      intro u cv hu
      cases hpc : s.pc u with
      | closeNotEmpty => exact ⟨.close u, _, rfl, by simp only [next, hpc]; rfl⟩
      | closeNotFull => exact ⟨.close u, _, rfl, by simp only [next, hpc]; rfl⟩
      | _ =>
        rw [hpc] at hu
        cases hu
    have hheld := hfree t
    cases hpc : s.pc t with
    | idle => exact absurd hpc ht
    | entering op => exact ⟨.lock t false, _, rfl, by simp only [next, hm, hpc]; rfl⟩
    | woken op => exact ⟨.lock t false, _, rfl, by simp only [next, hm, hpc]; rfl⟩
    | closeEntering => exact ⟨.lock t false, _, rfl, by simp only [next, hm, hpc]; rfl⟩
    | asleep op =>
      -- somebody is about to notify it
      obtain ⟨u, hu⟩ := roused_of_reach hreach hclosed t op.method.waitsOn
        (by simp [hpc, Pc.sleepsOn])
      exact hcloser u _ hu
    | closeNotEmpty => exact hcloser t .notFull (by simp [hpc, Pc.rouses])
    | closeNotFull => exact hcloser t .notFull (by simp [hpc, Pc.rouses])
    | testing _ _ | deciding _ _ | mutating _ | notifying _ _ | leaving _ _ | closeLocked =>
      rw [hpc] at hheld
      cases hheld

/-- What a closed queue promises to its callers from a state on. -/
structure LetsGo (capacity : ℕ) (s : State τ T) : Prop where
  /-- Seven steps for each thread in an operation and for each new call, exceptions and
  spurious wake-ups included, is all that can happen. -/
  bounded : ∀ ls s', (system τ T capacity).run s ls = some s' →
    ls.length ≤ 7 * (tally Pc.busy s.pc + ls.countP Label.calls)
  /-- Until every call has returned some thread can go on, and need not be woken for it. -/
  onward : ∀ ls s' t, (system τ T capacity).run s ls = some s' → s'.pc t ≠ .idle →
    ∃ l s'', l.onItsOwn = true ∧ (system τ T capacity).next s' l = some s''

/-- **Closing lets everybody go**, whatever throws. -/
theorem closed_lets_go {capacity : ℕ} {s : State τ T}
    (hreach : (system τ T capacity).Reachable s) (hclosed : s.q.closed = true) :
    LetsGo capacity s where
  bounded ls s' hrun := by
    have hleft := left_run hreach hclosed hrun
    have hbusy : tally Pc.left s.pc ≤ 7 * tally Pc.busy s.pc := by
      rw [tally, tally, Finset.mul_sum]
      exact Finset.sum_le_sum fun t _ => Pc.left_le (s.pc t)
    omega
  onward ls s' t hrun :=
    exists_next_of_closed (hreach.run hrun) (closed_of_run hreach hclosed hrun)

/-- A `pop` asleep on an empty queue that another thread has just closed. -/
theorem closed_lets_go_asleep :
    ∃ s, (system Bool ℕ 1).run (.start 1)
        [.call false .pop, .lock false false, .test false, .callClose true, .lock true false,
          .close true] = some s ∧
      s.pc false = .asleep .pop ∧ LetsGo 1 s := by
  obtain ⟨s, hrun, hasleep, hclosed⟩ : ∃ s, (system Bool ℕ 1).run (.start 1)
      [.call false .pop, .lock false false, .test false, .callClose true, .lock true false,
        .close true] = some s ∧ s.pc false = .asleep .pop ∧ s.q.closed = true :=
    ⟨_, rfl, rfl, rfl⟩
  exact ⟨s, hrun, hasleep, closed_lets_go (System.Reach.run (.init rfl) hrun) hclosed⟩

end Step

end CcSnippets.BlockingQueue

import CcSnippets.Null.BlockingQueue.Steps

/-!
# CcSnippets.Null.BlockingQueue.Wakeups

**No lost wake-up.** With `cv` one of the two condition variables, a thread
*stands for* a wake-up of `cv` while it runs an operation that waits on `cv` and
has neither taken what it came for nor given up, or while it is about to call
`cv.notify_one ()` (`Pc.pending`). The invariant (`WakeOk`): as long as somebody
sleeps on `cv`, either some `close ()` has not yet called `cv.notify_all ()`, or
the queue is open and what `cv` announces is covered by the threads that stand
for a wake-up. With no thread running both sums are zero, so a sleeper sleeps
rightly.

A body that throws breaks the cover exactly where it leaves less cover than
there is to take (`ThrowCovered`): the thread has used up a wake-up and taken
nothing.
-/

namespace CcSnippets.BlockingQueue

open CcSnippets.Core

variable {τ T : Type*}

/-! ### What the threads stand for -/

/-- Asleep on `cv`, as a weight. -/
def Pc.asleepOn (cv : Cv) (pc : Pc T) : ℕ := (pc.sleepsOn cv).toNat

/-- The wake-up of `cv` a thread stands for. -/
def Pc.pending (cv : Cv) : Pc T → ℕ
  | .entering op | .testing op _ | .woken op | .deciding op true | .mutating op =>
    if op.method.waitsOn = cv then 1 else 0
  | .notifying cv' _ => if cv' = cv then 1 else 0
  | _ => 0

/-- A `close ()` that has yet to call `notify_all` on `cv`. -/
def Pc.closing (cv : Cv) : Pc T → ℕ
  | .closeEntering | .closeLocked | .closeNotEmpty => 1
  | .closeNotFull => if cv = .notFull then 1 else 0
  | _ => 0

theorem Pc.asleepOn_asleep (cv : Cv) (op : Op T) :
    (Pc.asleep op).asleepOn cv = if op.method.waitsOn = cv then 1 else 0 := by
  simp only [Pc.asleepOn, Pc.sleepsOn]
  split <;> simp [*]

/-- `notify_all` leaves nobody asleep on `cv`. -/
theorem Pc.asleepOn_wakeOn_self (cv : Cv) (pc : Pc T) : (pc.wakeOn cv).asleepOn cv = 0 := by
  cases pc <;> simp only [Pc.wakeOn] <;> try rfl
  split
  · rfl
  · case _ h => rw [Pc.asleepOn_asleep, if_neg h]

/-- `notify_all` puts nobody to sleep. -/
theorem Pc.asleepOn_wakeOn_le (cv cv' : Cv) (pc : Pc T) :
    (pc.wakeOn cv).asleepOn cv' ≤ pc.asleepOn cv' := by
  cases pc <;> simp only [Pc.wakeOn, le_refl]
  split
  · exact Nat.zero_le _
  · exact le_refl _

/-- `notify_all` takes away nothing a thread stands for. -/
theorem Pc.pending_le_wakeOn (cv cv' : Cv) (pc : Pc T) :
    pc.pending cv' ≤ (pc.wakeOn cv).pending cv' := by
  cases pc <;> simp only [Pc.wakeOn, le_refl]
  split
  · exact Nat.zero_le _
  · exact le_refl _

@[simp] theorem Pc.closing_wakeOn (cv cv' : Cv) (pc : Pc T) :
    (pc.wakeOn cv).closing cv' = pc.closing cv' := by
  cases pc <;> simp only [Pc.wakeOn]
  split <;> rfl

variable [Fintype τ]

namespace State

/-- How many threads sleep on `cv`. -/
def sleepers (s : State τ T) (cv : Cv) : ℕ := tally (Pc.asleepOn cv) s.pc

/-- How many wake-ups of `cv` the threads stand for. -/
def pending (s : State τ T) (cv : Cv) : ℕ := tally (Pc.pending cv) s.pc

/-- How many `close ()` calls have yet to notify `cv`. -/
def closers (s : State τ T) (cv : Cv) : ℕ := tally (Pc.closing cv) s.pc

end State

/-- **The wake-up invariant** for one condition variable. -/
def WakeOk (s : State τ T) (cv : Cv) : Prop :=
  s.sleepers cv = 0 ∨ 0 < s.closers cv ∨
    (s.q.closed = false ∧ s.q.available cv ≤ s.pending cv)

/-- The condition on a step under which the cover survives it: a body that
throws leaves nobody asleep, a `close ()` in progress, or enough threads that
stand for a wake-up without the one that throws. -/
def ThrowCovered (s : State τ T) : Label τ T → Prop
  | .body t true => ∀ op, s.pc t = .mutating op →
      s.sleepers op.method.waitsOn = 0 ∨ 0 < s.closers op.method.waitsOn ∨
        s.q.available op.method.waitsOn < s.pending op.method.waitsOn
  | _ => True

/-- Something throws in this step. -/
def Label.throws : Label τ T → Bool
  | .body _ throws | .leave _ throws => throws
  | _ => false

theorem throwCovered_of_not_throws {s : State τ T} {l : Label τ T}
    (h : l.throws = false) : ThrowCovered s l := by
  unfold ThrowCovered
  split
  · cases h
  · trivial

/-! ### The step lemma -/

variable [DecidableEq τ]

section Moves

variable (s : State τ T) (cv : Cv) (t : τ) (x : Pc T)

/-- A thread's move changes the three sums by its own weights. -/
theorem sleepers_update : tally (Pc.asleepOn cv) (Function.update s.pc t x)
    + (s.pc t).asleepOn cv = s.sleepers cv + x.asleepOn cv :=
  tally_update _ _ _ _

theorem pending_update : tally (Pc.pending cv) (Function.update s.pc t x)
    + (s.pc t).pending cv = s.pending cv + x.pending cv :=
  tally_update _ _ _ _

theorem closers_update : tally (Pc.closing cv) (Function.update s.pc t x)
    + (s.pc t).closing cv = s.closers cv + x.closing cv :=
  tally_update _ _ _ _

variable {s cv t x}

/-- A move that puts nobody to sleep and gives up nothing the thread stands
for keeps the invariant. -/
theorem WakeOk.goto {s' : State τ T} (h : WakeOk s cv) (hq : s'.q = s.q)
    (hpc : s'.pc = Function.update s.pc t x)
    (hsleep : x.asleepOn cv ≤ (s.pc t).asleepOn cv)
    (hpend : (s.pc t).pending cv ≤ x.pending cv)
    (hclose : (s.pc t).closing cv ≤ x.closing cv) : WakeOk s' cv := by
  have hs := sleepers_update s cv t x
  have hp := pending_update s cv t x
  have hc := closers_update s cv t x
  simp only [WakeOk, State.sleepers, State.closers, State.pending, hq, hpc] at *
  rcases h with hzero | hclosing | ⟨hopen, hcov⟩
  · exact .inl (by omega)
  · exact .inr (.inl (by omega))
  · exact .inr (.inr ⟨hopen, by omega⟩)

/-- The same, by the places the thread leaves and reaches. -/
theorem WakeOk.advance {s' : State τ T} {y : Pc T} (h : WakeOk s cv) (hy : s.pc t = y)
    (hq : s'.q = s.q) (hpc : s'.pc = Function.update s.pc t x)
    (hsleep : x.asleepOn cv ≤ y.asleepOn cv) (hpend : y.pending cv ≤ x.pending cv)
    (hclose : y.closing cv ≤ x.closing cv) : WakeOk s' cv := by
  subst hy
  exact h.goto hq hpc hsleep hpend hclose

end Moves

/-- A method waits on one of the two condition variables and notifies the
other. -/
theorem eq_waitsOn_or_notifies (op : Op T) (cv : Cv) :
    cv = op.method.waitsOn ∨ cv = op.method.notifies := by
  cases op <;> cases cv <;> simp [Op.method, push, tryPush, pop, tryPop]

/-- `notify_all` on `cv`, by a `close ()` that has still to notify the other
condition variable, if anybody sleeps there. -/
theorem WakeOk.notifyAll {s s' : State τ T} {cv cv' : Cv} {t : τ} {x : Pc T}
    (h : WakeOk s cv') (hpc : s'.pc = Function.update (fun u => (s.pc u).wakeOn cv) t x)
    (hq : s'.q = s.q) (hpend : (s.pc t).pending cv' = 0)
    (ht : ((s.pc t).wakeOn cv) = s.pc t) (hsleep : x.asleepOn cv' = 0)
    (hclose : cv' ≠ cv → (s.pc t).closing cv' ≤ x.closing cv') : WakeOk s' cv' := by
  have hs := tally_update (Pc.asleepOn cv') (fun u => (s.pc u).wakeOn cv) t x
  have hp := tally_update (Pc.pending cv') (fun u => (s.pc u).wakeOn cv) t x
  have hc := tally_update (Pc.closing cv') (fun u => (s.pc u).wakeOn cv) t x
  have hsle : tally (Pc.asleepOn cv') (fun u => (s.pc u).wakeOn cv) ≤ s.sleepers cv' :=
    tally_mono fun u => Pc.asleepOn_wakeOn_le cv cv' (s.pc u)
  have hple : s.pending cv' ≤ tally (Pc.pending cv') (fun u => (s.pc u).wakeOn cv) :=
    tally_mono fun u => Pc.pending_le_wakeOn cv cv' (s.pc u)
  have hceq : tally (Pc.closing cv') (fun u => (s.pc u).wakeOn cv) = s.closers cv' :=
    tally_congr fun u => Pc.closing_wakeOn cv cv' (s.pc u)
  rw [← hpc] at hs hp hc
  simp only [ht] at hs hp hc
  by_cases hcv : cv' = cv
  · subst hcv
    have hzero : tally (Pc.asleepOn cv') (fun u => (s.pc u).wakeOn cv') = 0 :=
      tally_eq_zero.mpr fun u => Pc.asleepOn_wakeOn_self cv' (s.pc u)
    exact .inl (by unfold State.sleepers; omega)
  · have hclose := hclose hcv
    simp only [WakeOk, State.sleepers, State.closers, State.pending, hq] at *
    rcases h with hzero | hclosing | ⟨hopen, hcov⟩
    · exact .inl (by omega)
    · exact .inr (.inl (by omega))
    · exact .inr (.inr ⟨hopen, by omega⟩)

/-- A body takes one of what its method waits for, and announces the other. -/
theorem WakeOk.body {s s' : State τ T} {cv : Cv} {t : τ} {op : Op T} {r : Result T}
    (h : WakeOk s cv) (hpc : s.pc t = .mutating op) (hb : BodySpec op s.q s'.q)
    (hpc' : s'.pc = Function.update s.pc t (.notifying op.method.notifies r)) :
    WakeOk s' cv := by
  have hne := method_waitsOn_ne_notifies op
  have htakes := hb.takes
  have hgives := hb.gives
  have hs := sleepers_update s cv t (.notifying op.method.notifies r)
  have hp := pending_update s cv t (.notifying op.method.notifies r)
  have hc := closers_update s cv t (.notifying op.method.notifies r)
  rw [← hpc', hpc] at hs hp hc
  have hs' : s'.sleepers cv = s.sleepers cv := hs
  have hc' : s'.closers cv = s.closers cv := hc
  rw [WakeOk, hs', hc', hb.closed]
  refine h.imp_right (Or.imp_right (And.imp_right fun hcov => ?_))
  simp only [Pc.pending] at hp
  rcases eq_waitsOn_or_notifies op cv with rfl | rfl
  · rw [if_pos rfl, if_neg hne.symm] at hp
    simp only [State.pending] at *
    omega
  · rw [if_pos rfl, if_neg hne] at hp
    simp only [State.pending] at *
    omega

/-- Giving up or going to sleep where nothing is available. -/
theorem WakeOk.sleep {s s' : State τ T} {cv : Cv} {t : τ} {op : Op T} {timedOut : Bool}
    {x : Pc T} (h : WakeOk s cv) (hpc : s.pc t = .testing op timedOut)
    (hp : op.method.pred s.q = false) (hq : s'.q = s.q)
    (hpc' : s'.pc = Function.update s.pc t x)
    (hsleep : cv ≠ op.method.waitsOn → x.asleepOn cv = 0) : WakeOk s' cv := by
  obtain ⟨hzero, hopen⟩ := method_pred_eq_false hp
  by_cases hcv : cv = op.method.waitsOn
  · subst hcv
    exact .inr (.inr (by rw [hq]; exact ⟨hopen, by omega⟩))
  · refine h.goto hq hpc' (by simp [hsleep hcv]) ?_ (by simp [hpc, Pc.closing])
    simp [hpc, Pc.pending, Ne.symm hcv]

/-- A refused call gives up only on a closed queue, where its wake-up covers
nothing, or it stood for none. -/
theorem WakeOk.refuse {s : State τ T} {cv : Cv} {t : τ} {op : Op T} {success : Bool} {x : Pc T}
    (h : WakeOk s cv) (hpc : s.pc t = .deciding op success)
    (hr : op.method.refuses s.q success = true) (hsleep : x.asleepOn cv = 0) :
    WakeOk (s.goto t x) cv := by
  cases success with
  | false =>
    exact h.goto rfl rfl (by simp [hsleep]) (by simp [hpc, Pc.pending])
      (by simp [hpc, Pc.closing])
  | true =>
    have hclosed := closed_of_method_refuses hr
    have hs := sleepers_update s cv t x
    have hc := closers_update s cv t x
    have hc0 : (s.pc t).closing cv = 0 := by rw [hpc]; rfl
    simp only [WakeOk, State.sleepers, State.closers, State.goto] at *
    rcases h with hzero | hclosing | ⟨hopen, _⟩
    · exact .inl (by omega)
    · exact .inr (.inl (by omega))
    · rw [hclosed] at hopen
      cases hopen

/-- A body that throws uses up a wake-up; the condition says that it could be
spared. -/
theorem WakeOk.bodyThrows {s : State τ T} {cv : Cv} {t : τ} {op : Op T} {r : Result T}
    {arg : Option T} (h : WakeOk s cv) (hpc : s.pc t = .mutating op)
    (hok : s.sleepers op.method.waitsOn = 0 ∨ 0 < s.closers op.method.waitsOn ∨
      s.q.available op.method.waitsOn < s.pending op.method.waitsOn) :
    WakeOk (s.goto t (.leaving r arg)) cv := by
  by_cases hcv : op.method.waitsOn = cv
  · subst hcv
    have hs := sleepers_update s op.method.waitsOn t (.leaving r arg)
    have hp := pending_update s op.method.waitsOn t (.leaving r arg)
    have hc := closers_update s op.method.waitsOn t (.leaving r arg)
    rw [hpc] at hs hp hc
    have hs' : (s.goto t (.leaving r arg)).sleepers op.method.waitsOn
        = s.sleepers op.method.waitsOn := hs
    have hc' : (s.goto t (.leaving r arg)).closers op.method.waitsOn
        = s.closers op.method.waitsOn := hc
    simp only [Pc.pending, if_pos] at hp
    rw [WakeOk, hs', hc']
    rcases h with hzero | hclosing | ⟨hopen, _⟩
    · exact .inl hzero
    · exact .inr (.inl hclosing)
    · refine hok.imp_right (Or.imp_right fun hlt => ⟨hopen, ?_⟩)
      simp only [State.pending, State.goto] at *
      omega
  · exact h.goto rfl rfl (Nat.zero_le _) (by simp [hpc, Pc.pending, hcv])
      (by simp [hpc, Pc.closing])

/-- `notify_one` with nobody asleep. -/
theorem WakeOk.notifyNone {s : State τ T} {cv cv' : Cv} {t : τ} {r : Result T}
    {arg : Option T} (h : WakeOk s cv) (hpc : s.pc t = .notifying cv' r)
    (hno : ∀ u, (s.pc u).sleepsOn cv' = false) : WakeOk (s.goto t (.leaving r arg)) cv := by
  by_cases hcv : cv' = cv
  · subst hcv
    have hzero : s.sleepers cv' = 0 := tally_eq_zero.mpr fun u => by simp [Pc.asleepOn, hno u]
    have hs := sleepers_update s cv' t (.leaving r arg)
    rw [hzero] at hs
    exact .inl (Nat.eq_zero_of_add_eq_zero_right hs)
  · exact h.goto rfl rfl (Nat.zero_le _) (by simp [hpc, Pc.pending, hcv])
      (by simp [hpc, Pc.closing])

/-- `notify_one` hands the notifier's wake-up to the thread it wakes. -/
theorem WakeOk.notifyOne {s : State τ T} {cv : Cv} {t u : τ} {op : Op T} {r : Result T}
    {arg : Option T} (h : WakeOk s cv) (hpc : s.pc t = .notifying op.method.waitsOn r)
    (hu : s.pc u = .asleep op) :
    WakeOk ((s.goto u (.woken op)).goto t (.leaving r arg)) cv := by
  have hmid := goto_pc_of_asleep hpc hu (.woken op)
  by_cases hcv : op.method.waitsOn = cv
  · -- the sleeper's new wake-up makes up for the notifier's, and one sleeps less
    subst hcv
    have hs := sleepers_update s op.method.waitsOn u (.woken op)
    have hp := pending_update s op.method.waitsOn u (.woken op)
    have hc := closers_update s op.method.waitsOn u (.woken op)
    have hs' := sleepers_update (s.goto u (.woken op)) op.method.waitsOn t (.leaving r arg)
    have hp' := pending_update (s.goto u (.woken op)) op.method.waitsOn t (.leaving r arg)
    have hc' := closers_update (s.goto u (.woken op)) op.method.waitsOn t (.leaving r arg)
    rw [hmid] at hs' hp' hc'
    rw [hu] at hs hp hc
    simp only [Pc.asleepOn_asleep, Pc.pending, if_pos, Pc.closing] at hs hp hc hp' hc'
    have hs0 : (Pc.leaving r arg).asleepOn op.method.waitsOn = 0 := rfl
    have hs1 : (Pc.woken op).asleepOn op.method.waitsOn = 0 := rfl
    simp only [WakeOk, State.sleepers, State.closers, State.pending, State.goto] at *
    rcases h with hzero | hclosing | ⟨hopen, hcov⟩
    · exact .inl (by omega)
    · exact .inr (.inl (by omega))
    · exact .inr (.inr ⟨hopen, by omega⟩)
  · have hwake : WakeOk (s.goto u (.woken op)) cv :=
      h.goto rfl rfl (Nat.zero_le _) (by simp [hu, Pc.pending]) (by simp [hu, Pc.closing])
    exact hwake.goto rfl rfl (Nat.zero_le _) (by simp [hmid, Pc.pending, hcv])
      (by simp [hmid, Pc.closing])

/-- **Step lemma.** Every covered step keeps the wake-up invariant of both
condition variables. -/
theorem wake_step {s s' : State τ T} {l : Label τ T} (hO : Owned s) (h : ∀ cv, WakeOk s cv)
    (hl : ThrowCovered s l) (hs : Step s l s') (cv : Cv) : WakeOk s' cv := by
  cases hs with
  | call hpc => exact (h cv).advance hpc rfl rfl (Nat.zero_le _) (Nat.zero_le _) le_rfl
  | callClose hpc => exact (h cv).advance hpc rfl rfl (Nat.zero_le _) le_rfl (Nat.zero_le _)
  | enter _ hpc => exact (h cv).advance hpc rfl rfl (Nat.zero_le _) le_rfl le_rfl
  | relock _ hpc _ => exact (h cv).advance hpc rfl rfl (Nat.zero_le _) le_rfl le_rfl
  | lockClose _ hpc => exact (h cv).advance hpc rfl rfl (Nat.zero_le _) le_rfl le_rfl
  | pass hpc _ => exact (h cv).advance hpc rfl rfl (Nat.zero_le _) le_rfl le_rfl
  | giveUp hpc hp => exact (h cv).sleep hpc hp rfl rfl fun _ => rfl
  | sleep hpc hp =>
    refine (h cv).sleep hpc hp rfl rfl fun hcv => ?_
    rw [Pc.asleepOn_asleep, if_neg (Ne.symm hcv)]
  | refuse hpc hr => exact (h cv).refuse hpc hr rfl
  | @proceed t op success hpc hr =>
    have hsound := hO.sound_at hpc
    cases success with
    | true => exact (h cv).advance hpc rfl rfl (Nat.zero_le _) le_rfl le_rfl
    | false =>
      -- a wait that timed out is always refused
      rw [method_refuses_timedOut hsound] at hr
      cases hr
  | bodyThrows hpc => exact (h cv).bodyThrows hpc (hl _ hpc)
  | body hpc hb => exact (h cv).body hpc (method_body_spec (hO.available_pos hpc) hb) rfl
  | notifyNone hpc hno => exact (h cv).notifyNone hpc hno
  | notifyOne hpc hu => exact (h cv).notifyOne hpc hu
  | leave hpc _ => exact (h cv).advance hpc rfl rfl (Nat.zero_le _) le_rfl le_rfl
  | wake hpc => exact (h cv).advance hpc rfl rfl (Nat.zero_le _) (Nat.zero_le _) le_rfl
  | @closeSet t hpc =>
    -- from here on the caller of `close ()` vouches for every sleeper
    refine .inr (.inl (lt_of_lt_of_le Nat.one_pos (le_trans ?_ (le_tally _ _ t))))
    simp [State.goto, Pc.closing]
  | closeNotEmpty hpc =>
    refine (h cv).notifyAll rfl rfl (by rw [hpc]; rfl) (by rw [hpc]; rfl) rfl fun hcv => ?_
    cases cv
    · simp [hpc, Pc.closing]
    · exact absurd rfl hcv
  | closeNotFull hpc =>
    refine (h cv).notifyAll rfl rfl (by rw [hpc]; rfl) (by rw [hpc]; rfl) rfl fun hcv => ?_
    cases cv
    · exact absurd rfl hcv
    · simp [hpc, Pc.closing]

/-- **Run lemma.** The wake-up invariant holds in every state reached by covered
steps. -/
theorem wake_of_reach {capacity : ℕ} {s : State τ T}
    (h : (system τ T capacity).Reach ThrowCovered s) (cv : Cv) : WakeOk s cv := by
  revert cv
  induction h with
  | init h0 =>
    obtain rfl := h0
    exact fun cv => .inl (tally_eq_zero.mpr fun _ => rfl)
  | step hr hl hs ih => exact wake_step (owned_of_reach hr) ih hl (next_step hs)

/-! ### Nobody is stranded -/

/-- In no operation, or in a wait set. -/
def Pc.quiet : Pc T → Bool
  | .idle | .asleep _ => true
  | _ => false

/-- No thread runs, and none has been woken but not yet re-run. -/
def Quiescent (s : State τ T) : Prop := ∀ t, (s.pc t).quiet = true

instance (s : State τ T) : Decidable (Quiescent s) :=
  inferInstanceAs (Decidable (∀ t, (s.pc t).quiet = true))

/-- Every sleeper sleeps rightly: a consumer because the queue is open and
empty, a producer because it is open and full. -/
structure NobodyStranded (s : State τ T) : Prop where
  consumers : ∀ t op, s.pc t = .asleep op → op = .pop ∨ op = .tryPop →
    s.q.queue = [] ∧ s.q.closed = false
  producers : ∀ t op, s.pc t = .asleep op → (∃ x, op = .push x ∨ op = .tryPush x) →
    s.q.capacity ≤ s.q.queue.length ∧ s.q.closed = false

theorem Pc.weights_of_quiet {pc : Pc T} (h : pc.quiet = true) (cv : Cv) :
    pc.pending cv = 0 ∧ pc.closing cv = 0 := by
  cases pc <;> first | exact ⟨rfl, rfl⟩ | cases h

omit [DecidableEq τ] in
/-- In a quiescent state nobody stands for a wake-up and nobody is closing. -/
theorem Quiescent.sums_eq_zero {s : State τ T} (h : Quiescent s) (cv : Cv) :
    s.pending cv = 0 ∧ s.closers cv = 0 :=
  ⟨tally_eq_zero.mpr fun t => (Pc.weights_of_quiet (h t) cv).1,
    tally_eq_zero.mpr fun t => (Pc.weights_of_quiet (h t) cv).2⟩

omit [DecidableEq τ] in
/-- What the invariant says of a sleeper in a quiescent state. -/
theorem WakeOk.sleeper {s : State τ T} (h : ∀ cv, WakeOk s cv) (hq : Quiescent s) {t : τ}
    {op : Op T} (hpc : s.pc t = .asleep op) :
    s.q.available op.method.waitsOn = 0 ∧ s.q.closed = false := by
  obtain ⟨hpend, hclose⟩ := hq.sums_eq_zero op.method.waitsOn
  have hpos : 0 < s.sleepers op.method.waitsOn := by
    refine lt_of_lt_of_le Nat.one_pos (le_trans ?_ (le_tally _ _ t))
    rw [hpc, Pc.asleepOn_asleep, if_pos rfl]
  rcases h op.method.waitsOn with hzero | hclosing | ⟨hopen, hcov⟩
  · omega
  · omega
  · exact ⟨by omega, hopen⟩

omit [DecidableEq τ] in
theorem nobodyStranded_of_wakeOk {s : State τ T} (h : ∀ cv, WakeOk s cv) (hq : Quiescent s) :
    NobodyStranded s where
  consumers t op hpc hop := by
    obtain ⟨havail, hopen⟩ := WakeOk.sleeper h hq hpc
    rcases hop with rfl | rfl <;> exact ⟨List.length_eq_zero_iff.mp havail, hopen⟩
  producers t op hpc hop := by
    obtain ⟨havail, hopen⟩ := WakeOk.sleeper h hq hpc
    obtain ⟨x, rfl | rfl⟩ := hop <;> exact ⟨Nat.sub_eq_zero_iff_le.mp havail, hopen⟩

/-- **No lost wake-up.** Where nothing throws, in every quiescent state of every
interleaving no consumer sleeps on a queue that is non-empty or closed, and no
producer on one that has room or is closed. -/
theorem no_lost_wakeup {capacity : ℕ} {s : State τ T}
    (h : (system τ T capacity).Reach (fun _ l => l.throws = false) s) (hq : Quiescent s) :
    NobodyStranded s :=
  nobodyStranded_of_wakeOk (wake_of_reach (h.mono fun _ _ => throwCovered_of_not_throws)) hq

/-- A consumer sleeps, is woken by a push, takes the element, and sleeps again
on the empty queue. -/
def handOff : List (Label (Fin 2) ℕ) :=
  [.call 0 .pop, .lock 0 false, .test 0,
    .call 1 (.push 7), .lock 1 false, .test 1, .decide 1, .body 1 false, .notify 1 (some 0),
    .leave 1 false,
    .lock 0 false, .test 0, .decide 0, .body 0 false, .notify 0 none, .leave 0 false,
    .call 0 .tryPop, .lock 0 false, .test 0]

theorem no_lost_wakeup_handOff :
    ∃ s, (system (Fin 2) ℕ 1).run (.start 1) handOff = some s ∧ s.pc 0 = .asleep .tryPop ∧
      NobodyStranded s :=
  ⟨((system (Fin 2) ℕ 1).run (.start 1) handOff).get (by decide),
    (Option.some_get _).symm, by decide,
    no_lost_wakeup (.of_run (.init rfl) (by decide) (Option.some_get _).symm) (by decide)⟩

end CcSnippets.BlockingQueue

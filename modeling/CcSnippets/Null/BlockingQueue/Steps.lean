import CcSnippets.Null.BlockingQueue.Basic

/-!
# CcSnippets.Null.BlockingQueue.Steps

What one step of the queue can do (`Step`, `next_step`), the facts about the
four methods that the invariants use, and the mutex invariant (`Owned`): the
thread inside a lock-protected section is the owner of the mutex, so the
predicate it tested still holds when it changes the deque.
-/

namespace CcSnippets.BlockingQueue

open CcSnippets.Core

variable {τ T : Type*}

/-! ### The methods -/

/-- How much of what `cv` announces there is: room, or elements. -/
def Queue.available (q : Queue T) : Cv → ℕ
  | .notFull => q.capacity - q.queue.length
  | .notEmpty => q.queue.length

/-- A method waits on one condition variable and notifies the other. -/
theorem method_waitsOn_ne_notifies (op : Op T) : op.method.waitsOn ≠ op.method.notifies := by
  cases op <;> simp [Op.method, push, tryPush, pop, tryPop]

/-- The predicate fails only on an open queue that has nothing of what the
method waits for. -/
theorem method_pred_eq_false {op : Op T} {q : Queue T} (h : op.method.pred q = false) :
    q.available op.method.waitsOn = 0 ∧ q.closed = false := by
  cases op <;>
    simp_all [Op.method, push, tryPush, pop, tryPop, hasRoomOrClosed, hasElemOrClosed,
      Queue.available, Nat.sub_eq_zero_of_le]

/-- After a wait that succeeded, a call is refused only because the queue is
closed. -/
theorem closed_of_method_refuses {op : Op T} {q : Queue T}
    (h : op.method.refuses q true = true) : q.closed = true := by
  cases op <;> simp_all [Op.method, push, tryPush, pop, tryPop]

/-- After a wait that gave up, a call is always refused. -/
theorem method_refuses_timedOut {op : Op T} {q : Queue T} (ht : op.method.timed = true) :
    op.method.refuses q false = true := by
  cases op <;> simp_all [Op.method, push, tryPush, pop, tryPop]

/-- The body runs only where there is some of what the method waits for. -/
theorem method_available_pos {op : Op T} {q : Queue T} (hp : op.method.pred q = true)
    (hr : op.method.refuses q true = false) : 0 < q.available op.method.waitsOn := by
  cases op
  case push | tryPush =>
    simp only [Op.method, push, tryPush, hasRoomOrClosed, Queue.available, Bool.or_eq_true,
      decide_eq_true_eq, Bool.not_true, Bool.false_or] at hp hr ⊢
    rw [hr] at hp
    have hroom := hp.resolve_right Bool.false_ne_true
    omega
  case pop | tryPop =>
    simp only [Op.method, pop, tryPop, hasElemOrClosed, Queue.available] at hp hr ⊢
    exact List.length_pos_iff.mpr fun hq => by simp_all

/-- What a body does to the queue: it uses up one of what the method waits for
and adds one of what it announces. -/
structure BodySpec (op : Op T) (q q' : Queue T) : Prop where
  capacity : q'.capacity = q.capacity
  closed : q'.closed = q.closed
  takes : q'.available op.method.waitsOn + 1 = q.available op.method.waitsOn
  gives : q'.available op.method.notifies ≤ q.available op.method.notifies + 1

theorem method_body_spec {op : Op T} {q q' : Queue T} {r : Result T}
    (hpos : 0 < q.available op.method.waitsOn) (h : op.method.body q = some (q', r)) :
    BodySpec op q q' := by
  cases op
  case push | tryPush =>
    simp only [Op.method, push, tryPush, pushBack, Option.some.injEq, Prod.mk.injEq] at h
    obtain ⟨rfl, rfl⟩ := h
    refine ⟨rfl, rfl, ?_, ?_⟩ <;>
      simp [Op.method, push, tryPush, Queue.available] at hpos ⊢
    omega
  case pop | tryPop =>
    simp only [Op.method, pop, tryPop, popFront] at h
    split at h
    · cases h
    · case _ x xs hq =>
      simp only [Option.some.injEq, Prod.mk.injEq] at h
      obtain ⟨rfl, rfl⟩ := h
      refine ⟨rfl, rfl, ?_, ?_⟩ <;> simp [Op.method, pop, tryPop, Queue.available, hq]
      omega

/-! ### One step -/

section Step

variable [DecidableEq τ]

/-- The steps, each with everything its thread checked. -/
inductive Step (s : State τ T) : Label τ T → State τ T → Prop
  /-- An operation is called. -/
  | call {t : τ} {op : Op T} : s.pc t = .idle →
      Step s (.call t op)
        { s.goto t (.entering op) with called := s.called ++ [(s.callId t, op)] }
  /-- `close ()` is called. -/
  | callClose {t : τ} : s.pc t = .idle → Step s (.callClose t) (s.goto t .closeEntering)
  /-- A call takes the mutex. -/
  | enter {t : τ} {op : Op T} : s.mutex = none → s.pc t = .entering op →
      Step s (.lock t false) { s.goto t (.testing op false) with mutex := some t }
  /-- A woken thread takes the mutex again. -/
  | relock {t : τ} {op : Op T} {timedOut : Bool} : s.mutex = none → s.pc t = .woken op →
      (timedOut = true → op.method.timed = true) →
      Step s (.lock t timedOut) { s.goto t (.testing op timedOut) with mutex := some t }
  /-- `close ()` takes the mutex. -/
  | lockClose {t : τ} : s.mutex = none → s.pc t = .closeEntering →
      Step s (.lock t false) { s.goto t .closeLocked with mutex := some t }
  /-- The predicate holds: the wait returns `true`. -/
  | pass {t : τ} {op : Op T} {timedOut : Bool} : s.pc t = .testing op timedOut →
      op.method.pred s.q = true → Step s (.test t) (s.goto t (.deciding op true))
  /-- The predicate fails after a time-out: the wait returns `false`. -/
  | giveUp {t : τ} {op : Op T} : s.pc t = .testing op true → op.method.pred s.q = false →
      Step s (.test t) (s.goto t (.deciding op false))
  /-- The predicate fails: the thread sleeps and the mutex is free. -/
  | sleep {t : τ} {op : Op T} : s.pc t = .testing op false → op.method.pred s.q = false →
      Step s (.test t) { s.goto t (.asleep op) with mutex := none }
  /-- The test after the wait refuses the call. -/
  | refuse {t : τ} {op : Op T} {success : Bool} : s.pc t = .deciding op success →
      op.method.refuses s.q success = true →
      Step s (.decide t) (s.goto t (.leaving op.method.refusal op.method.arg))
  /-- The test after the wait lets the call through. -/
  | proceed {t : τ} {op : Op T} {success : Bool} : s.pc t = .deciding op success →
      op.method.refuses s.q success = false → Step s (.decide t) (s.goto t (.mutating op))
  /-- The body throws without effect. -/
  | bodyThrows {t : τ} {op : Op T} : s.pc t = .mutating op →
      Step s (.body t true) (s.goto t (.leaving .threw op.method.arg))
  /-- The body takes effect. -/
  | body {t : τ} {op : Op T} {q : Queue T} {r : Result T} : s.pc t = .mutating op →
      op.method.body s.q = some (q, r) →
      Step s (.body t false)
        { s.goto t (.notifying op.method.notifies r) with
          q := q
          accepted := s.accepted ++ (op.method.arg.map fun x => (s.callId t, x)).toList
          removed := s.removed ++ (r.elem?.map fun x => (s.callId t, x)).toList }
  /-- `notify_one` with nobody asleep. -/
  | notifyNone {t : τ} {cv : Cv} {r : Result T} : s.pc t = .notifying cv r →
      (∀ u, (s.pc u).sleepsOn cv = false) →
      Step s (.notify t none) (s.goto t (.leaving r none))
  /-- `notify_one` wakes one sleeper. -/
  | notifyOne {t u : τ} {op : Op T} {r : Result T} :
      s.pc t = .notifying op.method.waitsOn r → s.pc u = .asleep op →
      Step s (.notify t (some u)) ((s.goto u (.woken op)).goto t (.leaving r none))
  /-- A call returns and the mutex is free. -/
  | leave {t : τ} {r : Result T} {arg : Option T} {throws : Bool} :
      s.pc t = .leaving r arg → (throws = true → r.elem?.isSome) →
      Step s (.leave t throws)
        { s.goto t .idle with
          mutex := none
          done := Function.update s.done t (s.done t + 1)
          returned := s.returned ++ [(s.callId t, if throws then .threw else r, arg)] }
  /-- A spurious wake-up or a time-out. -/
  | wake {t : τ} {op : Op T} : s.pc t = .asleep op → Step s (.wake t) (s.goto t (.woken op))
  /-- `close ()` sets `closed_` and releases the mutex. -/
  | closeSet {t : τ} : s.pc t = .closeLocked →
      Step s (.close t)
        { s.goto t .closeNotEmpty with q := { s.q with closed := true }, mutex := none }
  /-- `not_empty_cv_.notify_all ()`. -/
  | closeNotEmpty {t : τ} : s.pc t = .closeNotEmpty →
      Step s (.close t)
        { s with pc := Function.update (fun u => (s.pc u).wakeOn .notEmpty) t .closeNotFull }
  /-- `not_full_cv_.notify_all ()`. -/
  | closeNotFull {t : τ} : s.pc t = .closeNotFull →
      Step s (.close t)
        { s with pc := Function.update (fun u => (s.pc u).wakeOn .notFull) t .idle }

/-- A thread in the wait set of `cv` sleeps in an operation that waits on it. -/
theorem Pc.sleepsOn_eq_true {pc : Pc T} {cv : Cv} (h : pc.sleepsOn cv = true) :
    ∃ op, pc = .asleep op ∧ op.method.waitsOn = cv := by
  cases pc <;> simp_all [Pc.sleepsOn]

/-- **Inversion.** Every enabled label is one of the steps. -/
theorem next_step [Fintype τ] {s s' : State τ T} {l : Label τ T} (h : next s l = some s') :
    Step s l s' := by
  cases l with
  | call t op =>
    simp only [next] at h
    split at h <;> cases h
    exact .call ‹_›
  | callClose t =>
    simp only [next] at h
    split at h <;> cases h
    exact .callClose ‹_›
  | lock t timedOut =>
    simp only [next] at h
    split at h
    · cases timedOut <;> cases h
      exact .enter ‹_› ‹_›
    · split at h <;> cases h
      case _ hto =>
        refine .relock ‹_› ‹_› fun ht => ?_
        simpa [ht] using hto
    · cases timedOut <;> cases h
      exact .lockClose ‹_› ‹_›
    · cases h
  | test t =>
    simp only [next] at h
    split at h
    · split at h
      · cases h
        exact .pass ‹_› ‹_›
      · case _ op timedOut hpc hp =>
        rw [Bool.not_eq_true] at hp
        split at h <;> cases h
        · case _ hto => exact .giveUp (hto ▸ hpc) hp
        · case _ hto =>
          rw [Bool.not_eq_true] at hto
          exact .sleep (hto ▸ hpc) hp
    · cases h
  | decide t =>
    simp only [next] at h
    split at h
    · split at h <;> cases h
      · exact .refuse ‹_› ‹_›
      · case _ hr => exact .proceed ‹_› (by simpa using hr)
    · cases h
  | body t throws =>
    simp only [next] at h
    split at h
    · cases throws with
      | true =>
        cases h
        exact .bodyThrows ‹_›
      | false =>
        simp only [Bool.false_eq_true, if_false] at h
        split at h <;> cases h
        exact .body ‹_› ‹_›
    · cases h
  | notify t waiter =>
    simp only [next] at h
    split at h
    · split at h <;> cases h
      exact .notifyNone ‹_› ‹_›
    · split at h <;> cases h
      case _ cv r u hpc hu =>
        obtain ⟨op, hop, rfl⟩ := Pc.sleepsOn_eq_true hu
        have hw : (s.pc u).wakeOn op.method.waitsOn = .woken op := by simp [hop, Pc.wakeOn]
        rw [hw]
        exact .notifyOne hpc hop
    · cases h
  | leave t throws =>
    simp only [next] at h
    split at h
    · split at h <;> cases h
      case _ hr =>
        refine .leave ‹_› fun ht => ?_
        simpa [ht, Option.isSome_iff_ne_none] using hr
    · cases h
  | wake t =>
    simp only [next] at h
    split at h <;> cases h
    exact .wake ‹_›
  | close t =>
    simp only [next] at h
    split at h <;> cases h
    · exact .closeSet ‹_›
    · exact .closeNotEmpty ‹_›
    · exact .closeNotFull ‹_›

/-- A notifier stays where it is while the thread that it wakes moves. -/
theorem goto_pc_of_asleep {s : State τ T} {t u : τ} {op : Op T} {cv : Cv} {r : Result T}
    (hpc : s.pc t = .notifying cv r) (hu : s.pc u = .asleep op) (pc : Pc T) :
    (s.goto u pc).pc t = .notifying cv r := by
  have hut : t ≠ u := by
    intro heq
    subst heq
    rw [hpc] at hu
    cases hu
  rw [State.goto_pc_of_ne hut, hpc]

end Step

/-! ### The mutex -/

/-- Inside a lock-protected section. -/
def Pc.holds : Pc T → Bool
  | .testing _ _ | .deciding _ _ | .mutating _ | .notifying _ _ | .leaving _ _
  | .closeLocked => true
  | _ => false

/-- What a thread inside its section has established about the queue. -/
def Pc.Sound (q : Queue T) : Pc T → Prop
  | .testing op timedOut => timedOut = true → op.method.timed = true
  | .deciding op true => op.method.pred q = true
  | .deciding op false => op.method.timed = true
  | .mutating op => op.method.pred q = true ∧ op.method.refuses q true = false
  | _ => True

/-- Outside the sections nothing is claimed, whatever the queue is. -/
theorem Pc.sound_of_not_holds {q : Queue T} {pc : Pc T} (h : pc.holds = false) :
    pc.Sound q := by
  cases pc <;> trivial

@[simp] theorem Pc.wakeOn_holds (pc : Pc T) (cv : Cv) : (pc.wakeOn cv).holds = pc.holds := by
  cases pc <;> simp only [Pc.wakeOn]
  split <;> rfl

theorem Pc.wakeOn_sound {q : Queue T} {pc : Pc T} (cv : Cv) (h : pc.Sound q) :
    (pc.wakeOn cv).Sound q := by
  cases pc <;> simp only [Pc.wakeOn] <;> try exact h
  split <;> trivial

/-- Past `closed_ = true` in `close ()`. -/
def Pc.pastClose : Pc T → Bool
  | .closeNotEmpty | .closeNotFull => true
  | _ => false

/-- The mutex is owned by exactly the thread inside a section. -/
def OwnerOk (mutex : Option τ) (pc : τ → Pc T) : Prop :=
  ∀ t, (pc t).holds = true ↔ mutex = some t

namespace OwnerOk

variable {mutex : Option τ} {pc : τ → Pc T} {t : τ} {x : Pc T}

/-- A thread moves without crossing the border of a section. -/
theorem keep [DecidableEq τ] (h : OwnerOk mutex pc) (hx : x.holds = (pc t).holds) :
    OwnerOk mutex (Function.update pc t x) := by
  refine (Function.forall_update_iff pc fun u y => y.holds = true ↔ mutex = some u).mpr ⟨?_, ?_⟩
  · rw [hx]
    exact h t
  · exact fun u _ => h u

/-- A thread takes the free mutex. -/
theorem take [DecidableEq τ] (h : OwnerOk mutex pc) (hm : mutex = none) (hx : x.holds = true) :
    OwnerOk (some t) (Function.update pc t x) := by
  subst hm
  refine (Function.forall_update_iff pc fun u y => y.holds = true ↔ some t = some u).mpr ⟨?_, ?_⟩
  · simp [hx]
  · intro u hu
    have hno : ¬ (pc u).holds = true := fun hc => by simpa using (h u).mp hc
    simp [hno, Ne.symm hu]

/-- The owner releases the mutex. -/
theorem release [DecidableEq τ] (h : OwnerOk mutex pc) (ht : (pc t).holds = true)
    (hx : x.holds = false) :
    OwnerOk none (Function.update pc t x) := by
  refine (Function.forall_update_iff pc fun u y => y.holds = true ↔ none = some u).mpr ⟨?_, ?_⟩
  · simp [hx]
  · intro u hu
    have hno : ¬ (pc u).holds = true := fun hc => hu (by
      have := ((h u).mp hc).symm.trans ((h t).mp ht)
      exact Option.some.inj this)
    simp [hno]

theorem wakeOn (h : OwnerOk mutex pc) (cv : Cv) :
    OwnerOk mutex fun u => (pc u).wakeOn cv := by
  intro u
  rw [Pc.wakeOn_holds]
  exact h u

/-- Nobody else is inside a section. -/
theorem not_holds (h : OwnerOk mutex pc) (ht : (pc t).holds = true) {u : τ} (hu : u ≠ t) :
    (pc u).holds = false := by
  rw [← Bool.not_eq_true]
  intro hc
  exact hu (Option.some.inj (((h u).mp hc).symm.trans ((h t).mp ht)))

end OwnerOk

/-- **The mutex invariant.** -/
structure Owned (s : State τ T) : Prop where
  owner : OwnerOk s.mutex s.pc
  sound : ∀ t, (s.pc t).Sound s.q
  closing : ∀ t, (s.pc t).pastClose = true → s.q.closed = true

theorem Owned.sound_at {s : State τ T} (h : Owned s) {t : τ} {pc : Pc T} (hpc : s.pc t = pc) :
    pc.Sound s.q := hpc ▸ h.sound t

/-- What a thread waited for is still there when it comes to take it. -/
theorem Owned.available_pos {s : State τ T} (h : Owned s) {t : τ} {op : Op T}
    (hpc : s.pc t = .mutating op) : 0 < s.q.available op.method.waitsOn :=
  method_available_pos (h.sound_at hpc).1 (h.sound_at hpc).2

section Step

variable [DecidableEq τ]

theorem sound_update {q : Queue T} {pc : τ → Pc T} {t : τ} {x : Pc T} (hx : x.Sound q)
    (h : ∀ u, u ≠ t → (pc u).Sound q) : ∀ u, (Function.update pc t x u).Sound q :=
  (Function.forall_update_iff pc fun _ y => y.Sound q).mpr ⟨hx, h⟩

/-- A thread that moves without changing the queue keeps everyone sound. -/
theorem Owned.sound_goto {s : State τ T} (h : Owned s) {t : τ} {x : Pc T}
    (hx : x.Sound s.q) : ∀ u, (Function.update s.pc t x u).Sound s.q :=
  sound_update hx fun u _ => h.sound u

/-- A thread inside its section may change the queue: nobody else claims
anything about it. -/
theorem Owned.sound_change {s : State τ T} (h : Owned s) {t : τ} {x : Pc T} {q : Queue T}
    (ht : (s.pc t).holds = true) (hx : x.Sound q) :
    ∀ u, (Function.update s.pc t x u).Sound q :=
  sound_update hx fun _ hu => Pc.sound_of_not_holds (h.owner.not_holds ht hu)

/-- A move elsewhere than past `closed_ = true` claims nothing new. -/
theorem Owned.closing_goto {s : State τ T} (h : Owned s) {t : τ} {x : Pc T}
    (hx : x.pastClose = false) :
    ∀ u, (Function.update s.pc t x u).pastClose = true → s.q.closed = true :=
  (Function.forall_update_iff s.pc fun _ (y : Pc T) => y.pastClose = true → s.q.closed = true).mpr
    ⟨fun hc => absurd (hx.symm.trans hc) (by simp), fun u _ => h.closing u⟩

/-- A thread moves from `y` to `x` inside or outside the sections, and nothing
else changes. -/
theorem Owned.advance {s s' : State τ T} (h : Owned s) {t : τ} {x y : Pc T} (hpc : s.pc t = y)
    (hm : s'.mutex = s.mutex) (hpc' : s'.pc = Function.update s.pc t x) (hq : s'.q = s.q)
    (hx : x.holds = y.holds) (hsound : x.Sound s.q) (hclose : x.pastClose = false) :
    Owned s' := by
  subst hpc
  refine ⟨?_, ?_, ?_⟩
  · rw [hm, hpc']
    exact h.owner.keep hx
  · rw [hpc', hq]
    exact h.sound_goto hsound
  · rw [hpc', hq]
    exact h.closing_goto hclose

/-- Every step keeps the mutex invariant. -/
theorem owned_step {s s' : State τ T} {l : Label τ T} (h : Owned s) (hs : Step s l s') :
    Owned s' := by
  cases hs with
  | call hpc => exact h.advance hpc rfl rfl rfl rfl trivial rfl
  | callClose hpc => exact h.advance hpc rfl rfl rfl rfl trivial rfl
  | enter hm hpc =>
    exact ⟨h.owner.take hm rfl, h.sound_goto (by simp [Pc.Sound]), h.closing_goto rfl⟩
  | relock hm hpc htimed => exact ⟨h.owner.take hm rfl, h.sound_goto htimed, h.closing_goto rfl⟩
  | lockClose hm hpc => exact ⟨h.owner.take hm rfl, h.sound_goto trivial, h.closing_goto rfl⟩
  | pass hpc hp => exact h.advance hpc rfl rfl rfl rfl hp rfl
  | @giveUp t op hpc hp =>
    exact h.advance hpc rfl rfl rfl rfl (h.sound_at hpc rfl : op.method.timed = true) rfl
  | sleep hpc hp =>
    exact ⟨h.owner.release (by rw [hpc]; rfl) rfl, h.sound_goto trivial, h.closing_goto rfl⟩
  | refuse hpc hr => exact h.advance hpc rfl rfl rfl rfl trivial rfl
  | @proceed t op success hpc hr =>
    have hsound := h.sound_at hpc
    cases success with
    | true => exact h.advance hpc rfl rfl rfl rfl ⟨hsound, hr⟩ rfl
    | false =>
      -- a wait that timed out is always refused
      rw [method_refuses_timedOut hsound] at hr
      cases hr
  | bodyThrows hpc => exact h.advance hpc rfl rfl rfl rfl trivial rfl
  | @body t op q r hpc hb =>
    -- a body changes the queue, which nobody else claims anything about
    have hclosed : q.closed = s.q.closed :=
      (method_body_spec (h.available_pos hpc) hb).closed
    refine ⟨h.owner.keep (by rw [hpc]; rfl), h.sound_change (by rw [hpc]; rfl) trivial, ?_⟩
    rw [hclosed]
    exact h.closing_goto rfl
  | notifyNone hpc hno => exact h.advance hpc rfl rfl rfl rfl trivial rfl
  | @notifyOne t u op r hpc hu =>
    -- two threads move, the sleeper first
    have hmid : Owned (s.goto u (.woken op)) := h.advance hu rfl rfl rfl rfl trivial rfl
    have hpc' := goto_pc_of_asleep hpc hu (.woken op)
    exact hmid.advance hpc' rfl rfl rfl rfl trivial rfl
  | leave hpc hthrow =>
    exact ⟨h.owner.release (by rw [hpc]; rfl) rfl, h.sound_goto trivial, h.closing_goto rfl⟩
  | wake hpc => exact h.advance hpc rfl rfl rfl rfl trivial rfl
  | closeSet hpc =>
    exact ⟨h.owner.release (by rw [hpc]; rfl) rfl, h.sound_change (by rw [hpc]; rfl) trivial,
      fun _ _ => rfl⟩
  | @closeNotEmpty t hpc =>
    have hclosed := h.closing t (by rw [hpc]; rfl)
    exact ⟨(h.owner.wakeOn .notEmpty).keep (by rw [Pc.wakeOn_holds, hpc]; rfl),
      sound_update trivial fun u _ => Pc.wakeOn_sound _ (h.sound u), fun _ _ => hclosed⟩
  | @closeNotFull t hpc =>
    have hclosed := h.closing t (by rw [hpc]; rfl)
    exact ⟨(h.owner.wakeOn .notFull).keep (by rw [Pc.wakeOn_holds, hpc]; rfl),
      sound_update trivial fun u _ => Pc.wakeOn_sound _ (h.sound u), fun _ _ => hclosed⟩

omit [DecidableEq τ] in
theorem owned_start (capacity : ℕ) : Owned (.start capacity : State τ T) where
  owner t := by simp [State.start, Pc.holds]
  sound t := trivial
  closing t := nofun

/-- The mutex invariant holds in every reached state, whatever throws. -/
theorem owned_of_reach [Fintype τ] {capacity : ℕ} {ok : State τ T → Label τ T → Prop}
    {s : State τ T} (h : (system τ T capacity).Reach ok s) : Owned s := by
  induction h with
  | init h0 =>
    obtain rfl := h0
    exact owned_start capacity
  | step _ _ hs ih => exact owned_step ih (next_step hs)

end Step

end CcSnippets.BlockingQueue

import CcSnippets.Null.BlockingQueue.Observers

/-!
# CcSnippets.Null.BlockingQueue.Linearizable

The queue is **linearizable** (`history_linearizable`): whatever the threads do, and
whatever throws, the calls of a run can be put in one order that a bounded queue used by
one thread could have gone through, that shows each caller what it got, and that keeps
calls apart that did not overlap.

The bounded queue (`Does`) is stated on its own. An operation has its effect while its
thread owns `mutex_`: where it is refused, in its body, where `close ()` sets `closed_`,
or where an observer reads. A `try_push` or `try_pop` that timed out reports a queue that
is full or empty at that point. An element whose delivery throws on the way to the caller
has left the queue all the same.
-/

namespace CcSnippets.BlockingQueue

open CcSnippets.Core

variable {τ T : Type*}

/-! ### The bounded queue -/

/-- The element that an operation brings. -/
def Op.item : Op T → Option T
  | .push elem | .tryPush elem => some elem
  | .pop | .tryPop => none

/-- An operation that need not wait for ever. -/
def Op.mayGiveUp : Op T → Bool
  | .tryPush _ | .tryPop => true
  | .push _ | .pop => false

/-- What a call may do to a bounded queue, and what comes of it. -/
inductive Does (q : Queue T) : Call T → Reply T → Queue T → Prop
  /-- An open queue with room takes an element at its end. -/
  | store {op : Op T} {x : T} : op.item = some x → q.closed = false →
      q.queue.length < q.capacity →
      Does q (.op op) (.result (.bool true)) { q with queue := q.queue ++ [x] }
  /-- Storing it may throw, without effect. -/
  | storeThrows {op : Op T} {x : T} : op.item = some x → q.closed = false →
      q.queue.length < q.capacity → Does q (.op op) (.result .threw) q
  /-- A closed queue takes nothing. -/
  | refuse {op : Op T} {x : T} : op.item = some x → q.closed = true →
      Does q (.op op) (.result (.bool false)) q
  /-- A full queue makes an operation that may give up do so. -/
  | full {op : Op T} {x : T} : op.item = some x → op.mayGiveUp = true → q.closed = false →
      q.capacity ≤ q.queue.length → Does q (.op op) (.result (.bool false)) q
  /-- The first element is handed out, of an open or a closed queue. -/
  | deliver {op : Op T} {x : T} {xs : List T} : op.item = none → q.queue = x :: xs →
      Does q (.op op) (.result (.elem (some x))) { q with queue := xs }
  /-- Taking it may throw, without effect. -/
  | deliverThrows {op : Op T} {x : T} {xs : List T} : op.item = none → q.queue = x :: xs →
      Does q (.op op) (.result .threw) q
  /-- A closed queue that is empty says so. -/
  | drained {op : Op T} : op.item = none → q.queue = [] → q.closed = true →
      Does q (.op op) (.result (.elem none)) q
  /-- An empty queue makes an operation that may give up do so. -/
  | nothing {op : Op T} : op.item = none → op.mayGiveUp = true → q.queue = [] →
      q.closed = false → Does q (.op op) (.result (.elem none)) q
  /-- The queue is closed. -/
  | close : Does q .close .closed { q with closed := true }
  /-- An observer reads. -/
  | observe {o : Observer} : Does q (.observe o) (o.value q) q

/-- What a caller is shown: the outcome, or that handing out the element threw. -/
def Shows (outcome reply : Reply T) : Prop :=
  reply = outcome ∨ (reply = .result .threw ∧ ∃ x, outcome = .result (.elem (some x)))

/-- The bounded queue as a sequential object. -/
def bounded (T : Type*) (capacity : ℕ) : Object (Queue T) (Call T) (Reply T) (Reply T) where
  start := { capacity := capacity, queue := [], closed := false }
  Does := Does
  Shows := Shows

/-! ### The four methods against it -/

/-- The value handed out was the first one. -/
theorem popFront_eq_some {q q' : Queue T} {r : Result T} (h : popFront q = some (q', r)) :
    ∃ x xs, q.queue = x :: xs ∧ q' = { q with queue := xs } ∧ r = .elem (some x) := by
  unfold popFront at h
  split at h
  · cases h
  · case _ x xs hq =>
    obtain ⟨rfl, rfl⟩ := Prod.mk.inj (Option.some.inj h)
    exact ⟨x, xs, hq, rfl, rfl⟩

/-- A wait that succeeded and a call that is refused all the same: the queue is closed, and
empty where something was to be taken from it. -/
theorem does_refusal_of_closed {op : Op T} {q : Queue T}
    (h : op.method.refuses q true = true) :
    Does q (.op op) (.result op.method.refusal) q := by
  have hclosed := closed_of_method_refuses h
  cases op with
  | push x => exact .refuse (x := x) rfl hclosed
  | tryPush x => exact .refuse (x := x) rfl hclosed
  | pop => exact .drained rfl (by simp_all [Op.method, pop]) hclosed
  | tryPop => exact .drained rfl (by simp_all [Op.method, tryPop]) hclosed

/-- A wait that gave up: the queue is open, and full or empty. -/
theorem does_refusal_of_timedOut {op : Op T} {q : Queue T} (ht : op.method.timed = true)
    (hp : op.method.pred q = false) : Does q (.op op) (.result op.method.refusal) q := by
  obtain ⟨havail, hclosed⟩ := method_pred_eq_false hp
  cases op with
  | push x => cases ht
  | pop => cases ht
  | tryPush x =>
    refine .full (x := x) rfl rfl hclosed ?_
    simpa [Op.method, tryPush, Queue.available, Nat.sub_eq_zero_iff_le] using havail
  | tryPop => exact .nothing rfl rfl (List.length_eq_zero_iff.mp havail) hclosed

/-- A body that throws, where it could have run. -/
theorem does_threw {op : Op T} {q : Queue T} (hp : op.method.pred q = true)
    (hr : op.method.refuses q true = false) : Does q (.op op) (.result .threw) q := by
  have hpos := method_available_pos hp hr
  cases op with
  | push x =>
    exact .storeThrows (x := x) rfl (by simpa [Op.method, push] using hr)
      (Nat.lt_of_sub_pos hpos)
  | tryPush x =>
    exact .storeThrows (x := x) rfl (by simpa [Op.method, tryPush] using hr)
      (Nat.lt_of_sub_pos hpos)
  | pop =>
    obtain ⟨x, xs, hq⟩ := List.exists_cons_of_length_pos hpos
    exact .deliverThrows rfl hq
  | tryPop =>
    obtain ⟨x, xs, hq⟩ := List.exists_cons_of_length_pos hpos
    exact .deliverThrows rfl hq

/-- A body that runs. -/
theorem does_body {op : Op T} {q q' : Queue T} {r : Result T} (hp : op.method.pred q = true)
    (hr : op.method.refuses q true = false) (hb : op.method.body q = some (q', r)) :
    Does q (.op op) (.result r) q' := by
  have hpos := method_available_pos hp hr
  cases op with
  | push x =>
    obtain ⟨rfl, rfl⟩ := Prod.mk.inj (Option.some.inj hb)
    exact .store rfl (by simpa [Op.method, push] using hr) (Nat.lt_of_sub_pos hpos)
  | tryPush x =>
    obtain ⟨rfl, rfl⟩ := Prod.mk.inj (Option.some.inj hb)
    exact .store rfl (by simpa [Op.method, tryPush] using hr) (Nat.lt_of_sub_pos hpos)
  | pop =>
    obtain ⟨x, xs, hq, rfl, rfl⟩ := popFront_eq_some hb
    exact .deliver rfl hq
  | tryPop =>
    obtain ⟨x, xs, hq, rfl, rfl⟩ := popFront_eq_some hb
    exact .deliver rfl hq

/-! ### A wait that gave up -/

/-- A wait that gave up did so because its predicate fails. -/
def Pc.Spent (q : Queue T) : Pc T → Prop
  | .deciding op false => op.method.pred q = false
  | _ => True

theorem Pc.spent_of_not_holds {q : Queue T} {pc : Pc T} (h : pc.holds = false) : pc.Spent q := by
  cases pc <;> trivial

theorem Pc.wakeOn_spent {q : Queue T} {pc : Pc T} (cv : Cv) (h : pc.Spent q) :
    (pc.wakeOn cv).Spent q := by
  cases pc <;> simp only [Pc.wakeOn] <;> try exact h
  split <;> trivial

section Step

variable [DecidableEq τ]

/-- While its thread owns the mutex, this stays so. -/
theorem spent_step {s s' : State τ T} {l : Label τ T} (ho : Owned s)
    (h : ∀ u, (s.pc u).Spent s.q) (hs : Step s l s') : ∀ u, (s'.pc u).Spent s'.q := by
  have hgoto : ∀ {t : τ} {x : Pc T}, x.Spent s.q →
      ∀ u, (Function.update s.pc t x u).Spent s.q := fun hx =>
    (Function.forall_update_iff s.pc fun _ y => Pc.Spent s.q y).mpr ⟨hx, fun u _ => h u⟩
  have hchange : ∀ {t : τ} {x : Pc T} {q : Queue T}, (s.pc t).holds = true → x.Spent q →
      ∀ u, (Function.update s.pc t x u).Spent q := fun {t x q} ht hx =>
    (Function.forall_update_iff s.pc fun _ y => Pc.Spent q y).mpr
      ⟨hx, fun u hu => Pc.spent_of_not_holds (ho.owner.not_holds ht hu)⟩
  cases hs with
  | call _ | callClose _ | enter _ _ | relock _ _ _ | lockClose _ _ | pass _ _ | sleep _ _
  | refuse _ _ | proceed _ _ | bodyThrows _ | notifyNone _ _ | leave _ _ | wake _ =>
    exact hgoto trivial
  | giveUp _ hp => exact hgoto hp
  | body hpc _ => exact hchange (by rw [hpc]; rfl) trivial
  | closeSet hpc => exact hchange (by rw [hpc]; rfl) trivial
  | @notifyOne t u op r _ _ =>
    have hmid : ∀ v, ((s.goto u (.woken op)).pc v).Spent s.q := hgoto trivial
    exact (Function.forall_update_iff _ fun _ y => Pc.Spent s.q y).mpr
      ⟨trivial, fun v _ => hmid v⟩
  | closeNotEmpty _ | closeNotFull _ =>
    exact (Function.forall_update_iff _ fun _ y => Pc.Spent s.q y).mpr
      ⟨trivial, fun u _ => Pc.wakeOn_spent _ (h u)⟩

end Step

/-! ### How far a call is -/

/-- Before or after its effect. -/
def Pc.phase : Pc T → Phase (Call T) (Reply T)
  | .idle => .fresh
  | .entering op | .testing op _ | .asleep op | .woken op | .deciding op _ | .mutating op =>
    .called (.op op)
  | .notifying _ r | .leaving r _ => .performed (.result r)
  | .closeEntering | .closeLocked => .called .close
  | .closeNotEmpty | .closeNotFull => .performed .closed

@[simp] theorem Pc.wakeOn_phase (pc : Pc T) (cv : Cv) : (pc.wakeOn cv).phase = pc.phase := by
  cases pc <;> simp only [Pc.wakeOn]
  split <;> rfl

/-- The same of a thread that may be in an observer. -/
def Observing.phase (pc : Pc T) : Observing T → Phase (Call T) (Reply T)
  | .idle => pc.phase
  | .asked o | .locked o => .called (.observe o)
  | .read v => .performed v

/-- How far every thread is. -/
def phases (observing : τ → Observing T) (pc : τ → Pc T) (t : τ) : Phase (Call T) (Reply T) :=
  (observing t).phase (pc t)

variable [DecidableEq τ]

/-- The atomic object that a state is one of. -/
def Shared.atomic (s : Shared τ T) : Atomic (Queue T) (τ × ℕ) (Call T) (Reply T) :=
  Atomic.ofThreads s.base.q s.count (phases s.observing s.base.pc)

/-- A thread in no observer moves. -/
theorem phases_goto {observing : τ → Observing T} {pc pc' : τ → Pc T} {t : τ} {x : Pc T}
    (ht : observing t = .idle) (hpc : ∀ u, (pc' u).phase = (pc u).phase) :
    phases observing (Function.update pc' t x) =
      Function.update (phases observing pc) t x.phase := by
  funext u
  by_cases hu : u = t
  · subst hu
    simp [phases, ht, Observing.phase]
  · simp only [phases, Function.update_of_ne hu]
    cases observing u <;> simp [Observing.phase, hpc]

/-- A thread in no other operation moves in an observer. -/
theorem phases_observe (observing : τ → Observing T) (pc : τ → Pc T) (t : τ)
    (x : Observing T) :
    phases (Function.update observing t x) pc =
      Function.update (phases observing pc) t (x.phase (pc t)) := by
  funext u
  by_cases hu : u = t
  · subst hu
    simp [phases]
  · simp [phases, Function.update_of_ne hu]

omit [DecidableEq τ] in
theorem phases_idle {observing : τ → Observing T} {pc : τ → Pc T} {t : τ}
    (ht : observing t = .idle) : phases observing pc t = (pc t).phase := by
  rw [phases, ht]
  rfl

/-- Moving within a phase changes nothing. -/
theorem phases_stay {observing : τ → Observing T} {pc pc' : τ → Pc T} {t : τ} {x : Pc T}
    (ht : observing t = .idle) (hpc : ∀ u, (pc' u).phase = (pc u).phase)
    (hx : x.phase = (pc t).phase) :
    phases observing (Function.update pc' t x) = phases observing pc := by
  rw [phases_goto ht hpc, hx]
  exact Function.update_eq_self_iff.mpr (phases_idle ht).symm

/-! ### Every step is matched -/

/-- The step to the queue `q`, with the threads at `pc`, is one of the bounded queue, or none
that anybody sees. -/
def Matched (capacity : ℕ) (observing : τ → Observing T) (count : τ → ℕ) (s : State τ T)
    (l : Label τ T) (q : Queue T) (pc : τ → Pc T) : Prop :=
  Atomic.Exec (bounded T capacity) (Atomic.ofThreads s.q count (phases observing s.pc))
    (l.seen count s)
    (Atomic.ofThreads q (countAfter count l.thread (l.reply s)) (phases observing pc))

namespace Matched

variable {capacity : ℕ} {observing : τ → Observing T} {count : τ → ℕ} {s : State τ T}
  {l : Label τ T} {pc' : τ → Pc T} {x : Pc T} {c : Call T} {e r : Reply T} {q : Queue T}

/-- A thread stays in its phase. -/
theorem silent (ht : observing l.thread = .idle) (hpc' : ∀ u, (pc' u).phase = (s.pc u).phase)
    (hx : x.phase = (s.pc l.thread).phase) (hmade : l.made = none) (hreply : l.reply s = none) :
    Matched capacity observing count s l s.q (Function.update pc' l.thread x) := by
  rw [Matched, phases_stay ht hpc' hx, Label.seen, hmade, hreply]
  exact .refl

/-- A call has its effect. -/
theorem effect (ht : observing l.thread = .idle) (hcalled : (s.pc l.thread).phase = .called c)
    (hx : x.phase = .performed e) (hdoes : Does s.q c e q) (hmade : l.made = none)
    (hreply : l.reply s = none) :
    Matched capacity observing count s l q (Function.update s.pc l.thread x) := by
  rw [Matched, phases_goto ht fun _ => rfl, hx, Label.seen, hmade, hreply]
  exact Atomic.exec_perform ((phases_idle ht).trans hcalled) hdoes

/-- A call returns. -/
theorem ret (ht : observing l.thread = .idle) (hpc' : ∀ u, (pc' u).phase = (s.pc u).phase)
    (hperformed : (s.pc l.thread).phase = .performed e) (hshows : Shows e r)
    (hmade : l.made = none) (hreply : l.reply s = some r) :
    Matched capacity observing count s l s.q (Function.update pc' l.thread .idle) := by
  rw [Matched, phases_goto ht hpc', Label.seen, hmade, hreply]
  exact Atomic.exec_ret ((phases_idle ht).trans hperformed) hshows

/-- A call is made. -/
theorem call (ht : observing l.thread = .idle) (hidle : s.pc l.thread = .idle)
    (hx : x.phase = .called c) (hmade : l.made = some c) (hreply : l.reply s = none) :
    Matched capacity observing count s l s.q (Function.update s.pc l.thread x) := by
  rw [Matched, phases_goto ht fun _ => rfl, hx, Label.seen, hmade, hreply]
  exact Atomic.exec_call ((phases_idle ht).trans (by rw [hidle]; rfl)) c

end Matched

/-- A step of the queue is a step of the bounded queue, or none that anybody sees. -/
theorem matched_step (capacity : ℕ) {s s' : State τ T} {l : Label τ T}
    {observing : τ → Observing T} (count : τ → ℕ) (ho : Owned s)
    (hspent : ∀ u, (s.pc u).Spent s.q) (hs : Step s l s') (ht : observing l.thread = .idle) :
    Matched capacity observing count s l s'.q s'.pc := by
  cases hs with
  | call hpc => exact .call ht hpc rfl rfl rfl
  | callClose hpc => exact .call ht hpc rfl rfl rfl
  | enter hm hpc => exact Matched.silent ht (fun _ => rfl) (by rw [Label.thread, hpc]; rfl) rfl rfl
  | relock hm hpc htimed =>
    exact Matched.silent ht (fun _ => rfl) (by rw [Label.thread, hpc]; rfl) rfl rfl
  | lockClose hm hpc =>
    exact Matched.silent ht (fun _ => rfl) (by rw [Label.thread, hpc]; rfl) rfl rfl
  | pass hpc hp => exact Matched.silent ht (fun _ => rfl) (by rw [Label.thread, hpc]; rfl) rfl rfl
  | giveUp hpc hp => exact Matched.silent ht (fun _ => rfl) (by rw [Label.thread, hpc]; rfl) rfl rfl
  | sleep hpc hp => exact Matched.silent ht (fun _ => rfl) (by rw [Label.thread, hpc]; rfl) rfl rfl
  | proceed hpc hr =>
    exact Matched.silent ht (fun _ => rfl) (by rw [Label.thread, hpc]; rfl) rfl rfl
  | notifyNone hpc hno =>
    exact Matched.silent ht (fun _ => rfl) (by rw [Label.thread, hpc]; rfl) rfl rfl
  | wake hpc => exact Matched.silent ht (fun _ => rfl) (by rw [Label.thread, hpc]; rfl) rfl rfl
  | @notifyOne t u op r hpc hu =>
    refine Matched.silent ht (fun v => ?_) (by rw [Label.thread, hpc]; rfl) rfl rfl
    by_cases hv : v = u
    · subst hv
      rw [State.goto_pc_self, hu]
      rfl
    · rw [State.goto_pc_of_ne hv]
  | closeNotEmpty hpc =>
    exact Matched.silent ht (fun _ => Pc.wakeOn_phase _ _) (by rw [Label.thread, hpc]; rfl) rfl
      (by rw [Label.reply, hpc])
  | @refuse t op success hpc hr =>
    refine Matched.effect ht (by rw [Label.thread, hpc]; rfl) rfl ?_ rfl rfl
    cases success with
    | true => exact does_refusal_of_closed hr
    | false =>
      have hp : op.method.pred s.q = false := by
        have hgave := hspent t
        rwa [hpc] at hgave
      exact does_refusal_of_timedOut (ho.sound_at hpc) hp
  | @bodyThrows t op hpc =>
    obtain ⟨hp, hr⟩ := ho.sound_at hpc
    exact Matched.effect ht (by rw [Label.thread, hpc]; rfl) rfl (does_threw hp hr) rfl rfl
  | @body t op q r hpc hb =>
    obtain ⟨hp, hr⟩ := ho.sound_at hpc
    exact Matched.effect ht (by rw [Label.thread, hpc]; rfl) rfl (does_body hp hr hb) rfl rfl
  | closeSet hpc =>
    exact Matched.effect ht (by rw [Label.thread, hpc]; rfl) rfl .close rfl
      (by rw [Label.reply, hpc])
  | @leave t r arg throws hpc hthrow =>
    refine Matched.ret ht (fun _ => rfl) (by rw [Label.thread, hpc]; rfl) ?_ rfl
      (by rw [Label.reply, hpc])
    cases throws with
    | false => exact .inl rfl
    | true =>
      refine .inr ⟨rfl, ?_⟩
      obtain ⟨x, hx⟩ := Option.isSome_iff_exists.mp (hthrow rfl)
      cases r with
      | elem o => exact ⟨x, congrArg (fun o => Reply.result (.elem o)) hx⟩
      | bool b => cases hx
      | threw => cases hx
  | closeNotFull hpc =>
    exact Matched.ret ht (fun _ => Pc.wakeOn_phase _ _) (by rw [Label.thread, hpc]; rfl) (.inl rfl)
      rfl
      (by rw [Label.reply, hpc])

/-- What every state of a run keeps: the mutex invariant, that of a wait that gave up, and
that an observing thread is in no other operation. -/
structure Shared.Ok (s : Shared τ T) : Prop where
  owned : Owned s.base
  spent : ∀ t, (s.base.pc t).Spent s.base.q
  idle : ∀ t, s.observing t ≠ .idle → s.base.pc t = .idle

theorem Shared.Ok.observe {s : Shared τ T} (hok : s.Ok) {t : τ} {x : Observing T}
    (hpc : s.base.pc t = .idle) :
    ∀ u, Function.update s.observing t x u ≠ .idle → s.base.pc u = .idle :=
  (Function.forall_update_iff s.observing fun u y => y ≠ .idle → s.base.pc u = .idle).mpr
    ⟨fun _ => hpc, fun u _ => hok.idle u⟩

theorem Observing.eq_idle {o : Observing T} (h : o.isIdle = true) : o = .idle := by
  cases o <;> first | rfl | cases h

theorem Pc.eq_idle {pc : Pc T} (h : pc.isIdle = true) : pc = .idle := by
  cases pc <;> first | rfl | cases h

/-- A step moves its own thread, and others only out of a wait set. -/
theorem step_pc_idle {s s' : State τ T} {l : Label τ T} (hs : Step s l s') {u : τ}
    (hu : u ≠ l.thread) (hidle : s.pc u = .idle) : s'.pc u = .idle := by
  cases hs <;> simp only [Label.thread] at hu
  case notifyOne t v op r hpc hv =>
    have huv : u ≠ v := by
      intro huv
      subst huv
      rw [hidle] at hv
      cases hv
    rw [State.goto_pc_of_ne hu, State.goto_pc_of_ne huv, hidle]
  all_goals
    first
    | rw [State.goto_pc_of_ne hu, hidle]
    | simp [Function.update_of_ne hu, hidle, Pc.wakeOn]

/-- Every step of the queue with its observers is matched. -/
theorem exec_shared [Fintype τ] (capacity : ℕ) {s s' : Shared τ T} {l : SharedLabel τ T}
    (hok : s.Ok) (hs : nextShared s l = some s') :
    s'.Ok ∧ Atomic.Exec (bounded T capacity) s.atomic (seen s l s') s'.atomic := by
  cases l with
  | base l =>
    simp only [nextShared] at hs
    split at hs
    · case _ hguard =>
      obtain ⟨b, hb, rfl⟩ := Option.map_eq_some_iff.mp hs
      have hstep : Step s.base l b := next_step hb
      have ht : s.observing l.thread = .idle :=
        Observing.eq_idle (Bool.and_eq_true_iff.mp hguard).1
      refine ⟨⟨owned_step hok.owned hstep, spent_step hok.owned hok.spent hstep, ?_⟩,
        matched_step capacity s.count hok.owned hok.spent hstep ht⟩
      intro u hu
      have hne : u ≠ l.thread := by
        intro heq
        rw [heq] at hu
        exact hu ht
      exact step_pc_idle hstep hne (hok.idle u hu)
    · cases hs
  | ask t o =>
    simp only [nextShared] at hs
    split at hs
    · case _ hguard =>
      obtain ⟨hpc, hobs⟩ := Bool.and_eq_true_iff.mp hguard
      obtain rfl := Option.some.inj hs
      refine ⟨⟨hok.owned, hok.spent, hok.observe (Pc.eq_idle hpc)⟩, ?_⟩
      rw [Shared.atomic, Shared.atomic, phases_observe]
      refine Atomic.exec_call ?_ _
      rw [phases, Observing.eq_idle hobs, Pc.eq_idle hpc]
      rfl
    · cases hs
  | take t =>
    simp only [nextShared] at hs
    split at hs
    · case _ o hobs _ _ =>
      obtain rfl := Option.some.inj hs
      refine ⟨⟨hok.owned, hok.spent, hok.observe (hok.idle t (by simp [hobs]))⟩, ?_⟩
      have hstay : Function.update (phases s.observing s.base.pc) t
          (Observing.phase (s.base.pc t) (.locked o)) = phases s.observing s.base.pc := by
        refine Function.update_eq_self_iff.mpr ?_
        simp [phases, hobs, Observing.phase]
      rw [Shared.atomic, Shared.atomic, phases_observe, hstay]
      exact .refl
    · cases hs
  | read t =>
    simp only [nextShared] at hs
    split at hs
    · case _ o hobs =>
      obtain rfl := Option.some.inj hs
      refine ⟨⟨hok.owned, hok.spent, hok.observe (hok.idle t (by simp [hobs]))⟩, ?_⟩
      rw [Shared.atomic, Shared.atomic, phases_observe]
      refine Atomic.exec_perform (S := bounded T capacity) ?_ (Does.observe (o := o))
      rw [phases, hobs]
      rfl
    · cases hs
  | answer t =>
    simp only [nextShared] at hs
    split at hs
    · case _ v hobs =>
      obtain rfl := Option.some.inj hs
      have hpc : s.base.pc t = .idle := hok.idle t (by simp [hobs])
      refine ⟨⟨hok.owned, hok.spent, hok.observe hpc⟩, ?_⟩
      rw [Shared.atomic, Shared.atomic, phases_observe, seen, hobs, hpc]
      refine Atomic.exec_ret (e := v) ?_ (.inl rfl)
      rw [phases, hobs]
      rfl
    · cases hs

omit [DecidableEq τ] in
theorem shared_ok_start (capacity : ℕ) : (Shared.start capacity : Shared τ T).Ok where
  owned := owned_start capacity
  spent _ := trivial
  idle _ _ := rfl

/-- **The queue is linearizable.** -/
theorem history_linearizable [Fintype τ] (capacity : ℕ) {ls : List (SharedLabel τ T)}
    {s : Shared τ T} (hrun : (shared τ T capacity).run (.start capacity) ls = some s) :
    (bounded T capacity).Linearizable ((shared τ T capacity).trace seen (.start capacity) ls) := by
  have hstep : ∀ s l s', Shared.Ok s → (shared τ T capacity).next s l = some s' →
      s'.Ok ∧ Atomic.Exec (bounded T capacity) s.atomic (seen s l s') s'.atomic :=
    fun _ _ _ hok hs => exec_shared capacity hok hs
  exact Atomic.linearizable_of_simulates hstep (shared_ok_start capacity)
    (Atomic.ofThreads_start (bounded T capacity)) hrun

/-- `size` called during a `push`, and answered before it: two overlapping calls. -/
theorem history_linearizable_overlap :
    (bounded ℕ 1).Linearizable
      [.call (false, 0) (.op (.push 7)), .call (true, 0) (.observe .size),
        .ret (true, 0) (.size 0), .ret (false, 0) (.result (.bool true))] := by
  have hrun : ((shared Bool ℕ 1).run (.start 1)
      [.base (.call false (.push 7)), .ask true .size, .take true, .read true, .answer true,
        .base (.lock false false), .base (.test false), .base (.decide false),
        .base (.body false false), .base (.notify false none),
        .base (.leave false false)]).isSome = true := rfl
  exact history_linearizable 1 (Option.some_get hrun).symm

end CcSnippets.BlockingQueue

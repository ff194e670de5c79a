import CcSnippets.Null.BlockingQueue.Fifo

/-!
# CcSnippets.Null.BlockingQueue.EndOfStream

**End of stream is final and complete.** Only a `pop` that finds the queue closed
and empty, under the mutex, returns `nullopt`. From there on nobody is past its
test with anything but a refusal (`Ended`), and no step changes that.

Before that point, but after the close, nobody goes to sleep any more, and a
`pop` or `try_pop` whose test finds an element takes the one in front: it keeps
the mutex from its test to its `pop_front`.
-/

namespace CcSnippets.BlockingQueue

open CcSnippets.Core

variable {τ T : Type*}

/-! ### Refusals -/

/-- A thread in call `c` that can only be refused. -/
def Pc.Refused (s : State τ T) (c : CallId τ) : Pc T → Prop
  | .mutating _ | .notifying _ _ => False
  | .leaving r _ => ∃ op, (c, op) ∈ s.called ∧ r = op.method.refusal
  | _ => True

/-- The stream has ended. -/
structure Ended (s : State τ T) : Prop where
  closed : s.q.closed = true
  empty : s.q.queue = []
  refused : ∀ t, (s.pc t).Refused s (s.callId t)

/-- What may have changed since the end of the stream: only calls that were
refused have returned. -/
structure Unchanged (s s' : State τ T) : Prop where
  queue : s'.q = s.q
  accepted : s'.accepted = s.accepted
  removed : s'.removed = s.removed
  called : s.called ⊆ s'.called
  answered : ∀ c r arg, (c, r, arg) ∈ s'.returned →
    (c, r, arg) ∈ s.returned ∨ ∃ op, (c, op) ∈ s'.called ∧ r = op.method.refusal

theorem Unchanged.refl (s : State τ T) : Unchanged s s :=
  ⟨rfl, rfl, rfl, List.Subset.refl _, fun _ _ _ h => .inl h⟩

theorem Unchanged.trans {s m s' : State τ T} (h : Unchanged s m) (h' : Unchanged m s') :
    Unchanged s s' := by
  refine ⟨h'.queue.trans h.queue, h'.accepted.trans h.accepted, h'.removed.trans h.removed,
    List.Subset.trans h.called h'.called, ?_⟩
  intro c r arg hret
  rcases h'.answered c r arg hret with hold | hnew
  · rcases h.answered c r arg hold with hold | ⟨op, hop, hr⟩
    · exact .inl hold
    · exact .inr ⟨op, h'.called hop, hr⟩
  · exact .inr hnew

/-- Outside the sections nobody has an answer yet. -/
theorem Pc.refused_of_not_holds {s : State τ T} {c : CallId τ} {pc : Pc T}
    (h : pc.holds = false) : pc.Refused s c := by
  cases pc <;> trivial

theorem Pc.Refused.mono {s s' : State τ T} {c : CallId τ} {pc : Pc T}
    (hcalled : s.called ⊆ s'.called) (h : pc.Refused s c) : pc.Refused s' c := by
  cases pc with
  | leaving r arg =>
    obtain ⟨op, hop, hr⟩ := h
    exact ⟨op, hcalled hop, hr⟩
  | mutating op | notifying cv r => exact h
  | _ => trivial

theorem Pc.Refused.wakeOn {s : State τ T} {c : CallId τ} {pc : Pc T} (cv : Cv)
    (h : pc.Refused s c) : (pc.wakeOn cv).Refused s c := by
  cases pc <;> simp only [Pc.wakeOn] <;> try exact h
  split <;> trivial

/-- On a closed queue every wait is over. -/
theorem method_pred_of_closed (op : Op T) {q : Queue T} (h : q.closed = true) :
    op.method.pred q = true := by
  by_contra hfalse
  have hopen := (method_pred_eq_false (Bool.not_eq_true _ ▸ hfalse)).2
  rw [h] at hopen
  cases hopen

/-- On a closed and empty queue every call is refused. -/
theorem method_refuses_of_ended (op : Op T) {q : Queue T} (hclosed : q.closed = true)
    (hempty : q.queue = []) (success : Bool) : op.method.refuses q success = true := by
  cases op <;> simp [Op.method, push, tryPush, pop, tryPop, hclosed, hempty]

/-- A refusal carries no element. -/
theorem method_refusal_elem (op : Op T) : op.method.refusal.elem? = none := by
  cases op <;> rfl

section Step

variable [DecidableEq τ]

/-! ### After the end -/

/-- One thread moves to a place where it can only be refused. -/
theorem Ended.move {s s' : State τ T} (h : Ended s) {t : τ} {x : Pc T} {f : τ → Pc T}
    (hq : s'.q = s.q) (hcalled : s.called ⊆ s'.called) (hpc : s'.pc = Function.update f t x)
    (hf : ∀ u, (f u).Refused s (s.callId u)) (hx : x.Refused s' (s'.callId t))
    (hid : ∀ u, u ≠ t → s'.callId u = s.callId u) : Ended s' := by
  refine ⟨?_, ?_, ?_⟩
  · rw [hq]
    exact h.closed
  · rw [hq]
    exact h.empty
  · intro u
    rw [hpc]
    by_cases hu : u = t
    · subst hu
      rw [Function.update_self]
      exact hx
    · rw [Function.update_of_ne hu, hid u hu]
      exact (hf u).mono hcalled

/-- The same, where only the thread's place changes. -/
theorem Ended.goto {s s' : State τ T} (h : Ended s) {t : τ} {x : Pc T} (hq : s'.q = s.q)
    (hpc : s'.pc = Function.update s.pc t x) (hcalled : s'.called = s.called)
    (hdone : s'.done = s.done) (hacc : s'.accepted = s.accepted) (hrem : s'.removed = s.removed)
    (hret : s'.returned = s.returned) (hx : x.Refused s (s.callId t)) :
    Ended s' ∧ Unchanged s s' := by
  have hid : ∀ u, s'.callId u = s.callId u := fun u => by rw [State.callId, State.callId, hdone]
  have hsub : s.called ⊆ s'.called := by rw [hcalled]; exact List.Subset.refl _
  refine ⟨h.move hq hsub hpc h.refused ?_ fun u _ => hid u, hq, hacc, hrem, hsub, ?_⟩
  · rw [hid]
    exact hx.mono hsub
  · intro c r arg hc
    rw [hret] at hc
    exact .inl hc

/-- **Step lemma.** Nothing but refusals happens after the end of the stream. -/
theorem ended_step {capacity : ℕ} {s s' : State τ T} {l : Label τ T}
    (hH : History capacity s) (h : Ended s) (hs : Step s l s') : Ended s' ∧ Unchanged s s' := by
  cases hs with
  | @call t op hpc =>
    refine ⟨h.move rfl (List.subset_append_left _ _) rfl h.refused trivial fun _ _ => rfl,
      rfl, rfl, rfl, List.subset_append_left _ _, fun _ _ _ hc => .inl hc⟩
  | callClose _ => exact h.goto rfl rfl rfl rfl rfl rfl rfl trivial
  | enter _ _ => exact h.goto rfl rfl rfl rfl rfl rfl rfl trivial
  | relock _ _ _ => exact h.goto rfl rfl rfl rfl rfl rfl rfl trivial
  | lockClose _ _ => exact h.goto rfl rfl rfl rfl rfl rfl rfl trivial
  | pass _ _ => exact h.goto rfl rfl rfl rfl rfl rfl rfl trivial
  | giveUp _ _ => exact h.goto rfl rfl rfl rfl rfl rfl rfl trivial
  | sleep _ _ => exact h.goto rfl rfl rfl rfl rfl rfl rfl trivial
  | @refuse t op success hpc _ =>
    have hcalled := (hH.fate_at hpc).1
    exact h.goto rfl rfl rfl rfl rfl rfl rfl ⟨op, hcalled, rfl⟩
  | @proceed t op success _ hr =>
    rw [method_refuses_of_ended op h.closed h.empty] at hr
    cases hr
  | @bodyThrows t op hpc | @body t op _ _ hpc _ =>
    have hno := h.refused t
    rw [hpc] at hno
    exact hno.elim
  | @notifyNone t _ _ hpc _ | @notifyOne t _ _ _ hpc _ =>
    have hno := h.refused t
    rw [hpc] at hno
    exact hno.elim
  | @leave t r arg throws hpc hthrow =>
    have hrefused := h.refused t
    rw [hpc] at hrefused
    obtain ⟨op, hop, rfl⟩ := hrefused
    -- a refusal cannot throw: it builds no optional from an element
    have hthrows : throws = false := by
      rw [← Bool.not_eq_true]
      intro ht
      have := hthrow ht
      rw [method_refusal_elem] at this
      cases this
    subst hthrows
    refine ⟨h.move rfl (List.Subset.refl _) rfl h.refused trivial ?_, rfl, rfl, rfl,
      List.Subset.refl _, ?_⟩
    · intro u hu
      exact Prod.ext rfl (Function.update_of_ne hu _ _)
    · intro c r' arg' hc
      rcases List.mem_append.mp hc with hc | hc
      · exact .inl hc
      · obtain ⟨rfl, heq⟩ := Prod.mk.inj (List.mem_singleton.mp hc)
        obtain ⟨rfl, -⟩ := Prod.mk.inj heq
        exact .inr ⟨op, hop, rfl⟩
  | wake _ => exact h.goto rfl rfl rfl rfl rfl rfl rfl trivial
  | @closeSet t _ =>
    have hq : { s.q with closed := true } = s.q := by rw [← h.closed]
    exact h.goto hq rfl rfl rfl rfl rfl rfl trivial
  | closeNotEmpty _ | closeNotFull _ =>
    exact ⟨h.move rfl (List.Subset.refl _) rfl (fun u => (h.refused u).wakeOn _) trivial
      fun _ _ => rfl, rfl, rfl, rfl, List.Subset.refl _, fun _ _ _ hc => .inl hc⟩

/-! ### How the stream ends -/

/-- One thread moves: whoever has an answer afterwards had it before, or is that
thread. -/
theorem Answers.of_move {s s' : State τ T} {t : τ} {x : Pc T} {f : τ → Pc T} {c : CallId τ}
    {r : Result T} (h : Answers s' c r) (hpc : s'.pc = Function.update f t x)
    (hf : ∀ u r, (f u).outcome = some r → (s.pc u).outcome = some r) (hdone : s'.done = s.done)
    (hret : s'.returned = s.returned) : Answers s c r ∨ c = s.callId t ∧ x.outcome = some r := by
  rcases h with ⟨arg, hmem⟩ | ⟨hcur, hout⟩
  · rw [hret] at hmem
    exact .inl (.inl ⟨arg, hmem⟩)
  · rw [hdone] at hcur
    rw [hpc] at hout
    by_cases hct : c.1 = t
    · rw [hct, Function.update_self] at hout
      rw [hct] at hcur
      exact .inr ⟨Prod.ext hct hcur, hout⟩
    · rw [Function.update_of_ne hct] at hout
      exact .inl (.inr ⟨hcur, hf c.1 r hout⟩)

/-- The same, where the thread moves to a place without an answer. -/
theorem Answers.of_silent {s s' : State τ T} {t : τ} {x : Pc T} {f : τ → Pc T} {c : CallId τ}
    {r : Result T} (h : Answers s' c r) (hpc : s'.pc = Function.update f t x)
    (hf : ∀ u r, (f u).outcome = some r → (s.pc u).outcome = some r) (hdone : s'.done = s.done)
    (hret : s'.returned = s.returned) (hx : x.outcome = none) : Answers s c r := by
  rcases h.of_move hpc hf hdone hret with hold | ⟨-, hsome⟩
  · exact hold
  · rw [hx] at hsome
    cases hsome

omit [DecidableEq τ] in
theorem Pc.outcome_wakeOn {pc : Pc T} {cv : Cv} {r : Result T}
    (h : (pc.wakeOn cv).outcome = some r) : pc.outcome = some r := by
  cases pc <;> simp only [Pc.wakeOn] at h <;> try exact h
  split at h <;> cases h

/-- An answer that a step gives is a refusal, or comes with the body. -/
theorem answers_step {s s' : State τ T} {l : Label τ T} (hl : l.throws = false)
    (hs : Step s l s') {c : CallId τ} {r : Result T} (h : Answers s' c r) :
    Answers s c r ∨ ∃ t op, c = s.callId t ∧
      ((∃ success, s.pc t = .deciding op success ∧ op.method.refuses s.q success = true ∧
        s' = s.goto t (.leaving op.method.refusal op.method.arg)) ∨
      ∃ q, op.method.body s.q = some (q, r)) := by
  have hid : ∀ u r, (s.pc u).outcome = some r → (s.pc u).outcome = some r := fun _ _ h => h
  cases hs with
  | call _ => exact .inl (h.of_silent rfl hid rfl rfl rfl)
  | callClose _ => exact .inl (h.of_silent rfl hid rfl rfl rfl)
  | enter _ _ => exact .inl (h.of_silent rfl hid rfl rfl rfl)
  | relock _ _ _ => exact .inl (h.of_silent rfl hid rfl rfl rfl)
  | lockClose _ _ => exact .inl (h.of_silent rfl hid rfl rfl rfl)
  | pass _ _ => exact .inl (h.of_silent rfl hid rfl rfl rfl)
  | giveUp _ _ => exact .inl (h.of_silent rfl hid rfl rfl rfl)
  | sleep _ _ => exact .inl (h.of_silent rfl hid rfl rfl rfl)
  | @refuse t op success hpc hr =>
    refine (h.of_move rfl hid rfl rfl).imp_right ?_
    intro hdone
    obtain ⟨rfl, -⟩ := hdone
    exact ⟨t, op, rfl, .inl ⟨success, hpc, hr, rfl⟩⟩
  | proceed _ _ => exact .inl (h.of_silent rfl hid rfl rfl rfl)
  | bodyThrows _ => cases hl
  | @body t op q r' hpc hb =>
    refine (h.of_move rfl hid rfl rfl).imp_right ?_
    intro hdone
    obtain ⟨rfl, hout⟩ := hdone
    obtain rfl := Option.some.inj hout
    exact ⟨t, op, rfl, .inr ⟨q, hb⟩⟩
  | @notifyNone t cv r' hpc _ =>
    left
    rcases h.of_move rfl hid rfl rfl with hold | ⟨rfl, hout⟩
    · exact hold
    · exact .inr ⟨rfl, by rw [State.callId, hpc]; exact hout⟩
  | @notifyOne t u op r' hpc hu =>
    left
    have hmid : ∀ v r, ((s.goto u (.woken op)).pc v).outcome = some r →
        (s.pc v).outcome = some r := by
      intro v r hv
      by_cases hvu : v = u
      · rw [hvu, State.goto_pc_self] at hv
        cases hv
      · rwa [State.goto_pc_of_ne hvu] at hv
    rcases h.of_move rfl hmid rfl rfl with hold | ⟨rfl, hout⟩
    · exact hold
    · exact .inr ⟨rfl, by rw [State.callId, hpc]; exact hout⟩
  | @leave t r' arg throws hpc _ =>
    obtain rfl : throws = false := hl
    left
    rcases h with ⟨arg', hmem⟩ | ⟨hcur, hout⟩
    · rcases List.mem_append.mp hmem with hmem | hmem
      · exact .inl ⟨arg', hmem⟩
      · obtain ⟨rfl, heq⟩ := Prod.mk.inj (List.mem_singleton.mp hmem)
        obtain ⟨rfl, -⟩ := Prod.mk.inj heq
        exact .inr ⟨rfl, by rw [State.callId, hpc]; rfl⟩
    · by_cases hct : c.1 = t
      · rw [hct, State.goto_pc_self] at hout
        cases hout
      · rw [State.goto_pc_of_ne hct] at hout
        exact .inr ⟨hcur.trans (Function.update_of_ne hct _ _), hout⟩
  | wake _ => exact .inl (h.of_silent rfl hid rfl rfl rfl)
  | closeSet _ => exact .inl (h.of_silent rfl hid rfl rfl rfl)
  | closeNotEmpty _ | closeNotFull _ =>
    exact .inl (h.of_silent rfl (fun _ _ => Pc.outcome_wakeOn) rfl rfl rfl)

/-- A `pop` that is refused ends the stream. -/
theorem Owned.ended_of_pop {s : State τ T} (h : Owned s) {t : τ} {success : Bool}
    (hcalled : (s.callId t, .pop) ∈ s.called) (hpc : s.pc t = .deciding .pop success)
    (hr : (Op.pop : Op T).method.refuses s.q success = true) :
    Ended (s.goto t (.leaving (Op.pop : Op T).method.refusal (Op.pop : Op T).method.arg)) := by
  simp only [Op.method, pop, Bool.and_eq_true, List.isEmpty_iff] at hr
  refine ⟨hr.2, hr.1, fun u => ?_⟩
  by_cases hu : u = t
  · subst hu
    rw [State.goto_pc_self]
    exact ⟨.pop, hcalled, rfl⟩
  · -- the mutex keeps everyone else out of their sections
    rw [State.goto_pc_of_ne hu]
    exact Pc.refused_of_not_holds (h.owner.not_holds (by rw [hpc]; rfl) hu)

variable [Fintype τ]

/-- **The stream ends with the first `nullopt` of a `pop`.** -/
theorem ended_of_reach {capacity : ℕ} {s : State τ T}
    (h : (system τ T capacity).Reach (fun _ l => l.throws = false) s) {c : CallId τ}
    (hcalled : (c, .pop) ∈ s.called) (hans : Answers s c (.elem none)) : Ended s := by
  induction h with
  | init h0 =>
    obtain rfl := h0
    exact absurd hcalled List.not_mem_nil
  | @step m s l hr hl hs ih =>
    have hH := history_of_reach hr
    have hH' : History capacity s := history_of_reach (.step hr hl hs)
    have hmono : m.called ⊆ s.called := by
      cases next_step hs
      case call => exact List.subset_append_left _ _
      all_goals exact List.Subset.refl _
    rcases answers_step hl (next_step hs) hans with hold | ⟨t, op, rfl, hnew⟩
    · obtain ⟨op, -, hop, -⟩ := hH.agrees hold
      obtain rfl := hH'.called_inj hcalled (hmono hop)
      exact (ended_step hH (ih hop hold) (next_step hs)).1
    · rcases hnew with ⟨success, hpc, hrefuses, rfl⟩ | ⟨q, hb⟩
      · have hop := (hH.fate_at hpc).1
        obtain rfl := hH'.called_inj hcalled (hmono hop)
        exact (owned_of_reach hr).ended_of_pop hop hpc hrefuses
      · -- a body never answers `nullopt`
        rcases method_body_cases hb with ⟨_, -, -, heq⟩ | ⟨-, _, -, heq⟩ <;> cases heq

omit [Fintype τ] in
/-- Nothing throws after the end: whoever could is past a test that refused. -/
theorem Ended.not_throws {s s' : State τ T} {l : Label τ T} (h : Ended s) (hs : Step s l s') :
    l.throws = false := by
  cases hs with
  | @bodyThrows t op hpc =>
    have hno := h.refused t
    rw [hpc] at hno
    exact hno.elim
  | @leave t r arg throws hpc hthrow =>
    have hrefused := h.refused t
    rw [hpc] at hrefused
    obtain ⟨op, -, rfl⟩ := hrefused
    show throws = false
    by_contra hne
    have := hthrow (by simpa using hne)
    rw [method_refusal_elem] at this
    cases this
  | _ => rfl

/-- **Run lemma.** After the end of the stream only refusals return, for ever. -/
theorem Ended.run {capacity : ℕ} {s s' : State τ T} {ls : List (Label τ T)} (h : Ended s)
    (hr : (system τ T capacity).Reach (fun _ l => l.throws = false) s)
    (hrun : (system τ T capacity).run s ls = some s') : Ended s' ∧ Unchanged s s' := by
  have hall : (system τ T capacity).Reach (fun _ l => l.throws = false) s' ∧ Ended s' ∧
      Unchanged s s' := by
    refine System.run_invariant (I := fun m => (system τ T capacity).Reach
      (fun _ l => l.throws = false) m ∧ Ended m ∧ Unchanged s m) ?_
      ⟨hr, h, Unchanged.refl s⟩ hrun
    intro m l m' hm hstep
    obtain ⟨hreach, hended, hsame⟩ := hm
    have hs := next_step hstep
    obtain ⟨hended', hsame'⟩ := ended_step (history_of_reach hreach) hended hs
    exact ⟨.step hreach (hended.not_throws hs) hstep, hended', hsame.trans hsame'⟩
  exact hall.2

/-! ### One call from its test on -/

/-- On a closed queue the test of the wait predicate never sends a thread to
sleep. -/
theorem next_test_of_closed {s : State τ T} (hclosed : s.q.closed = true) {t : τ} {op : Op T}
    {timedOut : Bool} (hpc : s.pc t = .testing op timedOut) :
    next s (.test t) = some (s.goto t (.deciding op true)) := by
  simp only [next, hpc, method_pred_of_closed op hclosed, if_true]

omit [Fintype τ] in
theorem State.goto_q (s : State τ T) (t : τ) (x : Pc T) : (s.goto t x).q = s.q := rfl

theorem next_decide {s : State τ T} {t : τ} {op : Op T} {success : Bool}
    (hpc : s.pc t = .deciding op success) :
    next s (.decide t) = some (s.goto t
      (if op.method.refuses s.q success then .leaving op.method.refusal op.method.arg
      else .mutating op)) := by
  simp only [next, hpc]
  split <;> rfl

/-- A thread with its answer returns it. -/
theorem exists_next_leave {s : State τ T} {t : τ} {r : Result T} {arg : Option T}
    (hpc : s.pc t = .leaving r arg) :
    ∃ s', next s (.leave t false) = some s' ∧ (s.callId t, r, arg) ∈ s'.returned := by
  refine ⟨{ s.goto t .idle with
    mutex := none
    done := Function.update s.done t (s.done t + 1)
    returned := s.returned ++ [(s.callId t, r, arg)] }, ?_,
    List.mem_append_right _ List.mem_cons_self⟩
  simp only [next, hpc, Bool.false_and, Bool.false_eq_true, if_false]

/-- A thread whose body is defined runs it. -/
theorem exists_next_body {s : State τ T} {t : τ} {op : Op T} {q : Queue T} {r : Result T}
    (hpc : s.pc t = .mutating op) (hb : op.method.body s.q = some (q, r)) :
    ∃ s', next s (.body t false) = some s' ∧ s'.pc t = .notifying op.method.notifies r ∧
      s'.callId t = s.callId t := by
  refine ⟨{ s.goto t (.notifying op.method.notifies r) with
    q := q
    accepted := s.accepted ++ (op.method.arg.map fun x => (s.callId t, x)).toList
    removed := s.removed ++ (r.elem?.map fun x => (s.callId t, x)).toList }, ?_,
    s.goto_pc_self _ _, rfl⟩
  simp only [next, hpc, hb, Bool.false_eq_true, if_false]

/-- A thread past its body can notify, whoever sleeps. -/
theorem exists_next_notify {s : State τ T} {t : τ} {cv : Cv} {r : Result T}
    (hpc : s.pc t = .notifying cv r) :
    ∃ waiter s', next s (.notify t waiter) = some s' ∧ s'.pc t = .leaving r none ∧
      s'.callId t = s.callId t := by
  by_cases hno : ∀ u, (s.pc u).sleepsOn cv = false
  · exact ⟨none, s.goto t (.leaving r none), by simp only [next, hpc, if_pos hno],
      s.goto_pc_self _ _, rfl⟩
  · obtain ⟨u, hu⟩ := not_forall.mp hno
    have hu : (s.pc u).sleepsOn cv = true := by simpa using hu
    refine ⟨some u, (s.goto u ((s.pc u).wakeOn cv)).goto t (.leaving r none), ?_,
      State.goto_pc_self _ _ _, rfl⟩
    simp only [next, hpc, if_pos hu]

/-- A thread that tests its predicate after the end returns refused. -/
theorem Ended.test_refused {capacity : ℕ} {s : State τ T} (h : Ended s) {t : τ} {op : Op T}
    {timedOut : Bool} (hpc : s.pc t = .testing op timedOut) :
    ∃ s', (system τ T capacity).run s [.test t, .decide t, .leave t false] = some s' ∧
      (s.callId t, op.method.refusal, op.method.arg) ∈ s'.returned := by
  have htest := next_test_of_closed h.closed hpc
  have hdecide := next_decide (s.goto_pc_self t (.deciding op true))
  rw [State.goto_q, if_pos (method_refuses_of_ended op h.closed h.empty true)] at hdecide
  obtain ⟨s', hleave, hret⟩ := exists_next_leave (State.goto_pc_self
    (s.goto t (.deciding op true)) t (.leaving op.method.refusal op.method.arg))
  exact ⟨s', System.run_cons_eq_some.mpr ⟨_, htest, System.run_cons_eq_some.mpr ⟨_, hdecide,
    System.run_cons_eq_some.mpr ⟨_, hleave, rfl⟩⟩⟩, hret⟩

omit [DecidableEq τ] [Fintype τ] in
/-- What a `pop` or `try_pop` does with an element in front. -/
theorem method_of_front {op : Op T} (hop : op = .pop ∨ op = .tryPop) {q : Queue T} {x : T}
    {xs : List T} (hq : q.queue = x :: xs) :
    op.method.pred q = true ∧ op.method.refuses q true = false ∧
      op.method.body q = some ({ q with queue := xs }, .elem (some x)) := by
  rcases hop with rfl | rfl <;>
    simp [Op.method, pop, tryPop, hasElemOrClosed, popFront, hq]

/-- A `pop` or `try_pop` whose test finds `x` in front returns `x`. -/
theorem test_takes {capacity : ℕ} {s : State τ T} {t : τ} {op : Op T} {timedOut : Bool}
    (hpc : s.pc t = .testing op timedOut) (hop : op = .pop ∨ op = .tryPop) {x : T} {xs : List T}
    (hq : s.q.queue = x :: xs) :
    ∃ waiter s', (system τ T capacity).run s
        [.test t, .decide t, .body t false, .notify t waiter, .leave t false] = some s' ∧
      (s.callId t, .elem (some x), none) ∈ s'.returned := by
  obtain ⟨hpred, hrefuses, hbody⟩ := method_of_front hop hq
  have htest : next s (.test t) = some (s.goto t (.deciding op true)) := by
    simp only [next, hpc, hpred, if_true]
  have hdecide := next_decide (s.goto_pc_self t (.deciding op true))
  rw [State.goto_q, hrefuses, if_neg Bool.false_ne_true] at hdecide
  obtain ⟨m, hm, hmpc, hid⟩ := exists_next_body
    (State.goto_pc_self (s.goto t (.deciding op true)) t (.mutating op)) hbody
  obtain ⟨waiter, m', hm', hmpc', hid'⟩ := exists_next_notify hmpc
  obtain ⟨s', hleave, hret⟩ := exists_next_leave hmpc'
  rw [hid', hid] at hret
  exact ⟨waiter, s', System.run_cons_eq_some.mpr ⟨_, htest, System.run_cons_eq_some.mpr
    ⟨_, hdecide, System.run_cons_eq_some.mpr ⟨_, hm, System.run_cons_eq_some.mpr
      ⟨_, hm', System.run_cons_eq_some.mpr ⟨_, hleave, rfl⟩⟩⟩⟩⟩, hret⟩

/-! ### The element a test has found -/

/-- Between the test and the body of a `pop` or `try_pop`. -/
def Pc.Taking : Pc T → Prop
  | .testing op _ | .deciding op true | .mutating op => op = .pop ∨ op = .tryPop
  | _ => False

/-- Call `c` is between its test and its body, with `x` in front of the queue. -/
structure Taking (s : State τ T) (c : CallId τ) (x : T) : Prop where
  call : s.callId c.1 = c
  front : ∃ xs, s.q.queue = x :: xs
  place : (s.pc c.1).Taking

omit [DecidableEq τ] [Fintype τ] in
theorem Pc.Taking.holds {pc : Pc T} (h : pc.Taking) : pc.holds = true := by
  cases pc <;> first | rfl | exact h.elim

omit [DecidableEq τ] [Fintype τ] in
theorem Pc.Taking.wakeOn {pc : Pc T} (h : pc.Taking) (cv : Cv) : pc.wakeOn cv = pc := by
  cases pc <;> first | rfl | exact h.elim

omit [DecidableEq τ] [Fintype τ] in
/-- A step that leaves the thread, its call and the queue as they are. -/
theorem Taking.keep {s s' : State τ T} {c : CallId τ} {x : T} (h : Taking s c x)
    (hid : s'.callId c.1 = s.callId c.1) (hq : s'.q.queue = s.q.queue)
    (hpc : s'.pc c.1 = s.pc c.1) : Taking s' c x := by
  refine ⟨hid.trans h.call, ?_, ?_⟩
  · rw [hq]
    exact h.front
  · rw [hpc]
    exact h.place

omit [Fintype τ] in
/-- A step of a thread outside the sections. -/
theorem Taking.other {s s' : State τ T} {c : CallId τ} {x : T} {t : τ} {y z : Pc T}
    {f : τ → Pc T} (h : Taking s c x) (hpc : s.pc t = y) (hy : y.holds = false)
    (hdone : s'.done = s.done) (hq : s'.q.queue = s.q.queue)
    (hpc' : s'.pc = Function.update f t z) (hf : f c.1 = s.pc c.1) : Taking s' c x := by
  have hct : c.1 ≠ t := by
    intro hct
    have hholds := h.place.holds
    rw [hct, hpc, hy] at hholds
    cases hholds
  refine h.keep (by rw [State.callId, State.callId, hdone]) hq ?_
  rw [hpc', Function.update_of_ne hct, hf]

omit [Fintype τ] in
/-- The thread itself moves on towards its body. -/
theorem Taking.onward {s s' : State τ T} {c : CallId τ} {x : T} {z : Pc T} (h : Taking s c x)
    (hdone : s'.done = s.done) (hq : s'.q.queue = s.q.queue)
    (hpc' : s'.pc = Function.update s.pc c.1 z) (hz : z.Taking) : Taking s' c x := by
  refine ⟨?_, ?_, ?_⟩
  · rw [State.callId, hdone]
    exact h.call
  · rw [hq]
    exact h.front
  · rw [hpc', Function.update_self]
    exact hz

omit [Fintype τ] in
/-- **Step lemma.** The element stays in front until the call has removed it. -/
theorem taking_step {s s' : State τ T} {l : Label τ T} {c : CallId τ} {x : T} (hO : Owned s)
    (h : Taking s c x) (hl : l.throws = false) (hs : Step s l s') :
    Taking s' c x ∨ (c, x) ∈ s'.removed := by
  obtain ⟨xs, hq⟩ := h.front
  -- nobody else is inside a section
  have hsole : ∀ {t : τ} {y : Pc T}, s.pc t = y → y.holds = true → t = c.1 := by
    intro t y hpc hy
    by_contra hct
    have := hO.owner.not_holds h.place.holds hct
    rw [hpc, hy] at this
    cases this
  have hplace : ∀ {t : τ} {y : Pc T}, s.pc t = y → y.holds = true → y.Taking := by
    intro t y hpc hy
    have := h.place
    rwa [← hsole hpc hy, hpc] at this
  cases hs with
  | call hpc => exact .inl (h.other hpc rfl rfl rfl rfl rfl)
  | callClose hpc => exact .inl (h.other hpc rfl rfl rfl rfl rfl)
  | enter _ hpc => exact .inl (h.other hpc rfl rfl rfl rfl rfl)
  | relock _ hpc _ => exact .inl (h.other hpc rfl rfl rfl rfl rfl)
  | lockClose _ hpc => exact .inl (h.other hpc rfl rfl rfl rfl rfl)
  | wake hpc => exact .inl (h.other hpc rfl rfl rfl rfl rfl)
  | @pass t op timedOut hpc _ =>
    have hop := hplace hpc rfl
    obtain rfl := hsole hpc rfl
    exact .inl (h.onward rfl rfl rfl hop)
  | giveUp hpc hp | sleep hpc hp =>
    rw [(method_of_front (hplace hpc rfl) hq).1] at hp
    cases hp
  | @refuse t op success hpc hr =>
    have hop := hplace hpc rfl
    cases success with
    | true =>
      rw [(method_of_front hop hq).2.1] at hr
      cases hr
    | false => exact hop.elim
  | @proceed t op success hpc _ =>
    have hop := hplace hpc rfl
    obtain rfl := hsole hpc rfl
    cases success with
    | true => exact .inl (h.onward rfl rfl rfl hop)
    | false => exact hop.elim
  | bodyThrows _ => cases hl
  | @body t op q r hpc hb =>
    -- the body takes the element in front
    have hop := hplace hpc rfl
    obtain rfl := hsole hpc rfl
    rw [(method_of_front hop hq).2.2] at hb
    obtain ⟨-, rfl⟩ := Prod.mk.inj (Option.some.inj hb)
    right
    rw [h.call]
    exact List.mem_append_right _ List.mem_cons_self
  | notifyNone hpc _ | notifyOne hpc _ => exact (hplace hpc rfl).elim
  | leave hpc _ => exact (hplace hpc rfl).elim
  | closeSet hpc => exact (hplace hpc rfl).elim
  | closeNotEmpty hpc | closeNotFull hpc =>
    exact .inl (h.other hpc rfl rfl rfl rfl (h.place.wakeOn _))

/-- A call whose test found `x` in front can only return `x`. -/
theorem Taking.returns {capacity : ℕ} {s s' : State τ T} {c : CallId τ} {x : T}
    (h : Taking s c x) (hr : (system τ T capacity).Reach (fun _ l => l.throws = false) s)
    {ls : List (Label τ T)} (hls : ∀ l ∈ ls, l.throws = false)
    (hrun : (system τ T capacity).run s ls = some s') {r : Result T} {arg : Option T}
    (hret : (c, r, arg) ∈ s'.returned) : r = .elem (some x) := by
  have hor : Taking s' c x ∨ (c, x) ∈ s'.removed := by
    clear hret
    induction ls generalizing s with
    | nil =>
      obtain rfl := Option.some.inj hrun
      exact .inl h
    | cons l ls ih =>
      obtain ⟨m, hm, hrest⟩ := System.run_cons_eq_some.mp hrun
      have hl := hls l List.mem_cons_self
      rcases taking_step (owned_of_reach hr) h hl (next_step hm) with hkeep | hgone
      · exact ih hkeep (.step hr hl hm) (fun l' hl' => hls l' (List.mem_cons_of_mem l hl')) hrest
      · exact .inr ((effects_mono_of_run hrest).2 hgone)
  have hH := history_of_reach (hr.of_run hls hrun)
  obtain ⟨hlt, op, -, hagrees⟩ := hH.answered c r arg hret
  rcases hor with htaking | hgone
  · -- the call has not returned yet
    have hcur := congrArg Prod.snd htaking.call
    exact absurd hcur (by rw [State.callId]; exact hlt.ne')
  · exact (hagrees.removed x).mp hgone

/-! ### The end of the stream -/

/-- A closed queue stays closed. -/
theorem closed_of_run {capacity : ℕ} {s s' : State τ T} {ls : List (Label τ T)}
    (hr : (system τ T capacity).Reachable s) (hclosed : s.q.closed = true)
    (hrun : (system τ T capacity).run s ls = some s') : s'.q.closed = true := by
  refine (System.run_invariant (I := fun m => (system τ T capacity).Reachable m ∧
    m.q.closed = true) ?_ ⟨hr, hclosed⟩ hrun).2
  intro m l m' hm hstep
  obtain ⟨hreach, hcl⟩ := hm
  refine ⟨.step hreach trivial hstep, ?_⟩
  cases next_step hstep with
  | body hpc hb =>
    have hpos := (owned_of_reach hreach).available_pos hpc
    exact (method_body_spec hpos hb).closed.trans hcl
  | closeSet _ => rfl
  | _ => exact hcl

/-- What a closed queue guarantees from a state on. -/
structure Draining (capacity : ℕ) (s : State τ T) : Prop where
  closed : ∀ ls s', (system τ T capacity).run s ls = some s' → s'.q.closed = true
  /-- No test of the wait predicate sends a thread to sleep, -/
  passes : ∀ t op timedOut, s.pc t = .testing op timedOut →
    next s (.test t) = some (s.goto t (.deciding op true))
  /-- and nobody sleeps any more where no `close ()` has yet to notify. -/
  awake : ∀ cv, s.closers cv = 0 → s.sleepers cv = 0
  /-- A `pop` or `try_pop` whose test finds an element can return it, and can
  return nothing else. -/
  oldest : ∀ t op timedOut x xs, s.pc t = .testing op timedOut → op = .pop ∨ op = .tryPop →
    s.q.queue = x :: xs →
      (∃ waiter s', (system τ T capacity).run s
        [.test t, .decide t, .body t false, .notify t waiter, .leave t false] = some s' ∧
        (s.callId t, .elem (some x), none) ∈ s'.returned) ∧
      ∀ ls s', (∀ l ∈ ls, l.throws = false) → (system τ T capacity).run s ls = some s' →
        ∀ r arg, (s.callId t, r, arg) ∈ s'.returned → r = .elem (some x)

/-- What the end of the stream guarantees from a state on. -/
structure EndOfStream (capacity : ℕ) (s : State τ T) : Prop where
  closed : s.q.closed = true
  empty : s.q.queue = []
  /-- Every element accepted has been removed, by one call that answers with it. -/
  complete : s.accepted.map Prod.snd = s.removed.map Prod.snd
  once : (s.removed.map Prod.fst).Nodup
  taken : ∀ c x, (c, x) ∈ s.removed → Answers s c (.elem (some x))
  /-- The queue stays as it is; whichever call returns from here on is refused. -/
  final : ∀ ls s', (system τ T capacity).run s ls = some s' → Unchanged s s'
  /-- A call that comes to its test, now or later, returns refused. -/
  refuses : ∀ ls s', (system τ T capacity).run s ls = some s' →
    ∀ t op timedOut, s'.pc t = .testing op timedOut →
      ∃ s'', (system τ T capacity).run s' [.test t, .decide t, .leave t false] = some s'' ∧
        (s'.callId t, op.method.refusal, op.method.arg) ∈ s''.returned

/-- **End of stream is final and complete.** In every state reached without a
throw: once the queue is closed it drains in order and nobody waits; and once a
`pop` has returned `nullopt`, everything accepted has been removed, exactly
once, and every later call is refused. -/
theorem end_of_stream_final {capacity : ℕ} {s : State τ T}
    (h : (system τ T capacity).Reach (fun _ l => l.throws = false) s) :
    (s.q.closed = true → Draining capacity s) ∧
    ∀ c arg, (c, .pop) ∈ s.called → (c, .elem none, arg) ∈ s.returned →
      EndOfStream capacity s := by
  refine ⟨fun hclosed => ?_, ?_⟩
  · have hreach : (system τ T capacity).Reachable s := h.mono fun _ _ _ => trivial
    refine ⟨fun ls s' => closed_of_run hreach hclosed, fun t op timedOut =>
      next_test_of_closed hclosed, ?_, ?_⟩
    · intro cv hno
      have hwake := wake_of_reach (h.mono fun _ _ => throwCovered_of_not_throws) cv
      rcases hwake with hzero | hclosing | ⟨hopen, -⟩
      · exact hzero
      · exact absurd hno hclosing.ne'
      · rw [hclosed] at hopen
        cases hopen
    · intro t op timedOut x xs hpc hop hq
      have htaking : Taking s (s.callId t) x := ⟨rfl, ⟨xs, hq⟩, by
        rw [State.callId, hpc]; exact hop⟩
      exact ⟨test_takes hpc hop hq, fun ls s' hls hrun r arg => htaking.returns h hls hrun⟩
  · intro c arg hcalled hret
    have hended := ended_of_reach h hcalled (.inl ⟨arg, hret⟩)
    have hfifo := (history_of_reach h).exactlyOnce
    refine ⟨hended.closed, hended.empty, ?_, hfifo.onceOut, fun c x => (hfifo.taken c x).mp,
      fun ls s' hrun => (hended.run h hrun).2, ?_⟩
    · rw [hfifo.fifo, hended.empty, List.append_nil]
    · intro ls s' hrun t op timedOut hpc
      exact (hended.run h hrun).1.test_refused hpc

end Step

/-- One element goes through a queue that is closed before anybody pops; the
second `pop` is told that the stream has ended. -/
theorem end_of_stream_final_closed :
    ∃ s, (system (Fin 2) ℕ 1).run (.start 1)
        [.call 1 (.push 7), .lock 1 false, .test 1, .decide 1, .body 1 false, .notify 1 none,
          .leave 1 false, .callClose 1, .lock 1 false, .close 1, .close 1, .close 1,
          .call 0 .pop, .lock 0 false, .test 0, .decide 0, .body 0 false, .notify 0 none,
          .leave 0 false, .call 0 .pop, .lock 0 false, .test 0, .decide 0, .leave 0 false]
        = some s ∧
      s.removed = [((0, 0), 7)] ∧ EndOfStream 1 s := by
  obtain ⟨s, hrun, hremoved, hcalled, hret⟩ : ∃ s, (system (Fin 2) ℕ 1).run (.start 1)
        [.call 1 (.push 7), .lock 1 false, .test 1, .decide 1, .body 1 false, .notify 1 none,
          .leave 1 false, .callClose 1, .lock 1 false, .close 1, .close 1, .close 1,
          .call 0 .pop, .lock 0 false, .test 0, .decide 0, .body 0 false, .notify 0 none,
          .leave 0 false, .call 0 .pop, .lock 0 false, .test 0, .decide 0, .leave 0 false]
        = some s ∧ s.removed = [((0, 0), 7)] ∧
      s.called = [((1, 0), .push 7), ((0, 0), .pop), ((0, 1), .pop)] ∧
      s.returned = [((1, 0), .bool true, none), ((0, 0), .elem (some 7), none),
        ((0, 1), .elem none, none)] := ⟨_, rfl, rfl, rfl, rfl⟩
  have hreach : (system (Fin 2) ℕ 1).Reach (fun _ l => l.throws = false) s :=
    .of_run (.init rfl) (by decide) hrun
  refine ⟨s, hrun, hremoved, (end_of_stream_final hreach).2 (0, 1) none ?_ ?_⟩
  · rw [hcalled]
    decide
  · rw [hret]
    decide

end CcSnippets.BlockingQueue

import CcSnippets.Null.BlockingQueue.Wakeups

/-!
# CcSnippets.Null.BlockingQueue.Fifo

**Exactly-once bounded FIFO.** The history fields of the state say which calls'
`push_back` and `pop_front` took effect, in which order, and what each call
returned. The invariant (`History`) ties the three together: the elements
accepted are those removed followed by those still queued, and the effects
recorded for a call are exactly the ones its answer tells (`Agrees`): a call
that answers `true` stored its argument once, a call that answers with an element
removed that one, a refused call did neither and still has its argument.
-/

namespace CcSnippets.BlockingQueue

open CcSnippets.Core

variable {τ T : Type*}

/-- The answer a thread inside an operation is committed to. -/
def Pc.outcome : Pc T → Option (Result T)
  | .notifying _ r | .leaving r _ => some r
  | _ => none

/-- In one of the four waiting operations. -/
def Pc.inOp : Pc T → Bool
  | .idle | .closeEntering | .closeLocked | .closeNotEmpty | .closeNotFull => false
  | _ => true

/-- Call `c` has neither stored nor removed an element. -/
def NoEffect (s : State τ T) (c : CallId τ) : Prop :=
  ∀ x, (c, x) ∉ s.accepted ∧ (c, x) ∉ s.removed

/-- The effects recorded for call `c` of `op` are those that the answer `r`
tells, and `arg` is what is left of its argument. -/
structure Agrees (s : State τ T) (c : CallId τ) (op : Op T) (r : Result T)
    (arg : Option T) : Prop where
  accepted : ∀ x, (c, x) ∈ s.accepted ↔ r = .bool true ∧ op.method.arg = some x
  removed : ∀ x, (c, x) ∈ s.removed ↔ r = .elem (some x)
  untouched : r = .bool false ∨ r = .elem none → arg = op.method.arg

/-- What is on record for the call `c` of a thread at `pc`. -/
def Pc.Fate (s : State τ T) (c : CallId τ) : Pc T → Prop
  | .idle | .closeEntering | .closeLocked | .closeNotEmpty | .closeNotFull => NoEffect s c
  | .entering op | .testing op _ | .asleep op | .woken op | .deciding op _ | .mutating op =>
    (c, op) ∈ s.called ∧ NoEffect s c
  | .notifying _ r => ∃ op, (c, op) ∈ s.called ∧ Agrees s c op r none
  | .leaving r arg => ∃ op, (c, op) ∈ s.called ∧ Agrees s c op r arg

/-- The same effects are on record for call `c`. -/
structure SameEffects (s s' : State τ T) (c : CallId τ) : Prop where
  accepted : ∀ x, (c, x) ∈ s'.accepted ↔ (c, x) ∈ s.accepted
  removed : ∀ x, (c, x) ∈ s'.removed ↔ (c, x) ∈ s.removed

theorem NoEffect.congr {s s' : State τ T} {c : CallId τ} (hc : SameEffects s s' c)
    (h : NoEffect s c) : NoEffect s' c := fun x =>
  ⟨fun hx => (h x).1 ((hc.accepted x).mp hx), fun hx => (h x).2 ((hc.removed x).mp hx)⟩

theorem Agrees.congr {s s' : State τ T} {c : CallId τ} {op : Op T} {r : Result T}
    {arg : Option T} (hc : SameEffects s s' c) (h : Agrees s c op r arg) :
    Agrees s' c op r arg :=
  ⟨fun x => (hc.accepted x).trans (h.accepted x), fun x => (hc.removed x).trans (h.removed x),
    h.untouched⟩

theorem Pc.Fate.congr {s s' : State τ T} {c : CallId τ} {pc : Pc T}
    (hc : SameEffects s s' c) (hcalled : ∀ op, (c, op) ∈ s.called → (c, op) ∈ s'.called)
    (h : pc.Fate s c) : pc.Fate s' c := by
  cases pc with
  | idle | closeEntering | closeLocked | closeNotEmpty | closeNotFull => exact NoEffect.congr hc h
  | entering op | testing op _ | asleep op | woken op | deciding op _ | mutating op =>
    exact ⟨hcalled op h.1, h.2.congr hc⟩
  | notifying cv r | leaving r arg =>
    obtain ⟨op, hop, hagrees⟩ := h
    exact ⟨op, hcalled op hop, hagrees.congr hc⟩

theorem Pc.Fate.wakeOn {s : State τ T} {c : CallId τ} {pc : Pc T} (cv : Cv)
    (h : pc.Fate s c) : (pc.wakeOn cv).Fate s c := by
  cases pc <;> simp only [Pc.wakeOn] <;> try exact h
  split <;> exact h

@[simp] theorem Pc.wakeOn_inOp (pc : Pc T) (cv : Cv) : (pc.wakeOn cv).inOp = pc.inOp := by
  cases pc <;> simp only [Pc.wakeOn]
  split <;> rfl

/-- **The history invariant.** -/
structure History (capacity : ℕ) (s : State τ T) : Prop where
  capacity : s.q.capacity = capacity
  bound : s.q.queue.length ≤ s.q.capacity
  fifo : s.accepted.map Prod.snd = s.removed.map Prod.snd ++ s.q.queue
  onceIn : (s.accepted.map Prod.fst).Nodup
  onceOut : (s.removed.map Prod.fst).Nodup
  onceCalled : (s.called.map Prod.fst).Nodup
  fate : ∀ t, (s.pc t).Fate s (s.callId t)
  future : ∀ c : CallId τ, s.done c.1 < c.2 → NoEffect s c
  past : ∀ c op, (c, op) ∈ s.called →
    c.2 < s.done c.1 ∨ c.2 = s.done c.1 ∧ (s.pc c.1).inOp = true
  answered : ∀ c r arg, (c, r, arg) ∈ s.returned →
    c.2 < s.done c.1 ∧ ∃ op, (c, op) ∈ s.called ∧ Agrees s c op r arg
  complete : ∀ t n, n < s.done t → ∃ r arg, ((t, n), r, arg) ∈ s.returned

theorem history_start (capacity : ℕ) : History capacity (.start capacity : State τ T) := by
  constructor <;> simp [State.start, Pc.Fate, NoEffect]

theorem History.fate_at {capacity : ℕ} {s : State τ T} (h : History capacity s) {t : τ} {pc : Pc T}
    (hpc : s.pc t = pc) : pc.Fate s (s.callId t) := hpc ▸ h.fate t

section Step

variable [DecidableEq τ]

/-- Thread `t` moves; the history and the contents stay as they are. -/
theorem History.goto {capacity : ℕ} {s s' : State τ T} {t : τ} {x : Pc T}
    (h : History capacity s) (hq : s'.q.queue = s.q.queue) (hcap : s'.q.capacity = s.q.capacity)
    (hpc : s'.pc = Function.update s.pc t x) (hdone : s'.done = s.done)
    (hcalled : s'.called = s.called) (hacc : s'.accepted = s.accepted)
    (hrem : s'.removed = s.removed) (hret : s'.returned = s.returned)
    (hfate : x.Fate s (s.callId t)) (hin : (s.pc t).inOp = true → x.inOp = true) :
    History capacity s' := by
  have hsame : ∀ c, SameEffects s s' c := fun c =>
    ⟨fun x => by rw [hacc], fun x => by rw [hrem]⟩
  have hcall : ∀ c op, (c, op) ∈ s.called → (c, op) ∈ s'.called := fun c op hc => by
    rw [hcalled]; exact hc
  have hid : ∀ u, s'.callId u = s.callId u := fun u => by rw [State.callId, State.callId, hdone]
  refine ⟨hcap.trans h.capacity, by rw [hq, hcap]; exact h.bound, ?_, by rw [hacc]; exact h.onceIn,
    by rw [hrem]; exact h.onceOut, by rw [hcalled]; exact h.onceCalled, ?_, ?_, ?_, ?_, ?_⟩
  · rw [hacc, hrem, hq]
    exact h.fifo
  · intro u
    rw [hid, hpc]
    by_cases hu : u = t
    · subst hu
      rw [Function.update_self]
      exact hfate.congr (hsame _) (hcall _)
    · rw [Function.update_of_ne hu]
      exact (h.fate u).congr (hsame _) (hcall _)
  · intro c hc
    rw [hdone] at hc
    exact (h.future c hc).congr (hsame c)
  · intro c op hc
    rw [hcalled] at hc
    rw [hdone, hpc]
    refine (h.past c op hc).imp_right fun ⟨heq, hop⟩ => ⟨heq, ?_⟩
    by_cases hu : c.1 = t
    · subst hu
      rw [Function.update_self]
      exact hin hop
    · rw [Function.update_of_ne hu]
      exact hop
  · intro c r arg hc
    rw [hret] at hc
    obtain ⟨hlt, op, hop, hagrees⟩ := h.answered c r arg hc
    exact ⟨by rw [hdone]; exact hlt, op, hcall c op hop, hagrees.congr (hsame c)⟩
  · intro u n hn
    rw [hdone] at hn
    rw [hret]
    exact h.complete u n hn

/-- Thread `t` moves from `y` to `x`, and what is on record for its call suits
both. -/
theorem History.advance {capacity : ℕ} {s s' : State τ T} {t : τ} {x y : Pc T}
    (h : History capacity s) (hpc : s.pc t = y) (hq : s'.q.queue = s.q.queue)
    (hcap : s'.q.capacity = s.q.capacity) (hpc' : s'.pc = Function.update s.pc t x)
    (hdone : s'.done = s.done) (hcalled : s'.called = s.called)
    (hacc : s'.accepted = s.accepted) (hrem : s'.removed = s.removed)
    (hret : s'.returned = s.returned)
    (hfate : y.Fate s (s.callId t) → x.Fate s (s.callId t))
    (hin : y.inOp = true → x.inOp = true) : History capacity s' := by
  subst hpc
  exact h.goto hq hcap hpc' hdone hcalled hacc hrem hret (hfate (h.fate t)) hin

omit [DecidableEq τ] in
/-- `notify_all` leaves the history as it is. -/
theorem History.wakeOn {capacity : ℕ} {s : State τ T} (h : History capacity s) (cv : Cv) :
    History capacity { s with pc := fun u => (s.pc u).wakeOn cv } := by
  have hsame : ∀ c, SameEffects s { s with pc := fun u => (s.pc u).wakeOn cv } c :=
    fun c => ⟨fun _ => .rfl, fun _ => .rfl⟩
  refine ⟨h.capacity, h.bound, h.fifo, h.onceIn, h.onceOut, h.onceCalled, ?_,
    fun c hc => (h.future c hc).congr (hsame c), ?_, ?_, h.complete⟩
  · exact fun u => ((h.fate u).wakeOn cv).congr (hsame _) fun _ hc => hc
  · intro c op hc
    exact (h.past c op hc).imp_right fun ⟨heq, hop⟩ => ⟨heq, by simpa using hop⟩
  · intro c r arg hc
    obtain ⟨hlt, op, hop, hagrees⟩ := h.answered c r arg hc
    exact ⟨hlt, op, hop, hagrees.congr (hsame c)⟩

omit [DecidableEq τ] in
/-- An entry for a call that has none keeps the calls on a record distinct. -/
theorem nodup_record {α : Type*} {l : List (CallId τ × α)} {c : CallId τ}
    (h : (l.map Prod.fst).Nodup) (hc : ∀ x, (c, x) ∉ l) (o : Option α) :
    ((l ++ (o.map fun x => (c, x)).toList).map Prod.fst).Nodup := by
  cases o with
  | none => simpa using h
  | some x =>
    simp only [Option.map_some, Option.toList_some, List.map_append, List.map_cons, List.map_nil]
    refine List.nodup_append'.mpr ⟨h, List.nodup_singleton _, ?_⟩
    rw [List.disjoint_singleton]
    intro hmem
    obtain ⟨⟨c', y⟩, hy, rfl⟩ := List.mem_map.mp hmem
    exact hc y hy

/-- A call is recorded under a new identity. -/
theorem History.call {capacity : ℕ} {s : State τ T} {t : τ} {op : Op T}
    (h : History capacity s) (hpc : s.pc t = .idle) :
    History capacity
      { s.goto t (.entering op) with called := s.called ++ [(s.callId t, op)] } := by
  have hsame : ∀ c, SameEffects s
      { s.goto t (.entering op) with called := s.called ++ [(s.callId t, op)] } c :=
    fun c => ⟨fun _ => .rfl, fun _ => .rfl⟩
  have hcall : ∀ c op', (c, op') ∈ s.called →
      (c, op') ∈ s.called ++ [(s.callId t, op)] := fun c op' hc => List.mem_append_left _ hc
  -- the identity is not in use: `t` has made `done t` calls and is in none
  have hnew : ∀ op', (s.callId t, op') ∉ s.called := fun op' hc => by
    rcases h.past _ _ hc with hlt | ⟨-, hin⟩
    · exact absurd hlt (lt_irrefl _)
    · rw [show (s.callId t).1 = t from rfl, hpc] at hin
      cases hin
  refine ⟨h.capacity, h.bound, h.fifo, h.onceIn, h.onceOut, ?_, ?_, ?_, ?_, ?_, h.complete⟩
  · exact nodup_record h.onceCalled hnew (some op)
  · intro u
    by_cases hu : u = t
    · subst hu
      rw [State.goto_pc_self]
      exact ⟨List.mem_append_right _ List.mem_cons_self,
        NoEffect.congr (hsame _) (h.fate_at hpc)⟩
    · rw [State.goto_pc_of_ne hu]
      exact (h.fate u).congr (hsame _) (hcall _)
  · exact fun c hc => (h.future c hc).congr (hsame c)
  · intro c op' hc
    rcases List.mem_append.mp hc with hc | hc
    · refine (h.past c op' hc).imp_right fun ⟨heq, hop⟩ => ⟨heq, ?_⟩
      by_cases hu : c.1 = t
      · subst hu
        rw [hpc] at hop
        cases hop
      · rw [State.goto_pc_of_ne hu]
        exact hop
    · obtain ⟨rfl, -⟩ := Prod.mk.inj (List.mem_singleton.mp hc)
      exact .inr ⟨rfl, by simp [State.callId, Pc.inOp]⟩
  · intro c r arg hc
    obtain ⟨hlt, op', hop, hagrees⟩ := h.answered c r arg hc
    exact ⟨hlt, op', hcall c op' hop, hagrees.congr (hsame c)⟩

omit [DecidableEq τ] in
/-- The two kinds of body: one stores the argument at the back and answers
`true`, the other removes the front element and answers with it. -/
theorem method_body_cases {op : Op T} {q q' : Queue T} {r : Result T}
    (h : op.method.body q = some (q', r)) :
    (∃ x, op.method.arg = some x ∧ q'.queue = q.queue ++ [x] ∧ r = .bool true) ∨
    (op.method.arg = none ∧ ∃ x, q.queue = x :: q'.queue ∧ r = .elem (some x)) := by
  cases op
  case push x | tryPush x =>
    simp only [Op.method, push, tryPush, pushBack, Option.some.injEq, Prod.mk.injEq] at h
    obtain ⟨rfl, rfl⟩ := h
    exact .inl ⟨x, rfl, rfl, rfl⟩
  case pop | tryPop =>
    simp only [Op.method, pop, tryPop, popFront] at h
    split at h <;> cases h
    exact .inr ⟨rfl, _, ‹_›, rfl⟩

omit [DecidableEq τ] in
/-- A body stays within the bound: it stores only where there is room. -/
theorem method_body_bound {op : Op T} {q q' : Queue T} {r : Result T}
    (hpos : 0 < q.available op.method.waitsOn) (hb : op.method.body q = some (q', r))
    (h : q.queue.length ≤ q.capacity) : q'.queue.length ≤ q'.capacity := by
  rw [(method_body_spec hpos hb).capacity]
  rcases method_body_cases hb with ⟨x, harg, hq, -⟩ | ⟨-, x, hq, -⟩
  · have hroom : q.queue.length < q.capacity := by
      cases op
      case push | tryPush =>
        simp only [Op.method, push, tryPush, Queue.available] at hpos
        omega
      case pop | tryPop => simp [Op.method, pop, tryPop] at harg
    rw [hq, List.length_append, List.length_singleton]
    exact hroom
  · rw [hq, List.length_cons] at h
    omega

omit [DecidableEq τ] in
/-- Once its one element is on record, a call that had no effect agrees with
the answer of its body. -/
theorem agrees_body {s s' : State τ T} {c : CallId τ} {op : Op T} {q : Queue T} {r : Result T}
    (hnone : NoEffect s c) (hb : op.method.body s.q = some (q, r))
    (hacc : s'.accepted = s.accepted ++ (op.method.arg.map fun x => (c, x)).toList)
    (hrem : s'.removed = s.removed ++ (r.elem?.map fun x => (c, x)).toList) :
    Agrees s' c op r none := by
  rcases method_body_cases hb with ⟨x, harg, -, rfl⟩ | ⟨harg, x, -, rfl⟩
  · refine ⟨fun y => ?_, fun y => ?_, by simp⟩
    · simp [hacc, harg, (hnone y).1, eq_comm]
    · simp [hrem, Result.elem?, (hnone y).2]
  · refine ⟨fun y => ?_, fun y => ?_, by simp⟩
    · simp [hacc, harg, (hnone y).1]
    · simp [hrem, Result.elem?, (hnone y).2, eq_comm]

/-- A body takes effect: the one element it moves is recorded for its call. -/
theorem History.body {capacity : ℕ} {s : State τ T} {t : τ} {op : Op T} {q : Queue T}
    {r : Result T} (h : History capacity s) (hpc : s.pc t = .mutating op)
    (hpos : 0 < s.q.available op.method.waitsOn) (hb : op.method.body s.q = some (q, r)) :
    History capacity
      { s.goto t (.notifying op.method.notifies r) with
        q := q
        accepted := s.accepted ++ (op.method.arg.map fun x => (s.callId t, x)).toList
        removed := s.removed ++ (r.elem?.map fun x => (s.callId t, x)).toList } := by
  obtain ⟨hcalled, hnone⟩ := h.fate_at hpc
  -- no other call's record changes
  have hsame : ∀ c, c ≠ s.callId t → SameEffects s
      { s.goto t (.notifying op.method.notifies r) with
        q := q
        accepted := s.accepted ++ (op.method.arg.map fun x => (s.callId t, x)).toList
        removed := s.removed ++ (r.elem?.map fun x => (s.callId t, x)).toList } c := by
    intro c hc
    refine ⟨fun x => ?_, fun x => ?_⟩
    · cases op.method.arg <;> simp [hc]
    · cases r.elem? <;> simp [hc]
  have hids : ∀ u, u ≠ t → s.callId u ≠ s.callId t := fun u hu heq => hu (Prod.mk.inj heq).1
  -- neither a call to come nor one that returned is the call of `t`
  have hidne : ∀ c : CallId τ, s.done c.1 < c.2 ∨ c.2 < s.done c.1 → c ≠ s.callId t := by
    intro c hc heq
    subst heq
    exact hc.elim (lt_irrefl _) (lt_irrefl _)
  refine ⟨(method_body_spec hpos hb).capacity.trans h.capacity, method_body_bound hpos hb h.bound,
    ?_, nodup_record h.onceIn (fun x => (hnone x).1) _,
    nodup_record h.onceOut (fun x => (hnone x).2) _, h.onceCalled, ?_, ?_, ?_, ?_, h.complete⟩
  · show List.map Prod.snd (s.accepted ++ _) = List.map Prod.snd (s.removed ++ _) ++ q.queue
    have hfifo := h.fifo
    rcases method_body_cases hb with ⟨x, harg, hq, rfl⟩ | ⟨harg, x, hq, rfl⟩
    · simp [harg, hq, hfifo, Result.elem?]
    · simp [harg, hq, hfifo, Result.elem?]
  · intro u
    by_cases hu : u = t
    · subst hu
      rw [State.goto_pc_self]
      exact ⟨op, hcalled, agrees_body hnone hb rfl rfl⟩
    · rw [State.goto_pc_of_ne hu]
      exact (h.fate u).congr (hsame _ (hids u hu)) fun _ hc => hc
  · exact fun c hc => (h.future c hc).congr (hsame c (hidne c (.inl hc)))
  · intro c op' hc
    refine (h.past c op' hc).imp_right fun ⟨heq, hop⟩ => ⟨heq, ?_⟩
    by_cases hu : c.1 = t
    · subst hu
      rw [State.goto_pc_self]
      rfl
    · rw [State.goto_pc_of_ne hu]
      exact hop
  · intro c r' arg hc
    obtain ⟨hlt, op', hop, hagrees'⟩ := h.answered c r' arg hc
    exact ⟨hlt, op', hop, hagrees'.congr (hsame c (hidne c (.inr hlt)))⟩

/-- A call returns: its answer goes on record, and its thread's next call has no
effects yet. -/
theorem History.leave {capacity : ℕ} {s : State τ T} {t : τ} {r : Result T} {arg : Option T}
    (h : History capacity s) (hpc : s.pc t = .leaving r arg) :
    History capacity
      { s.goto t .idle with
        mutex := none
        done := Function.update s.done t (s.done t + 1)
        returned := s.returned ++ [(s.callId t, r, arg)] } := by
  have hsame : ∀ c, SameEffects s
      { s.goto t .idle with
        mutex := none
        done := Function.update s.done t (s.done t + 1)
        returned := s.returned ++ [(s.callId t, r, arg)] } c :=
    fun c => ⟨fun _ => .rfl, fun _ => .rfl⟩
  have hle : ∀ u, s.done u ≤ Function.update s.done t (s.done t + 1) u := fun u => by
    by_cases hu : u = t
    · subst hu
      simp
    · simp [Function.update_of_ne hu]
  refine ⟨h.capacity, h.bound, h.fifo, h.onceIn, h.onceOut, h.onceCalled, ?_, ?_, ?_, ?_, ?_⟩
  · intro u
    by_cases hu : u = t
    · subst hu
      rw [State.goto_pc_self]
      -- its next call is one to come
      refine (h.future _ ?_).congr (hsame _)
      simp [State.callId]
    · show ((s.goto t .idle).pc u).Fate _ (u, Function.update s.done t (s.done t + 1) u)
      rw [State.goto_pc_of_ne hu, Function.update_of_ne hu]
      exact (h.fate u).congr (hsame _) fun _ hc => hc
  · exact fun c hc => (h.future c (lt_of_le_of_lt (hle c.1) hc)).congr (hsame c)
  · intro c op hc
    show c.2 < Function.update s.done t (s.done t + 1) c.1 ∨ _
    rcases h.past c op hc with hlt | ⟨heq, hop⟩
    · exact .inl (lt_of_lt_of_le hlt (hle c.1))
    · by_cases hu : c.1 = t
      · -- the call that returns is over now
        left
        rw [hu, Function.update_self, heq, hu]
        exact Nat.lt_succ_self _
      · right
        show c.2 = Function.update s.done t (s.done t + 1) c.1 ∧
          ((s.goto t .idle).pc c.1).inOp = true
        rw [Function.update_of_ne hu, State.goto_pc_of_ne hu]
        exact ⟨heq, hop⟩
  · intro c r' arg' hc
    show c.2 < Function.update s.done t (s.done t + 1) c.1 ∧ _
    rcases List.mem_append.mp hc with hc | hc
    · obtain ⟨hlt, op, hop, hagrees⟩ := h.answered c r' arg' hc
      exact ⟨lt_of_lt_of_le hlt (hle c.1), op, hop, hagrees.congr (hsame c)⟩
    · obtain ⟨rfl, heq⟩ := Prod.mk.inj (List.mem_singleton.mp hc)
      obtain ⟨rfl, rfl⟩ := Prod.mk.inj heq
      obtain ⟨op, hop, hagrees⟩ := h.fate_at hpc
      exact ⟨by simp [State.callId], op, hop, hagrees.congr (hsame _)⟩
  · intro u n hn
    change n < Function.update s.done t (s.done t + 1) u at hn
    by_cases hcur : (u, n) = s.callId t
    · exact ⟨r, arg, List.mem_append_right _ (by rw [hcur]; exact List.mem_cons_self)⟩
    · have hlt : n < s.done u := by
        by_cases hu : u = t
        · subst hu
          rw [Function.update_self] at hn
          have : n ≠ s.done u := fun heq => hcur (by rw [heq]; rfl)
          omega
        · rwa [Function.update_of_ne hu] at hn
      obtain ⟨r', arg', hmem⟩ := h.complete u n hlt
      exact ⟨r', arg', List.mem_append_left _ hmem⟩

omit [DecidableEq τ] in
/-- A refused call has no effects, and still has its argument. -/
theorem agrees_refusal {s : State τ T} {c : CallId τ} {op : Op T} (h : NoEffect s c) :
    Agrees s c op op.method.refusal op.method.arg := by
  cases op <;>
    exact ⟨fun x => by simp [(h x).1, Op.method, push, tryPush, pop, tryPop],
      fun x => by simp [(h x).2, Op.method, push, tryPush, pop, tryPop], fun _ => rfl⟩

omit [DecidableEq τ] in
/-- A call whose body throws has no effects. -/
theorem agrees_threw {s : State τ T} {c : CallId τ} {op : Op T} (h : NoEffect s c) :
    Agrees s c op .threw op.method.arg :=
  ⟨fun x => by simp [(h x).1], fun x => by simp [(h x).2], fun _ => rfl⟩

/-- **Step lemma.** Every step that does not throw after a body has taken effect keeps
the history invariant. -/
theorem history_step {capacity : ℕ} {s s' : State τ T} {l : Label τ T} (hO : Owned s)
    (h : History capacity s) (hl : ∀ t, l ≠ .leave t true) (hs : Step s l s') :
    History capacity s' := by
  cases hs with
  | call hpc => exact h.call hpc
  | @callClose t hpc => exact h.advance hpc rfl rfl rfl rfl rfl rfl rfl rfl id id
  | @enter t op hm hpc => exact h.advance hpc rfl rfl rfl rfl rfl rfl rfl rfl id id
  | @relock t op timedOut hm hpc htimed => exact h.advance hpc rfl rfl rfl rfl rfl rfl rfl rfl id id
  | @lockClose t hm hpc => exact h.advance hpc rfl rfl rfl rfl rfl rfl rfl rfl id id
  | @pass t op timedOut hpc hp => exact h.advance hpc rfl rfl rfl rfl rfl rfl rfl rfl id id
  | @giveUp t op hpc hp => exact h.advance hpc rfl rfl rfl rfl rfl rfl rfl rfl id id
  | @sleep t op hpc hp => exact h.advance hpc rfl rfl rfl rfl rfl rfl rfl rfl id id
  | @refuse t op success hpc hr =>
    exact h.advance hpc rfl rfl rfl rfl rfl rfl rfl rfl
      (fun hfate => ⟨op, hfate.1, agrees_refusal hfate.2⟩) id
  | @proceed t op success hpc hr => exact h.advance hpc rfl rfl rfl rfl rfl rfl rfl rfl id id
  | @bodyThrows t op hpc =>
    exact h.advance hpc rfl rfl rfl rfl rfl rfl rfl rfl
      (fun hfate => ⟨op, hfate.1, agrees_threw hfate.2⟩) id
  | body hpc hb => exact h.body hpc (hO.available_pos hpc) hb
  | @notifyNone t cv r hpc hno =>
    exact h.advance hpc rfl rfl rfl rfl rfl rfl rfl rfl
      (fun ⟨op, hop, hagrees⟩ => ⟨op, hop, hagrees⟩) id
  | @notifyOne t u op r hpc hu =>
    -- two threads move, the sleeper first
    have hmid : History capacity (s.goto u (.woken op)) :=
      h.advance hu rfl rfl rfl rfl rfl rfl rfl rfl id id
    have hpc' := goto_pc_of_asleep hpc hu (.woken op)
    exact hmid.advance hpc' rfl rfl rfl rfl rfl rfl rfl rfl id id
  | @leave t r arg throws hpc hthrow =>
    cases throws with
    | false => exact h.leave hpc
    | true => exact absurd rfl (hl t)
  | @wake t op hpc => exact h.advance hpc rfl rfl rfl rfl rfl rfl rfl rfl id id
  | @closeSet t hpc => exact h.advance hpc rfl rfl rfl rfl rfl rfl rfl rfl id id
  | @closeNotEmpty t hpc =>
    have hpc' : (s.pc t).wakeOn .notEmpty = .closeNotEmpty := by rw [hpc]; rfl
    exact (h.wakeOn .notEmpty).advance hpc' rfl rfl rfl rfl rfl rfl rfl rfl id id
  | @closeNotFull t hpc =>
    have hpc' : (s.pc t).wakeOn .notFull = .closeNotFull := by rw [hpc]; rfl
    exact (h.wakeOn .notFull).advance hpc' rfl rfl rfl rfl rfl rfl rfl rfl id id

/-- What took effect stays on record. -/
theorem effects_mono {s s' : State τ T} {l : Label τ T} (hs : Step s l s') :
    s.accepted ⊆ s'.accepted ∧ s.removed ⊆ s'.removed := by
  cases hs
  case body => exact ⟨List.subset_append_left _ _, List.subset_append_left _ _⟩
  all_goals exact ⟨List.Subset.refl _, List.Subset.refl _⟩

variable [Fintype τ]

/-- **Run lemma.** The history invariant holds in every state reached without a throw
after a body has taken effect. -/
theorem history_of_reach_of {capacity : ℕ} {ok : State τ T → Label τ T → Prop}
    (hok : ∀ s l, ok s l → ∀ t, l ≠ .leave t true) {s : State τ T}
    (h : (system τ T capacity).Reach ok s) : History capacity s := by
  induction h with
  | init h0 =>
    obtain rfl := h0
    exact history_start capacity
  | step hr hl hs ih => exact history_step (owned_of_reach hr) ih (hok _ _ hl) (next_step hs)

/-- The history invariant holds in every state reached without a throw. -/
theorem history_of_reach {capacity : ℕ} {s : State τ T}
    (h : (system τ T capacity).Reach (fun _ l => l.throws = false) s) : History capacity s := by
  refine history_of_reach_of (fun _ l hl t heq => ?_) h
  subst heq
  cases hl

theorem effects_mono_of_run {capacity : ℕ} {s s' : State τ T} {ls : List (Label τ T)}
    (h : (system τ T capacity).run s ls = some s') :
    s.accepted ⊆ s'.accepted ∧ s.removed ⊆ s'.removed :=
  System.run_invariant
    (I := fun m : State τ T => s.accepted ⊆ m.accepted ∧ s.removed ⊆ m.removed)
    (fun _ _ _ hI hstep =>
      have hmono := effects_mono (next_step hstep)
      ⟨List.Subset.trans hI.1 hmono.1, List.Subset.trans hI.2 hmono.2⟩)
    ⟨List.Subset.refl _, List.Subset.refl _⟩ h

end Step

/-! ### The bounded FIFO -/

/-- Call `c` has returned `r`, or is committed to it. -/
def Answers (s : State τ T) (c : CallId τ) (r : Result T) : Prop :=
  (∃ arg, (c, r, arg) ∈ s.returned) ∨ c.2 = s.done c.1 ∧ (s.pc c.1).outcome = some r

/-- What "exactly-once bounded FIFO" says of a state. -/
structure ExactlyOnce (capacity : ℕ) (s : State τ T) : Prop where
  /-- Accepted elements, in the order of their `push_back`, are the removed
  ones, in the order of their removal, followed by the contents. -/
  fifo : s.accepted.map Prod.snd = s.removed.map Prod.snd ++ s.q.queue
  bound : s.q.queue.length ≤ capacity
  /-- No call stores, removes or is made twice. -/
  onceIn : (s.accepted.map Prod.fst).Nodup
  onceOut : (s.removed.map Prod.fst).Nodup
  onceCalled : (s.called.map Prod.fst).Nodup
  /-- The accepted elements are the arguments of the calls that answer `true`. -/
  stored : ∀ c x, (c, x) ∈ s.accepted ↔
    ∃ op, (c, op) ∈ s.called ∧ op.method.arg = some x ∧ Answers s c (.bool true)
  /-- The removed elements are the ones that calls answer with. -/
  taken : ∀ c x, (c, x) ∈ s.removed ↔ Answers s c (.elem (some x))
  /-- A call that returned `false` or `nullopt` had no effect and still has its
  argument. -/
  refused : ∀ c r arg, (c, r, arg) ∈ s.returned → r = .bool false ∨ r = .elem none →
    NoEffect s c ∧ ∃ op, (c, op) ∈ s.called ∧ arg = op.method.arg

/-- The calls whose effects are on record have answered accordingly. -/
theorem History.answers {capacity : ℕ} {s : State τ T} (h : History capacity s) {c : CallId τ}
    (hc : ¬ NoEffect s c) : ∃ op r arg, (c, op) ∈ s.called ∧ Agrees s c op r arg ∧
      Answers s c r := by
  rcases Nat.lt_trichotomy c.2 (s.done c.1) with hlt | heq | hgt
  · obtain ⟨r, arg, hret⟩ := h.complete c.1 c.2 hlt
    obtain ⟨-, op, hop, hagrees⟩ := h.answered c r arg hret
    exact ⟨op, r, arg, hop, hagrees, .inl ⟨arg, hret⟩⟩
  · obtain ⟨t, n⟩ := c
    obtain rfl : n = s.done t := heq
    cases hpc : s.pc t with
    | idle | closeEntering | closeLocked | closeNotEmpty | closeNotFull =>
      exact absurd (h.fate_at hpc) hc
    | entering op | testing op _ | asleep op | woken op | deciding op _ | mutating op =>
      exact absurd (h.fate_at hpc).2 hc
    | notifying cv r | leaving r arg =>
      obtain ⟨op, hop, hagrees⟩ := h.fate_at hpc
      exact ⟨op, r, _, hop, hagrees, .inr ⟨rfl, by simp [hpc, Pc.outcome]⟩⟩
  · exact absurd (h.future c hgt) hc

/-- Whoever answers `r` has the effects that `r` tells. -/
theorem History.agrees {capacity : ℕ} {s : State τ T} (h : History capacity s) {c : CallId τ}
    {r : Result T} (hc : Answers s c r) : ∃ op arg, (c, op) ∈ s.called ∧ Agrees s c op r arg := by
  rcases hc with ⟨arg, hret⟩ | ⟨heq, hout⟩
  · obtain ⟨-, op, hop, hagrees⟩ := h.answered c r arg hret
    exact ⟨op, arg, hop, hagrees⟩
  · obtain ⟨t, n⟩ := c
    obtain rfl : n = s.done t := heq
    cases hpc : s.pc t with
    | notifying cv r' | leaving r' arg =>
      rw [hpc] at hout
      obtain rfl : r' = r := Option.some.inj hout
      obtain ⟨op, hop, hagrees⟩ := h.fate_at hpc
      exact ⟨op, _, hop, hagrees⟩
    | _ => rw [hpc] at hout; cases hout

/-- A call is of one operation only. -/
theorem History.called_inj {capacity : ℕ} {s : State τ T} (h : History capacity s)
    {c : CallId τ} {op op' : Op T} (hop : (c, op) ∈ s.called) (hop' : (c, op') ∈ s.called) :
    op = op' :=
  (Prod.mk.inj (List.inj_on_of_nodup_map h.onceCalled hop hop' rfl)).2

theorem History.exactlyOnce {capacity : ℕ} {s : State τ T} (h : History capacity s) :
    ExactlyOnce capacity s where
  fifo := h.fifo
  bound := h.capacity ▸ h.bound
  onceIn := h.onceIn
  onceOut := h.onceOut
  onceCalled := h.onceCalled
  stored c x := by
    constructor
    · intro hx
      obtain ⟨op, r, arg, hop, hagrees, hans⟩ := h.answers (c := c) fun hno => (hno x).1 hx
      obtain ⟨rfl, harg⟩ := (hagrees.accepted x).mp hx
      exact ⟨op, hop, harg, hans⟩
    · intro hanswered
      obtain ⟨op, hop, harg, hans⟩ := hanswered
      obtain ⟨op', arg, hop', hagrees⟩ := h.agrees hans
      obtain rfl := h.called_inj hop hop'
      exact (hagrees.accepted x).mpr ⟨rfl, harg⟩
  taken c x := by
    constructor
    · intro hx
      obtain ⟨op, r, arg, hop, hagrees, hans⟩ := h.answers (c := c) fun hno => (hno x).2 hx
      obtain rfl := (hagrees.removed x).mp hx
      exact hans
    · intro hans
      obtain ⟨op, arg, -, hagrees⟩ := h.agrees hans
      exact (hagrees.removed x).mpr rfl
  refused c r arg hret hr := by
    obtain ⟨-, op, hop, hagrees⟩ := h.answered c r arg hret
    refine ⟨fun x => ⟨fun hx => ?_, fun hx => ?_⟩, op, hop, hagrees.untouched hr⟩
    · obtain ⟨rfl, -⟩ := (hagrees.accepted x).mp hx
      simp at hr
    · obtain rfl := (hagrees.removed x).mp hx
      simp at hr

/-- **Exactly-once bounded FIFO.** Every state reached without a throw is that
of a bounded FIFO which every call used as its answer tells; and from there on,
whoever has stored its argument can only return `true`, whoever has removed an
element can only return that element. -/
theorem exactly_once_fifo [Fintype τ] [DecidableEq τ] {capacity : ℕ} {s : State τ T}
    (h : (system τ T capacity).Reach (fun _ l => l.throws = false) s) :
    ExactlyOnce capacity s ∧
    ∀ ls s', (∀ l ∈ ls, l.throws = false) → (system τ T capacity).run s ls = some s' →
      ∀ c r arg, (c, r, arg) ∈ s'.returned →
        (∀ x, (c, x) ∈ s.accepted → r = .bool true) ∧
        ∀ x, (c, x) ∈ s.removed → r = .elem (some x) := by
  refine ⟨(history_of_reach h).exactlyOnce, ?_⟩
  intro ls s' hls hrun c r arg hret
  obtain ⟨hacc, hrem⟩ := effects_mono_of_run hrun
  obtain ⟨-, op, -, hagrees⟩ := (history_of_reach (h.of_run hls hrun)).answered c r arg hret
  exact ⟨fun x hx => ((hagrees.accepted x).mp (hacc hx)).1,
    fun x hx => (hagrees.removed x).mp (hrem hx)⟩

/-- A queue of capacity 1 after a hand-off, with a second push stored. -/
theorem exactly_once_fifo_secondPush :
    ∃ s, (system (Fin 2) ℕ 1).run (.start 1) (handOff ++
        [.call 1 (.push 8), .lock 1 false, .test 1, .decide 1, .body 1 false]) = some s ∧
      s.q.queue = [8] ∧ s.removed = [((0, 0), 7)] ∧ ExactlyOnce 1 s := by
  obtain ⟨s, hrun, hqueue, hremoved⟩ : ∃ s, (system (Fin 2) ℕ 1).run (.start 1) (handOff ++
      [.call 1 (.push 8), .lock 1 false, .test 1, .decide 1, .body 1 false]) = some s ∧
      s.q.queue = [8] ∧ s.removed = [((0, 0), 7)] := ⟨_, rfl, rfl, rfl⟩
  have hreach : (system (Fin 2) ℕ 1).Reach (fun _ l => l.throws = false) s :=
    .of_run (.init rfl) (by decide) hrun
  exact ⟨s, hrun, hqueue, hremoved, (exactly_once_fifo hreach).1⟩

end CcSnippets.BlockingQueue

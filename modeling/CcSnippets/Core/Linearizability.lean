import Mathlib.Data.List.Flatten
import Mathlib.Data.List.Nodup
import CcSnippets.Core.Simulation

/-!
# CcSnippets.Core.Linearizability

Linearizability of concurrent objects, and a proof rule for it.

A **sequential object** (`Object`) says what an operation may do to a state, with
what outcome, and which results its caller may be shown of that outcome. A history of
calls and returns is **linearizable** (`Linearizable`) where its calls can be put in one
order, a run of the sequential object, that contains every call that returned and shows
it the result that it got, and in which a call that returned before another one was made
comes first.

The proof rule goes through the **atomic object** (`Atomic`): the machine that performs
each operation in one step somewhere between its call and its return. Every history of
it is linearizable (`linearizable_of_exec`), and so is every history of a system whose
steps it matches (`linearizable_of_simulates`).
-/

namespace CcSnippets.Core

/-- A sequential object with states `σ`, operations `ο`, outcomes `ε` and results `ρ`. -/
structure Object (σ ο ε ρ : Type*) where
  start : σ
  /-- What an operation may do, and with what outcome. -/
  Does : σ → ο → ε → σ → Prop
  /-- Which results may be shown of an outcome. -/
  Shows : ε → ρ → Prop

/-- What is seen of an object from outside, each call under its own name. -/
inductive CallEvent (κ ο ρ : Type*)
  | call (c : κ) (op : ο)
  | ret (c : κ) (r : ρ)
  deriving DecidableEq, Repr

namespace CallEvent

variable {κ ο ρ : Type*}

/-- The call that starts here. -/
def called : CallEvent κ ο ρ → Option κ
  | call c _ => some c
  | ret _ _ => none

/-- The call that ends here. -/
def returned : CallEvent κ ο ρ → Option κ
  | call _ _ => none
  | ret c _ => some c

/-- The call that an event belongs to. -/
def name : CallEvent κ ο ρ → κ
  | call c _ => c
  | ret c _ => c

end CallEvent

/-- A call in a sequential run: its name, what it does and with what outcome. -/
@[ext]
structure Performed (κ ο ε : Type*) where
  name : κ
  op : ο
  outcome : ε
  deriving DecidableEq, Repr

/-- A history in which every call is made once, and returns at most once and later. -/
structure WellFormed {κ ο ρ : Type*} (h : List (CallEvent κ ο ρ)) : Prop where
  calledOnce : (h.filterMap CallEvent.called).Nodup
  returnedOnce : (h.filterMap CallEvent.returned).Nodup
  callFirst : ∀ c r, .ret c r ∈ h → ∃ op, List.Sublist [.call c op, .ret c r] h

namespace Object

variable {σ κ ο ε ρ : Type*}

/-- A sequential run from one state to another. -/
def Legal (S : Object σ ο ε ρ) : σ → List (Performed κ ο ε) → σ → Prop
  | s, [], s' => s = s'
  | s, p :: ps, s' => ∃ m, S.Does s p.op p.outcome m ∧ S.Legal m ps s'

/-- One more operation at the end of a sequential run. -/
theorem Legal.concat {S : Object σ ο ε ρ} {ps : List (Performed κ ο ε)} {p : Performed κ ο ε}
    {s m s' : σ} (h : S.Legal s ps m) (hp : S.Does m p.op p.outcome s') :
    S.Legal s (ps ++ [p]) s' := by
  induction ps generalizing s with
  | nil =>
    obtain rfl : s = m := h
    exact ⟨s', hp, rfl⟩
  | cons q ps ih =>
    obtain ⟨n, hn, hrest⟩ := h
    exact ⟨n, hn, ih hrest⟩

/-- `lin` is a sequential run that explains the history `h`. -/
structure Linearizes (S : Object σ ο ε ρ) (h : List (CallEvent κ ο ρ))
    (lin : List (Performed κ ο ε)) : Prop where
  /-- It is a run of the object. -/
  legal : ∃ s, S.Legal S.start lin s
  /-- No call is in it twice. -/
  once : (lin.map Performed.name).Nodup
  /-- Only calls of the history are in it. -/
  called : ∀ p ∈ lin, .call p.name p.op ∈ h
  /-- Every call that returned is in it, and was shown its outcome. -/
  answered : ∀ c r, .ret c r ∈ h → ∃ p ∈ lin, p.name = c ∧ S.Shows p.outcome r
  /-- A call that returned before another one was made comes first. -/
  inOrder : ∀ c r d op, List.Sublist [.ret c r, .call d op] h → d ∈ lin.map Performed.name →
    List.Sublist [c, d] (lin.map Performed.name)

/-- **Linearizability** of a history. -/
def Linearizable (S : Object σ ο ε ρ) (h : List (CallEvent κ ο ρ)) : Prop :=
  WellFormed h ∧ ∃ lin : List (Performed κ ο ε), S.Linearizes h lin

/-! ### Refinement -/

/-- What one object does another one does too, and shows at least the same results. -/
structure Refines {σ' ε' : Type*} (S : Object σ ο ε ρ) (S' : Object σ' ο ε' ρ)
    (R : σ → σ' → Prop) : Prop where
  start : R S.start S'.start
  does : ∀ {s s' t op e}, R s t → S.Does s op e s' →
    ∃ e' t', S'.Does t op e' t' ∧ R s' t' ∧ ∀ r, S.Shows e r → S'.Shows e' r

/-- A run of the one object is a run of the other. -/
theorem Refines.legal {σ' ε' : Type*} {S : Object σ ο ε ρ} {S' : Object σ' ο ε' ρ}
    {R : σ → σ' → Prop} (h : S.Refines S' R) {lin : List (Performed κ ο ε)} {s s' : σ} {t : σ'}
    (hR : R s t) (hlin : S.Legal s lin s') :
    ∃ lin' t', S'.Legal t lin' t' ∧ lin'.map Performed.name = lin.map Performed.name ∧
      (∀ p' ∈ lin', ∃ p ∈ lin, p.name = p'.name ∧ p.op = p'.op) ∧
      ∀ p ∈ lin, ∃ p' ∈ lin', p'.name = p.name ∧
        ∀ r, S.Shows p.outcome r → S'.Shows p'.outcome r := by
  induction lin generalizing s t with
  | nil => exact ⟨[], t, rfl, rfl, nofun, nofun⟩
  | cons p ps ih =>
    obtain ⟨m, hdoes, hrest⟩ := hlin
    obtain ⟨e', m', hdoes', hR', hshows⟩ := h.does hR hdoes
    obtain ⟨ps', t', hlegal, hnames, hback, hforth⟩ := ih hR' hrest
    refine ⟨⟨p.name, p.op, e'⟩ :: ps', t', ⟨m', hdoes', hlegal⟩, ?_, ?_, ?_⟩
    · rw [List.map_cons, List.map_cons, hnames]
    · intro q' hq'
      rcases List.mem_cons.mp hq' with rfl | hq'
      · exact ⟨p, List.mem_cons_self, rfl, rfl⟩
      · obtain ⟨q, hq, hsame⟩ := hback q' hq'
        exact ⟨q, List.mem_cons_of_mem p hq, hsame⟩
    · intro q hq
      rcases List.mem_cons.mp hq with rfl | hq
      · exact ⟨_, List.mem_cons_self, rfl, hshows⟩
      · obtain ⟨q', hq', hsame⟩ := hforth q hq
        exact ⟨q', List.mem_cons_of_mem _ hq', hsame⟩

/-- **What is linearizable to an object is linearizable to what it refines.** -/
theorem Refines.linearizable {σ' ε' : Type*} {S : Object σ ο ε ρ} {S' : Object σ' ο ε' ρ}
    {R : σ → σ' → Prop} (h : S.Refines S' R) {hist : List (CallEvent κ ο ρ)}
    (hlin : S.Linearizable hist) : S'.Linearizable hist := by
  obtain ⟨hwell, lin, hl⟩ := hlin
  obtain ⟨s, hlegal⟩ := hl.legal
  obtain ⟨lin', t, hlegal', hnames, hback, hforth⟩ := h.legal h.start hlegal
  refine ⟨hwell, lin', ⟨t, hlegal'⟩, hnames ▸ hl.once, ?_, ?_, ?_⟩
  · intro p' hp'
    obtain ⟨p, hp, hname, hop⟩ := hback p' hp'
    rw [← hname, ← hop]
    exact hl.called p hp
  · intro c r hr
    obtain ⟨p, hp, hname, hshows⟩ := hl.answered c r hr
    obtain ⟨p', hp', hname', hshows'⟩ := hforth p hp
    exact ⟨p', hp', hname'.trans hname, hshows' r hshows⟩
  · intro c r d op hsub hd
    rw [hnames] at hd ⊢
    exact hl.inOrder c r d op hsub hd

/-! ### Calls that do not overlap -/

/-- The history of calls made one after the other. -/
def inTurn (ps : List (Performed κ ο ρ)) : List (CallEvent κ ο ρ) :=
  ps.flatMap fun p => [.call p.name p.op, .ret p.name p.outcome]

theorem call_mem_inTurn {ps : List (Performed κ ο ρ)} {c : κ} {op : ο} :
    .call c op ∈ inTurn ps ↔ ∃ p ∈ ps, p.name = c ∧ p.op = op := by
  simp only [inTurn, List.mem_flatMap, List.mem_cons, CallEvent.call.injEq, reduceCtorEq,
    List.not_mem_nil, or_false]
  exact exists_congr fun p => and_congr_right fun _ => and_congr eq_comm eq_comm

theorem ret_mem_inTurn {ps : List (Performed κ ο ρ)} {p : Performed κ ο ρ} (hp : p ∈ ps) :
    .ret p.name p.outcome ∈ inTurn ps :=
  List.mem_flatMap.mpr ⟨p, hp, by simp⟩

/-- A list without repetitions is determined by its elements and their order. -/
theorem eq_of_pairs {α : Type*} {l l' : List α} (hl : l.Nodup) (hl' : l'.Nodup)
    (hmem : ∀ a, a ∈ l' ↔ a ∈ l) (hpairs : ∀ a b, List.Sublist [a, b] l → List.Sublist [a, b] l') :
    l' = l := by
  induction l generalizing l' with
  | nil => exact List.eq_nil_iff_forall_not_mem.mpr fun a ha => nomatch (hmem a).mp ha
  | cons x xs ih =>
    obtain ⟨hx, hxs⟩ := List.nodup_cons.mp hl
    cases l' with
    | nil => exact nomatch (hmem x).mpr List.mem_cons_self
    | cons y ys =>
      obtain ⟨hy, hys⟩ := List.nodup_cons.mp hl'
      -- the two lists start alike, or `y` would come after `x`
      have hyx : y = x := by
        by_contra hne
        have hyxs : y ∈ xs := List.mem_of_ne_of_mem hne ((hmem y).mp List.mem_cons_self)
        have hsub := hpairs x y ((List.singleton_sublist.mpr hyxs).cons_cons x)
        exact hy ((hsub.of_cons_of_ne (Ne.symm hne)).subset (by simp))
      subst hyx
      refine congrArg (y :: ·) (ih hxs hys (fun a => ?_) fun a b hab => ?_)
      · by_cases ha : a = y
        · exact iff_of_false (ha ▸ hy) (ha ▸ hx)
        · simpa [ha] using hmem a
      · have hne : a ≠ y := fun heq => hx (heq ▸ hab.subset List.mem_cons_self)
        exact (hpairs a b (hab.cons y)).of_cons_of_ne hne

/-- A sequential run that explains calls made one after the other consists of these calls in
this order. -/
theorem Linearizes.inTurn_eq {S : Object σ ο ε ε} (hshows : ∀ e r, S.Shows e r → e = r)
    {ps lin : List (Performed κ ο ε)} (hl : S.Linearizes (inTurn ps) lin)
    (hnames : (ps.map Performed.name).Nodup) : lin = ps := by
  have hinj := List.inj_on_of_nodup_map hl.once
  -- every call is there, as it is in the history
  have hps : ∀ q ∈ ps, q ∈ lin := by
    intro q hq
    obtain ⟨p, hp, hname, hout⟩ := hl.answered _ _ (ret_mem_inTurn hq)
    obtain ⟨q', hq', hname', hop'⟩ := call_mem_inTurn.mp (hl.called p hp)
    obtain rfl := List.inj_on_of_nodup_map hnames hq' hq (hname'.trans hname)
    exact Performed.ext hname hop'.symm (hshows _ _ hout) ▸ hp
  have hlin : ∀ p ∈ lin, p ∈ ps := by
    intro p hp
    obtain ⟨q, hq, hname, -⟩ := call_mem_inTurn.mp (hl.called p hp)
    exact hinj (hps q hq) hp hname ▸ hq
  refine eq_of_pairs hnames.of_map hl.once.of_map (fun p => ⟨hlin p, hps p⟩) fun p q hpq => ?_
  have hhist : List.Sublist [.ret p.name p.outcome, .call q.name q.op] (inTurn ps) := by
    have hpair : List.Sublist [.ret p.name p.outcome, .call q.name q.op] (inTurn [p, q]) :=
      ((((List.nil_sublist _).cons_cons _).cons_cons _).cons _)
    exact hpair.trans (hpq.flatMap _)
  have hq : q ∈ lin := hps q (hpq.subset (by simp))
  obtain ⟨l, hsub, heq⟩ := List.sublist_map_iff.mp
    (hl.inOrder _ _ _ _ hhist (List.mem_map_of_mem hq))
  obtain ⟨p', l', rfl, hp', heq'⟩ := List.map_eq_cons_iff.mp heq.symm
  obtain ⟨q', l'', rfl, hq', heq''⟩ := List.map_eq_cons_iff.mp heq'
  obtain rfl := List.map_eq_nil_iff.mp heq''
  obtain rfl := hinj (hsub.subset (by simp)) (hps p (hpq.subset (by simp))) hp'
  obtain rfl := hinj (hsub.subset (by simp)) hq hq'
  exact hsub

/-- **Calls that do not overlap are a run of the object.** -/
theorem Linearizable.legal_of_inTurn {S : Object σ ο ε ε} (hshows : ∀ e r, S.Shows e r → e = r)
    {ps : List (Performed κ ο ε)} (h : S.Linearizable (inTurn ps))
    (hnames : (ps.map Performed.name).Nodup) : ∃ s, S.Legal S.start ps s := by
  obtain ⟨-, lin, hl⟩ := h
  obtain rfl := hl.inTurn_eq hshows hnames
  exact hl.legal

end Object

/-! ### The atomic object -/

/-- How far a call is. -/
inductive Phase (ο ε : Type*)
  | fresh
  | called (op : ο)
  | performed (outcome : ε)
  | returned
  deriving DecidableEq, Repr

/-- The object, and how far every call is. -/
structure Atomic (σ κ ο ε : Type*) where
  obj : σ
  phase : κ → Phase ο ε

namespace Atomic

variable {σ κ ο ε ρ : Type*}

/-- The object as constructed, before any call. -/
def start (S : Object σ ο ε ρ) : Atomic σ κ ο ε where
  obj := S.start
  phase _ := .fresh

section Steps

variable [DecidableEq κ]

/-- One step of the atomic object, and what is seen of it. -/
inductive Step (S : Object σ ο ε ρ) (a : Atomic σ κ ο ε) :
    List (CallEvent κ ο ρ) → Atomic σ κ ο ε → Prop
  /-- A call is made. -/
  | call {c : κ} {op : ο} : a.phase c = .fresh →
      Step S a [.call c op] { a with phase := Function.update a.phase c (.called op) }
  /-- It is performed, which nobody sees. -/
  | perform {c : κ} {op : ο} {e : ε} {s : σ} : a.phase c = .called op → S.Does a.obj op e s →
      Step S a [] { obj := s, phase := Function.update a.phase c (.performed e) }
  /-- It returns. -/
  | ret {c : κ} {e : ε} {r : ρ} : a.phase c = .performed e → S.Shows e r →
      Step S a [.ret c r] { a with phase := Function.update a.phase c .returned }

/-- Any number of steps, and the history of them. -/
inductive Exec (S : Object σ ο ε ρ) (a : Atomic σ κ ο ε) :
    List (CallEvent κ ο ρ) → Atomic σ κ ο ε → Prop
  | refl : Exec S a [] a
  | step {h h' : List (CallEvent κ ο ρ)} {b b' : Atomic σ κ ο ε} : Exec S a h b →
      Step S b h' b' → Exec S a (h ++ h') b'

theorem Step.exec {S : Object σ ο ε ρ} {a b : Atomic σ κ ο ε} {h : List (CallEvent κ ο ρ)}
    (hs : Step S a h b) : Exec S a h b := .step .refl hs

theorem Exec.trans {S : Object σ ο ε ρ} {a b b' : Atomic σ κ ο ε}
    {h h' : List (CallEvent κ ο ρ)} (hab : Exec S a h b) (hb : Exec S b h' b') :
    Exec S a (h ++ h') b' := by
  induction hb with
  | refl => rwa [List.append_nil]
  | step _ hs ih =>
    rw [← List.append_assoc]
    exact .step ih hs

end Steps

/-! ### Its histories are linearizable -/

/-- Two elements in this order, the second one possibly the new one. -/
theorem pair_sublist_concat {α : Type*} {x y z : α} {l : List α} :
    List.Sublist [x, y] (l ++ [z]) ↔ List.Sublist [x, y] l ∨ (x ∈ l ∧ y = z) := by
  have hrev : List.Sublist [x, y] l ↔ List.Sublist [y, x] l.reverse :=
    ⟨fun h => h.reverse, fun h => by simpa using h.reverse⟩
  rw [← List.reverse_sublist, List.reverse_append, List.reverse_singleton,
    List.singleton_append, List.sublist_cons_iff, hrev]
  refine or_congr Iff.rfl ⟨fun h => ?_, fun h => ?_⟩
  · obtain ⟨r, hr, hsub⟩ := h
    obtain ⟨rfl, rfl⟩ := List.cons_eq_cons.mp hr
    exact ⟨List.mem_reverse.mp (List.singleton_sublist.mp hsub), rfl⟩
  · obtain ⟨hx, rfl⟩ := h
    exact ⟨[x], rfl, List.singleton_sublist.mpr (List.mem_reverse.mpr hx)⟩

/-- What the history and the order of effects so far say of one call. -/
def PhaseOk (h : List (CallEvent κ ο ρ)) (lin : List (Performed κ ο ε)) (c : κ) :
    Phase ο ε → Prop
  | .fresh => ∀ ev ∈ h, ev.name ≠ c
  | .called op => .call c op ∈ h ∧ (∀ r, .ret c r ∉ h) ∧ c ∉ lin.map Performed.name
  | .performed e => (∃ op, ⟨c, op, e⟩ ∈ lin) ∧ ∀ r, .ret c r ∉ h
  | .returned => True

/-- The order in which the calls so far were performed linearizes the history so far. -/
structure Explained (S : Object σ ο ε ρ) (h : List (CallEvent κ ο ρ))
    (lin : List (Performed κ ο ε)) (a : Atomic σ κ ο ε) : Prop where
  wellFormed : WellFormed h
  legal : S.Legal S.start lin a.obj
  once : (lin.map Performed.name).Nodup
  called : ∀ p ∈ lin, .call p.name p.op ∈ h
  answered : ∀ c r, .ret c r ∈ h → ∃ p ∈ lin, p.name = c ∧ S.Shows p.outcome r
  inOrder : ∀ c r d op, List.Sublist [.ret c r, .call d op] h → d ∈ lin.map Performed.name →
    List.Sublist [c, d] (lin.map Performed.name)
  phases : ∀ c, PhaseOk h lin c (a.phase c)

variable {S : Object σ ο ε ρ} {a : Atomic σ κ ο ε} {h : List (CallEvent κ ο ρ)}
  {lin : List (Performed κ ο ε)} {c d : κ}

/-- A call that nothing was seen of was not performed. -/
theorem Explained.not_performed (hx : Explained S h lin a)
    (hc : ∀ ev ∈ h, ev.name ≠ c) : c ∉ lin.map Performed.name := by
  intro hmem
  obtain ⟨p, hp, rfl⟩ := List.mem_map.mp hmem
  exact hc _ (hx.called p hp) rfl

theorem wellFormed_call (hw : WellFormed h) (hc : ∀ ev ∈ h, ev.name ≠ c) (op : ο) :
    WellFormed (h ++ [.call c op]) where
  calledOnce := by
    rw [List.filterMap_append]
    refine List.nodup_append.mpr ⟨hw.calledOnce, by simp [CallEvent.called], ?_⟩
    intro x hx y hy hxy
    obtain rfl : y = c := by simpa [CallEvent.called] using hy
    obtain ⟨ev, hev, hcalled⟩ := List.mem_filterMap.mp hx
    cases ev with
    | call x' op' =>
      obtain rfl : x' = x := Option.some.inj hcalled
      exact hc _ hev hxy
    | ret _ _ => cases hcalled
  returnedOnce := by
    rw [List.filterMap_append, List.filterMap_cons_none rfl, List.filterMap_nil, List.append_nil]
    exact hw.returnedOnce
  callFirst x r hx := by
    have hold : CallEvent.ret x r ∈ h := by simpa using hx
    obtain ⟨op', hsub⟩ := hw.callFirst x r hold
    exact ⟨op', hsub.trans (List.sublist_append_left h _)⟩

theorem wellFormed_ret (hw : WellFormed h) {op : ο} (hcall : .call c op ∈ h)
    (hc : ∀ r, .ret c r ∉ h) (r : ρ) : WellFormed (h ++ [.ret c r]) where
  calledOnce := by
    rw [List.filterMap_append, List.filterMap_cons_none rfl, List.filterMap_nil, List.append_nil]
    exact hw.calledOnce
  returnedOnce := by
    rw [List.filterMap_append]
    refine List.nodup_append.mpr ⟨hw.returnedOnce, by simp [CallEvent.returned], ?_⟩
    intro x hx y hy hxy
    obtain rfl : y = c := by simpa [CallEvent.returned] using hy
    obtain ⟨ev, hev, hreturned⟩ := List.mem_filterMap.mp hx
    cases ev with
    | call _ _ => cases hreturned
    | ret x' r' =>
      obtain rfl : x' = x := Option.some.inj hreturned
      exact hc r' (hxy ▸ hev)
  callFirst x r' hx := by
    rcases List.mem_append.mp hx with hold | hnew
    · obtain ⟨op', hsub⟩ := hw.callFirst x r' hold
      exact ⟨op', hsub.trans (List.sublist_append_left h _)⟩
    · obtain ⟨rfl, rfl⟩ : x = c ∧ r' = r := by simpa using hnew
      exact ⟨op, pair_sublist_concat.mpr (.inr ⟨hcall, rfl⟩)⟩

/-- What is said of a call does not change with an event of another call. -/
theorem PhaseOk.event {phase : Phase ο ε} (hd : PhaseOk h lin d phase)
    {ev : CallEvent κ ο ρ} (hne : ev.name ≠ d) : PhaseOk (h ++ [ev]) lin d phase := by
  have hnot : ∀ r, .ret d r ∉ h → CallEvent.ret d r ∉ h ++ [ev] := by
    intro r hr hmem
    rcases List.mem_append.mp hmem with hold | hnew
    · exact hr hold
    · rw [← List.mem_singleton.mp hnew] at hne
      exact hne rfl
  cases phase with
  | fresh =>
    intro ev' hev'
    rcases List.mem_append.mp hev' with hold | hnew
    · exact hd ev' hold
    · exact List.mem_singleton.mp hnew ▸ hne
  | called op => exact ⟨List.mem_append_left _ hd.1, fun r => hnot r (hd.2.1 r), hd.2.2⟩
  | performed e => exact ⟨hd.1, fun r => hnot r (hd.2 r)⟩
  | returned => trivial

/-- What is said of a call does not change when another one is performed. -/
theorem PhaseOk.perform {phase : Phase ο ε} (hd : PhaseOk h lin d phase)
    {p : Performed κ ο ε} (hne : p.name ≠ d) : PhaseOk h (lin ++ [p]) d phase := by
  cases phase with
  | fresh => exact hd
  | called op =>
    refine ⟨hd.1, hd.2.1, ?_⟩
    rw [List.map_append, List.mem_append, not_or]
    exact ⟨hd.2.2, by simpa using Ne.symm hne⟩
  | performed e =>
    obtain ⟨op, hop⟩ := hd.1
    exact ⟨⟨op, List.mem_append_left _ hop⟩, hd.2⟩
  | returned => trivial

theorem explained_start (S : Object σ ο ε ρ) :
    Explained S ([] : List (CallEvent κ ο ρ)) [] (start S) where
  wellFormed := ⟨.nil, .nil, nofun⟩
  legal := rfl
  once := .nil
  called := nofun
  answered := nofun
  inOrder _ _ _ _ hsub := nomatch hsub
  phases _ := nofun

variable [DecidableEq κ]

/-- A new call is not yet in the order. -/
theorem Explained.call (hx : Explained S h lin a) (hc : a.phase c = .fresh) (op : ο) :
    Explained S (h ++ [.call c op]) lin
      { a with phase := Function.update a.phase c (.called op) } := by
  have hfresh : ∀ ev ∈ h, ev.name ≠ c := by
    have hphase := hx.phases c
    rwa [hc] at hphase
  have hnot := hx.not_performed hfresh
  refine ⟨wellFormed_call hx.wellFormed hfresh op, hx.legal, hx.once,
    fun p hp => List.mem_append_left _ (hx.called p hp), ?_, ?_, ?_⟩
  · intro x r hr
    exact hx.answered x r (by simpa using hr)
  · intro x r y op' hsub hy
    rcases pair_sublist_concat.mp hsub with hold | ⟨-, hnew⟩
    · exact hx.inOrder x r y op' hold hy
    · cases hnew
      exact absurd hy hnot
  · refine (Function.forall_update_iff a.phase fun d ph => PhaseOk _ lin d ph).mpr ⟨?_, ?_⟩
    · refine ⟨by simp, fun r hr => ?_, hnot⟩
      have hold : CallEvent.ret c r ∈ h := by simpa using hr
      exact hfresh _ hold rfl
    · exact fun d hd => (hx.phases d).event (Ne.symm hd)

/-- A call comes last in the order when it is performed. -/
theorem Explained.perform (hx : Explained S h lin a) {op : ο} {e : ε} {s : σ}
    (hc : a.phase c = .called op) (hdoes : S.Does a.obj op e s) :
    Explained S h (lin ++ [⟨c, op, e⟩])
      { obj := s, phase := Function.update a.phase c (.performed e) } := by
  obtain ⟨hcall, hret, hnot⟩ : PhaseOk h lin c (.called op) := hc ▸ hx.phases c
  refine ⟨hx.wellFormed, hx.legal.concat hdoes, ?_, ?_, ?_, ?_, ?_⟩
  · rw [List.map_append]
    exact List.nodup_append.mpr ⟨hx.once, by simp, fun x hmem y hy hxy => hnot (by
      obtain rfl : y = c := by simpa using hy
      exact hxy ▸ hmem)⟩
  · intro p hp
    rcases List.mem_append.mp hp with hold | hnew
    · exact hx.called p hold
    · obtain rfl := List.mem_singleton.mp hnew
      exact hcall
  · intro x r hr
    obtain ⟨p, hp, hshows⟩ := hx.answered x r hr
    exact ⟨p, List.mem_append_left _ hp, hshows⟩
  · intro x r y op' hsub hy
    rw [List.map_append, List.map_singleton] at hy ⊢
    rcases List.mem_append.mp hy with hold | hnew
    · exact (hx.inOrder x r y op' hsub hold).trans (List.sublist_append_left _ _)
    · -- whatever has returned was performed before
      obtain ⟨p, hp, rfl, -⟩ := hx.answered x r (hsub.subset List.mem_cons_self)
      exact pair_sublist_concat.mpr
        (.inr ⟨List.mem_map_of_mem hp, List.mem_singleton.mp hnew⟩)
  · refine (Function.forall_update_iff a.phase fun d ph => PhaseOk h _ d ph).mpr ⟨?_, ?_⟩
    · exact ⟨⟨op, by simp⟩, hret⟩
    · exact fun d hd => (hx.phases d).perform (Ne.symm hd)

/-- A return shows what the call did. -/
theorem Explained.ret (hx : Explained S h lin a) {e : ε} {r : ρ}
    (hc : a.phase c = .performed e) (hshows : S.Shows e r) :
    Explained S (h ++ [.ret c r]) lin
      { a with phase := Function.update a.phase c .returned } := by
  obtain ⟨⟨op, hop⟩, hret⟩ : PhaseOk h lin c (.performed e) := hc ▸ hx.phases c
  refine ⟨wellFormed_ret hx.wellFormed (hx.called _ hop) hret r, hx.legal, hx.once,
    fun p hp => List.mem_append_left _ (hx.called p hp), ?_, ?_, ?_⟩
  · intro x r' hr
    rcases List.mem_append.mp hr with hold | hnew
    · exact hx.answered x r' hold
    · obtain ⟨rfl, rfl⟩ : x = c ∧ r' = r := by simpa using hnew
      exact ⟨_, hop, rfl, hshows⟩
  · intro x r' y op' hsub hy
    rcases pair_sublist_concat.mp hsub with hold | ⟨-, hnew⟩
    · exact hx.inOrder x r' y op' hold hy
    · cases hnew
  · refine (Function.forall_update_iff a.phase fun d ph => PhaseOk _ lin d ph).mpr ⟨trivial, ?_⟩
    exact fun d hd => (hx.phases d).event (Ne.symm hd)

/-- **Every history of the atomic object is linearizable.** -/
theorem linearizable_of_exec (hexec : Exec S (start S) h a) : S.Linearizable h := by
  suffices hx : ∃ lin, Explained S h lin a by
    obtain ⟨lin, hx⟩ := hx
    exact ⟨hx.wellFormed, lin, ⟨a.obj, hx.legal⟩, hx.once, hx.called, hx.answered, hx.inOrder⟩
  induction hexec with
  | refl => exact ⟨[], explained_start S⟩
  | step _ hs ih =>
    obtain ⟨lin, hx⟩ := ih
    cases hs with
    | call hc => exact ⟨lin, hx.call hc _⟩
    | perform hc hdoes =>
      rw [List.append_nil]
      exact ⟨_, hx.perform hc hdoes⟩
    | ret hc hshows => exact ⟨lin, hx.ret hc hshows⟩

/-- **Linearizability rule.** Where an invariant `I` and a map to the atomic object are
such that every step that meets `ok` is matched, every history of such steps is
linearizable. -/
theorem linearizable_of_everyStep {Q ι : Type*} {M : System Q ι}
    {observe : Q → ι → Q → List (CallEvent κ ο ρ)} {ok : Q → ι → Prop} {I : Q → Prop}
    {abs : Q → Atomic σ κ ο ε}
    (hstep : ∀ s l s', I s → ok s l → M.next s l = some s' →
      I s' ∧ Exec S (abs s) (observe s l s') (abs s'))
    {s s' : Q} {ls : List ι} (hI : I s) (hstart : abs s = start S) (hok : M.EveryStep ok s ls)
    (hrun : M.run s ls = some s') : S.Linearizable (M.trace observe s ls) := by
  suffices hexec : Exec S (abs s) (M.trace observe s ls) (abs s') by
    rw [hstart] at hexec
    exact linearizable_of_exec hexec
  clear hstart
  induction ls generalizing s with
  | nil =>
    obtain rfl : s = s' := Option.some.inj hrun
    exact .refl
  | cons l ls ih =>
    obtain ⟨m, hm, hrest⟩ := System.run_cons_eq_some.mp hrun
    obtain ⟨hIm, hexec⟩ := hstep s l m hI hok.1 hm
    rw [System.trace_cons hm]
    exact hexec.trans (ih hIm (hok.2 m hm) hrest)

/-- The rule for any steps. -/
theorem linearizable_of_simulates {Q ι : Type*} {M : System Q ι}
    {observe : Q → ι → Q → List (CallEvent κ ο ρ)} {I : Q → Prop} {abs : Q → Atomic σ κ ο ε}
    (hstep : ∀ s l s', I s → M.next s l = some s' →
      I s' ∧ Exec S (abs s) (observe s l s') (abs s'))
    {s s' : Q} {ls : List ι} (hI : I s) (hstart : abs s = start S)
    (hrun : M.run s ls = some s') : S.Linearizable (M.trace observe s ls) := by
  have hok : ∀ ls s, M.EveryStep System.anyStep s ls := by
    intro ls
    induction ls with
    | nil => exact fun _ => trivial
    | cons l ls ih => exact fun _ => ⟨trivial, fun m _ => ih m⟩
  exact linearizable_of_everyStep (fun s l s' hs _ => hstep s l s' hs) hI hstart (hok ls s) hrun

/-! ### Threads that make one call after the other -/

section Threads

variable {τ : Type*} [DecidableEq τ]

/-- How far the call number `c.2` of thread `c.1` is, where each thread has made `count`
calls before the one that it is in. -/
def phaseAt (count : τ → ℕ) (phase : τ → Phase ο ε) (c : τ × ℕ) : Phase ο ε :=
  if c.2 < count c.1 then .returned else if c.2 = count c.1 then phase c.1 else .fresh

/-- The atomic object called by threads, each call named by its thread and its number. -/
def ofThreads (obj : σ) (count : τ → ℕ) (phase : τ → Phase ο ε) : Atomic σ (τ × ℕ) ο ε where
  obj := obj
  phase := phaseAt count phase

variable {obj obj' : σ} {count : τ → ℕ} {phase : τ → Phase ο ε} {t : τ}

omit [DecidableEq τ] in
@[simp] theorem phaseAt_now : phaseAt count phase (t, count t) = phase t := by
  simp [phaseAt]

omit [DecidableEq τ] in
theorem ofThreads_start (S : Object σ ο ε ρ) :
    ofThreads S.start (fun _ : τ => 0) (fun _ => .fresh) = start S := by
  have hphase : (phaseAt (fun _ : τ => 0) fun _ => (.fresh : Phase ο ε)) = fun _ => .fresh := by
    funext c
    simp [phaseAt]
  rw [ofThreads, hphase, start]

/-- A thread moves on in its call. -/
theorem phaseAt_update (x : Phase ο ε) :
    phaseAt count (Function.update phase t x) =
      Function.update (phaseAt count phase) (t, count t) x := by
  funext c
  obtain ⟨u, n⟩ := c
  by_cases hc : (u, n) = (t, count t)
  · obtain ⟨rfl, rfl⟩ := Prod.mk.inj hc
    simp
  · rw [Function.update_of_ne hc]
    by_cases hu : u = t
    · subst hu
      have hn : n ≠ count u := fun hn => hc (by rw [hn])
      simp [phaseAt, hn]
    · simp [phaseAt, Function.update_of_ne hu]

/-- A call of a thread is over, and the next one has not been made. -/
theorem phaseAt_return :
    phaseAt (Function.update count t (count t + 1)) (Function.update phase t .fresh) =
      Function.update (phaseAt count phase) (t, count t) .returned := by
  funext c
  obtain ⟨u, n⟩ := c
  by_cases hu : u = t
  · subst hu
    by_cases hn : n = count u
    · subst hn
      simp [phaseAt]
    · have hc : (u, n) ≠ (u, count u) := fun hc => hn (Prod.mk.inj hc).2
      rw [Function.update_of_ne hc]
      simp only [phaseAt, Function.update_self, hn, if_false]
      split_ifs <;> first | rfl | omega
  · have hc : (u, n) ≠ (t, count t) := fun hc => hu (Prod.mk.inj hc).1
    rw [Function.update_of_ne hc]
    simp [phaseAt, Function.update_of_ne hu]

variable {S : Object σ ο ε ρ}

theorem exec_call (hphase : phase t = .fresh) (op : ο) :
    Exec S (ofThreads obj count phase) [.call (t, count t) op]
      (ofThreads obj count (Function.update phase t (.called op))) := by
  rw [ofThreads, ofThreads, phaseAt_update]
  exact Step.exec (.call (phaseAt_now.trans hphase))

theorem exec_perform {op : ο} {e : ε} (hphase : phase t = .called op)
    (hdoes : S.Does obj op e obj') :
    Exec S (ofThreads obj count phase) []
      (ofThreads obj' count (Function.update phase t (.performed e))) := by
  rw [ofThreads, ofThreads, phaseAt_update]
  exact Step.exec (.perform (phaseAt_now.trans hphase) hdoes)

theorem exec_ret {e : ε} {r : ρ} (hphase : phase t = .performed e) (hshows : S.Shows e r) :
    Exec S (ofThreads obj count phase) [.ret (t, count t) r]
      (ofThreads obj (Function.update count t (count t + 1)) (Function.update phase t .fresh)) := by
  rw [ofThreads, ofThreads, phaseAt_return]
  exact Step.exec (.ret (phaseAt_now.trans hphase) hshows)

/-- A call is performed as it returns. -/
theorem exec_perform_ret {op : ο} {e : ε} {r : ρ} (hphase : phase t = .called op)
    (hdoes : S.Does obj op e obj') (hshows : S.Shows e r) :
    Exec S (ofThreads obj count phase) [.ret (t, count t) r]
      (ofThreads obj' (Function.update count t (count t + 1))
        (Function.update phase t .fresh)) := by
  have hret : Exec S (ofThreads obj' count (Function.update phase t (.performed e)))
      [.ret (t, count t) r] _ := exec_ret (Function.update_self _ _ _) hshows
  rw [Function.update_idem] at hret
  exact (exec_perform hphase hdoes).trans hret

end Threads

end Atomic

end CcSnippets.Core

import Mathlib.Logic.Function.Basic
import CcSnippets.Null.SpscRingBuffer.Delivery

/-!
# CcSnippets.Null.SpscRingBuffer.Observers

`size`, `is_full` and `is_empty` under concurrency.

An observer makes two loads, and either side may move between them any number of
times. What it compares is the pushes at the one load with the pops at the other
(`size_mod`). If only one side moved in between, that is what the buffer held at
one of the two loads, so the answer is **true of a moment of the call**: always
for the producer and the consumer, who do not move while they observe. For a third
thread both may move, and all three answers can be wrong.

Loads and stores are sequentially consistent here (`Label.Current`).
-/

namespace CcSnippets.SpscRingBuffer

open CcSnippets.Core

variable {T : Type*}

/-- Subtraction of `size_t`. -/
def wrapSub (a b : ℕ) : ℕ := wrap (a + (2 ^ 64 - b))

/-- What `size` makes of its two loads. -/
def size (capacity currHead currTail : ℕ) : ℕ :=
  if currHead ≥ currTail then wrapSub currHead currTail
  else wrapSub (wrap (capacity + 1)) (wrapSub currTail currHead)

/-- What `is_full` makes of its two loads. -/
def isFull (capacity currHead currTail : ℕ) : Bool := nextIndex capacity currHead == currTail

/-- What `is_empty` makes of its two loads. -/
def isEmpty (currHead currTail : ℕ) : Bool := currHead == currTail

/-- The threads: the two owners of an index, and any others. -/
inductive Thread
  | producer
  | consumer
  | other (i : ℕ)
  deriving DecidableEq, Repr

inductive Observer
  | size
  | isFull
  | isEmpty
  deriving DecidableEq, Repr

inductive Answer
  | size (n : ℕ)
  | isFull (b : Bool)
  | isEmpty (b : Bool)
  deriving DecidableEq, Repr

/-- What the observer returns after the two loads. -/
def Observer.answer (capacity currHead currTail : ℕ) : Observer → Answer
  | .size => .size (SpscRingBuffer.size capacity currHead currTail)
  | .isFull => .isFull (SpscRingBuffer.isFull capacity currHead currTail)
  | .isEmpty => .isEmpty (SpscRingBuffer.isEmpty currHead currTail)

/-- How many pushes and pops have been performed. -/
structure Counts where
  pushes : ℕ
  pops : ℕ
  deriving DecidableEq, Repr

/-- The number of elements held. -/
def Counts.elements (n : Counts) : ℕ := n.pushes - n.pops

def State.counts (s : State T) : Counts := ⟨s.pushed.length, s.popped.length⟩

/-- The load that a call has made, and when. -/
inductive Loaded
  | nothing
  | head (currHead : ℕ) (counts : Counts)
  | tail (currTail : ℕ) (counts : Counts)
  deriving DecidableEq, Repr

/-- A call of an observer. -/
structure Call where
  observer : Observer
  loaded : Loaded
  /-- The numbers of elements held since the start of the call. -/
  held : List ℕ
  deriving DecidableEq, Repr

/-- A call that has returned. -/
structure Return where
  thread : Thread
  answer : Answer
  /-- When it loaded `head_`, and when `tail_`. -/
  atHead : Counts
  atTail : Counts
  /-- The numbers of elements held from its start to its end. -/
  held : List ℕ
  deriving DecidableEq, Repr

/-- A buffer and its observers. -/
structure Observed (T : Type*) where
  buffer : State T
  call : Thread → Option Call
  returned : List Return

inductive Action (T : Type*)
  /-- A step of `push` or `pop`. -/
  | access (l : Label T)
  | call (th : Thread) (observer : Observer)
  /-- `head_.load (relaxed)`. -/
  | loadHead (th : Thread)
  /-- `tail_.load (relaxed)`. -/
  | loadTail (th : Thread)
  deriving DecidableEq, Repr

/-- The load returns the value stored last. -/
def Label.Current (s : State T) : Label T → Prop
  | .pushLoadTail j => j + 1 = s.tails.length
  | .popLoadHead j => j + 1 = s.heads.length
  | .popRead m => m = s.writes.length
  | _ => True

instance (s : State T) : ∀ l : Label T, Decidable (l.Current s)
  | .pushLoadTail _ | .popLoadHead _ | .popRead _ => inferInstanceAs (Decidable (_ = _))
  | .push _ | .pushLoadHead | .pushWrite | .pushStoreHead | .pop | .popLoadTail | .popStoreTail =>
    inferInstanceAs (Decidable True)

/-- The thread that takes the step. -/
def Label.thread : Label T → Thread
  | .push _ | .pushLoadHead | .pushLoadTail _ | .pushWrite | .pushStoreHead => .producer
  | .pop | .popLoadTail | .popLoadHead _ | .popRead _ | .popStoreTail => .consumer

/-- The thread is in no `push` or `pop`. -/
def State.free (s : State T) : Thread → Bool
  | .producer => match s.producer with
    | .idle => true
    | _ => false
  | .consumer => match s.consumer with
    | .idle => true
    | _ => false
  | .other _ => true

namespace Observed

/-- A new buffer, unobserved. -/
def start : Observed T where
  buffer := .start
  call _ := none
  returned := []

variable (capacity : ℕ) (s : Observed T)

/-- The buffer makes a step: every call in progress sees what it holds then. -/
def accessed (b : State T) : Observed T :=
  { s with
    buffer := b
    call := fun th => (s.call th).map fun c => { c with held := c.held ++ [b.counts.elements] } }

/-- The call of a thread becomes `c`. -/
def setCall (th : Thread) (c : Option Call) : Observed T :=
  { s with call := Function.update s.call th c }

/-- The call `c` of a thread returns, with what it loaded and when. -/
def returns (th : Thread) (c : Call) (currHead : ℕ) (atHead : Counts) (currTail : ℕ)
    (atTail : Counts) : Observed T :=
  { s.setCall th none with
    returned := s.returned ++
      [⟨th, c.observer.answer capacity currHead currTail, atHead, atTail, c.held⟩] }

/-- The successor of a state. `size` loads `head_` first; the operands of the `==`
in the two others are evaluated in either order. -/
def next [Inhabited T] : Action T → Option (Observed T)
  | .access l =>
    if (s.call l.thread).isNone ∧ l.Current s.buffer then
      ((system T capacity).next s.buffer l).map s.accessed
    else none
  | .call th observer =>
    if (s.call th).isNone ∧ s.buffer.free th then
      some (s.setCall th (some ⟨observer, .nothing, [s.buffer.counts.elements]⟩))
    else none
  | .loadHead th =>
    match s.call th, s.buffer.heads.getLast? with
    | some c, some (currHead, _) =>
      match c.loaded with
      | .nothing => some (s.setCall th (some { c with loaded := .head currHead s.buffer.counts }))
      | .tail currTail atTail =>
        some (s.returns capacity th c currHead s.buffer.counts currTail atTail)
      | .head _ _ => none
    | _, _ => none
  | .loadTail th =>
    match s.call th, s.buffer.tails.getLast? with
    | some c, some currTail =>
      match c.loaded with
      | .nothing =>
        if c.observer = .size then none
        else some (s.setCall th (some { c with loaded := .tail currTail s.buffer.counts }))
      | .head currHead atHead =>
        some (s.returns capacity th c currHead atHead currTail s.buffer.counts)
      | .tail _ _ => none
    | _, _ => none

end Observed

/-- A buffer with a producer, a consumer and any number of observers. -/
def observedSystem (T : Type*) [Inhabited T] (capacity : ℕ) : System (Observed T) (Action T) where
  init s := s = .start
  next s a := s.next capacity a

/-! ### What two loads tell -/

theorem wrapSub_of_le {a b : ℕ} (hb : b ≤ a) (ha : a < 2 ^ 64) : wrapSub a b = a - b := by
  unfold wrapSub wrap
  rw [show a + (2 ^ 64 - b) = a - b + 2 ^ 64 by omega, Nat.add_mod_right,
    Nat.mod_eq_of_lt (by omega)]

/-- `size` counts from the pops at the one load to the pushes at the other, modulo
`Capacity + 1`. -/
theorem size_mod {capacity : ℕ} (hcap : capacity + 1 < 2 ^ 64) (k j : ℕ) :
    size capacity (k % (capacity + 1)) (j % (capacity + 1)) ≤ capacity ∧
      (size capacity (k % (capacity + 1)) (j % (capacity + 1)) + j) % (capacity + 1) =
        k % (capacity + 1) := by
  have hhead : k % (capacity + 1) < capacity + 1 := Nat.mod_lt _ (Nat.succ_pos _)
  have htail : j % (capacity + 1) < capacity + 1 := Nat.mod_lt _ (Nat.succ_pos _)
  have hsum : ∀ n, (n + j) % (capacity + 1) = (n + j % (capacity + 1)) % (capacity + 1) :=
    fun n => (Nat.add_mod_mod n j _).symm
  rw [hsum]
  unfold size
  split
  · rename_i hge
    rw [wrapSub_of_le hge (by omega), Nat.sub_add_cancel hge, Nat.mod_mod]
    exact ⟨by omega, rfl⟩
  · rename_i hlt
    have hle : k % (capacity + 1) ≤ j % (capacity + 1) := by omega
    rw [show wrap (capacity + 1) = capacity + 1 from Nat.mod_eq_of_lt hcap,
      wrapSub_of_le hle (by omega), wrapSub_of_le (by omega) hcap]
    refine ⟨by omega, ?_⟩
    rw [show capacity + 1 - (j % (capacity + 1) - k % (capacity + 1)) + j % (capacity + 1) =
      k % (capacity + 1) + (capacity + 1) by omega, Nat.add_mod_right, Nat.mod_mod]

/-- The pushes and the pops of one moment. -/
def Counts.Possible (capacity : ℕ) (n : Counts) : Prop :=
  n.pops ≤ n.pushes ∧ n.pushes ≤ n.pops + capacity

/-- The answer is true of one of the numbers of elements held. -/
def Answer.Truthful (capacity : ℕ) (held : List ℕ) : Answer → Prop
  | .size n => n ∈ held
  | .isFull b => b = true → capacity ∈ held
  | .isEmpty b => b = true → 0 ∈ held

instance (capacity : ℕ) (held : List ℕ) : ∀ a : Answer, Decidable (a.Truthful capacity held)
  | .size n => inferInstanceAs (Decidable (n ∈ held))
  | .isFull b => inferInstanceAs (Decidable (b = true → capacity ∈ held))
  | .isEmpty b => inferInstanceAs (Decidable (b = true → 0 ∈ held))

/-- Loads that show the pushes and the pops of one moment give an answer that is
true of it. -/
theorem truthful_of_possible {capacity : ℕ} (hcap : capacity + 1 < 2 ^ 64) {n : Counts}
    (hn : n.Possible capacity) {held : List ℕ} (hheld : n.elements ∈ held) (ob : Observer) :
    (ob.answer capacity (n.pushes % (capacity + 1)) (n.pops % (capacity + 1))).Truthful capacity
      held := by
  obtain ⟨hle, hroom⟩ := hn
  cases ob with
  | size =>
    obtain ⟨hsize, hmod⟩ := size_mod hcap n.pushes n.pops
    -- both counts are at most `Capacity` ahead of the pops
    have hsum : size capacity (n.pushes % (capacity + 1)) (n.pops % (capacity + 1)) + n.pops =
        n.pushes := by
      rcases Nat.le_total n.pushes (size capacity (n.pushes % (capacity + 1))
        (n.pops % (capacity + 1)) + n.pops) with hl | hl
      · exact eq_of_mod_eq hl (by omega) hmod
      · exact (eq_of_mod_eq hl (by omega) hmod.symm).symm
    have heq : size capacity (n.pushes % (capacity + 1)) (n.pops % (capacity + 1)) =
        n.elements := by
      unfold Counts.elements
      omega
    exact (congrArg (· ∈ held) heq).mpr hheld
  | isFull =>
    intro hfull
    have hmod : (n.pops + (capacity + 1)) % (capacity + 1) = (n.pushes + 1) % (capacity + 1) := by
      rw [Nat.add_mod_right, ← nextIndex_mod hcap]
      exact (beq_iff_eq.mp hfull).symm
    have heq := eq_of_mod_eq (by omega) (by omega) hmod
    rwa [show capacity = n.elements by unfold Counts.elements; omega]
  | isEmpty =>
    intro hempty
    have heq := eq_of_mod_eq hle (by omega) (beq_iff_eq.mp hempty)
    rwa [show 0 = n.elements by unfold Counts.elements; omega]

/-! ### The invariant -/

/-- The moment `n` was one of those in which `held` elements were held. -/
structure Counts.Seen (capacity : ℕ) (held : List ℕ) (n : Counts) : Prop where
  possible : n.Possible capacity
  mem : n.elements ∈ held

/-- The thread has not moved between the two moments. -/
structure Thread.Still (th : Thread) (m n : Counts) : Prop where
  pushes : th = .producer → m.pushes = n.pushes
  pops : th = .consumer → m.pops = n.pops

/-- A load made shows the index of a moment of the call. -/
def Loaded.Ok (capacity : ℕ) (held : List ℕ) (th : Thread) (now : Counts) : Loaded → Prop
  | .nothing => True
  | .head currHead n =>
    currHead = n.pushes % (capacity + 1) ∧ n.Seen capacity held ∧ th.Still n now
  | .tail currTail n =>
    currTail = n.pops % (capacity + 1) ∧ n.Seen capacity held ∧ th.Still n now

structure Call.Ok (capacity : ℕ) (th : Thread) (now : Counts) (c : Call) : Prop where
  now_mem : now.elements ∈ c.held
  loaded : c.loaded.Ok capacity c.held th now

structure Return.Ok (capacity : ℕ) (r : Return) : Prop where
  answer : ∃ ob : Observer, r.answer =
    ob.answer capacity (r.atHead.pushes % (capacity + 1)) (r.atTail.pops % (capacity + 1))
  atHead : r.atHead.Seen capacity r.held
  atTail : r.atTail.Seen capacity r.held
  still : r.thread.Still r.atHead r.atTail

/-- The buffer is on its counters, and every call and return with it. -/
structure Watched (capacity : ℕ) (s : Observed T) : Prop where
  buffer : Tracked capacity s.buffer
  calls : ∀ th c, s.call th = some c → c.Ok capacity th s.buffer.counts
  returned : ∀ r ∈ s.returned, r.Ok capacity

theorem watched_start (capacity : ℕ) : Watched capacity (.start : Observed T) where
  buffer := tracked_start capacity
  calls th c hc := by cases hc
  returned r hr := by cases hr

theorem Thread.Still.symm {th : Thread} {m n : Counts} (h : th.Still m n) : th.Still n m :=
  ⟨fun hth => (h.pushes hth).symm, fun hth => (h.pops hth).symm⟩

theorem Thread.Still.trans {th : Thread} {m n k : Counts} (h : th.Still m n) (h' : th.Still n k) :
    th.Still m k :=
  ⟨fun hth => (h.pushes hth).trans (h'.pushes hth), fun hth => (h.pops hth).trans (h'.pops hth)⟩

theorem Counts.Seen.append {capacity : ℕ} {held : List ℕ} {n : Counts} (h : n.Seen capacity held)
    (held' : List ℕ) : n.Seen capacity (held ++ held') :=
  ⟨h.possible, List.mem_append_left _ h.mem⟩

theorem Tracked.possible {capacity : ℕ} {s : State T} (h : Tracked capacity s) :
    s.counts.Possible capacity := by
  refine ⟨h.delivered.length_le, ?_⟩
  exact h.room.trans (Nat.add_le_add_right h.seenTail_le capacity)

/-- A step of one thread moves no other. -/
theorem still_of_step [Inhabited T] {capacity : ℕ} {s s' : State T} {l : Label T}
    (h : Step capacity s l s') {th : Thread} (hth : th ≠ l.thread) :
    th.Still s.counts s'.counts := by
  cases h with
  | pushStoreHead _ => exact ⟨fun heq => absurd heq hth, fun _ => rfl⟩
  | popStoreTail _ => exact ⟨fun _ => rfl, fun heq => absurd heq hth⟩
  | _ => exact ⟨fun _ => rfl, fun _ => rfl⟩

namespace Watched

variable {capacity : ℕ} {s : Observed T}

/-- A call is set that is as it should be, or ended. -/
theorem setCall (h : Watched capacity s) (th : Thread) {c : Option Call}
    (hc : ∀ d, c = some d → d.Ok capacity th s.buffer.counts) :
    Watched capacity (s.setCall th c) := by
  refine ⟨h.buffer, fun th' d hd => ?_, h.returned⟩
  have hupdate : Function.update s.call th c th' = some d := hd
  by_cases hth : th' = th
  · rw [hth, Function.update_self] at hupdate
    exact hth ▸ hc d hupdate
  · rw [Function.update_of_ne hth] at hupdate
    exact h.calls th' d hupdate

theorem returns (h : Watched capacity s) {th : Thread} {c : Call} {currHead currTail : ℕ}
    {atHead atTail : Counts} (hhead : currHead = atHead.pushes % (capacity + 1))
    (htail : currTail = atTail.pops % (capacity + 1)) (hatHead : atHead.Seen capacity c.held)
    (hatTail : atTail.Seen capacity c.held) (hstill : th.Still atHead atTail) :
    Watched capacity (s.returns capacity th c currHead atHead currTail atTail) := by
  have hcleared : Watched capacity (s.setCall th none) := h.setCall th fun d hd => by cases hd
  refine ⟨hcleared.buffer, hcleared.calls, fun r hr => ?_⟩
  rcases List.mem_append.mp hr with hold | hnew
  · exact h.returned r hold
  · obtain rfl := List.mem_singleton.mp hnew
    exact ⟨⟨c.observer, by rw [hhead, htail]⟩, hatHead, hatTail, hstill⟩

/-- The moment of a load is one of the call. -/
theorem seen_now (h : Watched capacity s) {th : Thread} {c : Call} (hc : s.call th = some c) :
    s.buffer.counts.Seen capacity c.held :=
  ⟨h.buffer.possible, (h.calls th c hc).now_mem⟩

theorem accessed [Inhabited T] (hcap : capacity + 1 < 2 ^ 64) (h : Watched capacity s)
    {l : Label T} {b : State T} (hfree : s.call l.thread = none) (hb : Step capacity s.buffer l b) :
    Watched capacity (s.accessed b) := by
  refine ⟨tracked_step hcap h.buffer hb, fun th d hd => ?_, h.returned⟩
  obtain ⟨c, hc, rfl⟩ := Option.map_eq_some_iff.mp hd
  have hth : th ≠ l.thread := by
    intro heq
    subst heq
    exact absurd (hfree.symm.trans hc) (by simp)
  have hstill := still_of_step hb hth
  refine ⟨List.mem_append_right _ List.mem_cons_self, ?_⟩
  have hloaded := (h.calls th c hc).loaded
  show c.loaded.Ok capacity (c.held ++ [b.counts.elements]) th b.counts
  cases hl : c.loaded with
  | nothing => trivial
  | head i n | tail i n =>
    rw [hl] at hloaded
    obtain ⟨hi, hseen, hmoved⟩ := hloaded
    exact ⟨hi, hseen.append _, hmoved.trans hstill⟩

end Watched

/-- **Every step keeps the calls truthful.** -/
theorem watched_next [Inhabited T] {capacity : ℕ} (hcap : capacity + 1 < 2 ^ 64)
    {s s' : Observed T} {a : Action T} (h : Watched capacity s)
    (hs : s.next capacity a = some s') : Watched capacity s' := by
  cases a with
  | access l =>
    simp only [Observed.next] at hs
    split at hs
    · rename_i hok
      obtain ⟨b, hb, rfl⟩ := Option.map_eq_some_iff.mp hs
      exact h.accessed hcap (Option.isNone_iff_eq_none.mp hok.1) (next_step hb)
    · cases hs
  | call th observer =>
    simp only [Observed.next] at hs
    split at hs
    · obtain rfl := Option.some.inj hs
      refine h.setCall th fun d hd => ?_
      obtain rfl := Option.some.inj hd
      exact ⟨List.mem_singleton_self _, trivial⟩
    · cases hs
  | loadHead th =>
    simp only [Observed.next] at hs
    split at hs
    · rename_i c currHead before hc hlast
      have hhead := h.buffer.head_last hlast
      have hok := h.calls th c hc
      have hnow := h.seen_now hc
      split at hs
      · obtain rfl := Option.some.inj hs
        refine h.setCall th fun d hd => ?_
        obtain rfl := Option.some.inj hd
        exact ⟨hok.now_mem, hhead, hnow, fun _ => rfl, fun _ => rfl⟩
      · rename_i hl
        obtain rfl := Option.some.inj hs
        have hloaded := hok.loaded
        rw [hl] at hloaded
        obtain ⟨htail, hseen, hstill⟩ := hloaded
        exact h.returns hhead htail hnow hseen hstill.symm
      · cases hs
    · cases hs
  | loadTail th =>
    simp only [Observed.next] at hs
    split at hs
    · rename_i c currTail hc hlast
      have htail := h.buffer.tail_last hlast
      have hok := h.calls th c hc
      have hnow := h.seen_now hc
      split at hs
      · split at hs
        · cases hs
        · obtain rfl := Option.some.inj hs
          refine h.setCall th fun d hd => ?_
          obtain rfl := Option.some.inj hd
          exact ⟨hok.now_mem, htail, hnow, fun _ => rfl, fun _ => rfl⟩
      · rename_i hl
        obtain rfl := Option.some.inj hs
        have hloaded := hok.loaded
        rw [hl] at hloaded
        obtain ⟨hhead, hseen, hstill⟩ := hloaded
        exact h.returns hhead htail hseen hnow hstill
      · cases hs
    · cases hs

theorem watched_of_reach [Inhabited T] {capacity : ℕ} (hcap : capacity + 1 < 2 ^ 64)
    {s : Observed T} (h : (observedSystem T capacity).Reachable s) : Watched capacity s :=
  h.invariant (I := Watched capacity) (fun _ h0 => h0 ▸ watched_start capacity)
    fun _ _ _ _ hw _ hs => watched_next hcap hw hs

/-! ### The answers -/

/-- **The answers that are true of a moment of the call.** A call of the producer or
of the consumer, and a call between whose loads no push or no pop was performed,
returns a number of elements that the buffer held during the call, and reports it
full or empty only if it was. Every call of `size` returns at most `Capacity`, and
counts modulo `Capacity + 1` from the pops at one load to the pushes at the other. -/
theorem observers_truthful [Inhabited T] {capacity : ℕ} (hcap : capacity + 1 < 2 ^ 64)
    {s : Observed T} (h : (observedSystem T capacity).Reachable s) {r : Return}
    (hr : r ∈ s.returned) :
    (r.thread = .producer ∨ r.thread = .consumer ∨ r.atHead.pushes = r.atTail.pushes ∨
        r.atHead.pops = r.atTail.pops → r.answer.Truthful capacity r.held) ∧
      ∀ n, r.answer = .size n → n ≤ capacity ∧
        (n + r.atTail.pops) % (capacity + 1) = r.atHead.pushes % (capacity + 1) := by
  obtain ⟨⟨ob, hanswer⟩, hhead, htail, hstill⟩ := (watched_of_reach hcap h).returned r hr
  constructor
  · intro hquiet
    have honce : r.atHead.pushes = r.atTail.pushes ∨ r.atHead.pops = r.atTail.pops := by
      rcases hquiet with hth | hth | hpushes | hpops
      · exact .inl (hstill.pushes hth)
      · exact .inr (hstill.pops hth)
      · exact .inl hpushes
      · exact .inr hpops
    rw [hanswer]
    rcases honce with hpushes | hpops
    · rw [hpushes]
      exact truthful_of_possible hcap htail.possible htail.mem ob
    · rw [← hpops]
      exact truthful_of_possible hcap hhead.possible hhead.mem ob
  · intro n hn
    rw [hanswer] at hn
    cases ob with
    | size =>
      obtain rfl := Answer.size.inj hn
      exact size_mod hcap _ _
    | isFull | isEmpty => cases hn

/-- The consumer calls `size`, and a push comes between its loads. -/
theorem observers_truthful_consumer :
    ∃ s r, (observedSystem ℕ 3).run .start
        [.access (.push 7), .access .pushLoadHead, .access (.pushLoadTail 0), .access .pushWrite,
          .access .pushStoreHead, .call .consumer .size, .loadHead .consumer, .access (.push 8),
          .access .pushLoadHead, .access (.pushLoadTail 0), .access .pushWrite,
          .access .pushStoreHead, .loadTail .consumer] = some s ∧
      s.returned = [r] ∧ r.thread = .consumer ∧ r.answer.Truthful 3 r.held := by
  obtain ⟨s, r, hrun, hr, hth⟩ : ∃ s r, (observedSystem ℕ 3).run .start
      [.access (.push 7), .access .pushLoadHead, .access (.pushLoadTail 0), .access .pushWrite,
        .access .pushStoreHead, .call .consumer .size, .loadHead .consumer, .access (.push 8),
        .access .pushLoadHead, .access (.pushLoadTail 0), .access .pushWrite,
        .access .pushStoreHead, .loadTail .consumer] = some s ∧
      s.returned = [r] ∧ r.thread = .consumer := ⟨_, _, rfl, rfl, rfl⟩
  have hmem : r ∈ s.returned := hr ▸ List.mem_singleton_self r
  exact ⟨s, r, hrun, hr, hth,
    (observers_truthful (by decide) (System.Reach.run (.init rfl) hrun) hmem).1 (.inr (.inl hth))⟩

/-- **A third thread can be told what never was.** Of a buffer for three elements that
always holds one or two, it hears that it is empty, that it holds three, and that it
is full: both sides moved between its loads. -/
theorem third_thread_misled :
    ∃ s, (observedSystem ℕ 3).run .start
        [.access (.push 7), .access .pushLoadHead, .access (.pushLoadTail 0), .access .pushWrite,
          .access .pushStoreHead,
          .call (.other 0) .isEmpty, .call (.other 1) .size, .call (.other 2) .isFull,
          .loadHead (.other 0), .loadHead (.other 1), .loadHead (.other 2),
          .access (.push 8), .access .pushLoadHead, .access (.pushLoadTail 0), .access .pushWrite,
          .access .pushStoreHead, .access .pop, .access .popLoadTail, .access (.popLoadHead 2),
          .access (.popRead 2), .access .popStoreTail, .loadTail (.other 0),
          .access (.push 9), .access .pushLoadHead, .access (.pushLoadTail 1), .access .pushWrite,
          .access .pushStoreHead, .access .pop, .access .popLoadTail, .access (.popLoadHead 3),
          .access (.popRead 3), .access .popStoreTail, .loadTail (.other 1),
          .loadTail (.other 2)] = some s ∧
      s.returned.map Return.answer = [.isEmpty true, .size 3, .isFull true] ∧
      ∀ r ∈ s.returned, ¬ r.answer.Truthful 3 r.held := by
  refine ⟨_, rfl, rfl, ?_⟩
  -- the three calls that have returned, each with the numbers held during it
  show ∀ r ∈ ([⟨.other 0, .isEmpty true, ⟨1, 0⟩, ⟨2, 1⟩, [1, 1, 1, 1, 1, 2, 2, 2, 2, 2, 1]⟩,
      ⟨.other 1, .size 3, ⟨1, 0⟩, ⟨3, 2⟩,
        [1, 1, 1, 1, 1, 2, 2, 2, 2, 2, 1, 1, 1, 1, 1, 2, 2, 2, 2, 2, 1]⟩,
      ⟨.other 2, .isFull true, ⟨1, 0⟩, ⟨3, 2⟩,
        [1, 1, 1, 1, 1, 2, 2, 2, 2, 2, 1, 1, 1, 1, 1, 2, 2, 2, 2, 2, 1]⟩] : List Return),
    ¬ r.answer.Truthful 3 r.held
  decide

end CcSnippets.SpscRingBuffer

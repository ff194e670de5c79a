import CcSnippets.Null.SpscRingBuffer.Observers
import CcSnippets.Null.SpscRingBuffer.RaceFree

/-!
# CcSnippets.Null.SpscRingBuffer.Unheard

None of the four memory orders of `spsc_ring_buffer.h` that matter **can be weaker**. Where
one side's stores do not release, or the other side's loads of them do not acquire, that
other side never hears of anything the first one does (`Unheard`), so its next access
to the same slot races.
-/

namespace CcSnippets.SpscRingBuffer.Ordered

open CcSnippets.Core

variable {T : Type*} [Inhabited T] {o : Orders} {capacity : ℕ}

/-- Under these orders the slots are never raced for: in any run, or in any without stale
loads. Where some of the orders are `seq_cst`, the code has at least the runs without
stale loads and at most all of them. -/
def Orders.Safe (T : Type*) [Inhabited T] (stale : Bool) (o : Orders) : Prop :=
  ∀ capacity, capacity + 1 < 2 ^ 64 → ∀ s : State T,
    (system T o capacity).Reach (fun s l => stale = false → l.Current s.buffer) s → RaceFree s

/-- One push, and a pop that finds it. -/
def firstPop (T : Type*) [Inhabited T] : List (Label T) :=
  [.push default, .pushLoadHead, .pushLoadTail 0, .pushWrite, .pushStoreHead,
    .pop, .popLoadTail, .popLoadHead 1]

/-- With two slots, the third push comes back to the slot of the first. -/
def thirdPush (T : Type*) [Inhabited T] : List (Label T) :=
  [.popStoreTail,
    .push default, .pushLoadHead, .pushLoadTail 1, .pushWrite, .pushStoreHead,
    .pop, .popLoadTail, .popLoadHead 2, .popRead 2, .popStoreTail,
    .push default, .pushLoadHead, .pushLoadTail 2]

/-- The recorded events have happened: their numbers are positive. -/
theorem recorded_pos {s : State T} (h : (system T o capacity).Reachable s) :
    (∀ w ∈ s.slotWrites, 0 < w.2.2) ∧ ∀ w ∈ s.slotReads, 0 < w.2.2 := by
  refine h.invariant (I := fun s : State T => (∀ w ∈ s.slotWrites, 0 < w.2.2) ∧
    ∀ w ∈ s.slotReads, 0 < w.2.2) (fun s h0 => ?_) fun s l s' _ hs _ hnext => ?_
  · obtain rfl : s = .start := h0
    refine ⟨fun w hw => ?_, fun w hw => ?_⟩ <;> cases hw
  · obtain ⟨b, -, rfl⟩ := Option.map_eq_some_iff.mp hnext
    have hnow : ∀ (side : Side) (slots : Option ℕ) w,
        w ∈ slots.toList.map (fun i => (i, (s.memory.tick side).now side)) → 0 < w.2.2 := by
      intro side slots w hw
      obtain ⟨i, -, rfl⟩ := List.mem_map.mp hw
      exact Memory.now_pos _ _
    refine ⟨fun w hw => ?_, fun w hw => ?_⟩
    · rcases List.mem_append.mp hw with hold | hnew
      · exact hs.1 w hold
      · cases l with
        | pushWrite => exact hnow _ _ w hnew
        | _ => cases hnew
    · rcases List.mem_append.mp hw with hold | hnew
      · exact hs.2 w hold
      · cases l with
        | popRead m => exact hnow _ _ w hnew
        | _ => cases hnew

/-- What is recorded stays. -/
theorem slotReads_grow {s s' : State T} {ls : List (Label T)}
    (h : (system T o capacity).run s ls = some s') : s.slotReads <+: s'.slotReads :=
  System.run_invariant (I := fun s' : State T => s.slotReads <+: s'.slotReads)
    (fun m l m' hm hnext => by
      obtain ⟨b, -, rfl⟩ := Option.map_eq_some_iff.mp hnext
      exact hm.trans (List.prefix_append _ _))
    (List.prefix_refl _) h

/-- Side `b` has not heard of anything `a` did: not from the index it stores itself, and
not from `a`'s index `x` where `a` releases nothing (`quiet`). -/
structure Unheard (m : Memory Side Index ℕ) (a b : Side) (x : Index) (quiet : Prop) : Prop where
  view : m.view b (.inl a) = 0
  own : ∀ y, y ≠ x → ∀ i, m.releasedAt y i (.inl a) = 0
  index : quiet → ∀ i, m.releasedAt x i (.inl a) = 0

namespace Unheard

variable {m : Memory Side Index ℕ} {a b : Side} {x y : Index} {quiet : Prop}

theorem start (values : Index → ℕ) : Unheard (.start values) a b x quiet := by
  have hstart : ∀ y i, Memory.releasedAt (τ := Side) (.start values) y i (.inl a) = 0 := by
    intro y i
    cases i <;> rfl
  exact ⟨rfl, fun y _ => hstart y, fun _ => hstart x⟩

theorem learn (h : Unheard m a b x quiet) {v : View Side Index} (hv : v (.inl a) = 0) :
    Unheard (m.learn b v) a b x quiet where
  view := by rw [Memory.learn_view_self, Pi.sup_apply, h.view, hv]; rfl
  own := h.own
  index := h.index

theorem learn_of_ne (h : Unheard m a b x quiet) {t : Side} (ht : b ≠ t) (v : View Side Index) :
    Unheard (m.learn t v) a b x quiet where
  view := by rw [Memory.learn_view_of_ne m ht, h.view]
  own := h.own
  index := h.index

theorem tick (h : Unheard m a b x quiet) (hab : a ≠ b) (t : Side) :
    Unheard (m.tick t) a b x quiet := by
  by_cases ht : b = t
  · subst ht
    exact h.learn (Function.update_of_ne (by simpa using hab) _ _)
  · exact h.learn_of_ne ht _

theorem see (h : Unheard m a b x quiet) (t : Side) (y : Index) (i : ℕ) :
    Unheard (m.see t y i) a b x quiet := by
  by_cases ht : b = t
  · subst ht
    exact h.learn (Function.update_of_ne (by simp) _ _)
  · exact h.learn_of_ne ht _

/-- The other side may load what it likes, -/
theorem load_of_ne (h : Unheard m a b x quiet) (hab : a ≠ b) (order : MemoryOrder) (y : Index)
    (i : ℕ) : Unheard (m.load order a y i) a b x quiet :=
  ((h.tick hab a).see a y i).learn_of_ne hab.symm _

/-- and this side what releases nothing to it, or without acquiring. -/
theorem load (h : Unheard m a b x quiet) (hab : a ≠ b) {order : MemoryOrder} {i : ℕ}
    (hdeaf : order.acquires = true → m.releasedAt y i (.inl a) = 0) :
    Unheard (m.load order b y i) a b x quiet := by
  refine ((h.tick hab b).see b y i).learn ?_
  split
  · exact hdeaf ‹_›
  · rfl

theorem append (h : Unheard m a b x quiet) {msg : Message Side Index ℕ}
    (hmsg : y ≠ x ∨ quiet → msg.released (.inl a) = 0) :
    Unheard (m.append y msg) a b x quiet := by
  have hreleased : ∀ i, y ≠ x ∨ quiet → m.releasedAt y i (.inl a) = 0 →
      (m.append y msg).releasedAt y i (.inl a) = 0 := by
    intro i hy hold
    rcases Nat.lt_trichotomy i (m.history y).length with hlt | rfl | hgt
    · rwa [Memory.append_releasedAt_of_lt m y msg hlt]
    · rw [Memory.append_releasedAt_self]
      exact hmsg hy
    · unfold Memory.releasedAt
      rw [Memory.append_history_self, List.getElem?_eq_none (by simp; omega)]
      rfl
  refine ⟨h.view, fun z hz i => ?_, fun hquiet i => ?_⟩
  · by_cases hzy : z = y
    · subst hzy
      exact hreleased i (.inl hz) (h.own z hz i)
    · rw [Memory.append_releasedAt_of_ne m hzy]
      exact h.own z hz i
  · by_cases hxy : x = y
    · subst hxy
      exact hreleased i (.inr hquiet) (h.index hquiet i)
    · rw [Memory.append_releasedAt_of_ne m hxy]
      exact h.index hquiet i

/-- This side stores its own index, -/
theorem store (h : Unheard m a b x quiet) (hab : a ≠ b) (order : MemoryOrder) (value : ℕ) :
    Unheard (m.store order b y value) a b x quiet := by
  have hseen := (h.tick hab b).see b y (m.history y).length
  refine hseen.append fun _ => ?_
  dsimp only
  split
  · exact hseen.view
  · rfl

/-- and the other side its index. -/
theorem store_index (h : Unheard m a b x (quiet)) (hab : a ≠ b) {order : MemoryOrder}
    (hquiet : quiet → order.releases = false) (value : ℕ) :
    Unheard (m.store order a x value) a b x quiet := by
  refine ((h.tick hab a).see a x (m.history x).length).append fun hq => ?_
  rcases hq with hne | hq
  · exact absurd rfl hne
  · dsimp only
    rw [if_neg (by rw [hquiet hq]; decide)]
    rfl

end Unheard

/-- Without a release or an acquire at `head_`, the consumer never hears of the producer. -/
theorem consumer_unheard (ho : ¬ (o.pushStore.releases = true ∧ o.popLoad.acquires = true))
    {s : State T} (h : (system T o capacity).Reachable s) :
    Unheard s.memory .producer .consumer .head (o.pushStore.releases = false) := by
  refine h.invariant (I := fun s : State T =>
    Unheard s.memory .producer .consumer .head (o.pushStore.releases = false))
    (fun s h0 => ?_) fun s l s' _ hs _ hnext => ?_
  · obtain rfl : s = .start := h0
    exact .start _
  · obtain ⟨b, -, rfl⟩ := Option.map_eq_some_iff.mp hnext
    have hne : Side.producer ≠ Side.consumer := by decide
    show Unheard (effect o capacity s.memory s.buffer l) _ _ _ _
    cases l with
    | push item | pop => exact hs
    | pushLoadHead | pushLoadTail j => exact hs.load_of_ne hne _ _ _
    | pushWrite | popRead m => exact hs.tick hne _
    | pushStoreHead =>
      dsimp only [effect]
      split
      · exact hs.store_index hne id _
      · exact hs
    | popLoadTail => exact hs.load hne fun _ => hs.own _ (by decide) _
    | popLoadHead j =>
      refine hs.load hne fun hacquires => hs.index ?_ j
      exact Bool.eq_false_of_not_eq_true fun hreleases => ho ⟨hreleases, hacquires⟩
    | popStoreTail =>
      dsimp only [effect]
      split
      · exact hs.store hne _ _
      · exact hs

/-- Without a release or an acquire at `tail_`, the producer never hears of the consumer. -/
theorem producer_unheard (ho : ¬ (o.popStore.releases = true ∧ o.pushLoad.acquires = true))
    {s : State T} (h : (system T o capacity).Reachable s) :
    Unheard s.memory .consumer .producer .tail (o.popStore.releases = false) := by
  refine h.invariant (I := fun s : State T =>
    Unheard s.memory .consumer .producer .tail (o.popStore.releases = false))
    (fun s h0 => ?_) fun s l s' _ hs _ hnext => ?_
  · obtain rfl : s = .start := h0
    exact .start _
  · obtain ⟨b, -, rfl⟩ := Option.map_eq_some_iff.mp hnext
    have hne : Side.consumer ≠ Side.producer := by decide
    show Unheard (effect o capacity s.memory s.buffer l) _ _ _ _
    cases l with
    | push item | pop => exact hs
    | popLoadTail | popLoadHead j => exact hs.load_of_ne hne _ _ _
    | pushWrite | popRead m => exact hs.tick hne _
    | popStoreTail =>
      dsimp only [effect]
      split
      · exact hs.store_index hne id _
      · exact hs
    | pushLoadHead => exact hs.load hne fun _ => hs.own _ (by decide) _
    | pushLoadTail j =>
      refine hs.load hne fun hacquires => hs.index ?_ j
      exact Bool.eq_false_of_not_eq_true fun hreleases => ho ⟨hreleases, hacquires⟩
    | pushStoreHead =>
      dsimp only [effect]
      split
      · exact hs.store hne _ _
      · exact hs

/-- Who has not heard of `side` races with each of its recorded accesses. -/
theorem not_covers_of_unheard {accesses : List (ℕ × Event Side)} {v : View Side Index}
    {side : Side} {i n : ℕ} (hpos : ∀ w ∈ accesses, 0 < w.2.2) (hmem : (i, side, n) ∈ accesses)
    (hunheard : v (.inl side) = 0) : ¬ ∀ e, (i, e) ∈ accesses → v.Covers e := by
  intro hall
  have hn : 0 < n := hpos _ hmem
  have hknown : n ≤ v (.inl side) := hall (side, n) hmem
  omega

/-- The consumer is about to copy from the slot that the producer has assigned to. -/
theorem firstPop_run (T : Type*) [Inhabited T] (o : Orders) :
    ∃ s n, (system T o 1).run .start (firstPop T) = some s ∧
      readsFrom s.buffer.consumer = some 0 ∧ s.slotWrites = [(0, .producer, n)] :=
  ⟨_, _, rfl, rfl, rfl⟩

/-- The producer is about to assign to the slot that the consumer has copied from. -/
theorem thirdPush_run (T : Type*) [Inhabited T] (o : Orders) :
    ∃ s n, (system T o 1).run .start (firstPop T ++ [.popRead 1] ++ thirdPush T) = some s ∧
      writesTo s.buffer.producer = some 0 ∧ (0, .consumer, n) ∈ s.slotReads := by
  obtain ⟨m, n, hfirst, hreads⟩ : ∃ m n,
      (system T o 1).run .start (firstPop T ++ [.popRead 1]) = some m ∧
      m.slotReads = [(0, .consumer, n)] := ⟨_, _, rfl, rfl⟩
  obtain ⟨s, hrun, hwrites⟩ : ∃ s,
      (system T o 1).run .start (firstPop T ++ [.popRead 1] ++ thirdPush T) = some s ∧
      writesTo s.buffer.producer = some 0 := ⟨_, rfl, rfl⟩
  obtain ⟨m', hfirst', hrest⟩ := System.run_append_eq_some.mp hrun
  obtain rfl := Option.some.inj (hfirst.symm.trans hfirst')
  refine ⟨s, n, hrun, hwrites, (slotReads_grow hrest).subset ?_⟩
  rw [hreads]
  exact .head _

/-- Both runs load what was stored last. -/
theorem firstPop_current (T : Type*) [Inhabited T] (o : Orders) :
    (system T o 1).EveryStep (fun s l => l.Current s.buffer) .start (firstPop T) :=
  of_decide_eq_true rfl

theorem thirdPush_current (T : Type*) [Inhabited T] (o : Orders) :
    (system T o 1).EveryStep (fun s l => l.Current s.buffer) .start
      (firstPop T ++ [.popRead 1] ++ thirdPush T) :=
  of_decide_eq_true rfl

/-- **Exactly the four orders of the source are needed**: both stores have to release,
and both loads of the other side's index to acquire, as `seq_cst` does, too. The loads of
a side's own index may have any order. -/
theorem safe_iff_strong (T : Type*) [Inhabited T] (stale : Bool) (o : Orders) :
    o.Safe T stale ↔ o.Strong := by
  constructor
  · intro hsafe
    have hhead : o.pushStore.releases = true ∧ o.popLoad.acquires = true := by
      by_contra hweaker
      obtain ⟨s, n, hrun, hreads, hwrites⟩ := firstPop_run T o
      have hreach := System.Reach.run (.init rfl) hrun
      have hcurrent := System.Reach.of_everyStep (.init rfl) (firstPop_current T o) hrun
      have hfree := hsafe 1 (by decide) s (hcurrent.mono fun _ _ h _ => h)
      exact not_covers_of_unheard (recorded_pos hreach).1 (by rw [hwrites]; exact .head _)
        (consumer_unheard hweaker hreach).view (hfree.2 0 hreads)
    have htail : o.popStore.releases = true ∧ o.pushLoad.acquires = true := by
      by_contra hweaker
      obtain ⟨s, n, hrun, hwrites, hmem⟩ := thirdPush_run T o
      have hreach := System.Reach.run (.init rfl) hrun
      have hcurrent := System.Reach.of_everyStep (.init rfl) (thirdPush_current T o) hrun
      have hfree := hsafe 1 (by decide) s (hcurrent.mono fun _ _ h _ => h)
      exact not_covers_of_unheard (recorded_pos hreach).2 hmem
        (producer_unheard hweaker hreach).view (hfree.1 0 hwrites)
    exact ⟨htail.2, hhead.1, hhead.2, htail.1⟩
  · intro hstrong capacity hcap s hreach
    have hsync := synchronized_of_reach hstrong hcap (hreach.mono fun _ _ _ => trivial)
    exact ⟨fun i hi e he => hsync.write_ordered hi he, fun i hi e he => hsync.read_ordered hi he⟩

end CcSnippets.SpscRingBuffer.Ordered

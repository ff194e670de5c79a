import CcSnippets.Null.SpscRingBuffer.Delivery
import CcSnippets.Null.SpscRingBuffer.Orders

/-!
# CcSnippets.Null.SpscRingBuffer.RaceFree

With the memory orders of `spsc_ring_buffer.h` the producer's assignments to the slots
and the consumer's copies from them **never race**.

The two directions are the same (`Published`): one side accesses the slots in turn
and publishes how far it has come in its index; the other side knows of as many of
these accesses as the index it has loaded says. The producer comes back to a slot
only after it has seen the `tail_` stored behind the copy from it, and the consumer
gets to a slot only after it has seen the `head_` stored behind the assignment to it.
-/

namespace CcSnippets.SpscRingBuffer.Ordered

open CcSnippets.Core

/-- Side `a` has published `count` of its accesses to the slots in index `x`, and side
`b` has seen `seen` of them published. -/
structure Published (capacity : ℕ) (m : Memory Side Index ℕ) (x : Index) (a b : Side)
    (accesses : List (ℕ × Event Side)) (count seen : ℕ) : Prop where
  length : (m.history x).length = count + 1
  own : ∀ k i e, accesses[k]? = some (i, e) → i = k % (capacity + 1) ∧ (m.view a).Covers e
  released : ∀ j k i e, j ≤ count → k < j → accesses[k]? = some (i, e) →
    (m.releasedAt x j).Covers e
  known : ∀ k i e, k < seen → accesses[k]? = some (i, e) → (m.view b).Covers e

namespace Published

variable {capacity : ℕ} {m m' : Memory Side Index ℕ} {x : Index} {a b : Side}
  {accesses : List (ℕ × Event Side)} {count seen : ℕ}

/-- Nothing has been accessed yet. -/
theorem nothing (h : (m.history x).length = 1) : Published capacity m x a b [] 0 0 where
  length := h
  own k i e hk := by cases hk
  released j k i e hj hkj hk := by cases hk
  known k i e hks hk := by cases hk

/-- A step that stores nothing in the index keeps what is published. -/
theorem mono (h : Published capacity m x a b accesses count seen)
    (hview : ∀ u, m.view u ≤ m'.view u) (hhistory : m'.history x = m.history x) :
    Published capacity m' x a b accesses count seen where
  length := by rw [hhistory, h.length]
  own k i e hk := ⟨(h.own k i e hk).1, (h.own k i e hk).2.mono (hview a)⟩
  released j k i e hj hkj hk := by
    unfold Memory.releasedAt
    rw [hhistory]
    exact h.released j k i e hj hkj hk
  known k i e hks hk := (h.known k i e hks hk).mono (hview b)

/-- The next access to the slots, not yet published. -/
theorem access (h : Published capacity m x a b accesses count seen)
    (hlength : accesses.length = count) (hseen : seen ≤ count) :
    Published capacity (m.tick a) x a b
      (accesses ++ [(count % (capacity + 1), (m.tick a).now a)]) count seen := by
  have hgrown : Published capacity (m.tick a) x a b accesses count seen :=
    h.mono (Memory.tick_grows m a).view rfl
  have hold : ∀ k i e, k < count →
      (accesses ++ [(count % (capacity + 1), (m.tick a).now a)])[k]? = some (i, e) →
      accesses[k]? = some (i, e) := fun k i e hlt hk => by
    rwa [List.getElem?_append_left (by omega)] at hk
  refine ⟨hgrown.length, fun k i e hk => ?_, fun j k i e hj hkj hk => ?_, fun k i e hks hk => ?_⟩
  · rcases Nat.lt_or_ge k count with hlt | hge
    · exact hgrown.own k i e (hold k i e hlt hk)
    · have hbound := (List.getElem?_eq_some_iff.mp hk).1
      rw [List.length_append, List.length_singleton] at hbound
      obtain rfl : k = accesses.length := by omega
      rw [List.getElem?_concat_length] at hk
      obtain ⟨rfl, rfl⟩ := Prod.mk.inj (Option.some.inj hk)
      exact ⟨by rw [hlength], le_rfl⟩
  · exact hgrown.released j k i e hj hkj (hold k i e (by omega) hk)
  · exact hgrown.known k i e hks (hold k i e (by omega) hk)

/-- The index is stored behind the last access. -/
theorem store (h : Published capacity m x a b accesses count seen) {order : MemoryOrder}
    (horder : order.releases = true) (value : ℕ) :
    Published capacity (m.store order a x value) x a b accesses (count + 1) seen where
  length := by rw [Memory.store_history_length, h.length]
  own k i e hk := ⟨(h.own k i e hk).1,
    (h.own k i e hk).2.mono (Memory.view_le_store_view m order a x value a)⟩
  released j k i e hj hkj hk := by
    rcases Nat.lt_or_ge j (count + 1) with hlt | hge
    · rw [Memory.store_releasedAt_of_lt m order a x value (by rw [h.length]; exact hlt)]
      exact h.released j k i e (Nat.le_of_lt_succ hlt) hkj hk
    · obtain rfl : j = count + 1 := by omega
      rw [← h.length]
      exact (h.own k i e hk).2.mono ((Memory.view_le_store_view m order a x value a).trans
        (Memory.view_le_store_releasedAt m order a x value horder))
  known k i e hks hk :=
    (h.known k i e hks hk).mono (Memory.view_le_store_view m order a x value b)

/-- The other side loads the index. -/
theorem load (h : Published capacity m x a b accesses count seen) {order : MemoryOrder}
    (horder : order.acquires = true) {j : ℕ} (hj : j ≤ count) :
    Published capacity (m.load order b x j) x a b accesses count j := by
  have hgrown : Published capacity (m.load order b x j) x a b accesses count seen :=
    h.mono (Memory.load_grows m order b x j).view rfl
  refine { hgrown with known := fun k i e hkj hk => ?_ }
  exact (h.released j k i e hj hkj hk).mono (Memory.releasedAt_le_load_view m order b x j horder)

end Published

/-! ### The invariant -/

variable {T : Type*}

/-- The copies made by the `pop` in progress. -/
def copied : Consumer T → ℕ
  | .storing _ _ => 1
  | _ => 0

/-- Both sides publish their accesses to the slots. -/
structure Synchronized (capacity : ℕ) (s : State T) : Prop where
  tracked : Tracked capacity s.buffer
  writes : Published capacity s.memory .head .producer .consumer s.slotWrites
    s.buffer.pushed.length s.buffer.seenHead
  reads : Published capacity s.memory .tail .consumer .producer s.slotReads
    s.buffer.popped.length s.buffer.seenTail
  writes_length :
    s.slotWrites.length = s.buffer.pushed.length + s.buffer.producer.inFlight.length
  reads_length : s.slotReads.length = s.buffer.popped.length + copied s.buffer.consumer

theorem synchronized_start (capacity : ℕ) : Synchronized capacity (.start : State T) where
  tracked := tracked_start capacity
  writes := .nothing rfl
  reads := .nothing rfl
  writes_length := rfl
  reads_length := rfl

/-- The orders that matter. -/
structure Orders.Strong (o : Orders) : Prop where
  pushLoad : o.pushLoad.acquires = true
  pushStore : o.pushStore.releases = true
  popLoad : o.popLoad.acquires = true
  popStore : o.popStore.releases = true

theorem Orders.source_strong : Orders.source.Strong := ⟨rfl, rfl, rfl, rfl⟩

variable [Inhabited T] {o : Orders} {capacity : ℕ}

/-- **Every step keeps what is published.** -/
theorem synchronized_step (ho : o.Strong) (hcap : capacity + 1 < 2 ^ 64) {s s' : State T}
    {l : Label T} (h : Synchronized capacity s) (hs : next o capacity s l = some s') :
    Synchronized capacity s' := by
  obtain ⟨b, hb, rfl⟩ := Option.map_eq_some_iff.mp hs
  have hstep := SpscRingBuffer.next_step hb
  have htracked := tracked_step hcap h.tracked hstep
  obtain ⟨ht, hw, hr, hwl, hrl⟩ := h
  have hload : ∀ order t x i, (∀ u, s.memory.view u ≤ (s.memory.load order t x i).view u) :=
    fun order t x i => (Memory.load_grows s.memory order t x i).view
  have htick : ∀ t u, s.memory.view u ≤ (s.memory.tick t).view u :=
    fun t => (Memory.tick_grows s.memory t).view
  cases hstep with
  | push hpc =>
    rw [hpc] at hwl
    refine ⟨htracked, ?_, ?_, ?_, ?_⟩ <;> dsimp only [effect] <;> rw [List.append_nil]
    exacts [hw, hr, hwl, hrl]
  | pushLoadHead hpc hlast =>
    rw [hpc] at hwl
    refine ⟨htracked, ?_, ?_, ?_, ?_⟩ <;> dsimp only [effect] <;> rw [List.append_nil]
    exacts [hw.mono (hload _ _ _ _) rfl, hr.mono (hload _ _ _ _) rfl, hwl, hrl]
  | pushFull hpc hseen hj =>
    rw [hpc] at hwl
    refine ⟨htracked, ?_, ?_, ?_, ?_⟩ <;> dsimp only [effect] <;> rw [List.append_nil]
    exacts [hw.mono (hload _ _ _ _) rfl, hr.load ho.pushLoad (ht.tail_at hj).1, hwl, hrl]
  | pushRoom hpc hseen hj hne =>
    rw [hpc] at hwl
    refine ⟨htracked, ?_, ?_, ?_, ?_⟩ <;> dsimp only [effect] <;> rw [List.append_nil]
    exacts [hw.mono (hload _ _ _ _) rfl, hr.load ho.pushLoad (ht.tail_at hj).1, hwl, hrl]
  | @pushWrite item currHead hpc =>
    obtain ⟨hhead, -⟩ := ht.producer_at hpc
    rw [hpc] at hwl
    refine ⟨htracked, ?_, ?_, ?_, ?_⟩ <;> dsimp only [effect, writesTo]
    · rw [hpc, hhead]
      exact hw.access hwl ht.seenHead_le
    · rw [List.append_nil]
      exact hr.mono (htick _) rfl
    · rw [hpc, List.length_append, hwl]
      rfl
    · rw [List.append_nil]
      exact hrl
  | @pushStoreHead item currHead hpc =>
    rw [hpc] at hwl
    refine ⟨htracked, ?_, ?_, ?_, ?_⟩ <;> dsimp only [effect] <;> rw [List.append_nil]
    · rw [hpc, List.length_append]
      exact hw.store ho.pushStore _
    · rw [hpc]
      exact hr.mono (Memory.view_le_store_view _ _ _ _ _)
        (Memory.store_history_of_ne _ _ _ _ _ (by decide))
    · rw [hwl, List.length_append]
      rfl
    · exact hrl
  | pop hpc =>
    rw [hpc] at hrl
    refine ⟨htracked, ?_, ?_, ?_, ?_⟩ <;> dsimp only [effect] <;> rw [List.append_nil]
    exacts [hw, hr, hwl, hrl]
  | popLoadTail hpc hlast =>
    rw [hpc] at hrl
    refine ⟨htracked, ?_, ?_, ?_, ?_⟩ <;> dsimp only [effect] <;> rw [List.append_nil]
    exacts [hw.mono (hload _ _ _ _) rfl, hr.mono (hload _ _ _ _) rfl, hwl, hrl]
  | popEmpty hpc hseen hj =>
    rw [hpc] at hrl
    refine ⟨htracked, ?_, ?_, ?_, ?_⟩ <;> dsimp only [effect] <;> rw [List.append_nil]
    exacts [hw.load ho.popLoad (ht.head_at hj).1, hr.mono (hload _ _ _ _) rfl, hwl, hrl]
  | popSome hpc hseen hj hne =>
    rw [hpc] at hrl
    refine ⟨htracked, ?_, ?_, ?_, ?_⟩ <;> dsimp only [effect] <;> rw [List.append_nil]
    exacts [hw.load ho.popLoad (ht.head_at hj).1, hr.mono (hload _ _ _ _) rfl, hwl, hrl]
  | @popRead currTail m hpc hm hm' =>
    obtain ⟨htail, -⟩ := ht.consumer_at hpc
    rw [hpc] at hrl
    refine ⟨htracked, ?_, ?_, ?_, ?_⟩ <;> dsimp only [effect, readsFrom]
    · rw [List.append_nil]
      exact hw.mono (htick _) rfl
    · rw [hpc, htail]
      exact hr.access hrl ht.seenTail_le
    · rw [List.append_nil]
      exact hwl
    · rw [hpc, List.length_append, hrl]
      rfl
  | @popStoreTail elem currTail hpc =>
    rw [hpc] at hrl
    refine ⟨htracked, ?_, ?_, ?_, ?_⟩ <;> dsimp only [effect] <;> rw [List.append_nil]
    · rw [hpc]
      exact hw.mono (Memory.view_le_store_view _ _ _ _ _)
        (Memory.store_history_of_ne _ _ _ _ _ (by decide))
    · rw [hpc, List.length_append]
      exact hr.store ho.popStore _
    · exact hwl
    · rw [hrl, List.length_append]
      rfl

theorem synchronized_of_reach (ho : o.Strong) (hcap : capacity + 1 < 2 ^ 64) {s : State T}
    (h : (system T o capacity).Reachable s) : Synchronized capacity s :=
  h.invariant (I := Synchronized capacity) (fun _ h0 => h0 ▸ synchronized_start capacity)
    fun _ _ _ _ hsync _ hs => synchronized_step ho hcap hsync hs

/-! ### No races -/

/-- An access of either side that is about to be made happens after every access of
the other side to the same slot so far. -/
def RaceFree (s : State T) : Prop :=
  (∀ i, writesTo s.buffer.producer = some i →
    ∀ e, (i, e) ∈ s.slotReads → (s.memory.view .producer).Covers e) ∧
  ∀ i, readsFrom s.buffer.consumer = some i →
    ∀ e, (i, e) ∈ s.slotWrites → (s.memory.view .consumer).Covers e

omit [Inhabited T] in
/-- The producer comes back to a slot when it has seen the copy from it published. -/
theorem Synchronized.write_ordered {s : State T} (h : Synchronized capacity s) {i : ℕ}
    (hi : writesTo s.buffer.producer = some i) {e : Event Side} (he : (i, e) ∈ s.slotReads) :
    (s.memory.view .producer).Covers e := by
  obtain ⟨ht, -, hr, -, hrl⟩ := h
  obtain ⟨k, hk⟩ := List.mem_iff_getElem?.mp he
  have hlt := (List.getElem?_eq_some_iff.mp hk).1
  have hslot := (hr.own k i e hk).1
  have hpopped := ht.popped_le
  have hpushed := ht.seenHead_le
  cases hp : s.buffer.producer with
  | idle | loadingHead _ | loadingTail _ _ | storing _ _ =>
    rw [hp] at hi
    cases hi
  | writing item currHead =>
    rw [hp] at hi
    obtain rfl := Option.some.inj hi
    obtain ⟨hhead, hroom⟩ := ht.producer_at hp
    have hbehind : k < s.buffer.pushed.length := by
      cases hc : s.buffer.consumer with
      | idle | loadingTail | loadingHead _ | reading _ =>
        rw [hc] at hrl
        have hnone : s.slotReads.length = s.buffer.popped.length := hrl
        omega
      | storing x j =>
        rw [hc] at hrl
        have hone : s.slotReads.length = s.buffer.popped.length + 1 := hrl
        obtain ⟨-, hseen, -⟩ := ht.consumer_at hc
        omega
    by_contra hunknown
    have hseen : s.buffer.seenTail ≤ k := by
      by_contra hno
      exact hunknown (hr.known k _ e (by omega) hk)
    exact absurd (eq_of_mod_eq hbehind.le (by omega) (hhead.symm.trans hslot)) hbehind.ne'

omit [Inhabited T] in
/-- The consumer gets to a slot when it has seen the assignment to it published. -/
theorem Synchronized.read_ordered {s : State T} (h : Synchronized capacity s) {i : ℕ}
    (hi : readsFrom s.buffer.consumer = some i) {e : Event Side} (he : (i, e) ∈ s.slotWrites) :
    (s.memory.view .consumer).Covers e := by
  obtain ⟨ht, hw, -, hwl, -⟩ := h
  obtain ⟨k, hk⟩ := List.mem_iff_getElem?.mp he
  have hlt := (List.getElem?_eq_some_iff.mp hk).1
  have hslot := (hw.own k i e hk).1
  have hwrites := ht.writes_lt
  have hlength : s.buffer.writes.length = s.slotWrites.length := by
    rw [ht.writes, List.length_mapIdx, List.length_append, hwl]
  cases hc : s.buffer.consumer with
  | idle | loadingTail | loadingHead _ | storing _ _ =>
    rw [hc] at hi
    cases hi
  | reading currTail =>
    rw [hc] at hi
    obtain rfl := Option.some.inj hi
    obtain ⟨htail, hseen⟩ := ht.consumer_at hc
    by_contra hunknown
    have hahead : s.buffer.popped.length < k := by
      by_contra hno
      exact hunknown (hw.known k _ e (by omega) hk)
    exact absurd (eq_of_mod_eq hahead.le (by omega) (hslot.symm.trans htail)) hahead.ne'

/-- **The slots are never raced for** under the memory orders of
`spsc_ring_buffer.h`. -/
theorem slots_race_free (hcap : capacity + 1 < 2 ^ 64) {s : State T}
    (h : (system T .source capacity).Reachable s) : RaceFree s := by
  have hsync := synchronized_of_reach Orders.source_strong hcap h
  exact ⟨fun i hi e he => hsync.write_ordered hi he, fun i hi e he => hsync.read_ordered hi he⟩

/-- The consumer is about to copy the first element, and knows of its assignment. -/
theorem slots_race_free_firstPop :
    ∃ s, (system ℕ .source 1).run .start
        [.push 7, .pushLoadHead, .pushLoadTail 0, .pushWrite, .pushStoreHead,
          .pop, .popLoadTail, .popLoadHead 1] = some s ∧
      s.slotWrites = [(0, (.producer, 3))] ∧ (s.memory.view .consumer).Covers (.producer, 3) := by
  obtain ⟨s, hrun, hreads, hwrites⟩ : ∃ s, (system ℕ .source 1).run .start
      [.push 7, .pushLoadHead, .pushLoadTail 0, .pushWrite, .pushStoreHead,
        .pop, .popLoadTail, .popLoadHead 1] = some s ∧
      readsFrom s.buffer.consumer = some 0 ∧ s.slotWrites = [(0, (.producer, 3))] :=
    ⟨_, rfl, rfl, rfl⟩
  have hfree := slots_race_free (by decide) (System.Reach.run (.init rfl) hrun)
  exact ⟨s, hrun, hwrites, hfree.2 0 hreads _ (by rw [hwrites]; exact .head _)⟩

end CcSnippets.SpscRingBuffer.Ordered

import Mathlib.Data.List.Induction
import Mathlib.Data.Nat.Basic
import Mathlib.Order.Basic
import CcSnippets.Null.SpscRingBuffer.Steps

/-!
# CcSnippets.Null.SpscRingBuffer.Delivery

The buffer **delivers exactly once and in order** under every interleaving, with
each side deciding on a possibly stale index of the other.

The indices live modulo `Capacity + 1`, so they are read against two counters
that never wrap, the pushes and the pops performed. The invariant (`Tracked`)
says that number `k` of the values `head_` and `tail_` have held is `k` modulo
`Capacity + 1`, and that what each side saw last bounds the other's counter:
the pushes are never more than `Capacity` ahead of the pops the producer has
seen. Two counters that far apart at most agree modulo `Capacity + 1` only where
they are equal, or where the buffer is full.
-/

namespace CcSnippets.SpscRingBuffer

open CcSnippets.Core

variable {T : Type*}

/-! ### Indices -/

/-- With `Capacity + 1` a `size_t`, the next index of a counter's index is the
index of the next counter. -/
theorem nextIndex_mod {capacity : ℕ} (hcap : capacity + 1 < 2 ^ 64) (k : ℕ) :
    nextIndex capacity (k % (capacity + 1)) = (k + 1) % (capacity + 1) := by
  have hk : k % (capacity + 1) < capacity + 1 := Nat.mod_lt _ (Nat.succ_pos _)
  unfold nextIndex wrap
  rw [Nat.mod_eq_of_lt (show k % (capacity + 1) + 1 < 2 ^ 64 by omega), Nat.mod_eq_of_lt hcap,
    Nat.mod_add_mod]

/-- Counters less than `Capacity + 1` apart have the same index only if equal. -/
theorem eq_of_mod_eq {m j k : ℕ} (hjk : j ≤ k) (hlt : k < j + m) (h : k % m = j % m) : k = j := by
  have hd := Nat.sub_mod_eq_zero_of_mod_eq h
  rw [Nat.mod_eq_of_lt (by omega)] at hd
  omega

/-! ### Slots -/

section Slots

variable [Inhabited T]

theorem slotAfter_concat (ws : List (ℕ × T)) (i : ℕ) (x : T) (j : ℕ) :
    slotAfter (ws ++ [(i, x)]) j = if i = j then x else slotAfter ws j := by
  unfold slotAfter
  rw [List.reverse_append, List.reverse_singleton, List.singleton_append]
  by_cases hij : i = j
  · rw [List.find?_cons_of_pos (by simpa using hij), if_pos hij]
  · rw [List.find?_cons_of_neg (by simpa using hij), if_neg hij]

/-- A slot holds the last element written to it. -/
theorem slotAfter_mapIdx {m n : ℕ} (xs : List T) (hn : n < xs.length)
    (hlast : ∀ k, n < k → k < xs.length → k % m ≠ n % m) :
    slotAfter (xs.mapIdx fun k x => (k % m, x)) (n % m) = xs[n] := by
  induction xs using List.reverseRecOn with
  | nil => exact absurd hn (Nat.not_lt_zero n)
  | append_singleton xs x ih =>
    rw [List.length_append, List.length_singleton] at hn hlast
    rw [List.mapIdx_concat, slotAfter_concat]
    rcases Nat.lt_succ_iff_lt_or_eq.mp hn with hlt | heq
    · rw [if_neg (hlast xs.length hlt (Nat.lt_succ_self _)), List.getElem_append_left hlt]
      exact ih hlt fun k hk hk' => hlast k hk (Nat.lt_succ_of_lt hk')
    · subst heq
      rw [if_pos rfl, List.getElem_concat_length rfl]

end Slots

theorem take_mapIdx {α β : Type*} (f : ℕ → α → β) (xs : List α) (m : ℕ) :
    (xs.mapIdx f).take m = (xs.take m).mapIdx f := by
  refine List.ext_getElem? fun k => ?_
  rw [List.getElem?_mapIdx, List.getElem?_take, List.getElem?_take, List.getElem?_mapIdx]
  split <;> rfl

/-! ### The invariant -/

/-- The element the producer has written to its slot and not published. -/
def Producer.inFlight : Producer T → List T
  | .storing item _ => [item]
  | _ => []

/-- What the producer has found out, `pushes` being performed. -/
def Producer.Knows (capacity pushes seenTail : ℕ) : Producer T → Prop
  | .idle | .loadingHead _ => True
  | .loadingTail _ i => i = pushes % (capacity + 1)
  | .writing _ i | .storing _ i => i = pushes % (capacity + 1) ∧ pushes < seenTail + capacity

/-- What the consumer has found out, `pops` being performed. -/
def Consumer.Knows (capacity pops seenHead : ℕ) (pushed : List T) : Consumer T → Prop
  | .idle | .loadingTail => True
  | .loadingHead i => i = pops % (capacity + 1)
  | .reading i => i = pops % (capacity + 1) ∧ pops < seenHead
  | .storing x i => i = pops % (capacity + 1) ∧ pops < seenHead ∧ pushed[pops]? = some x

/-- The indices against the counters. -/
structure Tracked (capacity : ℕ) (s : State T) : Prop where
  heads : s.heads = (List.range (s.pushed.length + 1)).map fun k => (k % (capacity + 1), k)
  tails : s.tails = (List.range (s.popped.length + 1)).map fun k => k % (capacity + 1)
  writes : s.writes = (s.pushed ++ s.producer.inFlight).mapIdx fun k x => (k % (capacity + 1), x)
  seenTail_le : s.seenTail ≤ s.popped.length
  popped_le : s.popped.length ≤ s.seenHead
  seenHead_le : s.seenHead ≤ s.pushed.length
  /-- The pushes are at most `Capacity` ahead of the pops the producer saw. -/
  room : s.pushed.length ≤ s.seenTail + capacity
  visible : s.seenHead ≤ s.visible
  delivered : s.popped <+: s.pushed
  producer : s.producer.Knows capacity s.pushed.length s.seenTail
  consumer : s.consumer.Knows capacity s.popped.length s.seenHead s.pushed

theorem tracked_start (capacity : ℕ) : Tracked capacity (.start : State T) where
  heads := by simp [State.start]
  tails := by simp [State.start]
  writes := rfl
  seenTail_le := Nat.le_refl 0
  popped_le := Nat.le_refl 0
  seenHead_le := Nat.le_refl 0
  room := Nat.zero_le _
  visible := Nat.le_refl 0
  delivered := List.prefix_refl []
  producer := trivial
  consumer := trivial

namespace Tracked

variable {capacity : ℕ} {s : State T}

/-- Number `j` of the values `head_` has held, and the writes before it. -/
theorem head_at (h : Tracked capacity s) {j head before : ℕ}
    (hj : s.heads[j]? = some (head, before)) :
    j ≤ s.pushed.length ∧ head = j % (capacity + 1) ∧ before = j := by
  rw [h.heads, List.getElem?_map, Option.map_eq_some_iff] at hj
  obtain ⟨k, hk, heq⟩ := hj
  obtain ⟨hlt, rfl⟩ := List.getElem?_eq_some_iff.mp hk
  rw [List.getElem_range] at heq
  rw [List.length_range] at hlt
  obtain ⟨rfl, rfl⟩ := Prod.mk.inj heq
  exact ⟨Nat.lt_succ_iff.mp hlt, rfl, rfl⟩

/-- Number `j` of the values `tail_` has held. -/
theorem tail_at (h : Tracked capacity s) {j tail : ℕ} (hj : s.tails[j]? = some tail) :
    j ≤ s.popped.length ∧ tail = j % (capacity + 1) := by
  rw [h.tails, List.getElem?_map, Option.map_eq_some_iff] at hj
  obtain ⟨k, hk, heq⟩ := hj
  obtain ⟨hlt, rfl⟩ := List.getElem?_eq_some_iff.mp hk
  rw [List.getElem_range] at heq
  rw [List.length_range] at hlt
  exact ⟨Nat.lt_succ_iff.mp hlt, heq.symm⟩

theorem head_last (h : Tracked capacity s) {head before : ℕ}
    (hlast : s.heads.getLast? = some (head, before)) :
    head = s.pushed.length % (capacity + 1) := by
  rw [h.heads, List.range_succ, List.map_append, List.map_singleton, List.getLast?_concat] at hlast
  exact (Prod.mk.inj (Option.some.inj hlast)).1.symm

theorem tail_last (h : Tracked capacity s) {tail : ℕ} (hlast : s.tails.getLast? = some tail) :
    tail = s.popped.length % (capacity + 1) := by
  rw [h.tails, List.range_succ, List.map_append, List.map_singleton, List.getLast?_concat] at hlast
  exact (Option.some.inj hlast).symm

/-- What each side has found out where it is, and what has been written then. -/
theorem producer_at (h : Tracked capacity s) {p : Producer T} (hpc : s.producer = p) :
    p.Knows capacity s.pushed.length s.seenTail := hpc ▸ h.producer

theorem consumer_at (h : Tracked capacity s) {c : Consumer T} (hpc : s.consumer = c) :
    c.Knows capacity s.popped.length s.seenHead s.pushed := hpc ▸ h.consumer

theorem writes_at (h : Tracked capacity s) {p : Producer T} (hpc : s.producer = p) :
    s.writes = (s.pushed ++ p.inFlight).mapIdx fun k x => (k % (capacity + 1), x) :=
  hpc ▸ h.writes

/-! ### The steps of the producer -/

/-- The index after `head_` is not the `tail_` the producer saw: there is room
for one more. -/
theorem pushRoom (hcap : capacity + 1 < 2 ^ 64) (h : Tracked capacity s) {item : T}
    {currHead tail j : ℕ} (hpc : s.producer = .loadingTail item currHead)
    (hseen : s.seenTail ≤ j) (hj : s.tails[j]? = some tail)
    (hne : nextIndex capacity currHead ≠ tail) :
    Tracked capacity { s with producer := .writing item currHead, seenTail := j } := by
  obtain ⟨hjle, rfl⟩ := h.tail_at hj
  have hhead : currHead = s.pushed.length % (capacity + 1) := h.producer_at hpc
  have hroom := h.room
  -- were the pushes a whole round ahead, the two indices would be the same
  have hlt : s.pushed.length < j + capacity := by
    refine Nat.lt_of_le_of_ne (by omega) fun hfull => hne ?_
    rw [hhead, nextIndex_mod hcap, hfull, Nat.add_assoc, Nat.add_mod_right]
  exact { h with
    writes := (h.writes_at hpc :), seenTail_le := hjle, room := hlt.le, producer := ⟨hhead, hlt⟩ }

/-- A refused push changes nothing but what the producer has seen. -/
theorem pushFull (h : Tracked capacity s) {item : T} {currHead tail j : ℕ} {r : List Bool}
    (hpc : s.producer = .loadingTail item currHead) (hseen : s.seenTail ≤ j)
    (hj : s.tails[j]? = some tail) :
    Tracked capacity { s with producer := .idle, seenTail := j, pushReturned := r } := by
  exact { h with
    writes := (h.writes_at hpc :)
    seenTail_le := (h.tail_at hj).1
    room := h.room.trans (Nat.add_le_add_right hseen capacity)
    producer := trivial }

theorem pushWrite (h : Tracked capacity s) {item : T} {currHead : ℕ}
    (hpc : s.producer = .writing item currHead) :
    Tracked capacity { s with
      producer := .storing item currHead, writes := s.writes ++ [(currHead, item)] } := by
  have hknows := h.producer_at hpc
  refine { h with writes := ?_, producer := hknows }
  show s.writes ++ [(currHead, item)] =
    (s.pushed ++ [item]).mapIdx fun k x => (k % (capacity + 1), x)
  rw [List.mapIdx_concat, h.writes_at hpc, hknows.1]
  simp [Producer.inFlight]

theorem pushStoreHead (hcap : capacity + 1 < 2 ^ 64) (h : Tracked capacity s) {item : T}
    {currHead : ℕ} {r : List Bool} (hpc : s.producer = .storing item currHead) :
    Tracked capacity { s with
      producer := .idle
      heads := s.heads ++ [(nextIndex capacity currHead, s.writes.length)]
      pushed := s.pushed ++ [item]
      pushReturned := r } := by
  obtain ⟨hhead, hlt⟩ := h.producer_at hpc
  have hwrites : s.writes = (s.pushed ++ [item]).mapIdx fun k x => (k % (capacity + 1), x) :=
    h.writes_at hpc
  have hlen : (s.pushed ++ [item]).length = s.pushed.length + 1 := List.length_append
  refine { h with
    heads := ?_, writes := ?_, seenHead_le := ?_, room := ?_
    delivered := h.delivered.trans (List.prefix_append _ _), producer := trivial, consumer := ?_ }
  · rw [hlen, List.range_succ, List.map_append, ← h.heads, hhead, nextIndex_mod hcap, hwrites,
      List.length_mapIdx, hlen]
    rfl
  · rw [hwrites]
    simp [Producer.inFlight]
  · rw [hlen]
    exact h.seenHead_le.trans (Nat.le_succ _)
  · rw [hlen]
    exact hlt
  · -- a push behind the element the consumer has read leaves it where it is
    show s.consumer.Knows capacity s.popped.length s.seenHead (s.pushed ++ [item])
    cases hc : s.consumer with
    | idle | loadingTail => trivial
    | loadingHead i | reading i => exact h.consumer_at hc
    | storing x i =>
      obtain ⟨hi, hseen, hx⟩ := h.consumer_at hc
      refine ⟨hi, hseen, ?_⟩
      rw [List.getElem?_append_left (hseen.trans_le h.seenHead_le), hx]

/-! ### The steps of the consumer -/

/-- `tail_` is not the `head_` the consumer saw: that push is ahead of the pops. -/
theorem popSome (h : Tracked capacity s) {currTail head before j : ℕ}
    (hpc : s.consumer = .loadingHead currTail) (hseen : s.seenHead ≤ j)
    (hj : s.heads[j]? = some (head, before)) (hne : currTail ≠ head) :
    Tracked capacity { s with
      consumer := .reading currTail, seenHead := j, visible := max s.visible before } := by
  obtain ⟨hjle, rfl, rfl⟩ := h.head_at hj
  have htail : currTail = s.popped.length % (capacity + 1) := h.consumer_at hpc
  have hlt : s.popped.length < before := by
    refine Nat.lt_of_le_of_ne (h.popped_le.trans hseen) fun hempty => hne ?_
    rw [htail, hempty]
  exact { h with
    popped_le := h.popped_le.trans hseen, seenHead_le := hjle, visible := Nat.le_max_right _ _
    consumer := ⟨htail, hlt⟩ }

/-- A refused pop changes nothing but what the consumer has seen. -/
theorem popEmpty (h : Tracked capacity s) {head before j : ℕ} {r : List Bool}
    (hseen : s.seenHead ≤ j) (hj : s.heads[j]? = some (head, before)) :
    Tracked capacity { s with
      consumer := .idle, seenHead := j, visible := max s.visible before, popReturned := r } := by
  obtain ⟨hjle, rfl, rfl⟩ := h.head_at hj
  exact { h with
    popped_le := h.popped_le.trans hseen, seenHead_le := hjle, visible := Nat.le_max_right _ _
    consumer := trivial }

/-- Between the pops and the writes there is no second write to a slot: they are
less than `Capacity + 1` apart. -/
theorem writes_lt (h : Tracked capacity s) :
    s.writes.length ≤ s.popped.length + capacity := by
  have hroom := h.room
  have hseen := h.seenTail_le
  rw [h.writes, List.length_mapIdx, List.length_append]
  cases hp : s.producer with
  | idle | loadingHead _ | loadingTail _ _ | writing _ _ =>
    show s.pushed.length + 0 ≤ _
    omega
  | storing _ _ =>
    show s.pushed.length + 1 ≤ _
    have := (h.producer_at hp).2
    omega

/-- However many of the writes the read sees, it finds the next element. -/
theorem popRead [Inhabited T] (h : Tracked capacity s) {currTail m : ℕ}
    (hpc : s.consumer = .reading currTail) (hm : s.visible ≤ m) (hm' : m ≤ s.writes.length) :
    Tracked capacity { s with
      consumer := .storing (slotAfter (s.writes.take m) currTail) currTail } := by
  obtain ⟨htail, hlt⟩ := h.consumer_at hpc
  refine { h with consumer := ⟨htail, hlt, ?_⟩ }
  have hpushed : s.popped.length < s.pushed.length := hlt.trans_le h.seenHead_le
  have hwrites := h.writes_lt
  have hvisible := h.visible
  have htake : s.writes.take m = ((s.pushed ++ s.producer.inFlight).take m).mapIdx
      fun k x => (k % (capacity + 1), x) := by
    rw [h.writes, take_mapIdx]
  have hlen : ((s.pushed ++ s.producer.inFlight).take m).length = m := by
    have hle := hm'
    rw [h.writes, List.length_mapIdx] at hle
    rw [List.length_take, Nat.min_eq_left hle]
  rw [htake, htail, slotAfter_mapIdx _ (by omega), List.getElem_take,
    List.getElem_append_left hpushed, List.getElem?_eq_getElem hpushed]
  -- a later write to the same slot would be a whole round ahead
  intro k hk hkm hmod
  exact absurd (eq_of_mod_eq hk.le (by omega) hmod) hk.ne'

theorem popStoreTail (hcap : capacity + 1 < 2 ^ 64) (h : Tracked capacity s) {elem : T}
    {currTail : ℕ} {r : List Bool} (hpc : s.consumer = .storing elem currTail) :
    Tracked capacity { s with
      consumer := .idle
      tails := s.tails ++ [nextIndex capacity currTail]
      popped := s.popped ++ [elem]
      popReturned := r } := by
  obtain ⟨htail, hlt, helem⟩ := h.consumer_at hpc
  have hlen : (s.popped ++ [elem]).length = s.popped.length + 1 := List.length_append
  refine { h with
    tails := ?_, seenTail_le := ?_, popped_le := ?_, delivered := ?_, consumer := trivial }
  · rw [hlen, List.range_succ, List.map_append, ← h.tails, htail, nextIndex_mod hcap]
    rfl
  · rw [hlen]
    exact h.seenTail_le.trans (Nat.le_succ _)
  · rw [hlen]
    exact hlt
  · have htake := List.prefix_iff_eq_take.mp h.delivered
    rw [List.prefix_iff_eq_take, hlen, List.take_add_one, ← htake, helem]
    rfl

end Tracked

variable [Inhabited T]

/-- **Every step keeps the indices on the counters.** -/
theorem tracked_step {capacity : ℕ} (hcap : capacity + 1 < 2 ^ 64) {s s' : State T} {l : Label T}
    (h : Tracked capacity s) (hs : Step capacity s l s') : Tracked capacity s' := by
  cases hs with
  | push hpc => exact { h with writes := (h.writes_at hpc :), producer := trivial }
  | pushLoadHead hpc hlast =>
    exact { h with writes := (h.writes_at hpc :), producer := h.head_last hlast }
  | pushFull hpc hseen hj => exact h.pushFull hpc hseen hj
  | pushRoom hpc hseen hj hne => exact h.pushRoom hcap hpc hseen hj hne
  | pushWrite hpc => exact h.pushWrite hpc
  | pushStoreHead hpc => exact h.pushStoreHead hcap hpc
  | pop _ => exact { h with consumer := trivial }
  | popLoadTail _ hlast => exact { h with consumer := h.tail_last hlast }
  | popEmpty _ hseen hj => exact h.popEmpty hseen hj
  | popSome hpc hseen hj hne => exact h.popSome hpc hseen hj hne
  | popRead hpc hm hm' => exact h.popRead hpc hm hm'
  | popStoreTail hpc => exact h.popStoreTail hcap hpc

theorem tracked_of_reach {capacity : ℕ} (hcap : capacity + 1 < 2 ^ 64) {s : State T}
    (h : (system T capacity).Reachable s) : Tracked capacity s :=
  h.invariant (fun _ h0 => h0 ▸ tracked_start capacity)
    fun _ _ _ _ ht _ hs => tracked_step hcap ht (next_step hs)

/-! ### Delivery -/

/-- The slot writes of the elements pushed and not popped yet. -/
def State.unpopped (s : State T) : List (ℕ × T) :=
  (s.writes.take s.pushed.length).drop s.popped.length

omit [Inhabited T] in
/-- They are writes of exactly these elements. -/
theorem unpopped_elements {capacity : ℕ} {s : State T} (h : Tracked capacity s) :
    s.unpopped.map Prod.snd = s.pushed.drop s.popped.length := by
  have hmap : ∀ xs : List T,
      (xs.mapIdx fun k x => (k % (capacity + 1), x)).map Prod.snd = xs := by
    intro xs
    refine List.ext_getElem? fun k => ?_
    rw [List.getElem?_map, List.getElem?_mapIdx]
    cases xs[k]? <;> rfl
  unfold State.unpopped
  rw [List.map_drop, List.map_take, h.writes, hmap, List.take_left' rfl]

omit [Inhabited T] in
/-- They lie in the slots of the counters between the pops and the pushes. -/
theorem slot_of_unpopped {capacity : ℕ} {s : State T} (h : Tracked capacity s) {w : ℕ × T}
    (hw : w ∈ s.unpopped) :
    ∃ k, s.popped.length ≤ k ∧ k < s.pushed.length ∧ w.1 = k % (capacity + 1) := by
  obtain ⟨d, hd, hget⟩ := List.mem_iff_getElem.mp hw
  unfold State.unpopped at hd hget
  rw [List.length_drop, List.length_take] at hd
  refine ⟨s.popped.length + d, Nat.le_add_right _ _, by omega, ?_⟩
  rw [List.getElem_drop, List.getElem_take] at hget
  rw [← hget]
  simp only [h.writes, List.getElem_mapIdx]

omit [Inhabited T] in
/-- The slot the producer is about to write is that of the next push, which the
elements not yet popped do not reach. -/
theorem Tracked.writing_apart {capacity : ℕ} {s : State T} (h : Tracked capacity s) {item : T}
    {i k : ℕ} (hpc : s.producer = .writing item i) (hk : s.popped.length ≤ k)
    (hk' : k < s.pushed.length) : k % (capacity + 1) ≠ i := by
  obtain ⟨hi, hlt⟩ := h.producer_at hpc
  have hseen := h.seenTail_le
  intro hmod
  exact absurd (eq_of_mod_eq hk'.le (by omega) (hi.symm.trans hmod.symm)) hk'.ne'

/-- **Exactly once and in order.** Under every interleaving and every stale load,
the elements popped are a prefix of the elements pushed, at most `Capacity` are
in between, and the slot the producer is writing is neither the one the consumer
is reading nor one that holds an element not yet popped. -/
theorem delivers_in_order {capacity : ℕ} (hcap : capacity + 1 < 2 ^ 64) {s : State T}
    (h : (system T capacity).Reachable s) :
    s.popped <+: s.pushed ∧
      s.pushed.length ≤ s.popped.length + capacity ∧
      s.unpopped.map Prod.snd = s.pushed.drop s.popped.length ∧
      ∀ item i, s.producer = .writing item i →
        s.consumer ≠ .reading i ∧ ∀ w ∈ s.unpopped, w.1 ≠ i := by
  have ht := tracked_of_reach hcap h
  have hroom := ht.room
  have hseen := ht.seenTail_le
  refine ⟨ht.delivered, by omega, unpopped_elements ht, fun item i hpc => ⟨fun hread => ?_, ?_⟩⟩
  · obtain ⟨hi, hlt⟩ := ht.consumer_at hread
    exact ht.writing_apart hpc (Nat.le_refl _) (hlt.trans_le ht.seenHead_le) hi.symm
  · intro w hw hwi
    obtain ⟨k, hk, hk', hslot⟩ := slot_of_unpopped ht hw
    exact ht.writing_apart hpc hk hk' (hslot.symm.trans hwi)

/-- With one slot of room, the second push is about to write slot 1 after the
pop of the first element. -/
theorem delivers_in_order_secondPush :
    ∃ s, (system ℕ 1).run .start
        [.push 7, .pushLoadHead, .pushLoadTail 0, .pushWrite, .pushStoreHead,
          .pop, .popLoadTail, .popLoadHead 1, .popRead 1, .popStoreTail,
          .push 8, .pushLoadHead, .pushLoadTail 1] = some s ∧
      s.producer = .writing 8 1 ∧ s.popped <+: s.pushed ∧
      s.pushed.length ≤ s.popped.length + 1 ∧ ∀ w ∈ s.unpopped, w.1 ≠ 1 := by
  obtain ⟨s, hrun, hpc⟩ : ∃ s, (system ℕ 1).run .start
      [.push 7, .pushLoadHead, .pushLoadTail 0, .pushWrite, .pushStoreHead,
        .pop, .popLoadTail, .popLoadHead 1, .popRead 1, .popStoreTail,
        .push 8, .pushLoadHead, .pushLoadTail 1] = some s ∧ s.producer = .writing 8 1 :=
    ⟨_, rfl, rfl⟩
  obtain ⟨hdelivered, hlen, -, hslots⟩ :=
    delivers_in_order (by decide) (System.Reach.run (.init rfl) hrun)
  exact ⟨s, hrun, hpc, hdelivered, hlen, (hslots 8 1 hpc).2⟩

end CcSnippets.SpscRingBuffer

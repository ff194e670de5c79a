import CcSnippets.Core.Cyclic
import CcSnippets.Null.SpscRingBuffer.Observers

/-!
# CcSnippets.Null.SpscRingBuffer.Sequential

`spsc_ring_buffer` run by one thread, where any assignment of an element may throw.

Against it stands a **bounded queue**, which knows of no slots and no indices: the
two answer every sequence of calls alike (`calls_eq_queue`), and the observers tell
what the queue holds. A throwing assignment leaves what it has made of the slot
behind, in a slot that holds no element.
-/

namespace CcSnippets.SpscRingBuffer

open CcSnippets.Core Cyclic

variable {T : Type*}

/-! ### The code -/

/-- What an assignment of an element does. -/
inductive Assignment (T : Type*)
  /-- The target is now the value assigned. -/
  | completes
  /-- It throws; the target is left with `half`. -/
  | throws (half : T)
  deriving DecidableEq, Repr

/-- How a call ends. -/
inductive Result
  | returned (b : Bool)
  | threw
  deriving DecidableEq, Repr

/-- The members of the buffer. -/
structure Buffer (T : Type*) where
  head : ℕ
  tail : ℕ
  slots : List T
  deriving DecidableEq, Repr

/-- The constructor: `std::make_unique<T[]> (Capacity + 1)`, each slot `T ()`. -/
def Buffer.new (T : Type*) [Inhabited T] (capacity : ℕ) : Buffer T where
  head := 0
  tail := 0
  slots := List.replicate (wrap (capacity + 1)) default

/-- `push`: the buffer, what the argument is afterwards, and how the call ends. An
assignment leaves `left` in the argument. `none` is an assignment to no slot. -/
def Buffer.push (capacity : ℕ) (b : Buffer T) (item : T) (a : Assignment T) (left : T) :
    Option (Buffer T × T × Result) :=
  let currHead := b.head
  let nextHead := nextIndex capacity currHead
  if nextHead = b.tail then some (b, item, .returned false)
  else if currHead < b.slots.length then
    match a with
    | .completes =>
      some ({ b with slots := b.slots.set currHead item, head := nextHead }, left, .returned true)
    | .throws half => some ({ b with slots := b.slots.set currHead half }, left, .threw)
  else none

/-- `pop`: the buffer, what `elem` is afterwards, and how the call ends. `none` is a
copy of no slot. -/
def Buffer.pop (capacity : ℕ) (b : Buffer T) (elem : T) (a : Assignment T) :
    Option (Buffer T × T × Result) :=
  let currTail := b.tail
  if currTail = b.head then some (b, elem, .returned false)
  else
    b.slots[currTail]?.map fun item =>
      match a with
      | .completes => ({ b with tail := nextIndex capacity currTail }, item, .returned true)
      | .throws half => (b, half, .threw)

/-- A call, with its argument and what the assignment in it does. -/
inductive SeqCall (T : Type*)
  | push (item : T) (a : Assignment T) (left : T)
  | pop (elem : T) (a : Assignment T)
  deriving DecidableEq, Repr

def Buffer.call (capacity : ℕ) (b : Buffer T) : SeqCall T → Option (Buffer T × T × Result)
  | .push item a left => b.push capacity item a left
  | .pop elem a => b.pop capacity elem a

/-- One call after the other: the buffer, and for each call what its argument is
afterwards and how it ended. -/
def Buffer.calls (capacity : ℕ) (b : Buffer T) :
    List (SeqCall T) → Option (Buffer T × List (T × Result))
  | [] => some (b, [])
  | c :: cs =>
    (b.call capacity c).bind fun (b', answer) =>
      (b'.calls capacity cs).map fun (b'', answers) => (b'', answer :: answers)

/-! ### A bounded queue -/

namespace Queue

/-- What a queue of at most `capacity` elements, which holds `xs`, does. -/
def call (capacity : ℕ) (xs : List T) : SeqCall T → List T × T × Result
  | .push item a left =>
    if xs.length < capacity then
      match a with
      | .completes => (xs ++ [item], left, .returned true)
      | .throws _ => (xs, left, .threw)
    else (xs, item, .returned false)
  | .pop elem a =>
    match xs with
    | [] => ([], elem, .returned false)
    | x :: rest =>
      match a with
      | .completes => (rest, x, .returned true)
      | .throws half => (x :: rest, half, .threw)

def calls (capacity : ℕ) (xs : List T) : List (SeqCall T) → List T × List (T × Result)
  | [] => (xs, [])
  | c :: cs =>
    let (xs', answer) := call capacity xs c
    let (xs'', answers) := calls capacity xs' cs
    (xs'', answer :: answers)

end Queue

/-! ### The buffer holds the queue -/

/-- The slots from `tail_` up to `head_` hold `xs`, and one more slot is free. -/
structure Buffer.Holds (capacity : ℕ) (b : Buffer T) (xs : List T) : Prop where
  length_slots : b.slots.length = capacity + 1
  tail_le : b.tail ≤ capacity
  head_eq : b.head = (b.tail + xs.length) % (capacity + 1)
  bounded : xs.length ≤ capacity
  held : HoldsFrom b.slots b.tail xs

/-- The exact values of what the operations compute with the indices. -/
def computed (capacity head tail : ℕ) : List ℤ :=
  let modulus : ℤ := capacity + 1
  [modulus, head + 1, (head + 1) % modulus, tail + 1, (tail + 1) % modulus] ++
    if head ≥ tail then [(head : ℤ) - tail] else [(tail : ℤ) - head, modulus - (tail - head)]

/-- What is seen of a buffer that holds `xs`. -/
structure Buffer.Shows (capacity : ℕ) (b : Buffer T) (xs : List T) : Prop where
  size : SpscRingBuffer.size capacity b.head b.tail = xs.length
  isFull : SpscRingBuffer.isFull capacity b.head b.tail = true ↔ xs.length = capacity
  isEmpty : SpscRingBuffer.isEmpty b.head b.tail = true ↔ xs.length = 0
  head_le : b.head ≤ capacity
  tail_le : b.tail ≤ capacity
  length_slots : b.slots.length = capacity + 1
  /-- No index computation wraps or underflows. -/
  exact_range : ∀ n ∈ computed capacity b.head b.tail, 0 ≤ n ∧ n < 2 ^ 64

namespace Buffer.Holds

variable {capacity : ℕ} {b : Buffer T} {xs : List T}

theorem new [Inhabited T] (hcap : capacity + 1 < 2 ^ 64) :
    (Buffer.new T capacity).Holds capacity [] where
  length_slots := by
    rw [Buffer.new, List.length_replicate]
    exact Nat.mod_eq_of_lt hcap
  tail_le := Nat.zero_le _
  head_eq := rfl
  bounded := Nat.zero_le _
  held := HoldsFrom.nil _ _

theorem head_le (h : b.Holds capacity xs) : b.head ≤ capacity := by
  rw [h.head_eq]
  exact Nat.le_of_lt_succ (Nat.mod_lt _ (Nat.succ_pos _))

theorem tail_mod (h : b.Holds capacity xs) : b.tail = b.tail % (capacity + 1) :=
  (Nat.mod_eq_of_lt (Nat.lt_succ_of_le h.tail_le)).symm

/-- The index after `head_` counts one more element. -/
theorem nextIndex_head (hcap : capacity + 1 < 2 ^ 64) (h : b.Holds capacity xs) :
    nextIndex capacity b.head = (b.tail + (xs.length + 1)) % (capacity + 1) := by
  rw [h.head_eq, nextIndex_mod hcap, Nat.add_assoc]

/-- `head_` is one before `tail_` exactly where the queue is full. -/
theorem full_iff (hcap : capacity + 1 < 2 ^ 64) (h : b.Holds capacity xs) :
    nextIndex capacity b.head = b.tail ↔ ¬ xs.length < capacity := by
  rw [h.nextIndex_head hcap]
  constructor
  · intro hfull hlt
    refine slot_ne (m := capacity + 1) b.tail (Nat.succ_pos xs.length) (Nat.succ_lt_succ hlt) ?_
    rw [hfull, Nat.add_zero]
    exact h.tail_mod
  · intro hfull
    have hlength : xs.length = capacity := Nat.le_antisymm h.bounded (Nat.le_of_not_lt hfull)
    rw [hlength, Nat.add_mod_right]
    exact h.tail_mod.symm

/-- The indices are equal exactly where the queue is empty. -/
theorem empty_iff (h : b.Holds capacity xs) : b.tail = b.head ↔ xs = [] := by
  constructor
  · intro hempty
    by_contra hne
    have hpos : 0 < xs.length := List.length_pos_iff.mpr hne
    refine slot_ne (m := capacity + 1) b.tail hpos (Nat.lt_succ_of_le h.bounded) ?_
    rw [← h.head_eq, ← hempty, Nat.add_zero]
    exact h.tail_mod
  · intro hnil
    rw [h.head_eq, hnil]
    exact h.tail_mod

/-- What the slot at `head_` holds does not matter. -/
theorem set_head (h : b.Holds capacity xs) (y : T) :
    ({ b with slots := b.slots.set b.head y } : Buffer T).Holds capacity xs where
  length_slots := by rw [List.length_set, h.length_slots]
  tail_le := h.tail_le
  head_eq := h.head_eq
  bounded := h.bounded
  held := by
    have hset := h.held.set (by rw [h.length_slots]; exact Nat.lt_succ_of_le h.bounded) y
    rwa [h.length_slots, ← h.head_eq] at hset

theorem concat (hcap : capacity + 1 < 2 ^ 64) (h : b.Holds capacity xs)
    (hroom : xs.length < capacity) (x : T) :
    ({ b with slots := b.slots.set b.head x, head := nextIndex capacity b.head } :
      Buffer T).Holds capacity (xs ++ [x]) where
  length_slots := by rw [List.length_set, h.length_slots]
  tail_le := h.tail_le
  head_eq := by
    rw [List.length_append, List.length_singleton]
    exact h.nextIndex_head hcap
  bounded := by
    rw [List.length_append, List.length_singleton]
    exact hroom
  held := by
    have hset := h.held.concat (by rw [h.length_slots]; exact Nat.lt_succ_of_le h.bounded) x
    rwa [h.length_slots, ← h.head_eq] at hset

theorem rest (hcap : capacity + 1 < 2 ^ 64) {x : T} (h : b.Holds capacity (x :: xs)) :
    ({ b with tail := nextIndex capacity b.tail } : Buffer T).Holds capacity xs := by
  have hnext : nextIndex capacity b.tail = (b.tail + 1) % (capacity + 1) := by
    rw [h.tail_mod, nextIndex_mod hcap, ← h.tail_mod]
  refine ⟨h.length_slots, ?_, ?_, Nat.le_of_succ_le h.bounded, ?_⟩
  · rw [hnext]
    exact Nat.le_of_lt_succ (Nat.mod_lt _ (Nat.succ_pos _))
  · show b.head = (nextIndex capacity b.tail + xs.length) % (capacity + 1)
    rw [h.head_eq, hnext, Nat.mod_add_mod, List.length_cons, Nat.add_assoc, Nat.add_comm 1]
  · have htail := h.held.tail
    rwa [h.length_slots, ← hnext] at htail

/-! ### The calls -/

/-- **Step lemma.** A call does to the buffer what it does to the queue. -/
theorem call (hcap : capacity + 1 < 2 ^ 64) (h : b.Holds capacity xs) (c : SeqCall T) :
    ∃ b', b.call capacity c = some (b', (Queue.call capacity xs c).2) ∧
      b'.Holds capacity (Queue.call capacity xs c).1 := by
  cases c with
  | push item a left =>
    by_cases hroom : xs.length < capacity
    · have hslot : b.head < b.slots.length := by
        rw [h.length_slots]
        exact Nat.lt_succ_of_le h.head_le
      have hnext : nextIndex capacity b.head ≠ b.tail := by
        rw [Ne, h.full_iff hcap, not_not]
        exact hroom
      cases a with
      | completes =>
        refine ⟨_, ?_, by simpa [Queue.call, hroom] using h.concat hcap hroom item⟩
        simp [Buffer.call, Buffer.push, Queue.call, hroom, hslot, hnext]
      | throws half =>
        refine ⟨_, ?_, by simpa [Queue.call, hroom] using h.set_head half⟩
        simp [Buffer.call, Buffer.push, Queue.call, hroom, hslot, hnext]
    · refine ⟨b, ?_, by simpa [Queue.call, hroom] using h⟩
      simp [Buffer.call, Buffer.push, Queue.call, hroom, (h.full_iff hcap).mpr hroom]
  | pop elem a =>
    cases xs with
    | nil =>
      refine ⟨b, ?_, by simpa [Queue.call] using h⟩
      simp [Buffer.call, Buffer.pop, Queue.call, h.empty_iff.mpr rfl]
    | cons x rest =>
      have hne : b.tail ≠ b.head := by
        intro heq
        exact List.cons_ne_nil _ _ (h.empty_iff.mp heq)
      have hslot : b.slots[b.tail]? = some x := by
        refine h.held.head ?_
        rw [h.length_slots]
        exact Nat.lt_succ_of_le h.tail_le
      cases a with
      | completes =>
        refine ⟨_, ?_, by simpa [Queue.call] using h.rest hcap⟩
        simp [Buffer.call, Buffer.pop, Queue.call, hne, hslot]
      | throws half =>
        refine ⟨b, ?_, by simpa [Queue.call] using h⟩
        simp [Buffer.call, Buffer.pop, Queue.call, hne, hslot]

/-- **Run lemma.** -/
theorem calls (hcap : capacity + 1 < 2 ^ 64) (h : b.Holds capacity xs) (cs : List (SeqCall T)) :
    ∃ b', b.calls capacity cs = some (b', (Queue.calls capacity xs cs).2) ∧
      b'.Holds capacity (Queue.calls capacity xs cs).1 := by
  induction cs generalizing b xs with
  | nil => exact ⟨b, rfl, h⟩
  | cons c cs ih =>
    obtain ⟨m, hm, hheld⟩ := h.call hcap c
    obtain ⟨b', hb', hheld'⟩ := ih hheld
    refine ⟨b', ?_, hheld'⟩
    simp [Buffer.calls, Queue.calls, hm, hb']

/-! ### What is seen -/

theorem size_eq (hcap : capacity + 1 < 2 ^ 64) (h : b.Holds capacity xs) :
    SpscRingBuffer.size capacity b.head b.tail = xs.length := by
  obtain ⟨hle, hmod⟩ := size_mod hcap (b.tail + xs.length) b.tail
  rw [← h.head_eq, ← h.tail_mod] at hle hmod
  rw [h.head_eq, Nat.add_comm] at hmod
  rw [← h.head_eq] at hmod
  have heq : SpscRingBuffer.size capacity b.head b.tail ≡ xs.length [MOD capacity + 1] := by
    refine Nat.ModEq.add_left_cancel' b.tail ?_
    rw [Nat.ModEq, hmod, h.head_eq]
  exact heq.eq_of_lt_of_lt (Nat.lt_succ_of_le hle) (Nat.lt_succ_of_le h.bounded)

theorem shows (hcap : capacity + 1 < 2 ^ 64) (h : b.Holds capacity xs) : b.Shows capacity xs where
  size := h.size_eq hcap
  isFull := by
    rw [SpscRingBuffer.isFull, beq_iff_eq, h.full_iff hcap]
    have := h.bounded
    omega
  isEmpty := by
    rw [SpscRingBuffer.isEmpty, beq_iff_eq, List.length_eq_zero_iff, ← h.empty_iff]
    exact eq_comm
  head_le := h.head_le
  tail_le := h.tail_le
  length_slots := h.length_slots
  exact_range := by
    have hhead := h.head_le
    have htail := h.tail_le
    intro n hn
    simp only [computed, List.cons_append, List.nil_append, List.mem_cons] at hn
    have hmod : ∀ k : ℕ, 0 ≤ ((k : ℤ) + 1) % (capacity + 1) ∧
        ((k : ℤ) + 1) % (capacity + 1) < capacity + 1 := by
      intro k
      exact ⟨Int.emod_nonneg _ (by omega), Int.emod_lt_of_pos _ (by omega)⟩
    obtain ⟨hh0, hh1⟩ := hmod b.head
    obtain ⟨ht0, ht1⟩ := hmod b.tail
    rcases hn with rfl | rfl | rfl | rfl | rfl | hn
    · omega
    · omega
    · omega
    · omega
    · omega
    · split at hn
      · simp only [List.mem_singleton] at hn
        omega
      · simp only [List.mem_cons, List.not_mem_nil, or_false] at hn
        omega

end Buffer.Holds

/-- **One thread sees a bounded queue of exactly `Capacity` elements**, whatever
assignments throw: after any sequence of calls, the buffer has answered as the queue
has, and shows what the queue holds. -/
theorem calls_eq_queue [Inhabited T] {capacity : ℕ} (hcap : capacity + 1 < 2 ^ 64)
    (cs : List (SeqCall T)) :
    ∃ b xs answers, (Buffer.new T capacity).calls capacity cs = some (b, answers) ∧
      Queue.calls capacity [] cs = (xs, answers) ∧ b.Shows capacity xs := by
  obtain ⟨b, hb, hheld⟩ := (Buffer.Holds.new (T := T) hcap).calls hcap cs
  exact ⟨b, _, _, hb, rfl, hheld.shows hcap⟩

/-- Around the end of three slots, with an assignment that throws in each operation. -/
theorem calls_eq_queue_throws :
    ∃ b xs answers, (Buffer.new ℕ 2).calls 2
        [.push 1 .completes 0, .push 2 (.throws 9) 2, .push 2 .completes 0, .push 3 .completes 0,
          .pop 0 (.throws 8), .pop 0 .completes, .push 3 .completes 0] = some (b, answers) ∧
      Queue.calls 2 [] [.push 1 .completes 0, .push 2 (.throws 9) 2, .push 2 .completes 0,
          .push 3 .completes 0, .pop 0 (.throws 8), .pop 0 .completes, .push 3 .completes 0] =
        (xs, answers) ∧
      b.Shows 2 xs :=
  calls_eq_queue (by decide) _

end CcSnippets.SpscRingBuffer

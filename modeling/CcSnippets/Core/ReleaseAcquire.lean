import Mathlib.Data.List.Basic
import Mathlib.Logic.Function.Basic
import Mathlib.Order.BoundedOrder.Basic
import Mathlib.Order.Lattice
import Mathlib.Order.Nat

/-!
# CcSnippets.Core.ReleaseAcquire

Memory shared by threads under the memory orders of C++ atomics, **with stale
loads and without an order of all accesses**.

* The writes to a location have one order, its history; a load may return any of
  them that its thread has not seen overwritten.
* A `View` says what happens before a point of a run: of each thread how many of
  its events, of each location how far into its history. Two events of different
  threads are ordered only where the later one's view covers the earlier one.
* Views travel with messages. A releasing write sends its thread's view along; an
  acquiring load takes the view of the write it reads. A read-modify-write reads
  the newest write and keeps what that one released, whatever its own order is
  (the release sequence goes on); a plain store starts anew.

`seq_cst` is no more than acquire and release here: the single order of its accesses only
takes runs away, and none of those in which every load returns the newest write.

An access that is not atomic is an event that the model records (`tick`, `now`):
it races with an earlier conflicting event exactly where its view does not cover
that one.

Events that have to be known when the last of several parties leaves are
`Guarded` until then: a party that leaves releases what it knows, and the last one
acquires it.
-/

namespace CcSnippets.Core

/-- `std::memory_order`, without `consume`. -/
inductive MemoryOrder
  | relaxed
  | acquire
  | release
  | acqRel
  | seqCst
  deriving DecidableEq, Repr

namespace MemoryOrder

/-- A load under this order synchronizes with the releasing write it reads from. -/
def acquires : MemoryOrder → Bool
  | .acquire | .acqRel | .seqCst => true
  | .relaxed | .release => false

/-- A write under this order sends its thread's view along. -/
def releases : MemoryOrder → Bool
  | .release | .acqRel | .seqCst => true
  | .relaxed | .acquire => false

end MemoryOrder

/-- An event: its thread, and its number among that thread's events. -/
abbrev Event (τ : Type*) := τ × ℕ

/-- What happens before: how many events of each thread, and how far into the
history of each location. -/
abbrev View (τ ℓ : Type*) := τ ⊕ ℓ → ℕ

namespace View

variable {τ ℓ ι : Type*} {v w : View τ ℓ} {e : Event τ}

/-- The event is among those that happen before. -/
def Covers (v : View τ ℓ) (e : Event τ) : Prop := e.2 ≤ v (.inl e.1)

instance : Decidable (v.Covers e) := inferInstanceAs (Decidable (_ ≤ _))

theorem Covers.mono (hle : v ≤ w) (h : v.Covers e) : w.Covers e :=
  h.trans (hle _)

/-! ### Guarding -/

variable {f f' : ι → View τ ℓ} {G G' : ι → Prop}

/-- One of the guards `G`, whose views are `f`, knows the event, or `v` does. -/
def Guarded (f : ι → View τ ℓ) (G : ι → Prop) (v : View τ ℓ) (e : Event τ) : Prop :=
  (∃ i, G i ∧ (f i).Covers e) ∨ v.Covers e

/-- **Handing over.** The event stays guarded where every guard stays one with what
it knows, passes that on to another, or leaves it behind. -/
theorem Guarded.move (h : Guarded f G v e) (hv : v ≤ w)
    (hG : ∀ i, G i → f i ≤ w ∨ ∃ j, G' j ∧ f i ≤ f' j) : Guarded f' G' w e := by
  rcases h with hguard | hcovers
  · obtain ⟨i, hi, hknows⟩ := hguard
    rcases hG i hi with hleft | hpassed
    · exact .inr (hknows.mono hleft)
    · obtain ⟨j, hj, hle⟩ := hpassed
      exact .inl ⟨j, hj, hknows.mono hle⟩
  · exact .inr (hcovers.mono hv)

/-- With no guard left, the event has been left behind. -/
theorem Guarded.covers (h : Guarded f G v e) (hG : ∀ i, ¬ G i) : v.Covers e := by
  rcases h with hguard | hcovers
  · obtain ⟨i, hi, -⟩ := hguard
    exact absurd hi (hG i)
  · exact hcovers

end View

/-- A write to a location: its value, and what an acquiring load of it learns. -/
structure Message (τ ℓ ν : Type*) where
  value : ν
  released : View τ ℓ

/-- What each thread knows, and the writes to each location, oldest first. -/
structure Memory (τ ℓ ν : Type*) where
  view : τ → View τ ℓ
  history : ℓ → List (Message τ ℓ ν)

namespace Memory

variable {τ ℓ ν : Type*}

/-- Every location as initialized, and nothing known. -/
def start (values : ℓ → ν) : Memory τ ℓ ν where
  view _ := ⊥
  history x := [⟨values x, ⊥⟩]

/-- What a write released: nothing where there is no such write. -/
def releasedAt (m : Memory τ ℓ ν) (x : ℓ) (i : ℕ) : View τ ℓ :=
  match (m.history x)[i]? with
  | some msg => msg.released
  | none => ⊥

/-- What the newest write to a location released. -/
def newest (m : Memory τ ℓ ν) (x : ℓ) : View τ ℓ :=
  match (m.history x).getLast? with
  | some msg => msg.released
  | none => ⊥

/-- The value of write number `i`, where thread `t` may still read it. -/
def readable (m : Memory τ ℓ ν) (t : τ) (x : ℓ) (i : ℕ) : Option ν :=
  if m.view t (.inr x) ≤ i then (m.history x)[i]?.map Message.value else none

/-- The last event of thread `t`. -/
def now (m : Memory τ ℓ ν) (t : τ) : Event τ := (t, m.view t (.inl t))

section Steps

variable [DecidableEq τ] [DecidableEq ℓ]

/-- Thread `t` learns `v`. -/
def learn (m : Memory τ ℓ ν) (t : τ) (v : View τ ℓ) : Memory τ ℓ ν :=
  { m with view := Function.update m.view t (m.view t ⊔ v) }

/-- Thread `u` synchronizes with thread `t`, as a hand-over without a race has to. -/
def handOver (m : Memory τ ℓ ν) (t u : τ) : Memory τ ℓ ν := m.learn u (m.view t)

/-- The next event of thread `t`. -/
def tick (m : Memory τ ℓ ν) (t : τ) : Memory τ ℓ ν :=
  m.learn t (Function.update ⊥ (.inl t) (m.view t (.inl t) + 1))

/-- Thread `t` has seen write number `i` to location `x`. -/
def see (m : Memory τ ℓ ν) (t : τ) (x : ℓ) (i : ℕ) : Memory τ ℓ ν :=
  m.learn t (Function.update ⊥ (.inr x) i)

/-- Thread `t` loads write number `i` to location `x`. -/
def load (m : Memory τ ℓ ν) (order : MemoryOrder) (t : τ) (x : ℓ) (i : ℕ) : Memory τ ℓ ν :=
  ((m.tick t).see t x i).learn t (if order.acquires then m.releasedAt x i else ⊥)

/-- A write is appended to the history of location `x`. -/
def append (m : Memory τ ℓ ν) (x : ℓ) (msg : Message τ ℓ ν) : Memory τ ℓ ν :=
  { m with history := Function.update m.history x (m.history x ++ [msg]) }

/-- Thread `t` stores `value` in location `x`. -/
def store (m : Memory τ ℓ ν) (order : MemoryOrder) (t : τ) (x : ℓ) (value : ν) : Memory τ ℓ ν :=
  let m := (m.tick t).see t x (m.history x).length
  m.append x ⟨value, if order.releases then m.view t else ⊥⟩

/-- Thread `t` replaces the newest value of location `x` by `value`. -/
def exchange (m : Memory τ ℓ ν) (order : MemoryOrder) (t : τ) (x : ℓ) (value : ν) :
    Memory τ ℓ ν :=
  let old := m.newest x
  let m := ((m.tick t).see t x (m.history x).length).learn t (if order.acquires then old else ⊥)
  m.append x ⟨value, old ⊔ if order.releases then m.view t else ⊥⟩

end Steps

/-! ### What a step keeps -/

/-- Nothing that is known is forgotten, and nothing that was released is lost. -/
structure Grows (m m' : Memory τ ℓ ν) : Prop where
  view : ∀ u, m.view u ≤ m'.view u
  newest : ∀ x, m.newest x ≤ m'.newest x

theorem Grows.trans {m m' m'' : Memory τ ℓ ν} (h : Grows m m') (h' : Grows m' m'') :
    Grows m m'' :=
  ⟨fun u => (h.view u).trans (h'.view u), fun x => (h.newest x).trans (h'.newest x)⟩

section Views

variable [DecidableEq τ]

@[simp] theorem learn_view_self (m : Memory τ ℓ ν) (t : τ) (v : View τ ℓ) :
    (m.learn t v).view t = m.view t ⊔ v := Function.update_self _ _ _

theorem learn_view_of_ne (m : Memory τ ℓ ν) {t u : τ} (h : u ≠ t) (v : View τ ℓ) :
    (m.learn t v).view u = m.view u := Function.update_of_ne h _ _

theorem learn_grows (m : Memory τ ℓ ν) (t : τ) (v : View τ ℓ) : Grows m (m.learn t v) where
  view u := by
    by_cases h : u = t
    · subst h
      rw [learn_view_self]
      exact le_sup_left
    · rw [learn_view_of_ne m h]
  newest _ := le_rfl

theorem handOver_grows (m : Memory τ ℓ ν) (t u : τ) : Grows m (m.handOver t u) :=
  learn_grows m u _

/-- Taking over somebody's view, one knows at least as much. -/
theorem handOver_view_le (m : Memory τ ℓ ν) (t u : τ) : m.view t ≤ (m.handOver t u).view u := by
  unfold handOver
  rw [learn_view_self]
  exact le_sup_right

end Views

section Histories

variable [DecidableEq ℓ]

@[simp] theorem append_view (m : Memory τ ℓ ν) (x : ℓ) (msg : Message τ ℓ ν) :
    (m.append x msg).view = m.view := rfl

@[simp] theorem append_history_self (m : Memory τ ℓ ν) (x : ℓ) (msg : Message τ ℓ ν) :
    (m.append x msg).history x = m.history x ++ [msg] := Function.update_self _ _ _

theorem append_history_of_ne (m : Memory τ ℓ ν) {x y : ℓ} (h : y ≠ x) (msg : Message τ ℓ ν) :
    (m.append x msg).history y = m.history y := Function.update_of_ne h _ _

@[simp] theorem append_newest_self (m : Memory τ ℓ ν) (x : ℓ) (msg : Message τ ℓ ν) :
    (m.append x msg).newest x = msg.released := by
  unfold newest
  rw [append_history_self, List.getLast?_concat]

theorem append_newest_of_ne (m : Memory τ ℓ ν) {x y : ℓ} (h : y ≠ x) (msg : Message τ ℓ ν) :
    (m.append x msg).newest y = m.newest y := by
  unfold newest
  rw [append_history_of_ne m h]

/-- A write leaves the earlier ones as they are. -/
theorem append_releasedAt_of_lt (m : Memory τ ℓ ν) (x : ℓ) (msg : Message τ ℓ ν) {i : ℕ}
    (h : i < (m.history x).length) : (m.append x msg).releasedAt x i = m.releasedAt x i := by
  unfold releasedAt
  rw [append_history_self, List.getElem?_append_left h]

@[simp] theorem append_releasedAt_self (m : Memory τ ℓ ν) (x : ℓ) (msg : Message τ ℓ ν) :
    (m.append x msg).releasedAt x (m.history x).length = msg.released := by
  unfold releasedAt
  rw [append_history_self, List.getElem?_concat_length]

theorem append_releasedAt_of_ne (m : Memory τ ℓ ν) {x y : ℓ} (h : y ≠ x) (msg : Message τ ℓ ν)
    (i : ℕ) : (m.append x msg).releasedAt y i = m.releasedAt y i := by
  unfold releasedAt
  rw [append_history_of_ne m h]

/-- A write keeps what the newest one released where it releases that too. -/
theorem append_grows (m : Memory τ ℓ ν) {x : ℓ} {msg : Message τ ℓ ν}
    (h : m.newest x ≤ msg.released) : Grows m (m.append x msg) where
  view _ := le_rfl
  newest y := by
    by_cases hy : y = x
    · subst hy
      rw [append_newest_self]
      exact h
    · rw [append_newest_of_ne m hy]

end Histories

variable [DecidableEq τ] [DecidableEq ℓ]

theorem tick_grows (m : Memory τ ℓ ν) (t : τ) : Grows m (m.tick t) := learn_grows m t _

/-- Events are numbered from one, so nobody knows one at the start. -/
theorem now_pos (m : Memory τ ℓ ν) (t : τ) : 0 < ((m.tick t).now t).2 := by
  have hnow : ((m.tick t).now t).2 = max (m.view t (.inl t)) (m.view t (.inl t) + 1) := by
    unfold now tick
    rw [learn_view_self, Pi.sup_apply, Function.update_self]
  omega

theorem see_grows (m : Memory τ ℓ ν) (t : τ) (x : ℓ) (i : ℕ) : Grows m (m.see t x i) :=
  learn_grows m t _

theorem load_grows (m : Memory τ ℓ ν) (order : MemoryOrder) (t : τ) (x : ℓ) (i : ℕ) :
    Grows m (m.load order t x i) :=
  ((tick_grows m t).trans (see_grows _ t x i)).trans (learn_grows _ t _)

section Exchange

variable (m : Memory τ ℓ ν) (order : MemoryOrder) (t : τ) (x : ℓ) (value : ν)

/-- A read-modify-write goes on with the release sequence, whatever its order. -/
theorem exchange_grows : Grows m (m.exchange order t x value) := by
  refine Grows.trans ?_ (append_grows _ le_sup_left)
  exact ((tick_grows m t).trans (see_grows _ t x _)).trans (learn_grows _ t _)

theorem exchange_newest_of_ne {y : ℓ} (h : y ≠ x) :
    (m.exchange order t x value).newest y = m.newest y :=
  append_newest_of_ne _ h _

/-- A releasing one leaves behind all that its thread knows, -/
theorem exchange_view_le (h : order.releases = true) :
    (m.exchange order t x value).view t ≤ (m.exchange order t x value).newest x := by
  unfold exchange
  rw [append_view, append_newest_self, if_pos h]
  exact le_sup_right

/-- an acquiring one learns all that was left behind before, -/
theorem newest_le_exchange_view (h : order.acquires = true) :
    m.newest x ≤ (m.exchange order t x value).view t := by
  unfold exchange
  rw [append_view, learn_view_self, if_pos h]
  exact le_sup_right

/-- and so knows all that it leaves behind. -/
theorem exchange_newest_le (h : order.acquires = true) :
    (m.exchange order t x value).newest x ≤ (m.exchange order t x value).view t := by
  have hold := newest_le_exchange_view m order t x value h
  unfold exchange at hold ⊢
  rw [append_view] at hold ⊢
  rw [append_newest_self]
  refine sup_le hold ?_
  split
  · exact le_rfl
  · exact bot_le

theorem exchange_history_self :
    ∃ v, (m.exchange order t x value).history x = m.history x ++ [⟨value, v⟩] :=
  ⟨_, append_history_self _ _ _⟩

theorem exchange_history_of_ne {y : ℓ} (h : y ≠ x) :
    (m.exchange order t x value).history y = m.history y :=
  append_history_of_ne _ h _

end Exchange

section LoadStore

variable (m : Memory τ ℓ ν) (order : MemoryOrder) (t : τ) (x : ℓ)

/-- An acquiring load learns what the write it reads has released. -/
theorem releasedAt_le_load_view (i : ℕ) (h : order.acquires = true) :
    m.releasedAt x i ≤ (m.load order t x i).view t := by
  unfold load
  rw [learn_view_self, if_pos h]
  exact le_sup_right

theorem view_le_store_view (value : ν) (u : τ) : m.view u ≤ (m.store order t x value).view u :=
  ((tick_grows m t).trans (see_grows _ t x _)).view u

theorem store_history_length (value : ν) :
    ((m.store order t x value).history x).length = (m.history x).length + 1 := by
  unfold store
  rw [append_history_self, List.length_append, List.length_singleton]
  rfl

theorem store_history_of_ne (value : ν) {y : ℓ} (h : y ≠ x) :
    (m.store order t x value).history y = m.history y :=
  append_history_of_ne _ h _

/-- A store leaves the earlier writes as they are. -/
theorem store_releasedAt_of_lt (value : ν) {i : ℕ} (h : i < (m.history x).length) :
    (m.store order t x value).releasedAt x i = m.releasedAt x i :=
  append_releasedAt_of_lt ((m.tick t).see t x _) x _ h

/-- A releasing store sends along all that its thread knows. -/
theorem view_le_store_releasedAt (value : ν) (h : order.releases = true) :
    (m.store order t x value).view t ≤
      (m.store order t x value).releasedAt x (m.history x).length := by
  have hlast := append_releasedAt_self ((m.tick t).see t x (m.history x).length) x
    ⟨value, ((m.tick t).see t x (m.history x).length).view t⟩
  simp only [store, h, if_true]
  exact hlast.ge

end LoadStore

end Memory

end CcSnippets.Core

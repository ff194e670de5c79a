import CcSnippets.Core.Inclusion
import CcSnippets.Null.LruCache.ClosedForm

/-!
# CcSnippets.Null.LruCache.Inclusion

Two caches given the same calls, one with a larger capacity: **what the smaller
one holds, the larger one holds**, in the same order and with the same values,
so a larger capacity never turns a hit into a miss.

The two runs go through different nodes and evict at different calls; they are
compared through what their lists hold, as bounded recency lists.
-/

namespace CcSnippets.LruCache

open CcSnippets.Core Recency

variable {K V : Type*} [DecidableEq K]

/-- Two caches after the same calls, the second with at least the capacity of
the first. -/
structure Nested (c d : Cache K V) : Prop where
  small : c.Corresponds
  large : d.Corresponds
  capacity : c.capacity ≤ d.capacity
  included : Included c.capacity c.entries d.entries

namespace Nested

variable {c d : Cache K V}

/-- **One call of both caches keeps them nested.** -/
theorem call (h : Nested c d) (op : Op K V) :
    ∃ c' d' out out', c.call op none = some (c', out) ∧ d.call op none = some (d', out') ∧
      Nested c' d' := by
  obtain ⟨c', out, hc, hec⟩ := call_effect h.small.toWellFormed op none
  obtain ⟨d', out', hd, hed⟩ := call_effect h.large.toWellFormed op none
  have hcapc := hec.capacity h.small.toWellFormed
  have hcapd := hed.capacity h.large.toWellFormed
  have hentries := (hec.refines h.small).entries
  have hentries' := (hed.refines h.large).entries
  refine ⟨c', d', out, out', hc, hd, hec.corresponds h.small (not_cutShort_none _ _),
    hed.corresponds h.large (not_cutShort_none _ _), ?_, ?_⟩
  · rw [hcapc, hcapd]
    exact h.capacity
  · rw [hcapc, hentries, hentries']
    cases op with
    | get key => exact h.included.get key
    | put key value =>
      refine h.included.put h.small.positive h.capacity ?_ key value
      rw [Cache.length_entries h.large.toWellFormed]
      exact h.large.bounded

/-- A `get` that hits in the smaller cache hits in the larger one, with the same
value. -/
theorem get (h : Nested c d) (k : K) :
    ∃ c' it d' it', c.get k = some (c', .pointer it) ∧ d.get k = some (d', .pointer it') ∧
      ∀ n, it = some n →
        ∃ m v, it' = some m ∧ c'.node n = some (k, v) ∧ d'.node m = some (k, v) := by
  obtain ⟨c', out, hc, hec⟩ := call_effect h.small.toWellFormed (.get k) none
  obtain ⟨d', out', hd, hed⟩ := call_effect h.large.toWellFormed (.get k) none
  obtain ⟨-, it, rfl, hit⟩ := hec.refines h.small
  obtain ⟨-, it', rfl, hit'⟩ := hed.refines h.large
  refine ⟨c', it, d', it', hc, hd, ?_⟩
  intro n hn
  rw [hn, Option.map_some] at hit
  obtain ⟨v, hv, hnode⟩ := Option.map_eq_some_iff.mp hit.symm
  rw [h.included.find_eq_some hv, Option.map_some] at hit'
  obtain ⟨m, hm, hnode'⟩ := Option.map_eq_some_iff.mp hit'
  exact ⟨m, v, hm, hnode.symm, hnode'⟩

/-- The same calls, one after the other. -/
theorem run (c₀ d₀ : Cache K V) {s t : State K V} (h : Nested s.cache t.cache)
    (ops : List (Op K V)) :
    ∃ s' t', (system c₀).run s (ops.map fun op => (op, none)) = some s' ∧
      (system d₀).run t (ops.map fun op => (op, none)) = some t' ∧ Nested s'.cache t'.cache := by
  induction ops generalizing s t with
  | nil => exact ⟨s, t, rfl, rfl, h⟩
  | cons op ops ih =>
    obtain ⟨c', d', out, out', hc, hd, hnext⟩ := h.call op
    obtain ⟨s', t', hs, ht, hlast⟩ := @ih (s.after c' op out) (t.after d' op out') hnext
    refine ⟨s', t', System.run_cons_eq_some.mpr ⟨_, ?_, hs⟩,
      System.run_cons_eq_some.mpr ⟨_, ?_, ht⟩, hlast⟩
    · simp only [system, hc, Option.map_some, State.after]
    · simp only [system, hd, Option.map_some, State.after]

theorem start {m n : ℕ} (hc : Cache.new K V m = .ok c) (hd : Cache.new K V n = .ok d)
    (hmn : m ≤ n) : Nested c d := by
  obtain ⟨hsmall, hcapc, hlistc⟩ := new_corresponds hc
  obtain ⟨hlarge, hcapd, hlistd⟩ := new_corresponds hd
  have hempty : c.entries = d.entries := by
    rw [Cache.entries, Cache.entries, hlistc, hlistd, List.filterMap_nil, List.filterMap_nil]
  refine ⟨hsmall, hlarge, ?_, Cache.nodup_keys hlarge, ?_, ?_, fun _ => hempty⟩
  · rwa [hcapc, hcapd]
  · rw [hempty]
  · rw [Cache.length_entries hsmall.toWellFormed]
    exact hsmall.bounded

end Nested

/-- **The inclusion property**: for all capacities `m ≤ n` and every sequence of
calls (so after every prefix of one), the recency list of the smaller cache is a
sublist of that of the larger, and a `get` that hits in the smaller cache hits
in the larger one with the same value. -/
theorem larger_cache_includes {m n : ℕ} {c₀ d₀ : Cache K V} (hc : Cache.new K V m = .ok c₀)
    (hd : Cache.new K V n = .ok d₀) (hmn : m ≤ n) (ops : List (Op K V)) :
    ∃ s t, (system c₀).run { cache := c₀, calls := [] } (ops.map fun op => (op, none)) = some s ∧
      (system d₀).run { cache := d₀, calls := [] } (ops.map fun op => (op, none)) = some t ∧
      s.cache.entries.Sublist t.cache.entries ∧
      ∀ k, ∃ c' it d' it', s.cache.get k = some (c', .pointer it) ∧
        t.cache.get k = some (d', .pointer it') ∧
        ∀ i, it = some i →
          ∃ j v, it' = some j ∧ c'.node i = some (k, v) ∧ d'.node j = some (k, v) := by
  have hstart : Nested c₀ d₀ := Nested.start hc hd hmn
  obtain ⟨s, t, hs, ht, h⟩ := Nested.run c₀ d₀
    (s := { cache := c₀, calls := [] }) (t := { cache := d₀, calls := [] }) hstart ops
  exact ⟨s, t, hs, ht, h.included.sublist, h.get⟩

/-- The `get` of 1 hits only in the larger cache, which moves 1 to the front
there: the smaller list is no prefix of the larger. -/
theorem larger_cache_includes_two_three :
    ∃ c₀ d₀ s t, Cache.new ℕ ℕ 2 = .ok c₀ ∧ Cache.new ℕ ℕ 3 = .ok d₀ ∧
      (system c₀).run { cache := c₀, calls := [] }
        ([.put 1 10, .put 2 20, .put 3 30, .get 1, .put 4 40].map fun op => (op, none)) = some s ∧
      (system d₀).run { cache := d₀, calls := [] }
        ([.put 1 10, .put 2 20, .put 3 30, .get 1, .put 4 40].map fun op => (op, none)) = some t ∧
      s.cache.entries.Sublist t.cache.entries ∧
      s.cache.entries = [(4, 40), (3, 30)] ∧ t.cache.entries = [(4, 40), (1, 10), (3, 30)] := by
  obtain ⟨s, t, hs, ht, hsub, -⟩ := @larger_cache_includes ℕ ℕ _ 2 3 _ _ rfl rfl (by omega)
    [.put 1 10, .put 2 20, .put 3 30, .get 1, .put 4 40]
  refine ⟨_, _, s, t, rfl, rfl, hs, ht, hsub, ?_, ?_⟩
  · have hentries : (some s).map (fun s => s.cache.entries) = some [(4, 40), (3, 30)] := by
      rw [← hs]
      rfl
    exact Option.some.inj hentries
  · have hentries : (some t).map (fun t => t.cache.entries) = some [(4, 40), (1, 10), (3, 30)] := by
      rw [← ht]
      rfl
    exact Option.some.inj hentries

end CcSnippets.LruCache

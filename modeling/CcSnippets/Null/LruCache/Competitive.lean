import CcSnippets.Core.Paging
import CcSnippets.Null.LruCache.ClosedForm

/-!
# CcSnippets.Null.LruCache.Competitive

How often `lru_cache` has to insert an entry, **against any other cache**.

An entry is inserted where a `put` does not find its key: the cache had it not, or had
it no longer. Over any sequence of calls that is a miss of the bounded recency list in
the history of uses (`counted_run`), so the cache of `k` entries inserts at most
`k / (k + 1 - h)` times as many, but for a constant, as any cache of `h` entries has to
load for the same uses, one that knows all of them beforehand included (`competitive`).
-/

namespace CcSnippets.LruCache

open CcSnippets.Core Recency

variable {K V : Type*} [DecidableEq K]

/-- The entries inserted are the misses of the recency list. -/
structure Counted (room : ℕ) (s : State K V) : Prop where
  recent : Recent room s
  inserted : s.cache.allocated = faults room (uses s.calls)

variable {room : ℕ} {c₀ : Cache K V} {s s' : State K V}

/-- A key that is held is used. -/
theorem Counted.faults_held (hs : Counted room s) {key : K}
    (hkey : key ∈ s.cache.entries.map Prod.fst) :
    faults room (uses s.calls ++ [key]) = faults room (uses s.calls) := by
  rw [hs.recent.keys] at hkey
  rw [faults_concat, if_pos hkey, Nat.add_zero]

/-- **One call** inserts an entry exactly where it uses a key that is not held. -/
theorem counted_next (hs : Counted room s) {op : Op K V}
    (h : (system c₀).next s (op, none) = some s') : Counted room s' := by
  obtain ⟨r, hr, rfl⟩ := Option.map_eq_some_iff.mp h
  obtain ⟨c', out⟩ := r
  have hrecent : Recent room (s.after c' op out) := by
    have hnext : ∃ t, (system c₀).next s (op, none) = some t ∧ Recent room t :=
      recent_next hs.recent op
    obtain ⟨t, ht, hrecent⟩ := hnext
    obtain rfl := Option.some.inj (ht.symm.trans h)
    exact hrecent
  refine ⟨hrecent, ?_⟩
  have hwf := hs.recent.corresponds.toWellFormed
  show c'.allocated = faults room (uses (s.after c' op out).calls)
  cases effect_of_call hwf hr with
  | miss _ =>
    rw [uses_after_of_none rfl]
    exact hs.inserted
  | hit hkey _ =>
    have hheld := (Cache.mem_keys hs.recent.corresponds).mpr ⟨_, hkey⟩
    rw [uses_after_of_some rfl, hs.faults_held hheld]
    exact hs.inserted
  | overwrite hkey _ =>
    have hheld := (Cache.mem_keys hs.recent.corresponds).mpr ⟨_, hkey⟩
    rw [uses_after_of_some rfl, hs.faults_held hheld]
    exact hs.inserted
  | @insert key value _ r hkey hmade _ =>
    have hnot := find_eq_none.mp (Cache.find_entries_of_none hs.recent.corresponds hkey)
    rw [hs.recent.keys] at hnot
    rw [uses_after_of_some rfl, faults_concat, if_neg hnot, ← hs.inserted,
      ← (node_of_makeRoom hwf hmade 0).1]
    rfl

theorem counted_run (hs : Counted room s) {ops : List (Op K V)}
    (h : (system c₀).run s (ops.map fun op => (op, none)) = some s') : Counted room s' := by
  induction ops generalizing s with
  | nil =>
    obtain rfl : s = s' := Option.some.inj h
    exact hs
  | cons op ops ih =>
    obtain ⟨m, hm, hrest⟩ := System.run_cons_eq_some.mp h
    exact ih (counted_next hs hm) hrest

/-- **The cache is competitive**: over any sequence of calls it inserts at most
`k / (k + 1 - h)` times as many entries as any cache of `h ≤ k` entries has to load to
serve the same uses, but for a constant. -/
theorem competitive {capacity h n : ℕ} (hnew : Cache.new K V capacity = .ok c₀)
    {ops : List (Op K V)}
    (hrun : (system c₀).run { cache := c₀, calls := [] } (ops.map fun op => (op, none)) = some s)
    {C : Finset K} (hs : Service h (uses s.calls) C n) (hh : 0 < h) (hk : h ≤ capacity) :
    2 * ((capacity + 1 - h) * s.cache.allocated) ≤
      2 * (capacity * n) + capacity * (capacity + 1) := by
  have hstart : Counted capacity { cache := c₀, calls := [] } := by
    refine ⟨recent_start hnew, ?_⟩
    rw [Cache.new] at hnew
    split at hnew
    · cases hnew
    · obtain rfl := Except.ok.inj hnew
      rfl
  rw [(counted_run hstart hrun).inserted]
  exact faults_le_of_service hs hh hk

/-- The keys 1, 2, 1, 3, 2 used: the cache of two entries inserts four, where three
loads are enough. -/
theorem competitive_two :
    ∃ c₀ s, Cache.new ℕ ℕ 2 = .ok c₀ ∧
      (system c₀).run { cache := c₀, calls := [] }
        ([.put 1 10, .put 2 20, .get 1, .put 3 30, .put 2 20].map fun op => (op, none)) = some s ∧
      s.cache.allocated = 4 ∧
      2 * ((2 + 1 - 2) * s.cache.allocated) ≤ 2 * (2 * 3) + 2 * (2 + 1) := by
  obtain ⟨s, hrun, huses, hinserted⟩ : ∃ s, (system (Cache.empty ℕ ℕ 2)).run
      { cache := Cache.empty ℕ ℕ 2, calls := [] }
      ([.put 1 10, .put 2 20, .get 1, .put 3 30, .put 2 20].map fun op => (op, none)) = some s ∧
      uses s.calls = [1, 2, 1, 3, 2] ∧ s.cache.allocated = 4 := ⟨_, rfl, rfl, rfl⟩
  have hserves : Service 2 [1, 2, 1, 3, 2] {2, 3} 3 := by
    have h₁ : Service 2 [1] {1} 1 := .load .nil (by simp) ⟨by decide, by decide, by decide⟩
    have h₂ : Service 2 [1, 2] {1, 2} 2 := .load h₁ (by decide) ⟨by decide, by decide, by decide⟩
    have h₃ : Service 2 [1, 2, 1] {1, 2} 2 := .hit h₂ (by decide) ⟨by decide, by decide, by decide⟩
    have h₄ : Service 2 [1, 2, 1, 3] {2, 3} 3 :=
      .load h₃ (by decide) ⟨by decide, by decide, by decide⟩
    exact .hit h₄ (by decide) ⟨by decide, by decide, by decide⟩
  rw [← huses] at hserves
  exact ⟨_, s, rfl, hrun, hinserted, competitive rfl hrun hserves (by decide) le_rfl⟩

end CcSnippets.LruCache

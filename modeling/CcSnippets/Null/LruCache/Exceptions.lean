import CcSnippets.Null.LruCache.ClosedForm

/-!
# CcSnippets.Null.LruCache.Exceptions

What an exception in `put` does to the cache.

`put` changes two containers in four steps. When `list_.push_front` throws, the
eviction before it has taken the back out of both, and they still correspond.
When `map_[key]` throws, the node pushed for the key is in `list_` and not in
`map_`; **that is the only call that breaks the cache** (`intact_iff`). The harm
shows later: the next `put` of the key pushes a second node, and the eviction of
the first one erases the map entry of the second.
-/

namespace CcSnippets.LruCache

open CcSnippets.Core Recency

variable {K V : Type*} [DecidableEq K]

/-- `list_` and `map_` correspond one to one. -/
structure OneToOne (c : Cache K V) : Prop where
  /-- No two nodes of the list have the same key. -/
  distinct : ∀ n ∈ c.list, ∀ m ∈ c.list, (c.node n).map Prod.fst = (c.node m).map Prod.fst → n = m
  /-- Every node's key is mapped to that node. -/
  mapped : ∀ n ∈ c.list, ∃ k v, c.node n = some (k, v) ∧ c.map.lookup k = some n
  /-- Every map entry points to a live node with its key. -/
  points : ∀ k n, c.map.lookup k = some n → n ∈ c.list ∧ ∃ v, c.node n = some (k, v)
  /-- Both have the same size. -/
  size : c.map.keys.card = c.list.length
  bounded : c.list.length ≤ c.capacity

/-- The cache corresponds one to one, so that it still behaves as an LRU cache
and loses no key but by an eviction. -/
structure Intact (c : Cache K V) : Prop where
  oneToOne : OneToOne c
  /-- Any call that does not throw does what an LRU cache does. -/
  lru : ∀ op, ∃ c' out, c.call op none = some (c', out) ∧ LruStep c op c' out
  /-- Any call, throwing or not, takes out of the map only what it evicts. -/
  lost : ∀ op throws c' out, c.call op throws = some (c', out) →
    ∀ k ∈ c.map, k ∉ c'.map → Evicts c k op

theorem oneToOne_of_corresponds {c : Cache K V} (hc : c.Corresponds) : OneToOne c where
  distinct n hn m hm h := by
    obtain ⟨k, v, hk⟩ := hc.entry hn
    obtain ⟨j, w, hj⟩ := hc.entry hm
    rw [hk, hj, Option.map_some, Option.map_some] at h
    obtain rfl : k = j := Option.some.inj h
    exact Option.some.inj ((hc.mapped n k v hk).symm.trans (hc.mapped m k w hj))
  mapped n hn := by
    obtain ⟨k, v, hk⟩ := hc.entry hn
    exact ⟨k, v, hk, hc.mapped n k v hk⟩
  points k n hk := by
    obtain ⟨v, hv⟩ := hc.points k n hk
    exact ⟨hc.mem hv, v, hv⟩
  size := by
    have hkeys : c.map.keys = (c.entries.map Prod.fst).toFinset := by
      ext k
      rw [Finmap.mem_keys, Finmap.mem_iff, List.mem_toFinset, Cache.mem_keys hc]
    rw [hkeys, List.toFinset_card_of_nodup (Cache.nodup_keys hc), List.length_map,
      Cache.length_entries hc.toWellFormed]
  bounded := hc.bounded

theorem corresponds_of_oneToOne {c : Cache K V} (hc : c.WellFormed) (h : OneToOne c) :
    c.Corresponds where
  toWellFormed := hc
  mapped n k v hk := by
    obtain ⟨j, w, hj, hmap⟩ := h.mapped n (hc.mem hk)
    obtain ⟨rfl, -⟩ := Prod.mk.inj (Option.some.inj (hk.symm.trans hj))
    exact hmap

theorem intact_iff_corresponds {c : Cache K V} (hc : c.WellFormed) :
    Intact c ↔ c.Corresponds := by
  refine ⟨fun h => corresponds_of_oneToOne hc h.oneToOne, fun hcorr => ⟨?_, fun op => ?_, ?_⟩⟩
  · exact oneToOne_of_corresponds hcorr
  · obtain ⟨c', out, hcall, he⟩ := call_effect hc op none
    exact ⟨c', out, hcall, he.refines hcorr⟩
  · intro op throws c' out hcall k hk hk'
    exact (effect_of_call hc hcall).evicts_of_lost hc hk hk'

/-- **An exception corrupts the cache exactly where `map_[key]` throws.** Along
any run, every state is intact if and only if no step is a `put` of an absent
key whose `map_[key]` throws. -/
theorem intact_iff {capacity : ℕ} {c₀ : Cache K V} (h : Cache.new K V capacity = .ok c₀)
    (ls : List (Op K V × Option Throw)) :
    (system c₀).EveryState (fun s => Intact s.cache) { cache := c₀, calls := [] } ls ↔
      (system c₀).EveryStep (fun s l => ¬ CutShort s.cache l) { cache := c₀, calls := [] } ls := by
  have hc₀ := (new_corresponds h).1
  refine System.everyState_iff_everyStep (I := fun s : State K V => s.cache.WellFormed) ?_ ?_
    hc₀.toWellFormed ((intact_iff_corresponds hc₀.toWellFormed).mpr hc₀) ls
  · intro s l hs
    obtain ⟨c', out, hcall, he⟩ := call_effect hs l.1 l.2
    exact ⟨s.after c' l.1 out, by simp [system, hcall, State.after], he.wellFormed hs⟩
  · intro s l s' hs hintact hnext
    obtain ⟨⟨c', out⟩, hcall, rfl⟩ := Option.map_eq_some_iff.mp hnext
    have he := effect_of_call hs hcall
    rw [intact_iff_corresponds (he.wellFormed hs)]
    refine ⟨fun hcorr hcut => he.not_corresponds hs hcut hcorr, fun hok => ?_⟩
    exact he.corresponds ((intact_iff_corresponds hs).mp hintact) hok

/-- A throwing `push_front` after an eviction leaves every state intact. -/
theorem intact_iff_pushFront :
    ∃ c₀, Cache.new ℕ ℕ 1 = .ok c₀ ∧
      (system c₀).EveryState (fun s => Intact s.cache) { cache := c₀, calls := [] }
        [(.put 1 10, none), (.put 2 20, some .pushFront), (.get 1, none)] := by
  refine ⟨_, rfl, (@intact_iff ℕ ℕ _ 1 _ rfl _).mpr ?_⟩
  exact ⟨id, fun _ _ => ⟨id, fun _ _ => ⟨id, fun _ _ => trivial⟩⟩⟩

/-- **A key is lost though it was put last but one**: the insertion of 1 is cut
short in `map_[key]`, 1 is put again, and the eviction for 2 takes the first node
of 1 and with it the map entry of the second. -/
theorem put_cut_short_loses_key :
    ∃ c₀ s, Cache.new ℕ ℕ 2 = .ok c₀ ∧
      (system c₀).run { cache := c₀, calls := [] }
        [(.put 1 10, some .mapInsert), (.put 1 11, none), (.put 2 20, none)] = some s ∧
      s.cache.entries = [(2, 20), (1, 11)] ∧ s.cache.map.lookup 1 = none ∧
      ¬ OneToOne s.cache := by
  refine ⟨_, _, rfl, rfl, rfl, rfl, fun h => ?_⟩
  obtain ⟨k, v, hk, hmap⟩ := h.mapped 1 (List.mem_cons_of_mem _ List.mem_cons_self)
  obtain ⟨rfl, -⟩ := Prod.mk.inj (Option.some.inj hk)
  cases hmap

end CcSnippets.LruCache

import CcSnippets.Null.LruCache.Corresponds

/-!
# CcSnippets.Null.LruCache.Refines

What a call does (`Effect`), and the **refinement**: between calls that do not
throw, `list_` holds what a bounded recency list holds after the same calls
(`Effect.refines`). No call meets undefined behaviour, whatever has thrown
before (`call_effect`).
-/

namespace CcSnippets.LruCache

open CcSnippets.Core Recency

variable {K V : Type*} [DecidableEq K]

/-- Everything a call can do to a well-formed cache. -/
inductive Effect (c : Cache K V) : Op K V → Option Throw → Cache K V → Out → Prop
  /-- `get` finds nothing. -/
  | miss {key : K} {throws : Option Throw} :
      c.map.lookup key = none → Effect c (.get key) throws c (.pointer none)
  /-- `get` moves the node to the front. -/
  | hit {key : K} {throws : Option Throw} {it : Node} {v : V} :
      c.map.lookup key = some it → c.node it = some (key, v) →
      Effect c (.get key) throws (c.front it (key, v)) (.pointer (some it))
  /-- `put` replaces the value of a present key. -/
  | overwrite {key : K} {value v : V} {throws : Option Throw} {it : Node} :
      c.map.lookup key = some it → c.node it = some (key, v) →
      Effect c (.put key value) throws (c.front it (key, value)) .done
  /-- `put` inserts an absent key. -/
  | insert {key : K} {value : V} {throws : Option Throw} {r : Cache K V} :
      c.map.lookup key = none → c.makeRoom = some r → throws = none →
      Effect c (.put key value) throws (r.link key value) .done
  /-- `list_.push_front` throws after the eviction. -/
  | pushThrows {key : K} {value : V} {r : Cache K V} :
      c.map.lookup key = none → c.makeRoom = some r →
      Effect c (.put key value) (some .pushFront) r (.threw .pushFront)
  /-- `map_[key]` throws after `list_.push_front`. -/
  | mapThrows {key : K} {value : V} {r : Cache K V} :
      c.map.lookup key = none → c.makeRoom = some r →
      Effect c (.put key value) (some .mapInsert) (r.pushFront key value) (.threw .mapInsert)

/-- A `put` of an absent key whose `map_[key]` throws: it leaves a node in
`list_` that `map_` does not know. -/
def CutShort (c : Cache K V) : Op K V × Option Throw → Prop
  | (.put key _, some .mapInsert) => c.map.lookup key = none
  | _ => False

/-- A call that is told not to throw is not cut short. -/
theorem not_cutShort_none (c : Cache K V) (op : Op K V) : ¬ CutShort c (op, none) := by
  cases op <;> exact id

/-- **Every call goes through**: on a well-formed cache the code's behaviour is
defined. -/
theorem call_effect {c : Cache K V} (hc : c.WellFormed) (op : Op K V) (throws : Option Throw) :
    ∃ c' out, c.call op throws = some (c', out) ∧ Effect c op throws c' out := by
  cases op with
  | get key =>
    rw [Cache.call, Cache.get]
    cases hkey : c.map.lookup key with
    | none => exact ⟨c, _, rfl, .miss hkey⟩
    | some it =>
      obtain ⟨v, hit⟩ := hc.points key it hkey
      refine ⟨c.front it (key, v), .pointer (some it), ?_, .hit hkey hit⟩
      simp [Cache.splice_eq_front hc hit]
  | put key value =>
    rw [Cache.call, Cache.put]
    cases hkey : c.map.lookup key with
    | some it =>
      obtain ⟨v, hit⟩ := hc.points key it hkey
      refine ⟨c.front it (key, value), .done, ?_, .overwrite hkey hit⟩
      have := Cache.assign_splice_eq_front hc hit (w := value)
      simp only [Option.bind_eq_bind, ← Option.bind_assoc, this]
      rfl
    | none =>
      obtain ⟨r, hr, -⟩ := Cache.makeRoom_room hc
      simp only [hr, Option.bind_eq_bind, Option.bind_some, Cache.insertFront]
      rcases throws with _ | _ | _
      · exact ⟨r.link key value, .done, rfl, .insert hkey hr rfl⟩
      · exact ⟨r, .threw .pushFront, rfl, .pushThrows hkey hr⟩
      · exact ⟨r.pushFront key value, .threw .mapInsert, rfl, .mapThrows hkey hr⟩

/-- The same, read from a call that was made. -/
theorem effect_of_call {c c' : Cache K V} {op : Op K V} {throws : Option Throw} {out : Out}
    (hc : c.WellFormed) (h : c.call op throws = some (c', out)) : Effect c op throws c' out := by
  obtain ⟨d, out', hd, he⟩ := call_effect hc op throws
  obtain ⟨rfl, rfl⟩ := Prod.mk.inj (Option.some.inj (hd.symm.trans h))
  exact he

theorem room_of_makeRoom {c r : Cache K V} (hc : c.WellFormed) (h : c.makeRoom = some r) :
    c.Room r := by
  obtain ⟨d, hd, hroom⟩ := Cache.makeRoom_room hc
  obtain rfl := Option.some.inj (hd.symm.trans h)
  exact hroom

namespace Effect

variable {c c' : Cache K V} {op : Op K V} {throws : Option Throw} {out : Out}

theorem wellFormed (h : Effect c op throws c' out) (hc : c.WellFormed) : c'.WellFormed := by
  cases h with
  | miss _ => exact hc
  | hit _ hit => exact hc.front _ hit
  | overwrite _ hit => exact hc.front _ hit
  | insert _ hr _ =>
    exact (room_of_makeRoom hc hr).wellFormed.link (room_of_makeRoom hc hr).room _ _
  | pushThrows _ hr => exact (room_of_makeRoom hc hr).wellFormed
  | mapThrows _ hr =>
    exact (room_of_makeRoom hc hr).wellFormed.pushFront (room_of_makeRoom hc hr).room _ _

theorem capacity (h : Effect c op throws c' out) (hc : c.WellFormed) :
    c'.capacity = c.capacity := by
  cases h with
  | miss _ | hit _ _ | overwrite _ _ => rfl
  | insert _ hr _ | pushThrows _ hr | mapThrows _ hr => exact (room_of_makeRoom hc hr).capacity

/-- Every call but one keeps `list_` and `map_` in correspondence. -/
theorem corresponds (h : Effect c op throws c' out) (hc : c.Corresponds)
    (hok : ¬ CutShort c (op, throws)) : c'.Corresponds := by
  cases h with
  | miss _ => exact hc
  | hit _ hit => exact hc.front _ hit
  | overwrite _ hit => exact hc.front _ hit
  | insert hkey hr _ =>
    have hroom := room_of_makeRoom hc.toWellFormed hr
    exact (hroom.corresponds hc).link hroom.room (hroom.absent _ hkey) _
  | pushThrows _ hr => exact (room_of_makeRoom hc.toWellFormed hr).corresponds hc
  | mapThrows hkey _ => exact absurd hkey hok

/-- The call that does not: the new node is not mapped. -/
theorem not_corresponds (h : Effect c op throws c' out) (hc : c.WellFormed)
    (hcut : CutShort c (op, throws)) : ¬ c'.Corresponds := by
  cases h with
  | mapThrows hkey hr =>
    intro hc'
    have := hc'.mapped _ _ _ (Cache.pushFront_node_self _ _ _)
    rw [Cache.pushFront, (room_of_makeRoom hc hr).absent _ hkey] at this
    cases this
  | insert _ _ hthrows =>
    subst hthrows
    exact absurd hcut (not_cutShort_none c _)
  | overwrite hkey _ =>
    rcases throws with _ | _ | _
    · exact absurd hcut id
    · exact absurd hcut id
    · exact absurd (hkey.symm.trans hcut) (Option.some_ne_none _)
  | miss _ | hit _ _ | pushThrows _ _ => exact absurd hcut id

end Effect

namespace Cache

/-- `map_` finds what `list_` holds. -/
theorem find_entries {c : Cache K V} (hc : c.Corresponds) {key : K} {it : Node} {v : V}
    (hit : c.node it = some (key, v)) : find key c.entries = some v :=
  (find_eq_some (nodup_keys hc)).mpr ((mem_entries hc.toWellFormed).mpr ⟨it, hit⟩)

theorem mem_keys {c : Cache K V} (hc : c.Corresponds) {key : K} :
    key ∈ c.entries.map Prod.fst ↔ ∃ it, c.map.lookup key = some it := by
  rw [List.mem_map]
  constructor
  · intro hmem
    obtain ⟨⟨_, v⟩, hp, rfl⟩ := hmem
    obtain ⟨n, hn⟩ := (mem_entries hc.toWellFormed).mp hp
    exact ⟨n, hc.mapped n _ v hn⟩
  · intro hmapped
    obtain ⟨it, hit⟩ := hmapped
    obtain ⟨v, hv⟩ := hc.points key it hit
    exact ⟨(key, v), (mem_entries hc.toWellFormed).mpr ⟨it, hv⟩, rfl⟩

theorem find_entries_of_none {c : Cache K V} (hc : c.Corresponds) {key : K}
    (hkey : c.map.lookup key = none) : find key c.entries = none := by
  rw [find_eq_none, mem_keys hc, hkey]
  intro hmapped
  obtain ⟨it, hit⟩ := hmapped
  cases hit

/-- Bringing a key to the front that is there needs no more room. -/
theorem take_use {c : Cache K V} (hc : c.Corresponds) {key : K} {v : V}
    (hkey : key ∈ c.entries.map Prod.fst) :
    (use key v c.entries).take c.capacity = use key v c.entries := by
  rw [List.take_of_length_le]
  rw [length_use_of_mem (nodup_keys hc) hkey, length_entries hc.toWellFormed]
  exact hc.bounded

end Cache

/-! ### What an eviction takes -/

/-- The call evicts `k`: a `put` of an absent key into a full list whose back
holds `k`. -/
def Evicts (c : Cache K V) (k : K) : Op K V → Prop
  | .put key _ => c.map.lookup key = none ∧ c.capacity ≤ c.list.length ∧
      ∃ it v, c.list.getLast? = some it ∧ c.node it = some (k, v)
  | .get _ => False

/-- No call takes a key out of the map but by evicting it. -/
theorem Effect.evicts_of_lost {c c' : Cache K V} {op : Op K V} {throws : Option Throw} {out : Out}
    (h : Effect c op throws c' out) (hc : c.WellFormed) {k : K} (hk : k ∈ c.map)
    (hk' : k ∉ c'.map) : Evicts c k op := by
  have hmakeRoom : ∀ {key : K} {value : V} {r : Cache K V}, c.map.lookup key = none →
      c.makeRoom = some r → k ∉ r.map → Evicts c k (.put key value) := by
    intro key value r hkey hr hkr
    obtain ⟨-, hr'⟩ | ⟨l, it, j, v, hfull, hl, hit, hr'⟩ := Cache.makeRoom_eq hc
    · obtain rfl := Option.some.inj (hr'.symm.trans hr)
      exact absurd hk hkr
    · obtain rfl := Option.some.inj (hr'.symm.trans hr)
      obtain rfl : k = j := by
        by_contra hkj
        exact hkr (Finmap.mem_erase.mpr ⟨hkj, hk⟩)
      exact ⟨hkey, hfull, it, v, by rw [hl, List.getLast?_concat], hit⟩
  cases h with
  | miss _ | hit _ _ | overwrite _ _ => exact absurd hk hk'
  | insert hkey hr _ =>
    exact hmakeRoom hkey hr fun hkr => hk' (Finmap.mem_insert.mpr (.inr hkr))
  | pushThrows hkey hr => exact hmakeRoom hkey hr hk'
  | mapThrows hkey hr => exact hmakeRoom hkey hr hk'

/-! ### What a call does to a node -/

/-- Making room allocates nothing, and frees at most the back of a full list. -/
theorem node_of_makeRoom {c r : Cache K V} (hc : c.WellFormed) (h : c.makeRoom = some r)
    (n : Node) : r.allocated = c.allocated ∧ (r.node n = c.node n ∨
      c.capacity ≤ c.list.length ∧ c.list.getLast? = some n ∧ r.node n = none) := by
  obtain ⟨-, hr⟩ | ⟨l, it, k, v, hfull, hl, -, hr⟩ := Cache.makeRoom_eq hc
  · obtain rfl := Option.some.inj (hr.symm.trans h)
    exact ⟨rfl, .inl rfl⟩
  · obtain rfl := Option.some.inj (hr.symm.trans h)
    refine ⟨rfl, ?_⟩
    by_cases hn : n = it
    · subst hn
      exact .inr ⟨hfull, by rw [hl, List.getLast?_concat], Function.update_self _ _ _⟩
    · exact .inl (Cache.dropBack_node_of_ne hn)

namespace Effect

variable {c c' : Cache K V} {op : Op K V} {out : Out} {n : Node} {k : K}

/-- What a node holds was there before the call, or the call put it there. -/
theorem stored (h : Effect c op none c' out) (hc : c.WellFormed) {v : V}
    (hn : c'.node n = some (k, v)) : c.node n = some (k, v) ∨ op = .put k v ∧ out = .done := by
  cases h with
  | miss _ => exact .inl hn
  | @hit _ _ it _ _ hit =>
    by_cases hnit : n = it
    · subst hnit
      rw [Cache.front_node_self] at hn
      exact .inl (hit.trans hn)
    · exact .inl ((Cache.front_node_of_ne hnit _).symm.trans hn)
  | @overwrite key value _ _ it _ _ =>
    by_cases hnit : n = it
    · subst hnit
      rw [Cache.front_node_self] at hn
      obtain ⟨rfl, rfl⟩ := Prod.mk.inj (Option.some.inj hn)
      exact .inr ⟨rfl, rfl⟩
    · exact .inl ((Cache.front_node_of_ne hnit _).symm.trans hn)
  | @insert key value _ r _ hr _ =>
    by_cases hnew : n = r.allocated
    · subst hnew
      obtain ⟨rfl, rfl⟩ :=
        Prod.mk.inj (Option.some.inj ((Cache.pushFront_node_self r key value).symm.trans hn))
      exact .inr ⟨rfl, rfl⟩
    · have hrn := (Cache.pushFront_node_of_ne hnew key value).symm.trans hn
      obtain ⟨-, heq | ⟨-, -, hnone⟩⟩ := node_of_makeRoom hc hr n
      · exact .inl (heq.symm.trans hrn)
      · rw [hnone] at hrn
        cases hrn

/-- A live node stays, with its key, unless its key is evicted. -/
theorem node_kept (h : Effect c op none c' out) (hc : c.WellFormed) {v : V}
    (hn : c.node n = some (k, v)) (hkeep : ¬ Evicts c k op) : ∃ w, c'.node n = some (k, w) := by
  cases h with
  | miss _ => exact ⟨v, hn⟩
  | @hit _ _ it w _ hit | @overwrite _ w _ _ it _ hit =>
    by_cases hnit : n = it
    · subst hnit
      obtain ⟨rfl, -⟩ := Prod.mk.inj (Option.some.inj (hn.symm.trans hit))
      exact ⟨w, Cache.front_node_self c n _⟩
    · exact ⟨v, (Cache.front_node_of_ne hnit _).trans hn⟩
  | @insert key value _ r hkey hr _ =>
    obtain ⟨halloc, heq | ⟨hfull, hback, -⟩⟩ := node_of_makeRoom hc hr n
    · have hnew : n ≠ r.allocated := by
        rw [halloc]
        exact (hc.allocated n (hc.mem hn)).ne
      exact ⟨v, (Cache.pushFront_node_of_ne hnew key value).trans (heq.trans hn)⟩
    · exact absurd ⟨hkey, hfull, n, v, hback, hn⟩ hkeep

/-- The node of an evicted key is freed. -/
theorem node_freed (h : Effect c op none c' out) (hc : c.Corresponds) {v : V}
    (hn : c.node n = some (k, v)) (hevict : Evicts c k op) :
    c'.node n = none ∧ n < c'.allocated := by
  have hlt := hc.allocated n (hc.mem hn)
  cases h with
  | miss _ | hit _ _ => exact absurd hevict id
  | overwrite hkey _ => exact absurd (hkey.symm.trans hevict.1) (Option.some_ne_none _)
  | @insert key value _ r _ hr _ =>
    obtain ⟨-, hfull, it, w, hback, hit⟩ := hevict
    obtain rfl : n = it :=
      Option.some.inj ((hc.mapped n k v hn).symm.trans (hc.mapped it k w hit))
    obtain ⟨hroom, -⟩ | ⟨l, it, j, u, -, hl, -, hr'⟩ := Cache.makeRoom_eq hc.toWellFormed
    · exact absurd hfull (Nat.not_le.mpr hroom)
    · obtain rfl := Option.some.inj (hr'.symm.trans hr)
      obtain rfl : it = n := by
        rw [hl, List.getLast?_concat] at hback
        exact Option.some.inj hback
      have hfree : (c.dropBack l it j).node it = none := Function.update_self _ _ _
      have hnew := Cache.pushFront_node_of_ne (c := c.dropBack l it j) hlt.ne key value
      exact ⟨hnew.trans hfree, Nat.lt_succ_of_lt hlt⟩

/-- A freed node stays freed. -/
theorem node_lost (h : Effect c op none c' out) (hc : c.WellFormed) (hn : c.node n = none)
    (hlt : n < c.allocated) : c'.node n = none ∧ n < c'.allocated := by
  cases h with
  | miss _ => exact ⟨hn, hlt⟩
  | @hit _ _ it _ _ hit | @overwrite _ _ _ _ it _ hit =>
    have hnit : n ≠ it := by
      intro heq
      subst heq
      rw [hn] at hit
      cases hit
    exact ⟨(Cache.front_node_of_ne hnit _).trans hn, hlt⟩
  | @insert key value _ r _ hr _ =>
    obtain ⟨halloc, hrn⟩ := node_of_makeRoom hc hr n
    have hnone : r.node n = none := by
      obtain heq | ⟨-, -, hnone⟩ := hrn
      · exact heq.trans hn
      · exact hnone
    rw [← halloc] at hlt
    exact ⟨(Cache.pushFront_node_of_ne hlt.ne key value).trans hnone, Nat.lt_succ_of_lt hlt⟩

end Effect

/-! ### The refinement -/

/-- One call of a cache that evicts the entry used least recently, on what it
holds and what it hands back. -/
structure LruStep (c : Cache K V) (op : Op K V) (c' : Cache K V) (out : Out) : Prop where
  /-- What it holds afterwards. -/
  entries : c'.entries = match op with
    | .get key => Recency.get key c.entries
    | .put key value => Recency.put c.capacity key value c.entries
  /-- What it hands back: null, or a pointer to the entry. -/
  result : match op with
    | .get key => ∃ it, out = .pointer it ∧
        it.map c'.node = (find key c.entries).map fun v => some (key, v)
    | .put _ _ => out = .done

/-- **The cache refines a bounded recency list.** -/
theorem Effect.refines {c c' : Cache K V} {op : Op K V} {out : Out}
    (h : Effect c op none c' out) (hc : c.Corresponds) : LruStep c op c' out := by
  cases h with
  | miss hkey =>
    have hfind := Cache.find_entries_of_none hc hkey
    refine ⟨?_, none, rfl, ?_⟩
    · simp only [Recency.get, hfind]
    · rw [hfind]
      rfl
  | hit hkey hit =>
    have hfind := Cache.find_entries hc hit
    refine ⟨?_, _, rfl, ?_⟩
    · simp only [Recency.get, hfind, Cache.entries_front hc _ hit]
    · rw [hfind, Option.map_some, Option.map_some, Cache.front_node_self]
  | @overwrite key value v _ it hkey hit =>
    refine ⟨?_, rfl⟩
    have hmem : key ∈ c.entries.map Prod.fst := (Cache.mem_keys hc).mpr ⟨it, hkey⟩
    simp only [Cache.entries_front hc _ hit, Recency.put, Cache.take_use hc hmem]
  | @insert key value _ r hkey hr _ =>
    refine ⟨?_, rfl⟩
    have hroom := room_of_makeRoom hc.toWellFormed hr
    -- an absent key leaves no entry to take out of its old place
    have hfilter : c.entries.filter (fun p => p.1 ≠ key) = c.entries := by
      refine List.filter_eq_self.mpr fun p hp => ?_
      have := find_eq_none.mp (Cache.find_entries_of_none hc hkey)
      simpa using fun heq => this (List.mem_map.mpr ⟨p, hp, heq⟩)
    obtain ⟨n, hn⟩ := Nat.exists_eq_add_one_of_ne_zero hc.positive.ne'
    calc (r.link key value).entries = (key, value) :: r.entries :=
          Cache.entries_pushFront hroom.wellFormed key value
      _ = (key, value) :: c.entries.take (c.capacity - 1) := by rw [hroom.entries]
      _ = Recency.put c.capacity key value c.entries := by
          rw [Recency.put, use, hfilter, hn, List.take_succ_cons, Nat.add_sub_cancel]

end CcSnippets.LruCache

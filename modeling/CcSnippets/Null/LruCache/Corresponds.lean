import CcSnippets.Null.LruCache.Basic

/-!
# CcSnippets.Null.LruCache.Corresponds

`list_` and `map_` correspond, and the cache refines a **bounded recency list**.

`WellFormed` is what every call keeps, even one that throws: it is enough for no
iterator ever to dangle. `Corresponds` adds that every live node is mapped by its
key; every call keeps it but a `put` whose `map_[key]` throws. Under `Corresponds`
what `list_` holds changes exactly as an association list of bounded length does
under `Recency.use`.
-/

namespace CcSnippets.LruCache

open CcSnippets.Core Recency

variable {K V : Type*} [DecidableEq K]

namespace Cache

/-- What every call keeps. -/
structure WellFormed (c : Cache K V) : Prop where
  positive : 0 < c.capacity
  nodup : c.list.Nodup
  live : ∀ n, n ∈ c.list ↔ (c.node n).isSome
  bounded : c.list.length ≤ c.capacity
  allocated : ∀ n ∈ c.list, n < c.allocated
  /-- Every map entry points to a live node with its key. -/
  points : ∀ k n, c.map.lookup k = some n → ∃ v, c.node n = some (k, v)

/-- `list_` and `map_` correspond. -/
structure Corresponds (c : Cache K V) : Prop extends c.WellFormed where
  /-- Every live node is mapped by its key. -/
  mapped : ∀ n k v, c.node n = some (k, v) → c.map.lookup k = some n

section WellFormed

variable {c : Cache K V}

theorem WellFormed.mem (hc : c.WellFormed) {n : Node} {p : K × V} (h : c.node n = some p) :
    n ∈ c.list :=
  (hc.live n).mpr (by rw [h]; rfl)

theorem WellFormed.fresh (hc : c.WellFormed) : c.allocated ∉ c.list :=
  fun h => lt_irrefl _ (hc.allocated _ h)

/-- A node of the list holds an entry. -/
theorem WellFormed.entry (hc : c.WellFormed) {n : Node} (h : n ∈ c.list) :
    ∃ k v, c.node n = some (k, v) := by
  obtain ⟨⟨k, v⟩, hp⟩ := Option.isSome_iff_exists.mp ((hc.live n).mp h)
  exact ⟨k, v, hp⟩

theorem mem_entries (hc : c.WellFormed) {p : K × V} :
    p ∈ c.entries ↔ ∃ n, c.node n = some p := by
  rw [entries, List.mem_filterMap]
  exact ⟨fun ⟨n, _, hn⟩ => ⟨n, hn⟩, fun ⟨n, hn⟩ => ⟨n, hc.mem hn, hn⟩⟩

theorem length_entries (hc : c.WellFormed) : c.entries.length = c.list.length := by
  have hall : ∀ l : List Node, (∀ n ∈ l, n ∈ c.list) → (l.filterMap c.node).length = l.length := by
    intro l
    induction l with
    | nil => intro _; rfl
    | cons n l ih =>
      intro hl
      obtain ⟨k, v, hn⟩ := hc.entry (hl n List.mem_cons_self)
      rw [List.filterMap_cons_some hn, List.length_cons, List.length_cons,
        ih fun m hm => hl m (List.mem_cons_of_mem n hm)]
  exact hall c.list fun _ h => h

/-! ### Moving a node to the front -/

omit [DecidableEq K] in
/-- The cache with `it` in front, holding `p`. -/
def front (c : Cache K V) (it : Node) (p : K × V) : Cache K V :=
  { c with list := it :: c.list.erase it, node := Function.update c.node it (some p) }

omit [DecidableEq K] in
theorem front_node_self (c : Cache K V) (it : Node) (p : K × V) :
    (c.front it p).node it = some p :=
  Function.update_self _ _ _

omit [DecidableEq K] in
theorem front_node_of_ne {it n : Node} (h : n ≠ it) (p : K × V) :
    (c.front it p).node n = c.node n :=
  Function.update_of_ne h _ _

/-- `splice` leaves every node as it is. -/
theorem splice_eq_front (hc : c.WellFormed) {it : Node} {p : K × V} (h : c.node it = some p) :
    c.splice it = some (c.front it p) := by
  rw [splice, if_pos (hc.mem h), front, ← h, Function.update_eq_self]

/-- An assignment through an iterator, then `splice`. -/
theorem assign_splice_eq_front (hc : c.WellFormed) {it : Node} {k : K} {v w : V}
    (h : c.node it = some (k, v)) :
    ((c.assign it w).bind fun c => c.splice it) = some (c.front it (k, w)) := by
  rw [assign, h, Option.bind_some, splice, if_pos (hc.mem h), front]

theorem WellFormed.front (hc : c.WellFormed) {it : Node} {k : K} {v : V} (w : V)
    (h : c.node it = some (k, v)) : (c.front it (k, w)).WellFormed where
  positive := hc.positive
  nodup := List.nodup_cons.mpr ⟨fun hmem => (hc.nodup.mem_erase_iff.mp hmem).1 rfl,
    hc.nodup.erase it⟩
  live n := by
    by_cases hn : n = it
    · subst hn
      simp [Cache.front]
    · simp [Cache.front, hn, List.mem_erase_of_ne hn, hc.live n]
  bounded := by
    have := List.length_erase_add_one (hc.mem h)
    simpa [Cache.front, this] using hc.bounded
  allocated n hn := by
    rcases List.mem_cons.mp hn with rfl | hn
    · exact hc.allocated _ (hc.mem h)
    · exact hc.allocated n (List.mem_of_mem_erase hn)
  points j n hj := by
    obtain ⟨u, hu⟩ := hc.points j n hj
    by_cases hn : n = it
    · subst hn
      obtain ⟨rfl, -⟩ := Prod.mk.inj (Option.some.inj (h.symm.trans hu))
      exact ⟨w, front_node_self c n _⟩
    · exact ⟨u, (front_node_of_ne hn _).trans hu⟩

theorem Corresponds.front (hc : c.Corresponds) {it : Node} {k : K} {v : V} (w : V)
    (h : c.node it = some (k, v)) : (c.front it (k, w)).Corresponds where
  toWellFormed := hc.toWellFormed.front w h
  mapped n j u hu := by
    by_cases hn : n = it
    · subst hn
      obtain ⟨rfl, -⟩ := Prod.mk.inj (Option.some.inj ((front_node_self c n _).symm.trans hu))
      exact hc.mapped _ _ v h
    · exact hc.mapped n j u ((front_node_of_ne hn _).symm.trans hu)

/-- The keys of the list are distinct. -/
theorem nodup_keys (hc : c.Corresponds) : (c.entries.map Prod.fst).Nodup := by
  rw [entries, List.map_filterMap]
  refine hc.nodup.filterMap fun n m k hn hm => ?_
  obtain ⟨⟨_, v⟩, hv, rfl⟩ := Option.mem_map.mp hn
  obtain ⟨⟨j, w⟩, hw, rfl⟩ := Option.mem_map.mp hm
  exact Option.some.inj ((hc.mapped n _ v hv).symm.trans (hc.mapped m _ w hw))

/-- **Moving a node to the front is a use of its key.** -/
theorem entries_front (hc : c.Corresponds) {it : Node} {k : K} {v : V} (w : V)
    (h : c.node it = some (k, v)) : (c.front it (k, w)).entries = use k w c.entries := by
  rw [entries, Cache.front, List.filterMap_cons_some (Function.update_self _ _ _), use, entries,
    hc.nodup.erase_eq_filter, List.filterMap_filter, List.filter_filterMap]
  congr 1
  refine List.filterMap_congr fun n hn => ?_
  obtain ⟨j, u, hu⟩ := hc.entry hn
  by_cases hnit : n = it
  · subst hnit
    obtain ⟨rfl, -⟩ := Prod.mk.inj (Option.some.inj (h.symm.trans hu))
    simp [hu, Option.filter]
  · have hj : j ≠ k := by
      intro heq
      subst heq
      exact hnit (Option.some.inj ((hc.mapped _ _ _ hu).symm.trans (hc.mapped _ _ _ h)))
    simp [hnit, hu, hj, Option.filter]

/-! ### Making room -/

/-- The cache without the back `it` of its list, whose key is `k`. -/
def dropBack (c : Cache K V) (l : List Node) (it : Node) (k : K) : Cache K V :=
  { c with map := c.map.erase k, list := l, node := Function.update c.node it none }

theorem dropBack_node_of_ne {l : List Node} {it n : Node} {k : K} (h : n ≠ it) :
    (c.dropBack l it k).node n = c.node n :=
  Function.update_of_ne h _ _

theorem dropBack_lookup_of_ne {l : List Node} {it : Node} {k j : K} (h : j ≠ k) :
    (c.dropBack l it k).map.lookup j = c.map.lookup j :=
  Finmap.lookup_erase_ne h

/-- `evict` pops the back of a list that is not empty. -/
theorem evict_eq (hc : c.WellFormed) (hne : c.list ≠ []) :
    ∃ l it k v, c.list = l ++ [it] ∧ c.node it = some (k, v) ∧
      c.evict = some (c.dropBack l it k) := by
  obtain ⟨l, it, hl⟩ : ∃ l it, c.list = l ++ [it] :=
    ⟨c.list.dropLast, c.list.getLast hne, (List.dropLast_append_getLast hne).symm⟩
  obtain ⟨k, v, hit⟩ := hc.entry (n := it) (by rw [hl]; simp)
  refine ⟨l, it, k, v, hl, hit, ?_⟩
  rw [evict, hl, List.getLast?_concat]
  simp only [hit, List.dropLast_concat, dropBack]

section DropBack

variable {l : List Node} {it : Node} {k : K} {v : V}

theorem WellFormed.back_notMem (hc : c.WellFormed) (hl : c.list = l ++ [it]) : it ∉ l := by
  have := hc.nodup
  rw [hl, List.nodup_append] at this
  exact fun hmem => this.2.2 it hmem it (List.mem_singleton_self it) rfl

theorem WellFormed.dropBack (hc : c.WellFormed) (hl : c.list = l ++ [it])
    (hit : c.node it = some (k, v)) : (c.dropBack l it k).WellFormed where
  positive := hc.positive
  nodup := by
    have := hc.nodup
    rw [hl, List.nodup_append] at this
    exact this.1
  live n := by
    by_cases hn : n = it
    · subst hn
      simp [Cache.dropBack, hc.back_notMem hl]
    · have := hc.live n
      rw [hl] at this
      simpa [Cache.dropBack, hn] using this
  bounded := by
    have := hc.bounded
    rw [hl, List.length_append] at this
    exact (Nat.le_add_right _ _).trans this
  allocated n hn := hc.allocated n (by rw [hl]; exact List.mem_append_left _ hn)
  points j n hj := by
    have hjk : j ≠ k := by
      intro heq
      subst heq
      rw [Cache.dropBack, Finmap.lookup_erase] at hj
      cases hj
    obtain ⟨u, hu⟩ := hc.points j n ((dropBack_lookup_of_ne hjk).symm.trans hj)
    refine ⟨u, (dropBack_node_of_ne ?_).trans hu⟩
    intro heq
    subst heq
    exact hjk (Prod.mk.inj (Option.some.inj (hu.symm.trans hit))).1

theorem Corresponds.dropBack (hc : c.Corresponds) (hl : c.list = l ++ [it])
    (hit : c.node it = some (k, v)) : (c.dropBack l it k).Corresponds where
  toWellFormed := hc.toWellFormed.dropBack hl hit
  mapped n j u hu := by
    have hn : n ≠ it := by
      intro heq
      subst heq
      simp [Cache.dropBack] at hu
    have hold := hc.mapped n j u ((dropBack_node_of_ne hn).symm.trans hu)
    have hjk : j ≠ k := by
      intro heq
      subst heq
      exact hn (Option.some.inj (hold.symm.trans (hc.mapped _ _ _ hit)))
    exact (dropBack_lookup_of_ne hjk).trans hold

/-- The back is the last entry. -/
theorem entries_dropBack (hc : c.WellFormed) (hl : c.list = l ++ [it])
    (hit : c.node it = some (k, v)) : c.entries = (c.dropBack l it k).entries ++ [(k, v)] := by
  have hrest : l.filterMap (Function.update c.node it none) = l.filterMap c.node :=
    List.filterMap_congr fun n hn =>
      Function.update_of_ne (fun heq : n = it => hc.back_notMem hl (heq ▸ hn)) _ _
  rw [entries, hl, List.filterMap_append, List.filterMap_cons_some hit, List.filterMap_nil,
    entries, Cache.dropBack, hrest]

end DropBack

/-- What the eviction leaves. -/
structure Room (c r : Cache K V) : Prop where
  wellFormed : r.WellFormed
  corresponds : c.Corresponds → r.Corresponds
  capacity : r.capacity = c.capacity
  room : r.list.length < r.capacity
  entries : r.entries = c.entries.take (c.capacity - 1)
  absent : ∀ k, c.map.lookup k = none → r.map.lookup k = none

theorem Room.of_lt (hc : c.WellFormed) (hroom : c.list.length < c.capacity) : c.Room c where
  wellFormed := hc
  corresponds := id
  capacity := rfl
  room := hroom
  entries := by
    rw [List.take_of_length_le]
    rw [length_entries hc]
    exact Nat.le_sub_one_of_lt hroom
  absent _ := id

theorem Room.dropBack (hc : c.WellFormed) (hfull : c.capacity ≤ c.list.length) {l : List Node}
    {it : Node} {k : K} {v : V} (hl : c.list = l ++ [it]) (hit : c.node it = some (k, v)) :
    c.Room (c.dropBack l it k) := by
  have hlen : l.length + 1 = c.capacity := by
    have := hc.bounded
    rw [hl, List.length_append, List.length_singleton] at this hfull
    omega
  have hentries : (c.dropBack l it k).entries.length = c.capacity - 1 := by
    rw [length_entries (hc.dropBack hl hit)]
    exact Nat.eq_sub_of_add_eq hlen
  refine ⟨hc.dropBack hl hit, fun hcorr => hcorr.dropBack hl hit, rfl, hlen.le, ?_, fun j hj => ?_⟩
  · rw [entries_dropBack hc hl hit, List.take_left' hentries]
  · by_cases hjk : j = k
    · subst hjk
      exact Finmap.lookup_erase _ _
    · exact (dropBack_lookup_of_ne hjk).trans hj

/-- The room is there already, or the back is dropped. -/
theorem makeRoom_eq (hc : c.WellFormed) :
    (c.list.length < c.capacity ∧ c.makeRoom = some c) ∨
      ∃ l it k v, c.capacity ≤ c.list.length ∧ c.list = l ++ [it] ∧ c.node it = some (k, v) ∧
        c.makeRoom = some (c.dropBack l it k) := by
  rw [makeRoom]
  split
  · rename_i hfull
    have hne : c.list ≠ [] := by
      intro hnil
      rw [hnil, List.length_nil] at hfull
      exact absurd hc.positive (Nat.not_lt.mpr hfull)
    obtain ⟨l, it, k, v, hl, hit, hevict⟩ := evict_eq hc hne
    exact .inr ⟨l, it, k, v, hfull, hl, hit, hevict⟩
  · rename_i hroom
    exact .inl ⟨Nat.lt_of_not_le hroom, rfl⟩

/-- The eviction goes well, and leaves room for one entry. -/
theorem makeRoom_room (hc : c.WellFormed) : ∃ r, c.makeRoom = some r ∧ c.Room r := by
  obtain ⟨hroom, hr⟩ | ⟨l, it, k, v, hfull, hl, hit, hr⟩ := makeRoom_eq hc
  · exact ⟨c, hr, .of_lt hc hroom⟩
  · exact ⟨_, hr, .dropBack hc hfull hl hit⟩

/-! ### The new node -/

omit [DecidableEq K] in
theorem pushFront_node_self (c : Cache K V) (k : K) (v : V) :
    (c.pushFront k v).node c.allocated = some (k, v) :=
  Function.update_self _ _ _

omit [DecidableEq K] in
theorem pushFront_node_of_ne {n : Node} (h : n ≠ c.allocated) (k : K) (v : V) :
    (c.pushFront k v).node n = c.node n :=
  Function.update_of_ne h _ _

theorem WellFormed.pushFront (hc : c.WellFormed) (hroom : c.list.length < c.capacity) (k : K)
    (v : V) : (c.pushFront k v).WellFormed where
  positive := hc.positive
  nodup := List.nodup_cons.mpr ⟨hc.fresh, hc.nodup⟩
  live n := by
    by_cases hn : n = c.allocated
    · subst hn
      simp [Cache.pushFront]
    · simp [Cache.pushFront, hn, hc.live n]
  bounded := hroom
  allocated n hn := by
    rcases List.mem_cons.mp hn with rfl | hn
    · exact Nat.lt_succ_self _
    · exact (hc.allocated n hn).trans (Nat.lt_succ_self _)
  points j n hj := by
    obtain ⟨u, hu⟩ := hc.points j n hj
    exact ⟨u, (pushFront_node_of_ne (fun heq => hc.fresh (heq ▸ hc.mem hu)) k v).trans hu⟩

theorem entries_pushFront (hc : c.WellFormed) (k : K) (v : V) :
    (c.pushFront k v).entries = (k, v) :: c.entries := by
  rw [entries, pushFront, List.filterMap_cons_some (Function.update_self _ _ _), entries]
  congr 1
  exact List.filterMap_congr fun n hn =>
    pushFront_node_of_ne (fun heq => hc.fresh (heq ▸ hn)) k v

/-- The cache with a new node in front, mapped by its key. -/
def link (c : Cache K V) (k : K) (v : V) : Cache K V :=
  { c.pushFront k v with map := c.map.insert k c.allocated }

theorem WellFormed.link (hc : c.WellFormed) (hroom : c.list.length < c.capacity) (k : K) (v : V) :
    (c.link k v).WellFormed :=
  { hc.pushFront hroom k v with
    points := fun j n hj => by
      by_cases hjk : j = k
      · subst hjk
        obtain rfl := Option.some.inj ((Finmap.lookup_insert _).symm.trans hj)
        exact ⟨v, pushFront_node_self c j v⟩
      · exact (hc.pushFront hroom k v).points j n
          ((Finmap.lookup_insert_of_ne _ hjk).symm.trans hj) }

theorem Corresponds.link (hc : c.Corresponds) (hroom : c.list.length < c.capacity) {k : K}
    (hk : c.map.lookup k = none) (v : V) : (c.link k v).Corresponds where
  toWellFormed := hc.toWellFormed.link hroom k v
  mapped n j u hu := by
    by_cases hn : n = c.allocated
    · subst hn
      obtain ⟨rfl, -⟩ :=
        Prod.mk.inj (Option.some.inj ((pushFront_node_self c k v).symm.trans hu))
      exact Finmap.lookup_insert _
    · have hold := hc.mapped n j u ((pushFront_node_of_ne hn k v).symm.trans hu)
      have hjk : j ≠ k := by
        intro heq
        subst heq
        rw [hk] at hold
        cases hold
      exact (Finmap.lookup_insert_of_ne _ hjk).trans hold

end WellFormed

end Cache

end CcSnippets.LruCache

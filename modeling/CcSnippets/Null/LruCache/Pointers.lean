import CcSnippets.Null.LruCache.ClosedForm

/-!
# CcSnippets.Null.LruCache.Pointers

The pointers that `get` hands out, in one thread, with writes through them.

A write through a pointer is an assignment to the value slot of its node, and is
undefined once that node is gone. **A pointer for a key is good until the `put`
that evicts the key**: until then it designates the one node of the key, which
holds the value put or written for it last, and every `get` of the key returns
it again.
-/

namespace CcSnippets.LruCache.Pointers

open CcSnippets.Core Recency

variable {K V : Type*}

/-- The cache and the pointers taken into it. -/
structure State (K V : Type*) where
  cache : Cache K V
  /-- The pointers that `get` returned, each with its key. -/
  got : List (K × Node)
  /-- The value last put for a key or written through a pointer for it. -/
  latest : K → Option V

/-- What the caller does. -/
inductive Label (K V : Type*)
  | call (op : Op K V)
  /-- `*p = value`, with `p` a pointer that `get (key)` returned. -/
  | write (key : K) (it : Node) (value : V)
  deriving DecidableEq, Repr

/-- The pointer a call returns. -/
def returned : Op K V → Out → List (K × Node)
  | .get key, .pointer (some it) => [(key, it)]
  | _, _ => []

variable [DecidableEq K]

/-- The value a call stores. -/
def stored (op : Op K V) (latest : K → Option V) : K → Option V :=
  match op with
  | .put key value => Function.update latest key (some value)
  | .get _ => latest

/-- The successor of a state. -/
def next (s : State K V) : Label K V → Option (State K V)
  | .call op =>
    (s.cache.call op none).map fun r =>
      { cache := r.1, got := s.got ++ returned op r.2, latest := stored op s.latest }
  | .write key it value =>
    if (key, it) ∈ s.got then
      (s.cache.assign it value).map fun c =>
        { s with cache := c, latest := Function.update s.latest key (some value) }
    else none

/-- The cache and its pointers in the hands of one thread. -/
def system (c₀ : Cache K V) : System (State K V) (Label K V) where
  init s := s = { cache := c₀, got := [], latest := fun _ => none }
  next := next

/-! ### A write -/

/-- The cache with `value` written into the node `it`. -/
def written (c : Cache K V) (it : Node) (key : K) (value : V) : Cache K V :=
  { c with node := Function.update c.node it (some (key, value)) }

omit [DecidableEq K] in
theorem node_written_self (c : Cache K V) (it : Node) (key : K) (w : V) :
    (written c it key w).node it = some (key, w) :=
  Function.update_self _ _ _

omit [DecidableEq K] in
theorem node_written_of_ne {c : Cache K V} {it n : Node} (hn : n ≠ it) (key : K) (w : V) :
    (written c it key w).node n = c.node n :=
  Function.update_of_ne hn _ _

omit [DecidableEq K] in
/-- A write keeps the keys of the nodes, and which of them are live. -/
theorem map_fst_written {c : Cache K V} {it : Node} {key : K} {v : V} (w : V)
    (h : c.node it = some (key, v)) (n : Node) :
    ((written c it key w).node n).map Prod.fst = (c.node n).map Prod.fst := by
  by_cases hnit : n = it
  · rw [hnit, node_written_self, h]
    rfl
  · rw [node_written_of_ne hnit]

omit [DecidableEq K] in
theorem exists_node_of_map_fst {o o' : Option (K × V)} (h : o.map Prod.fst = o'.map Prod.fst)
    {k : K} {v : V} (ho : o = some (k, v)) : ∃ w, o' = some (k, w) := by
  rw [ho] at h
  obtain ⟨⟨j, w⟩, hw, rfl⟩ := Option.map_eq_some_iff.mp h.symm
  exact ⟨w, hw⟩

theorem corresponds_written {c : Cache K V} (hc : c.Corresponds) {it : Node} {key : K} {v : V}
    (w : V) (h : c.node it = some (key, v)) : (written c it key w).Corresponds where
  positive := hc.positive
  nodup := hc.nodup
  live n := by
    refine (hc.live n).trans ?_
    rw [← Option.isSome_map, ← map_fst_written w h, Option.isSome_map]
  bounded := hc.bounded
  allocated := hc.allocated
  points j n hj := by
    obtain ⟨u, hu⟩ := hc.points j n hj
    exact exists_node_of_map_fst (map_fst_written w h n).symm hu
  mapped n j u hu := by
    obtain ⟨u', hu'⟩ := exists_node_of_map_fst (map_fst_written w h n) hu
    exact hc.mapped n j u' hu'

/-! ### A call -/

/-- Nodes are only ever added. -/
theorem allocated_le {c c' : Cache K V} {op : Op K V} {out : Out} (h : Effect c op none c' out)
    (hc : c.WellFormed) : c.allocated ≤ c'.allocated := by
  cases h with
  | miss _ | hit _ _ | overwrite _ _ => exact Nat.le_refl _
  | @insert key value _ r _ hr _ =>
    obtain ⟨halloc, -⟩ := node_of_makeRoom hc hr 0
    show c.allocated ≤ r.allocated + 1
    rw [halloc]
    exact Nat.le_succ _

/-- The pointer a `get` returns designates a node of its key. -/
theorem node_of_returned {c c' : Cache K V} {op : Op K V} {out : Out} {k : K} {it : Node}
    (h : Effect c op none c' out) (hit : (k, it) ∈ returned op out) :
    ∃ v, c'.node it = some (k, v) := by
  cases h with
  | @hit _ _ n v _ _ =>
    obtain ⟨rfl, rfl⟩ := Prod.mk.inj (List.mem_singleton.mp hit)
    exact ⟨v, Cache.front_node_self c _ _⟩
  | miss _ | overwrite _ _ | insert _ _ _ => exact absurd hit List.not_mem_nil

/-- What a node holds is the value last stored for its key. -/
theorem latest_call {c c' : Cache K V} {op : Op K V} {out : Out} {latest : K → Option V}
    (h : Effect c op none c' out) (hc : c.Corresponds)
    (hlatest : ∀ n k v, c.node n = some (k, v) → latest k = some v) {n : Node} {k : K} {v : V}
    (hn : c'.node n = some (k, v)) : stored op latest k = some v := by
  have hold := h.stored hc.toWellFormed hn
  cases op with
  | get key =>
    rcases hold with hold | ⟨hop, -⟩
    · exact hlatest n k v hold
    · cases hop
  | put key value =>
    by_cases hk : k = key
    · -- the key put has one node, and that holds the value put
      subst hk
      have hc' := h.corresponds hc (not_cutShort_none _ _)
      have hentries : c'.entries = Recency.put c.capacity k value c.entries :=
        (h.refines hc).entries
      have hmem : (k, v) ∈ Recency.put c.capacity k value c.entries := by
        rw [← hentries]
        exact (Cache.mem_entries hc'.toWellFormed).mpr ⟨n, hn⟩
      rcases List.mem_cons.mp (List.mem_of_mem_take hmem) with heq | hrest
      · obtain ⟨-, rfl⟩ := Prod.mk.inj heq
        exact Function.update_self _ _ _
      · exact absurd rfl (of_decide_eq_true (List.mem_filter.mp hrest).2)
    · rcases hold with hold | ⟨hop, -⟩
      · exact (Function.update_of_ne hk _ _).trans (hlatest n k v hold)
      · obtain ⟨rfl, -⟩ := Op.put.inj hop
        exact absurd rfl hk

/-! ### One step -/

/-- What a step does: a call, or a write to a live node. -/
theorem next_cases {c₀ : Cache K V} {s s' : State K V} {l : Label K V}
    (h : (system c₀).next s l = some s') :
    (∃ op c' out, l = .call op ∧ s.cache.call op none = some (c', out) ∧
        s' = { cache := c', got := s.got ++ returned op out, latest := stored op s.latest }) ∨
      ∃ key it value j v, l = .write key it value ∧ (key, it) ∈ s.got ∧
        s.cache.node it = some (j, v) ∧
        s' = { s with
          cache := written s.cache it j value
          latest := Function.update s.latest key (some value) } := by
  cases l with
  | call op =>
    obtain ⟨⟨c', out⟩, hcall, rfl⟩ := Option.map_eq_some_iff.mp h
    exact .inl ⟨op, c', out, rfl, hcall, rfl⟩
  | write key it value =>
    simp only [system, next] at h
    split at h
    · rename_i hgot
      obtain ⟨c', hassign, rfl⟩ := Option.map_eq_some_iff.mp h
      rw [Cache.assign] at hassign
      split at hassign
      · cases hassign
      · rename_i j v hit
        obtain rfl := Option.some.inj hassign
        exact .inr ⟨key, it, value, j, v, rfl, hgot, hit, rfl⟩
    · cases h

/-- **The invariant.** -/
structure Good (s : State K V) : Prop where
  corresponds : s.cache.Corresponds
  latest : ∀ n k v, s.cache.node n = some (k, v) → s.latest k = some v
  allocated : ∀ k it, (k, it) ∈ s.got → it < s.cache.allocated
  /-- A pointer for `k` designates a node of `k`, if any. -/
  key : ∀ k it, (k, it) ∈ s.got → ∀ j v, s.cache.node it = some (j, v) → j = k
  /-- Pointers for different keys differ. -/
  distinct : ∀ j k it, (j, it) ∈ s.got → (k, it) ∈ s.got → j = k

theorem good_start {capacity : ℕ} {c₀ : Cache K V} (h : Cache.new K V capacity = .ok c₀)
    {s : State K V} (hs : (system c₀).init s) : Good s := by
  obtain rfl : s = _ := hs
  obtain ⟨hcorr, -, hempty⟩ := new_corresponds h
  refine ⟨hcorr, fun n k v hn => ?_, ?_, ?_, ?_⟩
  · have hmem := hcorr.mem hn
    rw [hempty] at hmem
    cases hmem
  · intro k it hgot
    cases hgot
  · intro k it hgot
    cases hgot
  · intro j k it hgot
    cases hgot

/-- A pointer taken before a call, after it: its node keeps its key or is gone. -/
theorem Good.key_call {s : State K V} (hs : Good s) {op : Op K V} {c' : Cache K V} {out : Out}
    (he : Effect s.cache op none c' out) {k : K} {it : Node} (hgot : (k, it) ∈ s.got) {j : K}
    {v : V} (hn : c'.node it = some (j, v)) : j = k := by
  have hc := hs.corresponds.toWellFormed
  cases hold : s.cache.node it with
  | none =>
    rw [(he.node_lost hc hold (hs.allocated k it hgot)).1] at hn
    cases hn
  | some p =>
    obtain ⟨i, u⟩ := p
    obtain rfl := hs.key k it hgot i u hold
    by_cases hevict : Evicts s.cache i op
    · rw [(he.node_freed hs.corresponds hold hevict).1] at hn
      cases hn
    · obtain ⟨w, hw⟩ := he.node_kept hc hold hevict
      rw [hw] at hn
      exact (Prod.mk.inj (Option.some.inj hn)).1.symm

theorem good_next {c₀ : Cache K V} {s s' : State K V} {l : Label K V} (hs : Good s)
    (h : (system c₀).next s l = some s') : Good s' := by
  have hc := hs.corresponds.toWellFormed
  obtain ⟨op, c', out, rfl, hcall, rfl⟩ | ⟨key, it, value, j, v, rfl, hgot, hit, rfl⟩ :=
    next_cases h
  · have he := effect_of_call hc hcall
    have hc' := he.corresponds hs.corresponds (not_cutShort_none _ _)
    refine ⟨hc', fun n k v hn => latest_call he hs.corresponds hs.latest hn, ?_, ?_, ?_⟩
    · intro k it hgot
      rcases List.mem_append.mp hgot with hold | hnew
      · exact (hs.allocated k it hold).trans_le (allocated_le he hc)
      · obtain ⟨v, hv⟩ := node_of_returned he hnew
        exact hc'.allocated it (hc'.mem hv)
    · intro k it hgot j v hn
      rcases List.mem_append.mp hgot with hold | hnew
      · exact hs.key_call he hold hn
      · obtain ⟨w, hw⟩ := node_of_returned he hnew
        rw [hw] at hn
        exact (Prod.mk.inj (Option.some.inj hn)).1.symm
    · intro j k it hj hk
      rcases List.mem_append.mp hj with hj | hj
      · rcases List.mem_append.mp hk with hk | hk
        · exact hs.distinct j k it hj hk
        · obtain ⟨v, hv⟩ := node_of_returned he hk
          exact (hs.key_call he hj hv).symm
      · obtain ⟨v, hv⟩ := node_of_returned he hj
        rcases List.mem_append.mp hk with hk | hk
        · exact hs.key_call he hk hv
        · obtain ⟨w, hw⟩ := node_of_returned he hk
          rw [hv] at hw
          exact (Prod.mk.inj (Option.some.inj hw)).1
  · obtain rfl := hs.key key it hgot j v hit
    refine ⟨corresponds_written hs.corresponds value hit, ?_, hs.allocated, ?_, hs.distinct⟩
    · intro n k u hn
      have hmapped := (corresponds_written hs.corresponds value hit).mapped
      by_cases hnit : n = it
      · subst hnit
        rw [node_written_self] at hn
        obtain ⟨rfl, rfl⟩ := Prod.mk.inj (Option.some.inj hn)
        exact Function.update_self _ _ _
      · have hkj : k ≠ j := by
          intro hkj
          subst hkj
          have hself := hmapped it k value (node_written_self s.cache it k value)
          exact hnit (Option.some.inj ((hmapped n k u hn).symm.trans hself))
        rw [node_written_of_ne hnit] at hn
        exact (Function.update_of_ne hkj _ _).trans (hs.latest n k u hn)
    · intro k n hgot' i u hn
      obtain ⟨u', hu'⟩ := exists_node_of_map_fst (map_fst_written value hit n) hn
      exact hs.key k n hgot' i u' hu'

theorem good_of_reach {capacity : ℕ} {c₀ : Cache K V} (h : Cache.new K V capacity = .ok c₀)
    {s : State K V} (hs : (system c₀).Reachable s) : Good s :=
  hs.invariant (fun _ h0 => good_start h h0) fun _ _ _ _ hg _ hnext => good_next hg hnext

/-! ### One pointer -/

/-- The pointer `it` designates a live node of `k`. -/
def Live (k : K) (it : Node) (s : State K V) : Prop :=
  Good s ∧ ∃ v, s.cache.node it = some (k, v)

/-- The pointer `it` designates a node that is gone. -/
def Freed (it : Node) (s : State K V) : Prop :=
  Good s ∧ s.cache.node it = none ∧ it < s.cache.allocated

/-- A step that does not evict `k`. -/
def Keeps (k : K) (s : State K V) : Label K V → Prop
  | .call op => ¬ Evicts s.cache k op
  | .write _ _ _ => True

section Pointer

variable {c₀ : Cache K V} {s s' : State K V} {l : Label K V} {k : K} {it : Node}

theorem live_next (hs : Live k it s) (hkeep : Keeps k s l)
    (h : (system c₀).next s l = some s') : Live k it s' := by
  obtain ⟨hg, v, hv⟩ := hs
  refine ⟨good_next hg h, ?_⟩
  obtain ⟨op, c', out, rfl, hcall, rfl⟩ | ⟨key, n, value, j, w, rfl, -, hn, rfl⟩ := next_cases h
  · have he := effect_of_call hg.corresponds.toWellFormed hcall
    exact he.node_kept hg.corresponds.toWellFormed hv hkeep
  · exact exists_node_of_map_fst (map_fst_written value hn it).symm hv

theorem freed_next_of_live (hs : Live k it s) (hkeep : ¬ Keeps k s l)
    (h : (system c₀).next s l = some s') : Freed it s' := by
  obtain ⟨hg, v, hv⟩ := hs
  refine ⟨good_next hg h, ?_⟩
  obtain ⟨op, c', out, rfl, hcall, rfl⟩ | ⟨key, n, value, j, w, rfl, -, hn, rfl⟩ := next_cases h
  · have he := effect_of_call hg.corresponds.toWellFormed hcall
    exact he.node_freed hg.corresponds hv (not_not.mp hkeep)
  · exact absurd trivial hkeep

theorem freed_next (hs : Freed it s) (h : (system c₀).next s l = some s') : Freed it s' := by
  obtain ⟨hg, hnone, hlt⟩ := hs
  refine ⟨good_next hg h, ?_⟩
  obtain ⟨op, c', out, rfl, hcall, rfl⟩ | ⟨key, n, value, j, w, rfl, -, hn, rfl⟩ := next_cases h
  · have he := effect_of_call hg.corresponds.toWellFormed hcall
    exact he.node_lost hg.corresponds.toWellFormed hnone hlt
  · have hne : it ≠ n := by
      intro heq
      rw [heq, hn] at hnone
      cases hnone
    exact ⟨(node_written_of_ne hne j value).trans hnone, hlt⟩

theorem not_freed_of_live (hs : Live k it s) : ¬ Freed it s := by
  obtain ⟨-, v, hv⟩ := hs
  intro hfreed
  rw [hfreed.2.1] at hv
  cases hv

/-- A pointer is live to the end of a run exactly where no step evicts its key. -/
theorem last_live_iff {later : List (Label K V)} (hs : Live k it s)
    (h : (system c₀).run s later = some s') :
    Live k it s' ↔ (system c₀).EveryStep (Keeps k) s later :=
  System.last_iff_everyStep (P := Live k it) (D := Freed it) (fun _ => not_freed_of_live)
    (fun _ _ _ => live_next) (fun _ _ _ => freed_next_of_live) (fun _ _ _ => freed_next) hs h

theorem live_or_freed_of_run {later : List (Label K V)} (hs : Live k it s)
    (h : (system c₀).run s later = some s') : Live k it s' ∨ Freed it s' := by
  refine System.run_invariant (I := fun s => Live k it s ∨ Freed it s) ?_ (.inl hs) h
  intro m l m' hm hnext
  rcases hm with hlive | hfreed
  · by_cases hkeep : Keeps k m l
    · exact .inl (live_next hlive hkeep hnext)
    · exact .inr (freed_next_of_live hlive hkeep hnext)
  · exact .inr (freed_next hfreed hnext)

/-- A pointer once returned stays on record. -/
theorem got_next (hs : (k, it) ∈ s.got) (h : (system c₀).next s l = some s') :
    (k, it) ∈ s'.got := by
  obtain ⟨op, c', out, rfl, -, rfl⟩ | ⟨_, _, _, _, _, rfl, -, -, rfl⟩ := next_cases h
  · exact List.mem_append_left _ hs
  · exact hs

/-- What a live pointer for `k` is good for. -/
structure Designates (s : State K V) (k : K) (it : Node) : Prop where
  /-- It designates the value slot of the list node of `k`, -/
  node : it ∈ s.cache.list ∧ s.cache.map.lookup k = some it
  /-- which holds the value stored for `k` last, -/
  value : ∃ v, s.latest k = some v ∧ s.cache.node it = some (k, v)
  /-- and `get (k)` returns it again. -/
  again : ∃ c', s.cache.get k = some (c', .pointer (some it))

theorem designates_of_live (hs : Live k it s) : Designates s k it := by
  obtain ⟨hg, v, hv⟩ := hs
  have hmap := hg.corresponds.mapped it k v hv
  refine ⟨⟨hg.corresponds.mem hv, hmap⟩, ⟨v, hg.latest it k v hv, hv⟩, s.cache.front it (k, v), ?_⟩
  simp only [Cache.get, hmap, Cache.splice_eq_front hg.corresponds.toWellFormed hv]
  rfl

end Pointer

/-- **A pointer is stable until its key is evicted, and gone ever after.** A
pointer that `get (k)` returned designates the node of `k`, holds the value
stored for `k` last and is what `get (k)` returns, in every later state up to
the `put` that evicts `k`; from then on it designates nothing. A pointer ever
returned for another key designates another node. -/
theorem pointer_stable {capacity : ℕ} {c₀ : Cache K V} (h : Cache.new K V capacity = .ok c₀)
    {s m s' : State K V} (hs : (system c₀).Reachable s) {k : K} {it : Node} {c' : Cache K V}
    (hget : s.cache.get k = some (c', .pointer (some it)))
    (hm : (system c₀).next s (.call (.get k)) = some m)
    {later : List (Label K V)} (hlater : (system c₀).run m later = some s') :
    ((system c₀).EveryStep (Keeps k) m later → Designates s' k it) ∧
    (¬ (system c₀).EveryStep (Keeps k) m later → s'.cache.node it = none) ∧
    ∀ j it', (j, it') ∈ s'.got → j ≠ k → it' ≠ it := by
  have hg := good_of_reach h hs
  have hgm := good_next hg hm
  obtain ⟨hlive, hgot⟩ : Live k it m ∧ (k, it) ∈ m.got := by
    obtain ⟨op, d, out, hl, hcall, rfl⟩ | ⟨_, _, _, _, _, hl, -⟩ := next_cases hm
    · obtain rfl := Label.call.inj hl
      obtain ⟨rfl, rfl⟩ := Prod.mk.inj (Option.some.inj (hcall.symm.trans hget))
      have he := effect_of_call hg.corresponds.toWellFormed hcall
      exact ⟨⟨hgm, node_of_returned he List.mem_cons_self⟩,
        List.mem_append_right _ List.mem_cons_self⟩
    · cases hl
  have hkeep : (system c₀).EveryStep (Keeps k) m later → Live k it s' :=
    (last_live_iff hlive hlater).mpr
  refine ⟨fun hall => designates_of_live (hkeep hall), fun hnot => ?_, fun j it' hj hne => ?_⟩
  · obtain hlast | ⟨-, hnone, -⟩ := live_or_freed_of_run hlive hlater
    · exact absurd ((last_live_iff hlive hlater).mp hlast) hnot
    · exact hnone
  · intro heq
    have hg' : Good s' := System.run_invariant (fun _ _ _ => good_next) hgm hlater
    have hgot' : (k, it) ∈ s'.got :=
      System.run_invariant (I := fun s => (k, it) ∈ s.got) (fun _ _ _ => got_next) hgot hlater
    exact hne (hg'.distinct j k it (heq ▸ hj) hgot')

/-- With room for two: a write through the pointer for 1, an overwrite of 1 and
a `put` of 2 leave it good. -/
theorem pointer_stable_written :
    ∃ s, (system (.empty ℕ ℕ 2)).run
        { cache := .empty ℕ ℕ 2, got := [], latest := fun _ => none }
        [.call (.put 1 10), .call (.get 1), .write 1 0 11, .call (.put 2 20),
          .call (.put 1 12)] = some s ∧
      Designates s 1 0 ∧ s.latest 1 = some 12 := by
  have hnew : Cache.new ℕ ℕ 2 = .ok (.empty ℕ ℕ 2) := rfl
  have hreach : (system (.empty ℕ ℕ 2)).Reachable _ :=
    .step (l := .call (.put 1 10)) (.init rfl) trivial rfl
  refine ⟨_, rfl, (pointer_stable hnew hreach
    (rfl : Cache.get 1 _ = some (_, .pointer (some 0))) rfl
    (rfl : System.run _ _ [.write 1 0 11, .call (.put 2 20), .call (.put 1 12)] = some _)).1 ?_,
    rfl⟩
  refine ⟨trivial, fun m hm => ?_⟩
  obtain rfl := Option.some.inj hm
  refine ⟨fun hc => absurd hc.2.1 (by decide), fun m hm => ?_⟩
  obtain rfl := Option.some.inj hm
  exact ⟨fun hc => absurd hc.1 (Option.some_ne_none _), fun _ _ => trivial⟩

end CcSnippets.LruCache.Pointers

import CcSnippets.Null.LruCache.Refines

/-!
# CcSnippets.Null.LruCache.ClosedForm

The cache as a function of its whole history: after any calls that did not throw
`list_` holds **the keys used most recently**, newest first, as many as there is
room for. Whether a `get` is a use depends on what it found, so the uses are read
off the calls together with what they returned.
-/

namespace CcSnippets.LruCache

open CcSnippets.Core Recency

variable {K V : Type*} [DecidableEq K]

/-- The key a call uses: a `put`, or a `get` that returned a pointer. -/
def usedKey : Op K V × Out → Option K
  | (.put key _, _) => some key
  | (.get key, .pointer (some _)) => some key
  | _ => none

/-- The keys used, oldest use first. -/
def uses (calls : List (Op K V × Out)) : List K := calls.filterMap usedKey

/-- The value a call puts under `k`. -/
def putValue (k : K) : Op K V → Option V
  | .put key value => if key = k then some value else none
  | .get _ => none

/-- The value of the last `put` of `k`. -/
def lastPut (k : K) (ops : List (Op K V)) : Option V := (ops.filterMap (putValue k)).getLast?

theorem lastPut_concat_put_self (ops : List (Op K V)) (k : K) (v : V) :
    lastPut k (ops ++ [.put k v]) = some v := by
  simp [lastPut, putValue]

theorem lastPut_concat_of_none {ops : List (Op K V)} {k : K} {op : Op K V}
    (h : putValue k op = none) : lastPut k (ops ++ [op]) = lastPut k ops := by
  simp [lastPut, h]

/-- What the cache has been told. -/
def State.ops (s : State K V) : List (Op K V) := s.calls.map Prod.fst

/-- The state after one more call. -/
def State.after (s : State K V) (c' : Cache K V) (op : Op K V) (out : Out) : State K V :=
  { cache := c', calls := s.calls ++ [(op, out)] }

omit [DecidableEq K] in
theorem ops_after (s : State K V) (c' : Cache K V) (op : Op K V) (out : Out) :
    (s.after c' op out).ops = s.ops ++ [op] := by
  simp [State.ops, State.after]

omit [DecidableEq K] in
theorem uses_after_of_some {s : State K V} {c' : Cache K V} {op : Op K V} {out : Out} {k : K}
    (h : usedKey (op, out) = some k) : uses (s.after c' op out).calls = uses s.calls ++ [k] := by
  simp [uses, State.after, h]

omit [DecidableEq K] in
theorem uses_after_of_none {s : State K V} {c' : Cache K V} {op : Op K V} {out : Out}
    (h : usedKey (op, out) = none) : uses (s.after c' op out).calls = uses s.calls := by
  simp [uses, State.after, h]

/-- What the list holds, against the whole history. -/
structure Recent (room : ℕ) (s : State K V) : Prop where
  corresponds : s.cache.Corresponds
  capacity : s.cache.capacity = room
  keys : s.cache.entries.map Prod.fst = (recent (uses s.calls)).take room
  values : ∀ p ∈ s.cache.entries, lastPut p.1 s.ops = some p.2
  put : ∀ k, k ∈ uses s.calls ↔ ∃ v, .put k v ∈ s.ops

theorem new_corresponds {capacity : ℕ} {c₀ : Cache K V}
    (h : Cache.new K V capacity = .ok c₀) :
    c₀.Corresponds ∧ c₀.capacity = capacity ∧ c₀.list = [] := by
  rw [Cache.new] at h
  split at h
  · cases h
  · rename_i hcap
    obtain rfl := Except.ok.inj h
    refine ⟨⟨⟨Nat.pos_of_ne_zero hcap, List.nodup_nil, by simp [Cache.empty], Nat.zero_le _,
      by simp [Cache.empty], ?_⟩, ?_⟩, rfl, rfl⟩
    · intro k n hk
      rw [Cache.empty, Finmap.lookup_empty] at hk
      cases hk
    · intro n k v hn
      cases hn

theorem recent_start {capacity : ℕ} {c₀ : Cache K V} (h : Cache.new K V capacity = .ok c₀) :
    Recent capacity { cache := c₀, calls := [] } := by
  obtain ⟨hcorr, hcap, hempty⟩ := new_corresponds h
  have hentries : c₀.entries = [] := by rw [Cache.entries, hempty, List.filterMap_nil]
  refine ⟨hcorr, hcap, ?_, ?_, fun k => ?_⟩
  · rw [hentries, uses, List.filterMap_nil, recent, List.dedup_nil, List.reverse_nil,
      List.take_nil, List.map_nil]
  · rw [hentries]
    exact fun p hp => absurd hp List.not_mem_nil
  · simp [uses, State.ops]

/-! ### One call -/

namespace Recent

variable {room : ℕ} {s : State K V} {key : K} {c' : Cache K V} {out : Out}

/-- A `get` that finds nothing leaves everything as it is. -/
theorem get_miss (hs : Recent room s) (he : Effect s.cache (.get key) none c' out)
    (hfind : find key s.cache.entries = none) : Recent room (s.after c' (.get key) out) := by
  obtain ⟨hentries, it, rfl, hit⟩ := he.refines hs.corresponds
  rw [hfind, Option.map_none, Option.map_eq_none_iff] at hit
  subst hit
  simp only [Recency.get, hfind] at hentries
  have huses : uses (s.after c' (.get key) (.pointer none)).calls = uses s.calls :=
    uses_after_of_none rfl
  refine ⟨he.corresponds hs.corresponds (not_cutShort_none _ _),
    (he.capacity hs.corresponds.toWellFormed).trans hs.capacity, ?_, fun p hp => ?_, fun k => ?_⟩
  · rw [huses, ← hs.keys, ← hentries, State.after]
  · rw [State.after, hentries] at hp
    rw [ops_after, lastPut_concat_of_none rfl, hs.values p hp]
  · simpa [huses, ops_after] using hs.put k

/-- A `get` that finds its key moves it to the front. -/
theorem get_hit (hs : Recent room s) (he : Effect s.cache (.get key) none c' out) {v : V}
    (hfind : find key s.cache.entries = some v) : Recent room (s.after c' (.get key) out) := by
  obtain ⟨hentries, it, rfl, hit⟩ := he.refines hs.corresponds
  obtain ⟨n, rfl⟩ : ∃ n, it = some n := by
    rw [← Option.isSome_iff_exists, ← Option.isSome_map, hit, hfind]
    rfl
  simp only [Recency.get, hfind] at hentries
  have hmem := (find_eq_some (Cache.nodup_keys hs.corresponds)).mp hfind
  have hkey : key ∈ s.cache.entries.map Prod.fst := List.mem_map.mpr ⟨_, hmem, rfl⟩
  have huses : uses (s.after c' (.get key) (.pointer (some n))).calls = uses s.calls ++ [key] :=
    uses_after_of_some rfl
  refine ⟨he.corresponds hs.corresponds (not_cutShort_none _ _),
    (he.capacity hs.corresponds.toWellFormed).trans hs.capacity, ?_, fun p hp => ?_, fun k => ?_⟩
  · have htake : (use key v s.cache.entries).take room = use key v s.cache.entries := by
      rw [← hs.capacity]
      exact Cache.take_use hs.corresponds hkey
    rw [huses, ← keys_use_take hs.keys key v, htake, ← hentries, State.after]
  · have hold : p ∈ s.cache.entries := by
      rw [State.after, hentries] at hp
      rcases List.mem_cons.mp hp with rfl | hp
      · exact hmem
      · exact List.mem_of_mem_filter hp
    rw [ops_after, lastPut_concat_of_none rfl, hs.values p hold]
  · -- a key that is held was used, so this use is not its first
    have hused : key ∈ uses s.calls := by
      rw [hs.keys] at hkey
      exact mem_recent.mp (List.mem_of_mem_take hkey)
    have hput := hs.put k
    by_cases hk : k = key
    · subst hk
      simpa [huses, ops_after] using hput.mp hused
    · simpa [huses, ops_after, hk] using hput

/-- A `put` brings its key to the front, whether it was there or not. -/
theorem put_any (hs : Recent room s) {value : V}
    (he : Effect s.cache (.put key value) none c' out) :
    Recent room (s.after c' (.put key value) out) := by
  obtain ⟨hentries, rfl⟩ := he.refines hs.corresponds
  simp only [Recency.put, hs.capacity] at hentries
  have huses : uses (s.after c' (.put key value) .done).calls = uses s.calls ++ [key] :=
    uses_after_of_some rfl
  refine ⟨he.corresponds hs.corresponds (not_cutShort_none _ _),
    (he.capacity hs.corresponds.toWellFormed).trans hs.capacity, ?_, fun p hp => ?_, fun k => ?_⟩
  · rw [huses, ← keys_use_take hs.keys key value, ← hentries, State.after]
  · rw [State.after, hentries] at hp
    rw [ops_after]
    rcases List.mem_cons.mp (List.mem_of_mem_take hp) with rfl | hp
    · exact lastPut_concat_put_self _ _ _
    · obtain ⟨hold, hne⟩ := List.mem_filter.mp hp
      have hput : putValue p.1 (Op.put key value) = none :=
        if_neg fun heq => (of_decide_eq_true hne) heq.symm
      rw [lastPut_concat_of_none hput, hs.values p hold]
  · have hput := hs.put k
    by_cases hk : k = key
    · subst hk
      simp [huses, ops_after]
    · simpa [huses, ops_after, hk] using hput

/-- A `get` finds its key where that was put and few enough other keys have been
used since, and with the value of its last `put`. -/
theorem get_finds (hs : Recent room s) (k : K) :
    ∃ c' it, s.cache.get k = some (c', .pointer it) ∧
      (it ≠ none ↔ (∃ v, .put k v ∈ s.ops) ∧ (since k (uses s.calls)).toFinset.card < room) ∧
      ∀ n, it = some n → ∃ v, c'.node n = some (k, v) ∧ lastPut k s.ops = some v := by
  obtain ⟨c', out, hcall, he⟩ := call_effect hs.corresponds.toWellFormed (.get k) none
  obtain ⟨-, it, rfl, hit⟩ := he.refines hs.corresponds
  refine ⟨c', it, hcall, ?_, ?_⟩
  · rw [← hs.put k, ← mem_take_recent, ← hs.keys, not_iff_comm, ← find_eq_none]
    constructor
    · intro hfind
      rwa [hfind, Option.map_none, Option.map_eq_none_iff] at hit
    · intro heq
      subst heq
      exact (Option.map_eq_none_iff.mp hit.symm)
  · intro n heq
    subst heq
    cases hfind : find k s.cache.entries with
    | none => simp [hfind] at hit
    | some v =>
      refine ⟨v, by simpa [hfind] using hit, ?_⟩
      exact hs.values (k, v) ((find_eq_some (Cache.nodup_keys hs.corresponds)).mp hfind)

end Recent

/-- Every call goes through and keeps the closed form. -/
theorem recent_next {room : ℕ} {c₀ : Cache K V} {s : State K V} (hs : Recent room s)
    (op : Op K V) :
    ∃ s', (system c₀).next s (op, none) = some s' ∧ Recent room s' := by
  obtain ⟨c', out, hcall, he⟩ := call_effect hs.corresponds.toWellFormed op none
  refine ⟨s.after c' op out, by simp [system, hcall, State.after], ?_⟩
  cases op with
  | get key =>
    cases hfind : find key s.cache.entries with
    | none => exact hs.get_miss he hfind
    | some v => exact hs.get_hit he hfind
  | put key value => exact hs.put_any he

/-- The calls recorded are the calls made. -/
theorem ops_run {c₀ : Cache K V} {s s' : State K V} {ls : List (Op K V × Option Throw)}
    (h : (system c₀).run s ls = some s') : s'.ops = s.ops ++ ls.map Prod.fst := by
  induction ls generalizing s with
  | nil =>
    obtain rfl : s = s' := Option.some.inj h
    simp
  | cons l ls ih =>
    obtain ⟨m, hm, hrest⟩ := System.run_cons_eq_some.mp h
    obtain ⟨r, -, rfl⟩ := Option.map_eq_some_iff.mp hm
    rw [ih hrest]
    simp [State.ops]

/-! ### The whole history -/

/-- **The closed form**: for every capacity and every sequence of calls, the list
holds the keys used most recently, newest first, each once, with the value of its
last `put`; the map has exactly these keys, each mapped to its own node; and a
`get` finds `k` exactly where `k` was put and fewer than `capacity` distinct
other keys have been used since. -/
theorem holds_most_recently_used {capacity : ℕ} {c₀ : Cache K V}
    (h : Cache.new K V capacity = .ok c₀) (ops : List (Op K V)) :
    ∃ s, (system c₀).run { cache := c₀, calls := [] } (ops.map fun op => (op, none)) = some s ∧
      s.ops = ops ∧
      s.cache.entries.map Prod.fst = (recent (uses s.calls)).take capacity ∧
      (∀ p ∈ s.cache.entries, lastPut p.1 ops = some p.2) ∧
      (∀ k, k ∈ s.cache.map ↔ k ∈ s.cache.entries.map Prod.fst) ∧
      (∀ k n, s.cache.map.lookup k = some n ↔
        n ∈ s.cache.list ∧ ∃ v, s.cache.node n = some (k, v)) ∧
      ∀ k, ∃ c' it, s.cache.get k = some (c', .pointer it) ∧
        (it ≠ none ↔ (∃ v, .put k v ∈ ops) ∧ (since k (uses s.calls)).toFinset.card < capacity) ∧
        ∀ n, it = some n → ∃ v, c'.node n = some (k, v) ∧ lastPut k ops = some v := by
  have hstep : ∀ s, Recent capacity s → ∀ l ∈ ops.map fun op => (op, (none : Option Throw)),
      ∃ s', (system c₀).next s l = some s' ∧ Recent capacity s' := by
    intro s hs l hl
    obtain ⟨op, -, rfl⟩ := List.mem_map.mp hl
    exact recent_next hs op
  obtain ⟨s, hrun, hs⟩ := System.run_of_enabled hstep (recent_start h)
  have hops : s.ops = ops := by
    rw [ops_run hrun]
    simp [State.ops, Function.comp_def]
  have hvalues := hs.values
  have hfinds := hs.get_finds
  rw [hops] at hvalues hfinds
  refine ⟨s, hrun, hops, hs.keys, hvalues, fun k => ?_, fun k n => ⟨fun hk => ?_, ?_⟩, hfinds⟩
  · rw [Cache.mem_keys hs.corresponds, Finmap.mem_iff]
  · obtain ⟨v, hv⟩ := hs.corresponds.points k n hk
    exact ⟨hs.corresponds.mem hv, v, hv⟩
  · intro hnode
    obtain ⟨-, v, hv⟩ := hnode
    exact hs.corresponds.mapped n k v hv

/-- With room for two, the `get` of 1 saves it from the eviction. -/
theorem holds_most_recently_used_two :
    ∃ c₀ s, Cache.new ℕ ℕ 2 = .ok c₀ ∧
      (system c₀).run { cache := c₀, calls := [] }
        ([.put 1 10, .put 2 20, .get 1, .put 3 30].map fun op => (op, none)) = some s ∧
      s.cache.entries.map Prod.fst = (recent (uses s.calls)).take 2 ∧
      s.cache.entries = [(3, 30), (1, 10)] := by
  obtain ⟨s, hrun, -, hkeys, -⟩ := @holds_most_recently_used ℕ ℕ _ 2 _ rfl
    [.put 1 10, .put 2 20, .get 1, .put 3 30]
  refine ⟨_, s, rfl, hrun, hkeys, ?_⟩
  have hentries : (some s).map (fun s => s.cache.entries) = some [(3, 30), (1, 10)] := by
    rw [← hrun]
    rfl
  exact Option.some.inj hentries

end CcSnippets.LruCache

import CcSnippets.Null.LruCache.ClosedForm

/-!
# CcSnippets.Null.LruCache.Concurrent

`concurrent_lru_cache` (`null/concurrent_lru_cache.h`): the same cache, each call
under the mutex, and the pointers that outlive it.

A call is one step, since `mutex_` is held throughout; reading through a pointer
that a `get` returned is a step of its own, taken at any later time. Every run of
calls is a run of the sequential cache (`calls_sequential`), so what it holds is
in order. **A pointer is good for as long as no `put` evicts its key**, and never
after (`read_iff`): the lock does not protect what `get` hands out.
-/

namespace CcSnippets.ConcurrentLruCache

open CcSnippets.Core CcSnippets.LruCache

variable {τ K V : Type*} [DecidableEq K]

/-- `concurrent_lru_cache::get`, the body under the lock. -/
def get (key : K) (c : Cache K V) : Option (Cache K V × Out) := Cache.get key c

/-- `concurrent_lru_cache::put`, the body under the lock. -/
def put (key : K) (value : V) (c : Cache K V) : Option (Cache K V × Out) :=
  Cache.put none key value c

/-- The code a call runs. -/
def call (op : Op K V) (c : Cache K V) : Option (Cache K V × Out) :=
  match op with
  | .get key => get key c
  | .put key value => put key value c

/-- The cache, the calls made, and what was read through returned pointers. -/
structure State (τ K V : Type*) where
  cache : Cache K V
  /-- The calls, in the order of their critical sections. -/
  calls : List (τ × Op K V × Out)
  /-- Each read: its thread, the pointer, and what the node held (`none` where it
  had been freed). -/
  reads : List (τ × Node × Option (K × V))

/-- A step of a thread. -/
inductive Label (τ K V : Type*)
  /-- A call, from taking the mutex to releasing it. -/
  | call (t : τ) (op : Op K V)
  /-- A read through a pointer that a `get` of this thread returned. -/
  | read (t : τ) (key : K) (it : Node)
  deriving DecidableEq, Repr

/-- Thread `t` got the pointer `it` for `key`. -/
def State.Got (s : State τ K V) (t : τ) (key : K) (it : Node) : Prop :=
  (t, .get key, .pointer (some it)) ∈ s.calls

instance [DecidableEq τ] [DecidableEq V] (s : State τ K V) (t : τ) (key : K) (it : Node) :
    Decidable (s.Got t key it) :=
  inferInstanceAs (Decidable (_ ∈ _))

variable [DecidableEq τ] [DecidableEq V]

/-- The successor of a state. -/
def next (s : State τ K V) : Label τ K V → Option (State τ K V)
  | .call t op =>
    (call op s.cache).map fun r => { s with cache := r.1, calls := s.calls ++ [(t, op, r.2)] }
  | .read t key it =>
    if s.Got t key it then some { s with reads := s.reads ++ [(t, it, s.cache.node it)] } else none

/-- The cache in the hands of any number of threads. -/
def system (τ : Type*) [DecidableEq τ] (c₀ : Cache K V) : System (State τ K V) (Label τ K V) where
  init s := s = { cache := c₀, calls := [], reads := [] }
  next := next

/-! ### The calls -/

omit [DecidableEq V] in
/-- The lock adds nothing to what a call does. -/
theorem call_eq (op : Op K V) (c : Cache K V) : call op c = c.call op none := by
  cases op <;> rfl

/-- What a step does, read as a call of the sequential cache. -/
theorem next_cases {c₀ : Cache K V} {s s' : State τ K V} {l : Label τ K V}
    (h : (system τ c₀).next s l = some s') :
    (∃ t op c' out, l = .call t op ∧ s.cache.call op none = some (c', out) ∧
        s' = { s with cache := c', calls := s.calls ++ [(t, op, out)] }) ∨
      ∃ t key it, l = .read t key it ∧ s.Got t key it ∧
        s' = { s with reads := s.reads ++ [(t, it, s.cache.node it)] } := by
  cases l with
  | call t op =>
    obtain ⟨⟨c', out⟩, hcall, rfl⟩ := Option.map_eq_some_iff.mp h
    exact .inl ⟨t, op, c', out, rfl, (call_eq op s.cache).symm.trans hcall, rfl⟩
  | read t key it =>
    simp only [system, next] at h
    split at h
    · rename_i hgot
      exact .inr ⟨t, key, it, rfl, hgot, (Option.some.inj h).symm⟩
    · cases h

/-- The critical sections in order. -/
def Label.op : Label τ K V → Option (Op K V × Option Throw)
  | .call _ op => some (op, none)
  | .read _ _ _ => none

/-- **Every run is a run of the sequential cache**, on the calls in the order of
their critical sections. -/
theorem calls_sequential {c₀ : Cache K V} {s s' : State τ K V} {ls : List (Label τ K V)}
    (h : (system τ c₀).run s ls = some s') :
    (LruCache.system c₀).run { cache := s.cache, calls := s.calls.map Prod.snd }
        (ls.filterMap Label.op) =
      some { cache := s'.cache, calls := s'.calls.map Prod.snd } := by
  induction ls generalizing s with
  | nil =>
    obtain rfl : s = s' := Option.some.inj h
    rfl
  | cons l ls ih =>
    obtain ⟨m, hm, hrest⟩ := System.run_cons_eq_some.mp h
    obtain ⟨t, op, c', out, rfl, hcall, rfl⟩ | ⟨t, key, it, rfl, -, rfl⟩ := next_cases hm
    · rw [List.filterMap_cons_some (by rfl), System.run_cons]
      simpa [LruCache.system, hcall] using ih hrest
    · have := ih hrest
      rwa [List.filterMap_cons_none (by rfl)]

/-! ### Pointers -/

/-- What every reachable state satisfies. -/
structure Good (s : State τ K V) : Prop where
  corresponds : s.cache.Corresponds
  /-- What a node holds was put there. -/
  stored : ∀ n k v, s.cache.node n = some (k, v) → ∃ t, (t, .put k v, .done) ∈ s.calls

/-- The pointer `it` designates a live node of the list whose key is `k`. -/
def Live (k : K) (it : Node) (s : State τ K V) : Prop :=
  Good s ∧ ∃ v, s.cache.node it = some (k, v)

/-- The pointer `it` designates a node that was freed. -/
def Freed (it : Node) (s : State τ K V) : Prop :=
  Good s ∧ s.cache.node it = none ∧ it < s.cache.allocated

/-- A step that does not evict the pointer's key. -/
def Keeps (k : K) (s : State τ K V) : Label τ K V → Prop
  | .call _ op => ¬ Evicts s.cache k op
  | .read _ _ _ => True

theorem good_start {capacity : ℕ} {c₀ : Cache K V} (h : Cache.new K V capacity = .ok c₀)
    {s : State τ K V} (hs : (system τ c₀).init s) : Good s := by
  obtain rfl : s = _ := hs
  obtain ⟨hcorr, -, hempty⟩ := new_corresponds h
  refine ⟨hcorr, fun n k v hn => ?_⟩
  have hmem := hcorr.mem hn
  rw [hempty] at hmem
  cases hmem

theorem good_next {c₀ : Cache K V} {s s' : State τ K V} {l : Label τ K V} (hs : Good s)
    (h : (system τ c₀).next s l = some s') : Good s' := by
  obtain ⟨t, op, c', out, rfl, hcall, rfl⟩ | ⟨t, key, it, rfl, -, rfl⟩ := next_cases h
  · have he := effect_of_call hs.corresponds.toWellFormed hcall
    refine ⟨he.corresponds hs.corresponds (not_cutShort_none _ _), fun n k v hn => ?_⟩
    obtain hold | ⟨rfl, rfl⟩ := he.stored hs.corresponds.toWellFormed hn
    · obtain ⟨u, hu⟩ := hs.stored n k v hold
      exact ⟨u, List.mem_append_left _ hu⟩
    · exact ⟨t, List.mem_append_right _ (List.mem_singleton_self _)⟩
  · exact ⟨hs.corresponds, hs.stored⟩

theorem good_of_reach {capacity : ℕ} {c₀ : Cache K V} (h : Cache.new K V capacity = .ok c₀)
    {s : State τ K V} (hs : (system τ c₀).Reachable s) : Good s :=
  hs.invariant (fun _ h0 => good_start h h0) fun _ _ _ _ hg _ hnext => good_next hg hnext

section Pointer

variable {c₀ : Cache K V} {s s' : State τ K V} {l : Label τ K V} {k : K} {it : Node}

theorem live_next (hs : Live k it s) (hkeep : Keeps k s l)
    (h : (system τ c₀).next s l = some s') : Live k it s' := by
  obtain ⟨hg, v, hv⟩ := hs
  refine ⟨good_next hg h, ?_⟩
  obtain ⟨t, op, c', out, rfl, hcall, rfl⟩ | ⟨t, key, n, rfl, -, rfl⟩ := next_cases h
  · have he := effect_of_call hg.corresponds.toWellFormed hcall
    exact he.node_kept hg.corresponds.toWellFormed hv hkeep
  · exact ⟨v, hv⟩

theorem freed_next_of_live (hs : Live k it s) (hkeep : ¬ Keeps k s l)
    (h : (system τ c₀).next s l = some s') : Freed it s' := by
  obtain ⟨hg, v, hv⟩ := hs
  refine ⟨good_next hg h, ?_⟩
  obtain ⟨t, op, c', out, rfl, hcall, rfl⟩ | ⟨t, key, n, rfl, -, rfl⟩ := next_cases h
  · have he := effect_of_call hg.corresponds.toWellFormed hcall
    exact he.node_freed hg.corresponds hv (not_not.mp hkeep)
  · exact absurd trivial hkeep

theorem freed_next (hs : Freed it s) (h : (system τ c₀).next s l = some s') : Freed it s' := by
  obtain ⟨hg, hnone, hlt⟩ := hs
  refine ⟨good_next hg h, ?_⟩
  obtain ⟨t, op, c', out, rfl, hcall, rfl⟩ | ⟨t, key, n, rfl, -, rfl⟩ := next_cases h
  · have he := effect_of_call hg.corresponds.toWellFormed hcall
    exact he.node_lost hg.corresponds.toWellFormed hnone hlt
  · exact ⟨hnone, hlt⟩

/-- The pointer a `get` returns is live when it is returned. -/
theorem live_of_get (hs : Good s) {t : τ}
    (h : (system τ c₀).next s (.call t (.get k)) = some s')
    (hgot : s'.calls = s.calls ++ [(t, .get k, .pointer (some it))]) : Live k it s' := by
  refine ⟨good_next hs h, ?_⟩
  obtain ⟨u, op, c', out, hl, hcall, rfl⟩ | ⟨u, key, n, hl, -⟩ := next_cases h
  · obtain ⟨rfl, rfl⟩ := Label.call.inj hl
    obtain rfl : out = .pointer (some it) := by simpa using hgot
    have he := effect_of_call hs.corresponds.toWellFormed hcall
    cases he with
    | @hit _ _ _ v _ _ => exact ⟨v, Cache.front_node_self _ _ _⟩
  · cases hl

end Pointer

/-- A read through a pointer for `key` is as its client expects: a live node of
the list, with that key, and a value that some `put` stored for it. -/
def ReadOk (s : State τ K V) (key : K) (it : Node) : Prop :=
  it ∈ s.cache.list ∧ ∃ v, s.cache.node it = some (key, v) ∧ ∃ t, (t, .put key v, .done) ∈ s.calls

/-- **A pointer is good until its key is evicted, and never after.** In any run
in which thread `t` gets a pointer for `key` and reads through it later, the read
finds a live node of `key` and a value put for `key` if and only if no `put` in
between evicts `key`. -/
theorem read_iff {capacity : ℕ} {c₀ : Cache K V} (h : Cache.new K V capacity = .ok c₀)
    {s s₁ s₂ s₃ : State τ K V} (hs : (system τ c₀).Reachable s) {t : τ} {key : K} {it : Node}
    (hget : (system τ c₀).next s (.call t (.get key)) = some s₁)
    (hgot : s₁.calls = s.calls ++ [(t, .get key, .pointer (some it))])
    {later : List (Label τ K V)} (hlater : (system τ c₀).run s₁ later = some s₂)
    (hread : (system τ c₀).next s₂ (.read t key it) = some s₃) :
    s₃.reads = s₂.reads ++ [(t, it, s₂.cache.node it)] ∧
      (ReadOk s₂ key it ↔ (system τ c₀).EveryStep (Keeps key) s₁ later) := by
  have hlive := live_of_get (good_of_reach h hs) hget hgot
  have hnot : ∀ s : State τ K V, Live key it s → ¬ Freed it s := by
    intro s hheld hfreed
    obtain ⟨-, v, hv⟩ := hheld
    obtain ⟨-, hnone, -⟩ := hfreed
    rw [hnone] at hv
    cases hv
  have hiff : Live key it s₂ ↔ (system τ c₀).EveryStep (Keeps key) s₁ later :=
    System.last_iff_everyStep hnot (fun _ _ _ => live_next) (fun _ _ _ => freed_next_of_live)
      (fun _ _ _ => freed_next) hlive hlater
  constructor
  · obtain ⟨_, _, _, _, hl, -⟩ | ⟨u, k, n, hl, -, rfl⟩ := next_cases hread
    · cases hl
    · obtain ⟨rfl, rfl, rfl⟩ := Label.read.inj hl
      rfl
  · rw [← hiff]
    have hg : Good s₂ := System.run_invariant (fun _ _ _ => good_next) hlive.1 hlater
    constructor
    · intro hok
      obtain ⟨-, v, hv, -⟩ := hok
      exact ⟨hg, v, hv⟩
    · intro hheld
      obtain ⟨-, v, hv⟩ := hheld
      exact ⟨hg.corresponds.mem hv, v, hv, hg.stored it key v hv⟩

/-- With room for two, the pointer for 1 outlives a `put` of 2 and an overwrite
of 1 by another thread. -/
theorem read_iff_overwrite :
    ∃ s, (system Bool (.empty ℕ ℕ 2)).run { cache := .empty ℕ ℕ 2, calls := [], reads := [] }
        [.call true (.put 1 10), .call false (.get 1), .call true (.put 2 20),
          .call true (.put 1 11)] = some s ∧
      ReadOk s 1 0 := by
  have hnew : Cache.new ℕ ℕ 2 = .ok (.empty ℕ ℕ 2) := rfl
  have hreach : (system Bool (.empty ℕ ℕ 2)).Reachable _ :=
    .step (l := .call true (.put 1 10)) (.init rfl) trivial rfl
  refine ⟨_, rfl, (read_iff (t := false) hnew hreach rfl rfl
    (rfl : System.run _ _ [.call true (.put 2 20), .call true (.put 1 11)] = some _) rfl).2.mpr ?_⟩
  refine ⟨fun hc => absurd hc.2.1 (by decide), fun m hm => ?_⟩
  obtain rfl := Option.some.inj hm
  exact ⟨fun hc => absurd hc.1 (Option.some_ne_none _), fun _ _ => trivial⟩

/-- **A pointer read after the eviction of its key**: with room for one, another
thread's `put` of 2 frees the node between the `get` of 1 and the read. -/
theorem read_after_eviction :
    ∃ c₀ s, Cache.new ℕ ℕ 1 = .ok c₀ ∧
      (system Bool c₀).run { cache := c₀, calls := [], reads := [] }
        [.call true (.put 1 10), .call false (.get 1), .call true (.put 2 20),
          .read false 1 0] = some s ∧
      s.Got false 1 0 ∧ s.reads = [(false, 0, none)] ∧ ¬ ReadOk s 1 0 := by
  refine ⟨_, _, rfl, rfl, by decide, rfl, ?_⟩
  intro hok
  obtain ⟨-, v, hv, -⟩ := hok
  cases hv

end CcSnippets.ConcurrentLruCache

import CcSnippets.Core.Monitor
import CcSnippets.Null.LruCache.Concurrent

/-!
# CcSnippets.Null.LruCache.Linearizable

`concurrent_lru_cache` is **linearizable**.

Here a call is not one step: it takes the mutex, does each operation on the containers in
a step of its own, any of which may throw, and releases the mutex when it is left by a
return or by an exception (`std::lock_guard`). Every history of such calls is one of
`lru_cache` (`methods_linearizable`), and where nothing throws it is one of a list of the
entries used most recently (`recency_linearizable`).
-/

namespace CcSnippets.ConcurrentLruCache

open CcSnippets.Core CcSnippets.LruCache

variable {τ K V : Type*} [DecidableEq K]

/-! ### The calls step by step -/

/-- What a call does next. -/
inductive Point (K V : Type*)
  /-- `map_.find (key)`. -/
  | find (op : Op K V)
  /-- The `splice` of `get`, which returns the pointer. -/
  | spliceGet (it : Node)
  /-- `list_it->second = std::move (value)`. -/
  | assign (it : Node) (value : V)
  /-- The `splice` of `put`. -/
  | splicePut (it : Node)
  /-- `if (list_.size () >= capacity_)`, and the eviction. -/
  | makeRoom (key : K) (value : V)
  /-- `list_.push_front ({ key, std::move (value) })`. -/
  | pushFront (key : K) (value : V)
  /-- `map_[key] = list_.begin ()`. -/
  | mapInsert (key : K)
  deriving DecidableEq, Repr

/-- One step of a call, which may throw where the allocations do. -/
def step (throws : Bool) (c : Cache K V) : Point K V → Option (Cache K V × (Point K V ⊕ Out))
  | .find (.get key) =>
    match c.map.lookup key with
    | none => some (c, .inr (.pointer none))
    | some it => some (c, .inl (.spliceGet it))
  | .find (.put key value) =>
    match c.map.lookup key with
    | none => some (c, .inl (.makeRoom key value))
    | some it => some (c, .inl (.assign it value))
  | .spliceGet it => (c.splice it).map fun c => (c, .inr (.pointer (some it)))
  | .assign it value => (c.assign it value).map fun c => (c, .inl (.splicePut it))
  | .splicePut it => (c.splice it).map fun c => (c, .inr .done)
  | .makeRoom key value => c.makeRoom.map fun c => (c, .inl (.pushFront key value))
  | .pushFront key value =>
    if throws then some (c, .inr (.threw .pushFront))
    else some (c.pushFront key value, .inl (.mapInsert key))
  | .mapInsert key =>
    if throws then some (c, .inr (.threw .mapInsert))
    else (c.mapBegin key).map fun c => (c, .inr .done)

/-- `concurrent_lru_cache`, whose allocations may throw or do not. -/
def monitor (mayThrow : Bool) (c₀ : Cache K V) :
    Monitor (Cache K V) (Op K V) (Point K V) Bool Out where
  start := c₀
  enter := .find
  step throws p c := step (mayThrow && throws) c p

/-- `lru_cache` as a sequential object. -/
def calls (c₀ : Cache K V) : Object (Cache K V) (Op K V) Out Out where
  start := c₀
  Does c op out c' := ∃ throws, c.call op throws = some (c', out)
  Shows := Eq

variable {mayThrow : Bool} {c₀ c c' : Cache K V} {out : Out}

/-! ### A call in one piece -/

section Runs

variable {it : Node} {key : K} {value : V} {p : Point K V}

theorem runs_iff : (monitor mayThrow c₀).Runs p c out c' ↔
    (∃ throws, step (mayThrow && throws) c p = some (c', .inr out)) ∨
      ∃ throws mid q, step (mayThrow && throws) c p = some (mid, .inl q) ∧
        (monitor mayThrow c₀).Runs q mid out c' :=
  Monitor.runs_iff

theorem runs_spliceGet : (monitor mayThrow c₀).Runs (.spliceGet it) c out c' ↔
    c.splice it = some c' ∧ .pointer (some it) = out := by
  rw [runs_iff]
  simp [step]

theorem runs_splicePut : (monitor mayThrow c₀).Runs (.splicePut it) c out c' ↔
    c.splice it = some c' ∧ .done = out := by
  rw [runs_iff]
  simp [step]

theorem runs_assign : (monitor mayThrow c₀).Runs (.assign it value) c out c' ↔
    (c.assign it value).bind (fun c => c.splice it) = some c' ∧ .done = out := by
  rw [runs_iff, Option.bind_eq_some_iff]
  simp only [step, Option.map_eq_some_iff, Prod.mk.injEq, reduceCtorEq, and_false, exists_false,
    false_or, Sum.inl.injEq, existsAndEq, true_and]
  simp [runs_splicePut, ← and_assoc]

theorem runs_mapInsert : (monitor mayThrow c₀).Runs (.mapInsert key) c out c' ↔
    c.mapBegin key = some c' ∧ .done = out ∨
      mayThrow = true ∧ c = c' ∧ .threw .mapInsert = out := by
  rw [runs_iff]
  cases mayThrow <;> simp [step]

theorem runs_pushFront : (monitor mayThrow c₀).Runs (.pushFront key value) c out c' ↔
    ∃ throws, (throws ≠ none → mayThrow = true) ∧
      c.insertFront throws key value = some (c', out) := by
  have hfirst : (monitor mayThrow c₀).Runs (.pushFront key value) c out c' ↔
      (monitor mayThrow c₀).Runs (.mapInsert key) (c.pushFront key value) out c' ∨
        mayThrow = true ∧ c = c' ∧ .threw .pushFront = out := by
    rw [runs_iff]
    cases mayThrow <;> simp [step, or_comm]
  have hplaces : ∀ {P : Option Throw → Prop},
      (∃ throws, P throws) ↔ P none ∨ P (some .pushFront) ∨ P (some .mapInsert) := by
    intro P
    constructor
    · intro h
      obtain ⟨throws, h⟩ := h
      rcases throws with _ | _ | _
      · exact .inl h
      · exact .inr (.inl h)
      · exact .inr (.inr h)
    · intro h
      rcases h with h | h | h
      · exact ⟨none, h⟩
      · exact ⟨some .pushFront, h⟩
      · exact ⟨some .mapInsert, h⟩
  rw [hfirst, runs_mapInsert, hplaces]
  simp [Cache.insertFront, Option.bind_eq_some_iff, or_assoc, or_comm]

theorem runs_makeRoom : (monitor mayThrow c₀).Runs (.makeRoom key value) c out c' ↔
    ∃ r, c.makeRoom = some r ∧ (monitor mayThrow c₀).Runs (.pushFront key value) r out c' := by
  rw [runs_iff]
  simp [step]

/-- **A call step by step is the call in one piece.** -/
theorem runs_find {op : Op K V} : (monitor mayThrow c₀).Runs (.find op) c out c' ↔
    ∃ throws, (throws ≠ none → mayThrow = true) ∧ c.call op throws = some (c', out) := by
  have hnone : ∃ throws : Option Throw, ¬ throws = none → mayThrow = true :=
    ⟨none, fun hne => absurd rfl hne⟩
  rw [runs_iff]
  cases op with
  | get key =>
    cases hkey : c.map.lookup key with
    | none => simp [step, Cache.call, Cache.get, hkey, hnone]
    | some it =>
      simp [step, Cache.call, Cache.get, hkey, hnone, runs_spliceGet, Option.bind_eq_some_iff]
  | put key value =>
    cases hkey : c.map.lookup key with
    | some it =>
      simp [step, Cache.call, Cache.put, hkey, hnone, runs_assign, Option.bind_eq_some_iff,
        ← and_assoc]
    | none =>
      have hbody : ∀ throws, c.call (.put key value) throws = some (c', out) ↔
          ∃ r, c.makeRoom = some r ∧ r.insertFront throws key value = some (c', out) := by
        simp [Cache.call, Cache.put, hkey, Option.bind_eq_some_iff]
      have hsteps : (monitor mayThrow c₀).Runs (.makeRoom key value) c out c' ↔
          ∃ throws r, (throws ≠ none → mayThrow = true) ∧ c.makeRoom = some r ∧
            r.insertFront throws key value = some (c', out) := by
        simp only [runs_makeRoom, runs_pushFront]
        grind
      simp [step, hkey, hbody, hsteps]

end Runs

/-- The methods are those of `lru_cache`. -/
theorem refines_calls (mayThrow : Bool) (c₀ : Cache K V) :
    (monitor mayThrow c₀).sequential.Refines (calls c₀) Eq where
  start := rfl
  does := by
    intro c c' d op out hcd hruns
    subst hcd
    obtain ⟨throws, -, hcall⟩ := runs_find.mp hruns
    exact ⟨out, c', ⟨throws, hcall⟩, rfl, fun r hr => hr⟩

variable [DecidableEq τ]

/-! ### Progress -/

/-- What makes the step at a point defined. -/
def Ready : Point K V → Cache K V → Prop
  | .find _, c | .makeRoom _ _, c => c.WellFormed
  | .spliceGet it, c | .assign it _, c => c.WellFormed ∧ ∃ k v, c.node it = some (k, v)
  | .splicePut it, c => ∃ d k v w, Cache.WellFormed d ∧ d.node it = some (k, v) ∧
      d.assign it w = some c
  | .pushFront _ _, c => c.WellFormed ∧ c.list.length < c.capacity
  | .mapInsert key, c => ∃ d w, Cache.WellFormed d ∧ d.list.length < d.capacity ∧
      c = d.pushFront key w

omit [DecidableEq τ] in
theorem ready_step {throws : Bool} {p : Point K V} (h : Ready p c) :
    ∃ c' x, step throws c p = some (c', x) ∧
      match x with
      | .inl q => Ready q c'
      | .inr _ => c'.WellFormed := by
  cases p with
  | find op =>
    cases op with
    | get key =>
      cases hkey : c.map.lookup key with
      | none => exact ⟨c, .inr (.pointer none), by simp only [step, hkey], h⟩
      | some it =>
        obtain ⟨v, hit⟩ := h.points key it hkey
        exact ⟨c, .inl (.spliceGet it), by simp only [step, hkey], h, key, v, hit⟩
    | put key value =>
      cases hkey : c.map.lookup key with
      | none => exact ⟨c, .inl (.makeRoom key value), by simp only [step, hkey], h⟩
      | some it =>
        obtain ⟨v, hit⟩ := h.points key it hkey
        exact ⟨c, .inl (.assign it value), by simp only [step, hkey], h, key, v, hit⟩
  | spliceGet it =>
    obtain ⟨hc, k, v, hit⟩ := h
    exact ⟨_, _, by rw [step, Cache.splice_eq_front hc hit]; rfl, hc.front v hit⟩
  | assign it value =>
    obtain ⟨hc, k, v, hit⟩ := h
    have hassign : ∃ d, c.assign it value = some d := by simp [Cache.assign, hit]
    obtain ⟨d, hd⟩ := hassign
    exact ⟨d, .inl (.splicePut it), by rw [step, hd]; rfl, c, k, v, value, hc, hit, hd⟩
  | splicePut it =>
    obtain ⟨d, k, v, w, hd, hit, hassign⟩ := h
    have hfront := Cache.assign_splice_eq_front hd hit (w := w)
    rw [hassign, Option.bind_some] at hfront
    exact ⟨_, _, by rw [step, hfront]; rfl, hd.front w hit⟩
  | makeRoom key value =>
    obtain ⟨r, hr, hroom⟩ := Cache.makeRoom_room h
    exact ⟨r, .inl (.pushFront key value), by rw [step, hr]; rfl, hroom.wellFormed, hroom.room⟩
  | pushFront key value =>
    cases throws with
    | true => exact ⟨c, _, rfl, h.1⟩
    | false => exact ⟨_, _, rfl, c, value, h.1, h.2, rfl⟩
  | mapInsert key =>
    obtain ⟨d, w, hd, hroom, rfl⟩ := h
    cases throws with
    | true => exact ⟨_, _, rfl, hd.pushFront hroom key w⟩
    | false => exact ⟨_, _, rfl, hd.link hroom key w⟩

omit [DecidableEq τ] in
theorem sound_ready {capacity : ℕ} (hnew : Cache.new K V capacity = .ok c₀) (mayThrow : Bool) :
    (monitor mayThrow c₀).Sound Cache.WellFormed Ready where
  start := (new_corresponds hnew).1.toWellFormed
  enter h := h
  defined throws h := by
    obtain ⟨c', x, hstep, -⟩ := ready_step h
    exact Option.isSome_iff_exists.mpr ⟨(c', x), hstep⟩
  goesOn h hstep := by
    obtain ⟨c', x, hstep', hx⟩ := ready_step h
    obtain ⟨rfl, rfl⟩ := Prod.mk.inj (Option.some.inj (hstep'.symm.trans hstep))
    exact hx
  done h hstep := by
    obtain ⟨c', x, hstep', hx⟩ := ready_step h
    obtain ⟨rfl, rfl⟩ := Prod.mk.inj (Option.some.inj (hstep'.symm.trans hstep))
    exact hx

/-! ### Linearizability -/

/-- **Every history of `concurrent_lru_cache` is one of `lru_cache`**, whatever throws. No
step of a call is undefined, whether it throws or not, and as long as a call has not
returned some thread can go on. -/
theorem methods_linearizable {capacity : ℕ} (hnew : Cache.new K V capacity = .ok c₀)
    (mayThrow : Bool) {ls : List (Monitor.Label τ (Op K V) Bool)}
    {s : Monitor.State τ (Cache K V) (Op K V) (Point K V) Out}
    (hrun : ((monitor mayThrow c₀).system τ).run (monitor mayThrow c₀).init ls = some s) :
    (calls c₀).Linearizable
        (((monitor mayThrow c₀).system τ).trace Monitor.seen (monitor mayThrow c₀).init ls) ∧
      (∀ t op p, s.pc t = .inside op p → ∀ throws, (step throws s.obj p).isSome = true) ∧
      ∀ t, s.pc t ≠ .idle →
        ∃ l s', (∀ u op, l ≠ .call u op) ∧ (monitor mayThrow c₀).next s l = some s' := by
  have hreach : ((monitor mayThrow c₀).system τ).Reachable s := System.Reach.run (.init rfl) hrun
  have hsound := sound_ready hnew mayThrow
  refine ⟨(refines_calls mayThrow c₀).linearizable (Monitor.linearizable hrun),
    fun t op p hpc throws => ?_, fun t ht => hsound.exists_next hreach ht⟩
  obtain ⟨c', x, hstep, -⟩ := ready_step ((hsound.inside hreach).2 t op p hpc)
  exact Option.isSome_iff_exists.mpr ⟨_, hstep⟩

/-- A `put` and a `get` of its key that overlap; the `get` waits for the mutex. -/
def overlap (t u : τ) : List (Monitor.Label τ (Op ℕ ℕ) Bool) :=
  [.call t (.put 1 7), .lock t, .call u (.get 1), .step t false, .step t false, .step t false,
    .step t false, .unlock t, .lock u, .ret t, .step u false, .step u false, .unlock u, .ret u]

theorem methods_linearizable_overlap :
    (calls (Cache.empty ℕ ℕ 1)).Linearizable
      [.call (false, 0) (.put 1 7), .call (true, 0) (.get 1), .ret (false, 0) .done,
        .ret (true, 0) (.pointer (some 0))] := by
  have hrun : (((monitor true (Cache.empty ℕ ℕ 1)).system Bool).run
      (monitor true (Cache.empty ℕ ℕ 1)).init (overlap false true)).isSome = true := rfl
  have hnew : Cache.new ℕ ℕ 1 = .ok (.empty ℕ ℕ 1) := rfl
  exact (methods_linearizable hnew true (Option.some_get hrun).symm).1

/-! ### A list of what was used most recently -/

/-- What a call finds: the value of the key, if it is there. -/
inductive Found (V : Type*)
  | looked (value : Option V)
  | stored
  deriving DecidableEq, Repr

/-- The entries used most recently, at most `capacity` of them. -/
def recencyList (K V : Type*) [DecidableEq K] (capacity : ℕ) :
    Object (List (K × V)) (Op K V) (Found V) Out where
  start := []
  Does l op found l' :=
    match op with
    | .get key => found = .looked (Recency.find key l) ∧ l' = Recency.get key l
    | .put key value => found = .stored ∧ l' = Recency.put capacity key value l
  Shows found out :=
    match found with
    | .looked value => ∃ it, out = .pointer it ∧ it.isSome = value.isSome
    | .stored => out = .done

/-- The cache holds the entries of the list. -/
structure Holds (capacity : ℕ) (c : Cache K V) (l : List (K × V)) : Prop where
  corresponds : c.Corresponds
  capacity : c.capacity = capacity
  entries : c.entries = l

omit [DecidableEq τ] in
/-- Where nothing throws, the methods are those of the list. -/
theorem refines_recencyList {capacity : ℕ} (hnew : Cache.new K V capacity = .ok c₀) :
    (monitor false c₀).sequential.Refines (recencyList K V capacity) (Holds capacity) where
  start := by
    obtain ⟨hcorr, hcap, hempty⟩ := new_corresponds hnew
    have hentries : c₀.entries = [] := by rw [Cache.entries, hempty, List.filterMap_nil]
    exact ⟨hcorr, hcap, hentries⟩
  does := by
    intro c c' l op out hl hruns
    obtain ⟨throws, hmay, hcall⟩ := runs_find.mp hruns
    obtain rfl : throws = none := by
      by_contra hne
      cases hmay hne
    have heffect := effect_of_call hl.corresponds.toWellFormed hcall
    have hstep := heffect.refines hl.corresponds
    have hl' : Holds capacity c' c'.entries :=
      ⟨heffect.corresponds hl.corresponds (not_cutShort_none c op),
        (heffect.capacity hl.corresponds.toWellFormed).trans hl.capacity, rfl⟩
    cases op with
    | get key =>
      obtain ⟨it, rfl, hit⟩ := hstep.result
      refine ⟨_, _, ⟨rfl, hl.entries ▸ hstep.entries⟩, hl', fun r hr => ⟨it, hr.symm, ?_⟩⟩
      have hsome := congrArg Option.isSome hit
      rw [Option.isSome_map, Option.isSome_map, hl.entries] at hsome
      exact hsome
    | put key value =>
      have hout : out = .done := hstep.result
      refine ⟨_, _, ⟨rfl, ?_⟩, hl', fun r hr => hr.symm.trans hout⟩
      rw [← hl.entries, ← hl.capacity]
      exact hstep.entries

/-- **Where nothing throws, every history is one of the list**: a `get` returns a pointer
exactly where its key is one of the `capacity` keys used most recently, in the order of the
history. -/
theorem recency_linearizable {capacity : ℕ} (hnew : Cache.new K V capacity = .ok c₀)
    {ls : List (Monitor.Label τ (Op K V) Bool)}
    {s : Monitor.State τ (Cache K V) (Op K V) (Point K V) Out}
    (hrun : ((monitor false c₀).system τ).run (monitor false c₀).init ls = some s) :
    (recencyList K V capacity).Linearizable
      (((monitor false c₀).system τ).trace Monitor.seen (monitor false c₀).init ls) :=
  (refines_recencyList hnew).linearizable (Monitor.linearizable hrun)

theorem recency_linearizable_overlap :
    (recencyList ℕ ℕ 1).Linearizable
      [.call (false, 0) (.put 1 7), .call (true, 0) (.get 1), .ret (false, 0) .done,
        .ret (true, 0) (.pointer (some 0))] := by
  have hrun : (((monitor false (Cache.empty ℕ ℕ 1)).system Bool).run
      (monitor false (Cache.empty ℕ ℕ 1)).init (overlap false true)).isSome = true := rfl
  exact recency_linearizable rfl (Option.some_get hrun).symm

end CcSnippets.ConcurrentLruCache

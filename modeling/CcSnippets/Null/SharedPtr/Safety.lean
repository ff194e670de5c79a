import CcSnippets.Null.SharedPtr.Protocol

/-!
# CcSnippets.Null.SharedPtr.Safety

The control-block protocol is safe under every interleaving.

The invariant (`Counted`) counts what every thread, stopped between any two of
its steps, has a stake in. While the use count is positive (`Open`) the shared
handles hold one weak reference together. When it has become zero (`Shut`) that
reference belongs to the one thread on its way from the last `fetch_sub` through
`dispose ()` to `dec_weak_count ()`. The right to call `destroy ()` arises when
the weak count becomes zero, and no thread that could still access the block has
a stake then.
-/

namespace CcSnippets.SharedPtr.Protocol

open CcSnippets.Core CcSnippets.SharedPtr

variable {τ : Type*} [DecidableEq τ]

/-! ### The steps -/

/-- Everything a step can do. -/
inductive Step (s : State τ) : Label τ → State τ → Prop
  | copyShared {t : τ} {n w : ℕ} :
      s.threads t = ⟨n + 1, w, .idle⟩ →
      Step s (.copyShared t) { s.set t ⟨n + 2, w, .idle⟩ with cb := s.cb.incUseCount }
  | weakFromShared {t : τ} {n w : ℕ} :
      s.threads t = ⟨n + 1, w, .idle⟩ →
      Step s (.weakFromShared t) { s.set t ⟨n + 1, w + 1, .idle⟩ with cb := s.cb.incWeakCount }
  | copyWeak {t : τ} {n w : ℕ} :
      s.threads t = ⟨n, w + 1, .idle⟩ →
      Step s (.copyWeak t) { s.set t ⟨n, w + 2, .idle⟩ with cb := s.cb.incWeakCount }
  | dropShared {t : τ} {n w : ℕ} :
      s.threads t = ⟨n + 1, w, .idle⟩ →
      Step s (.dropShared t)
        { s.set t ⟨n, w, if s.cb.useCount = 1 then .aboutToDispose else .idle⟩ with
          cb := s.cb.subUseCount }
  | dropWeak {t : τ} {n w : ℕ} :
      s.threads t = ⟨n, w + 1, .idle⟩ →
      Step s (.dropWeak t)
        { s.set t ⟨n, w, if s.cb.weakCount = 1 then .aboutToDestroy else .idle⟩ with
          cb := s.cb.subWeakCount }
  | lockLoad {t : τ} {n w : ℕ} :
      s.threads t = ⟨n, w + 1, .idle⟩ →
      Step s (.lockLoad t) (s.set t ⟨n, w + 1, lockTest s.cb.useCount⟩)
  | lockGrant {t : τ} {n w : ℕ} {spurious : Bool} :
      s.threads t = ⟨n, w, .locking s.cb.useCount⟩ →
      Step s (.lockExchange t spurious)
        { s.set t ⟨n + 1, w, .idle⟩ with cb := s.cb.incUseCount }
  | lockRetry {t : τ} {n w : ℕ} {count : ℤ} {spurious : Bool} :
      s.threads t = ⟨n, w, .locking count⟩ →
      Step s (.lockExchange t spurious) (s.set t ⟨n, w, lockTest s.cb.useCount⟩)
  | expired {t : τ} {n w : ℕ} :
      s.threads t = ⟨n, w + 1, .idle⟩ →
      Step s (.expired t) { s with sawExpired := s.sawExpired || s.cb.useCount = 0 }
  | dispose {t : τ} {n w : ℕ} :
      s.threads t = ⟨n, w, .aboutToDispose⟩ →
      Step s (.dispose t) { s.set t ⟨n, w, .inDispose⟩ with disposals := s.disposals + 1 }
  | disposeReturn {t : τ} {n w : ℕ} :
      s.threads t = ⟨n, w, .inDispose⟩ →
      Step s (.disposeReturn t) { s.set t ⟨n, w, .aboutToDecWeak⟩ with returns := s.returns + 1 }
  | decWeak {t : τ} {n w : ℕ} :
      s.threads t = ⟨n, w, .aboutToDecWeak⟩ →
      Step s (.decWeak t)
        { s.set t ⟨n, w, if s.cb.weakCount = 1 then .aboutToDestroy else .idle⟩ with
          cb := s.cb.subWeakCount }
  | destroy {t : τ} {n w : ℕ} :
      s.threads t = ⟨n, w, .aboutToDestroy⟩ →
      Step s (.destroy t) { s.set t ⟨n, w, .idle⟩ with destroys := s.destroys + 1 }
  | giveShared {t u : τ} {n w : ℕ} {m : State τ} :
      s.threads t = ⟨n + 1, w, .idle⟩ → m = s.set t ⟨n, w, .idle⟩ →
      Step s (.giveShared t u)
        (m.set u { m.threads u with shared := (m.threads u).shared + 1 })
  | giveWeak {t u : τ} {n w : ℕ} {m : State τ} :
      s.threads t = ⟨n, w + 1, .idle⟩ → m = s.set t ⟨n, w, .idle⟩ →
      Step s (.giveWeak t u) (m.set u { m.threads u with weak := (m.threads u).weak + 1 })

theorem next_step {s s' : State τ} {l : Label τ} (h : next s l = some s') : Step s l s' := by
  cases l with
  | copyShared t =>
    simp only [next] at h
    split at h
    · rename_i hx
      exact Option.some.inj h ▸ .copyShared hx
    · cases h
  | weakFromShared t =>
    simp only [next] at h
    split at h
    · rename_i hx
      exact Option.some.inj h ▸ .weakFromShared hx
    · cases h
  | copyWeak t =>
    simp only [next] at h
    split at h
    · rename_i hx
      exact Option.some.inj h ▸ .copyWeak hx
    · cases h
  | dropShared t =>
    simp only [next] at h
    split at h
    · rename_i hx
      exact Option.some.inj h ▸ .dropShared hx
    · cases h
  | dropWeak t =>
    simp only [next] at h
    split at h
    · rename_i hx
      exact Option.some.inj h ▸ .dropWeak hx
    · cases h
  | lockLoad t =>
    simp only [next] at h
    split at h
    · rename_i hx
      exact Option.some.inj h ▸ .lockLoad hx
    · cases h
  | lockExchange t spurious =>
    simp only [next] at h
    split at h
    · rename_i hx
      split at h
      · rename_i hok
        obtain ⟨hfound, rfl⟩ := ControlBlock.compareExchange_ok hok
        subst hfound
        exact Option.some.inj h ▸ .lockGrant hx
      · rename_i herror
        obtain rfl := ControlBlock.compareExchange_error herror
        exact Option.some.inj h ▸ .lockRetry hx
    · cases h
  | expired t =>
    simp only [next] at h
    split at h
    · rename_i hx
      exact Option.some.inj h ▸ .expired hx
    · cases h
  | dispose t =>
    simp only [next] at h
    split at h
    · rename_i hx
      exact Option.some.inj h ▸ .dispose hx
    · cases h
  | disposeReturn t =>
    simp only [next] at h
    split at h
    · rename_i hx
      exact Option.some.inj h ▸ .disposeReturn hx
    · cases h
  | decWeak t =>
    simp only [next] at h
    split at h
    · rename_i hx
      exact Option.some.inj h ▸ .decWeak hx
    · cases h
  | destroy t =>
    simp only [next] at h
    split at h
    · rename_i hx
      exact Option.some.inj h ▸ .destroy hx
    · cases h
  | giveShared t u =>
    simp only [next] at h
    split at h
    · rename_i hx
      exact Option.some.inj h ▸ .giveShared hx rfl
    · cases h
  | giveWeak t u =>
    simp only [next] at h
    split at h
    · rename_i hx
      exact Option.some.inj h ▸ .giveWeak hx rfl
    · cases h

/-! ### The invariant -/

variable [Fintype τ]

/-- Shared handles are left. -/
structure Open (cb : ControlBlock) (k : Stakes) (disposals returns : ℕ) : Prop where
  use : 0 < cb.useCount
  nobody : k.aboutToDispose + k.inDispose + k.aboutToDecWeak = 0
  undisposed : disposals = 0
  unreturned : returns = 0
  weak : cb.weakCount = k.weak + 1

/-- The last shared handle is gone: one thread disposes the object, and owns the
weak reference the shared handles held together until it has dropped it. -/
structure Shut (cb : ControlBlock) (k : Stakes) (disposals returns : ℕ) : Prop where
  use : cb.useCount = 0
  disposed : k.aboutToDispose + disposals = 1
  returned : disposals = k.inDispose + returns
  weak : cb.weakCount = k.weak + k.aboutToDispose + k.inDispose + k.aboutToDecWeak

/-- The counts against the stakes and the history. -/
structure Balanced (cb : ControlBlock) (k : Stakes) (disposals returns destroys : ℕ) : Prop where
  use : cb.useCount = k.shared
  stage : Open cb k disposals returns ∨ Shut cb k disposals returns
  /-- The right to destroy the block, from the last weak reference on. -/
  destroy : (0 < cb.weakCount ∧ k.aboutToDestroy + destroys = 0) ∨
    (cb.weakCount = 0 ∧ k.aboutToDestroy + destroys = 1)

/-- What holds at every moment. -/
structure Counted (s : State τ) : Prop where
  balanced : Balanced s.cb s.stakes s.disposals s.returns s.destroys
  /-- The loop of `lock` runs on a weak handle of its thread. -/
  locking : ∀ t count, (s.threads t).pc = .locking count → 0 < (s.threads t).weak ∧ count ≠ 0
  expired : s.sawExpired = true → s.cb.useCount = 0

namespace Balanced

variable {cb : ControlBlock} {k : Stakes} {disposals returns destroys : ℕ}

/-- The weak count covers every weak handle, and every thread on the way from the
last shared handle to `dec_weak_count ()`. -/
theorem weak_le (h : Balanced cb k disposals returns destroys) :
    (k.weak + k.aboutToDispose + k.inDispose + k.aboutToDecWeak : ℤ) ≤ cb.weakCount := by
  rcases h.stage with ho | hs
  · have := ho.nobody
    have := ho.weak
    omega
  · have := hs.weak
    omega

/-- Shared handles hold a weak reference together. -/
theorem weak_pos (h : Balanced cb k disposals returns destroys) (huse : 0 < cb.useCount) :
    0 < cb.weakCount := by
  rcases h.stage with ho | hs
  · have := ho.weak
    omega
  · have := hs.use
    omega

end Balanced

/-- Thread `x` becomes `y`: the sums move by their stakes. -/
structure Moved (k k' : Stakes) (x y : Thread) : Prop where
  shared : k'.shared + x.shared = k.shared + y.shared
  weak : k'.weak + x.weak = k.weak + y.weak
  aboutToDispose : k'.aboutToDispose + stake .aboutToDispose x =
    k.aboutToDispose + stake .aboutToDispose y
  inDispose : k'.inDispose + stake .inDispose x = k.inDispose + stake .inDispose y
  aboutToDecWeak : k'.aboutToDecWeak + stake .aboutToDecWeak x =
    k.aboutToDecWeak + stake .aboutToDecWeak y
  aboutToDestroy : k'.aboutToDestroy + stake .aboutToDestroy x =
    k.aboutToDestroy + stake .aboutToDestroy y

theorem moved_set (s : State τ) {t : τ} {x : Thread} (hx : s.threads t = x) (y : Thread) :
    Moved s.stakes (s.set t y).stakes x y := by
  subst hx
  exact ⟨tally_update _ _ _ _, tally_update _ _ _ _, tally_update _ _ _ _, tally_update _ _ _ _,
    tally_update _ _ _ _, tally_update _ _ _ _⟩

namespace Counted

variable {s : State τ} {t : τ} {x y : Thread}

omit [DecidableEq τ] in
/-- Every shared handle is counted. -/
theorem shared_le (h : Counted s) {m w : ℕ} {pc : Pc} (hx : s.threads t = ⟨m, w, pc⟩) :
    m ≤ s.cb.useCount := by
  have hle : (s.threads t).shared ≤ s.stakes.shared := le_tally Thread.shared s.threads t
  rw [h.balanced.use]
  rw [hx] at hle
  exact_mod_cast hle

omit [DecidableEq τ] in
/-- So is every weak handle. -/
theorem weak_le (h : Counted s) {m w : ℕ} {pc : Pc} (hx : s.threads t = ⟨m, w, pc⟩) :
    w ≤ s.cb.weakCount := by
  have hle : (s.threads t).weak ≤ s.stakes.weak := le_tally Thread.weak s.threads t
  rw [hx] at hle
  have hall := h.balanced.weak_le
  have hw : (w : ℤ) ≤ s.stakes.weak := by exact_mod_cast hle
  omega

/-- The threads in `lock` stay as they are, or go on. -/
theorem locking_set (h : Counted s) (hy : ∀ count, y.pc = .locking count → 0 < y.weak ∧ count ≠ 0)
    (u : τ) (count : ℤ) (hu : ((s.set t y).threads u).pc = .locking count) :
    0 < ((s.set t y).threads u).weak ∧ count ≠ 0 := by
  by_cases hut : u = t
  · subst hut
    simp only [State.set, Function.update_self] at hu ⊢
    exact hy count hu
  · simp only [State.set, Function.update_of_ne hut] at hu ⊢
    exact h.locking u count hu

/-- One thread's step keeps the invariant where it keeps the balance. -/
theorem set (h : Counted s) {cb : ControlBlock} {d r k : ℕ}
    (hb : Balanced cb (s.set t y).stakes d r k)
    (hy : ∀ count, y.pc = .locking count → 0 < y.weak ∧ count ≠ 0)
    (hzero : s.cb.useCount = 0 → cb.useCount = 0) :
    Counted { s.set t y with cb := cb, disposals := d, returns := r, destroys := k } where
  balanced := hb
  locking := h.locking_set hy
  expired hsaw := hzero (h.expired hsaw)

end Counted

/-! ### Balance -/

namespace Moved

variable {cb cb' : ControlBlock} {k k' : Stakes} {x y : Thread} {d r n : ℕ}

/-- In no operation, or in `lock`. -/
def ordinary : Pc → Bool
  | .idle | .locking _ => true
  | _ => false

theorem stake_ordinary {pc : Pc} (h : ordinary x.pc = true) (hpc : ordinary pc = false) :
    stake pc x = 0 := by
  unfold stake
  rw [if_neg]
  intro heq
  subst heq
  rw [h] at hpc
  cases hpc

/-- A step that takes no count to zero or away from it keeps the balance, where
the counts change as the handles do. -/
theorem keep (hm : Moved k k' x y) (h : Balanced cb k d r n) (hx : ordinary x.pc = true)
    (hy : ordinary y.pc = true) (huse : cb'.useCount + x.shared = cb.useCount + y.shared)
    (hweak : cb'.weakCount + x.weak = cb.weakCount + y.weak)
    (huse0 : cb'.useCount = cb.useCount ∨ 0 < cb.useCount ∧ 0 < cb'.useCount)
    (hweak0 : cb'.weakCount = cb.weakCount ∨ 0 < cb.weakCount ∧ 0 < cb'.weakCount) :
    Balanced cb' k' d r n := by
  obtain ⟨hs, hw, h1, h2, h3, h4⟩ := hm
  rw [stake_ordinary hx rfl, stake_ordinary hy rfl] at h1 h2 h3 h4
  obtain ⟨hu, ⟨o1, o2, o3, o4, o5⟩ | ⟨z1, z2, z3, z4⟩, hd⟩ := h
  · exact ⟨by omega, .inl ⟨by omega, by omega, o3, o4, by omega⟩, by omega⟩
  · exact ⟨by omega, .inr ⟨by omega, by omega, by omega, by omega⟩, by omega⟩

/-- The last shared handle goes: its thread takes over the weak reference. -/
theorem dropLast {m w : ℕ} (hm : Moved k k' ⟨m + 1, w, .idle⟩ ⟨m, w, .aboutToDispose⟩)
    (h : Balanced cb k d r n) (hlast : cb.useCount = 1) : Balanced cb.subUseCount k' d r n := by
  obtain ⟨hs, hw, h1, h2, h3, h4⟩ := hm
  simp only [stake, reduceCtorEq, if_false, if_true] at h1 h2 h3 h4 hs hw
  obtain ⟨hu, ⟨o1, o2, o3, o4, o5⟩ | ⟨z1, -⟩, hd⟩ := h
  · have hzero : cb.subUseCount.useCount = 0 := by
      rw [ControlBlock.subUseCount_useCount]
      omega
    refine ⟨by omega, .inr ⟨hzero, by omega, by omega, ?_⟩, hd.imp ?_ ?_⟩
    · rw [ControlBlock.subUseCount_weakCount]
      omega
    · rw [ControlBlock.subUseCount_weakCount]
      omega
    · rw [ControlBlock.subUseCount_weakCount]
      omega
  · omega

/-- `dispose ()` is called. -/
theorem dispose {m w : ℕ} (hm : Moved k k' ⟨m, w, .aboutToDispose⟩ ⟨m, w, .inDispose⟩)
    (h : Balanced cb k d r n) : Balanced cb k' (d + 1) r n := by
  obtain ⟨hs, hw, h1, h2, h3, h4⟩ := hm
  simp only [stake, reduceCtorEq, if_false, if_true] at h1 h2 h3 h4 hs hw
  obtain ⟨hu, ⟨o1, o2, -⟩ | ⟨z1, z2, z3, z4⟩, hd⟩ := h
  · omega
  · exact ⟨by omega, .inr ⟨z1, by omega, by omega, by omega⟩, by omega⟩

/-- `dispose ()` returns. -/
theorem disposeReturn {m w : ℕ} (hm : Moved k k' ⟨m, w, .inDispose⟩ ⟨m, w, .aboutToDecWeak⟩)
    (h : Balanced cb k d r n) : Balanced cb k' d (r + 1) n := by
  obtain ⟨hs, hw, h1, h2, h3, h4⟩ := hm
  simp only [stake, reduceCtorEq, if_false, if_true] at h1 h2 h3 h4 hs hw
  obtain ⟨hu, ⟨o1, o2, -⟩ | ⟨z1, z2, z3, z4⟩, hd⟩ := h
  · omega
  · exact ⟨by omega, .inr ⟨z1, by omega, by omega, by omega⟩, by omega⟩

/-- `dec_weak_count ()` after `dispose ()` leaves weak handles. -/
theorem decWeak {m w : ℕ} (hm : Moved k k' ⟨m, w, .aboutToDecWeak⟩ ⟨m, w, .idle⟩)
    (h : Balanced cb k d r n) (hmore : cb.weakCount ≠ 1) : Balanced cb.subWeakCount k' d r n := by
  obtain ⟨hs, hw, h1, h2, h3, h4⟩ := hm
  simp only [stake, reduceCtorEq, if_false, if_true] at h1 h2 h3 h4 hs hw
  have hcount := cb.subWeakCount_weakCount
  obtain ⟨hu, ⟨o1, o2, -⟩ | ⟨z1, z2, z3, z4⟩, hd⟩ := h
  · omega
  · refine ⟨?_, .inr ⟨z1, by omega, by omega, by omega⟩, by omega⟩
    rw [ControlBlock.subWeakCount_useCount]
    omega

/-- The last weak reference goes, a handle or the one held by the thread that
disposed: nobody else has a stake left. -/
theorem toDestroy {m w : ℕ} (hm : Moved k k' x ⟨m, w, .aboutToDestroy⟩)
    (h : Balanced cb k d r n) (hx : x = ⟨m, w + 1, .idle⟩ ∨ x = ⟨m, w, .aboutToDecWeak⟩)
    (hlast : cb.weakCount = 1) : Balanced cb.subWeakCount k' d r n := by
  obtain ⟨hs, hw, h1, h2, h3, h4⟩ := hm
  have hcount := cb.subWeakCount_weakCount
  have huse := cb.subWeakCount_useCount
  have hweak := h.weak_le
  obtain ⟨hu, ⟨o1, o2, o3, o4, o5⟩ | ⟨z1, z2, z3, z4⟩, hd⟩ := h
  · rcases hx with rfl | rfl <;>
      simp only [stake, reduceCtorEq, if_false, if_true] at h1 h2 h3 h4 hs hw <;> omega
  · rcases hx with rfl | rfl <;>
      simp only [stake, reduceCtorEq, if_false, if_true] at h1 h2 h3 h4 hs hw
    · exact ⟨by omega, .inr ⟨by omega, by omega, by omega, by omega⟩, by omega⟩
    · exact ⟨by omega, .inr ⟨by omega, by omega, by omega, by omega⟩, by omega⟩

/-- `destroy ()` is called. -/
theorem destroy {m w : ℕ} (hm : Moved k k' ⟨m, w, .aboutToDestroy⟩ ⟨m, w, .idle⟩)
    (h : Balanced cb k d r n) : Balanced cb k' d r (n + 1) := by
  obtain ⟨hs, hw, h1, h2, h3, h4⟩ := hm
  simp only [stake, reduceCtorEq, if_false, if_true] at h1 h2 h3 h4 hs hw
  obtain ⟨hu, ⟨o1, o2, o3, o4, o5⟩ | ⟨z1, z2, z3, z4⟩, hd⟩ := h
  · exact ⟨by omega, .inl ⟨o1, by omega, o3, o4, by omega⟩, by omega⟩
  · exact ⟨by omega, .inr ⟨z1, by omega, by omega, by omega⟩, by omega⟩

/-- A handle moves to another thread. -/
theorem give {k'' : Stakes} {x' y' : Thread} (hm : Moved k k' x y) (hm' : Moved k' k'' x' y')
    (h : Balanced cb k d r n) (hpc : x.pc = y.pc) (hpc' : x'.pc = y'.pc)
    (hshared : x.shared + x'.shared = y.shared + y'.shared)
    (hweak : x.weak + x'.weak = y.weak + y'.weak) : Balanced cb k'' d r n := by
  have hstake : ∀ pc, stake pc x = stake pc y ∧ stake pc x' = stake pc y' := fun pc => by
    unfold stake
    rw [hpc, hpc']
    exact ⟨rfl, rfl⟩
  obtain ⟨hs, hw, h1, h2, h3, h4⟩ := hm
  obtain ⟨hs', hw', h1', h2', h3', h4'⟩ := hm'
  rw [(hstake _).1] at h1 h2 h3 h4
  rw [(hstake _).2] at h1' h2' h3' h4'
  obtain ⟨hu, ⟨o1, o2, o3, o4, o5⟩ | ⟨z1, z2, z3, z4⟩, hd⟩ := h
  · exact ⟨by omega, .inl ⟨o1, by omega, o3, o4, by omega⟩, by omega⟩
  · exact ⟨by omega, .inr ⟨z1, by omega, by omega, by omega⟩, by omega⟩

end Moved

/-! ### Every step -/

theorem lockTest_ordinary (count : ℤ) : Moved.ordinary (lockTest count) = true := by
  unfold lockTest
  split <;> rfl

theorem lockTest_eq_locking {count found : ℤ} (h : lockTest found = .locking count) :
    count ≠ 0 := by
  unfold lockTest at h
  split at h
  · cases h
  · rename_i hfound
    exact Pc.locking.inj h ▸ hfound

namespace Counted

variable {s : State τ} {t u : τ}

/-- A step between two ordinary places that takes no count to zero or away from
it. -/
theorem keep (h : Counted s) {cb : ControlBlock} {m w m' w' : ℕ} {pc pc' : Pc}
    (hx : s.threads t = ⟨m, w, pc⟩) (hpc : Moved.ordinary pc = true)
    (hpc' : Moved.ordinary pc' = true) (hlock : ∀ count, pc' = .locking count → 0 < w' ∧ count ≠ 0)
    (huse : cb.useCount + m = s.cb.useCount + m') (hweak : cb.weakCount + w = s.cb.weakCount + w')
    (huse0 : cb.useCount = s.cb.useCount ∨ 0 < s.cb.useCount ∧ 0 < cb.useCount)
    (hweak0 : cb.weakCount = s.cb.weakCount ∨ 0 < s.cb.weakCount ∧ 0 < cb.weakCount) :
    Counted { s.set t ⟨m', w', pc'⟩ with cb := cb } :=
  h.set ((moved_set s hx _).keep h.balanced hpc hpc' huse hweak huse0 hweak0) hlock
    fun hzero => by omega

/-- A handle changes hands between two threads, neither of them in its way. -/
theorem give (h : Counted s) {m w : ℕ} {y : Thread} {x' y' : Thread}
    (hx : s.threads t = ⟨m, w, .idle⟩) (hy : y.pc = .idle)
    (hx' : (s.set t y).threads u = x') (hpc : x'.pc = y'.pc) (hlock : x'.weak ≤ y'.weak)
    (hshared : m + x'.shared = y.shared + y'.shared) (hweak : w + x'.weak = y.weak + y'.weak) :
    Counted ((s.set t y).set u y') where
  balanced := (moved_set s hx y).give (moved_set (s.set t y) hx' y') h.balanced hy.symm hpc
    hshared hweak
  locking v count hv := by
    have hold := h.locking_set (t := t) (y := y) (by rw [hy]; intro _ hno; cases hno)
    by_cases hvu : v = u
    · subst hvu
      simp only [State.set, Function.update_self] at hv ⊢
      obtain ⟨hpos, hcount⟩ := hold v count (by rw [hx', hpc, hv])
      rw [hx'] at hpos
      exact ⟨hpos.trans_le hlock, hcount⟩
    · have hsame : ((s.set t y).set u y').threads v = (s.set t y).threads v :=
        Function.update_of_ne hvu _ _
      rw [hsame] at hv ⊢
      exact hold v count hv
  expired := h.expired

end Counted

/-- **Every step keeps the count.** -/
theorem counted_step {s s' : State τ} {l : Label τ} (h : Counted s) (hs : Step s l s') :
    Counted s' := by
  have hb := h.balanced
  have hidle : ∀ {w : ℕ} (count : ℤ), Pc.idle = .locking count → 0 < w ∧ count ≠ 0 := by
    intro _ _ hno
    cases hno
  cases hs with
  | copyShared hx =>
    have hpos := h.shared_le hx
    have hcount := s.cb.incUseCount_useCount
    exact h.keep hx rfl rfl hidle (by push_cast; omega) rfl (.inr (by omega)) (.inl rfl)
  | weakFromShared hx =>
    have hcount := s.cb.incWeakCount_weakCount
    have hshared := h.shared_le hx
    have hpos := hb.weak_pos (by omega)
    exact h.keep hx rfl rfl hidle rfl (by push_cast; omega) (.inl rfl) (.inr (by omega))
  | copyWeak hx =>
    have hpos := h.weak_le hx
    have hcount := s.cb.incWeakCount_weakCount
    exact h.keep hx rfl rfl hidle rfl (by push_cast; omega) (.inl rfl) (.inr (by omega))
  | dropShared hx =>
    by_cases hlast : s.cb.useCount = 1
    · rw [if_pos hlast]
      refine h.set ((moved_set s hx _).dropLast hb hlast) (fun _ hno => by cases hno) fun _ => ?_
      have hcount := s.cb.subUseCount_useCount
      omega
    · rw [if_neg hlast]
      have hpos := h.shared_le hx
      have hcount := s.cb.subUseCount_useCount
      exact h.keep hx rfl rfl hidle (by push_cast; omega) rfl (.inr (by omega)) (.inl rfl)
  | dropWeak hx =>
    by_cases hlast : s.cb.weakCount = 1
    · rw [if_pos hlast]
      exact h.set ((moved_set s hx _).toDestroy hb (.inl rfl) hlast) (fun _ hno => by cases hno) id
    · rw [if_neg hlast]
      have hpos := h.weak_le hx
      have hcount := s.cb.subWeakCount_weakCount
      exact h.keep hx rfl rfl hidle rfl (by push_cast; omega) (.inl rfl) (.inr (by omega))
  | lockLoad hx =>
    exact h.keep hx rfl (lockTest_ordinary _)
      (fun _ hlock => ⟨Nat.succ_pos _, lockTest_eq_locking hlock⟩) rfl rfl (.inl rfl) (.inl rfl)
  | lockGrant hx =>
    -- the count that the exchange finds has been tested, so it is not zero
    have hlock := h.locking _ s.cb.useCount (by rw [hx])
    have huse := hb.use
    have hcount := s.cb.incUseCount_useCount
    exact h.keep hx rfl rfl hidle (by push_cast; omega) rfl (.inr (by omega)) (.inl rfl)
  | lockRetry hx =>
    have hlock := h.locking _ _ (congrArg Thread.pc hx)
    rw [hx] at hlock
    exact h.keep hx rfl (lockTest_ordinary _)
      (fun _ hretry => ⟨hlock.1, lockTest_eq_locking hretry⟩) rfl rfl (.inl rfl) (.inl rfl)
  | expired hx =>
    refine ⟨hb, h.locking, fun hsaw => ?_⟩
    rcases Bool.or_eq_true_iff.mp hsaw with hold | hnow
    · exact h.expired hold
    · exact of_decide_eq_true hnow
  | dispose hx =>
    exact h.set ((moved_set s hx _).dispose hb) (fun _ hno => by cases hno) id
  | disposeReturn hx =>
    exact h.set ((moved_set s hx _).disposeReturn hb) (fun _ hno => by cases hno) id
  | decWeak hx =>
    by_cases hlast : s.cb.weakCount = 1
    · rw [if_pos hlast]
      exact h.set ((moved_set s hx _).toDestroy hb (.inr rfl) hlast) (fun _ hno => by cases hno) id
    · rw [if_neg hlast]
      exact h.set ((moved_set s hx _).decWeak hb hlast) (fun _ hno => by cases hno) id
  | destroy hx =>
    exact h.set ((moved_set s hx _).destroy hb) (fun _ hno => by cases hno) id
  | giveShared hx hm =>
    subst hm
    exact h.give hx rfl rfl rfl (Nat.le_refl _) (by dsimp only; omega) (by dsimp only)
  | giveWeak hx hm =>
    subst hm
    exact h.give hx rfl rfl rfl (Nat.le_succ _) (by dsimp only) (by dsimp only; omega)

omit [DecidableEq τ] in
theorem countAt_eq_zero {s : State τ} (h : ∀ t, (s.threads t).pc = .idle) {pc : Pc}
    (hpc : pc ≠ .idle) : s.countAt pc = 0 := by
  refine tally_eq_zero.mpr fun t => ?_
  unfold stake
  rw [if_neg]
  rw [h t]
  exact hpc.symm

omit [DecidableEq τ] in
/-- With every thread idle, nobody is at work on the block. -/
theorem stakes_of_idle {s : State τ} (h : ∀ t, (s.threads t).pc = .idle) :
    s.stakes.aboutToDispose = 0 ∧ s.stakes.inDispose = 0 ∧ s.stakes.aboutToDecWeak = 0 ∧
      s.stakes.aboutToDestroy = 0 :=
  ⟨countAt_eq_zero h (by decide), countAt_eq_zero h (by decide), countAt_eq_zero h (by decide),
    countAt_eq_zero h (by decide)⟩

omit [DecidableEq τ] in
/-- A thread counts where it is. -/
theorem countAt_pos {s : State τ} {t : τ} {pc : Pc} (h : (s.threads t).pc = pc) :
    0 < s.countAt pc := by
  have hle := le_tally (stake pc) s.threads t
  rw [stake, if_pos h] at hle
  exact hle

theorem counted_start {s : State τ} (h : (system τ).init s) : Counted s := by
  obtain ⟨huse, hpos, hweak, hidle, hd, hr, hn, hsaw⟩ := h
  obtain ⟨h1, h2, h3, h4⟩ := stakes_of_idle hidle
  refine ⟨⟨huse, .inl ⟨by omega, by omega, hd, hr, hweak⟩, .inl ⟨by omega, by omega⟩⟩,
    fun t count hlock => ?_, fun htrue => ?_⟩
  · rw [hidle t] at hlock
    cases hlock
  · rw [hsaw] at htrue
    cases htrue

theorem counted_of_reach {s : State τ} (h : (system τ).Reachable s) : Counted s :=
  h.invariant (fun _ => counted_start) fun _ _ _ _ hc _ hs => counted_step hc (next_step hs)

/-! ### Safety -/

/-- Where the block is accessed, something is left to destroy: every thread that
accesses it has a stake in a count. -/
theorem destroys_eq_zero {s s' : State τ} {l : Label τ} (h : Counted s) (hs : Step s l s')
    (hl : l.accesses = true) : s.destroys = 0 := by
  have hd := h.balanced.destroy
  have hweak := h.balanced.weak_le
  have hof : 0 < s.cb.weakCount → s.destroys = 0 := fun hpos => by omega
  cases hs with
  | copyShared hx | weakFromShared hx | dropShared hx =>
    have hpos := h.shared_le hx
    exact hof (h.balanced.weak_pos (by omega))
  | copyWeak hx | dropWeak hx | lockLoad hx | expired hx =>
    have hpos := h.weak_le hx
    exact hof (by omega)
  | @lockGrant t n w _ hx | @lockRetry t n w _ _ hx =>
    have hpos := h.weak_le hx
    have hlock := h.locking _ _ (congrArg Thread.pc hx)
    rw [hx] at hlock
    have hw : 0 < w := hlock.1
    exact hof (by omega)
  | dispose hx =>
    have hpos : 0 < s.stakes.aboutToDispose := countAt_pos (congrArg Thread.pc hx)
    exact hof (by omega)
  | disposeReturn hx =>
    have hpos : 0 < s.stakes.inDispose := countAt_pos (congrArg Thread.pc hx)
    exact hof (by omega)
  | decWeak hx =>
    have hpos : 0 < s.stakes.aboutToDecWeak := countAt_pos (congrArg Thread.pc hx)
    exact hof (by omega)
  | destroy hx =>
    have hpos : 0 < s.stakes.aboutToDestroy := countAt_pos (congrArg Thread.pc hx)
    omega
  | giveShared _ _ | giveWeak _ _ => cases hl

/-- A use count of zero stays zero: a compare-exchange would have to find a count
that its loop has refused. -/
theorem useCount_eq_zero_step {s s' : State τ} {l : Label τ} (h : Counted s)
    (hzero : s.cb.useCount = 0) (hs : Step s l s') : s'.cb.useCount = 0 := by
  cases hs with
  | copyShared hx | weakFromShared hx | dropShared hx =>
    have hpos := h.shared_le hx
    omega
  | lockGrant hx =>
    have hlock := h.locking _ _ (congrArg Thread.pc hx)
    exact absurd hzero hlock.2
  | copyWeak _ | dropWeak _ | lockLoad _ | lockRetry _ | expired _ | dispose _ | disposeReturn _
  | decWeak _ | destroy _ => exact hzero
  | giveShared _ hm | giveWeak _ hm =>
    subst hm
    exact hzero

omit [DecidableEq τ] in
/-- With a use count of zero no thread has a shared handle. -/
theorem shared_eq_zero {s : State τ} (h : Counted s) (hzero : s.cb.useCount = 0) (t : τ) :
    (s.threads t).shared = 0 := by
  have hpos := h.shared_le (m := (s.threads t).shared) (w := (s.threads t).weak) rfl
  omega

omit [DecidableEq τ] in
/-- With a weak count of zero no thread has a weak handle. -/
theorem weak_eq_zero {s : State τ} (h : Counted s) (hzero : s.cb.weakCount = 0) (t : τ) :
    (s.threads t).weak = 0 := by
  have hpos := h.weak_le (m := (s.threads t).shared) (w := (s.threads t).weak) rfl
  omega

/-- `dispose ()` is called for the first time, and with no shared handle left. -/
theorem dispose_once {s s' : State τ} {t : τ} (h : Counted s) (hs : Step s (.dispose t) s') :
    s.disposals = 0 ∧ s.cb.useCount = 0 := by
  cases hs with
  | dispose hx =>
    have hpos : 0 < s.stakes.aboutToDispose := countAt_pos (congrArg Thread.pc hx)
    rcases h.balanced.stage with ho | hz
    · have := ho.nobody
      omega
    · have := hz.disposed
      exact ⟨by omega, hz.use⟩

/-- `destroy ()` is called for the first time, after `dispose ()` has returned,
and with no reference left. -/
theorem destroy_once {s s' : State τ} {t : τ} (h : Counted s) (hs : Step s (.destroy t) s') :
    s.destroys = 0 ∧ s.returns = 1 ∧ s.cb.useCount = 0 ∧ s.cb.weakCount = 0 := by
  have hzero := destroys_eq_zero h hs rfl
  cases hs with
  | destroy hx =>
    have hpos : 0 < s.stakes.aboutToDestroy := countAt_pos (congrArg Thread.pc hx)
    have hd := h.balanced.destroy
    rcases h.balanced.stage with ho | hz
    · have := ho.weak
      omega
    · obtain ⟨z1, z2, z3, z4⟩ := hz
      exact ⟨hzero, by omega, z1, by omega⟩

/-- **The protocol is safe under every interleaving.**
* `dispose ()` runs at most once, and only when no shared handle is held; nobody
  is granted one from then on.
* Once the use count has reached zero, or `expired ()` has returned true, the use
  count is zero for ever, so `lock ()` yields no handle.
* `destroy ()` runs at most once, after `dispose ()` has returned and the last
  weak handle is gone, and nobody accesses the control block after it.
* With every thread idle, the counts are those of the handles, the object is
  disposed exactly if no shared handle is left, and the block destroyed exactly
  if no handle is left. -/
theorem protocol_safe {s : State τ} (h : (system τ).Reachable s) :
    (s.disposals ≤ 1 ∧ ∀ t s', next s (.dispose t) = some s' →
      s.disposals = 0 ∧ s.cb.useCount = 0 ∧ ∀ u, (s.threads u).shared = 0) ∧
    (s.cb.useCount = 0 ∨ s.sawExpired = true → ∀ ls s', (system τ).run s ls = some s' →
      s'.cb.useCount = 0 ∧ ∀ u, (s'.threads u).shared = 0) ∧
    (s.destroys ≤ 1 ∧ ∀ t s', next s (.destroy t) = some s' →
      s.destroys = 0 ∧ s.returns = 1 ∧ ∀ u, (s.threads u).shared = 0 ∧ (s.threads u).weak = 0) ∧
    (∀ l s', l.accesses = true → next s l = some s' → s.destroys = 0) ∧
    ((∀ t, (s.threads t).pc = .idle) →
      s.cb.useCount = s.stakes.shared ∧
      s.cb.weakCount = s.stakes.weak + (if 0 < s.stakes.shared then 1 else 0) ∧
      s.disposals = (if 0 < s.stakes.shared then 0 else 1) ∧
      s.returns = s.disposals ∧
      s.destroys = (if 0 < s.stakes.shared ∨ 0 < s.stakes.weak then 0 else 1)) := by
  have hc := counted_of_reach h
  have huse := hc.balanced.use
  have hd := hc.balanced.destroy
  refine ⟨⟨?_, fun t s' hs => ?_⟩, fun hzero ls s' hrun => ?_, ⟨by omega, fun t s' hs => ?_⟩,
    fun l s' hl hs => destroys_eq_zero hc (next_step hs) hl, fun hidle => ?_⟩
  · rcases hc.balanced.stage with ho | hz
    · have := ho.undisposed
      omega
    · have := hz.disposed
      omega
  · obtain ⟨hfirst, hzero⟩ := dispose_once hc (next_step hs)
    exact ⟨hfirst, hzero, shared_eq_zero hc hzero⟩
  · -- that `expired ()` returned true is remembered as a count of zero
    have hnow : s.cb.useCount = 0 := hzero.elim id hc.expired
    obtain ⟨hc', hzero'⟩ := System.run_invariant
      (I := fun s => Counted s ∧ s.cb.useCount = 0) (fun s l s' hs hnext =>
        ⟨counted_step hs.1 (next_step hnext), useCount_eq_zero_step hs.1 hs.2 (next_step hnext)⟩)
      ⟨hc, hnow⟩ hrun
    exact ⟨hzero', shared_eq_zero hc' hzero'⟩
  · obtain ⟨hfirst, hreturned, hzero, hweak⟩ := destroy_once hc (next_step hs)
    exact ⟨hfirst, hreturned, fun u => ⟨shared_eq_zero hc hzero u, weak_eq_zero hc hweak u⟩⟩
  · -- between operations only the handles are left to count
    obtain ⟨h1, h2, h3, h4⟩ := stakes_of_idle hidle
    refine ⟨huse, ?_⟩
    rcases hc.balanced.stage with ⟨o1, o2, o3, o4, o5⟩ | ⟨z1, z2, z3, z4⟩
    · have hpos : 0 < s.stakes.shared := by omega
      rw [if_pos hpos, if_pos hpos, if_pos (.inl hpos)]
      exact ⟨by omega, o3, by omega, by omega⟩
    · have hpos : ¬ 0 < s.stakes.shared := by omega
      rw [if_neg hpos, if_neg hpos]
      refine ⟨by omega, by omega, by omega, ?_⟩
      split
      · omega
      · omega

/-- One thread with the only shared handle, one with a weak one. -/
def ownerAndObserver : State (Fin 2) where
  cb := { useCount := 1, weakCount := 2 }
  threads
    | 0 => ⟨1, 0, .idle⟩
    | 1 => ⟨0, 1, .idle⟩
  disposals := 0
  returns := 0
  destroys := 0
  sawExpired := false

/-- The observer is in `lock ()` when the owner drops its handle: it gets none,
and its own handle is the last one to go. -/
theorem protocol_safe_lateLock :
    ∃ s, (system (Fin 2)).run ownerAndObserver
        [.lockLoad 1, .dropShared 0, .dispose 0, .disposeReturn 0, .decWeak 0,
          .lockExchange 1 false, .dropWeak 1, .destroy 1] = some s ∧
      s.cb.useCount = s.stakes.shared ∧ s.disposals ≤ 1 ∧ s.destroys ≤ 1 := by
  obtain ⟨s, hrun, hidle⟩ : ∃ s, (system (Fin 2)).run ownerAndObserver
      [.lockLoad 1, .dropShared 0, .dispose 0, .disposeReturn 0, .decWeak 0,
        .lockExchange 1 false, .dropWeak 1, .destroy 1] = some s ∧
      ∀ t, (s.threads t).pc = .idle := ⟨_, rfl, by decide⟩
  have hinit : (system (Fin 2)).init ownerAndObserver := by
    refine ⟨?_, ?_, ?_, ?_, rfl, rfl, rfl, rfl⟩ <;> decide
  obtain ⟨⟨hdispose, -⟩, -, ⟨hdestroy, -⟩, -, hrest⟩ :=
    protocol_safe (System.Reach.run (.init hinit) hrun)
  exact ⟨s, hrun, (hrest hidle).1, hdispose, hdestroy⟩

end CcSnippets.SharedPtr.Protocol

import CcSnippets.Null.SharedPtr.Steps

/-!
# CcSnippets.Null.SharedPtr.Unwinds

The invariant holds in every reachable state, and from any of them the recursion
of destructors **comes to an end**: no count in the code bounds it, but every
`dispose ()` takes an object out of use for good, every deleter's call takes the
members from an object, and every other call only passes work on.
-/

namespace CcSnippets.SharedPtr

open CcSnippets.Core

variable {Loc Obj D : Type*} [Fintype Obj] [DecidableEq Loc] [DecidableEq Obj]
variable {s s' : State Loc Obj D}

/-! ### Reachable states -/

section Reachable

variable [Fintype Loc]

theorem sound_empty : Sound (.empty : State Loc Obj D) where
  balanced o := by
    have hzero : ∀ i, (.empty : State Loc Obj D).account o i = 0 := by
      intro i
      simp [State.account, State.empty, tally]
    refine .unmanaged (fun i _ _ => hzero i) ?_
    rw [hzero, hzero]
    rfl
  claimed l := by
    have hzero : (.empty : State Loc Obj D).claims l = 0 := by
      simp [State.claims, State.empty, tally]
    rw [hzero]
    exact Nat.zero_le _
  pointed l h hl := by cases hl
  deleters o d hd := by rcases hd with hd | hd <;> cases hd
  fresh o _ := ⟨rfl, rfl⟩
  emptied o d hd := by cases hd

/-- The next call of the stack, where there is one, goes through. -/
theorem Sound.step (h : Sound s) (hstack : s.stack ≠ []) :
    ∃ s', next s .step = some s' ∧ Sound s' := by
  obtain ⟨f, k, hfk⟩ := List.exists_cons_of_ne_nil hstack
  obtain ⟨s', hs', hsound⟩ := h.exec hfk
  refine ⟨s', ?_, hsound⟩
  unfold SharedPtr.next
  simp only [hfk]
  exact hs'

/-- Every step keeps the invariant. -/
theorem Sound.next (h : Sound s) {label : Label Loc Obj D} (hs : next s label = some s') :
    Sound s' := by
  cases label with
  | call op =>
    unfold SharedPtr.next at hs
    dsimp only at hs
    split at hs
    · rename_i hcond
      obtain ⟨t, ht, hsound⟩ := h.run hcond.1 hcond.2
      obtain rfl : t = s' := Option.some.inj (ht.symm.trans hs)
      exact hsound
    · cases hs
  | step =>
    by_cases hstack : s.stack = []
    · unfold SharedPtr.next at hs
      simp only [hstack] at hs
      cases hs
    · obtain ⟨t, ht, hsound⟩ := h.step hstack
      obtain rfl : t = s' := Option.some.inj (ht.symm.trans hs)
      exact hsound

theorem sound_of_reach (h : (system Loc Obj D).Reachable s) : Sound s := by
  refine h.invariant (fun s hs => ?_) fun s l s' _ hs _ hstep => hs.next hstep
  obtain rfl : s = .empty := hs
  exact sound_empty

end Reachable

/-! ### What a call does -/

/-- What the call on top of the stack can do; `s` has the calls below it. -/
inductive Execs (s : State Loc Obj D) : Frame Loc Obj D → State Loc Obj D → Prop
  | dropNull {l : Loc} {kind : Kind} {ptr : Option Obj} :
      s.handle l = some ⟨kind, ptr, none⟩ → Execs s (.drop l) (s.setHandle l none)
  | dropShared {l : Loc} {ptr : Option Obj} {b : Obj} :
      s.handle l = some ⟨.shared, ptr, some b⟩ →
      Execs s (.drop l) ((s.setHandle l none).push [.decUse b])
  | dropWeak {l : Loc} {ptr : Option Obj} {b : Obj} :
      s.handle l = some ⟨.weak, ptr, some b⟩ →
      Execs s (.drop l) ((s.setHandle l none).push [.decWeak b])
  | decUse {b : Obj} {blk : Block D} :
      s.block b = some blk → blk.counts.useCount ≠ 1 →
      Execs s (.decUse b) (s.setBlock b { blk with counts := blk.counts.subUseCount })
  | decUseLast {b : Obj} {blk : Block D} :
      s.block b = some blk → blk.counts.useCount = 1 →
      Execs s (.decUse b)
        ((s.setBlock b { blk with counts := blk.counts.subUseCount }).push [.dispose b])
  | dispose {b : Obj} {blk : Block D} :
      s.block b = some blk →
      Execs s (.dispose b) (s.push [.delete b blk.del, .decWeak b])
  | delete {o : Obj} {del : D} :
      Execs s (.delete o del)
        ({ s with
          deleted := s.deleted ++ [(o, del)]
          members := Function.update s.members o [] }.push ((s.members o).reverse.map .drop))
  | decWeak {b : Obj} {blk : Block D} :
      s.block b = some blk → blk.counts.weakCount ≠ 1 →
      Execs s (.decWeak b) (s.setBlock b { blk with counts := blk.counts.subWeakCount })
  | decWeakLast {b : Obj} {blk : Block D} :
      s.block b = some blk → blk.counts.weakCount = 1 →
      Execs s (.decWeak b)
        ((s.setBlock b { blk with counts := blk.counts.subWeakCount }).push [.destroy b])
  | destroy {b : Obj} {blk : Block D} :
      s.block b = some blk → Execs s (.destroy b) (s.setBlock b { blk with destroyed := true })

omit [Fintype Obj] [DecidableEq Loc] [DecidableEq Obj] in
theorem block_of_liveBlock {b : Obj} {blk : Block D} (h : s.liveBlock b = some blk) :
    s.block b = some blk := by
  unfold State.liveBlock at h
  split at h
  · split at h
    · cases h
    · rename_i hblk _
      rwa [hblk]
  · cases h

omit [Fintype Obj] in
theorem exec_cases {f : Frame Loc Obj D} (h : f.exec s = some s') : Execs s f s' := by
  cases f with
  | drop l =>
    cases hx : s.handle l with
    | none =>
      simp only [Frame.exec, hx] at h
      cases h
    | some x =>
      obtain ⟨kind, ptr, cb⟩ := x
      simp only [Frame.exec, hx] at h
      cases cb with
      | none => exact Option.some.inj h ▸ .dropNull hx
      | some b =>
        cases kind with
        | shared => exact Option.some.inj h ▸ .dropShared hx
        | weak => exact Option.some.inj h ▸ .dropWeak hx
  | delete o del => exact Option.some.inj h ▸ .delete
  | decUse b =>
    cases hlive : s.liveBlock b with
    | none =>
      simp only [Frame.exec, hlive] at h
      cases h
    | some blk =>
      simp only [Frame.exec, hlive] at h
      by_cases hlast : blk.counts.useCount = 1
      · rw [if_pos hlast] at h
        exact Option.some.inj h ▸ .decUseLast (block_of_liveBlock hlive) hlast
      · rw [if_neg hlast] at h
        exact Option.some.inj h ▸ .decUse (block_of_liveBlock hlive) hlast
  | dispose b =>
    cases hlive : s.liveBlock b with
    | none =>
      simp only [Frame.exec, hlive] at h
      cases h
    | some blk =>
      simp only [Frame.exec, hlive] at h
      exact Option.some.inj h ▸ .dispose (block_of_liveBlock hlive)
  | decWeak b =>
    cases hlive : s.liveBlock b with
    | none =>
      simp only [Frame.exec, hlive] at h
      cases h
    | some blk =>
      simp only [Frame.exec, hlive] at h
      by_cases hlast : blk.counts.weakCount = 1
      · rw [if_pos hlast] at h
        exact Option.some.inj h ▸ .decWeakLast (block_of_liveBlock hlive) hlast
      · rw [if_neg hlast] at h
        exact Option.some.inj h ▸ .decWeak (block_of_liveBlock hlive) hlast
  | destroy b =>
    cases hlive : s.liveBlock b with
    | none =>
      simp only [Frame.exec, hlive] at h
      cases h
    | some blk =>
      simp only [Frame.exec, hlive] at h
      exact Option.some.inj h ▸ .destroy (block_of_liveBlock hlive)

/-! ### The measure -/

/-- The work of a call, what it calls itself aside where that is paid for. -/
def Frame.work : Frame Loc Obj D → ℕ
  | .drop _ => 3
  | .decUse _ => 1
  | .dispose _ => 4
  | .delete _ _ => 1
  | .decWeak _ => 2
  | .destroy _ => 1

/-- One for a control block in use. -/
def inUse : Option (Block D) → ℕ
  | some blk => if 0 < blk.counts.useCount then 1 else 0
  | none => 0

/-- The work left: the destructors of all members, the `dispose ()` of each object
in use, and the calls on the stack. -/
def State.work (s : State Loc Obj D) : ℕ :=
  3 * tally List.length s.members + 4 * tally inUse s.block + (s.stack.map Frame.work).sum

omit [DecidableEq Loc] [DecidableEq Obj] in
/-- Calls on the stack add their work. -/
theorem work_push (s : State Loc Obj D) (fs : List (Frame Loc Obj D)) :
    (s.push fs).work = s.work + (fs.map Frame.work).sum := by
  unfold State.work State.push
  rw [List.map_append, List.sum_append]
  dsimp only
  omega

omit [DecidableEq Loc] in
/-- A control block is replaced. -/
theorem work_setBlock (s : State Loc Obj D) (b : Obj) (blk : Block D) :
    (s.setBlock b blk).work + 4 * inUse (s.block b) = s.work + 4 * inUse (some blk) := by
  have htally := tally_update inUse s.block b (some blk)
  unfold State.work State.setBlock
  dsimp only
  omega

omit [DecidableEq Obj] in
@[simp] theorem work_setHandle (s : State Loc Obj D) (l : Loc) (h : Option (Handle Obj)) :
    (s.setHandle l h).work = s.work := rfl

omit [Fintype Obj] [DecidableEq Loc] [DecidableEq Obj] in
/-- The work of destructor calls. -/
theorem work_drops (ls : List Loc) :
    ((ls.map .drop : List (Frame Loc Obj D)).map Frame.work).sum = 3 * ls.length := by
  induction ls with
  | nil => rfl
  | cons l ls ih =>
    simp only [List.map_cons, List.sum_cons, List.length_cons, Frame.work]
    omega

/-- Every call leaves less work than there was with it. -/
theorem work_lt {f : Frame Loc Obj D} (h : Execs s f s') : s'.work < (s.push [f]).work := by
  rw [work_push, List.map_singleton, List.sum_singleton]
  cases h with
  | dropNull _ =>
    rw [work_setHandle]
    simp [Frame.work]
  | dropShared _ =>
    rw [work_push, work_setHandle]
    simp [Frame.work]
  | dropWeak _ =>
    rw [work_push, work_setHandle]
    simp [Frame.work]
  | @decUse b blk hblk hmore =>
    have hset := work_setBlock s b { blk with counts := blk.counts.subUseCount }
    have hle : inUse (some { blk with counts := blk.counts.subUseCount }) ≤ inUse (some blk) := by
      show (if 0 < blk.counts.useCount - 1 then 1 else 0) ≤ if 0 < blk.counts.useCount then 1 else 0
      split_ifs <;> omega
    rw [hblk] at hset
    simp only [Frame.work]
    omega
  | @decUseLast b blk hblk hlast =>
    -- An object less in use pays for its `dispose ()`.
    have hset := work_setBlock s b { blk with counts := blk.counts.subUseCount }
    simp only [hblk, inUse, ControlBlock.subUseCount_useCount, hlast] at hset
    rw [work_push]
    simp [Frame.work] at hset ⊢
    omega
  | dispose _ =>
    rw [work_push]
    simp [Frame.work]
  | @delete o del =>
    have htally := tally_update List.length s.members o []
    have hbefore : s.work = 3 * tally List.length s.members + 4 * tally inUse s.block +
        (s.stack.map Frame.work).sum := rfl
    rw [work_push, work_drops, List.length_reverse]
    unfold State.work at hbefore ⊢
    simp only [List.length_nil, Nat.add_zero, Frame.work] at htally ⊢
    omega
  | @decWeak b blk hblk _ =>
    have hset := work_setBlock s b { blk with counts := blk.counts.subWeakCount }
    have hsame : inUse (some { blk with counts := blk.counts.subWeakCount }) =
        inUse (some blk) := rfl
    rw [hblk, hsame] at hset
    simp only [Frame.work]
    omega
  | @decWeakLast b blk hblk _ =>
    have hset := work_setBlock s b { blk with counts := blk.counts.subWeakCount }
    have hsame : inUse (some { blk with counts := blk.counts.subWeakCount }) =
        inUse (some blk) := rfl
    rw [hblk, hsame] at hset
    rw [work_push]
    simp only [List.map_singleton, List.sum_singleton, Frame.work]
    omega
  | @destroy b blk hblk =>
    have hset := work_setBlock s b { blk with destroyed := true }
    have hsame : inUse (some { blk with destroyed := true }) = inUse (some blk) := rfl
    rw [hblk, hsame] at hset
    simp only [Frame.work]
    omega

/-! ### Unwinding -/

/-- The calls on the stack of `s` are made, and all they make, and that ends in
`s'`. -/
def Returns (s s' : State Loc Obj D) : Prop :=
  ∃ n, (system Loc Obj D).run s (List.replicate n .step) = some s' ∧ s'.stack = []

/-- **The recursion ends**, in a state that keeps whatever every call keeps. -/
theorem exists_returns [Fintype Loc] {I : State Loc Obj D → Prop}
    (hI : ∀ t t', Sound t → I t → next t .step = some t' → I t') (h : Sound s) (hs : I s) :
    ∃ s', Returns s s' ∧ Sound s' ∧ I s' := by
  have hstep : ∀ t, (Sound t ∧ I t) → ¬ t.stack = [] →
      ∃ t', (system Loc Obj D).next t .step = some t' ∧ (Sound t' ∧ I t') ∧ t'.work < t.work := by
    intro t hkept hstack
    obtain ⟨ht, hIt⟩ := hkept
    obtain ⟨f, k, hfk⟩ := List.exists_cons_of_ne_nil hstack
    obtain ⟨t', ht', hsound⟩ := ht.step hstack
    refine ⟨t', ht', ⟨hsound, hI t t' ht hIt ht'⟩, ?_⟩
    have hexec : f.exec { t with stack := k } = some t' := by
      unfold SharedPtr.next at ht'
      simpa only [hfk] using ht'
    have hlt := work_lt (exec_cases hexec)
    have hpush : ({ t with stack := k } : State Loc Obj D).push [f] = t := by
      unfold State.push
      rw [List.singleton_append, ← hfk]
    rwa [hpush] at hlt
  obtain ⟨n, s', hrun, ⟨hsound, hI'⟩, hdone⟩ := System.exists_run_done hstep ⟨h, hs⟩
  exact ⟨s', ⟨n, hrun, hdone⟩, hsound, hI'⟩

end CcSnippets.SharedPtr

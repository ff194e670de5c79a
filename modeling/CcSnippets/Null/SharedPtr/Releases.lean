import CcSnippets.Null.SharedPtr.Orders
import CcSnippets.Null.SharedPtr.Safety

/-!
# CcSnippets.Null.SharedPtr.Releases

What the memory orders of the control block are for: **whatever is done through a
handle happens before the object, or the block, goes away**.

Until then each access is guarded (`Covered`): by a thread that still has a stake
in the count, or by what the newest write to the count has released. A stake is
given up by a releasing `fetch_sub`, and the last one by an acquiring one. The
shared handles together are one more party with a stake in the weak count, which
knows what was released to the use count.
-/

namespace CcSnippets.SharedPtr.Ordered

open CcSnippets.Core CcSnippets.SharedPtr CcSnippets.SharedPtr.Protocol

variable {τ : Type*} [DecidableEq τ] {o : Orders}

/-! ### The steps -/

/-- Everything a step can do. -/
inductive Step (o : Orders) (s : State τ) : Label τ → State τ → Prop
  | act {l : Protocol.Label τ} {p : Protocol.State τ} :
      onlyLoads s.protocol l = false → Protocol.next s.protocol l = some p →
      Step o s (.act l)
        { s with
          protocol := p
          memory := effect o s.memory p.cb l
          accesses := record (effect o s.memory p.cb l) s.accesses l }
  | lockLoad {t : τ} {i n w : ℕ} {count : ℤ} :
      s.protocol.threads t = ⟨n, w + 1, .idle⟩ → s.memory.readable t .use i = some count →
      Step o s (.lockLoad t i)
        (s.load o.lockLoad t i (s.protocol.set t ⟨n, w + 1, lockTest count⟩))
  | lockFail {t : τ} {i n w : ℕ} {count found : ℤ} {spurious : Bool} :
      s.protocol.threads t = ⟨n, w, .locking count⟩ → s.memory.readable t .use i = some found →
      Step o s (.lockFail t i spurious)
        (s.load o.lockFail t i (s.protocol.set t ⟨n, w, lockTest found⟩))
  | expired {t : τ} {i n w : ℕ} {count : ℤ} :
      s.protocol.threads t = ⟨n, w + 1, .idle⟩ → s.memory.readable t .use i = some count →
      Step o s (.expired t i)
        (s.load o.expired t i
          { s.protocol with sawExpired := s.protocol.sawExpired || count = 0 })
  | use {t : τ} {n w : ℕ} :
      s.protocol.threads t = ⟨n + 1, w, .idle⟩ →
      Step o s (.use t)
        { s with memory := s.memory.tick t, uses := s.uses ++ [(s.memory.tick t).now t] }

theorem next_step {s s' : State τ} {l : Label τ} (h : next o s l = some s') : Step o s l s' := by
  cases l with
  | act l =>
    simp only [next] at h
    split at h
    · cases h
    · rename_i hloads
      obtain ⟨p, hp, rfl⟩ := Option.map_eq_some_iff.mp h
      exact .act (Bool.eq_false_of_not_eq_true hloads) hp
  | lockLoad t i =>
    simp only [next] at h
    split at h
    · rename_i hx hread
      exact Option.some.inj h ▸ .lockLoad hx hread
    · cases h
  | lockFail t i spurious =>
    simp only [next] at h
    split at h
    · rename_i hx hread
      split at h
      · exact Option.some.inj h ▸ .lockFail hx hread
      · cases h
    · cases h
  | expired t i =>
    simp only [next] at h
    split at h
    · rename_i hx hread
      exact Option.some.inj h ▸ .expired hx hread
    · cases h
  | use t =>
    simp only [next] at h
    split at h
    · rename_i hx
      exact Option.some.inj h ▸ .use hx
    · cases h

/-! ### The invariant -/

/-- The orders that matter: each decrement acquires and releases. -/
structure Orders.Strong (o : Orders) : Prop where
  decUse : o.decUse.acquires = true ∧ o.decUse.releases = true
  decWeak : o.decWeak.acquires = true ∧ o.decWeak.releases = true

theorem Orders.source_strong : Orders.source.Strong := ⟨⟨rfl, rfl⟩, rfl, rfl⟩

/-- On the way from the last shared handle to `dec_weak_count ()`. -/
def disposing : Pc → Bool
  | .aboutToDispose | .inDispose | .aboutToDecWeak => true
  | _ => false

/-- The thread keeps the weak count from becoming zero. -/
def Staked (x : Thread) : Prop := 0 < x.shared ∨ 0 < x.weak ∨ disposing x.pc = true

/-- The parties with a stake in the weak count: the threads, and the shared
handles together. -/
def Party (s : Protocol.State τ) : Option τ → Prop
  | none => 0 < s.cb.useCount
  | some t => Staked (s.threads t)

/-- What a party knows. -/
def partyView (m : Memory τ Counter ℤ) : Option τ → View τ Counter
  | none => m.newest .use
  | some t => m.view t

/-- An access to the block is known to a party, or released to the weak count. -/
def Kept (p : Protocol.State τ) (m : Memory τ Counter ℤ) (e : Event τ) : Prop :=
  View.Guarded (partyView m) (Party p) (m.newest .weak) e

/-- A use of the object is known to an owner, or released to the use count. -/
def Owned (p : Protocol.State τ) (m : Memory τ Counter ℤ) (e : Event τ) : Prop :=
  View.Guarded m.view (fun t => 0 < (p.threads t).shared) (m.newest .use) e

variable [Fintype τ]

/-- What holds at every moment, whatever the memory orders are. -/
structure Genuine (s : State τ) : Prop where
  counted : Counted s.protocol
  /-- A use count of zero is the last one. -/
  zero : ∀ msg ∈ s.memory.history .use, msg.value = 0 → s.protocol.cb.useCount = 0

/-- What holds at every moment, where the decrements acquire and release. -/
structure Covered (s : State τ) : Prop extends Genuine s where
  uses : ∀ e ∈ s.uses, Owned s.protocol s.memory e
  accesses : ∀ e ∈ s.accesses, Kept s.protocol s.memory e
  disposer : ∀ t, disposing (s.protocol.threads t).pc = true →
    s.memory.newest .use ≤ s.memory.view t
  destroyer : ∀ t, (s.protocol.threads t).pc = .aboutToDestroy →
    s.memory.newest .weak ≤ s.memory.view t

omit [DecidableEq τ] in
/-- While shared handles are left nobody is disposing. -/
theorem not_disposing {s : Protocol.State τ} (h : Counted s) (huse : 0 < s.cb.useCount) (t : τ) :
    disposing (s.threads t).pc = false := by
  have hnobody : s.stakes.aboutToDispose = 0 ∧ s.stakes.inDispose = 0 ∧
      s.stakes.aboutToDecWeak = 0 := by
    rcases h.balanced.stage with ho | hs
    · have := ho.nobody
      omega
    · have := hs.use
      omega
  cases hpc : (s.threads t).pc with
  | idle | locking _ | aboutToDestroy => rfl
  | aboutToDispose => exact absurd hnobody.1 (countAt_pos hpc).ne'
  | inDispose => exact absurd hnobody.2.1 (countAt_pos hpc).ne'
  | aboutToDecWeak => exact absurd hnobody.2.2 (countAt_pos hpc).ne'

omit [DecidableEq τ] in
/-- While weak references are left nobody is destroying. -/
theorem not_destroying {s : Protocol.State τ} (h : Counted s) (hweak : 0 < s.cb.weakCount) (t : τ) :
    (s.threads t).pc ≠ .aboutToDestroy := by
  intro hpc
  have hpos : 0 < s.stakes.aboutToDestroy := countAt_pos hpc
  have hd := h.balanced.destroy
  omega

omit [DecidableEq τ] in
/-- With a weak count of zero no party is left. -/
theorem no_party {s : Protocol.State τ} (h : Counted s) (hweak : s.cb.weakCount = 0) :
    ∀ i, ¬ Party s i := by
  have huse : s.cb.useCount = 0 := by
    have := h.balanced.use
    have hpos := h.balanced.weak_pos
    omega
  intro i hi
  cases i with
  | none => exact absurd hi (by simp [Party, huse])
  | some t =>
    rcases hi with hshared | hw | hdisposing
    · exact absurd (shared_eq_zero h huse t) hshared.ne'
    · exact absurd (weak_eq_zero h hweak t) hw.ne'
    · have hle := h.balanced.weak_le
      have hcount : ∀ pc, (s.threads t).pc = pc → 0 < s.countAt pc := fun pc => countAt_pos
      have h1 : s.stakes.aboutToDispose = s.countAt .aboutToDispose := rfl
      have h2 : s.stakes.inDispose = s.countAt .inDispose := rfl
      have h3 : s.stakes.aboutToDecWeak = s.countAt .aboutToDecWeak := rfl
      cases hpc : (s.threads t).pc with
      | idle | locking _ | aboutToDestroy =>
        rw [hpc] at hdisposing
        cases hdisposing
      | aboutToDispose | inDispose | aboutToDecWeak =>
        have := hcount _ hpc
        omega

/-! ### Handing over -/

/-- What `v` covers is known to a party, or released to the weak count. -/
def InKeeping (p : Protocol.State τ) (m : Memory τ Counter ℤ) (v : View τ Counter) : Prop :=
  v ≤ m.newest .weak ∨ ∃ i, Party p i ∧ v ≤ partyView m i

omit [DecidableEq τ] [Fintype τ] in
theorem InKeeping.kept {p : Protocol.State τ} {m : Memory τ Counter ℤ} {v : View τ Counter}
    {e : Event τ} (h : InKeeping p m v) (he : v.Covers e) : Kept p m e := by
  rcases h with hweak | hparty
  · exact .inr (he.mono hweak)
  · obtain ⟨i, hi, hle⟩ := hparty
    exact .inl ⟨i, hi, he.mono hle⟩

omit [DecidableEq τ] [Fintype τ] in
/-- A thread with a stake keeps what it knows. -/
theorem InKeeping.of_staked {p : Protocol.State τ} {m : Memory τ Counter ℤ} {t : τ}
    (h : Staked (p.threads t)) : InKeeping p m (m.view t) :=
  .inr ⟨some t, h, le_rfl⟩

/-- **A step of thread `t`** keeps every access guarded where `t` leaves behind what it
knows with every stake that it gives up. -/
theorem Covered.step {s s' : State τ} (h : Covered s) {t : τ} (hgenuine : Genuine s')
    (hgrows : Memory.Grows s.memory s'.memory)
    (hothers : ∀ u, u ≠ t → s'.protocol.threads u = s.protocol.threads u)
    (huses : ∀ e ∈ s'.uses, e ∈ s.uses ∨ Owned s'.protocol s'.memory e)
    (haccesses : ∀ e ∈ s'.accesses, e ∈ s.accesses ∨ Kept s'.protocol s'.memory e)
    (hshared : 0 < (s.protocol.threads t).shared →
      0 < (s'.protocol.threads t).shared ∨ s'.memory.view t ≤ s'.memory.newest .use)
    (hstaked : Staked (s.protocol.threads t) →
      InKeeping s'.protocol s'.memory (s'.memory.view t))
    (hjoint : 0 < s.protocol.cb.useCount → 0 < s'.protocol.cb.useCount ∨
      Staked (s'.protocol.threads t) ∧ s.memory.newest .use ≤ s'.memory.view t)
    (hdisposer : ∀ u, disposing (s'.protocol.threads u).pc = true →
      s'.memory.newest .use ≤ s'.memory.view u)
    (hdestroyer : ∀ u, (s'.protocol.threads u).pc = .aboutToDestroy →
      s'.memory.newest .weak ≤ s'.memory.view u) : Covered s' where
  toGenuine := hgenuine
  disposer := hdisposer
  destroyer := hdestroyer
  uses e he := by
    rcases huses e he with hold | hnew
    · refine (h.uses e hold).move (hgrows.newest _) fun u hu => ?_
      by_cases hut : u = t
      · subst hut
        rcases hshared hu with hstill | hleft
        · exact .inr ⟨u, hstill, hgrows.view u⟩
        · exact .inl ((hgrows.view u).trans hleft)
      · refine .inr ⟨u, ?_, hgrows.view u⟩
        rw [hothers u hut]
        exact hu
    · exact hnew
  accesses e he := by
    rcases haccesses e he with hold | hnew
    · refine (h.accesses e hold).move (hgrows.newest _) fun i hi => ?_
      cases i with
      | none =>
        rcases hjoint hi with hstill | hlast
        · exact .inr ⟨none, hstill, hgrows.newest _⟩
        · exact .inr ⟨some t, hlast.1, hlast.2⟩
      | some u =>
        by_cases hut : u = t
        · subst hut
          rcases hstaked hi with hweak | hparty
          · exact .inl ((hgrows.view u).trans hweak)
          · obtain ⟨j, hj, hle⟩ := hparty
            exact .inr ⟨j, hj, (hgrows.view u).trans hle⟩
        · refine .inr ⟨some u, ?_, hgrows.view u⟩
          show Staked (s'.protocol.threads u)
          rw [hothers u hut]
          exact hi
    · exact hnew

/-! ### The steps of one thread -/

section Acts

variable {s : State τ} {p : Protocol.State τ} {t : τ} {x y : Thread} {l : Protocol.Label τ}

/-- The state after a step of the protocol. -/
abbrev State.after (o : Orders) (s : State τ) (l : Protocol.Label τ) (p : Protocol.State τ) :
    State τ :=
  { s with
    protocol := p
    memory := effect o s.memory p.cb l
    accesses := record (effect o s.memory p.cb l) s.accesses l }

omit [Fintype τ] in
theorem effect_grows (o : Orders) (m : Memory τ Counter ℤ) (cb : ControlBlock)
    (l : Protocol.Label τ) : Memory.Grows m (effect o m cb l) := by
  cases l with
  | copyShared t | weakFromShared t | copyWeak t | dropShared t | dropWeak t | decWeak t
  | lockExchange t _ => exact Memory.exchange_grows _ _ _ _ _
  | dispose t | disposeReturn t | destroy t | lockLoad t | expired t => exact Memory.tick_grows _ _
  | giveShared t u | giveWeak t u => exact Memory.handOver_grows _ _ _

omit [Fintype τ] in
/-- The values of the use count are those it has had, and the one it has. -/
theorem effect_history (o : Orders) (m : Memory τ Counter ℤ) (cb : ControlBlock)
    (l : Protocol.Label τ) {msg : Message τ Counter ℤ}
    (h : msg ∈ (effect o m cb l).history .use) :
    msg ∈ m.history .use ∨ msg.value = cb.useCount := by
  have hexchange : ∀ order t, msg ∈ (m.exchange order t .use cb.useCount).history .use →
      msg ∈ m.history .use ∨ msg.value = cb.useCount := by
    intro order t hmsg
    obtain ⟨v, hv⟩ := m.exchange_history_self order t .use cb.useCount
    rw [hv] at hmsg
    rcases List.mem_append.mp hmsg with hold | hnew
    · exact .inl hold
    · obtain rfl := List.mem_singleton.mp hnew
      exact .inr rfl
  have hweak : ∀ order t, msg ∈ (m.exchange order t .weak cb.weakCount).history .use →
      msg ∈ m.history .use ∨ msg.value = cb.useCount := by
    intro order t hmsg
    rw [m.exchange_history_of_ne order t .weak cb.weakCount (by decide)] at hmsg
    exact .inl hmsg
  cases l with
  | copyShared t | dropShared t | lockExchange t _ => exact hexchange _ _ h
  | weakFromShared t | copyWeak t | dropWeak t | decWeak t => exact hweak _ _ h
  | dispose t | disposeReturn t | destroy t | lockLoad t | expired t | giveShared t u
  | giveWeak t u => exact .inl h

theorem Genuine.act (h : Genuine s) (hs : Protocol.Step s.protocol l p) :
    Genuine (s.after o l p) where
  counted := counted_step h.counted hs
  zero msg hmsg hvalue := by
    rcases effect_history o s.memory p.cb l hmsg with hold | hnew
    · exact useCount_eq_zero_step h.counted (h.zero msg hold hvalue) hs
    · exact hnew.symm.trans hvalue

omit [Fintype τ] [DecidableEq τ] in
theorem record_cases {m : Memory τ Counter ℤ} {acc : List (Event τ)} {e : Event τ}
    (h : e ∈ record m acc l) : e ∈ acc ∨ e = m.now (mover l) := by
  cases l with
  | giveShared _ _ | giveWeak _ _ | destroy _ => exact .inl h
  | copyShared t | weakFromShared t | copyWeak t | dropShared t | dropWeak t | decWeak t
  | lockExchange t _ | dispose t | disposeReturn t | lockLoad t | expired t =>
    rcases List.mem_append.mp h with hold | hnew
    · exact .inl hold
    · exact .inr (List.mem_singleton.mp hnew)

/-- A step of the protocol by one thread that keeps what it knows. -/
theorem Covered.act (h : Covered s) (hs : Protocol.Step s.protocol l p) (ht : mover l = t)
    (hx : s.protocol.threads t = x) (hp : p.threads = Function.update s.protocol.threads t y)
    (hshared : 0 < x.shared → 0 < y.shared ∨
      (s.after o l p).memory.view t ≤ (s.after o l p).memory.newest .use)
    (hkeep : InKeeping p (s.after o l p).memory ((s.after o l p).memory.view t))
    (hjoint : 0 < s.protocol.cb.useCount → 0 < p.cb.useCount ∨
      Staked y ∧ s.memory.newest .use ≤ (s.after o l p).memory.view t)
    (hdisposer : ∀ u, disposing (p.threads u).pc = true →
      (s.after o l p).memory.newest .use ≤ (s.after o l p).memory.view u)
    (hdestroyer : ∀ u, (p.threads u).pc = .aboutToDestroy →
      (s.after o l p).memory.newest .weak ≤ (s.after o l p).memory.view u) :
    Covered (s.after o l p) := by
  subst hx ht
  have hself : p.threads (mover l) = y := by rw [hp, Function.update_self]
  refine h.step (t := mover l) (h.toGenuine.act hs) (effect_grows _ _ _ _)
    (fun u hu => by rw [hp, Function.update_of_ne hu]) (fun e he => .inl he)
    (fun e he => ?_) (by rwa [hself]) (fun _ => hkeep) (by rwa [hself]) hdisposer hdestroyer
  rcases record_cases he with hold | hnow
  · exact .inl hold
  · subst hnow
    exact .inr (hkeep.kept le_rfl)

omit [DecidableEq τ] in
/-- A party is counted. -/
theorem weak_pos_of_party {s : Protocol.State τ} (h : Counted s) {i : Option τ}
    (hi : Party s i) : 0 < s.cb.weakCount := by
  rcases h.balanced.destroy with hpos | hzero
  · exact hpos.1
  · exact absurd hi (no_party h hzero.1 i)

/-- Who was disposing still knows what was released to the use count. -/
theorem Covered.disposer_after (h : Covered s) {m : Memory τ Counter ℤ}
    (hgrows : Memory.Grows s.memory m) (huse : m.newest .use = s.memory.newest .use)
    (hx : s.protocol.threads t = x) (hp : p.threads = Function.update s.protocol.threads t y)
    (hy : disposing y.pc = true → disposing x.pc = true) :
    ∀ u, disposing (p.threads u).pc = true → m.newest .use ≤ m.view u := by
  intro u hu
  rw [huse]
  refine (h.disposer u ?_).trans (hgrows.view u)
  by_cases hut : u = t
  · subst hut
    rw [hp, Function.update_self] at hu
    rw [hx]
    exact hy hu
  · rwa [hp, Function.update_of_ne hut] at hu

/-- The first to destroy is the one that took the last weak reference. -/
theorem Covered.destroyer_after (h : Covered s) {m : Memory τ Counter ℤ}
    (hweak : 0 < s.protocol.cb.weakCount)
    (hp : p.threads = Function.update s.protocol.threads t y)
    (hy : y.pc = .aboutToDestroy → m.newest .weak ≤ m.view t) :
    ∀ u, (p.threads u).pc = .aboutToDestroy → m.newest .weak ≤ m.view u := by
  intro u hu
  by_cases hut : u = t
  · subst hut
    rw [hp, Function.update_self] at hu
    exact hy hu
  · rw [hp, Function.update_of_ne hut] at hu
    exact absurd hu (not_destroying h.counted hweak u)

/-- A step of a thread that has a stake before and after it, and writes nothing to
the use count but where that stays positive. -/
theorem Covered.stay (h : Covered s) (hs : Protocol.Step s.protocol l p) (ht : mover l = t)
    (hx : s.protocol.threads t = x) (hp : p.threads = Function.update s.protocol.threads t y)
    (hshared : 0 < x.shared → 0 < y.shared) (hstakex : Staked x) (hstakey : Staked y)
    (hcount : 0 < p.cb.useCount ∨ p.cb.useCount = s.protocol.cb.useCount ∧
      (s.after o l p).memory.newest .use = s.memory.newest .use ∧
      (disposing y.pc = true → disposing x.pc = true))
    (hy : y.pc ≠ .aboutToDestroy) : Covered (s.after o l p) := by
  have hcounted : Counted p := counted_step h.counted hs
  have hself : p.threads t = y := by rw [hp, Function.update_self]
  refine h.act hs ht hx hp (fun hpos => .inl (hshared hpos)) (.of_staked (by rwa [hself]))
    (fun hpos => .inl ?_) ?_ ?_
  · rcases hcount with hafter | ⟨hsame, -⟩
    · exact hafter
    · rwa [hsame]
  · rcases hcount with hafter | ⟨-, hsame, hdisposing⟩
    · intro u hu
      rw [not_disposing hcounted hafter u] at hu
      cases hu
    · exact h.disposer_after (effect_grows _ _ _ _) hsame hx hp hdisposing
  · have hparty : Party s.protocol (some t) := by
      show Staked (s.protocol.threads t)
      rwa [hx]
    exact h.destroyer_after (weak_pos_of_party h.counted hparty) hp fun hno => absurd hno hy

end Acts

/-! ### Every step -/

omit [Fintype τ] in
theorem set_threads_self (s : Protocol.State τ) (t : τ) (x : Thread) :
    (s.set t x).threads t = x := Function.update_self _ _ _

omit [Fintype τ] in
theorem set_threads_of_ne (s : Protocol.State τ) {t u : τ} (h : u ≠ t) (x : Thread) :
    (s.set t x).threads u = s.threads u := Function.update_of_ne h _ _

section Steps

variable {s : State τ} {p : Protocol.State τ} {l : Protocol.Label τ}

/-- A shared handle is dropped: what its thread knows is released to the use count,
and the thread that dropped the last one learns all of that. -/
theorem Covered.dropShared (ho : o.Strong) (h : Covered s) {t : τ} {n w : ℕ}
    (hx : s.protocol.threads t = ⟨n + 1, w, .idle⟩)
    (hs : Protocol.Step s.protocol (.dropShared t) p)
    (hp : p = { s.protocol.set t ⟨n, w, if s.protocol.cb.useCount = 1 then .aboutToDispose
      else .idle⟩ with cb := s.protocol.cb.subUseCount }) :
    Covered (s.after o (.dropShared t) p) := by
  have hcounted : Counted p := counted_step h.counted hs
  have hpos := h.counted.shared_le hx
  have hcount : p.cb.useCount = s.protocol.cb.useCount - 1 := by rw [hp]; rfl
  have hleft : (s.after o (.dropShared t) p).memory.view t ≤
      (s.after o (.dropShared t) p).memory.newest .use :=
    Memory.exchange_view_le _ _ _ _ _ ho.decUse.2
  have hlearned : (s.after o (.dropShared t) p).memory.newest .use ≤
      (s.after o (.dropShared t) p).memory.view t :=
    Memory.exchange_newest_le _ _ _ _ _ ho.decUse.1
  have hweak : 0 < s.protocol.cb.weakCount := h.counted.balanced.weak_pos (by omega)
  by_cases hlast : s.protocol.cb.useCount = 1
  · rw [if_pos hlast] at hp
    have hthreads : p.threads = Function.update s.protocol.threads t ⟨n, w, .aboutToDispose⟩ := by
      rw [hp]
      rfl
    have hself : p.threads t = ⟨n, w, .aboutToDispose⟩ := by rw [hthreads, Function.update_self]
    have hstaked : Staked ⟨n, w, .aboutToDispose⟩ := .inr (.inr rfl)
    refine h.act hs rfl hx hthreads (fun _ => .inr hleft) (.of_staked (t := t) (by rwa [hself]))
      (fun _ => .inr ⟨hstaked, ?_⟩) (fun u hu => ?_)
      (h.destroyer_after hweak hthreads fun hno => by cases hno)
    · exact Memory.newest_le_exchange_view _ _ _ _ _ ho.decUse.1
    · -- nobody else is disposing: until now there were shared handles
      by_cases hut : u = t
      · subst hut
        exact hlearned
      · rw [hthreads, Function.update_of_ne hut] at hu
        rw [not_disposing h.counted (by omega) u] at hu
        cases hu
  · rw [if_neg hlast] at hp
    have hthreads : p.threads = Function.update s.protocol.threads t ⟨n, w, .idle⟩ := by
      rw [hp]
      rfl
    refine h.act hs rfl hx hthreads (fun _ => .inr hleft) (.inr ⟨none, ?_, hleft⟩)
      (fun _ => .inl (by omega)) (fun u hu => ?_)
      (h.destroyer_after hweak hthreads fun hno => by cases hno)
    · show 0 < p.cb.useCount
      omega
    · rw [not_disposing hcounted (by omega) u] at hu
      cases hu

/-- A weak reference is dropped, a handle or the one of the shared handles: what its
thread knows is released to the weak count, and the thread that dropped the last
one learns all of that. -/
theorem Covered.dropWeak (ho : o.Strong) (h : Covered s) {t : τ} {x y : Thread}
    (hs : Protocol.Step s.protocol l p) (hl : mover l = t) (hx : s.protocol.threads t = x)
    (hp : p.threads = Function.update s.protocol.threads t y)
    (heffect : effect o s.memory p.cb l = s.memory.exchange o.decWeak t .weak p.cb.weakCount)
    (huse : p.cb.useCount = s.protocol.cb.useCount) (hx' : Staked x) (hshared : y.shared = x.shared)
    (hy : disposing y.pc = false) : Covered (s.after o l p) := by
  have hparty : Party s.protocol (some t) := by
    show Staked (s.protocol.threads t)
    rwa [hx]
  have hsame : (s.after o l p).memory.newest .use = s.memory.newest .use := by
    show (effect o s.memory p.cb l).newest .use = _
    rw [heffect, Memory.exchange_newest_of_ne _ _ _ _ _ (by decide)]
  have hleft : (s.after o l p).memory.view t ≤ (s.after o l p).memory.newest .weak := by
    show (effect o s.memory p.cb l).view t ≤ (effect o s.memory p.cb l).newest .weak
    rw [heffect]
    exact Memory.exchange_view_le _ _ _ _ _ ho.decWeak.2
  refine h.act hs hl hx hp (fun hpos => .inl (by rwa [hshared])) (.inl hleft)
    (fun hpos => .inl (by rwa [huse]))
    (h.disposer_after (effect_grows _ _ _ _) hsame hx hp fun hno => by rw [hy] at hno; cases hno)
    (h.destroyer_after (weak_pos_of_party h.counted hparty) hp fun _ => ?_)
  show (effect o s.memory p.cb l).newest .weak ≤ (effect o s.memory p.cb l).view t
  rw [heffect]
  exact Memory.exchange_newest_le _ _ _ _ _ ho.decWeak.1

/-- `destroy ()` is called: nobody has a stake left. -/
theorem Covered.destroy (h : Covered s) {t : τ} {n w : ℕ}
    (hx : s.protocol.threads t = ⟨n, w, .aboutToDestroy⟩)
    (hs : Protocol.Step s.protocol (.destroy t) p)
    (hp : p.threads = Function.update s.protocol.threads t ⟨n, w, .idle⟩) :
    Covered (s.after o (.destroy t) p) := by
  have hweak := (destroy_once h.counted hs).2.2.2
  have hgrows : Memory.Grows s.memory (s.memory.tick t) := Memory.tick_grows _ _
  refine h.step (t := t) (h.toGenuine.act hs) hgrows
    (fun u hu => by rw [hp, Function.update_of_ne hu]) (fun e he => .inl he)
    (fun e he => .inl he) (fun hpos => .inl ?_)
    (fun hstaked => absurd hstaked (no_party h.counted hweak (some t)))
    (fun hpos => absurd hpos (no_party h.counted hweak none))
    (h.disposer_after hgrows rfl hx hp fun hno => by cases hno) (fun u hu => ?_)
  · rw [hx] at hpos
    rwa [hp, Function.update_self]
  · by_cases hut : u = t
    · subst hut
      rw [hp, Function.update_self] at hu
      cases hu
    · rw [hp, Function.update_of_ne hut] at hu
      exact (h.destroyer u hu).trans (hgrows.view u)

/-- A handle changes hands: its new owner takes over what the old one knows. -/
theorem Covered.give (h : Covered s) {t u : τ} {y y' : Thread} {l : Protocol.Label τ}
    (hs : Protocol.Step s.protocol l p) (hl : l = .giveShared t u ∨ l = .giveWeak t u)
    (hp : p = (s.protocol.set t y).set u y') (hidle : (s.protocol.threads t).pc = .idle)
    (hy : y.pc = .idle) (hy' : y'.pc = ((s.protocol.set t y).threads u).pc)
    (hshared : 0 < (s.protocol.threads t).shared → 0 < y'.shared ∨ t ≠ u ∧ 0 < y.shared)
    (hshared' : t ≠ u → 0 < (s.protocol.threads u).shared → 0 < y'.shared)
    (hstaked : Staked y' ) : Covered (s.after o l p) := by
  have heffect : effect o s.memory p.cb l = s.memory.handOver t u := by
    rcases hl with rfl | rfl <;> rfl
  have hgrows : Memory.Grows s.memory (effect o s.memory p.cb l) := effect_grows _ _ _ _
  have hpassed : s.memory.view t ≤ (effect o s.memory p.cb l).view u := by
    rw [heffect]
    exact Memory.handOver_view_le _ _ _
  have hnewest : ∀ x, (effect o s.memory p.cb l).newest x = s.memory.newest x := by
    intro x
    rw [heffect]
    rfl
  have hself : p.threads u = y' := by rw [hp, set_threads_self]
  have hfrom : t ≠ u → p.threads t = y := by
    intro htu
    rw [hp, set_threads_of_ne _ htu, set_threads_self]
  have hothers : ∀ v, v ≠ t → v ≠ u → p.threads v = s.protocol.threads v := by
    intro v hvt hvu
    rw [hp, set_threads_of_ne _ hvu, set_threads_of_ne _ hvt]
  have hpcs : ∀ v, (p.threads v).pc = (s.protocol.threads v).pc := by
    intro v
    by_cases hvu : v = u
    · subst hvu
      rw [hself, hy']
      by_cases hvt : v = t
      · subst hvt
        rw [hidle, set_threads_self, hy]
      · rw [set_threads_of_ne _ hvt]
    · by_cases hvt : v = t
      · subst hvt
        rw [hfrom hvu, hidle, hy]
      · rw [hothers v hvt hvu]
  have haccesses : record (effect o s.memory p.cb l) s.accesses l = s.accesses := by
    rcases hl with rfl | rfl <;> rfl
  have hcount : p.cb = s.protocol.cb := by
    rw [hp]
    rfl
  refine ⟨h.toGenuine.act hs, fun e he => ?_, fun e he => ?_, fun v hv => ?_, fun v hv => ?_⟩
  · refine (h.uses e he).move (hgrows.newest _) fun v hv => .inr ?_
    by_cases hvt : v = t
    · subst hvt
      rcases hshared hv with hto | hstays
      · exact ⟨u, by rwa [hself], hpassed⟩
      · exact ⟨v, by rw [hfrom hstays.1]; exact hstays.2, hgrows.view v⟩
    · by_cases hvu : v = u
      · subst hvu
        exact ⟨v, by rw [hself]; exact hshared' (Ne.symm hvt) hv, hgrows.view v⟩
      · exact ⟨v, by rwa [hothers v hvt hvu], hgrows.view v⟩
  · have he : e ∈ s.accesses := haccesses ▸ he
    refine (h.accesses e he).move (hgrows.newest _) fun i hi => .inr ?_
    cases i with
    | none =>
      refine ⟨none, ?_, hgrows.newest _⟩
      show 0 < p.cb.useCount
      rwa [hcount]
    | some v =>
      by_cases hvt : v = t
      · subst hvt
        exact ⟨some u, by rwa [Party, hself], hpassed⟩
      · by_cases hvu : v = u
        · subst hvu
          exact ⟨some v, by rwa [Party, hself], hgrows.view v⟩
        · exact ⟨some v, by rwa [Party, hothers v hvt hvu], hgrows.view v⟩
  · show (effect o s.memory p.cb l).newest .use ≤ _
    rw [hnewest]
    exact (h.disposer v (by rwa [← hpcs v])).trans (hgrows.view v)
  · show (effect o s.memory p.cb l).newest .weak ≤ _
    rw [hnewest]
    exact (h.destroyer v (by rwa [← hpcs v])).trans (hgrows.view v)

/-- A load may be as stale as it likes. -/
theorem counted_load (h : Counted s.protocol) {t : τ} {n w : ℕ} {pc : Pc} {found : ℤ}
    (hx : s.protocol.threads t = ⟨n, w, pc⟩) (hpc : Moved.ordinary pc = true) (hw : 0 < w) :
    Counted (s.protocol.set t ⟨n, w, lockTest found⟩) :=
  h.keep hx hpc (lockTest_ordinary _) (fun _ hlock => ⟨hw, lockTest_eq_locking hlock⟩) rfl rfl
    (.inl rfl) (.inl rfl)

omit [DecidableEq τ] in
/-- Of the counts there have been, zero is the last. -/
theorem Genuine.useCount_eq_zero (h : Genuine s) {t : τ} {i : ℕ}
    (hread : s.memory.readable t .use i = some 0) : s.protocol.cb.useCount = 0 := by
  unfold Memory.readable at hread
  split at hread
  · obtain ⟨msg, hmsg, hvalue⟩ := Option.map_eq_some_iff.mp hread
    exact h.zero msg (List.mem_of_getElem? hmsg) hvalue
  · cases hread

/-- Whatever its order is, no step makes a count wrong. -/
theorem genuine_step (h : Genuine s) {s' : State τ} {l : Label τ} (hs : Step o s l s') :
    Genuine s' := by
  cases hs with
  | act hl hnext => exact h.act (Protocol.next_step hnext)
  | lockLoad hx hread => exact ⟨counted_load h.counted hx rfl (Nat.succ_pos _), h.zero⟩
  | lockFail hx hread =>
    have hlock := h.counted.locking _ _ (congrArg Thread.pc hx)
    rw [hx] at hlock
    exact ⟨counted_load h.counted hx rfl hlock.1, h.zero⟩
  | expired hx hread =>
    refine ⟨⟨h.counted.balanced, h.counted.locking, fun hsaw => ?_⟩, h.zero⟩
    rcases Bool.or_eq_true_iff.mp hsaw with hold | hnow
    · exact h.counted.expired hold
    · obtain rfl := of_decide_eq_true hnow
      exact h.useCount_eq_zero hread
  | use hx => exact ⟨h.counted, h.zero⟩

theorem genuine_start {s : State τ} (h : (system τ o).init s) : Genuine s := by
  obtain ⟨hprotocol, hmemory, -⟩ := h
  refine ⟨counted_start hprotocol, fun msg hmsg hvalue => ?_⟩
  rw [hmemory] at hmsg
  obtain rfl := List.mem_singleton.mp hmsg
  exact hvalue

theorem genuine_of_reach {s : State τ} (h : (system τ o).Reachable s) : Genuine s := by
  refine h.invariant (fun s => genuine_start) fun s l s' _ hg _ hs => ?_
  have hstep : Step o s l s' := next_step hs
  exact genuine_step hg hstep

/-- A load by a thread with a weak handle, however stale what it finds. -/
theorem Covered.load (h : Covered s) {order : MemoryOrder} {t : τ} {i : ℕ} {x y : Thread}
    (hx : s.protocol.threads t = x) (hp : p.threads = Function.update s.protocol.threads t y)
    (hgenuine : Genuine (s.load order t i p)) (hcb : p.cb = s.protocol.cb)
    (hshared : y.shared = x.shared) (hweakx : 0 < x.weak) (hweaky : 0 < y.weak)
    (hy : Moved.ordinary y.pc = true) : Covered (s.load order t i p) := by
  have hgrows : Memory.Grows s.memory (s.memory.load order t .use i) :=
    Memory.load_grows _ _ _ _ _
  have hself : p.threads t = y := by rw [hp, Function.update_self]
  have hstaked : Staked (p.threads t) := by
    rw [hself]
    exact .inr (.inl hweaky)
  have hparty : Party s.protocol (some t) := by
    show Staked (s.protocol.threads t)
    rw [hx]
    exact .inr (.inl hweakx)
  refine h.step (t := t) hgenuine hgrows (fun u hu => ?_) (fun e he => .inl he) (fun e he => ?_)
    (fun hpos => .inl ?_)
    (fun _ => .of_staked hstaked) (fun hpos => .inl ?_)
    (h.disposer_after hgrows rfl hx hp fun hno => ?_)
    (h.destroyer_after (weak_pos_of_party h.counted hparty) hp fun hno => ?_)
  · show p.threads u = _
    rw [hp, Function.update_of_ne hu]
  · rcases List.mem_append.mp he with hold | hnew
    · exact .inl hold
    · obtain rfl := List.mem_singleton.mp hnew
      exact .inr ((InKeeping.of_staked hstaked).kept le_rfl)
  · show 0 < (p.threads t).shared
    rw [hx] at hpos
    rwa [hself, hshared]
  · show 0 < p.cb.useCount
    rwa [hcb]
  · cases hpc : y.pc with
    | idle | locking _ | aboutToDestroy =>
      rw [hpc] at hno
      cases hno
    | aboutToDispose | inDispose | aboutToDecWeak =>
      rw [hpc] at hy
      cases hy
  · rw [hno] at hy
    cases hy

/-- The managed object is accessed through a shared handle. -/
theorem Covered.use (h : Covered s) {t : τ} {n w : ℕ}
    (hx : s.protocol.threads t = ⟨n + 1, w, .idle⟩) :
    Covered { s with memory := s.memory.tick t, uses := s.uses ++ [(s.memory.tick t).now t] } := by
  have hgrows : Memory.Grows s.memory (s.memory.tick t) := Memory.tick_grows _ _
  have hpos : 0 < (s.protocol.threads t).shared := by
    rw [hx]
    exact Nat.succ_pos n
  refine h.step (t := t) ⟨h.counted, h.zero⟩ hgrows (fun _ _ => rfl) (fun e he => ?_)
    (fun e he => .inl he) (fun h => .inl h) (fun hstaked => .of_staked hstaked)
    (fun h => .inl h) (fun u hu => (h.disposer u hu).trans (hgrows.view u))
    (fun u hu => (h.destroyer u hu).trans (hgrows.view u))
  rcases List.mem_append.mp he with hold | hnew
  · exact .inl hold
  · obtain rfl := List.mem_singleton.mp hnew
    exact .inr (.inl ⟨t, hpos, le_rfl⟩)

omit [Fintype τ] in
/-- A compare-exchange that writes grants a handle. -/
theorem lockExchange_grants {t : τ} {spurious : Bool}
    (hl : onlyLoads s.protocol (.lockExchange t spurious) = false)
    (hnext : Protocol.next s.protocol (.lockExchange t spurious) = some p) :
    ∃ n w, s.protocol.threads t = ⟨n, w, .locking s.protocol.cb.useCount⟩ ∧
      p = { s.protocol.set t ⟨n + 1, w, .idle⟩ with cb := s.protocol.cb.incUseCount } := by
  rcases hx : s.protocol.threads t with ⟨n, w, pc⟩
  simp only [onlyLoads, hx, Bool.or_eq_false_iff, decide_eq_false_iff_not, not_not] at hl
  obtain ⟨rfl, rfl⟩ := hl
  simp only [Protocol.next, hx, ControlBlock.compareExchange, and_self, if_true] at hnext
  exact ⟨n, w, rfl, (Option.some.inj hnext).symm⟩

/-- **Every step keeps every access guarded.** -/
theorem covered_act (ho : o.Strong) (h : Covered s) (hl : onlyLoads s.protocol l = false)
    (hnext : Protocol.next s.protocol l = some p) : Covered (s.after o l p) := by
  have hs := Protocol.next_step hnext
  have hcounted : Counted p := counted_step h.counted hs
  have hstep := hs
  cases hstep with
  | @copyShared t n w hx =>
    have hpos := hcounted.shared_le (set_threads_self s.protocol t ⟨n + 2, w, .idle⟩)
    exact h.stay hs rfl hx rfl (fun _ => Nat.succ_pos _) (.inl (Nat.succ_pos _))
      (.inl (Nat.succ_pos _)) (.inl (by omega)) (fun hno => by cases hno)
  | @weakFromShared t n w hx =>
    have hpos := hcounted.shared_le (set_threads_self s.protocol t ⟨n + 1, w + 1, .idle⟩)
    exact h.stay hs rfl hx rfl (fun _ => Nat.succ_pos _) (.inl (Nat.succ_pos _))
      (.inl (Nat.succ_pos _)) (.inl (by omega)) (fun hno => by cases hno)
  | @copyWeak t n w hx =>
    exact h.stay hs rfl hx rfl id (.inr (.inl (Nat.succ_pos _))) (.inr (.inl (Nat.succ_pos _)))
      (.inr ⟨rfl, Memory.exchange_newest_of_ne _ _ _ _ _ (by decide), id⟩)
      (fun hno => by cases hno)
  | dropShared hx => exact h.dropShared ho hx hs rfl
  | dropWeak hx =>
    refine h.dropWeak ho hs rfl hx rfl rfl rfl (.inr (.inl (Nat.succ_pos _))) rfl ?_
    split <;> rfl
  | lockLoad hx => cases hl
  | @lockGrant t n w spurious hx =>
    have hpos := hcounted.shared_le (set_threads_self s.protocol t ⟨n + 1, w, .idle⟩)
    have hlock := h.counted.locking _ _ (congrArg Thread.pc hx)
    rw [hx] at hlock
    exact h.stay hs rfl hx rfl (fun _ => Nat.succ_pos _) (.inr (.inl hlock.1))
      (.inl (Nat.succ_pos _)) (.inl (by omega)) (fun hno => by cases hno)
  | @lockRetry t n w count spurious hx =>
    -- what is not only a load has not failed
    obtain ⟨n', w', hx', hgranted⟩ := lockExchange_grants hl hnext
    obtain ⟨rfl, -, -⟩ := Thread.mk.inj (hx.symm.trans hx')
    have hshared := congrArg (fun p => (p.threads t).shared) hgranted
    simp [Protocol.State.set] at hshared
  | expired hx => cases hl
  | dispose hx =>
    exact h.stay hs rfl hx rfl id (.inr (.inr rfl)) (.inr (.inr rfl))
      (.inr ⟨rfl, rfl, fun _ => rfl⟩) (fun hno => by cases hno)
  | disposeReturn hx =>
    exact h.stay hs rfl hx rfl id (.inr (.inr rfl)) (.inr (.inr rfl))
      (.inr ⟨rfl, rfl, fun _ => rfl⟩) (fun hno => by cases hno)
  | decWeak hx =>
    refine h.dropWeak ho hs rfl hx rfl rfl rfl (.inr (.inr rfl)) rfl ?_
    split <;> rfl
  | destroy hx => exact h.destroy hx hs rfl
  | @giveShared t u n w m hx hm =>
    subst hm
    refine h.give hs (.inl rfl) rfl (congrArg Thread.pc hx) rfl rfl (fun _ => .inl ?_)
      (fun _ _ => ?_) (.inl ?_) <;> exact Nat.succ_pos _
  | @giveWeak t u n w m hx hm =>
    subst hm
    refine h.give hs (.inr rfl) rfl (congrArg Thread.pc hx) rfl rfl (fun hpos => ?_)
      (fun htu hpos => ?_) (.inr (.inl (Nat.succ_pos _)))
    · rw [hx] at hpos
      by_cases htu : t = u
      · subst htu
        rw [set_threads_self]
        exact .inl hpos
      · exact .inr ⟨htu, hpos⟩
    · rwa [set_threads_of_ne _ (Ne.symm htu)]

theorem covered_step (ho : o.Strong) (h : Covered s) {s' : State τ} {l : Label τ}
    (hs : Step o s l s') : Covered s' := by
  have hgenuine := genuine_step h.toGenuine hs
  cases hs with
  | act hl hnext => exact covered_act ho h hl hnext
  | lockLoad hx hread =>
    exact h.load hx rfl hgenuine rfl rfl (Nat.succ_pos _) (Nat.succ_pos _) (lockTest_ordinary _)
  | lockFail hx hread =>
    have hlock := h.counted.locking _ _ (congrArg Thread.pc hx)
    rw [hx] at hlock
    exact h.load hx rfl hgenuine rfl rfl hlock.1 hlock.1 (lockTest_ordinary _)
  | @expired t i n w count hx hread =>
    refine h.load hx (y := ⟨n, w + 1, .idle⟩) ?_ hgenuine rfl rfl (Nat.succ_pos _)
      (Nat.succ_pos _) rfl
    rw [← hx, Function.update_eq_self]
  | use hx => exact h.use hx

theorem covered_of_reach (ho : o.Strong) {s : State τ} (h : (system τ o).Reachable s) :
    Covered s := by
  refine h.invariant (fun s hinit => ?_) fun s l s' _ hc _ hs => ?_
  · have hgenuine := genuine_start hinit
    obtain ⟨⟨-, -, -, hidle, -⟩, -, huses, haccesses⟩ := hinit
    refine ⟨hgenuine, fun e he => ?_, fun e he => ?_, fun t ht => ?_, fun t ht => ?_⟩
    · rw [huses] at he
      cases he
    · rw [haccesses] at he
      cases he
    · rw [hidle t] at ht
      cases ht
    · rw [hidle t] at ht
      cases ht
  · have hstep : Step o s l s' := next_step hs
    exact covered_step ho hc hstep

/-! ### At the end -/

omit [DecidableEq τ] in
/-- Who is about to dispose the object knows of every use of it. -/
theorem Covered.uses_known (h : Covered s) {t : τ}
    (ht : (s.protocol.threads t).pc = .aboutToDispose) {e : Event τ} (he : e ∈ s.uses) :
    (s.memory.view t).Covers e := by
  have hdisposing : disposing (s.protocol.threads t).pc = true := by rw [ht]; rfl
  have hzero : s.protocol.cb.useCount = 0 := by
    have huse := h.counted.balanced.use
    by_contra hne
    have hno := not_disposing h.counted (by omega) t
    rw [hdisposing] at hno
    cases hno
  refine ((h.uses e he).covers fun u hu => ?_).mono (h.disposer t hdisposing)
  exact absurd (shared_eq_zero h.counted hzero u) hu.ne'

omit [DecidableEq τ] in
/-- Who is about to destroy the block knows of every access to it. -/
theorem Covered.accesses_known (h : Covered s) {t : τ}
    (ht : (s.protocol.threads t).pc = .aboutToDestroy) {e : Event τ} (he : e ∈ s.accesses) :
    (s.memory.view t).Covers e := by
  have hzero : s.protocol.cb.weakCount = 0 := by
    rcases h.counted.balanced.destroy with hpos | hzero
    · exact absurd ht (not_destroying h.counted hpos.1 t)
    · exact hzero.1
  exact ((h.accesses e he).covers (no_party h.counted hzero)).mono (h.destroyer t ht)

/-- A step that uses the object does so before it is disposed, and one that accesses
the block before that is destroyed. -/
theorem Genuine.in_time (h : Genuine s) {s' : State τ} {l : Label τ} (hs : Step o s l s') :
    (s'.uses ≠ s.uses → s.protocol.disposals = 0) ∧
      (s'.accesses ≠ s.accesses → s.protocol.destroys = 0) := by
  have hload : ∀ {t : τ} {n w : ℕ} {pc : Pc}, s.protocol.threads t = ⟨n, w, pc⟩ → 0 < w →
      s.protocol.destroys = 0 := by
    intro t n w pc hx hw
    have hparty : Party s.protocol (some t) := by
      show Staked (s.protocol.threads t)
      rw [hx]
      exact .inr (.inl hw)
    have hpos := weak_pos_of_party h.counted hparty
    have hd := h.counted.balanced.destroy
    omega
  cases hs with
  | @act l p hl hnext =>
    refine ⟨fun hno => absurd rfl hno, fun hno => ?_⟩
    refine destroys_eq_zero h.counted (Protocol.next_step hnext) ?_
    cases l with
    | giveShared _ _ | giveWeak _ _ => exact absurd rfl hno
    | _ => rfl
  | lockLoad hx hread => exact ⟨fun hno => absurd rfl hno, fun _ => hload hx (Nat.succ_pos _)⟩
  | lockFail hx hread =>
    have hlock := h.counted.locking _ _ (congrArg Thread.pc hx)
    rw [hx] at hlock
    exact ⟨fun hno => absurd rfl hno, fun _ => hload hx hlock.1⟩
  | expired hx hread => exact ⟨fun hno => absurd rfl hno, fun _ => hload hx (Nat.succ_pos _)⟩
  | use hx =>
    refine ⟨fun _ => ?_, fun hno => absurd rfl hno⟩
    have hpos := h.counted.shared_le hx
    rcases h.counted.balanced.stage with ho | hz
    · exact ho.undisposed
    · have := hz.use
      omega

end Steps

end CcSnippets.SharedPtr.Ordered

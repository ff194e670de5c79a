import CcSnippets.Core.Transition
import CcSnippets.Asio.Client.Basic

/-!
# CcSnippets.Asio.Client.Counts

The two clients side by side: the same sessions, whose operations complete with the
same outcomes in the same order.

They issue the same operations and count the same as long as no **wait of the
timer** completes with an error. `client.cc` ends the session there as it does on any
error; `co_client.cc` does not look at the error of that operation and goes on
(`count_same_iff`).
-/

namespace CcSnippets.Asio.Client

open CcSnippets.Core

variable {π : Type}

/-! ### Sessions that run -/

/-- A session, and what it has done. -/
structure Local (π : Type) where
  session : Session
  /-- The operation outstanding, and where its completion continues. -/
  pending : Option (Operation × π)
  /-- The operations started so far. -/
  issued : List Operation
  /-- How those that are complete have completed. -/
  outcomes : List Outcome
  deriving DecidableEq, Repr

/-- A session that connects; `first` follows the connect. -/
def Local.start (first : π) (port : ℕ) : Local π where
  session := .new
  pending := some (.connect port, first)
  issued := [.connect port]
  outcomes := []

/-- The operation outstanding completes: the session, and the updates made. -/
def Local.complete (react : π → Session → Option Error → Reaction π) (l : Local π)
    (o : Outcome) : Local π × List Update :=
  match l.pending with
  | none => (l, [])
  | some (op, p) =>
    let r := react p (op.deliver o l.session) o.error
    ({ session := r.session, pending := r.next, issued := l.issued ++ (r.next.map Prod.fst).toList,
       outcomes := l.outcomes ++ [o] }, r.updates)

/-- The session has met an error. -/
def Local.metError (l : Local π) : Bool := l.outcomes.any fun o => o.error.isSome

/-- The session's part in a counter. -/
def Local.weight (l : Local π) : Counter → ℕ
  | .completed => if l.outcomes ≠ [] then 1 else 0
  | .failed => if l.metError then 1 else 0
  | .connected => if l.outcomes ≠ [] ∧ l.metError = false then 1 else 0
  | .echoes => 0

/-- A client: its counters, and its sessions. -/
structure State (ι : Type*) (π : Type) where
  counters : Counters
  locals : ι → Local π

variable {ι : Type*}

def State.start (port : ι → ℕ) (first : π) : State ι π where
  counters _ := 0
  locals i := .start first (port i)

/-- The operation outstanding in session `i` completes, and its handler runs. -/
def State.complete [DecidableEq ι] (react : π → Session → Option Error → Reaction π)
    (s : State ι π) (i : ι) (o : Outcome) : State ι π where
  counters := s.counters.updates ((s.locals i).complete react o).2
  locals := Function.update s.locals i ((s.locals i).complete react o).1

/-- The two clients. -/
structure Clients (ι : Type*) where
  callback : State ι Callback.Handler
  coroutine : State ι Coroutine.Point

def Clients.start (port : ι → ℕ) : Clients ι where
  callback := .start port .handleConnect
  coroutine := .start port .connect

/-- Both clients, under the same outcomes: a step completes what session `i` has
outstanding in either. -/
def clients [DecidableEq ι] (port : ι → ℕ) : System (Clients ι) (ι × Outcome) where
  init s := s = .start port
  next s l := some
    { callback := s.callback.complete Callback.handle l.1 l.2
      coroutine := s.coroutine.complete Coroutine.resume l.1 l.2 }

/-! ### What the counters should say -/

section

variable [Fintype ι]

/-- **What the counters of a client should say**: a session that has met an error has
ended, and counts once as failed and not as connected. -/
structure State.Counted (s : State ι π) : Prop where
  ended : ∀ i, (s.locals i).metError = true → (s.locals i).pending = none
  completed : s.counters .completed =
    BitVec.ofNat 32 (Finset.univ.filter fun i => (s.locals i).outcomes ≠ []).card
  failed : s.counters .failed =
    BitVec.ofNat 32 (Finset.univ.filter fun i => (s.locals i).metError = true).card
  connected : s.counters .connected =
    BitVec.ofNat 32 (Finset.univ.filter fun i =>
      (s.locals i).outcomes ≠ [] ∧ (s.locals i).metError = false).card
  balance : s.counters .completed = s.counters .connected + s.counters .failed

/-- **The clients count the same.** -/
structure Clients.CountSame (s : Clients ι) : Prop where
  issued : ∀ i, (s.callback.locals i).issued = (s.coroutine.locals i).issued
  counters : s.callback.counters = s.coroutine.counters
  callback : s.callback.Counted
  coroutine : s.coroutine.Counted

end

/-- A wait of the timer completes with an error. -/
def WaitFails (s : Clients ι) (l : ι × Outcome) : Prop :=
  (s.callback.locals l.1).pending.map Prod.snd = some .handleWait ∧ l.2.error ≠ none

instance (s : Clients ι) (l : ι × Outcome) : Decidable (WaitFails s l) :=
  inferInstanceAs (Decidable (_ ∧ _))

/-! ### One session -/

/-- Where the coroutine is while the handler is bound. -/
def Callback.Handler.point : Callback.Handler → Coroutine.Point
  | .handleConnect => .connect
  | .handleWrite => .send
  | .handleRead => .recv
  | .handleWait => .delay

/-- The callbacks and the coroutine react alike. -/
structure Reaction.Like (r : Reaction Callback.Handler) (r' : Reaction Coroutine.Point) : Prop where
  session : r'.session = r.session
  next : r'.next = r.next.map (Prod.map id Callback.Handler.point)
  updates : ∀ k : Counters, k.updates r'.updates = k.updates r.updates

/-- **The two reactions are alike** except behind a wait that has failed. -/
theorem handle_like {h : Callback.Handler} {e : Option Error}
    (hok : ¬ (h = .handleWait ∧ e ≠ none)) (s : Session) :
    (Callback.handle h s e).Like (Coroutine.resume h.point s e) := by
  have hexit : ∀ s, (Callback.onError s).Like (Coroutine.fail s) := by
    intro s
    refine ⟨rfl, rfl, fun k => funext fun c => ?_⟩
    simp [Counters.updates_apply, Callback.onError, Coroutine.fail, BitVec.add_comm]
  cases h with
  | handleConnect => cases e <;> exact ⟨rfl, rfl, fun _ => rfl⟩
  | handleWrite | handleRead =>
    cases e with
    | none => exact ⟨rfl, rfl, fun _ => rfl⟩
    | some e => exact hexit s
  | handleWait =>
    cases e with
    | none => exact ⟨rfl, rfl, fun _ => rfl⟩
    | some e => exact absurd ⟨rfl, Option.some_ne_none e⟩ hok

/-- The same session in both clients. -/
structure Local.Like (l : Local Callback.Handler) (l' : Local Coroutine.Point) : Prop where
  session : l'.session = l.session
  pending : l'.pending = l.pending.map (Prod.map id Callback.Handler.point)
  issued : l'.issued = l.issued
  outcomes : l'.outcomes = l.outcomes

theorem Local.Like.complete {l : Local Callback.Handler} {l' : Local Coroutine.Point}
    (h : l.Like l') {o : Outcome}
    (hok : ¬ (l.pending.map Prod.snd = some .handleWait ∧ o.error ≠ none)) :
    (l.complete Callback.handle o).1.Like (l'.complete Coroutine.resume o).1 ∧
      ∀ k : Counters, k.updates (l'.complete Coroutine.resume o).2 =
        k.updates (l.complete Callback.handle o).2 := by
  unfold Local.complete
  rw [h.pending]
  cases hp : l.pending with
  | none => exact ⟨h, fun _ => rfl⟩
  | some p =>
    obtain ⟨op, handler⟩ := p
    rw [hp] at hok
    have hlike := handle_like (fun hno => hok ⟨congrArg some hno.1, hno.2⟩)
      (op.deliver o l.session)
    simp only [Option.map_some, Prod.map, id_eq]
    rw [h.session, h.issued, h.outcomes]
    refine ⟨⟨hlike.session, hlike.next, ?_, rfl⟩, hlike.updates⟩
    simp [hlike.next, Function.comp_def]

/-- What holds of every session of `client.cc`. -/
structure Local.Sound (l : Local Callback.Handler) : Prop where
  /-- It has ended exactly where it has met an error. -/
  ended : l.pending = none ↔ l.metError = true
  /-- It connects exactly until the connect is complete. -/
  connects : ∀ op h, l.pending = some (op, h) → (h = .handleConnect ↔ l.outcomes = [])

theorem sound_start (port : ℕ) : (Local.start Callback.Handler.handleConnect port).Sound where
  ended := by simp [Local.start, Local.metError]
  connects := by
    intro op h hp
    cases hp
    simp [Local.start]

/-- What the updates of a handler come to, but for `echoes`. -/
theorem handle_delta (h : Callback.Handler) (s : Session) (e : Option Error) {c : Counter}
    (hc : c ≠ .echoes) :
    ((Callback.handle h s e).updates.map (Update.delta c)).sum =
      match h, c with
      | .handleConnect, .completed => 1
      | .handleConnect, .connected => if e.isSome then 0 else 1
      | _, .connected => if e.isSome then -1 else 0
      | _, .failed => if e.isSome then 1 else 0
      | _, _ => 0 := by
  have hcheck : (s.check.map (Update.delta c)).sum = 0 := by
    unfold Session.check
    split
    · simp [Update.delta, Ne.symm hc]
    · rfl
  cases h with
  | handleRead =>
    cases e with
    | none =>
      rw [show (Callback.handle .handleRead s none).updates = s.check from rfl, hcheck]
      cases c <;> rfl
    | some _ => cases c <;> rfl
  | handleConnect | handleWrite | handleWait => cases e <;> cases c <;> rfl

theorem Local.complete_of_pending {react : π → Session → Option Error → Reaction π}
    {l : Local π} {op : Operation} {p : π} (hp : l.pending = some (op, p)) (o : Outcome) :
    l.complete react o =
      let r := react p (op.deliver o l.session) o.error
      ({ session := r.session, pending := r.next,
         issued := l.issued ++ (r.next.map Prod.fst).toList, outcomes := l.outcomes ++ [o] },
        r.updates) := by
  rw [Local.complete, hp]

theorem Local.complete_of_ended {react : π → Session → Option Error → Reaction π}
    {l : Local π} (hp : l.pending = none) (o : Outcome) : l.complete react o = (l, []) := by
  rw [Local.complete, hp]

namespace Local.Sound

variable {l : Local Callback.Handler} {op : Operation} {h : Callback.Handler}

/-- With an operation outstanding, the session has met an error afterwards only if it
does so now. -/
theorem metError_complete (hl : l.Sound) (hp : l.pending = some (op, h)) (o : Outcome) :
    l.metError = false ∧ (l.complete Callback.handle o).1.metError = o.error.isSome := by
  have hmet : l.metError = false := by
    rw [← Bool.not_eq_true, ← hl.ended, hp]
    exact Option.some_ne_none _
  refine ⟨hmet, ?_⟩
  rw [Local.complete_of_pending hp]
  show (l.outcomes ++ [o]).any _ = _
  rw [List.any_append, show l.outcomes.any _ = false from hmet]
  simp

theorem complete (hl : l.Sound) (o : Outcome) : (l.complete Callback.handle o).1.Sound := by
  cases hp : l.pending with
  | none =>
    rw [Local.complete_of_ended hp]
    exact hl
  | some p =>
    obtain ⟨op, h⟩ := p
    constructor
    · rw [(hl.metError_complete hp o).2, Local.complete_of_pending hp]
      exact Callback.handle_next_eq_none
    · rw [Local.complete_of_pending hp]
      intro op' h' hnext
      simp [Callback.handle_next_ne_connect hnext]

/-- **The updates of a handler are what its session's part in the counters moves by.** -/
theorem weight_complete (hl : l.Sound) (o : Outcome) {c : Counter} (hc : c ≠ .echoes) :
    BitVec.ofNat 32 ((l.complete Callback.handle o).1.weight c) =
      BitVec.ofNat 32 (l.weight c) +
        ((l.complete Callback.handle o).2.map (Update.delta c)).sum := by
  cases hp : l.pending with
  | none =>
    rw [Local.complete_of_ended hp]
    simp
  | some p =>
    obtain ⟨op, h⟩ := p
    obtain ⟨hbefore, hafter⟩ := hl.metError_complete hp o
    have hdelta := handle_delta h (op.deliver o l.session) o.error hc
    have hne : (l.complete Callback.handle o).1.outcomes ≠ [] := by
      rw [Local.complete_of_pending hp]
      simp
    rw [show (l.complete Callback.handle o).2 = _ from
      congrArg Prod.snd (Local.complete_of_pending hp o), hdelta]
    have hconnects := hl.connects op h hp
    cases h with
    | handleConnect =>
      have hnil : l.outcomes = [] := hconnects.mp rfl
      cases he : o.error <;> cases c <;> simp_all [Local.weight]
    | handleWrite | handleRead | handleWait =>
      have hold : l.outcomes ≠ [] := fun hnil => absurd (hconnects.mpr hnil) (by simp)
      cases he : o.error <;> cases c <;> simp_all [Local.weight]

end Local.Sound

/-- A session that has completed its connect is connected or has failed. -/
theorem Local.weight_balance (l : Local π) :
    l.weight .completed = l.weight .connected + l.weight .failed := by
  cases hm : l.metError with
  | true =>
    have hne : l.outcomes ≠ [] := by
      intro hnil
      rw [Local.metError, hnil] at hm
      cases hm
    simp [Local.weight, hm, hne]
  | false => simp [Local.weight, hm]

/-! ### Both clients -/

variable [Fintype ι]

/-- The clients are in step, and `client.cc` has counted what its sessions have done. -/
structure Clients.Linked (s : Clients ι) : Prop where
  like : ∀ i, (s.callback.locals i).Like (s.coroutine.locals i)
  counters : s.coroutine.counters = s.callback.counters
  sound : ∀ i, (s.callback.locals i).Sound
  tallied : ∀ c, c ≠ .echoes → s.callback.counters c =
    BitVec.ofNat 32 (tally (fun l => l.weight c) s.callback.locals)

theorem Local.Like.metError {l : Local Callback.Handler} {l' : Local Coroutine.Point}
    (h : l.Like l') : l'.metError = l.metError := by
  rw [Local.metError, h.outcomes, Local.metError]

namespace Clients.Linked

variable {s s' : Clients ι}

theorem start (port : ι → ℕ) : (Clients.start port).Linked where
  like _ := ⟨rfl, rfl, rfl, rfl⟩
  counters := rfl
  sound i := sound_start (port i)
  tallied c hc := by
    have hzero : tally (fun l => Local.weight l c) (Clients.start port).callback.locals = 0 :=
      tally_eq_zero.mpr fun i => by
        cases c <;> simp [Clients.start, State.start, Local.start, Local.weight, Local.metError]
    rw [hzero]
    rfl

/-- What `client.cc` has counted is told by the outcomes of its sessions. -/
theorem counted_callback (h : s.Linked) : s.callback.Counted where
  ended i := (h.sound i).ended.mpr
  completed := (h.tallied .completed (by simp)).trans (congrArg _ (tally_ite _ _))
  failed := (h.tallied .failed (by simp)).trans (congrArg _ (tally_ite _ _))
  connected := (h.tallied .connected (by simp)).trans (congrArg _ (tally_ite _ _))
  balance := by
    rw [h.tallied .completed (by simp), h.tallied .connected (by simp),
      h.tallied .failed (by simp), ← BitVec.ofNat_add, ← tally_add]
    exact congrArg _ (tally_congr fun i => Local.weight_balance _)

/-- So is what `co_client.cc` has counted. -/
theorem counted_coroutine (h : s.Linked) : s.coroutine.Counted := by
  obtain ⟨hended, hcompleted, hfailed, hconnected, hbalance⟩ := h.counted_callback
  have hmet : ∀ i, (s.coroutine.locals i).metError = (s.callback.locals i).metError :=
    fun i => (h.like i).metError
  have houtcomes : ∀ i, (s.coroutine.locals i).outcomes = (s.callback.locals i).outcomes :=
    fun i => (h.like i).outcomes
  refine ⟨fun i hi => ?_, ?_, ?_, ?_, ?_⟩
  · rw [(h.like i).pending, hended i (hmet i ▸ hi)]
    rfl
  · simpa only [h.counters, houtcomes] using hcompleted
  · simpa only [h.counters, hmet] using hfailed
  · simpa only [h.counters, houtcomes, hmet] using hconnected
  · simpa only [h.counters] using hbalance

theorem countSame (h : s.Linked) : s.CountSame where
  issued i := (h.like i).issued.symm
  counters := h.counters.symm
  callback := h.counted_callback
  coroutine := h.counted_coroutine

variable [DecidableEq ι] {port : ι → ℕ}

/-- **Step lemma.** Any outcome but the failure of a wait keeps the clients in step. -/
theorem step (h : s.Linked) {l : ι × Outcome} (hok : ¬ WaitFails s l)
    (hs : (clients port).next s l = some s') : s'.Linked := by
  obtain ⟨i, o⟩ := l
  obtain rfl := Option.some.inj hs
  obtain ⟨hlike, hupdates⟩ := (h.like i).complete hok
  refine ⟨fun j => ?_, ?_, fun j => ?_, fun c hc => ?_⟩
  · by_cases hj : j = i
    · subst hj
      simpa [State.complete] using hlike
    · simpa [State.complete, hj] using h.like j
  · show s.coroutine.counters.updates _ = s.callback.counters.updates _
    rw [h.counters, hupdates]
  · by_cases hj : j = i
    · subst hj
      simpa [State.complete] using (h.sound j).complete o
    · simpa [State.complete, hj] using h.sound j
  · show s.callback.counters.updates _ c = _
    rw [Counters.updates_apply]
    exact ofNat_tally_update (h.tallied c hc) ((h.sound i).weight_complete o hc)

/-- **The failure of a wait** ends the session of `client.cc`; that of `co_client.cc`
writes again. -/
theorem parts (h : s.Linked) {l : ι × Outcome} (hfails : WaitFails s l)
    (hs : (clients port).next s l = some s') : ¬ s'.CountSame := by
  obtain ⟨i, o⟩ := l
  obtain rfl := Option.some.inj hs
  obtain ⟨hwaits, herror⟩ := hfails
  obtain ⟨⟨op, handler⟩, hp, hhandler⟩ := Option.map_eq_some_iff.mp hwaits
  obtain rfl : handler = .handleWait := hhandler
  obtain ⟨e, he : o.error = some e⟩ := Option.ne_none_iff_exists'.mp herror
  have hp' : (s.coroutine.locals i).pending = some (op, .delay) := by
    rw [(h.like i).pending, hp]
    rfl
  intro hsame
  have hissued := hsame.issued i
  simp only [State.complete, Function.update_self, Local.complete_of_pending hp,
    Local.complete_of_pending hp', he, (h.like i).issued] at hissued
  have hlength := congrArg List.length hissued
  simp [Callback.handle, Callback.handleWait, Callback.onError, Coroutine.resume,
    Coroutine.echo] at hlength

end Clients.Linked

/-- **The two clients count the same exactly where no wait of the timer fails**: for
every number of sessions, and any outcomes of their operations in any order, they
count the same in every state if and only if no step completes a wait with an
error. -/
theorem count_same_iff [DecidableEq ι] (port : ι → ℕ) (ls : List (ι × Outcome)) :
    (clients port).EveryState Clients.CountSame (.start port) ls ↔
      (clients port).EveryStep (fun s l => ¬ WaitFails s l) (.start port) ls :=
  System.everyState_iff_everyStep_of (R := Clients.Linked) (fun _ _ _ => ⟨_, rfl⟩)
    (fun _ h => h.countSame) (fun _ _ _ h hok hs => h.step hok hs)
    (fun _ _ _ h hfails hs => h.parts (not_not.mp hfails) hs) (.start port) ls

/-- A wait that is aborted: `client.cc` counts its session as failed, `co_client.cc`
still as connected. -/
theorem wait_aborted_parts :
    ∃ s, (clients fun _ : Fin 1 => 8080).run (.start fun _ => 8080)
        [(0, ⟨none, []⟩), (0, ⟨none, []⟩), (0, ⟨none, hello⟩), (0, ⟨some .aborted, []⟩)] = some s ∧
      s.callback.counters .failed = 1 ∧ s.callback.counters .connected = 0 ∧
      (s.callback.locals 0).pending = none ∧
      s.coroutine.counters .failed = 0 ∧ s.coroutine.counters .connected = 1 ∧
      (s.coroutine.locals 0).pending = some (.write hello, .send) ∧ ¬ s.CountSame := by
  refine ⟨_, rfl, by decide, by decide, by decide, by decide, by decide, by decide, fun h => ?_⟩
  exact absurd (congrFun h.counters .failed) (by decide)

end CcSnippets.Asio.Client

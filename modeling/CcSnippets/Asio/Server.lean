import CcSnippets.Core.Family
import CcSnippets.Asio.Sessions

/-!
# CcSnippets.Asio.Server

The faithful model of a `server` of the proxy (`asio/proxy/server.cc`) and of the echo
server (`asio/echo/server.cc`), with its sessions.

* One accept is outstanding. Its handler starts a session and the next accept; after an
  error it returns, and then nothing is accepted any more.
* The sessions are any system; each makes its own steps, and time passes in each by itself,
  which allows more runs than one time for all.

The `io_context` runs as long as there is work: an accept, or something that refers to a
session. So the proxy, whose `main` waits for nothing else, **ends after a failed accept**
when the sessions have wound down, and not before (`RunsOut`).
-/

namespace CcSnippets.Asio.Server

open CcSnippets.Core

/-- Where the accept loop is. -/
inductive Accept
  | outstanding
  | completed (error : Option Error)
  /-- `handle_accept` has returned for an error. -/
  | ended
  deriving DecidableEq, Repr

structure State (σ : Type) where
  accept : Accept
  sessions : List σ

/-- What happens next. -/
inductive Label (β ι : Type)
  | acceptDone (error : Option Error)
  /-- `handle_accept` runs; a session starts from `b`. -/
  | runAccept (b : β)
  | session (i : ℕ) (l : ι)

variable {β σ ι : Type}

/-- After `start`. -/
def State.new : State σ := ⟨.outstanding, []⟩

/-- The successor of a state. -/
def next (M : System σ ι) (start : β → σ) (s : State σ) : Label β ι → Option (State σ)
  | .acceptDone error =>
    if s.accept = .outstanding then some { s with accept := .completed error } else none
  | .runAccept b =>
    match s.accept with
    | .completed none =>
      ((M.family start).next s.sessions (.add b)).map fun sessions => ⟨.outstanding, sessions⟩
    | .completed (some _) => some { s with accept := .ended }
    | _ => none
  | .session i l =>
    ((M.family start).next s.sessions (.step i l)).map fun sessions => ⟨s.accept, sessions⟩

/-- A server whose sessions are those of `M`. -/
def system (M : System σ ι) (start : β → σ) : System (State σ) (Label β ι) where
  init s := s = .new
  next := next M start

/-! ### Running out of work -/

namespace Label

/-- An accept gets on, or a session works. -/
def works (v : View σ ι) : Label β ι → Bool
  | .acceptDone _ | .runAccept _ => true
  | .session _ l => v.works l

/-- A connection is accepted. -/
def accepts : Label β ι → Bool
  | .acceptDone none => true
  | _ => false

/-- What a session receives. -/
def chunk (v : View σ ι) : Label β ι → Option Chunk
  | .session _ l => v.chunk l
  | _ => none

end Label

/-- How much the `io_context` has to wait for. -/
def State.work (v : View σ ι) (s : State σ) : ℕ :=
  (if s.accept = .ended then 0 else 1) + (s.sessions.map v.refs).sum

/-- What a step pays for: a chunk, or the `first` steps of a session and its accept. -/
def price (v : View σ ι) (first each : ℕ) : Label β ι → ℕ
  | .acceptDone none => first + 2
  | .session _ l => v.price each l
  | _ => 0

/-- What it means that a server **runs out of work**. -/
structure RunsOut (M : System σ ι) (start : β → σ) (v : View σ ι) (clock : Clock ℤ)
    (first each : ℕ) : Prop where
  /-- Each session is one of `M`. -/
  single : ∀ s, (system M start).Reachable s → ∀ t ∈ s.sessions, M.Reachable t
  /-- No more is done than what is accepted and received pays for. -/
  few : ∀ ls t, (system M start).run .new ls = some t →
    ls.countP (Label.works v) ≤ 2 + System.paid (price v first each) ls
  /-- There is work until an accept has failed. -/
  busy : ∀ ls t, (system M start).run .new ls = some t → t.work v = 0 →
    ∃ error, .acceptDone (some error) ∈ ls
  /-- After that nothing is accepted. -/
  finished : ∀ s, s.accept = .ended → ∀ ls t, (system M start).run s ls = some t →
    t.accept = .ended ∧ t.sessions.length = s.sessions.length
  /-- Where there is work, more can come once time has passed, even if nothing is accepted or
  received. -/
  goesOn : (∀ t, ∃ n, t ≤ clock.read n) → ∀ s, (system M start).Reachable s → s.work v ≠ 0 →
    ∃ ls l s', l.works v = true ∧ l.accepts = false ∧ l.chunk v = none ∧
      (∀ k ∈ ls, k.works v = false) ∧ (system M start).run s (ls ++ [l]) = some s'
  /-- If nothing more is accepted or received from some moment on, and more comes wherever it
  can, then there is no work left in the end. -/
  returns : ∀ s, (system M start).Reachable s → ∀ e : (system M start).Execution s,
    (∃ k, ∀ n, k ≤ n → (e.label n).accepts = false ∧ (e.label n).chunk v = none) →
    (∀ n, (e.state n).work v ≠ 0 → ∃ m, n ≤ m ∧ (e.label m).works v = true) →
    ∃ n, (e.state n).work v = 0

/-! ### Steps -/

/-- How many steps the accept loop is good for while nothing is accepted. -/
def Accept.left (first : ℕ) : Accept → ℕ
  | .outstanding => 2
  | .completed none => first + 3
  | .completed (some _) => 1
  | .ended => 0

/-- How many steps are left in the accept loop and the sessions. -/
def State.left (first : ℕ) (μ : σ → ℕ) (s : State σ) : ℕ :=
  s.accept.left first + (s.sessions.map μ).sum

/-- What a step brings. -/
def credit (v : View σ ι) (first each : ℕ) (l : Label β ι) : ℕ :=
  price v first each l + (!l.works v).toNat

variable {M : System σ ι} {start : β → σ} {v : View σ ι} {first each : ℕ}

/-- A step of a server, with its guard and its effect. -/
inductive Step (M : System σ ι) (start : β → σ) (s : State σ) : Label β ι → State σ → Prop
  | acceptDone {error : Option Error} :
      s.accept = .outstanding →
      Step M start s (.acceptDone error) { s with accept := .completed error }
  | runAccept {b : β} {sessions : List σ} :
      s.accept = .completed none → (M.family start).next s.sessions (.add b) = some sessions →
      Step M start s (.runAccept b) ⟨.outstanding, sessions⟩
  | acceptFails {b : β} {error : Error} :
      s.accept = .completed (some error) →
      Step M start s (.runAccept b) { s with accept := .ended }
  | session {i : ℕ} {l : ι} {sessions : List σ} :
      (M.family start).next s.sessions (.step i l) = some sessions →
      Step M start s (.session i l) ⟨s.accept, sessions⟩

theorem next_step {s s' : State σ} {l : Label β ι} (h : next M start s l = some s') :
    Step M start s l s' := by
  cases l with
  | acceptDone error =>
    simp only [next] at h
    split at h
    · rename_i haccept
      obtain rfl := Option.some.inj h
      exact .acceptDone haccept
    · cases h
  | runAccept b =>
    simp only [next] at h
    split at h
    · rename_i haccept
      obtain ⟨sessions, hnext, rfl⟩ := Option.map_eq_some_iff.mp h
      exact .runAccept haccept hnext
    · rename_i error haccept
      obtain rfl := Option.some.inj h
      exact .acceptFails haccept
    · cases h
  | session i l =>
    obtain ⟨sessions, hnext, rfl⟩ := Option.map_eq_some_iff.mp h
    exact .session hnext

/-- What every start and every step of a session keeps, the sessions of a server keep. -/
theorem forall_mem_next {I : σ → Prop} (hstart : ∀ b, I (start b))
    (hstep : ∀ {s s' : σ} {l : ι}, I s → M.next s l = some s' → I s') {s s' : State σ}
    {l : Label β ι} (hI : ∀ t ∈ s.sessions, I t) (hs : next M start s l = some s') :
    ∀ t ∈ s'.sessions, I t := by
  cases next_step hs with
  | acceptDone _ | acceptFails _ => exact hI
  | runAccept _ hnext | session hnext => exact System.forall_mem_family_next hstart hstep hI hnext

/-- **The steps of a server are paid for** where those of its sessions are. -/
theorem amortised {I : σ → Prop} {μ : σ → ℕ} (h : M.Amortised I (v.credit each) μ)
    (hstart : ∀ b, I (start b) ∧ μ (start b) ≤ first) :
    (system M start).Amortised (fun s => ∀ t ∈ s.sessions, I t) (credit v first each)
      (State.left first μ) where
  keeps hI hs := forall_mem_next (fun b => (hstart b).1) h.keeps hI hs
  pays := by
    intro s s' l hI hs
    cases next_step hs with
    | @acceptDone error haccept =>
      cases error <;>
        simp only [State.left, haccept, Accept.left, credit, price, Label.works] <;> omega
    | runAccept haccept hnext =>
      have hpays := (h.family hstart).pays hI hnext
      simp only [System.familyCredit] at hpays
      simp only [State.left, haccept, Accept.left, credit, price, Label.works]
      omega
    | acceptFails haccept =>
      simp only [State.left, haccept, Accept.left, credit, price, Label.works]
      omega
    | session hnext =>
      have hpays := (h.family hstart).pays hI hnext
      simp only [System.familyCredit, View.credit] at hpays
      simp only [State.left, credit, price, Label.works]
      omega

/-- Once the accept loop has ended, nothing is accepted. -/
theorem ended_next {s s' : State σ} {l : Label β ι} (h : s.accept = .ended)
    (hs : next M start s l = some s') :
    s'.accept = .ended ∧ s'.sessions.length = s.sessions.length := by
  cases next_step hs with
  | acceptDone haccept | runAccept haccept _ | acceptFails haccept =>
    rw [h] at haccept
    cases haccept
  | session hnext =>
    obtain ⟨before, t, after, t', -, hold, -, rfl⟩ := System.family_next_step hnext
    refine ⟨h, ?_⟩
    rw [hold]
    simp

/-- The accept loop ends for an error only. -/
theorem exists_error {s s' : State σ} {ls : List (Label β ι)}
    (hs : ∀ error, s.accept ≠ .completed (some error)) (hnot : s.accept ≠ .ended)
    (hrun : (system M start).run s ls = some s') (hended : s'.accept = .ended) :
    ∃ error, .acceptDone (some error) ∈ ls := by
  induction ls generalizing s with
  | nil =>
    obtain rfl : s = s' := Option.some.inj hrun
    exact absurd hended hnot
  | cons l ls ih =>
    obtain ⟨m, hm, hrest⟩ := System.run_cons_eq_some.mp hrun
    have hlater : (∀ error, m.accept ≠ .completed (some error)) → m.accept ≠ .ended →
        ∃ error, .acceptDone (some error) ∈ l :: ls := by
      intro hmerror hmnot
      obtain ⟨error, hmem⟩ := ih hmerror hmnot hrest
      exact ⟨error, List.mem_cons_of_mem l hmem⟩
    cases next_step hm with
    | @acceptDone error _ =>
      cases error with
      | some e => exact ⟨e, List.mem_cons_self⟩
      | none => exact hlater nofun nofun
    | runAccept _ _ => exact hlater nofun nofun
    | @acceptFails _ error haccept => exact absurd haccept (hs error)
    | session _ => exact hlater hs hnot

variable (start) in
/-- A run of one session is a run of the server. -/
theorem session_run {s s' : σ} {ls : List ι} (h : M.run s ls = some s') (accept : Accept)
    (before after : List σ) :
    (system M start).run ⟨accept, before ++ s :: after⟩ (ls.map (.session before.length)) =
      some ⟨accept, before ++ s' :: after⟩ := by
  induction ls generalizing s with
  | nil =>
    obtain rfl : s = s' := Option.some.inj h
    rfl
  | cons l ls ih =>
    obtain ⟨m, hm, hrest⟩ := System.run_cons_eq_some.mp h
    refine System.run_cons_eq_some.mpr ⟨⟨accept, before ++ m :: after⟩, ?_, ih hrest⟩
    show ((M.family start).next (before ++ s :: after) (.step before.length l)).map _ = _
    rw [System.family_next_of_next hm]
    rfl

/-- Each session of a reachable server is reachable by itself. -/
theorem reachable_of_mem {s : State σ} (hinit : ∀ b, M.init (start b))
    (h : (system M start).Reachable s) : ∀ t ∈ s.sessions, M.Reachable t := by
  refine h.invariant (I := fun s => ∀ t ∈ s.sessions, M.Reachable t) (fun s h0 => ?_)
    fun s l s' _ hI _ hs => forall_mem_next (fun b => .init (hinit b))
      (fun hr hnext => .step hr trivial hnext) hI hs
  rw [show s = .new from h0]
  nofun

variable (start) in
/-- The accept loop can go on without accepting anything, by failing. -/
theorem exists_accept_step [Inhabited β] {s : State σ} (h : s.accept ≠ .ended) :
    ∃ (l : Label β ι) (s' : State σ), l.works v = true ∧ l.accepts = false ∧ l.chunk v = none ∧
      next M start s l = some s' := by
  obtain ⟨accept, sessions⟩ := s
  cases accept with
  | outstanding => exact ⟨.acceptDone (some .aborted), _, rfl, rfl, rfl, rfl⟩
  | completed error => cases error <;> exact ⟨.runAccept default, _, rfl, rfl, rfl, rfl⟩
  | ended => exact absurd rfl h

/-- Once the accept loop has ended, the work is that of a session. -/
theorem exists_session_of_work {s : State σ} (hended : s.accept = .ended) (hwork : s.work v ≠ 0) :
    ∃ t ∈ s.sessions, v.refs t ≠ 0 := by
  by_contra hnone
  push Not at hnone
  refine hwork ?_
  rw [State.work, if_pos hended, Nat.zero_add]
  refine List.sum_eq_zero fun n hn => ?_
  obtain ⟨t, hmem, rfl⟩ := List.mem_map.mp hn
  exact hnone t hmem

/-- Where there is work, more can come: from the accept loop, or from a session. -/
theorem exists_works [Inhabited β] {clock : Clock ℤ} (hwinds : WindsDown M v clock first each)
    (helapse : v.works v.elapse = false) (hclock : ∀ t, ∃ n, t ≤ clock.read n) {s : State σ}
    (hsingle : ∀ t ∈ s.sessions, M.Reachable t) (hwork : s.work v ≠ 0) :
    ∃ ls l s', l.works v = true ∧ l.accepts = false ∧ l.chunk v = none ∧
      (∀ k ∈ ls, k.works v = false) ∧ (system M start).run s (ls ++ [l]) = some s' := by
  by_cases hended : s.accept = .ended
  · obtain ⟨t, hmem, ht⟩ := exists_session_of_work hended hwork
    obtain ⟨accept, sessions⟩ := s
    obtain ⟨before, after, rfl⟩ := List.append_of_mem hmem
    obtain ⟨n, l, t', hl, hchunk, hrun⟩ := hwinds.goesOn hclock t (hsingle t hmem) ht
    refine ⟨List.replicate n (.session before.length v.elapse), .session before.length l,
      ⟨accept, before ++ t' :: after⟩, hl, rfl, hchunk, fun k hk => ?_, ?_⟩
    · rw [List.eq_of_mem_replicate hk]
      exact helapse
    · have hlifted := session_run start hrun accept before after
      rwa [List.map_append, List.map_replicate] at hlifted
  · obtain ⟨l, s', hl, haccepts, hchunk, hnext⟩ :=
      exists_accept_step (M := M) (v := v) start hended
    exact ⟨[], l, s', hl, haccepts, hchunk, nofun, System.run_cons_eq_some.mpr ⟨s', hnext, rfl⟩⟩

/-- A step that works costs one more than it brings. -/
theorem credit_add_works (l : Label β ι) :
    credit v first each l + (l.works v).toNat = price v first each l + 1 := by
  cases hl : l.works v <;> simp [credit, hl]

/-- A step is paid for by what it accepts or receives only. -/
theorem price_of_quiet {l : Label β ι} (haccepts : l.accepts = false) (hchunk : l.chunk v = none) :
    price v first each l = 0 := by
  cases l with
  | acceptDone error =>
    cases error with
    | none => cases haccepts
    | some e => rfl
  | runAccept b => rfl
  | session i l =>
    rw [price, View.price, show v.chunk l = none from hchunk]

/-- **A server runs out of work** where its sessions wind down. -/
theorem runsOut [Inhabited β] {I : σ → Prop} {μ : σ → ℕ} {clock : Clock ℤ}
    (h : M.Amortised I (v.credit each) μ) (hwinds : WindsDown M v clock first each)
    (hstart : ∀ b, M.init (start b) ∧ I (start b) ∧ μ (start b) ≤ first)
    (helapse : v.works v.elapse = false) : RunsOut M start v clock first each := by
  have hpaid := amortised h fun b => (hstart b).2
  have hsingle : ∀ s, (system M start).Reachable s → ∀ t ∈ s.sessions, M.Reachable t :=
    fun s hs => reachable_of_mem (fun b => (hstart b).1) hs
  refine ⟨hsingle, fun ls t hrun => ?_, fun ls t hrun hwork => ?_, fun s hended ls t hrun => ?_,
    fun hclock s hs hwork => exists_works hwinds helapse hclock (hsingle s hs) hwork,
    fun s hs e hquiet hfair => ?_⟩
  · have hcount := hpaid.count_le (Label.works v) (price v first each)
      (fun l => by rw [credit_add_works, Nat.add_comm]) (List.forall_mem_nil _) hrun
    simp only [State.left, State.new, Accept.left, List.map_nil, List.sum_nil] at hcount
    omega
  · refine exists_error (s := .new) (by simp [State.new]) (by simp [State.new]) hrun ?_
    by_contra hnot
    simp only [State.work, if_neg hnot] at hwork
    omega
  · refine System.run_invariant (I := fun t => t.accept = .ended ∧
      t.sessions.length = s.sessions.length) (fun m l m' hm hnext => ?_) ⟨hended, rfl⟩ hrun
    obtain ⟨hended', hlength⟩ := ended_next hm.1 hnext
    exact ⟨hended', hlength.trans hm.2⟩
  · obtain ⟨k, hk⟩ := hquiet
    have hI : ∀ t ∈ s.sessions, I t := by
      refine hs.invariant (I := fun s => ∀ t ∈ s.sessions, I t) (fun s h0 => ?_)
        fun _ _ _ _ hI _ hnext => hpaid.keeps hI hnext
      rw [show s = .new from h0]
      nofun
    refine hpaid.exists_done (Label.works v) (fun t => t.work v = 0) hI e (k := k)
      (fun n hn => ?_) hfair
    obtain ⟨haccepts, hchunk⟩ := hk n hn
    rw [credit_add_works, price_of_quiet haccepts hchunk]

/-- A buffer of zeros, where what is in it does not matter. -/
instance : Inhabited Buffer := ⟨.zero⟩

/-- **The servers of the proxy and of `echo/server.cc` run out of work** after a failed accept,
and not before. -/
theorem servers_run_out (clock : Clock ℤ) (timeout : ℤ) :
    RunsOut (Proxy.system clock timeout) Proxy.State.start Proxy.view clock 14 8 ∧
      RunsOut (Echo.system clock timeout false)
        (fun buffer => (Echo.State.new false buffer).start clock timeout) Echo.view clock 4 8 := by
  constructor
  · refine runsOut (Proxy.amortised_system clock timeout) (Proxy.windsDown_system clock timeout)
      (fun buffer => ⟨⟨buffer, rfl⟩, ?_⟩) rfl
    exact ⟨.init ⟨buffer, rfl⟩, Proxy.owed_start buffer⟩
  · refine runsOut (Echo.amortised_system clock timeout false)
      (Echo.windsDown_system clock timeout false) (fun buffer => ⟨⟨buffer, rfl⟩, ?_⟩) rfl
    exact (Echo.left_start false buffer).symm

end CcSnippets.Asio.Server

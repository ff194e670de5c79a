import CcSnippets.Asio.Proxy.Relay

/-!
# CcSnippets.Asio.Proxy.Watched

The two watchdogs of a proxy session are **watches** (`Core.Watch`), each over the
operations of its direction: until `stop` has run, a watchdog that was started has
exactly one wait, pending or completed, and never wakes later than its deadline.
-/

namespace CcSnippets.Asio.Proxy

open CcSnippets.Core

variable {clock : Clock ℤ} {timeout : ℤ} {s s' : State}

/-- When the operation of `d` was started that the event records. -/
def Event.startOf (d : Side) : Event → Option ℤ
  | .started e t => if e = d then some t else none
  | _ => none

/-- The watchdog of a direction, as a watch over its operations. -/
def State.watch (clock : Clock ℤ) (s : State) (d : Side) : Watch ℤ where
  now := clock.read s.instant
  deadline := (s.watchdog d).deadline
  timer := (s.watchdog d).timer
  woken := (s.waits d).map Option.isNone
  starts := s.log.filterMap (Event.startOf d)
  ended := s.stopped

/-- A watchdog that expires after a start of its direction does so at least the
timeout later. -/
def Event.Patient (timeout : ℤ) (a b : Event) : Prop :=
  ∀ d u t, a = .started d u → b = .expired d t → u + timeout ≤ t

/-- Both watchdogs are kept from their start on. -/
structure Kept (clock : Clock ℤ) (timeout : ℤ) (s : State) : Prop where
  watches : ∀ d, (s.watch clock d).Sound timeout (s.begun d).toNat
  patient : s.log.Pairwise (Event.Patient timeout)

theorem mem_starts {d : Side} {u : ℤ} :
    u ∈ (s.watch clock d).starts ↔ .started d u ∈ s.log := by
  show u ∈ s.log.filterMap (Event.startOf d) ↔ _
  rw [List.mem_filterMap]
  constructor
  · intro h
    obtain ⟨e, he, hu⟩ := h
    cases e with
    | started e t =>
      simp only [Event.startOf] at hu
      split at hu
      · rename_i hed
        obtain rfl := Option.some.inj hu
        exact hed ▸ he
      · cases hu
    | receiveFailed _ _ | writeFailed _ _ | expired _ _ => cases hu
  · intro h
    exact ⟨_, h, by simp only [Event.startOf, if_true]⟩

/-- An event that is not the expiry of a watchdog may follow any other. -/
theorem patient_concat {log : List Event} {e : Event} (h : log.Pairwise (Event.Patient timeout))
    (he : ∀ d t, e ≠ .expired d t) : (log ++ [e]).Pairwise (Event.Patient timeout) := by
  refine List.pairwise_append.mpr ⟨h, List.pairwise_singleton _ _, fun a _ b hb => ?_⟩
  intro d u t _ hexpired
  exact absurd ((List.mem_singleton.mp hb).symm.trans hexpired) (he d t)

theorem begun_startWatchdog (s : State) (d : Side) :
    (s.startWatchdog clock d).begun = Function.update s.begun d true := by
  simp only [State.startWatchdog]
  split <;> rfl

theorem log_subset_startWatchdog (s : State) (d : Side) :
    s.log ⊆ (s.startWatchdog clock d).log := by
  simp only [State.startWatchdog]
  split
  · exact List.subset_append_left _ _
  · exact List.Subset.refl _

namespace Kept

/-- A step that no watchdog notices. -/
theorem of_same (h : Kept clock timeout s) (hbegun : s'.begun = s.begun)
    (hwatch : ∀ d, s'.watch clock d = s.watch clock d)
    (hpatient : s'.log.Pairwise (Event.Patient timeout)) : Kept clock timeout s' where
  watches d := by
    rw [hwatch, hbegun]
    exact h.watches d
  patient := hpatient

/-- The session stops. -/
theorem stop (h : ∀ d, ∃ n, (s.watch clock d).Sound timeout n)
    (hpatient : s.log.Pairwise (Event.Patient timeout)) : Kept clock timeout s.stop where
  watches d := by
    obtain ⟨n, hn⟩ := h d
    exact hn.finish _ _ _
  patient := hpatient

/-- Time passes. -/
theorem elapse (h : Kept clock timeout s) :
    Kept clock timeout { s with instant := s.instant + 1 } where
  watches d := (h.watches d).later (clock.mono (Nat.le_succ _))
  patient := h.patient

/-- An operation is started, and the watchdog of its direction moved. -/
theorem start (h : Kept clock timeout s) (d : Side) (op : Operation) :
    Kept clock timeout ((s.asyncStart clock d op).delay clock timeout d) where
  watches e := by
    have hlater : clock.read s.instant ≤ clock.read (s.instant + 1 + 1) :=
      clock.mono (Nat.le_add_right s.instant 2)
    by_cases hed : e = d
    · subst hed
      have hstart := (h.watches e).start (le_refl _) (clock.mono (Nat.le_succ s.instant))
        (clock.mono (Nat.le_succ (s.instant + 1)))
      have hwatch : ((s.asyncStart clock e op).delay clock timeout e).watch clock e =
          { s.watch clock e with
            now := clock.read (s.instant + 1 + 1)
            deadline := clock.read (s.instant + 1) + timeout
            starts := (s.watch clock e).starts ++ [clock.read s.instant] } := by
        simp only [State.watch, State.delay, State.asyncStart, Function.update_self,
          Watchdog.delay, List.filterMap_append, List.filterMap_cons, List.filterMap_nil,
          Event.startOf, if_true]
      rw [hwatch]
      exact hstart
    · have hwatch : ((s.asyncStart clock d op).delay clock timeout d).watch clock e =
          { s.watch clock e with now := clock.read (s.instant + 1 + 1) } := by
        simp only [State.watch, State.delay, State.asyncStart, Function.update_of_ne hed,
          List.filterMap_append, List.filterMap_cons, List.filterMap_nil, Event.startOf,
          if_neg (Ne.symm hed), List.append_nil]
      rw [hwatch]
      exact (h.watches e).later hlater
  patient := patient_concat h.patient fun _ _ => by simp

/-- The watchdog of `d` is started, or started again after its wait. -/
theorem startWatchdog {d : Side} (hd : (s.watch clock d).Sound timeout 0)
    (hstarts : s.stopped = false → (s.watch clock d).starts ≠ [])
    (hothers : ∀ e, e ≠ d → (s.watch clock e).Sound timeout (s.begun e).toNat)
    (hpatient : s.log.Pairwise (Event.Patient timeout)) :
    Kept clock timeout (s.startWatchdog clock d) := by
  have hlater : clock.read s.instant ≤ clock.read (s.instant + 1) :=
    clock.mono (Nat.le_succ s.instant)
  simp only [State.startWatchdog]
  split
  · rename_i hnone
    have hdue : (s.watchdog d).deadline ≤ clock.read s.instant := Watchdog.start_eq_none.mp hnone
    refine Kept.stop (fun e => ?_) ?_
    · have hwatch : State.watch clock { s with
          instant := s.instant + 1
          begun := Function.update s.begun d true
          log := s.log ++ [.expired d (clock.read s.instant)] } e =
          { s.watch clock e with now := clock.read (s.instant + 1) } := by
        simp only [State.watch, List.filterMap_append, List.filterMap_cons, List.filterMap_nil,
          Event.startOf, List.append_nil]
      rw [hwatch]
      by_cases hed : e = d
      · rw [hed]
        exact ⟨0, hd.later hlater⟩
      · exact ⟨_, (hothers e hed).later hlater⟩
    · refine List.pairwise_append.mpr ⟨hpatient, List.pairwise_singleton _ _, fun a ha b hb => ?_⟩
      intro e u t hstarted hexpired
      obtain ⟨rfl, rfl⟩ := Event.expired.inj ((List.mem_singleton.mp hb).symm.trans hexpired)
      exact hd.patient hdue (mem_starts.mpr (hstarted ▸ ha))
  · rename_i watchdog aborted hsome
    obtain ⟨rfl, rfl⟩ := Watchdog.start_eq_some hsome
    refine ⟨fun e => ?_, hpatient⟩
    by_cases hed : e = d
    · subst hed
      have harmed := (hd.arm hstarts).later hlater
      simp only [State.watch, Function.update_self, Bool.toNat_true, List.map_append,
        List.map_replicate, Option.isNone_some]
      exact harmed
    · simp only [State.watch, Function.update_of_ne hed]
      exact (hothers e hed).later hlater

/-- `start_watchdogs`, after the start of an operation in each direction. -/
theorem startWatchdogs (h : Kept clock timeout s) (hbegun : ∀ d, s.begun d = false)
    (hstarts : ∀ d, (s.watch clock d).starts ≠ []) :
    Kept clock timeout (s.startWatchdogs clock) := by
  have hzero : ∀ d, (s.watch clock d).Sound timeout 0 := by
    intro d
    have hd := h.watches d
    rwa [hbegun d] at hd
  have hfirst : Kept clock timeout (s.startWatchdog clock .client) :=
    Kept.startWatchdog (hzero .client) (fun _ => hstarts .client) (fun e _ => h.watches e)
      h.patient
  have hsecond := hfirst.watches .server
  rw [begun_startWatchdog, Function.update_of_ne (by decide), hbegun] at hsecond
  refine Kept.startWatchdog hsecond (fun _ => ?_) (fun e _ => hfirst.watches e) hfirst.patient
  obtain ⟨u, hu⟩ := List.exists_mem_of_ne_nil _ (hstarts .server)
  exact List.ne_nil_of_mem (mem_starts.mpr (log_subset_startWatchdog s .client
    (mem_starts.mp hu)))

/-- A wait of the watchdog of `d` completes. -/
theorem waitDone (h : Kept clock timeout s) {d : Side} {timer : Timer ℤ}
    (htimer : (s.watchdog d).timer.complete (clock.read s.instant) = some timer) :
    Kept clock timeout { s with
      watchdog := Function.update s.watchdog d { s.watchdog d with timer := timer }
      waits := Function.update s.waits d (s.waits d ++ [none]) } where
  watches e := by
    by_cases hed : e = d
    · subst hed
      have hwoken := (h.watches e).wake htimer
      simp only [State.watch, Function.update_self, List.map_append, List.map_cons, List.map_nil,
        Option.isNone_none]
      exact hwoken
    · simp only [State.watch, Function.update_of_ne hed]
      exact h.watches e
  patient := h.patient

end Kept

/-- Both watchdogs are kept, and neither is started before the connect is handled. -/
structure Watched (clock : Clock ℤ) (timeout : ℤ) (s : State) : Prop extends
    Kept clock timeout s where
  before : s.connect ≠ .handled → s.stopped = false ∧ ∀ d, s.begun d = false

theorem watched_start (buffer : Side → Buffer) : Watched clock timeout (.start buffer) where
  watches _ := .fresh rfl rfl rfl
  patient := .nil
  before _ := ⟨rfl, fun _ => rfl⟩

namespace Watched

/-- Where a wait has completed the watchdog has been started, or the session stopped. -/
theorem begun_of_wait (h : Watched clock timeout s) {d : Side} {i : ℕ} {error : Option Error}
    (hwait : (s.waits d)[i]? = some error) (hnot : s.stopped = false) : s.begun d = true := by
  obtain ⟨hlt, -⟩ := List.getElem?_eq_some_iff.mp hwait
  have hwoken : (s.watch clock d).woken.length = (s.waits d).length := List.length_map _
  cases hb : s.begun d with
  | true => rfl
  | false =>
    have hcount := (h.watches d).count hnot
    rw [hb, hwoken] at hcount
    exact absurd hcount (by simp only [Bool.toNat_false]; omega)

/-- The handler of a wait of the watchdog of `d` runs. -/
theorem handleWait (h : Watched clock timeout s) {d : Side} {i : ℕ} {error : Option Error}
    (hwait : (s.waits d)[i]? = some error) :
    Watched clock timeout ((s.dequeueWait d i).handleWait clock d error) := by
  obtain ⟨before, after, hwaits, herase⟩ := exists_eraseIdx hwait
  have hwoken : (s.watch clock d).woken =
      before.map Option.isNone ++ error.isNone :: after.map Option.isNone := by
    show (s.waits d).map Option.isNone = _
    rw [hwaits, List.map_append, List.map_cons]
  have hbegun : s.stopped = false → s.begun d = true := h.begun_of_wait hwait
  have hhandled : s.connect = .handled := by
    by_contra hnot
    obtain ⟨hstopped, hnone⟩ := h.before hnot
    exact absurd (hbegun hstopped) (by rw [hnone d]; simp)
  have hone : (s.watch clock d).Sound timeout 1 := by
    cases hstopped : s.stopped with
    | true => exact (h.watches d).of_ended hstopped 1
    | false =>
      have hd := h.watches d
      rwa [hbegun hstopped] at hd
  have hzero := hone.take hwoken
  have hwatch : (s.dequeueWait d i).watch clock d =
      { s.watch clock d with
        woken := before.map Option.isNone ++ after.map Option.isNone } := by
    simp only [State.watch, State.dequeueWait, Function.update_self, herase, List.map_append]
  have hothers : ∀ e, e ≠ d → (s.dequeueWait d i).watch clock e = s.watch clock e := by
    intro e hed
    simp only [State.watch, State.dequeueWait, Function.update_of_ne hed]
  rw [← hwatch] at hzero
  cases error with
  | some e =>
    have hended : s.stopped = true := (h.watches d).ended_of_aborted (by
      rw [hwoken]
      exact List.mem_append_right _ List.mem_cons_self)
    refine ⟨⟨fun e => ?_, h.patient⟩, fun hnot => absurd hhandled hnot⟩
    by_cases hed : e = d
    · rw [hed]
      exact hzero.of_ended hended _
    · show ((s.dequeueWait d i).watch clock e).Sound timeout _
      rw [hothers e hed]
      exact h.watches e
  | none =>
    have hconnect : ((s.dequeueWait d i).startWatchdog clock d).connect = .handled :=
      (connect_startWatchdog _ d).trans hhandled
    refine ⟨Kept.startWatchdog hzero (fun hnot => hone.started hnot Nat.one_pos)
      (fun e hed => ?_) h.patient, fun hnot => absurd hconnect hnot⟩
    rw [hothers e hed]
    exact h.watches e

/-- The handler of the connect starts both watchdogs, each after an operation of its
direction. -/
theorem handleConnect (h : Watched clock timeout s) (hnot : s.connect ≠ .handled)
    (error : Option Error) :
    Watched clock timeout ({ s with connect := .handled }.handleConnect clock timeout error) := by
  obtain ⟨-, hnone⟩ := h.before hnot
  have hkept : Kept clock timeout { s with connect := .handled } := ⟨h.watches, h.patient⟩
  cases error with
  | some e => exact ⟨hkept, fun habsurd => absurd rfl habsurd⟩
  | none =>
    have hreceiving : Kept clock timeout
        (({ s with connect := .handled }.receiveFromClient clock timeout).receiveFromServer clock
          timeout) :=
      (hkept.start .client (.receive .client .client)).start .server (.receive .server .server)
    -- each direction has started its receive
    have hstarts : ∀ d, ((({ s with connect := .handled }.receiveFromClient clock
        timeout).receiveFromServer clock timeout).watch clock d).starts ≠ [] := by
      intro d
      cases d with
      | client =>
        exact List.ne_nil_of_mem (mem_starts.mpr
          (List.mem_append_left _ (List.mem_append_right _ List.mem_cons_self)))
      | server =>
        exact List.ne_nil_of_mem (mem_starts.mpr (List.mem_append_right _ List.mem_cons_self))
    have hbegun : (({ s with connect := .handled }.receiveFromClient clock
        timeout).receiveFromServer clock timeout).begun = s.begun := rfl
    have hconnect : (({ s with connect := .handled }.receiveFromClient clock
        timeout).receiveFromServer clock timeout).connect = .handled := rfl
    exact ⟨hreceiving.startWatchdogs (fun d => by rw [hbegun, hnone d]) hstarts,
      fun habsurd => absurd ((connect_startWatchdogs _).trans hconnect) habsurd⟩

/-- A step that starts no watchdog and does not stop. -/
theorem of_kept (h : Watched clock timeout s) (hkept : Kept clock timeout s')
    (hconnect : s.connect = .handled → s'.connect = .handled) (hstopped : s'.stopped = s.stopped)
    (hbegun : s'.begun = s.begun) : Watched clock timeout s' where
  toKept := hkept
  before hnot := by
    rw [hstopped, hbegun]
    exact h.before fun hhandled => hnot (hconnect hhandled)

/-- A step that no watchdog notices, after which the log says no more about them. -/
theorem of_same (h : Watched clock timeout s)
    (hconnect : s.connect = .handled → s'.connect = .handled) (hstopped : s'.stopped = s.stopped)
    (hbegun : s'.begun = s.begun) (hwatch : ∀ d, s'.watch clock d = s.watch clock d)
    (hpatient : s'.log.Pairwise (Event.Patient timeout)) : Watched clock timeout s' :=
  h.of_kept (h.toKept.of_same hbegun hwatch hpatient) hconnect hstopped hbegun

/-- A failure of an operation. -/
theorem fails (h : Watched clock timeout s) (socket : Side) {e : Event}
    (hexpired : ∀ d t, e ≠ .expired d t) (hstarted : ∀ d t, e ≠ .started d t) :
    Watched clock timeout (s.fails socket e) := by
  unfold State.fails
  split
  · refine h.of_same id rfl rfl (fun d => ?_) (patient_concat h.patient hexpired)
    have hnone : Event.startOf d e = none := by
      cases e with
      | started d t => exact absurd rfl (hstarted d t)
      | _ => rfl
    simp only [State.watch, List.filterMap_append, List.filterMap_cons, hnone,
      List.filterMap_nil, List.append_nil]
  · exact h

/-- The handler of a completion runs. -/
theorem handle (h : Watched clock timeout s) {d : Side} (i : ℕ) (c : Completion)
    (hhandled : s.connect = .handled) :
    Watched clock timeout ((s.dequeue d i).handle clock timeout d c) := by
  have hdequeued : Kept clock timeout (s.dequeue d i) :=
    h.toKept.of_same rfl (fun _ => rfl) h.patient
  have hbefore {n : State} (hn : n.connect = s.connect) (hnot : n.connect ≠ .handled) :
      n.stopped = false ∧ ∀ d, n.begun d = false := absurd (hn.trans hhandled) hnot
  rcases handle_cases (s.dequeue d i) d c with ⟨-, heq⟩ | ⟨n, rfl, heq⟩ | ⟨n, rfl, heq⟩
  · rw [heq]
    exact ⟨Kept.stop (fun e => ⟨_, hdequeued.watches e⟩) h.patient, hbefore rfl⟩
  · rw [heq]
    exact ⟨hdequeued.start d _, hbefore rfl⟩
  · rw [heq]
    exact ⟨hdequeued.start d _, hbefore rfl⟩

end Watched

/-- **Every step keeps the watchdogs.** -/
theorem watched_next {l : Label} (h : Watched clock timeout s) (hr : Relays s)
    (hs : s.next clock timeout l = some s') : Watched clock timeout s' := by
  have hcompleted (d : Side) (i : ℕ) (c : Completion) : Watched clock timeout (s.complete d i c) :=
    h.of_same id rfl rfl (fun _ => rfl) h.patient
  cases next_step hs with
  | elapse => exact h.of_kept h.toKept.elapse id rfl rfl
  | connectDone hout =>
    refine h.of_same (fun hhandled => ?_) rfl rfl (fun _ => rfl) h.patient
    rw [hout] at hhandled
    cases hhandled
  | receiveDone _ _ | writeSome _ _ _ _ =>
    exact h.of_same id rfl rfl (fun _ => rfl) h.patient
  | writeDone _ => exact hcompleted _ _ _
  | receiveFails _ | writeFails _ =>
    exact (hcompleted _ _ _).fails _ (fun _ _ => by simp) fun _ _ => by simp
  | waitDone htimer => exact h.of_kept (h.toKept.waitDone htimer) id rfl rfl
  | runConnect hconnect => exact h.handleConnect (by simp [hconnect]) _
  | runIo hc => exact h.handle _ _ (hr.handled_of_completed hc)
  | runWait hwait => exact h.handleWait hwait

theorem watched_of_reach (h : (system clock timeout).Reachable s) :
    Watched clock timeout s := by
  refine h.invariant (I := Watched clock timeout) (fun s h0 => ?_)
    fun _ _ _ hreach hw _ hs => watched_next hw (relays_of_reach hreach) hs
  obtain ⟨buffer, rfl⟩ := h0
  exact watched_start buffer

end CcSnippets.Asio.Proxy

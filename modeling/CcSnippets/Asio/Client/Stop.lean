import CcSnippets.Asio.Client.Steps

/-!
# CcSnippets.Asio.Client.Stop

When `monitor` ends a run of `client.cc`.

`completed` and `connected` hold what the sessions have counted, whatever the order
of the updates (`Tallied`). So `monitor` ends a run only when nothing is left to
run, provided that it is **on time** (`over_of_reach`). It need not be: the threads
start ten times `conns` sessions, which can be more than `connections`; and a
session counts itself completed before it counts itself connected.
-/

namespace CcSnippets.Asio.Client

open CcSnippets.Core Callback

variable {n : Connections} {s s' : Run n}

/-! ### What is left of a handler -/

/-- What can be left of a handler: its updates, and whether the session goes on. -/
def lefts : List (List Update × Bool) :=
  [([.increment .completed, .increment .connected], true), ([.increment .connected], true),
   ([.increment .echoes], true), ([], true),
   ([.increment .completed, .increment .failed], false), ([.increment .failed], false),
   ([.increment .failed, .decrement .connected], false), ([.decrement .connected], false),
   ([], false)]

/-- Whether a session that makes these updates still has counted itself completed. -/
def countedBefore (us : List Update) : ℕ := if .increment .completed ∈ us then 0 else 1

/-- Whether it is counted as connected before it makes them. -/
def presentBefore (us : List Update) (goesOn : Bool) : ℕ :=
  if .increment .connected ∈ us then 0
  else if .decrement .connected ∈ us ∨ goesOn = true then 1 else 0

/-- The session's part in `completed`. -/
def Phase.counted : Phase → ℕ
  | .unstarted | .waiting _ _ .handleConnect => 0
  | .waiting _ _ _ | .ended => 1
  | .running r => countedBefore r.updates

/-- The session's part in `connected`. -/
def Phase.present : Phase → ℕ
  | .unstarted | .ended | .waiting _ _ .handleConnect => 0
  | .waiting _ _ _ => 1
  | .running r => presentBefore r.updates r.next.isSome

/-- The session's handler is one of `client.cc`. -/
def Phase.Proper : Phase → Prop
  | .running r =>
    (r.updates, r.next.isSome) ∈ lefts ∧ ∀ op h, r.next = some (op, h) → h ≠ .handleConnect
  | _ => True

/-- One update less is left, and the session's part in the counters moves by it. -/
theorem lefts_update : ∀ x ∈ lefts, ∀ u us, x.1 = u :: us →
    (us, x.2) ∈ lefts ∧
      BitVec.ofNat 32 (countedBefore us) =
        BitVec.ofNat 32 (countedBefore x.1) + u.delta .completed ∧
      BitVec.ofNat 32 (presentBefore us x.2) =
        BitVec.ofNat 32 (presentBefore x.1 x.2) + u.delta .connected := by
  intro x hx u us hus
  simp only [lefts, List.mem_cons, List.not_mem_nil, or_false] at hx
  rcases hx with rfl | rfl | rfl | rfl | rfl | rfl | rfl | rfl | rfl <;> cases hus <;> decide

/-- A session that has counted itself completed, is not counted as connected and not
about to be, does not go on. -/
theorem lefts_over : ∀ x ∈ lefts, countedBefore x.1 = 1 → presentBefore x.1 x.2 = 0 →
    x.1.head? ≠ some (.increment .connected) → x.2 = false := by
  decide

theorem handle_left (h : Handler) (session : Session) (e : Option Error) :
    ((handle h session e).updates, (handle h session e).next.isSome) ∈ lefts := by
  cases e with
  | some _ => cases h <;> simp [lefts, handle, handleConnect, handleWrite, handleRead, handleWait,
      onError, Reaction.after]
  | none =>
    cases h with
    | handleRead =>
      show (session.check, true) ∈ lefts
      unfold Session.check
      split <;> simp [lefts]
    | handleConnect | handleWrite | handleWait =>
      simp [lefts, handle, handleConnect, handleWrite, handleWait, start, Reaction.after]

/-- Behind its connect, a session has counted itself completed and connected. -/
theorem waiting_parts {h : Handler} (hh : h ≠ .handleConnect) (session : Session)
    (op : Operation) :
    (Phase.waiting session op h).counted = 1 ∧ (Phase.waiting session op h).present = 1 := by
  cases h with
  | handleConnect => exact absurd rfl hh
  | handleWrite | handleRead | handleWait => exact ⟨rfl, rfl⟩

/-- A handler that is called has not changed its session's part in the counters yet. -/
theorem handle_before (h : Handler) (session session' : Session) (op : Operation)
    (e : Option Error) :
    (Phase.running (handle h session e)).counted = (Phase.waiting session' op h).counted ∧
      (Phase.running (handle h session e)).present = (Phase.waiting session' op h).present := by
  cases e with
  | some _ => cases h <;> exact ⟨rfl, rfl⟩
  | none =>
    cases h with
    | handleRead =>
      show countedBefore session.check = 1 ∧ presentBefore session.check true = 1
      unfold Session.check
      split <;> decide
    | handleConnect | handleWrite | handleWait => exact ⟨rfl, rfl⟩

/-! ### What the counters hold -/

namespace Moves

variable {p p' : Phase} {us : List Update}

theorem proper (h : Moves p us p') (hp : p.Proper) : p'.Proper := by
  cases h with
  | start => trivial
  | complete => exact ⟨handle_left _ _ _, fun _ _ hnext => handle_next_ne_connect hnext⟩
  | update => exact ⟨(lefts_update _ hp.1 _ _ rfl).1, hp.2⟩
  | @finish _ next =>
    cases next with
    | none => trivial
    | some _ => trivial

/-- **A session's part in `completed` and `connected` moves by its updates.** -/
theorem parts (h : Moves p us p') (hp : p.Proper) :
    BitVec.ofNat 32 p'.counted =
        BitVec.ofNat 32 p.counted + (us.map (Update.delta .completed)).sum ∧
      BitVec.ofNat 32 p'.present =
        BitVec.ofNat 32 p.present + (us.map (Update.delta .connected)).sum := by
  cases h with
  | start => exact ⟨rfl, rfl⟩
  | @complete session op h o =>
    obtain ⟨hcounted, hpresent⟩ := handle_before h (op.deliver o session) session op o.error
    rw [hcounted, hpresent]
    simp
  | update =>
    obtain ⟨-, hcounted, hpresent⟩ := lefts_update _ hp.1 _ _ rfl
    simpa [Phase.counted, Phase.present] using ⟨hcounted, hpresent⟩
  | @finish session next =>
    cases next with
    | none => exact ⟨rfl, rfl⟩
    | some o =>
      obtain ⟨op, h⟩ := o
      obtain ⟨hcounted, hpresent⟩ := waiting_parts (hp.2 op h rfl) session op
      exact ⟨congrArg (BitVec.ofNat 32) hcounted, congrArg (BitVec.ofNat 32) hpresent⟩

/-- What a session has counted itself completed stays so. -/
theorem counted_eq_one (h : Moves p us p') (hp : p.Proper) (hone : p.counted = 1) :
    p'.counted = 1 := by
  cases h with
  | start => cases hone
  | @complete session op h o =>
    exact (handle_before h (op.deliver o session) session op o.error).1.trans hone
  | @update session u us next =>
    simp only [Phase.counted, countedBefore] at hone ⊢
    split at hone
    · cases hone
    · rename_i hnot
      exact if_neg fun hmem => hnot (List.mem_cons_of_mem u hmem)
  | @finish session next =>
    cases next with
    | none => rfl
    | some o =>
      obtain ⟨op, h⟩ := o
      exact (waiting_parts (hp.2 op h rfl) session op).1

/-- **A session that is over stays over.** -/
theorem stays_over (h : Moves p us p') (hdone : p.connectDone = true)
    (hover : p.established = false) : p'.connectDone = true ∧ p'.established = false := by
  cases h with
  | start => cases hdone
  | @complete session op h o =>
    cases h with
    | handleConnect => cases hdone
    | handleWrite | handleRead | handleWait => cases hover
  | update => exact ⟨rfl, hover⟩
  | @finish session next =>
    cases next with
    | none => exact ⟨rfl, rfl⟩
    | some _ => cases hover

end Moves

/-- Where every session has counted itself completed and none is counted as connected,
or about to be, all are over. -/
theorem over_of_parts {p : Phase} (hp : p.Proper) (hcounted : p.counted = 1)
    (hpresent : p.present = 0) (hjoining : p.joining = false) :
    p.connectDone = true ∧ p.established = false := by
  cases p with
  | unstarted => cases hcounted
  | waiting session op h =>
    cases h with
    | handleConnect => cases hcounted
    | handleWrite | handleRead | handleWait => cases hpresent
  | running r =>
    refine ⟨rfl, lefts_over _ hp.1 hcounted hpresent ?_⟩
    simpa [Phase.joining] using hjoining
  | ended => exact ⟨rfl, rfl⟩

/-- The counters hold the parts of all sessions. -/
structure Tallied (s : Run n) : Prop where
  fresh : s.Fresh
  proper : ∀ i, (s.phase i).Proper
  completed : s.counters .completed = BitVec.ofNat 32 (tally Phase.counted s.phase)
  connected : s.counters .connected = BitVec.ofNat 32 (tally Phase.present s.phase)

theorem tallied_start (n : Connections) : Tallied (.start n) where
  fresh _ _ _ _ _ := rfl
  proper _ := trivial
  completed := congrArg (BitVec.ofNat 32) (tally_eq_zero.mpr fun _ => rfl).symm
  connected := congrArg (BitVec.ofNat 32) (tally_eq_zero.mpr fun _ => rfl).symm

/-- **Step lemma.** -/
theorem tallied_step (h : Tallied s) {l : Label n} (hs : Step s l s') : Tallied s' := by
  have hfresh := fresh_step h.fresh hs
  cases hs with
  | @moves _ t j us p x _ hmoves _ =>
    obtain ⟨hcounted, hpresent⟩ := hmoves.parts (h.proper _)
    refine ⟨hfresh, ?_, ?_, ?_⟩
    · exact (Function.forall_update_iff _ fun _ (q : Phase) => q.Proper).mpr
        ⟨hmoves.proper (h.proper _), fun i _ => h.proper i⟩
    · show s.counters.updates us .completed = _
      rw [Counters.updates_apply]
      exact ofNat_tally_update h.completed hcounted
    · show s.counters.updates us .connected = _
      rw [Counters.updates_apply]
      exact ofNat_tally_update h.connected hpresent
  | monitor hm =>
    obtain ⟨hphase, hcounters, -⟩ := nextMonitor_frame hm
    refine ⟨hfresh, ?_, ?_, ?_⟩
    · rw [hphase]
      exact h.proper
    · rw [hphase, hcounters]
      exact h.completed
    · rw [hphase, hcounters]
      exact h.connected
  | thread | interrupt | stopContext => exact ⟨hfresh, h.proper, h.completed, h.connected⟩

/-! ### What the counters say -/

/-- Every session has counted itself completed. -/
def Run.AllCounted (s : Run n) : Prop := ∀ i, (s.phase i).counted = 1

/-- Every session has completed its connect, and none is established. -/
def Run.AllOver (s : Run n) : Prop :=
  ∀ i, (s.phase i).connectDone = true ∧ (s.phase i).established = false

theorem sessions_lt (n : Connections) : 10 * n.conns < 2 ^ 32 := by
  have := n.lt
  unfold Connections.conns
  split <;> omega

theorem card_sessionId (n : Connections) : Fintype.card (SessionId n) = 10 * n.conns := by
  simp [SessionId]

theorem Phase.counted_le_one (p : Phase) : p.counted ≤ 1 := by
  cases p with
  | waiting _ _ h => cases h <;> simp [Phase.counted]
  | running r =>
    simp only [Phase.counted, countedBefore]
    split <;> simp
  | unstarted | ended => simp [Phase.counted]

theorem Phase.present_le_one (p : Phase) : p.present ≤ 1 := by
  cases p with
  | waiting _ _ h => cases h <;> simp [Phase.present]
  | running r =>
    simp only [Phase.present, presentBefore]
    split
    · simp
    · split <;> simp
  | unstarted | ended => simp [Phase.present]

/-- `completed` is the number of sessions exactly when all have counted themselves. -/
theorem Tallied.allCounted_iff (h : Tallied s) :
    (s.counters .completed).toNat = 10 * n.conns ↔ s.AllCounted := by
  have hle := tally_le_card Phase.counted_le_one s.phase
  have hlt := sessions_lt n
  rw [card_sessionId] at hle
  rw [h.completed, BitVec.toNat_ofNat, Nat.mod_eq_of_lt (by omega), ← card_sessionId]
  exact tally_eq_card Phase.counted_le_one

/-- `connected` is zero only when no session is counted as connected. -/
theorem Tallied.present_eq_zero (h : Tallied s) (hzero : s.counters .connected = 0)
    (i : SessionId n) : (s.phase i).present = 0 := by
  have hle := tally_le_card Phase.present_le_one s.phase
  have hlt := sessions_lt n
  rw [card_sessionId] at hle
  have htally := congrArg BitVec.toNat (h.connected.symm.trans hzero)
  rw [BitVec.toNat_ofNat, Nat.mod_eq_of_lt (by omega)] at htally
  exact tally_eq_zero.mp htally i

/-- Where `completed` is the number of sessions, `connected` is zero and no session is
between its two increments, all are over. -/
theorem Tallied.allOver (h : Tallied s) (hcompleted : (s.counters .completed).toNat = 10 * n.conns)
    (hzero : s.counters .connected = 0) (hjoining : ∀ i, (s.phase i).joining = false) :
    s.AllOver := fun i =>
  over_of_parts (h.proper i) (h.allCounted_iff.mp hcompleted i) (h.present_eq_zero hzero i)
    (hjoining i)

theorem allCounted_of_moves (h : Tallied s) (hall : s.AllCounted) {t : Fin 10} {j : Fin n.conns}
    {us : List Update} {p : Phase} (hmoves : Moves (s.phase (t, j)) us p)
    (hphase : s'.phase = Function.update s.phase (t, j) p) : s'.AllCounted := by
  unfold Run.AllCounted
  rw [hphase]
  exact (Function.forall_update_iff _ fun _ (q : Phase) => q.counted = 1).mpr
    ⟨hmoves.counted_eq_one (h.proper _) (hall _), fun i _ => hall i⟩

theorem allOver_of_moves (hall : s.AllOver) {t : Fin 10} {j : Fin n.conns} {us : List Update}
    {p : Phase} (hmoves : Moves (s.phase (t, j)) us p)
    (hphase : s'.phase = Function.update s.phase (t, j) p) : s'.AllOver := by
  unfold Run.AllOver
  rw [hphase]
  exact (Function.forall_update_iff _ fun _ (q : Phase) =>
    q.connectDone = true ∧ q.established = false).mpr
    ⟨hmoves.stays_over (hall _).1 (hall _).2, fun i _ => hall i⟩

/-! ### The end of a run -/

/-- `monitor` ends the run: it has read `connected == 0`. -/
def Run.Ends (s : Run n) : Prop := s.monitor = .setStop ∨ s.monitor = .finished

/-- It has ended it before, or it is just reading it. -/
theorem nextMonitor_ends (hm : s.nextMonitor = some s') (h : s'.Ends) :
    s.Ends ∨ s.monitor = .activeConnected ∧ s.counters .connected = 0 := by
  unfold Run.nextMonitor at hm
  split at hm <;> rename_i hpc
  · obtain rfl := Option.some.inj hm
    cases hstop : s.stop <;> simp [Run.Ends, hstop] at h
  · obtain rfl := Option.some.inj hm
    by_cases hlt : (s.counters .completed).toInt < n.count <;> simp [Run.Ends, hlt] at h
  · obtain rfl := Option.some.inj hm
    cases hstop : s.stop <;> simp [Run.Ends, hstop] at h
  · obtain rfl := Option.some.inj hm
    cases hstop : s.stop <;> simp [Run.Ends, hstop] at h
  · obtain rfl := Option.some.inj hm
    by_cases hzero : s.counters .connected = 0
    · exact .inr ⟨hpc, hzero⟩
    · simp only [Run.Ends, if_neg hzero] at h
      rcases h with h | h <;> cases h
  · exact .inl (.inl hpc)
  · cases hm
  · cases hm

/-- **Step lemma.** Moving on time, `monitor` ends a run that is over. -/
theorem over_step (h : Tallied s) (hends : s.Ends → s.AllOver) {l : Label n} (hok : OnTime s l)
    (hs : Step s l s') (hends' : s'.Ends) : s'.AllOver := by
  cases hs with
  | moves _ hmoves _ => exact allOver_of_moves (hends hends') hmoves rfl
  | monitor hm =>
    obtain ⟨hphase, -, -⟩ := nextMonitor_frame hm
    unfold Run.AllOver
    rw [hphase]
    rcases nextMonitor_ends hm hends' with hended | ⟨hpc, hzero⟩
    · exact hends hended
    · exact h.allOver (hok.completed rfl hpc hzero) hzero (hok.joining rfl hpc hzero)
  | interrupt | thread | stopContext => exact hends hends'

theorem tallied_of_reach {ok : Run n → Label n → Prop} (h : (system n).Reach ok s) :
    Tallied s := by
  refine h.invariant (I := Tallied) ?_ ?_
  · intro s hs
    subst hs
    exact tallied_start n
  · intro s l s' _ hs _ hnext
    exact tallied_step hs (next_step hs.fresh hnext)

/-- **On time, `monitor` ends a run only when nothing is left to run**: in every run
whose steps are all on time, once `monitor` has read `connected == 0`, and in
particular when it sets `stop`, every session has completed its connect and none is
established. -/
theorem over_of_reach (h : (system n).Reach OnTime s)
    (hover : s.monitor = .setStop ∨ s.monitor = .finished) (i : SessionId n) :
    (s.phase i).connectDone = true ∧ (s.phase i).established = false := by
  have hends : s.Ends → s.AllOver := by
    refine h.invariant (I := fun s => s.Ends → s.AllOver) ?_ ?_
    · intro s hs hends
      subst hs
      rcases hends with hpc | hpc <;> cases hpc
    · intro s l s' hreach hends hok hnext
      have htallied := tallied_of_reach hreach
      exact over_step htallied hends hok (next_step htallied.fresh hnext)
  exact hends hover i

/-! ### The first loop -/

/-- Where `monitor` leaves its first loop as it finds `completed` no less than `connections`,
`completed` is the number of sessions. -/
def Run.LeavesInTime (s : Run n) : Prop :=
  s.monitor = .connectingCompleted →
    (s.counters .completed).toInt < n.count ∨ (s.counters .completed).toNat = 10 * n.conns

/-- Then all sessions have counted themselves completed behind it. -/
def Run.Counted (s : Run n) : Prop :=
  match s.monitor with
  | .connectingStop | .connectingCompleted | .stopped => True
  | .between => s.stop = true ∨ s.AllCounted
  | .activeStop | .activeConnected | .setStop | .finished => s.AllCounted

/-- It stays so while `monitor` does not move. -/
theorem counted_of_moves (h : Tallied s) (hcounted : s.Counted) {t : Fin 10} {j : Fin n.conns}
    {us : List Update} {p : Phase} (hmoves : Moves (s.phase (t, j)) us p)
    (hmonitor : s'.monitor = s.monitor) (hstop : s'.stop = s.stop)
    (hphase : s'.phase = Function.update s.phase (t, j) p) : s'.Counted := by
  unfold Run.Counted at hcounted ⊢
  rw [hmonitor, hstop]
  cases hpc : s.monitor with
  | connectingStop | connectingCompleted | stopped => trivial
  | between =>
    rw [hpc] at hcounted
    exact hcounted.imp_right fun hall => allCounted_of_moves h hall hmoves hphase
  | activeStop | activeConnected | setStop | finished =>
    rw [hpc] at hcounted
    exact allCounted_of_moves h hcounted hmoves hphase

/-- **Step lemma.** -/
theorem counted_nextMonitor (h : Tallied s) (hcounted : s.Counted) (hleaves : s.LeavesInTime)
    (hm : s.nextMonitor = some s') : s'.Counted := by
  unfold Run.Counted at hcounted
  unfold Run.nextMonitor at hm
  split at hm <;> rename_i hpc <;> rw [hpc] at hcounted
  · obtain rfl := Option.some.inj hm
    cases hstop : s.stop with
    | true => exact .inl rfl
    | false => trivial
  · obtain rfl := Option.some.inj hm
    by_cases hlt : (s.counters .completed).toInt < n.count
    · simp [Run.Counted, hlt]
    · have hall := h.allCounted_iff.mp ((hleaves hpc).resolve_left hlt)
      simp only [Run.Counted, if_neg hlt]
      exact .inr hall
  · obtain rfl := Option.some.inj hm
    cases hstop : s.stop with
    | true => trivial
    | false => exact hcounted.resolve_left (by simp [hstop])
  · obtain rfl := Option.some.inj hm
    cases hstop : s.stop with
    | true => trivial
    | false => exact hcounted
  · obtain rfl := Option.some.inj hm
    by_cases hzero : s.counters .connected = 0
    · simp only [Run.Counted, if_pos hzero]
      exact hcounted
    · simp only [Run.Counted, if_neg hzero]
      exact hcounted
  · obtain rfl := Option.some.inj hm
    exact hcounted
  · cases hm
  · cases hm

/-- **Run lemma.** -/
theorem counted_of_reach {ok : Run n → Label n → Prop}
    (hok : ∀ s, Tallied s → ok s .monitor → s.LeavesInTime) (h : (system n).Reach ok s) :
    s.Counted := by
  refine h.invariant (I := Run.Counted) ?_ ?_
  · intro s hs
    subst hs
    trivial
  · intro s l s' hreach hcounted hl hnext
    have htallied := tallied_of_reach hreach
    have hs := next_step htallied.fresh hnext
    cases hs with
    | moves _ hmoves _ => exact counted_of_moves htallied hcounted hmoves rfl rfl rfl
    | monitor hm => exact counted_nextMonitor htallied hcounted (hok s htallied hl) hm
    | interrupt => cases hpc : s.monitor <;> simp_all [Run.Counted, Run.AllCounted]
    | thread | stopContext => exact hcounted

/-- **Where `monitor` leaves its first loop in time**, it is on time unless it comes between
the two increments of a session. -/
theorem onTime_of_leavesInTime {ok : Run n → Label n → Prop}
    (hok : ∀ s, Tallied s → ok s .monitor → s.LeavesInTime)
    (hjoining : ∀ s, ok s .monitor → s.monitor = .activeConnected → s.counters .connected = 0 →
      ∀ i, (s.phase i).joining = false)
    (h : (system n).Reach ok s) : (system n).Reach OnTime s := by
  induction h with
  | init h0 => exact .init h0
  | step hreach hl hs ih =>
    refine .step ih ⟨fun hmonitor hpc _ => ?_, fun hmonitor => hjoining _ (hmonitor ▸ hl)⟩ hs
    have hcounted := counted_of_reach hok hreach
    rw [Run.Counted, hpc] at hcounted
    exact (tallied_of_reach hreach).allCounted_iff.mpr hcounted

/-- Where the threads start exactly `connections` sessions, it always leaves it in time. -/
theorem leavesInTime (h : Tallied s) (hten : n.count % 10 = 0) : s.LeavesInTime := by
  intro _
  have hle := tally_le_card Phase.counted_le_one s.phase
  have hconns : 10 * n.conns = n.count := by
    unfold Connections.conns
    rw [if_pos hten]
    omega
  have hlt := n.lt
  rw [card_sessionId, hconns] at hle
  have hcompleted : (s.counters .completed).toNat = tally Phase.counted s.phase := by
    rw [h.completed, BitVec.toNat_ofNat, Nat.mod_eq_of_lt (by omega)]
  rw [BitVec.toInt_eq_toNat_of_lt (by omega), hcompleted, hconns]
  omega

/-- There, `monitor` is on time unless it comes between the two increments of a session. -/
theorem onTime_of_ten (hten : n.count % 10 = 0)
    (h : (system n).Reach (fun s l => l = .monitor → s.monitor = .activeConnected →
      s.counters .connected = 0 → ∀ i, (s.phase i).joining = false) s) :
    (system n).Reach OnTime s :=
  onTime_of_leavesInTime (fun _ hs _ => leavesInTime hs hten) (fun _ hs => hs rfl) h

/-! ### Runs in which no connect but the last succeeds -/

/-- Threads `ts` start their session `j`, and its connect is refused. -/
def refused (j : Fin n.conns) (ts : List (Fin 10)) : List (Label n) :=
  ts.flatMap fun t =>
    [.start t, .run t, .complete t j ⟨some (.other 111), []⟩, .update t, .update t, .finish t]

/-- `monitor` goes from its first load to setting `stop`. -/
def monitorEnds : List (Label n) := List.replicate 6 .monitor

def one : Connections := ⟨1, by decide, by decide⟩

def ten : Connections := ⟨10, by decide, by decide⟩

theorem conns_pos (n : Connections) : 0 < n.conns := by
  have := n.pos
  unfold Connections.conns
  split <;> omega

/-- The first session of a thread. -/
def first (n : Connections) : Fin n.conns := ⟨0, conns_pos n⟩

/-- All ten sessions are refused before `monitor` looks. -/
theorem over_of_reach_refused :
    ∃ s, (system ten).run (.start ten) (refused (first ten) (List.finRange 10) ++ monitorEnds) =
        some s ∧ s.monitor = .finished ∧
      ∀ i, (s.phase i).connectDone = true ∧ (s.phase i).established = false := by
  have hends : ∃ s, (system ten).run (.start ten)
      (refused (first ten) (List.finRange 10) ++ monitorEnds) = some s ∧ s.monitor = .finished :=
    ⟨_, rfl, rfl⟩
  obtain ⟨s, hrun, hover⟩ := hends
  have hreach : (system ten).Reach OnTime s :=
    System.Reach.of_everyStep (.init rfl) (by decide +kernel) hrun
  exact ⟨s, hrun, hover, over_of_reach hreach (.inr hover)⟩

/-- **`monitor` ends a run with sessions left.** With one connection asked for, ten
sessions are started: the first is refused, and `monitor` ends the run while the
second is still connecting. With ten asked for, nine are refused, and `monitor` ends
the run between `completed++` and `connected++` of the one that succeeds. -/
theorem monitor_ends_early :
    (∃ s, (system one).run (.start one) (refused (first one) [0] ++ [.start 1] ++ monitorEnds) =
        some s ∧ s.monitor = .finished ∧
      s.phase (1, first one) = .waiting .new (.connect 8081) .handleConnect ∧
      (s.phase (1, first one)).connectDone = false) ∧
    ∃ s, (system ten).run (.start ten) (refused (first ten) [0, 1, 2, 3, 4, 5, 6, 7, 8] ++
        [.start 9, .run 9, .complete 9 (first ten) ⟨none, []⟩, .update 9] ++ monitorEnds) =
        some s ∧ s.monitor = .finished ∧ s.counters .completed = 10 ∧
      (s.phase (9, first ten)).established = true :=
  ⟨⟨_, rfl, rfl, rfl, rfl⟩, _, rfl, rfl, by decide +kernel, by decide +kernel⟩

end CcSnippets.Asio.Client

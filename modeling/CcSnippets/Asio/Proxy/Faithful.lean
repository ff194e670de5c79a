import CcSnippets.Asio.Proxy.Watched

/-!
# CcSnippets.Asio.Proxy.Faithful

The proxy **relays faithfully** (`relays_faithfully`): in each direction the bytes
written to the one peer are a prefix of those received from the other, and no more than
a buffer is missing: the chunk that was just received, the rest of the write that is
outstanding, or the rest of the write that failed.

A direction is busy from the connect to `stop`: the handler of each completion starts
the next operation, unless it stops the session (`Lively`). Once it is idle it stays so.
-/

namespace CcSnippets.Asio.Proxy

open CcSnippets.Core

variable {clock : Clock ℤ} {timeout : ℤ} {s s' : State}

/-- Neither an operation nor a completion. -/
def Lane.Idle (l : Lane) : Prop := l.outstanding = [] ∧ l.completed = []

namespace Lane

variable {l : Lane}

theorem not_idle_of_outstanding {i : ℕ} {op : Operation} (h : l.outstanding[i]? = some op) :
    ¬ l.Idle := by
  intro hidle
  rw [hidle.1] at h
  cases h

theorem not_idle_of_completed {i : ℕ} {c : Completion} (h : l.completed[i]? = some c) :
    ¬ l.Idle := by
  intro hidle
  rw [hidle.2] at h
  cases h

theorem not_idle_concat (l : Lane) (op : Operation) :
    ¬ Idle { l with outstanding := l.outstanding ++ [op] } :=
  fun hidle => List.append_ne_nil_of_right_ne_nil _ (List.cons_ne_nil _ _) hidle.1

end Lane

/-! ### The lanes in a step -/

theorem not_idle_complete (s : State) (d : Side) (i : ℕ) (c : Completion) :
    ¬ ((s.complete d i c).lane d).Idle := by
  rw [lane_complete_self]
  exact fun hidle => List.append_ne_nil_of_right_ne_nil _ (List.cons_ne_nil _ _) hidle.2

/-- The handler of a connect that succeeded starts both watchdogs. -/
theorem begun_runConnect (hconnect : s.connect = .completed none)
    (hs : s.next clock timeout .runConnect = some s') (d : Side) : s'.begun d = true := by
  simp only [State.next, hconnect] at hs
  obtain rfl := Option.some.inj hs
  simp only [State.handleConnect, State.startWatchdogs, begun_startWatchdog]
  cases d <;> rfl

/-- **Everything a step can do to the lanes** and to what has begun: nothing to the lanes,
where at most a watchdog is started again; something to a lane that is not idle and
does not become so before `stop`; or the first receive and the watchdog in each, when
the connect has succeeded. -/
theorem lanes_cases {l : Label} (h : Relays s) (hs : s.next clock timeout l = some s') :
    ((∀ e, s'.lane e = s.lane e) ∧ (s'.begun = s.begun ∨ ∃ (d : Side) (i : ℕ),
      (s.waits d)[i]? = some none ∧ s'.begun = Function.update s.begun d true)) ∨
    (∃ d, ¬ (s.lane d).Idle ∧ (s'.stopped = false → ¬ (s'.lane d).Idle) ∧
      s'.begun = s.begun ∧ ∀ e, e ≠ d → s'.lane e = s.lane e) ∨
    (s.connect = .completed none ∧ ∀ d, s'.begun d = true ∧ ¬ (s'.lane d).Idle) := by
  cases next_step hs with
  | elapse | connectDone _ | waitDone _ => exact .inl ⟨fun _ => rfl, .inl rfl⟩
  | @receiveDone d socket buffer i chunk hop _ =>
    obtain ⟨-, -, -, rfl, rfl, -⟩ := (h.lanes d).of_outstanding hop
    exact .inr (.inl ⟨buffer, Lane.not_idle_of_outstanding hop,
      fun _ => not_idle_complete s buffer i (.receive none chunk.bytes.length), rfl,
      fun e he => lane_receiveDone_of_ne s e he i chunk⟩)
  | @writeSome d socket buffer i k n m hop _ _ _ =>
    obtain ⟨-, hset, -, rfl, rfl, -⟩ := (h.lanes d).of_outstanding hop
    refine .inr (.inl ⟨buffer, Lane.not_idle_of_outstanding hop, fun _ hidle => ?_, rfl,
      fun e he => lane_writeSome_of_ne s e he _ _⟩)
    have hout : Function.update s.outstanding buffer
        ((s.outstanding buffer).set i (.write buffer.other buffer n (m + k))) buffer = [] :=
      hidle.1
    rw [Function.update_self] at hout
    exact absurd ((hset _).symm.trans hout) (List.cons_ne_nil _ _)
  | @writeDone d _ _ i n hop =>
    exact .inr (.inl ⟨d, Lane.not_idle_of_outstanding hop, fun _ => not_idle_complete s d i _,
      rfl, fun e he => lane_complete_of_ne s e he i _⟩)
  | @receiveFails d _ _ i error hop | @writeFails d _ _ i _ _ error hop =>
    refine .inr (.inl ⟨d, Lane.not_idle_of_outstanding hop, fun _ => ?_, ?_, fun e he => ?_⟩)
    · rw [lane_fails]
      exact not_idle_complete s d i _
    · rw [fails_eq]
      rfl
    · rw [lane_fails, lane_complete_of_ne s e he]
  | @runConnect error hconnect =>
    cases error with
    | some e => exact .inl ⟨fun _ => rfl, .inl rfl⟩
    | none =>
      refine .inr (.inr ⟨hconnect, fun d => ⟨begun_runConnect hconnect hs d, ?_⟩⟩)
      rw [lane_handleConnect]
      exact Lane.not_idle_concat _ _
  | @runIo d i c hc =>
    have hne := Lane.not_idle_of_completed (l := s.lane d) hc
    rcases @handle_cases clock timeout (s.dequeue d i) d c with
      ⟨-, heq⟩ | ⟨n, -, heq⟩ | ⟨n, -, heq⟩
    · rw [heq]
      refine .inr (.inl ⟨d, hne, fun hnot => absurd hnot (by simp [State.stop]), rfl,
        fun e he => ?_⟩)
      rw [lane_stop, lane_dequeue_of_ne s e he]
    · rw [heq]
      refine .inr (.inl ⟨d, hne, fun _ => ?_, rfl, fun e he => ?_⟩)
      · rw [lane_send_self]
        exact Lane.not_idle_concat _ _
      · rw [lane_send_of_ne _ e he, lane_dequeue_of_ne s e he]
    · rw [heq]
      refine .inr (.inl ⟨d, hne, fun _ => ?_, rfl, fun e he => ?_⟩)
      · rw [lane_receive_self]
        exact Lane.not_idle_concat _ _
      · rw [lane_receive_of_ne _ e he, lane_dequeue_of_ne s e he]
  | @runWait d i error hwait =>
    cases error with
    | some e => exact .inl ⟨fun _ => rfl, .inl rfl⟩
    | none =>
      exact .inl ⟨fun e => lane_startWatchdog _ e d,
        .inr ⟨d, i, hwait, begun_startWatchdog _ d⟩⟩

/-- A watchdog that was started stays so. -/
theorem begun_next {l : Label} (h : Relays s) (hs : s.next clock timeout l = some s') {d : Side}
    (hd : s.begun d = true) : s'.begun d = true := by
  rcases lanes_cases h hs with ⟨-, heq | ⟨e, i, -, heq⟩⟩ | ⟨e, -, -, heq, -⟩ | ⟨-, hall⟩
  · rw [heq]
    exact hd
  · rw [heq]
    by_cases hde : d = e
    · rw [hde, Function.update_self]
    · rwa [Function.update_of_ne hde]
  · rw [heq]
    exact hd
  · exact (hall d).1

/-! ### From the connect to `stop` -/

/-- A direction is busy from the connect to `stop`. -/
structure Lively (s : State) : Prop where
  fresh : ∀ d, s.begun d = false →
    (s.lane d).Idle ∧ (s.lane d).received = [] ∧ (s.lane d).written = []
  busy : ∀ d, s.begun d = true → s.stopped = false → ¬ (s.lane d).Idle

theorem lively_start (buffer : Side → Buffer) : Lively (.start buffer) where
  fresh _ _ := ⟨⟨rfl, rfl⟩, rfl, rfl⟩
  busy _ hbegun _ := absurd hbegun (by simp [State.start])

/-- **Every step keeps the directions busy.** -/
theorem lively_next {l : Label} (h : Lively s) (hr : Relays s) (hw : Watched clock timeout s)
    (hs : s.next clock timeout l = some s') : Lively s' := by
  have hstopped : s'.stopped = false → s.stopped = false := by
    intro hnot
    cases hstop : s.stopped with
    | false => rfl
    | true => exact absurd (stopped_next hstop hs) (by simp [hnot])
  have hbegun (d : Side) (hnot : s'.begun d = false) : s.begun d = false := by
    cases hbegun : s.begun d with
    | false => rfl
    | true => exact absurd (begun_next hr hs hbegun) (by simp [hnot])
  constructor
  · intro d hnot
    have hfresh := h.fresh d (hbegun d hnot)
    rcases lanes_cases hr hs with ⟨hsame, -⟩ | ⟨e, hne, -, -, hothers⟩ | ⟨-, hall⟩
    · rwa [hsame d]
    · have hde : d ≠ e := fun hde => hne (hde ▸ hfresh.1)
      rwa [hothers d hde]
    · exact absurd (hall d).1 (by simp [hnot])
  · intro d hd hnot
    rcases lanes_cases hr hs with ⟨hsame, heq | ⟨e, i, hwait, heq⟩⟩ | ⟨e, hne, hafter, heq, hothers⟩
      | ⟨-, hall⟩
    · rw [hsame d]
      exact h.busy d (heq ▸ hd) (hstopped hnot)
    · -- the watchdog that is started again has been started before
      rw [hsame d]
      refine h.busy d ?_ (hstopped hnot)
      by_cases hde : d = e
      · exact hde ▸ hw.begun_of_wait hwait (hstopped hnot)
      · rwa [heq, Function.update_of_ne hde] at hd
    · by_cases hde : d = e
      · exact hde ▸ hafter hnot
      · rw [hothers d hde]
        exact h.busy d (heq ▸ hd) (hstopped hnot)
    · exact (hall d).2

theorem lively_of_reach (h : (system clock timeout).Reachable s) : Lively s := by
  refine h.invariant (I := Lively) (fun s h0 => ?_) fun _ _ _ hreach hl _ hs =>
    lively_next hl (relays_of_reach hreach) (watched_of_reach hreach) hs
  obtain ⟨buffer, rfl⟩ := h0
  exact lively_start buffer

/-- A direction that has become idle is of no more interest. -/
theorem lane_of_idle (h : (system clock timeout).Reachable s) {d : Side}
    (hbegun : s.begun d = true) (hidle : (s.lane d).Idle) {ls : List Label}
    (hrun : (system clock timeout).run s ls = some s') : s'.lane d = s.lane d := by
  let I (t : State) : Prop := (system clock timeout).Reachable t ∧ t.begun d = true ∧
    t.lane d = s.lane d
  refine (System.run_invariant (I := I) (fun t l t' hI ht => ?_) ⟨h, hbegun, rfl⟩ hrun).2.2
  obtain ⟨hreach, hd, heq⟩ := hI
  have hrelays := relays_of_reach hreach
  refine ⟨.step hreach trivial ht, begun_next hrelays ht hd, ?_⟩
  rcases lanes_cases hrelays ht with ⟨hsame, -⟩ | ⟨e, hne, -, -, hothers⟩ | ⟨hconnect, -⟩
  · rw [hsame d, heq]
  · have hde : d ≠ e := fun hde => hne (hde ▸ heq ▸ hidle)
    rw [hothers d hde, heq]
  · -- the watchdogs are not started before the connect is handled
    have hnone := ((watched_of_reach hreach).before (by simp [hconnect])).2 d
    exact absurd hd (by simp [hnone])

/-! ### The relay -/

/-- The direction `d` is **relayed faithfully**. -/
structure State.Faithful (s : State) (d : Side) : Prop where
  /-- The bytes written are a prefix of those received, and at most a buffer is missing. -/
  through : ∃ rest, s.received d = s.written d.other ++ rest ∧ rest.length ≤ bufferSize
  /-- There is at most one operation or completion. -/
  single : (s.outstanding d).length + (s.completed d).length ≤ 1
  /-- From the connect to `stop` there is one. -/
  busy : s.begun d = true → s.stopped = false →
    (s.outstanding d).length + (s.completed d).length = 1
  /-- Under an outstanding write the rest of the first bytes of the direction's own buffer is
  missing, under an outstanding receive nothing. -/
  outstanding : ∀ op ∈ s.outstanding d, op.Fits d (s.lane d)
  /-- Once a receive has completed its chunk is missing, once a write has failed its rest. -/
  completed : ∀ c ∈ s.completed d, c.Fits (s.lane d)
  /-- Where there is neither nothing was relayed yet, or the session has stopped, and at most
  the rest of a write that failed is missing. -/
  idle : s.outstanding d = [] → s.completed d = [] →
    (s.begun d = false ∧ s.received d = [] ∧ s.written d.other = []) ∨
      (s.stopped = true ∧ (s.lane d).Ceased)
  /-- No receive is outstanding into a buffer from which a write is. -/
  exclusive : ∀ e socket socket' buffer n m, .receive socket buffer ∈ s.outstanding d →
    .write socket' buffer n m ∉ s.outstanding e

/-- **The proxy relays faithfully**, in both directions and at every moment. What a direction
that is idle after the connect has not written it never writes, and the directions have
begun where the connect has succeeded. -/
theorem relays_faithfully (h : (system clock timeout).Reachable s) (d : Side) :
    s.Faithful d ∧
      (s.begun d = true → s.outstanding d = [] → s.completed d = [] →
        ∀ ls t, (system clock timeout).run s ls = some t →
          t.received d = s.received d ∧ t.written d.other = s.written d.other) ∧
      (s.connect = .completed none → ∀ ls t,
        (system clock timeout).run s (.runConnect :: ls) = some t → t.begun d = true) := by
  have hlanes := (relays_of_reach h).lanes
  have hlively := lively_of_reach h
  have hsingle : (s.outstanding d).length + (s.completed d).length ≤ 1 := by
    cases hlanes d with
    | quiet hout hdone _ | busy hout hdone _ | queued hout hdone _ =>
      rw [show s.outstanding d = _ from hout, show s.completed d = _ from hdone]
      simp
  have hfits : ∀ e, ∀ op ∈ s.outstanding e, op.Fits e (s.lane e) := by
    intro e op hop
    obtain ⟨i, hi⟩ := List.mem_iff_getElem?.mp hop
    exact ((hlanes e).of_outstanding hi).2.2.2
  refine ⟨⟨(hlanes d).lags, hsingle, fun hbegun hnot => ?_, hfits d, fun c hc => ?_,
    fun hout hdone => ?_, fun e socket socket' buffer n m hreceive hwrite => ?_⟩,
    fun hbegun hout hdone ls t hrun => ?_, fun hconnect ls t hrun => ?_⟩
  · have hne := hlively.busy d hbegun hnot
    refine le_antisymm hsingle (Nat.one_le_iff_ne_zero.mpr fun hzero => hne ?_)
    obtain ⟨hout, hdone⟩ := Nat.add_eq_zero_iff.mp hzero
    exact ⟨List.length_eq_zero_iff.mp hout, List.length_eq_zero_iff.mp hdone⟩
  · obtain ⟨i, hi⟩ := List.mem_iff_getElem?.mp hc
    exact ((hlanes d).of_completed hi).2.2
  · cases hbegun : s.begun d with
    | false => exact .inl ⟨rfl, (hlively.fresh d hbegun).2⟩
    | true =>
      have hstopped : s.stopped = true := by
        by_contra hnot
        exact hlively.busy d hbegun (by simpa using hnot) ⟨hout, hdone⟩
      cases hlanes d with
      | quiet _ _ hceased => exact .inr ⟨hstopped, hceased⟩
      | busy hbusy _ _ => exact absurd (hout.symm.trans hbusy) (by simp)
      | queued _ hqueued _ => exact absurd (hdone.symm.trans hqueued) (by simp)
  · -- the two are of the direction of the buffer, which has one operation
    obtain ⟨-, rfl, -⟩ := hfits d _ hreceive
    obtain ⟨-, rfl, -⟩ := hfits e _ hwrite
    cases hlanes buffer with
    | quiet hout _ _ | queued hout _ _ =>
      rw [show s.outstanding buffer = _ from hout] at hreceive
      cases hreceive
    | busy hout _ _ =>
      rw [show s.outstanding buffer = _ from hout] at hreceive hwrite
      exact absurd ((List.mem_singleton.mp hreceive).trans (List.mem_singleton.mp hwrite).symm)
        (by simp)
  · have hlane := lane_of_idle h hbegun ⟨hout, hdone⟩ hrun
    exact ⟨congrArg Lane.received hlane, congrArg Lane.written hlane⟩
  · obtain ⟨s', hs', hrest⟩ := System.run_cons_eq_some.mp hrun
    let I (t : State) : Prop := (system clock timeout).Reachable t ∧ t.begun d = true
    refine (System.run_invariant (I := I) (fun t l t' hI ht => ?_) ⟨.step h trivial hs', ?_⟩
      hrest).2
    · exact ⟨.step hI.1 trivial ht, begun_next (relays_of_reach hI.1) ht hI.2⟩
    · exact begun_runConnect hconnect hs' d

/-- Of two bytes of the server the first is through when the write to the client fails. Under
the write the second is missing, and it still is when the session has stopped. -/
theorem relays_faithfully_failed :
    ∃ s t, (system ticking 5).run (.start fun _ => .zero)
        [.connectDone none, .runConnect,
          .receiveDone .server 0 ⟨[7, 8], by decide, by decide⟩, .runIo .server 0,
          .writeSome .server 0 1] = some s ∧
      (s.lane .server).Sends 2 1 ∧
      (system ticking 5).run s [.writeFails .server 0 (.other 1), .runIo .server 0] = some t ∧
      t.received .server = [7, 8] ∧ t.written .client = [7] ∧
      t.stopped = true ∧ ∃ n m, (t.lane .server).Sends n m := by
  obtain ⟨s, hrun, hbusy, t, hrest, hreceived, hwritten, hout, hdone, hbegun⟩ :
      ∃ s, (system ticking 5).run (.start fun _ => .zero)
        [.connectDone none, .runConnect,
          .receiveDone .server 0 ⟨[7, 8], by decide, by decide⟩, .runIo .server 0,
          .writeSome .server 0 1] = some s ∧
      s.outstanding .server = [.write .client .server 2 1] ∧
      ∃ t, (system ticking 5).run s [.writeFails .server 0 (.other 1), .runIo .server 0] =
          some t ∧
        t.received .server = [7, 8] ∧ t.written .client = [7] ∧
        t.outstanding .server = [] ∧ t.completed .server = [] ∧ t.begun .server = true :=
    ⟨_, rfl, rfl, _, rfl, rfl, rfl, rfl, rfl, rfl⟩
  have hreach : (system ticking 5).Reachable s := .run (.init ⟨_, rfl⟩) hrun
  obtain ⟨-, -, hsends⟩ := (relays_faithfully hreach .server).1.outstanding
    (.write .client .server 2 1) (by rw [hbusy]; exact List.mem_singleton_self _)
  have hidle := (relays_faithfully (hreach.run hrest) .server).1.idle hout hdone
  rcases hidle with ⟨hnot, -⟩ | ⟨hstopped, heq | hmissing⟩
  · exact absurd hbegun (by simp [hnot])
  · exact absurd (hreceived.symm.trans (heq.trans hwritten)) (by decide)
  · exact ⟨s, t, hrun, hsends, hrest, hreceived, hwritten, hstopped, hmissing⟩

/-- **A byte is missing under no write.** The write of two bytes to the server fails after the
first of them, and both directions wind down: the second byte of the client is received and
not written, and no operation is outstanding. -/
theorem failed_write_leaves_bytes :
    ∃ s, (system ticking 5).run (.start fun _ => .zero)
        [.connectDone none, .runConnect,
          .receiveDone .client 0 ⟨[7, 8], by decide, by decide⟩, .runIo .client 0,
          .writeSome .client 0 1, .writeFails .client 0 (.other 1), .runIo .client 0,
          .receiveFails .server 0 .aborted, .runIo .server 0] = some s ∧
      s.received .client = [7, 8] ∧ s.written .server = [7] ∧
      ∀ d, s.outstanding d = [] ∧ s.completed d = [] :=
  ⟨_, rfl, rfl, rfl, fun d => by cases d <;> exact ⟨rfl, rfl⟩⟩

end CcSnippets.Asio.Proxy

import CcSnippets.Core.Relay
import CcSnippets.Asio.Echo.Callbacks
import CcSnippets.Asio.Echo.Coroutines
import CcSnippets.Asio.Proxy.Relay

/-!
# CcSnippets.Asio.Relays

The sessions of the servers as **programs between connections**: a session of the proxy
relays (`Proxy.node_relays`), and a session of either echo server echoes
(`Echo.peer_echoes`, `Echo.Coroutine.peer_echoes`), whatever their timers and their
operations do.
-/

namespace CcSnippets.Asio

open CcSnippets.Core

/-! ### The proxy -/

namespace Proxy

/-- A session of the proxy, between its client and its target. -/
def node (clock : Clock ℤ) (timeout : ℤ) : Node UInt8 where
  State := State
  Label := Label
  system := system clock timeout
  front := ⟨fun s => s.received .client, fun s => s.written .client⟩
  back := ⟨fun s => s.received .server, fun s => s.written .server⟩

variable {clock : Clock ℤ} {timeout : ℤ}

theorem written_startWatchdog (s : State) (d : Side) :
    (s.startWatchdog clock d).written = s.written := by
  simp only [State.startWatchdog]
  split <;> rfl

theorem written_handle (s : State) (d : Side) (c : Completion) :
    (s.handle clock timeout d c).written = s.written := by
  cases c with
  | receive error n => cases error <;> cases d <;> rfl
  | write error n => cases error <;> cases d <;> rfl

theorem written_fails (s : State) (socket : Side) (e : Event) :
    (s.fails socket e).written = s.written := by
  unfold State.fails
  split <;> rfl

/-- What has been written stays. -/
theorem written_next {s s' : State} {l : Label} (h : s.next clock timeout l = some s')
    (d : Side) : s.written d <+: s'.written d := by
  cases next_step h with
  | elapse | connectDone _ | receiveDone _ _ | writeDone _ | waitDone _ => exact List.prefix_rfl
  | receiveFails _ | writeFails _ =>
    rw [written_fails]
    exact List.prefix_rfl
  | @writeSome _ socket _ _ _ _ _ _ _ _ _ =>
    by_cases hd : d = socket
    · subst hd
      simp only [Function.update_self]
      exact List.prefix_append _ _
    · simp only [Function.update_of_ne hd]
      exact List.prefix_rfl
  | @runConnect error _ =>
    cases error with
    | some error => exact List.prefix_rfl
    | none =>
      simp only [State.handleConnect, State.startWatchdogs, written_startWatchdog]
      exact List.prefix_rfl
  | @runIo d i c _ =>
    rw [written_handle]
    exact List.prefix_rfl
  | @runWait e i error _ =>
    cases error with
    | some error => exact List.prefix_rfl
    | none =>
      simp only [State.handleWait, written_startWatchdog]
      exact List.prefix_rfl

theorem wired (d : Side) : (system clock timeout).Wired
    (⟨fun s => s.received d, fun s => s.written d⟩ : Port State UInt8) where
  received_nil h0 := by
    obtain ⟨buffer, rfl⟩ := h0
    rfl
  written_nil h0 := by
    obtain ⟨buffer, rfl⟩ := h0
    rfl
  grows hs := written_next hs d

/-- What is written in a direction is a prefix of what is received in it. -/
theorem written_prefix {s : State} (h : (system clock timeout).Reachable s) (d : Side) :
    s.written d.other <+: s.received d := by
  obtain ⟨rest, hrest, -⟩ := ((relays_of_reach h).lanes d).lags
  exact ⟨rest, hrest.symm⟩

/-- **A session of the proxy relays.** -/
theorem node_relays (clock : Clock ℤ) (timeout : ℤ) : (node clock timeout).Relays where
  front := wired .client
  back := wired .server
  forth h := written_prefix h .client
  home h := written_prefix h .server

end Proxy

/-! ### The echo servers -/

namespace Echo

open Machine

/-- A session whose requests are those of the echo machine, and whose bytes are what is
seen of it, writes nothing but what it has received. -/
theorem written_prefix_of_simulates {σ ι : Type} {M : System σ ι}
    {observe : σ → ι → σ → List Machine.Event} {R : σ → Turn → Prop} {p : Port σ UInt8}
    (hsim : M.Simulates turns observe R)
    (hbytes : ∀ {s l s'}, M.next s l = some s' →
      p.received s' = p.received s ++ received (observe s l s') ∧
        p.written s' = p.written s ++ sent (observe s l s'))
    (hinit : ∀ s, M.init s → p.received s = [] ∧ p.written s = [] ∧ ∃ t, t.rest = [] ∧ R s t)
    {s : σ} (h : M.Reachable s) : p.written s <+: p.received s := by
  suffices hlag : ∃ t, R s t ∧ p.received s = p.written s ++ t.rest by
    obtain ⟨t, -, heq⟩ := hlag
    exact ⟨t.rest, heq.symm⟩
  refine h.invariant (I := fun s => ∃ t, R s t ∧ p.received s = p.written s ++ t.rest) ?_ ?_
  · intro s h0
    obtain ⟨hreceived, hwritten, t, hrest, hR⟩ := hinit s h0
    exact ⟨t, hR, by rw [hreceived, hwritten, hrest]; rfl⟩
  · intro s l s' _ hI _ hs
    obtain ⟨t, hR, heq⟩ := hI
    obtain ⟨t', hrun, hR'⟩ := hsim s t l s' hR hs
    obtain ⟨hreceived, hwritten⟩ := hbytes hs
    refine ⟨t', hR', ?_⟩
    rw [hreceived, hwritten, heq, List.append_assoc, (does_of_run hrun).echoed, List.append_assoc]

variable {clock : Clock ℤ} {timeout : ℤ}

theorem bytes_startWatchdog (s : State) :
    (s.startWatchdog clock).received = s.received ∧
      (s.startWatchdog clock).written = s.written := by
  simp only [State.startWatchdog]
  split <;> exact ⟨rfl, rfl⟩

variable (clock timeout) in
/-- No handler moves a byte. -/
theorem bytes_handle (s : State) (c : Completion) :
    (s.handle clock timeout c).received = s.received ∧
      (s.handle clock timeout c).written = s.written := by
  unfold State.handle
  split
  · cases c with
    | receive error n => cases error <;> exact ⟨rfl, rfl⟩
    | write error n => cases error <;> exact ⟨rfl, rfl⟩
    | wait error => cases error <;> exact ⟨rfl, rfl⟩
  · cases c with
    | receive error n => cases error <;> exact ⟨rfl, rfl⟩
    | write error n => cases error <;> exact ⟨rfl, rfl⟩
    | wait error =>
      cases error with
      | some error => exact ⟨rfl, rfl⟩
      | none => exact bytes_startWatchdog s

/-- Requests are no bytes. -/
theorem bytes_requests (s : State) (ops : List (Operation × ℤ)) :
    received (s.requests ops) = [] ∧ sent (s.requests ops) = [] := by
  induction ops with
  | nil => exact ⟨rfl, rfl⟩
  | cons op ops ih => exact ih

/-- The history of a session is what is seen of it. -/
theorem bytes_next {s s' : State} {l : Label} (h : s.next clock timeout l = some s') :
    s'.received = s.received ++ received (observe s l s') ∧
      s'.written = s.written ++ sent (observe s l s') := by
  cases next_step h with
  | elapse | receiveFails _ | writeDone _ | writeFails _ | waitDone _ =>
    exact ⟨(List.append_nil _).symm, (List.append_nil _).symm⟩
  | @receiveDone i chunk since _ _ =>
    simp [observe, received, sent, Event.bytesIn, Event.bytesOut, State.complete]
  | writeSome _ _ _ _ =>
    simp [observe, received, sent, Event.bytesIn, Event.bytesOut]
  | @run i c _ =>
    obtain ⟨hreceived, hwritten⟩ := bytes_handle clock timeout (s.dequeue i) c
    rw [observe, (bytes_requests _ _).1, (bytes_requests _ _).2, hreceived, hwritten]
    exact ⟨(List.append_nil _).symm, (List.append_nil _).symm⟩

/-- A session of `server.cc`. -/
def peer (clock : Clock ℤ) (timeout : ℤ) (withTimeout : Bool) : Peer UInt8 where
  State := State
  Label := Label
  system := system clock timeout withTimeout
  port := ⟨State.received, State.written⟩

/-- As it is started. -/
theorem started {withTimeout : Bool} {s : State} (h : (system clock timeout withTimeout).init s) :
    s.received = [] ∧ s.written = [] ∧ ∃ t : Turn, t.rest = [] ∧ s.InTurn t := by
  obtain ⟨buffer, rfl⟩ := h
  have hstarts := State.Starts.start clock timeout (.new withTimeout buffer)
  obtain ⟨now, hout⟩ := hstarts.outstanding
  have hbytes : ((State.new withTimeout buffer).start clock timeout).received = [] ∧
      ((State.new withTimeout buffer).start clock timeout).written = [] := by
    unfold State.start
    split
    · exact ⟨rfl, rfl⟩
    · exact bytes_startWatchdog _
  exact ⟨hbytes.1, hbytes.2, .receiving, rfl, ⟨now, hout⟩, hstarts.io⟩

/-- **A session of `server.cc` echoes.** -/
theorem peer_echoes (clock : Clock ℤ) (timeout : ℤ) (withTimeout : Bool) :
    (peer clock timeout withTimeout).Echoes where
  wired :=
    { received_nil := fun h0 => (started h0).1
      written_nil := fun h0 => (started h0).2.1
      grows := fun hs => ⟨_, (bytes_next hs).2.symm⟩ }
  echoed h := by
    have hbytes := @bytes_next clock timeout
    exact written_prefix_of_simulates (p := (peer clock timeout withTimeout).port)
      (simulates clock timeout withTimeout) (fun h => hbytes h) (fun _ => started) h

namespace Coroutine

variable {dispatches : Bool}

theorem bytes_startTimeout (s : State) :
    (s.startTimeout clock timeout dispatches).received = s.received ∧
      (s.startTimeout clock timeout dispatches).written = s.written := by
  unfold State.startTimeout
  split <;> exact ⟨rfl, rfl⟩

theorem bytes_watch (s : State) :
    (s.watch clock).received = s.received ∧ (s.watch clock).written = s.written := by
  simp only [State.watch]
  split <;> exact ⟨rfl, rfl⟩

variable (clock timeout dispatches) in
/-- No task moves a byte. -/
theorem bytes_resume (s : State) (task : Task) :
    (s.resume clock timeout dispatches task).received = s.received ∧
      (s.resume clock timeout dispatches task).written = s.written := by
  cases task with
  | echo =>
    simp only [State.resume]
    split
    · exact bytes_startTimeout s
    · exact ⟨rfl, rfl⟩
  | received ec n =>
    simp only [State.resume]
    cases ec with
    | none =>
      split
      · exact bytes_startTimeout s.cancelTimer
      · exact ⟨rfl, rfl⟩
    | some error => split <;> exact ⟨rfl, rfl⟩
  | written ec =>
    simp only [State.resume]
    cases ec with
    | none =>
      split
      · exact bytes_startTimeout s.cancelTimer
      · exact ⟨rfl, rfl⟩
    | some error => split <;> exact ⟨rfl, rfl⟩
  | wait => exact ⟨rfl, rfl⟩
  | waited ec => cases ec <;> exact ⟨rfl, rfl⟩
  | watch => exact bytes_watch s
  | watched ec =>
    cases ec with
    | none => exact bytes_watch s
    | some error => exact ⟨rfl, rfl⟩

/-- A request is no bytes. -/
theorem bytes_seen (s : State) : received s.seen = [] ∧ sent s.seen = [] := by
  unfold State.seen
  cases s.outstanding <;> exact ⟨rfl, rfl⟩

/-- The history of a session is what is seen of it. -/
theorem bytes_next {s s' : State} {l : Label} (h : s.next clock timeout dispatches l = some s') :
    s'.received = s.received ++ received (observe s l s') ∧
      s'.written = s.written ++ sent (observe s l s') := by
  have hnone : ∀ {s' : State}, s'.received = s.received ∧ s'.written = s.written →
      s'.received = s.received ++ [] ∧ s'.written = s.written ++ [] := by
    simp
  cases l with
  | elapse =>
    obtain rfl := Option.some.inj h
    exact hnone ⟨rfl, rfl⟩
  | receiveDone chunk =>
    simp only [State.next] at h
    split at h <;> try cases h
    split at h <;> cases h
    simp [observe, received, sent, Event.bytesIn, Event.bytesOut, State.complete]
  | writeSome k =>
    simp only [State.next] at h
    split at h <;> try cases h
    split at h <;> cases h
    simp [observe, received, sent, Event.bytesIn, Event.bytesOut]
  | receiveFails error | writeFails error | waitDone =>
    simp only [State.next] at h
    split at h <;> cases h
    exact hnone ⟨rfl, rfl⟩
  | writeDone =>
    simp only [State.next] at h
    split at h <;> try cases h
    split at h <;> cases h
    exact hnone ⟨rfl, rfl⟩
  | run i =>
    simp only [State.next] at h
    split at h
    · rename_i task htask
      cases h
      have hbytes := bytes_resume clock timeout dispatches (s.dequeue i) task
      rw [observe]
      split
      · exact hnone hbytes
      · rw [(bytes_seen _).1, (bytes_seen _).2]
        exact hnone hbytes
    · cases h

/-- A session of `co_server.cc`. -/
def peer (clock : Clock ℤ) (timeout : ℤ) (dispatches withTimeout : Bool) : Peer UInt8 where
  State := State
  Label := Label
  system := system clock timeout dispatches withTimeout
  port := ⟨State.received, State.written⟩

/-- As it is started. -/
theorem started {withTimeout : Bool} {s : State}
    (h : (system clock timeout dispatches withTimeout).init s) :
    s.received = [] ∧ s.written = [] ∧ ∃ t : Turn, t.rest = [] ∧ s.InTurn t := by
  obtain rfl : s = (State.new withTimeout).start := h
  refine ⟨rfl, rfl, .toReceive, rfl, rfl, .echo, ?_, .inl rfl⟩
  cases withTimeout <;> rfl

/-- **A session of `co_server.cc` echoes.** -/
theorem peer_echoes (clock : Clock ℤ) (timeout : ℤ) (dispatches withTimeout : Bool) :
    (peer clock timeout dispatches withTimeout).Echoes where
  wired :=
    { received_nil := fun h0 => (started h0).1
      written_nil := fun h0 => (started h0).2.1
      grows := fun hs => ⟨_, (bytes_next hs).2.symm⟩ }
  echoed h := by
    have hbytes := @bytes_next clock timeout dispatches
    exact written_prefix_of_simulates (p := (peer clock timeout dispatches withTimeout).port)
      (simulates clock timeout dispatches withTimeout) (fun h => hbytes h) (fun _ => started) h

end Coroutine

end Echo

end CcSnippets.Asio

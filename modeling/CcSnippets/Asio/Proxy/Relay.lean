import CcSnippets.Asio.Proxy.Steps

/-!
# CcSnippets.Asio.Proxy.Relay

Each direction of the proxy has a **lane** of its own: a buffer, the bytes received
into it and written from it, and at most one operation or completion, which says how
the bytes received and written differ (`Lane.Ok`). A step of one direction does not
touch the lane of the other, and `stop` touches neither: the next operation of a lane
finds its socket closed, and moves no byte.
-/

namespace CcSnippets.Asio.Proxy

open CcSnippets.Core

/-- The part of a session that one direction uses. -/
structure Lane where
  buffer : Buffer
  outstanding : List Operation
  completed : List Completion
  /-- The bytes received from the one peer. -/
  received : List UInt8
  /-- The bytes written to the other. -/
  written : List UInt8

def State.lane (s : State) (d : Side) : Lane where
  buffer := s.buffer d
  outstanding := s.outstanding d
  completed := s.completed d
  received := s.received d
  written := s.written d.other

namespace Lane

variable {d : Side} {l : Lane}

/-- At most a buffer of bytes is not written. -/
def Lags (l : Lane) : Prop := ∃ rest, l.received = l.written ++ rest ∧ rest.length ≤ bufferSize

/-- The first `n` bytes of the buffer are being written, the first `m` of them
through. -/
def Sends (l : Lane) (n m : ℕ) : Prop :=
  n ≤ bufferSize ∧ m ≤ n ∧ ∃ earlier, l.received = earlier ++ l.buffer.bytes.take n ∧
    l.written = earlier ++ l.buffer.bytes.take m

/-- Nothing is missing, or the rest of the first bytes of the buffer, which were being
written. -/
def Ceased (l : Lane) : Prop := l.received = l.written ∨ ∃ n m, l.Sends n m

end Lane

/-- The operation is of the direction `d`, and its lane as it should be then. -/
def Operation.Fits (d : Side) (l : Lane) : Operation → Prop
  | .receive socket buffer => socket = d ∧ buffer = d ∧ l.received = l.written
  | .write socket buffer n m => socket = d.other ∧ buffer = d ∧ l.Sends n m

/-- A lane whose last operation has completed is as it should be. -/
def Completion.Fits (l : Lane) : Completion → Prop
  | .receive none n => n ≤ bufferSize ∧ l.received = l.written ++ l.buffer.bytes.take n
  | .receive (some _) _ | .write none _ => l.received = l.written
  | .write (some _) m => ∃ n, l.Sends n m

/-- At most one operation or completion of the direction `d`, and the lane as it
should be. -/
inductive Lane.Ok (d : Side) (l : Lane) : Prop
  | quiet : l.outstanding = [] → l.completed = [] → l.Ceased → Ok d l
  | busy {op : Operation} : l.outstanding = [op] → l.completed = [] → op.Fits d l → Ok d l
  | queued {c : Completion} : l.outstanding = [] → l.completed = [c] → c.Fits l → Ok d l

namespace Lane

variable {d : Side} {l : Lane}

theorem lags_of_eq (h : l.received = l.written) : l.Lags :=
  ⟨[], by rw [h, List.append_nil], Nat.zero_le _⟩

theorem Sends.lags {n m : ℕ} (h : l.Sends n m) : l.Lags := by
  obtain ⟨hn, hm, earlier, hreceived, hwritten⟩ := h
  refine ⟨(l.buffer.bytes.take n).drop m, ?_, ?_⟩
  · rw [hreceived, hwritten, List.append_assoc]
    conv_lhs => rw [← List.take_append_drop m (l.buffer.bytes.take n)]
    rw [List.take_take, Nat.min_eq_left hm]
  · rw [List.length_drop, List.length_take]
    omega

theorem Ceased.lags (h : l.Ceased) : l.Lags := by
  rcases h with heq | ⟨n, m, hsends⟩
  · exact lags_of_eq heq
  · exact hsends.lags

/-- More of the bytes are through. -/
theorem Sends.some {n m k : ℕ} (h : l.Sends n m) (hk : m + k ≤ n) :
    { l with written := l.written ++ (l.buffer.bytes.take (m + k)).drop m }.Sends n (m + k) := by
  obtain ⟨hn, -, earlier, hreceived, hwritten⟩ := h
  refine ⟨hn, hk, earlier, hreceived, ?_⟩
  show l.written ++ (l.buffer.bytes.take (m + k)).drop m = earlier ++ l.buffer.bytes.take (m + k)
  rw [hwritten, List.append_assoc]
  conv_rhs => rw [← List.take_append_drop m (l.buffer.bytes.take (m + k))]
  rw [List.take_take, Nat.min_eq_left (Nat.le_add_right m k)]

namespace Ok

/-- An operation that is outstanding is the only one. -/
theorem of_outstanding (h : l.Ok d) {i : ℕ} {op : Operation}
    (hop : l.outstanding[i]? = some op) :
    l.outstanding.eraseIdx i = [] ∧ (∀ op', l.outstanding.set i op' = [op']) ∧
      l.completed = [] ∧ op.Fits d l := by
  cases h with
  | quiet hout _ _ | queued hout _ _ =>
    rw [hout] at hop
    cases hop
  | busy hout hdone hfits =>
    rw [hout] at hop
    obtain ⟨rfl, rfl⟩ := eq_of_getElem?_singleton hop
    rw [hout]
    exact ⟨rfl, fun _ => rfl, hdone, hfits⟩

/-- A completion that is queued is the only one. -/
theorem of_completed (h : l.Ok d) {i : ℕ} {c : Completion}
    (hc : l.completed[i]? = some c) :
    l.completed.eraseIdx i = [] ∧ l.outstanding = [] ∧ c.Fits l := by
  cases h with
  | quiet _ hdone _ | busy _ hdone _ =>
    rw [hdone] at hc
    cases hc
  | queued hout hdone hfits =>
    rw [hdone] at hc
    obtain ⟨rfl, rfl⟩ := eq_of_getElem?_singleton hc
    rw [hdone]
    exact ⟨rfl, hout, hfits⟩

/-- In whatever state, at most a buffer of bytes is not written. -/
theorem lags (h : l.Ok d) : l.Lags := by
  cases h with
  | quiet _ _ hceased => exact hceased.lags
  | @busy op _ _ hfits =>
    cases op with
    | receive socket buffer => exact lags_of_eq hfits.2.2
    | write socket buffer n m => exact hfits.2.2.lags
  | @queued c _ _ hfits =>
    cases c with
    | receive error n =>
      cases error with
      | none =>
        obtain ⟨hn, hreceived⟩ := hfits
        exact ⟨_, hreceived, (List.length_take_le n _).trans hn⟩
      | some e => exact lags_of_eq hfits
    | write error n =>
      cases error with
      | none => exact lags_of_eq hfits
      | some e =>
        obtain ⟨n, hsends⟩ := hfits
        exact hsends.lags

end Ok

end Lane

/-- What an error leaves missing. -/
theorem Completion.Fits.ceased {l : Lane} {c : Completion} (h : c.Fits l)
    (herror : c.error ≠ none) : l.Ceased := by
  cases c with
  | receive error n =>
    cases error with
    | none => exact absurd rfl herror
    | some e => exact .inl h
  | write error m =>
    cases error with
    | none => exact absurd rfl herror
    | some e =>
      obtain ⟨n, hsends⟩ := h
      exact .inr ⟨n, m, hsends⟩

/-! ### The lanes in a step -/

section

variable {clock : Clock ℤ} {timeout : ℤ} (s : State) (d : Side)

@[simp] theorem lane_stop : s.stop.lane d = s.lane d := rfl

variable (clock) in
theorem lane_asyncStart_self (op : Operation) :
    (s.asyncStart clock d op).lane d =
      { s.lane d with outstanding := (s.lane d).outstanding ++ [op] } := by
  simp only [State.lane, State.asyncStart, Function.update_self]

variable (clock) in
theorem lane_asyncStart_of_ne {e : Side} (h : d ≠ e) (op : Operation) :
    (s.asyncStart clock e op).lane d = s.lane d := by
  simp only [State.lane, State.asyncStart, Function.update_of_ne h]

theorem lane_receive_self (socket buffer : Side) :
    (s.receive clock timeout d socket buffer).lane d =
      { s.lane d with outstanding := (s.lane d).outstanding ++ [.receive socket buffer] } :=
  lane_asyncStart_self clock s d _

theorem lane_receive_of_ne {e : Side} (h : d ≠ e) (socket buffer : Side) :
    (s.receive clock timeout e socket buffer).lane d = s.lane d :=
  lane_asyncStart_of_ne clock s d h _

theorem lane_send_self (socket buffer : Side) (n : ℕ) :
    (s.send clock timeout d socket buffer n).lane d =
      { s.lane d with
        outstanding := (s.lane d).outstanding ++
          [.write socket buffer (min n bufferSize) 0] } :=
  lane_asyncStart_self clock s d _

theorem lane_send_of_ne {e : Side} (h : d ≠ e) (socket buffer : Side) (n : ℕ) :
    (s.send clock timeout e socket buffer n).lane d = s.lane d :=
  lane_asyncStart_of_ne clock s d h _

@[simp] theorem lane_startWatchdog (e : Side) : (s.startWatchdog clock e).lane d = s.lane d := by
  simp only [State.startWatchdog]
  split <;> rfl

theorem lane_complete_self (i : ℕ) (c : Completion) :
    (s.complete d i c).lane d =
      { s.lane d with
        outstanding := (s.lane d).outstanding.eraseIdx i
        completed := (s.lane d).completed ++ [c] } := by
  simp only [State.lane, State.complete, Function.update_self]

theorem lane_complete_of_ne {e : Side} (h : d ≠ e) (i : ℕ) (c : Completion) :
    (s.complete e i c).lane d = s.lane d := by
  simp only [State.lane, State.complete, Function.update_of_ne h]

theorem lane_dequeue_self (i : ℕ) :
    (s.dequeue d i).lane d =
      { s.lane d with completed := (s.lane d).completed.eraseIdx i } := by
  simp only [State.lane, State.dequeue, Function.update_self]

theorem lane_dequeue_of_ne {e : Side} (h : d ≠ e) (i : ℕ) :
    (s.dequeue e i).lane d = s.lane d := by
  simp only [State.lane, State.dequeue, Function.update_of_ne h]

/-- A chunk is received in the other direction. -/
theorem lane_receiveDone_of_ne {e : Side} (h : d ≠ e) (i : ℕ) (chunk : Chunk) :
    State.lane { s.complete e i (.receive none chunk.bytes.length) with
      buffer := Function.update s.buffer e ((s.buffer e).fill chunk)
      received := Function.update s.received e (s.received e ++ chunk.bytes) } d = s.lane d := by
  simp only [State.lane, State.complete, Function.update_of_ne h]

/-- Bytes of the other direction are written. -/
theorem lane_writeSome_of_ne {e : Side} (h : d ≠ e) (ops : List Operation)
    (bytes : List UInt8) :
    State.lane { s with
      outstanding := Function.update s.outstanding e ops
      written := Function.update s.written e.other bytes } d = s.lane d := by
  have hother : d.other ≠ e.other := by
    cases d <;> cases e <;> first | exact absurd rfl h | decide
  simp only [State.lane, Function.update_of_ne h, Function.update_of_ne hother]

@[simp] theorem lane_fails (socket : Side) (e : Event) : (s.fails socket e).lane d = s.lane d := by
  unfold State.fails
  split <;> rfl

/-- A connect starts a receive in each direction. -/
theorem lane_handleConnect :
    (s.handleConnect clock timeout none).lane d =
      { s.lane d with outstanding := (s.lane d).outstanding ++ [.receive d d] } := by
  simp only [State.handleConnect, State.startWatchdogs, lane_startWatchdog,
    State.receiveFromServer, State.receiveFromClient]
  cases d with
  | client => rw [lane_receive_of_ne _ _ (by decide), lane_receive_self]
  | server => rw [lane_receive_self, lane_receive_of_ne _ _ (by decide)]

end

/-- Every lane is as it should be, and nothing is relayed before the connect is
handled. -/
structure Relays (s : State) : Prop where
  lanes : ∀ d, (s.lane d).Ok d
  before : s.connect ≠ .handled → ∀ d, (s.lane d).outstanding = [] ∧
    (s.lane d).completed = [] ∧ (s.lane d).received = (s.lane d).written

theorem relays_start (buffer : Side → Buffer) : Relays (.start buffer) where
  lanes _ := .quiet rfl rfl (.inl rfl)
  before _ _ := ⟨rfl, rfl, rfl⟩

namespace Relays

variable {clock : Clock ℤ} {timeout : ℤ} {s s' : State}

/-- A step after the connect, in which the lane of `d` only changes, to one that is
as it should be. -/
theorem of_lane (h : Relays s) (hconnect : s'.connect = s.connect) {d : Side}
    (hhandled : s.connect = .handled) (hd : (s'.lane d).Ok d)
    (hothers : ∀ e, e ≠ d → s'.lane e = s.lane e) : Relays s' where
  lanes e := by
    by_cases hed : e = d
    · rw [hed]
      exact hd
    · rw [hothers e hed]
      exact h.lanes e
  before hnot := absurd (hconnect.trans hhandled) hnot

/-- A step that relays nothing. -/
theorem of_same (h : Relays s) (hconnect : s.connect = .handled → s'.connect = .handled)
    (hsame : ∀ d, s'.lane d = s.lane d) : Relays s' where
  lanes d := by
    rw [hsame]
    exact h.lanes d
  before hnot d := by
    rw [hsame]
    exact h.before (fun hhandled => hnot (hconnect hhandled)) d

/-- Where an operation or a completion is there, the connect has been handled. -/
theorem handled_of_outstanding (h : Relays s) {d : Side} {i : ℕ} {op : Operation}
    (hop : (s.outstanding d)[i]? = some op) : s.connect = .handled := by
  by_contra hnot
  have hnone : s.outstanding d = [] := (h.before hnot d).1
  rw [hnone] at hop
  cases hop

theorem handled_of_completed (h : Relays s) {d : Side} {i : ℕ} {c : Completion}
    (hc : (s.completed d)[i]? = some c) : s.connect = .handled := by
  by_contra hnot
  have hnone : s.completed d = [] := (h.before hnot d).2.1
  rw [hnone] at hc
  cases hc

/-- The operation of the direction completes. -/
theorem complete (h : Relays s) {d : Side} {i : ℕ} {op : Operation}
    (hop : (s.outstanding d)[i]? = some op) {c : Completion}
    (hconnect : s'.connect = s.connect) {received written : List UInt8} {buffer : Buffer}
    (hlane : s'.lane d = ⟨buffer, (s.outstanding d).eraseIdx i, s.completed d ++ [c], received,
      written⟩)
    (hfits : c.Fits (s'.lane d)) (hothers : ∀ e, e ≠ d → s'.lane e = s.lane e) : Relays s' := by
  obtain ⟨hnone, -, hdone, -⟩ := (h.lanes d).of_outstanding hop
  refine h.of_lane hconnect (h.handled_of_outstanding hop) (.queued (c := c) ?_ ?_ hfits) hothers
  · rw [hlane]
    exact hnone
  · rw [hlane]
    show s.completed d ++ [c] = [c]
    rw [show s.completed d = [] from hdone, List.nil_append]

/-- The handler of a completion of the direction runs. -/
theorem handle (h : Relays s) {d : Side} {i : ℕ} {c : Completion}
    (hc : (s.completed d)[i]? = some c) :
    Relays ((s.dequeue d i).handle clock timeout d c) := by
  obtain ⟨hnone, hout, hfits⟩ := (h.lanes d).of_completed hc
  have hhandled := h.handled_of_completed hc
  have hlane := lane_dequeue_self s d i
  rw [hnone] at hlane
  rcases handle_cases (s.dequeue d i) d c with ⟨herror, heq⟩ | ⟨n, rfl, heq⟩ | ⟨n, rfl, heq⟩
  · rw [heq]
    refine h.of_lane rfl hhandled (d := d) (.quiet ?_ ?_ ?_) fun e he => ?_
    · rw [lane_stop, hlane]
      exact hout
    · rw [lane_stop, hlane]
    · rw [lane_stop, hlane]
      exact hfits.ceased herror
    · rw [lane_stop, lane_dequeue_of_ne _ _ he]
  · obtain ⟨hn, hreceived⟩ := hfits
    rw [heq]
    refine h.of_lane rfl hhandled (d := d)
      (.busy (?_ : _ = [Operation.write d.other d (min n bufferSize) 0]) ?_ ⟨rfl, rfl, ?_⟩)
      fun e he => ?_
    · rw [lane_send_self, hlane]
      show (s.lane d).outstanding ++ _ = _
      rw [hout, List.nil_append]
    · rw [lane_send_self, hlane]
    · -- the whole chunk is to be written
      rw [lane_send_self, hlane, Nat.min_eq_left hn]
      refine ⟨hn, Nat.zero_le n, (s.lane d).written, hreceived, ?_⟩
      rw [List.take_zero, List.append_nil]
    · rw [lane_send_of_ne _ _ he, lane_dequeue_of_ne _ _ he]
  · rw [heq]
    refine h.of_lane rfl hhandled (d := d)
      (.busy (?_ : _ = [Operation.receive d d]) ?_ ⟨rfl, rfl, ?_⟩) fun e he => ?_
    · rw [lane_receive_self, hlane]
      show (s.lane d).outstanding ++ _ = _
      rw [hout, List.nil_append]
    · rw [lane_receive_self, hlane]
    · rw [lane_receive_self, hlane]
      exact hfits
    · rw [lane_receive_of_ne _ _ he, lane_dequeue_of_ne _ _ he]

/-- A chunk is received into the buffer of the direction. -/
theorem receiveDone (h : Relays s) {d socket buffer : Side} {i : ℕ} {chunk : Chunk}
    (hop : (s.outstanding d)[i]? = some (.receive socket buffer)) :
    Relays { s.complete d i (.receive none chunk.bytes.length) with
      buffer := Function.update s.buffer buffer ((s.buffer buffer).fill chunk)
      received := Function.update s.received socket (s.received socket ++ chunk.bytes) } := by
  obtain ⟨-, -, -, rfl, rfl, heq⟩ := (h.lanes d).of_outstanding hop
  have hlane : State.lane { s.complete buffer i (.receive none chunk.bytes.length) with
      buffer := Function.update s.buffer buffer ((s.buffer buffer).fill chunk)
      received := Function.update s.received buffer (s.received buffer ++ chunk.bytes) } buffer =
      ⟨(s.buffer buffer).fill chunk, (s.outstanding buffer).eraseIdx i,
        s.completed buffer ++ [.receive none chunk.bytes.length],
        s.received buffer ++ chunk.bytes, s.written buffer.other⟩ := by
    simp only [State.lane, State.complete, Function.update_self]
  refine h.complete hop rfl hlane ?_ fun e he => ?_
  · rw [hlane]
    refine ⟨chunk.le, ?_⟩
    show s.received buffer ++ chunk.bytes =
      s.written buffer.other ++ ((s.buffer buffer).fill chunk).bytes.take chunk.bytes.length
    rw [Buffer.take_fill]
    exact congrArg (· ++ chunk.bytes) heq
  · exact lane_receiveDone_of_ne s e he i chunk

theorem receiveFails (h : Relays s) {d socket buffer : Side} {i : ℕ} {error : Error}
    (hop : (s.outstanding d)[i]? = some (.receive socket buffer)) (e : Event) :
    Relays ((s.complete d i (.receive (some error) 0)).fails socket e) := by
  obtain ⟨-, -, -, -, -, heq⟩ := (h.lanes d).of_outstanding hop
  refine h.complete hop (connect_fails _ _ _) ((lane_fails _ _ _ _).trans
    (lane_complete_self s d i _)) ?_ fun e he => ?_
  · rw [lane_fails, lane_complete_self]
    exact heq
  · rw [lane_fails, lane_complete_of_ne _ _ he]

theorem writeSome (h : Relays s) {d socket buffer : Side} {i n m k : ℕ}
    (hop : (s.outstanding d)[i]? = some (.write socket buffer n m)) (hk : m + k ≤ n) :
    Relays { s with
      outstanding := Function.update s.outstanding d
        ((s.outstanding d).set i (.write socket buffer n (m + k)))
      written := Function.update s.written socket
        (s.written socket ++ ((s.buffer buffer).bytes.take (m + k)).drop m) } := by
  obtain ⟨-, hset, hdone, rfl, rfl, hsends⟩ := (h.lanes d).of_outstanding hop
  refine h.of_lane rfl (h.handled_of_outstanding hop) (d := buffer)
    (.busy (?_ : _ = [Operation.write buffer.other buffer n (m + k)]) hdone ⟨rfl, rfl, ?_⟩)
    fun e he => ?_
  · show Function.update s.outstanding buffer _ buffer = _
    rw [Function.update_self]
    exact hset _
  · have hmore := hsends.some hk
    simp only [State.lane, Function.update_self]
    exact hmore
  · exact lane_writeSome_of_ne s e he _ _

theorem writeDone (h : Relays s) {d socket buffer : Side} {i n : ℕ}
    (hop : (s.outstanding d)[i]? = some (.write socket buffer n n)) :
    Relays (s.complete d i (.write none n)) := by
  obtain ⟨-, -, -, -, -, -, -, earlier, hreceived, hwritten⟩ := (h.lanes d).of_outstanding hop
  refine h.complete hop rfl (lane_complete_self s d i _) ?_ fun e he => ?_
  · rw [lane_complete_self]
    exact hreceived.trans hwritten.symm
  · rw [lane_complete_of_ne _ _ he]

theorem writeFails (h : Relays s) {d socket buffer : Side} {i n m : ℕ} {error : Error}
    (hop : (s.outstanding d)[i]? = some (.write socket buffer n m)) (e : Event) :
    Relays ((s.complete d i (.write (some error) m)).fails socket e) := by
  obtain ⟨-, -, -, -, -, hsends⟩ := (h.lanes d).of_outstanding hop
  refine h.complete hop (connect_fails _ _ _) ((lane_fails _ _ _ _).trans
    (lane_complete_self s d i _)) ?_ fun e he => ?_
  · rw [lane_fails, lane_complete_self]
    exact ⟨n, hsends⟩
  · rw [lane_fails, lane_complete_of_ne _ _ he]

/-- The handler of the connect runs. -/
theorem handleConnect (h : Relays s) (hnot : s.connect ≠ .handled) (error : Option Error) :
    Relays ({ s with connect := .handled }.handleConnect clock timeout error) := by
  cases error with
  | some e => exact h.of_same (fun _ => rfl) fun _ => rfl
  | none =>
    have hconnect : ({ s with connect := .handled }.handleConnect clock timeout none).connect =
        .handled := by
      simp only [State.handleConnect, State.startWatchdogs, connect_startWatchdog]
      rfl
    refine ⟨fun d => ?_, fun habsurd => absurd hconnect habsurd⟩
    obtain ⟨hout, hdone, heq⟩ := h.before hnot d
    refine .busy (?_ : _ = [Operation.receive d d]) ?_ ⟨rfl, rfl, ?_⟩
    · rw [lane_handleConnect]
      show (s.lane d).outstanding ++ [.receive d d] = [.receive d d]
      rw [hout, List.nil_append]
    · rw [lane_handleConnect]
      exact hdone
    · rw [lane_handleConnect]
      exact heq

end Relays

/-- **Every step keeps the lanes as they should be.** -/
theorem relays_next {clock : Clock ℤ} {timeout : ℤ} {s s' : State} {l : Label} (h : Relays s)
    (hs : s.next clock timeout l = some s') : Relays s' := by
  cases next_step hs with
  | elapse => exact h.of_same id fun _ => rfl
  | connectDone hout =>
    refine h.of_same (fun hhandled => ?_) fun _ => rfl
    rw [hout] at hhandled
    cases hhandled
  | receiveDone hop _ => exact h.receiveDone hop
  | receiveFails hop => exact h.receiveFails hop _
  | writeSome hop _ _ hle => exact h.writeSome hop hle
  | writeDone hop => exact h.writeDone hop
  | writeFails hop => exact h.writeFails hop _
  | waitDone _ => exact h.of_same id fun _ => rfl
  | runConnect hconnect => exact h.handleConnect (by simp [hconnect]) _
  | runIo hc => exact h.handle hc
  | @runWait d i error _ =>
    cases error with
    | some e => exact h.of_same id fun _ => rfl
    | none =>
      refine h.of_same (fun hhandled => ?_) fun e => lane_startWatchdog _ e d
      exact (connect_startWatchdog (s.dequeueWait d i) d).trans hhandled

theorem relays_of_reach {clock : Clock ℤ} {timeout : ℤ} {s : State}
    (h : (system clock timeout).Reachable s) : Relays s := by
  refine h.invariant (I := Relays) (fun s h0 => ?_) fun _ _ _ _ hr _ hs => relays_next hr hs
  obtain ⟨buffer, rfl⟩ := h0
  exact relays_start buffer

end CcSnippets.Asio.Proxy

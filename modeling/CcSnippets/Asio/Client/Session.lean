import CcSnippets.Core.Relay
import CcSnippets.Asio.Client.Counts

/-!
# CcSnippets.Asio.Client.Session

One session of either client with the **bytes** of its connection.

A write puts the bytes of its message through in some pieces, and a read takes those
of the reply in some pieces; each completes with its last byte, or fails before that.
What follows is the reaction of the client (`Program`).

Where what the session receives is a prefix of what it has written, every read that
succeeds finds the message in its buffer (`Dialogue.Sound`): the n-th reply is complete
before the next message is written.
-/

namespace CcSnippets.Asio.Client

open CcSnippets.Core

/-! ### The clients as programs -/

/-- A client: how it goes on behind an operation. -/
structure Program where
  Point : Type
  react : Point → Session → Option Error → Reaction Point
  /-- Behind the connect. -/
  first : Point
  /-- Where the coroutine is meanwhile. -/
  point : Point → Coroutine.Point

/-- `client.cc`. -/
def Callback.program : Program where
  Point := Callback.Handler
  react := Callback.handle
  first := .handleConnect
  point := Callback.Handler.point

/-- `co_client.cc`. -/
def Coroutine.program : Program where
  Point := Coroutine.Point
  react := Coroutine.resume
  first := .connect
  point := id

/-! ### A session and its connection -/

structure Dialogue (P : Program) where
  session : Session
  /-- The operation outstanding, and where its completion continues. -/
  pending : Option (Operation × P.Point)
  /-- The bytes of it that are through. -/
  moved : List UInt8
  counters : Counters
  received : List UInt8
  written : List UInt8
  /-- The buffers as each read that has succeeded left them. -/
  reads : List Session

/-- The operation is through with these bytes. -/
def Operation.complete (moved : List UInt8) : Operation → Bool
  | .connect _ | .wait _ => true
  | .write bytes => moved.length = bytes.length
  | .read size => moved.length = size

def Operation.isRead : Operation → Bool
  | .read _ => true
  | _ => false

/-- What happens next, with the choices of the network. -/
inductive Dialogue.Label
  /-- The write gets `k` more bytes through. -/
  | writeSome (k : ℕ)
  /-- The read gets some more bytes. -/
  | readSome (bytes : List UInt8)
  /-- The operation completes. -/
  | done
  | fails (error : Error)

namespace Dialogue

variable {P : Program}

/-- A session that connects. -/
def start (P : Program) (port : ℕ) : Dialogue P where
  session := .new
  pending := some (.connect port, P.first)
  moved := []
  counters _ := 0
  received := []
  written := []
  reads := []

/-- The operation completes, and what follows it runs. -/
def proceed (s : Dialogue P) (op : Operation) (p : P.Point) (error : Option Error) :
    Dialogue P :=
  let session := op.deliver ⟨error, s.moved⟩ s.session
  let r := P.react p session error
  { s with
    session := r.session
    pending := r.next
    moved := []
    counters := s.counters.updates r.updates
    reads := if op.isRead ∧ error = none then s.reads ++ [session] else s.reads }

/-- The successor of a state. -/
def next (s : Dialogue P) : Label → Option (Dialogue P)
  | .writeSome k =>
    match s.pending with
    | some (.write bytes, _) =>
      if 0 < k ∧ s.moved.length + k ≤ bytes.length then
        some { s with
          moved := s.moved ++ (bytes.drop s.moved.length).take k
          written := s.written ++ (bytes.drop s.moved.length).take k }
      else none
    | _ => none
  | .readSome bytes =>
    match s.pending with
    | some (.read size, _) =>
      if bytes ≠ [] ∧ s.moved.length + bytes.length ≤ size then
        some { s with moved := s.moved ++ bytes, received := s.received ++ bytes }
      else none
    | _ => none
  | .done =>
    match s.pending with
    | some (op, p) => if op.complete s.moved then some (s.proceed op p none) else none
    | none => none
  | .fails error =>
    match s.pending with
    | some (op, p) => some (s.proceed op p (some error))
    | none => none

/-- Everything a step can do. -/
inductive Step (s : Dialogue P) : Dialogue P → Prop
  | writeSome {bytes : List UInt8} {p : P.Point} {k : ℕ} :
      s.pending = some (.write bytes, p) → s.moved.length + k ≤ bytes.length →
      Step s { s with
        moved := s.moved ++ (bytes.drop s.moved.length).take k
        written := s.written ++ (bytes.drop s.moved.length).take k }
  | readSome {size : ℕ} {p : P.Point} {bytes : List UInt8} :
      s.pending = some (.read size, p) → s.moved.length + bytes.length ≤ size →
      Step s { s with moved := s.moved ++ bytes, received := s.received ++ bytes }
  | done {op : Operation} {p : P.Point} :
      s.pending = some (op, p) → op.complete s.moved = true → Step s (s.proceed op p none)
  | fails {op : Operation} {p : P.Point} {error : Error} :
      s.pending = some (op, p) → Step s (s.proceed op p (some error))

theorem next_step {s s' : Dialogue P} {l : Label} (h : s.next l = some s') : Step s s' := by
  cases l with
  | writeSome k =>
    simp only [next] at h
    split at h
    · rename_i hpending
      split at h
      · rename_i hk
        obtain rfl := Option.some.inj h
        exact .writeSome hpending hk.2
      · cases h
    · cases h
  | readSome bytes =>
    simp only [next] at h
    split at h
    · rename_i hpending
      split at h
      · rename_i hbytes
        obtain rfl := Option.some.inj h
        exact .readSome hpending hbytes.2
      · cases h
    · cases h
  | done =>
    simp only [next] at h
    split at h
    · rename_i hpending
      split at h
      · rename_i hcomplete
        obtain rfl := Option.some.inj h
        exact .done hpending hcomplete
      · cases h
    · cases h
  | fails error =>
    simp only [next] at h
    split at h
    · rename_i hpending
      obtain rfl := Option.some.inj h
      exact .fails hpending
    · cases h

end Dialogue

/-- A session of a client. -/
def Program.peer (P : Program) (port : ℕ) : Peer UInt8 where
  State := Dialogue P
  Label := Dialogue.Label
  system := { init := fun s => s = .start P port, next := Dialogue.next }
  port := ⟨Dialogue.received, Dialogue.written⟩

theorem Program.wired (P : Program) (port : ℕ) :
    (P.peer port).system.Wired (P.peer port).port where
  received_nil h0 := by
    obtain rfl := h0
    rfl
  written_nil h0 := by
    obtain rfl := h0
    rfl
  grows hs := by
    cases Dialogue.next_step hs with
    | writeSome _ _ => exact List.prefix_append _ _
    | readSome _ _ | done _ _ | fails _ => exact List.prefix_rfl

/-! ### What follows an operation -/

/-- The updates leave `echoes` alone. -/
def Quiet (us : List Update) : Prop := ∀ u ∈ us, u.delta .echoes = 0

theorem Quiet.echoes {us : List Update} (h : Quiet us) (k : Counters) :
    k.updates us .echoes = k .echoes := by
  have hsum : (us.map (Update.delta .echoes)).sum = 0 := by
    refine List.sum_eq_zero fun d hd => ?_
    obtain ⟨u, hu, rfl⟩ := List.mem_map.mp hd
    exact h u hu
  rw [Counters.updates_apply, hsum]
  exact BitVec.add_zero _

/-- Everything that can follow an operation with this error at the point `p`. -/
inductive Program.Follows (P : Program) (p : P.Point) (session : Session) (e : Option Error) :
    Reaction P.Point → Prop
  | ends {r : Reaction P.Point} :
      r.next = none → e ≠ none → Quiet r.updates → Follows P p session e r
  | sends {us : List Update} {q : P.Point} :
      (P.point p = .connect ∨ P.point p = .delay) → P.point q = .send → Quiet us →
      Follows P p session e ⟨session.prepare, us, some (.write hello, q)⟩
  | reads {q : P.Point} : P.point p = .send → e = none → P.point q = .recv →
      Follows P p session e ⟨session, [], some (.read session.recvBuffer.length, q)⟩
  | waits {q : P.Point} : P.point p = .recv → e = none → P.point q = .delay →
      Follows P p session e ⟨session, session.check, some (.wait 1, q)⟩

/-- A client takes turns: a message is written, its reply read, and a while waited. -/
structure Program.TakesTurns (P : Program) : Prop where
  first : P.point P.first = .connect
  follows : ∀ p session e, P.Follows p session e (P.react p session e)

theorem Callback.takesTurns : Callback.program.TakesTurns where
  first := rfl
  follows h session e := by
    cases e with
    | some error =>
      refine .ends (handle_next_eq_none.mpr rfl) (by simp) ?_
      cases h <;>
        simp [Quiet, program, handle, handleConnect, handleWrite, handleRead, handleWait, onError,
          Reaction.after, Update.delta]
    | none =>
      cases h with
      | handleConnect =>
        have hquiet : Quiet [.increment .completed, .increment .connected] := by
          simp [Quiet, Update.delta]
        exact .sends (P := program) (p := Handler.handleConnect) (q := Handler.handleWrite)
          (.inl rfl) rfl hquiet
      | handleWrite =>
        exact .reads (P := program) (p := Handler.handleWrite) (q := Handler.handleRead) rfl rfl rfl
      | handleRead =>
        exact .waits (P := program) (p := Handler.handleRead) (q := Handler.handleWait) rfl rfl rfl
      | handleWait =>
        exact .sends (P := program) (p := Handler.handleWait) (q := Handler.handleWrite)
          (.inr rfl) rfl (by simp [Quiet])

theorem Coroutine.takesTurns : Coroutine.program.TakesTurns where
  first := rfl
  follows p session ec := by
    cases p with
    | connect =>
      cases ec with
      | some error =>
        exact .ends rfl (by simp)
          (by simp [Quiet, resume, program, Reaction.after, Update.delta])
      | none =>
        have hquiet : Quiet [.increment .completed, .increment .connected] := by
          simp [Quiet, Update.delta]
        exact .sends (P := program) (p := Point.connect) (q := Point.send) (.inl rfl) rfl hquiet
    | send =>
      cases ec with
      | some error =>
        exact .ends rfl (by simp) (by simp [Quiet, resume, program, fail, Update.delta])
      | none => exact .reads (P := program) (p := Point.send) (q := Point.recv) rfl rfl rfl
    | recv =>
      cases ec with
      | some error =>
        exact .ends rfl (by simp) (by simp [Quiet, resume, program, fail, Update.delta])
      | none => exact .waits (P := program) (p := Point.recv) (q := Point.delay) rfl rfl rfl
    | delay =>
      exact .sends (P := program) (p := Point.delay) (q := Point.send) (.inr rfl) rfl
        (by simp [Quiet])

/-! ### Turns -/

/-- The messages of `n` turns. -/
def messages (n : ℕ) : List UInt8 := (List.replicate n hello).flatten

theorem messages_succ (n : ℕ) : messages (n + 1) = messages n ++ hello := by
  rw [messages, List.replicate_succ', List.flatten_append]
  simp [messages]

namespace Dialogue

variable {P : Program} {s s' : Dialogue P}

/-- Where a session is in its turn, with the operation `op` outstanding: all the turns
before are complete. -/
def InTurn (s : Dialogue P) (op : Operation) : Coroutine.Point → Prop
  | .connect =>
    (∃ port, op = .connect port) ∧ s.received = messages s.reads.length ∧
      s.written = messages s.reads.length
  | .send =>
    op = .write hello ∧ s.session.sendBuffer = hello ∧
      s.session.recvBuffer.length = hello.length ∧ s.moved <+: hello ∧
      s.received = messages s.reads.length ∧ s.written = messages s.reads.length ++ s.moved
  | .recv =>
    op = .read hello.length ∧ s.session.sendBuffer = hello ∧
      s.session.recvBuffer.length = hello.length ∧
      s.received = messages s.reads.length ++ s.moved ∧
      s.written = messages s.reads.length ++ hello
  | .delay =>
    op = .wait 1 ∧ s.received = messages s.reads.length ∧ s.written = messages s.reads.length

/-- **Every read that has succeeded has found the message**, and has been counted. -/
structure Sound (s : Dialogue P) : Prop where
  inTurn : ∀ {op p}, s.pending = some (op, p) → s.InTurn op (P.point p)
  found : ∀ b ∈ s.reads, b.recvBuffer = b.sendBuffer
  counted : s.counters .echoes = BitVec.ofNat 32 s.reads.length

theorem sound_start (hP : P.TakesTurns) (port : ℕ) : (start P port).Sound where
  inTurn {op p} h := by
    obtain ⟨rfl, rfl⟩ := Prod.mk.inj (Option.some.inj h)
    rw [hP.first]
    exact ⟨⟨port, rfl⟩, rfl, rfl⟩
  found b hb := by cases hb
  counted := rfl

/-- The operation is not a read, or fails. -/
theorem proceed_quiet {op : Operation} {p : P.Point} {e : Option Error}
    (hread : ¬ (op.isRead = true ∧ e = none)) {r : Reaction P.Point}
    (hr : P.react p (op.deliver ⟨e, s.moved⟩ s.session) e = r) :
    s.proceed op p e =
      { s with
        session := r.session, pending := r.next, moved := []
        counters := s.counters.updates r.updates } := by
  rw [proceed, hr, if_neg hread]

/-- An operation completes. -/
theorem sound_proceed (hP : P.TakesTurns) (hs : s.Sound) (hfed : s.received <+: s.written)
    {op : Operation} {p : P.Point} {e : Option Error} (hpending : s.pending = some (op, p))
    (hready : e = none → op.complete s.moved = true) : (s.proceed op p e).Sound := by
  have hturn := hs.inTurn hpending
  have hfollows := hP.follows p (op.deliver ⟨e, s.moved⟩ s.session) e
  generalize hr : P.react p (op.deliver ⟨e, s.moved⟩ s.session) e = r at hfollows
  cases hfollows with
  | ends hnext he hquiet =>
    rw [proceed_quiet (fun h => he h.2) hr, hnext]
    exact ⟨by simp, hs.found, (hquiet.echoes _).trans hs.counted⟩
  | @sends us q hpoint hq hquiet =>
    -- all of the turn before is over
    have hover : op.isRead = false ∧ s.received = messages s.reads.length ∧
        s.written = messages s.reads.length := by
      rcases hpoint with hpoint | hpoint
      · rw [hpoint] at hturn
        obtain ⟨⟨port, rfl⟩, hreceived, hwritten⟩ := hturn
        exact ⟨rfl, hreceived, hwritten⟩
      · rw [hpoint] at hturn
        obtain ⟨rfl, hreceived, hwritten⟩ := hturn
        exact ⟨rfl, hreceived, hwritten⟩
    obtain ⟨hread, hreceived, hwritten⟩ := hover
    rw [proceed_quiet (by simp [hread]) hr]
    refine ⟨fun {op' p'} h => ?_, hs.found, (hquiet.echoes _).trans hs.counted⟩
    obtain ⟨rfl, rfl⟩ := Prod.mk.inj (Option.some.inj h)
    rw [hq]
    exact ⟨rfl, rfl, length_resize _ _, List.nil_prefix, hreceived,
      hwritten.trans (List.append_nil _).symm⟩
  | @reads q hpoint he hq =>
    rw [hpoint] at hturn
    obtain ⟨rfl, hsend, hrecv, hmoved, hreceived, hwritten⟩ := hturn
    have hlength : s.moved.length = hello.length := by
      simpa [Operation.complete] using hready he
    have hall : s.moved = hello := hmoved.eq_of_length hlength
    rw [proceed_quiet (by simp [Operation.isRead]) hr]
    refine ⟨fun {op' p'} h => ?_, hs.found, hs.counted⟩
    obtain ⟨rfl, rfl⟩ := Prod.mk.inj (Option.some.inj h)
    rw [hq]
    refine ⟨congrArg Operation.read hrecv, hsend, hrecv, ?_, ?_⟩
    · exact hreceived.trans (List.append_nil _).symm
    · rw [← hall]
      exact hwritten
  | @waits q hpoint he hq =>
    rw [hpoint] at hturn
    obtain ⟨rfl, hsend, hrecv, hreceived, hwritten⟩ := hturn
    have hlength : s.moved.length = hello.length := by
      simpa [Operation.complete] using hready he
    have hall : s.moved = hello := by
      rw [hreceived, hwritten, List.prefix_append_right_inj] at hfed
      exact hfed.eq_of_length hlength
    -- the read has filled the buffer with the message
    have hbuffers : (Operation.read hello.length).deliver ⟨e, s.moved⟩ s.session =
        ⟨hello, hello⟩ := by
      simp [Operation.deliver, hall, hsend, List.drop_eq_nil_of_le hrecv.le]
    rw [hbuffers] at hr
    have hproceed : s.proceed (.read hello.length) p e =
        { s with
          session := ⟨hello, hello⟩, pending := some (.wait 1, q), moved := []
          counters := s.counters.updates [.increment .echoes]
          reads := s.reads ++ [⟨hello, hello⟩] } := by
      rw [proceed, hbuffers, hr, if_pos ⟨rfl, he⟩]
      rfl
    have hmessages : messages (s.reads ++ [(⟨hello, hello⟩ : Session)]).length =
        messages s.reads.length ++ hello := by
      rw [List.length_append, List.length_singleton, messages_succ]
    rw [hproceed]
    refine ⟨fun {op' p'} h => ?_, fun b hb => ?_, ?_⟩
    · obtain ⟨rfl, rfl⟩ := Prod.mk.inj (Option.some.inj h)
      rw [hq]
      refine ⟨rfl, ?_, ?_⟩
      · rw [hmessages, ← hall]
        exact hreceived
      · rw [hmessages]
        exact hwritten
    · rcases List.mem_append.mp hb with hb | hb
      · exact hs.found b hb
      · rw [List.mem_singleton.mp hb]
    · show s.counters.updates [.increment .echoes] .echoes =
        BitVec.ofNat 32 (s.reads ++ [_]).length
      rw [Counters.updates_apply, hs.counted, List.length_append, BitVec.ofNat_add]
      rfl

/-- **Step lemma**, where what is received is a prefix of what is written. -/
theorem sound_step (hP : P.TakesTurns) (hs : s.Sound) (hstep : Step s s')
    (hfed : s'.received <+: s'.written) : s'.Sound := by
  cases hstep with
  | @writeSome bytes p k hpending hk =>
    refine ⟨fun {op' p'} h => ?_, hs.found, hs.counted⟩
    obtain ⟨rfl, rfl⟩ := Prod.mk.inj (Option.some.inj (hpending.symm.trans h))
    have hturn := hs.inTurn hpending
    cases hpoint : P.point p with
    | connect | recv | delay => simp [hpoint, InTurn] at hturn
    | send =>
      rw [hpoint] at hturn
      obtain ⟨hop, hsend, hrecv, hmoved, hreceived, hwritten⟩ := hturn
      obtain rfl := Operation.write.inj hop
      refine ⟨rfl, hsend, hrecv, ?_, hreceived, ?_⟩
      · obtain ⟨rest, hrest⟩ := hmoved
        rw [← hrest, List.drop_left, List.prefix_append_right_inj]
        exact List.take_prefix k rest
      · rw [hwritten, List.append_assoc]
  | @readSome size p bytes hpending hle =>
    refine ⟨fun {op' p'} h => ?_, hs.found, hs.counted⟩
    obtain ⟨rfl, rfl⟩ := Prod.mk.inj (Option.some.inj (hpending.symm.trans h))
    have hturn := hs.inTurn hpending
    cases hpoint : P.point p with
    | connect | send | delay => simp [hpoint, InTurn] at hturn
    | recv =>
      rw [hpoint] at hturn
      obtain ⟨hop, hsend, hrecv, hreceived, hwritten⟩ := hturn
      refine ⟨hop, hsend, hrecv, ?_, hwritten⟩
      rw [hreceived, List.append_assoc]
  | done hpending hcomplete => exact sound_proceed hP hs hfed hpending fun _ => hcomplete
  | fails hpending => exact sound_proceed hP hs hfed hpending fun h => by cases h

end Dialogue

/-- **A client that talks to one that echoes finds its message in every reply.** -/
theorem Program.sound_of_echoes {P : Program} (hP : P.TakesTurns) (port : ℕ) {Q : Peer UInt8}
    (hQ : Q.Echoes) {s : Dialogue P × Q.State} (h : ((P.peer port).meets Q).Reachable s) :
    s.1.Sound := by
  refine hQ.invariant (P.wired port) (I := Dialogue.Sound) ?_ ?_ h
  · intro s h0
    obtain rfl := h0
    exact Dialogue.sound_start hP port
  · intro s l s' hs hnext hfed
    exact Dialogue.sound_step hP hs (Dialogue.next_step hnext) hfed

end CcSnippets.Asio.Client

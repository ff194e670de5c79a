import CcSnippets.Asio.Client.Session
import CcSnippets.Asio.Relays

/-!
# CcSnippets.Asio.EndToEnd

The programs of `asio/echo` and `asio/proxy` **put together**: a session of either
client connected to a session of either server, directly or through any number of
proxies.

However the operations are cut into pieces, the timers expire and the connections
fail, a client never takes anything but its own message for the reply: every read that
succeeds is an echo, and is counted as one (`every_read_echoes`).
-/

namespace CcSnippets.Asio.EndToEnd

open CcSnippets.Core

/-! ### The programs put together -/

/-- The client, by its source. -/
inductive EchoClient
  /-- `client.cc`. -/
  | callbacks
  /-- `co_client.cc`. -/
  | coroutine
  deriving DecidableEq, Repr

def EchoClient.program : EchoClient → Client.Program
  | .callbacks => Client.Callback.program
  | .coroutine => Client.Coroutine.program

theorem EchoClient.takesTurns (client : EchoClient) : client.program.TakesTurns := by
  cases client with
  | callbacks => exact Client.Callback.takesTurns
  | coroutine => exact Client.Coroutine.takesTurns

/-- The server, by its source, with the argument of `start`. -/
inductive EchoServer
  /-- `server.cc`. -/
  | callbacks (withTimeout : Bool)
  /-- `co_server.cc`, where a spawn is queued or runs at once. -/
  | coroutines (dispatches withTimeout : Bool)
  deriving DecidableEq, Repr

/-- A session of the server. -/
def EchoServer.peer (clock : Clock ℤ) (timeout : ℤ) : EchoServer → Peer UInt8
  | .callbacks withTimeout => Echo.peer clock timeout withTimeout
  | .coroutines dispatches withTimeout => Echo.Coroutine.peer clock timeout dispatches withTimeout

theorem EchoServer.echoes (clock : Clock ℤ) (timeout : ℤ) (server : EchoServer) :
    (server.peer clock timeout).Echoes := by
  cases server with
  | callbacks withTimeout => exact Echo.peer_echoes clock timeout withTimeout
  | coroutines dispatches withTimeout =>
    exact Echo.Coroutine.peer_echoes clock timeout dispatches withTimeout

/-- Sessions of proxies, each with its clock and its timeout. -/
def proxies (settings : List (Clock ℤ × ℤ)) : List (Node UInt8) :=
  settings.map fun setting => Proxy.node setting.1 setting.2

theorem proxies_relay (settings : List (Clock ℤ × ℤ)) : ∀ N ∈ proxies settings, N.Relays := by
  intro N hN
  obtain ⟨setting, -, rfl⟩ := List.mem_map.mp hN
  exact Proxy.node_relays setting.1 setting.2

/-- A session of the client, connected to the server through the proxies. -/
def network (client : EchoClient) (port : ℕ) (settings : List (Clock ℤ × ℤ)) (clock : Clock ℤ)
    (timeout : ℤ) (server : EchoServer) :=
  (client.program.peer port).meets ((server.peer clock timeout).behind (proxies settings))

/-! ### One round trip -/

/-- The message, received whole. -/
def greeting : Chunk := ⟨Client.hello, by decide, by decide⟩

/-- One round trip through one proxy. -/
def roundTrip : List (Client.Dialogue.Label ⊕ (Proxy.Label ⊕ Echo.Label)) :=
  [.inr (.inl (.connectDone none)), .inr (.inl .runConnect), .inl .done,
    -- the message on its way to the server
    .inl (.writeSome 5), .inl (.writeSome 7), .inl .done,
    .inr (.inl (.receiveDone .client 0 greeting)), .inr (.inl (.runIo .client 0)),
    .inr (.inl (.writeSome .client 0 12)), .inr (.inl (.writeDone .client 0)),
    .inr (.inr (.receiveDone 0 greeting)), .inr (.inr (.run 0)),
    -- the reply on its way back
    .inr (.inr (.writeSome 0 12)), .inr (.inr (.writeDone 0)),
    .inr (.inl (.receiveDone .server 0 greeting)), .inr (.inl (.runIo .server 0)),
    .inr (.inl (.writeSome .server 0 12)), .inr (.inl (.writeDone .server 0)),
    .inl (.readSome Client.hello), .inl .done]

/-- The sessions as they are started. -/
def connecting : Client.Dialogue Client.Callback.program × (Proxy.State × Echo.State) :=
  (.start _ 8080, .start fun _ => .zero, (Echo.State.new false .zero).start ticking 10)

/-- The client, one proxy and the server. -/
def throughProxy := network .callbacks 8080 [(ticking, 10)] ticking 10 (.callbacks false)

theorem connecting_init : throughProxy.init connecting := ⟨rfl, ⟨_, rfl⟩, _, rfl⟩

/-- The reply is read. -/
theorem roundTrip_run : ∃ s, throughProxy.run connecting roundTrip = some s ∧
    s.1.reads = [⟨Client.hello, Client.hello⟩] := ⟨_, rfl, rfl⟩

/-! ### Any programs -/

/-- **Any two programs with proxies between them** receive nothing but what the other
one has written, in its order. -/
theorem proxies_transparent {P Q : Peer UInt8} (hP : P.system.Wired P.port)
    (hQ : Q.system.Wired Q.port) {settings : List (Clock ℤ × ℤ)}
    {s : P.State × (Q.behind (proxies settings)).State}
    (h : (P.meets (Q.behind (proxies settings))).Reachable s) :
    P.port.received s.1 <+: Q.port.written (Q.last (proxies settings) s.2) ∧
      Q.port.received (Q.last (proxies settings) s.2) <+: P.port.written s.1 :=
  Peer.meets_behind hP hQ (proxies_relay settings) h

/-- The client and the server behind one proxy. -/
theorem proxies_transparent_roundTrip :
    ∃ s, throughProxy.run connecting roundTrip = some s ∧
      (s.1.received <+: s.2.2.written ∧ s.2.2.received <+: s.1.written) := by
  obtain ⟨s, hrun, -⟩ := roundTrip_run
  have hreach : throughProxy.Reachable s := .run (.init connecting_init) hrun
  exact ⟨s, hrun, proxies_transparent (P := Client.Callback.program.peer 8080)
    (Q := Echo.peer ticking 10 false) (Client.Program.wired _ 8080)
    (Echo.peer_echoes ticking 10 false).wired hreach⟩

/-! ### The clients and the servers -/

variable {client : EchoClient} {port : ℕ} {settings : List (Clock ℤ × ℤ)} {clock : Clock ℤ}
  {timeout : ℤ} {server : EchoServer}

/-- **Every read of a client that succeeds is an echo of its message**, and the client
has counted as many. -/
theorem every_read_echoes {s}
    (h : (network client port settings clock timeout server).Reachable s) :
    (∀ b ∈ s.1.reads, b.recvBuffer = b.sendBuffer) ∧
      s.1.counters .echoes = BitVec.ofNat 32 s.1.reads.length := by
  have hserver := (server.echoes clock timeout).behind (proxies_relay settings)
  have hsound := Client.Program.sound_of_echoes client.takesTurns port hserver h
  exact ⟨hsound.found, hsound.counted⟩

/-- The reply has come back through one proxy. -/
theorem every_read_echoes_roundTrip :
    ∃ s, throughProxy.run connecting roundTrip = some s ∧ s.1.reads.length = 1 ∧
      ((∀ b ∈ s.1.reads, b.recvBuffer = b.sendBuffer) ∧
        s.1.counters .echoes = BitVec.ofNat 32 s.1.reads.length) := by
  obtain ⟨s, hrun, hreads⟩ := roundTrip_run
  exact ⟨s, hrun, congrArg List.length hreads,
    every_read_echoes (.run (.init connecting_init) hrun)⟩

end CcSnippets.Asio.EndToEnd

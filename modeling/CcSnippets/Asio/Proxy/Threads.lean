import CcSnippets.Core.Strand
import CcSnippets.Asio.Proxy.Basic

/-!
# CcSnippets.Asio.Proxy.Threads

A session of the proxy, if its `io_context` were run by several **threads**.

The session is what it does to its members, as in `CcSnippets.Asio.Echo.Threads`. Each
direction has a strand of its own, but both directions use both sockets, and `stop` all
four of the sockets and timers: the strands do not keep them apart, not even when the
session is connected (`races_between_directions`). It is `main` that does, as it runs the
`io_context` by one thread.
-/

namespace CcSnippets.Asio.Proxy.Threads

open CcSnippets.Core

/-- The data members of a session that its code writes; a direction is called after the
side that it receives from. -/
inductive Member
  /-- `client_` or `server_`. -/
  | socket (side : Side)
  /-- The timer of `watchdog1_` or `watchdog2_`. -/
  | timer (d : Side)
  | deadline (d : Side)
  deriving DecidableEq, Repr

/-- What is waited for. -/
inductive Operation
  | connect
  | receive (d : Side)
  | write (d : Side)
  | wait (d : Side)
  deriving DecidableEq, Repr

/-- A list of accesses. -/
abbrev Body := List (Access Member Operation)

/-- `start`, and the handlers with what is reported to them. -/
inductive Piece
  | start
  /-- The watchdogs may find their deadlines passed. -/
  | handleConnect (failed expired₁ expired₂ : Bool)
  | handleReceive (d : Side) (failed : Bool)
  | handleWrite (d : Side) (failed : Bool)
  | handleWait (d : Side) (failed expired : Bool)
  deriving DecidableEq, Repr

def stop : Body :=
  [.write (.socket .client), .write (.socket .server), .write (.timer .client),
    .write (.timer .server)]

/-- `receive_from_client` and `receive_from_server`. -/
def receiveFrom (d : Side) : Body :=
  [.write (.socket d), .start (.receive d), .write (.deadline d)]

/-- `send_to_server` and `send_to_client`. -/
def sendFrom (d : Side) : Body :=
  [.write (.socket d.other), .start (.write d), .write (.deadline d)]

/-- `watchdog::start`, with `stop` for its callback. -/
def startWatchdog (d : Side) (expired : Bool) : Body :=
  .read (.deadline d) ::
    if expired then stop
    else [.read (.deadline d), .write (.timer d), .write (.timer d), .start (.wait d)]

/-- What a piece does. -/
def body : Piece → Body
  | .start => [.write (.socket .server), .start .connect]
  | .handleConnect failed expired₁ expired₂ =>
    if failed then []
    else receiveFrom .client ++ receiveFrom .server ++ startWatchdog .client expired₁ ++
      startWatchdog .server expired₂
  | .handleReceive d failed => if failed then stop else sendFrom d
  | .handleWrite d failed => if failed then stop else receiveFrom d
  | .handleWait d failed expired => if failed then [] else startWatchdog d expired

/-- `strand1_` and `strand2_`, which the handlers of a direction and its timer have. -/
def strand : Piece → Option Side
  | .start | .handleConnect _ _ _ => none
  | .handleReceive d _ | .handleWrite d _ | .handleWait d _ _ => some d

/-- The handler of an operation. -/
def follows : Operation → Piece → Bool
  | .connect, .handleConnect _ _ _ => true
  | .receive d, .handleReceive e _ | .write d, .handleWrite e _ | .wait d, .handleWait e _ _ =>
    d == e
  | _, _ => false

/-- A session. -/
def code : Code Piece Member Operation Side := ⟨body, strand, follows⟩

/-- What `session::start` does is run first. -/
abbrev session (θ : Type) [DecidableEq θ] [Fintype θ] :
    System (Code.Pool θ Piece Member Operation) (Code.Label θ Piece) :=
  code.system θ [.start]

/-- The piece is part of connecting. -/
def Piece.connects : Piece → Prop
  | .start | .handleConnect _ _ _ => True
  | _ => False

variable {θ : Type} [DecidableEq θ] [Fintype θ]

/-- Two threads can be in the handlers of the two receives, the one about to close the socket
that the other is about to write to. -/
theorem exists_race_connected {t u : θ} (htu : t ≠ u) :
    ∃ s : Code.Pool θ Piece Member Operation, (session θ).Reachable s ∧
      Code.Absent Piece.connects s ∧ Code.Race s := by
  -- one thread runs `start` and the handler of the connect
  have hstart : (session θ).Reachable ⟨fun _ => none, [.connect], []⟩ :=
    Code.exists_run_piece (t := t) (i := 0) (p := Piece.start) (.init rfl) rfl rfl nofun
  have hconnect : (session θ).Reachable
      ⟨fun _ => none, [], [.handleConnect false false false]⟩ :=
    Code.exists_complete hstart (i := 0) rfl rfl
  have hconnected : (session θ).Reachable ⟨fun _ => none,
      [.receive .client, .receive .server, .wait .client, .wait .server], []⟩ :=
    Code.exists_run_piece hconnect (t := t) (i := 0) rfl rfl nofun
  -- the receive from the client fails, that from the server does not
  have hclient : (session θ).Reachable ⟨fun _ => none,
      [.receive .server, .wait .client, .wait .server], [.handleReceive .client true]⟩ :=
    Code.exists_complete hconnected (i := 0) rfl rfl
  have hserver : (session θ).Reachable ⟨fun _ => none,
      [.wait .client, .wait .server],
      [.handleReceive .client true, .handleReceive .server false]⟩ :=
    Code.exists_complete hclient (i := 0) rfl rfl
  obtain ⟨s, hs, hconnects, ht, hu⟩ :=
    Code.exists_beside_queued htu hserver nofun [] [] rfl rfl (P := Piece.connects) id id nofun
  exact ⟨s, hs, hconnects, t, u, _, _, _, _, _, _, htu, ht, hu, rfl⟩

/-- Threads that run handlers at once when the session is connected are in different
directions. -/
theorem directions_of_ne {s : Code.Pool θ Piece Member Operation} (h : (session θ).Reachable s)
    (hconnected : Code.Absent Piece.connects s) {t u : θ} (htu : t ≠ u) {p q : Piece}
    {as bs : Body} (hp : s.running t = some (p, as)) (hq : s.running u = some (q, bs)) :
    ∃ d, strand p = some d ∧ strand q = some d.other := by
  have hbound : ∀ {r : Piece}, ¬ r.connects → ∃ d, strand r = some d := by
    intro r hr
    cases r with
    | start => exact absurd trivial hr
    | handleConnect _ _ _ => exact absurd trivial hr
    | handleReceive d _ | handleWrite d _ | handleWait d _ _ => exact ⟨d, rfl⟩
  obtain ⟨d, hd⟩ := hbound (hconnected.2 t _ hp)
  obtain ⟨e, he⟩ := hbound (hconnected.2 u _ hq)
  have hne : e ≠ d := fun hed => Code.apart_of_ne h htu hp hq hd (hed ▸ he)
  refine ⟨d, hd, he.trans (congrArg some ?_)⟩
  cases d with
  | client =>
    cases e with
    | client => exact absurd rfl hne
    | server => rfl
  | server =>
    cases e with
    | client => rfl
    | server => exact absurd rfl hne

/-- **A session of the proxy is free of races exactly where one thread runs the
`io_context`**: that it is connected does not help, as its two directions race. Only they do:
any two threads about to do conflicting accesses then are in different ones. -/
theorem races_between_directions :
    ((∀ s : Code.Pool θ Piece Member Operation, (session θ).Reachable s → ¬ Code.Race s) ↔
      Subsingleton θ) ∧
    ((∀ s : Code.Pool θ Piece Member Operation, (session θ).Reachable s →
      Code.Absent Piece.connects s → ¬ Code.Race s) ↔ Subsingleton θ) ∧
    ∀ s : Code.Pool θ Piece Member Operation, (session θ).Reachable s →
      Code.Absent Piece.connects s → ∀ t u p q a b as bs, t ≠ u →
      s.running t = some (p, a :: as) → s.running u = some (q, b :: bs) → a.Conflicts b →
      ∃ d, strand p = some d ∧ strand q = some d.other := by
  have honly : (∀ s : Code.Pool θ Piece Member Operation, (session θ).Reachable s →
      Code.Absent Piece.connects s → ¬ Code.Race s) → Subsingleton θ := by
    refine fun hfree => ⟨fun t u => ?_⟩
    by_contra htu
    obtain ⟨s, hs, hconnected, hrace⟩ := exists_race_connected htu
    exact hfree s hs hconnected hrace
  refine ⟨⟨fun hfree => honly fun s hs _ => hfree s hs, fun hsub s _ => ?_⟩,
    ⟨honly, fun hsub s _ _ => ?_⟩, fun s h hconnected t u p q a b as bs htu hp hq _ =>
      directions_of_ne h hconnected htu hp hq⟩
  · exact Code.not_race_of_subsingleton s
  · exact Code.not_race_of_subsingleton s

end CcSnippets.Asio.Proxy.Threads

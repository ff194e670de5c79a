import Mathlib.Data.List.Infix
import CcSnippets.Core.Transition

/-!
# CcSnippets.Core.Relay

Programs connected by **reliable byte streams**.

A program sees a connection as what it has received from it and what it has written to it
(`Port`). A connection of two programs (`System.linked`) delivers what the one has
written to the other, in order and late: at any time what was received is a prefix of
what was written at the other end.

A program with one connection **echoes** where it writes nothing but what it has
received (`Peer.Echoes`), and one between two connections **relays** where it writes to
each of them nothing but what it has received from the other one (`Node.Relays`). A peer
that echoes still does behind any chain of nodes that relay (`Peer.Echoes.behind`), and
whoever talks to it receives nothing but what it has written itself
(`Peer.Echoes.answers`).
-/

namespace CcSnippets.Core

/-- What a program has received from a connection and written to it. -/
structure Port (σ α : Type*) where
  received : σ → List α
  written : σ → List α

namespace System

variable {σ σ' ι ι' α : Type*}

/-- Nothing has happened on the connection at first, and what has been written stays. -/
structure Wired (M : System σ ι) (p : Port σ α) : Prop where
  received_nil : ∀ {s}, M.init s → p.received s = []
  written_nil : ∀ {s}, M.init s → p.written s = []
  grows : ∀ {s l s'}, M.next s l = some s' → p.written s <+: p.written s'

variable [DecidableEq α]

/-- Two programs with a connection between `p` and `q`. -/
def linked (M : System σ ι) (p : Port σ α) (N : System σ' ι') (q : Port σ' α) :
    System (σ × σ') (ι ⊕ ι') where
  init s := M.init s.1 ∧ N.init s.2
  next s
    | .inl l =>
      (M.next s.1 l).bind fun t => if p.received t <+: q.written s.2 then some (t, s.2) else none
    | .inr l =>
      (N.next s.2 l).bind fun t => if q.received t <+: p.written s.1 then some (s.1, t) else none

variable {M : System σ ι} {p : Port σ α} {N : System σ' ι'} {q : Port σ' α}

/-- A step of the one, or of the other, that receives nothing but what was written. -/
theorem linked_next {s s' : σ × σ'} {l : ι ⊕ ι'} (h : (M.linked p N q).next s l = some s') :
    (∃ l', l = .inl l' ∧ M.next s.1 l' = some s'.1 ∧ s'.2 = s.2 ∧
      p.received s'.1 <+: q.written s.2) ∨
    (∃ l', l = .inr l' ∧ N.next s.2 l' = some s'.2 ∧ s'.1 = s.1 ∧
      q.received s'.2 <+: p.written s.1) := by
  cases l with
  | inl l =>
    obtain ⟨t, ht, hs'⟩ := Option.bind_eq_some_iff.mp h
    split at hs'
    · rename_i hfed
      obtain rfl := Option.some.inj hs'
      exact .inl ⟨l, rfl, ht, rfl, hfed⟩
    · cases hs'
  | inr l =>
    obtain ⟨t, ht, hs'⟩ := Option.bind_eq_some_iff.mp h
    split at hs'
    · rename_i hfed
      obtain rfl := Option.some.inj hs'
      exact .inr ⟨l, rfl, ht, rfl, hfed⟩
    · cases hs'

/-- Each of the two runs as it does alone. -/
theorem linked_reach {s : σ × σ'} (h : (M.linked p N q).Reachable s) :
    M.Reachable s.1 ∧ N.Reachable s.2 := by
  refine h.invariant (I := fun s => M.Reachable s.1 ∧ N.Reachable s.2) ?_ ?_
  · intro s h0
    exact ⟨.init h0.1, .init h0.2⟩
  · intro s l s' _ hI _ hs
    rcases linked_next hs with ⟨l', -, hm, hkeep, -⟩ | ⟨l', -, hn, hkeep, -⟩
    · exact ⟨.step hI.1 trivial hm, hkeep ▸ hI.2⟩
    · exact ⟨hkeep ▸ hI.1, .step hI.2 trivial hn⟩

/-- What either has received is a prefix of what the other has written. -/
theorem linked_fed (hp : M.Wired p) (hq : N.Wired q) {s : σ × σ'}
    (h : (M.linked p N q).Reachable s) :
    p.received s.1 <+: q.written s.2 ∧ q.received s.2 <+: p.written s.1 := by
  refine h.invariant (I := fun s : σ × σ' => p.received s.1 <+: q.written s.2 ∧
    q.received s.2 <+: p.written s.1) ?_ ?_
  · intro s h0
    rw [hp.received_nil h0.1, hq.received_nil h0.2]
    exact ⟨List.nil_prefix, List.nil_prefix⟩
  · intro s l s' _ hI _ hs
    rcases linked_next hs with ⟨l', -, hm, hkeep, hfed⟩ | ⟨l', -, hn, hkeep, hfed⟩
    · rw [hkeep]
      exact ⟨hfed, hI.2.trans (hp.grows hm)⟩
    · rw [hkeep]
      exact ⟨hI.1.trans (hq.grows hn), hfed⟩

/-- A port of one of the two that the connection does not use stays wired. -/
theorem Wired.linked_fst {r : Port σ α} (h : M.Wired r) :
    (M.linked p N q).Wired ⟨fun s => r.received s.1, fun s => r.written s.1⟩ where
  received_nil h0 := h.received_nil h0.1
  written_nil h0 := h.written_nil h0.1
  grows {s l s'} hs := by
    rcases linked_next hs with ⟨l', -, hm, -, -⟩ | ⟨l', -, -, hkeep, -⟩
    · exact h.grows hm
    · show r.written s.1 <+: r.written s'.1
      rw [hkeep]

end System

/-- A program with one connection. -/
structure Peer (α : Type) where
  State : Type
  Label : Type
  system : System State Label
  port : Port State α

/-- A program between two connections: `front` is the one that it was called by. -/
structure Node (α : Type) where
  State : Type
  Label : Type
  system : System State Label
  front : Port State α
  back : Port State α

variable {α : Type}

/-- It writes to each connection nothing but what it has received from the other one. -/
structure Node.Relays (N : Node α) : Prop where
  front : N.system.Wired N.front
  back : N.system.Wired N.back
  forth : ∀ {s}, N.system.Reachable s → N.back.written s <+: N.front.received s
  home : ∀ {s}, N.system.Reachable s → N.front.written s <+: N.back.received s

namespace Peer

/-- It writes nothing but what it has received. -/
structure Echoes (P : Peer α) : Prop where
  wired : P.system.Wired P.port
  echoed : ∀ {s}, P.system.Reachable s → P.port.written s <+: P.port.received s

variable [DecidableEq α]

/-- The node in front of the peer, connected to it. -/
def after (P : Peer α) (N : Node α) : Peer α where
  State := N.State × P.State
  Label := N.Label ⊕ P.Label
  system := N.system.linked N.back P.system P.port
  port := ⟨fun s => N.front.received s.1, fun s => N.front.written s.1⟩

/-- The peer behind a chain of nodes, the first of them in front. -/
def behind (P : Peer α) (nodes : List (Node α)) : Peer α := nodes.foldr (fun N P => P.after N) P

/-- Two peers connected to each other. -/
def meets (P Q : Peer α) : System (P.State × Q.State) (P.Label ⊕ Q.Label) :=
  P.system.linked P.port Q.system Q.port

variable {P Q : Peer α}

/-- The peer behind the chain. -/
def last (P : Peer α) : (nodes : List (Node α)) → (P.behind nodes).State → P.State
  | [], s => s
  | _ :: nodes, s => last P nodes s.2

/-- It runs as it does alone. -/
theorem last_reach {nodes : List (Node α)} {s : (P.behind nodes).State}
    (h : (P.behind nodes).system.Reachable s) : P.system.Reachable (P.last nodes s) := by
  induction nodes with
  | nil => exact h
  | cons N nodes ih => exact ih (System.linked_reach h).2

/-- **A chain of nodes that relay passes on what the peer behind it writes**, and passes
to it what is received in front. -/
theorem behind_relays (hP : P.system.Wired P.port) {nodes : List (Node α)}
    (hnodes : ∀ N ∈ nodes, N.Relays) :
    (P.behind nodes).system.Wired (P.behind nodes).port ∧
      ∀ s, (P.behind nodes).system.Reachable s →
        (P.behind nodes).port.written s <+: P.port.written (P.last nodes s) ∧
          P.port.received (P.last nodes s) <+: (P.behind nodes).port.received s := by
  induction nodes with
  | nil => exact ⟨hP, fun s _ => ⟨List.prefix_rfl, List.prefix_rfl⟩⟩
  | cons N nodes ih =>
    have hN := hnodes N List.mem_cons_self
    obtain ⟨hwired, hrest⟩ := ih fun N' hN' => hnodes N' (List.mem_cons_of_mem N hN')
    refine ⟨hN.front.linked_fst, fun s hs => ?_⟩
    obtain ⟨hnode, hpeer⟩ := System.linked_reach hs
    obtain ⟨hback, hfed⟩ := System.linked_fed hN.back hwired hs
    obtain ⟨hwritten, hreceived⟩ := hrest s.2 hpeer
    exact ⟨((hN.home hnode).trans hback).trans hwritten,
      (hreceived.trans hfed).trans (hN.forth hnode)⟩

/-- **A peer that echoes does so behind any chain of nodes that relay.** -/
theorem Echoes.behind (h : P.Echoes) {nodes : List (Node α)} (hnodes : ∀ N ∈ nodes, N.Relays) :
    (P.behind nodes).Echoes := by
  obtain ⟨hwired, hrelays⟩ := behind_relays h.wired hnodes
  refine ⟨hwired, fun {s} hs => ?_⟩
  obtain ⟨hwritten, hreceived⟩ := hrelays s hs
  have hlast : P.system.Reachable (P.last nodes s) := last_reach hs
  exact (hwritten.trans (h.echoed hlast)).trans hreceived

/-- **Whoever talks to a peer that echoes receives nothing but what it has written.** -/
theorem Echoes.answers (h : Q.Echoes) (hP : P.system.Wired P.port)
    {s : P.State × Q.State} (hs : (P.meets Q).Reachable s) :
    P.port.received s.1 <+: P.port.written s.1 := by
  obtain ⟨hfed, hfed'⟩ := System.linked_fed hP h.wired hs
  exact (hfed.trans (h.echoed (System.linked_reach hs).2)).trans hfed'

/-- **Two peers with a chain of nodes that relay between them** receive nothing but what
the other one has written, in order. -/
theorem meets_behind (hP : P.system.Wired P.port) (hQ : Q.system.Wired Q.port)
    {nodes : List (Node α)} (hnodes : ∀ N ∈ nodes, N.Relays)
    {s : P.State × (Q.behind nodes).State} (h : (P.meets (Q.behind nodes)).Reachable s) :
    P.port.received s.1 <+: Q.port.written (Q.last nodes s.2) ∧
      Q.port.received (Q.last nodes s.2) <+: P.port.written s.1 := by
  obtain ⟨hwired, hrelays⟩ := behind_relays hQ hnodes
  obtain ⟨hwritten, hreceived⟩ := hrelays s.2 (System.linked_reach h).2
  obtain ⟨hfed, hfed'⟩ := System.linked_fed hP hwired h
  exact ⟨hfed.trans hwritten, hreceived.trans hfed'⟩

/-- **Invariant rule** for a peer that talks to one that echoes: of a step it may be
assumed that what has been received is a prefix of what has been written. -/
theorem Echoes.invariant (h : Q.Echoes) (hP : P.system.Wired P.port) {I : P.State → Prop}
    (hinit : ∀ s, P.system.init s → I s)
    (hstep : ∀ s l s', I s → P.system.next s l = some s' →
      P.port.received s' <+: P.port.written s' → I s')
    {s : P.State × Q.State} (hs : (P.meets Q).Reachable s) : I s.1 := by
  refine hs.invariant (I := fun s => I s.1) ?_ ?_
  · intro s h0
    exact hinit _ h0.1
  · intro s l s' hreach hI _ hnext
    have hanswers := h.answers hP (.step hreach trivial hnext)
    rcases System.linked_next hnext with ⟨l', -, hm, -, -⟩ | ⟨l', -, -, hkeep, -⟩
    · exact hstep _ _ _ hI hm hanswers
    · show I s'.1
      rwa [hkeep]

end Peer

end CcSnippets.Core

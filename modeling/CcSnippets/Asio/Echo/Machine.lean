import CcSnippets.Core.Simulation
import CcSnippets.Asio.Basic

/-!
# CcSnippets.Asio.Echo.Machine

The **echo machine**: what a session of either echo server is for.

It requests a receive, then a write of what has been received, then a receive again,
and so on until an operation fails. `conversation` has one step for each outcome of
an operation; `turns` has one for everything that is seen of a session: requests,
outcomes, and the bytes that a write has got through so far. A session is an echo
machine if it can be seen to do nothing else, whatever happens to it (`Echoes`), and
if every sequence of outcomes can happen to it (`Realizes`).
-/

namespace CcSnippets.Asio.Echo.Machine

open CcSnippets.Core

/-! ### Requests and outcomes -/

/-- An operation requested of the socket. -/
inductive Request
  /-- Up to `size` bytes are to be received. -/
  | receive (size : ℕ)
  | write (bytes : List UInt8)
  deriving DecidableEq, Repr

/-- The first request. -/
def Request.first : Request := .receive bufferSize

/-- How the operation requested completes. -/
inductive Outcome
  | received (chunk : Chunk)
  | written
  | failed (error : Error)

/-- The outcome is one of this request. -/
def Request.admits : Request → Outcome → Bool
  | .receive _, .received _ | .write _, .written | _, .failed _ => true
  | _, _ => false

/-- The request after an outcome. -/
def answer : Outcome → Option Request
  | .received chunk => some (.write chunk.bytes)
  | .written => some .first
  | .failed _ => none

/-- The machine, from outcome to outcome: its state is what it has requested last. -/
def conversation : System (Option Request) Outcome where
  init r := r = some .first
  next
    | some r, o => if r.admits o then some (answer o) else none
    | none, _ => none

/-- A sequence of outcomes of a session: each is one of the request before it, and none
is after a failure. -/
def Possible (os : List Outcome) : Prop := ∃ r, conversation.run (some .first) os = some r

/-- **What the machine requests**, given the outcomes. -/
def requestsOf (os : List Outcome) : List Request := .first :: os.filterMap answer

/-- The chunk received last, after `chunk`. -/
def lastChunk (chunk : List UInt8) (os : List Outcome) : List UInt8 :=
  os.foldl (fun last o => match o with
    | .received chunk => chunk.bytes
    | _ => last) chunk

/-! ### What is seen of a session -/

inductive Event
  | request (r : Request)
  | received (chunk : Chunk)
  /-- A write gets these bytes through. -/
  | sent (bytes : List UInt8)
  | written
  | failed (error : Error)

def Event.request? : Event → Option Request
  | .request r => some r
  | _ => none

def Event.outcome? : Event → Option Outcome
  | .received chunk => some (.received chunk)
  | .written => some .written
  | .failed error => some (.failed error)
  | _ => none

def Event.bytesIn : Event → List UInt8
  | .received chunk => chunk.bytes
  | _ => []

def Event.bytesOut : Event → List UInt8
  | .sent bytes => bytes
  | _ => []

def requests (tr : List Event) : List Request := tr.filterMap Event.request?

def outcomes (tr : List Event) : List Outcome := tr.filterMap Event.outcome?

/-- The bytes received. -/
def received (tr : List Event) : List UInt8 := tr.flatMap Event.bytesIn

/-- The bytes written. -/
def sent (tr : List Event) : List UInt8 := tr.flatMap Event.bytesOut

/-- **What is seen of an echo session**: the requests are those of the machine, all of
them once the session has `settled`, and it has written what it has received but
for a rest of the last chunk. -/
structure Follows (tr : List Event) (settled : Prop) : Prop where
  possible : Possible (outcomes tr)
  requested : requests tr <+: requestsOf (outcomes tr)
  all : settled → requests tr = requestsOf (outcomes tr)
  echoed : ∃ rest, received tr = sent tr ++ rest ∧ rest <:+ lastChunk [] (outcomes tr)

/-! ### The machine, event by event -/

/-- Where the machine is. -/
inductive Turn
  | toReceive
  | receiving
  | toWrite (chunk : Chunk)
  /-- `rest` of the chunk is still to be written. -/
  | writing (chunk : Chunk) (rest : List UInt8)
  /-- An operation has failed, with `rest` unwritten. -/
  | ended (rest : List UInt8)

def turns : System Turn Event where
  init t := t = .toReceive
  next
    | .toReceive, .request r => if r = .first then some .receiving else none
    | .receiving, .received chunk => some (.toWrite chunk)
    | .receiving, .failed _ => some (.ended [])
    | .toWrite chunk, .request r =>
      if r = .write chunk.bytes then some (.writing chunk chunk.bytes) else none
    | .writing chunk rest, .sent bytes =>
      if bytes <+: rest then some (.writing chunk (rest.drop bytes.length)) else none
    | .writing _ rest, .written => if rest = [] then some .toReceive else none
    | .writing _ rest, .failed _ => some (.ended rest)
    | _, _ => none

namespace Turn

/-- The request that is to be made next. -/
def due : Turn → List Request
  | .toReceive => [.first]
  | .toWrite chunk => [.write chunk.bytes]
  | _ => []

/-- The request that is made or to be made. -/
def request : Turn → Option Request
  | .toReceive | .receiving => some .first
  | .toWrite chunk | .writing chunk _ => some (.write chunk.bytes)
  | .ended _ => none

/-- What is received and not written. -/
def rest : Turn → List UInt8
  | .toReceive | .receiving => []
  | .toWrite chunk => chunk.bytes
  | .writing _ rest | .ended rest => rest

end Turn

theorem requests_append (tr tr' : List Event) :
    requests (tr ++ tr') = requests tr ++ requests tr' := List.filterMap_append

theorem outcomes_append (tr tr' : List Event) :
    outcomes (tr ++ tr') = outcomes tr ++ outcomes tr' := List.filterMap_append

theorem received_append (tr tr' : List Event) :
    received (tr ++ tr') = received tr ++ received tr' := List.flatMap_append

theorem sent_append (tr tr' : List Event) : sent (tr ++ tr') = sent tr ++ sent tr' :=
  List.flatMap_append

/-- What the machine does from one turn to another. -/
structure Does (t : Turn) (tr : List Event) (t' : Turn) : Prop where
  asked : requests tr ++ t'.due = t.due ++ (outcomes tr).filterMap answer
  answered : conversation.run t.request (outcomes tr) = some t'.request
  echoed : t.rest ++ received tr = sent tr ++ t'.rest
  within : ∀ last, t.rest <:+ last → t'.rest <:+ lastChunk last (outcomes tr)

theorem does_nil (t : Turn) : Does t [] t where
  asked := by simp [requests, outcomes]
  answered := rfl
  echoed := by simp [received, sent]
  within _ h := h

theorem Does.trans {t m t' : Turn} {tr tr' : List Event} (h : Does t tr m) (h' : Does m tr' t') :
    Does t (tr ++ tr') t' where
  asked := by
    rw [requests_append, outcomes_append, List.filterMap_append, List.append_assoc, h'.asked,
      ← List.append_assoc, h.asked, List.append_assoc]
  answered := by
    rw [outcomes_append]
    exact System.run_append_eq_some.mpr ⟨_, h.answered, h'.answered⟩
  echoed := by
    rw [received_append, sent_append, ← List.append_assoc, h.echoed, List.append_assoc, h'.echoed,
      List.append_assoc]
  within last hlast := by
    rw [outcomes_append, lastChunk, List.foldl_append]
    exact h'.within _ (h.within last hlast)

/-- The next `k` bytes of the chunk get through. -/
theorem run_sent (chunk : Chunk) {done k : ℕ} (hle : done + k ≤ chunk.bytes.length) :
    turns.run (.writing chunk (chunk.bytes.drop done))
        [.sent ((chunk.bytes.take (done + k)).drop done)] =
      some (.writing chunk (chunk.bytes.drop (done + k))) := by
  have hsplit : (chunk.bytes.take (done + k)).drop done ++ chunk.bytes.drop (done + k) =
      chunk.bytes.drop done := by
    rw [← List.drop_append_of_le_length (by rw [List.length_take]; omega), List.take_append_drop]
  refine System.run_cons_eq_some.mpr ⟨_, ?_, rfl⟩
  simp only [turns]
  rw [if_pos ⟨_, hsplit⟩]
  congr 2
  conv_lhs => rw [← hsplit]
  exact List.drop_left' rfl

/-- **Step lemma.** -/
theorem does_of_next {t t' : Turn} {e : Event} (h : turns.next t e = some t') : Does t [e] t' := by
  simp only [turns] at h
  split at h
  · rename_i r
    split at h
    · rename_i hr
      obtain rfl := Option.some.inj h
      subst hr
      exact ⟨rfl, rfl, rfl, fun _ hlast => hlast⟩
    · cases h
  · obtain rfl := Option.some.inj h
    exact ⟨rfl, rfl, by simp [Turn.rest, received, sent, Event.bytesIn, Event.bytesOut],
      fun _ _ => List.suffix_rfl⟩
  · obtain rfl := Option.some.inj h
    exact ⟨rfl, rfl, rfl, fun _ hlast => hlast⟩
  · rename_i chunk r
    split at h
    · rename_i hr
      obtain rfl := Option.some.inj h
      subst hr
      exact ⟨rfl, rfl, by simp [Turn.rest, received, sent, Event.bytesIn, Event.bytesOut],
        fun _ hlast => hlast⟩
    · cases h
  · rename_i chunk rest bytes
    split at h
    · rename_i hprefix
      obtain rfl := Option.some.inj h
      obtain ⟨rest', rfl⟩ := hprefix
      have hdrop : (bytes ++ rest').drop bytes.length = rest' := List.drop_left' rfl
      refine ⟨rfl, rfl, ?_, fun last hlast => ?_⟩
      · simp [Turn.rest, received, sent, Event.bytesIn, Event.bytesOut]
      · show (bytes ++ rest').drop bytes.length <:+ last
        rw [hdrop]
        exact (List.suffix_append bytes rest').trans hlast
    · cases h
  · rename_i chunk rest
    split at h
    · rename_i hrest
      obtain rfl := Option.some.inj h
      subst hrest
      exact ⟨rfl, rfl, rfl, fun _ hlast => hlast⟩
    · cases h
  · obtain rfl := Option.some.inj h
    exact ⟨rfl, rfl, by simp [Turn.rest, received, sent, Event.bytesIn, Event.bytesOut],
      fun _ hlast => hlast⟩
  · cases h

/-- **Run lemma.** -/
theorem does_of_run {t t' : Turn} {tr : List Event} (h : turns.run t tr = some t') :
    Does t tr t' := by
  induction tr generalizing t with
  | nil =>
    obtain rfl : t = t' := Option.some.inj h
    exact does_nil t
  | cons e tr ih =>
    obtain ⟨m, hm, hrest⟩ := System.run_cons_eq_some.mp h
    exact (does_of_next hm).trans (ih hrest)

/-- **A run of the machine is an echo session.** -/
theorem follows_of_run {tr : List Event} {t : Turn} {settled : Prop}
    (h : turns.run .toReceive tr = some t) (hsettled : settled → t.due = []) :
    Follows tr settled := by
  obtain ⟨hrequests, houtcomes, hbytes, hsuffix⟩ := does_of_run h
  have hrequests' : requests tr ++ t.due = requestsOf (outcomes tr) := hrequests
  refine ⟨⟨_, houtcomes⟩, ⟨_, hrequests'⟩, fun hs => ?_, t.rest, hbytes, ?_⟩
  · rw [← hrequests', hsettled hs, List.append_nil]
  · exact hsuffix [] List.suffix_rfl

/-! ### Sessions -/

section

variable {σ ι : Type} {M : System σ ι} {first : σ → List Event}
  {observe : σ → ι → σ → List Event} {settled : σ → Prop} {allowed : ι → Bool}

/-- **Whatever happens to it, the session echoes**: `first` is what is seen of its start. -/
def Echoes (M : System σ ι) (first : σ → List Event) (observe : σ → ι → σ → List Event)
    (settled : σ → Prop) : Prop :=
  ∀ s₀ s ls, M.init s₀ → M.run s₀ ls = some s →
    Follows (first s₀ ++ M.trace observe s₀ ls) (settled s)

/-- **Any outcomes can happen to it**, without a timer that expires, and it then settles. -/
def Realizes (M : System σ ι) (first : σ → List Event) (observe : σ → ι → σ → List Event)
    (settled : σ → Prop) (expires : ι → Bool) : Prop :=
  ∀ s₀ os, M.init s₀ → Possible os → ∃ ls s, (∀ l ∈ ls, expires l = false) ∧
    M.run s₀ ls = some s ∧ settled s ∧ outcomes (first s₀ ++ M.trace observe s₀ ls) = os

/-- A session that simulates the machine echoes, in any restriction of its runs. -/
theorem echoes_of_simulates {R : σ → Turn → Prop} (hsim : M.Simulates turns observe R)
    (hinit : ∀ s₀, M.init s₀ → ∃ t, turns.run .toReceive (first s₀) = some t ∧ R s₀ t)
    (hsettled : ∀ s t, R s t → settled s → t.due = []) :
    Echoes (M.restrict allowed) first observe settled := by
  intro s₀ s ls h₀ hrun
  obtain ⟨t, ht, hR⟩ := hinit s₀ h₀
  obtain ⟨t', ht', hR'⟩ := hsim.run hR (System.restrict_run.mp hrun).2
  rw [System.trace_restrict hrun]
  exact follows_of_run (System.run_append_eq_some.mpr ⟨t, ht, ht'⟩) (hsettled s t' hR')

/-- One label or more completes the operation requested, and then what is queued runs. -/
theorem exists_run_answer {S : σ → Prop} {Allowed : ι → Prop} {s m s' : σ} {o : Outcome}
    {pre post : List ι} (hpre : ∀ l ∈ pre, Allowed l) (hm : M.run s pre = some m)
    (hseen : outcomes (M.trace observe s pre) = [o]) (hpost : ∀ l ∈ post, Allowed l)
    (hs' : M.run m post = some s') (hsilent : outcomes (M.trace observe m post) = [])
    (hS : S s') :
    ∃ ls s', (∀ l ∈ ls, Allowed l) ∧ M.run s ls = some s' ∧ S s' ∧
      outcomes (M.trace observe s ls) = [o] := by
  refine ⟨pre ++ post, s', List.forall_mem_append.mpr ⟨hpre, hpost⟩,
    System.run_append_eq_some.mpr ⟨m, hm, hs'⟩, hS, ?_⟩
  rw [System.trace_append hm, outcomes_append, hseen, hsilent, List.append_nil]

/-- A session that gets to its first request by itself, and from any outcome to the next
request, realizes any outcomes. -/
theorem realizes_of_answers {S : σ → Option Request → Prop} {expires : ι → Bool}
    (hstart : ∀ s₀, M.init s₀ → ∃ ls s, (∀ l ∈ ls, allowed l = true ∧ expires l = false) ∧
      M.run s₀ ls = some s ∧ S s (some .first) ∧
      outcomes (first s₀ ++ M.trace observe s₀ ls) = [])
    (hanswer : ∀ s r o r', S s r → conversation.next r o = some r' →
      ∃ ls s', (∀ l ∈ ls, allowed l = true ∧ expires l = false) ∧ M.run s ls = some s' ∧
        S s' r' ∧ outcomes (M.trace observe s ls) = [o])
    (hready : ∀ s r, S s r → settled s) :
    Realizes (M.restrict allowed) first observe settled expires := by
  intro s₀ os h₀ hos
  obtain ⟨r, hr⟩ := hos
  obtain ⟨ls, s, hls, hs, hS, hsilent⟩ := hstart s₀ h₀
  obtain ⟨ls', s', hls', hs', hS', hseen⟩ := System.exists_run_of_steps
    (fun l => allowed l = true ∧ expires l = false) rfl outcomes_append hanswer hS hr
  have hboth : ∀ l ∈ ls ++ ls', allowed l = true ∧ expires l = false :=
    List.forall_mem_append.mpr ⟨hls, hls'⟩
  have hrun : (M.restrict allowed).run s₀ (ls ++ ls') = some s' :=
    System.restrict_run.mpr
      ⟨fun l hl => (hboth l hl).1, System.run_append_eq_some.mpr ⟨s, hs, hs'⟩⟩
  refine ⟨ls ++ ls', s', fun l hl => (hboth l hl).2, hrun, hready s' r hS', ?_⟩
  rw [System.trace_restrict hrun, System.trace_append hs, ← List.append_assoc, outcomes_append,
    hsilent, List.nil_append, hseen]

end

/-- Less than the timeout passes from one reading of the clock to the next. -/
def Prompt (clock : Clock ℤ) (timeout : ℤ) : Prop :=
  ∀ n, clock.read (n + 1) < clock.read n + timeout

end CcSnippets.Asio.Echo.Machine

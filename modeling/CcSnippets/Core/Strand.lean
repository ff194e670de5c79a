import Mathlib.Data.Fintype.Basic
import Mathlib.Logic.Function.Basic
import CcSnippets.Core.Transition

/-!
# CcSnippets.Core.Strand

Code that is run in pieces by a **pool of threads**, some of them bound to strands.

A piece is run access by access. It can start operations, and the completion of one
queues the piece that follows it. A thread takes any piece that is queued, but one bound
to a strand only while no thread runs another piece of that strand. So two pieces of one
strand never run at once (`exclusive_of_reach`), and two that do are not bound to the
same one (`apart_of_ne`). What is not bound runs beside what follows the operations it
starts (`exists_beside`).
-/

namespace CcSnippets.Core

/-- What a piece of code does next. -/
inductive Access (μ ο : Type)
  | read (member : μ)
  | write (member : μ)
  /-- An operation is started. -/
  | start (operation : ο)
  deriving DecidableEq, Repr

/-- The accesses are to one member, and one of them writes. -/
def Access.Conflicts {μ ο : Type} : Access μ ο → Access μ ο → Prop
  | .write m, .write n | .write m, .read n | .read m, .write n => m = n
  | _, _ => False

/-- The code of an object with the members `μ`, the operations `ο` and the strands `κ`. -/
structure Code (π μ ο κ : Type) where
  body : π → List (Access μ ο)
  /-- The strand that the piece is bound to. -/
  strand : π → Option κ
  /-- The piece can follow the completion of the operation. -/
  follows : ο → π → Bool

namespace Code

variable {θ π μ ο κ : Type}

/-- The threads, and what is outstanding and queued. -/
structure Pool (θ π μ ο : Type) where
  /-- The piece each thread runs, and what is left of it. -/
  running : θ → Option (π × List (Access μ ο))
  outstanding : List ο
  queued : List π

/-- What happens next, with the choices of the scheduler. -/
inductive Label (θ π : Type)
  /-- Operation number `i` completes; the piece `p` follows. -/
  | complete (i : ℕ) (p : π)
  /-- The thread takes piece number `i`. -/
  | take (t : θ) (i : ℕ)
  /-- The thread goes on with its piece. -/
  | exec (t : θ)

/-- No thread runs a piece of the strand. -/
def Pool.Free (code : Code π μ ο κ) (s : Pool θ π μ ο) (k : κ) : Prop :=
  ∀ t, ∀ r ∈ s.running t, code.strand r.1 ≠ some k

instance [Fintype θ] [DecidableEq κ] (code : Code π μ ο κ) (s : Pool θ π μ ο) (k : κ) :
    Decidable (s.Free code k) :=
  inferInstanceAs (Decidable (∀ _, _))

variable [DecidableEq θ] [Fintype θ] [DecidableEq κ]

/-- The successor of a state. -/
def next (code : Code π μ ο κ) (s : Pool θ π μ ο) : Label θ π → Option (Pool θ π μ ο)
  | .complete i p =>
    match s.outstanding[i]? with
    | some o =>
      if code.follows o p = true then
        some { s with outstanding := s.outstanding.eraseIdx i, queued := s.queued ++ [p] }
      else none
    | none => none
  | .take t i =>
    match s.queued[i]? with
    | some p =>
      if (s.running t).isNone ∧ (∀ k ∈ code.strand p, s.Free code k) then
        some { s with
          queued := s.queued.eraseIdx i
          running := Function.update s.running t (some (p, code.body p)) }
      else none
    | none => none
  | .exec t =>
    match s.running t with
    | some (p, .start o :: rest) =>
      some { s with
        running := Function.update s.running t (some (p, rest))
        outstanding := s.outstanding ++ [o] }
    | some (p, _ :: rest) =>
      some { s with running := Function.update s.running t (some (p, rest)) }
    | some (_, []) => some { s with running := Function.update s.running t none }
    | none => none

/-- The object, with some pieces queued at first. -/
def system (code : Code π μ ο κ) (θ : Type) [DecidableEq θ] [Fintype θ] (first : List π) :
    System (Pool θ π μ ο) (Label θ π) where
  init s := s = ⟨fun _ => none, [], first⟩
  next s l := code.next s l

/-! ### Steps -/

/-- Everything a step can do: the pieces that are queued, and the one that a thread runs. -/
inductive Step (code : Code π μ ο κ) (s : Pool θ π μ ο) : Pool θ π μ ο → Prop
  | complete {s' : Pool θ π μ ο} {o : ο} {p : π} :
      code.follows o p = true → s'.running = s.running → s'.queued = s.queued ++ [p] →
      Step code s s'
  | take {s' : Pool θ π μ ο} {t : θ} {p : π} {i : ℕ} :
      s.queued[i]? = some p → s.running t = none → (∀ k ∈ code.strand p, s.Free code k) →
      s'.queued = s.queued.eraseIdx i →
      s'.running = Function.update s.running t (some (p, code.body p)) → Step code s s'
  | exec {s' : Pool θ π μ ο} {t : θ} {p : π} {a : Access μ ο} {rest : List (Access μ ο)} :
      s.running t = some (p, a :: rest) → s'.queued = s.queued →
      s'.running = Function.update s.running t (some (p, rest)) → Step code s s'
  | leave {s' : Pool θ π μ ο} {t : θ} {p : π} :
      s.running t = some (p, []) → s'.queued = s.queued →
      s'.running = Function.update s.running t none → Step code s s'

variable {code : Code π μ ο κ} {s s' : Pool θ π μ ο}

theorem next_step {l : Label θ π} (h : code.next s l = some s') : Step code s s' := by
  cases l with
  | complete i p =>
    simp only [next] at h
    split at h
    · split at h
      · rename_i hfollows
        obtain rfl := Option.some.inj h
        exact .complete hfollows rfl rfl
      · cases h
    · cases h
  | take t i =>
    simp only [next] at h
    split at h
    · rename_i p hp
      split at h
      · rename_i hfree
        obtain rfl := Option.some.inj h
        exact .take hp (Option.isNone_iff_eq_none.mp hfree.1) hfree.2 rfl rfl
      · cases h
    · cases h
  | exec t =>
    simp only [next] at h
    split at h
    · rename_i hrunning
      obtain rfl := Option.some.inj h
      exact .exec hrunning rfl rfl
    · rename_i hrunning
      obtain rfl := Option.some.inj h
      exact .exec hrunning rfl rfl
    · rename_i hrunning
      obtain rfl := Option.some.inj h
      exact .leave hrunning rfl rfl
    · cases h

/-! ### The strand -/

/-- Two threads that run pieces of one strand are one. -/
def Exclusive (code : Code π μ ο κ) (s : Pool θ π μ ο) : Prop :=
  ∀ t u r r' k, s.running t = some r → s.running u = some r' → code.strand r.1 = some k →
    code.strand r'.1 = some k → t = u

omit [Fintype θ] [DecidableEq κ] in
/-- The piece that a thread runs after a step, it ran before, or it is the one taken. -/
theorem Step.running (h : Step code s s') {t : θ} {r : π × List (Access μ ο)}
    (hr : s'.running t = some r) :
    (∃ rest, s.running t = some (r.1, rest)) ∨
      s.running t = none ∧ (∀ k ∈ code.strand r.1, s.Free code k) ∧ r.1 ∈ s.queued ∧
        ∀ u, u ≠ t → s'.running u = s.running u := by
  cases h with
  | complete _ hrunning _ =>
    rw [hrunning] at hr
    exact .inl ⟨r.2, hr⟩
  | @take u p i hp hnone hfree _ hrunning =>
    by_cases htu : t = u
    · subst htu
      rw [hrunning, Function.update_self] at hr
      obtain rfl := Option.some.inj hr
      refine .inr ⟨hnone, hfree, List.mem_of_getElem? hp, fun v hv => ?_⟩
      rw [hrunning, Function.update_of_ne hv]
    · rw [hrunning, Function.update_of_ne htu] at hr
      exact .inl ⟨r.2, hr⟩
  | @exec u p a rest hold _ hrunning =>
    by_cases htu : t = u
    · subst htu
      rw [hrunning, Function.update_self] at hr
      obtain rfl := Option.some.inj hr
      exact .inl ⟨_, hold⟩
    · rw [hrunning, Function.update_of_ne htu] at hr
      exact .inl ⟨r.2, hr⟩
  | @leave u p hold _ hrunning =>
    by_cases htu : t = u
    · subst htu
      rw [hrunning, Function.update_self] at hr
      cases hr
    · rw [hrunning, Function.update_of_ne htu] at hr
      exact .inl ⟨r.2, hr⟩

omit [Fintype θ] [DecidableEq κ] in
theorem exclusive_step (h : Exclusive code s) (hs : Step code s s') : Exclusive code s' := by
  -- where one of the two is just being taken, no other piece of its strand is run
  have hfree : ∀ {t u : θ} {k : κ} {r' : π × List (Access μ ο)}, s.Free code k →
      (∀ v, v ≠ t → s'.running v = s.running v) → s'.running u = some r' →
      code.strand r'.1 = some k → t = u := by
    intro t u k r' hfree hothers hr' hstrand
    by_contra htu
    rw [hothers u (Ne.symm htu)] at hr'
    exact hfree u r' hr' hstrand
  intro t u r r' k hr hr' hstrand hstrand'
  rcases hs.running hr with ⟨rest, hold⟩ | ⟨-, hfree', -, hothers⟩
  · rcases hs.running hr' with ⟨rest', hold'⟩ | ⟨-, hfree', -, hothers⟩
    · exact h t u _ _ k hold hold' hstrand hstrand'
    · exact (hfree (hfree' k hstrand') hothers hr hstrand).symm
  · exact hfree (hfree' k hstrand) hothers hr' hstrand'

/-- **Two pieces of one strand never run at once.** -/
theorem exclusive_of_reach {first : List π} (h : (code.system θ first).Reachable s) :
    Exclusive code s := by
  refine h.invariant (I := Exclusive code) ?_ ?_
  · intro s h0
    obtain rfl := h0
    intro t u r r' k hr
    cases hr
  · intro s l s' _ hI _ hs
    exact exclusive_step hI (next_step hs)

/-! ### Going on -/

/-- The operations that the accesses start. -/
def started : List (Access μ ο) → List ο
  | [] => []
  | .start o :: as => o :: started as
  | _ :: as => started as

variable (code) in
/-- A thread does one access. -/
theorem next_exec {t : θ} {p : π} {a : Access μ ο} {as : List (Access μ ο)}
    (ht : s.running t = some (p, a :: as)) :
    code.next s (.exec t) = some
      { s with
        running := Function.update s.running t (some (p, as))
        outstanding := s.outstanding ++ started [a] } := by
  cases a <;> simp [next, ht, started]

theorem started_append (as bs : List (Access μ ο)) :
    started (as ++ bs) = started as ++ started bs := by
  induction as with
  | nil => rfl
  | cons a as ih => cases a <;> simp [started, ih]

/-- A thread goes on with its piece, whatever the others do. -/
theorem exists_exec {first : List π} (h : (code.system θ first).Reachable s) {t : θ} {p : π}
    (as bs : List (Access μ ο)) (ht : s.running t = some (p, as ++ bs)) :
    (code.system θ first).Reachable
      { s with
        running := Function.update s.running t (some (p, bs))
        outstanding := s.outstanding ++ started as } := by
  induction as generalizing s with
  | nil =>
    have hs : s.running t = some (p, bs) := ht
    rwa [started, List.append_nil, ← hs, Function.update_eq_self]
  | cons a as ih =>
    have hnext : (code.system θ first).next s (.exec t) = _ := next_exec code ht
    have hstep := ih (.step h trivial hnext) (Function.update_self ..)
    rwa [Function.update_idem, List.append_assoc, ← started_append] at hstep

/-- A thread takes a piece and runs the first of it. -/
theorem exists_take {first : List π} (h : (code.system θ first).Reachable s) {t : θ} {p : π}
    {i : ℕ} (hp : s.queued[i]? = some p) (ht : s.running t = none)
    (hfree : ∀ k ∈ code.strand p, s.Free code k) (as bs : List (Access μ ο))
    (hbody : code.body p = as ++ bs) :
    (code.system θ first).Reachable
      { running := Function.update s.running t (some (p, bs))
        outstanding := s.outstanding ++ started as
        queued := s.queued.eraseIdx i } := by
  have htake : (code.system θ first).next s (.take t i) = some
      { s with
        queued := s.queued.eraseIdx i
        running := Function.update s.running t (some (p, code.body p)) } := by
    simp only [system, next, hp]
    exact if_pos ⟨by rw [ht]; rfl, hfree⟩
  have hexec := exists_exec (t := t) (p := p) (.step h trivial htake) as bs (by simp [hbody])
  rwa [Function.update_idem] at hexec

/-- A thread runs a piece from its start to its end. -/
theorem exists_run_piece {first : List π} (h : (code.system θ first).Reachable s) {t : θ} {p : π}
    {i : ℕ} (hp : s.queued[i]? = some p) (ht : s.running t = none)
    (hfree : ∀ k ∈ code.strand p, s.Free code k) :
    (code.system θ first).Reachable
      { s with
        outstanding := s.outstanding ++ started (code.body p)
        queued := s.queued.eraseIdx i } := by
  have hran := exists_take h hp ht hfree (code.body p) [] (List.append_nil _).symm
  have hleave : (code.system θ first).next
      { running := Function.update s.running t (some (p, []))
        outstanding := s.outstanding ++ started (code.body p)
        queued := s.queued.eraseIdx i } (.exec t) = some
      { s with
        outstanding := s.outstanding ++ started (code.body p)
        queued := s.queued.eraseIdx i } := by
    simp [system, next, ← ht]
  exact .step hran trivial hleave

/-- An operation completes. -/
theorem exists_complete {first : List π} (h : (code.system θ first).Reachable s) {o : ο} {p : π}
    {i : ℕ} (ho : s.outstanding[i]? = some o) (hfollows : code.follows o p = true) :
    (code.system θ first).Reachable
      { s with outstanding := s.outstanding.eraseIdx i, queued := s.queued ++ [p] } := by
  have hcomplete : (code.system θ first).next s (.complete i p) =
      some { s with outstanding := s.outstanding.eraseIdx i, queued := s.queued ++ [p] } := by
    simp [system, next, ho, hfollows]
  exact .step h trivial hcomplete

/-! ### Races -/

/-- Two threads are about to access one member, and one of them to write it. -/
def Race (s : Pool θ π μ ο) : Prop :=
  ∃ t u p q a b as bs, t ≠ u ∧ s.running t = some (p, a :: as) ∧ s.running u = some (q, b :: bs) ∧
    a.Conflicts b

/-- **Two pieces that run at once are not bound to the same strand.** -/
theorem apart_of_ne {first : List π} (h : (code.system θ first).Reachable s) {t u : θ}
    (htu : t ≠ u) {p q : π} {as bs : List (Access μ ο)} (hp : s.running t = some (p, as))
    (hq : s.running u = some (q, bs)) {k : κ} (hk : code.strand p = some k) :
    code.strand q ≠ some k :=
  fun hk' => htu (exclusive_of_reach h t u _ _ k hp hq hk hk')

omit [DecidableEq θ] [Fintype θ] in
/-- One thread does not race. -/
theorem not_race_of_subsingleton [Subsingleton θ] (s : Pool θ π μ ο) : ¬ Race s := by
  intro hrace
  obtain ⟨t, u, p, q, a, b, as, bs, htu, -⟩ := hrace
  exact htu (Subsingleton.elim t u)

omit [Fintype θ] [DecidableEq κ] in
/-- A strand is free while the only thread that runs a piece runs one of another strand. -/
theorem free_of_one {t : θ} {p : π} {as : List (Access μ ο)} {os : List ο} {qs : List π} {k : κ}
    (hp : code.strand p ≠ some k) :
    Pool.Free code ⟨Function.update (fun _ => none) t (some (p, as)), os, qs⟩ k := by
  intro v r hr
  by_cases hv : v = t
  · subst hv
    obtain rfl : (p, as) = r := by simpa using hr
    exact hp
  · simp [Function.update_of_ne hv] at hr

/-- **An unbound piece runs beside what follows the operations it starts**: it can be
anywhere behind the start, and what follows anywhere. -/
theorem exists_beside {t u : θ} (htu : t ≠ u) {p q : π} {o : ο} (as bs : List (Access μ ο))
    {as' bs' : List (Access μ ο)} (hp : code.strand p = none)
    (hbody : code.body p = as ++ .start o :: as') (hstarted : started as = [])
    (hfollows : code.follows o q = true) (hbody' : code.body q = bs ++ bs') :
    ∃ s, (code.system θ [p]).Reachable s ∧ s.running t = some (p, as') ∧
      s.running u = some (q, bs') := by
  -- `t` runs the piece to behind the start of the operation, which completes
  have hinit : (code.system θ [p]).Reachable ⟨fun _ => none, [], [p]⟩ := .init rfl
  have hstart := exists_take (t := t) hinit (i := 0) rfl rfl (by simp [hp]) (as ++ [.start o]) as'
    (by simp [hbody])
  rw [started_append, hstarted] at hstart
  have hcomplete := exists_complete hstart (i := 0) rfl hfollows
  -- `u` runs what follows
  have hfollow := exists_take (t := u) hcomplete (i := 0) rfl (Function.update_of_ne htu.symm _ _)
    (fun k _ => free_of_one (by simp [hp])) bs bs' hbody'
  refine ⟨_, hfollow, ?_, Function.update_self ..⟩
  simp [Function.update_of_ne htu]

/-- No piece that meets `P` is queued or run. -/
def Absent (P : π → Prop) (s : Pool θ π μ ο) : Prop :=
  (∀ p ∈ s.queued, ¬ P p) ∧ ∀ t r, s.running t = some r → ¬ P r.1

/-- **Two queued pieces that are not bound to the same strand run beside each other.** -/
theorem exists_beside_queued {first : List π} {t u : θ} (htu : t ≠ u) {p q : π} {os : List ο}
    {ps : List π} (h : (code.system θ first).Reachable ⟨fun _ => none, os, p :: q :: ps⟩)
    (hapart : ∀ k, code.strand q = some k → code.strand p ≠ some k)
    (as bs : List (Access μ ο)) {as' bs' : List (Access μ ο)} (hbody : code.body p = as ++ as')
    (hbody' : code.body q = bs ++ bs') {P : π → Prop} (hp : ¬ P p) (hq : ¬ P q)
    (hps : ∀ r ∈ ps, ¬ P r) :
    ∃ s, (code.system θ first).Reachable s ∧ Absent P s ∧ s.running t = some (p, as') ∧
      s.running u = some (q, bs') := by
  have hone := exists_take (t := t) h (i := 0) rfl rfl (fun k _ v r hr => by cases hr) as as' hbody
  have htwo := exists_take (t := u) hone (i := 0) rfl (by simp [htu.symm])
    (fun k hk => free_of_one (hapart k hk)) bs bs' hbody'
  refine ⟨_, htwo, ⟨hps, fun v r hr => ?_⟩, ?_, Function.update_self ..⟩
  · by_cases hv : v = u
    · subst hv
      obtain rfl : (q, bs') = r := by simpa using hr
      exact hq
    · by_cases hvt : v = t
      · subst hvt
        obtain rfl : (p, as') = r := by simpa [hv] using hr
        exact hp
      · simp [Function.update_of_ne hv, Function.update_of_ne hvt] at hr
  · simp [Function.update_of_ne htu]

end Code

end CcSnippets.Core

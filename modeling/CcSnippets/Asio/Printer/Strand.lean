import Mathlib.Data.List.Count
import Mathlib.Tactic.Ring
import CcSnippets.Asio.Printer.Steps

/-!
# CcSnippets.Asio.Printer.Strand

**What the strand is for.** Where only one handler runs at a time, because they are bound
to the strand or because there is one thread, the program prints the numbers from 0 in
their order, each once, and none before its time (`Orderly`).

At any time all threads but one are idle, and what that one is at fits the counter, the
timers and what was printed (`Fits`). Each timer is at one place: waited for, queued, in
the hands of the thread, or done with.
-/

namespace CcSnippets.Asio.Printer

open CcSnippets.Core

variable {θ ι : Type} [DecidableEq ι]

/-! ### What holds in every state -/

/-- Only one handler runs at a time. -/
def Settings.Serial (settings : Settings) (θ : Type) : Prop :=
  settings.bound = true ∨ Subsingleton θ

/-- The thread is in the handler of timer `i`. -/
def Pc.runs (i : ι) : Pc ι → ℕ
  | .idle => 0
  | .test j | .load j | .store j _ | .print j _ | .expires j | .wait j => if j = i then 1 else 0

/-- The same, before the timer gets its next expiry. -/
def Pc.due (i : ι) : Pc ι → Prop
  | .idle | .wait _ => False
  | .test j | .load j | .store j _ | .print j _ | .expires j => j = i

/-- How many times timer `i` has printed. -/
def times (i : ι) (printed : List (ι × ℕ × ℤ)) : ℕ := (printed.map Prod.fst).count i

/-- The thread has incremented the counter and not printed yet. -/
def Pc.ahead : Pc ι → ℕ
  | .print _ _ => 1
  | _ => 0

/-- The timer has printed and not got its next expiry. -/
def Pc.behind (i : ι) : Pc ι → ℤ
  | .expires j => if j = i then 1 else 0
  | _ => 0

/-- What the thread knows of the counter. -/
def Pc.Knows (limit count : ℕ) : Pc ι → Prop
  | .load _ => count < limit
  | .store _ c => c = count ∧ count < limit
  | .print _ c => count = c + 1
  | _ => True

/-- No number is printed before its time. -/
def Punctual (second : ℤ) (started : ι → ℤ) (printed : List (ι × ℕ × ℤ)) : Prop :=
  ∀ k i c now, printed[k]? = some (i, c, now) →
    started i + second * (times i (printed.take k) + 1) ≤ now

/-- What is so while one thread is at `p` and the others are idle. -/
structure Fits (settings : Settings) (clock : Clock ℤ) (second : ℤ) (s : State θ ι) (p : Pc ι) :
    Prop where
  numbers : s.printed.map (fun x => x.2.1) = List.range s.printed.length
  count : s.printed.length + p.ahead = s.count
  limited : s.count ≤ settings.limit
  knows : p.Knows settings.limit s.count
  /-- A timer is at one place at most, and at none only once the counter is full. -/
  place : ∀ i, (s.timer i).waits + s.queued.count i + p.runs i ≤ 1
  done : ∀ i, (s.timer i).waits + s.queued.count i + p.runs i = 0 → s.count = settings.limit
  /-- The expiries keep to the seconds. -/
  expiry : ∀ i, (s.timer i).expiry + second * p.behind i =
    s.started i + second * (times i s.printed + 1)
  due : ∀ i, i ∈ s.queued ∨ p.due i → (s.timer i).expiry ≤ clock.read s.instant
  punctual : Punctual second s.started s.printed

variable {settings : Settings} {clock : Clock ℤ} {second : ℤ} {s s' : State θ ι} {p : Pc ι}

theorem times_concat (i : ι) (printed : List (ι × ℕ × ℤ)) (j : ι) (c : ℕ) (now : ℤ) :
    times i (printed ++ [(j, c, now)]) = times i printed + if j = i then 1 else 0 := by
  simp [times, List.count_singleton]

/-- One more is printed, in time. -/
theorem Punctual.concat {started : ι → ℤ} {printed : List (ι × ℕ × ℤ)}
    (h : Punctual second started printed) {i : ι} {c : ℕ} {now : ℤ}
    (hnow : started i + second * (times i printed + 1) ≤ now) :
    Punctual second started (printed ++ [(i, c, now)]) := by
  intro k j d now' hk
  rcases lt_trichotomy k printed.length with hlt | rfl | hgt
  · rw [List.getElem?_append_left hlt] at hk
    rw [List.take_append_of_le_length hlt.le]
    exact h k j d now' hk
  · rw [List.getElem?_append_right le_rfl, Nat.sub_self] at hk
    obtain ⟨rfl, rfl, rfl⟩ : i = j ∧ c = d ∧ now = now' := by simpa using hk
    rwa [List.take_left' rfl]
  · rw [List.getElem?_eq_none (by simp; omega)] at hk
    cases hk

namespace Fits

theorem start (reading : ι → ℕ) (instant : ℕ) :
    Fits settings clock second (State.start clock second reading instant : State θ ι) .idle where
  numbers := rfl
  count := rfl
  limited := Nat.zero_le _
  knows := trivial
  place i := le_rfl
  done i hi := by cases hi
  expiry i := by simp [State.start, Pc.behind, times]
  due i hi := by
    rcases hi with hi | hi
    · cases hi
    · exact hi.elim
  punctual k i c now hk := by cases hk

/-- The handler goes on, and nothing but the thread's knowledge changes. -/
theorem move (h : Fits settings clock second s p) {q : Pc ι} (hahead : q.ahead = p.ahead)
    (hruns : ∀ i, q.runs i = p.runs i) (hbehind : ∀ i, q.behind i = p.behind i)
    (hdue : ∀ i, q.due i → p.due i) (hknows : q.Knows settings.limit s.count) :
    Fits settings clock second s q where
  numbers := h.numbers
  count := by rw [hahead, h.count]
  limited := h.limited
  knows := hknows
  place i := by rw [hruns]; exact h.place i
  done i := by rw [hruns]; exact h.done i
  expiry i := by rw [hbehind]; exact h.expiry i
  due i hi := h.due i (hi.imp_right (hdue i))
  punctual := h.punctual

/-- A handler that has nothing to print ends. -/
theorem leave {i : ι} (h : Fits settings clock second s (.test i))
    (hfull : ¬ s.count < settings.limit) : Fits settings clock second s .idle where
  numbers := h.numbers
  count := h.count
  limited := h.limited
  knows := trivial
  place j := (Nat.add_le_add_left (Nat.zero_le _) _).trans (h.place j)
  done _ _ := Nat.le_antisymm h.limited (Nat.le_of_not_lt hfull)
  expiry j := h.expiry j
  due j hj := h.due j (hj.imp_right False.elim)
  punctual := h.punctual

/-- The counter is written. -/
theorem store {i : ι} {c : ℕ} (h : Fits settings clock second s (.store i c)) :
    Fits settings clock second { s with count := c + 1 } (.print i c) := by
  obtain ⟨rfl, hlt⟩ := h.knows
  have hcount : s.printed.length = s.count := h.count
  have hlive : ∀ j, (s.timer j).waits + s.queued.count j + (Pc.print i s.count).runs j ≠ 0 :=
    fun j hj => Nat.ne_of_lt hlt (h.done j hj)
  exact
    { numbers := h.numbers
      count := congrArg Nat.succ hcount
      limited := hlt
      knows := rfl
      place := h.place
      done := fun j hj => absurd hj (hlive j)
      expiry := h.expiry
      due := h.due
      punctual := h.punctual }

/-- The number is printed, after the expiry. -/
theorem print {i : ι} {c : ℕ} (h : Fits settings clock second s (.print i c)) :
    Fits settings clock second
      { s with
        instant := s.instant + 1
        printed := s.printed ++ [(i, c, clock.read s.instant)] } (.expires i) := by
  have hcount : s.printed.length + 1 = s.count := h.count
  have hc : s.printed.length = c := Nat.succ.inj (hcount.trans h.knows)
  have hexpiry := h.expiry
  simp only [Pc.behind, mul_zero, add_zero] at hexpiry
  have hdue := h.due i (.inr rfl)
  refine
    { numbers := ?_, count := ?_, limited := h.limited, knows := trivial, place := h.place
      done := h.done, expiry := fun j => ?_, due := fun j hj => ?_
      punctual := h.punctual.concat ?_ }
  · rw [List.map_append, h.numbers, List.length_append, List.length_singleton, List.range_succ,
      hc]
    rfl
  · show (s.printed ++ [_]).length + 0 = s.count
    rw [List.length_append]
    exact hcount
  · show (s.timer j).expiry + _ = s.started j + second * (times j (s.printed ++ [_]) + 1)
    rw [times_concat, hexpiry j]
    by_cases hj : i = j
    · simp only [Pc.behind, if_pos hj]
      push_cast
      ring
    · simp [Pc.behind, hj]
  · exact (h.due j hj).trans (clock.mono (Nat.le_succ _))
  · rw [← hexpiry i]
    exact hdue

/-- The timer gets its next expiry; no wait on it is aborted. -/
theorem expires {i : ι} (h : Fits settings clock second s (.expires i)) :
    Fits settings clock second
      { s with
        timer := Function.update s.timer i
          ((s.timer i).expiresAt ((s.timer i).expiry + second)).1
        queued := s.queued ++
          List.replicate ((s.timer i).expiresAt ((s.timer i).expiry + second)).2 i } (.wait i) := by
  have hplace := h.place i
  simp only [Pc.runs, if_true] at hplace
  have hwaits : (s.timer i).waits = 0 := by omega
  have hnot : i ∉ s.queued := List.count_eq_zero.mp (by omega)
  have hqueued : s.queued ++
      List.replicate ((s.timer i).expiresAt ((s.timer i).expiry + second)).2 i = s.queued := by
    simp [Timer.expiresAt, hwaits]
  have htimer : ∀ j, (Function.update s.timer i
      ((s.timer i).expiresAt ((s.timer i).expiry + second)).1 j).waits = (s.timer j).waits := by
    intro j
    by_cases hj : j = i
    · subst hj
      rw [Function.update_self, hwaits]
      rfl
    · rw [Function.update_of_ne hj]
  rw [hqueued]
  refine
    { numbers := h.numbers, count := h.count, limited := h.limited, knows := trivial
      place := fun j => ?_, done := fun j => ?_, expiry := fun j => ?_, due := fun j hj => ?_
      punctual := h.punctual }
  · rw [htimer]
    exact h.place j
  · rw [htimer]
    exact h.done j
  · have hexpiry := h.expiry j
    by_cases hj : j = i
    · subst hj
      simp only [Pc.behind, if_true, mul_one] at hexpiry
      simp only [Function.update_self, Timer.expiresAt, Pc.behind, mul_zero, add_zero]
      exact hexpiry
    · simp only [Pc.behind, if_neg (Ne.symm hj), mul_zero, add_zero] at hexpiry ⊢
      rw [Function.update_of_ne hj]
      exact hexpiry
  · have hj' : j ∈ s.queued := hj.resolve_right id
    have hne : j ≠ i := fun heq => hnot (heq ▸ hj')
    show (Function.update s.timer i _ j).expiry ≤ _
    rw [Function.update_of_ne hne]
    exact h.due j (.inl hj')

/-- The timer is waited for again. -/
theorem wait {i : ι} (h : Fits settings clock second s (.wait i)) :
    Fits settings clock second
      { s with timer := Function.update s.timer i (s.timer i).asyncWait } .idle := by
  have hplace : ∀ j, (Function.update s.timer i (s.timer i).asyncWait j).waits +
      s.queued.count j + (Pc.idle : Pc ι).runs j =
        (s.timer j).waits + s.queued.count j + (Pc.wait i).runs j := by
    intro j
    by_cases hj : j = i
    · subst hj
      simp only [Function.update_self, Timer.asyncWait, Pc.runs, if_true]
      omega
    · simp [Function.update_of_ne hj, Pc.runs, Ne.symm hj]
  have hexpiry : ∀ j, (Function.update s.timer i (s.timer i).asyncWait j).expiry =
      (s.timer j).expiry := by
    intro j
    by_cases hj : j = i
    · subst hj
      rw [Function.update_self]
      rfl
    · rw [Function.update_of_ne hj]
  exact
    { numbers := h.numbers
      count := h.count
      limited := h.limited
      knows := trivial
      place := fun j => (hplace j).trans_le (h.place j)
      done := fun j hj => h.done j ((hplace j).symm.trans hj)
      expiry := fun j => (congrArg (· + _) (hexpiry j)).trans (h.expiry j)
      due := fun j hj => (hexpiry j).trans_le (h.due j (hj.imp_right False.elim))
      punctual := h.punctual }

/-- Time passes. -/
theorem elapse (h : Fits settings clock second s p) :
    Fits settings clock second { s with instant := s.instant + 1 } p :=
  { h with due := fun i hi => (h.due i hi).trans (clock.mono (Nat.le_succ _)) }

/-- A wait completes, and its handler is queued. -/
theorem complete (h : Fits settings clock second s p) {i : ι} {timer : Timer ℤ}
    (htimer : (s.timer i).complete (clock.read s.instant) = some timer) :
    Fits settings clock second
      { s with timer := Function.update s.timer i timer, queued := s.queued ++ [i] } p := by
  obtain ⟨hnow, hexpiry, hwaits⟩ := Timer.complete_eq_some.mp htimer
  have hplace : ∀ j, (Function.update s.timer i timer j).waits + (s.queued ++ [i]).count j =
      (s.timer j).waits + s.queued.count j := by
    intro j
    rw [List.count_append, List.count_singleton]
    by_cases hj : j = i
    · subst hj
      simp only [Function.update_self, beq_self_eq_true, if_true]
      omega
    · simp [Function.update_of_ne hj, Ne.symm hj]
  have hsame : ∀ j, (Function.update s.timer i timer j).expiry = (s.timer j).expiry := by
    intro j
    by_cases hj : j = i
    · subst hj
      rw [Function.update_self, hexpiry]
    · rw [Function.update_of_ne hj]
  refine
    { numbers := h.numbers, count := h.count, limited := h.limited, knows := h.knows
      place := fun j => ?_, done := fun j hj => h.done j ?_
      expiry := fun j => (congrArg (· + _) (hsame j)).trans (h.expiry j)
      due := fun j hj => (hsame j).trans_le ?_, punctual := h.punctual }
  · rw [hplace]
    exact h.place j
  · rw [← hplace]
    exact hj
  · rcases hj with hj | hj
    · rcases List.mem_append.mp hj with hold | hnew
      · exact h.due j (.inl hold)
      · rw [List.mem_singleton.mp hnew]
        exact hnow
    · exact h.due j (.inr hj)

/-- A handler is taken. -/
theorem take (h : Fits settings clock second s .idle) {i : ι} {rest : List ι}
    (hqueued : s.queued = i :: rest) :
    Fits settings clock second { s with queued := rest } (.test i) := by
  have hplace : ∀ j, rest.count j + (Pc.test i).runs j = s.queued.count j := by
    intro j
    rw [hqueued, List.count_cons, Pc.runs]
    simp
  refine
    { numbers := h.numbers, count := h.count, limited := h.limited, knows := trivial
      place := fun j => ?_, done := fun j hj => h.done j ?_, expiry := h.expiry
      due := fun j hj => h.due j (.inl ?_), punctual := h.punctual }
  · rw [Nat.add_assoc, hplace]
    exact h.place j
  · rw [Nat.add_assoc, hplace] at hj
    exact hj
  · rw [hqueued]
    rcases hj with hj | hj
    · exact List.mem_cons_of_mem i hj
    · rw [← (hj : i = j)]
      exact List.mem_cons_self

end Fits

/-! ### Steps -/

section

variable [DecidableEq θ]

omit [DecidableEq ι] in
@[simp] theorem goto_pc_self (s : State θ ι) (t : θ) (p : Pc ι) : (s.goto t p).pc t = p := by
  simp [State.goto]

omit [DecidableEq ι] in
theorem goto_pc_of_ne (s : State θ ι) {t u : θ} (h : u ≠ t) (p : Pc ι) :
    (s.goto t p).pc u = s.pc u := by
  simp [State.goto, h]

theorem Fits.goto {t : θ} {q : Pc ι} (h : Fits settings clock second s p) :
    Fits settings clock second (s.goto t q) p :=
  ⟨h.numbers, h.count, h.limited, h.knows, h.place, h.done, h.expiry, h.due, h.punctual⟩

/-- **One access of the handler.** -/
theorem Fits.exec {t : θ} (h : Fits settings clock second s (s.pc t))
    (hs : s.exec settings clock second t = some s') :
    Fits settings clock second s' (s'.pc t) := by
  cases exec_step hs with
  | @test i hp hlt =>
    rw [hp] at h
    rw [goto_pc_self]
    exact (h.move (q := .load i) rfl (fun _ => rfl) (fun _ => rfl) (fun _ => id) hlt).goto
  | full hp hfull =>
    rw [hp] at h
    rw [goto_pc_self]
    exact (h.leave hfull).goto
  | @load i hp =>
    rw [hp] at h
    rw [goto_pc_self]
    exact (h.move (q := .store i s.count) rfl (fun _ => rfl) (fun _ => rfl) (fun _ => id)
      ⟨rfl, h.knows⟩).goto
  | store hp =>
    rw [hp] at h
    rw [goto_pc_self]
    exact h.store.goto
  | print hp =>
    rw [hp] at h
    rw [goto_pc_self]
    exact h.print.goto
  | expires hp =>
    rw [hp] at h
    rw [goto_pc_self]
    exact h.expires.goto
  | wait hp =>
    rw [hp] at h
    rw [goto_pc_self]
    exact h.wait.goto

theorem exec_pc_of_ne {t u : θ} (h : u ≠ t) (hs : s.exec settings clock second t = some s') :
    s'.pc u = s.pc u := by
  cases exec_step hs with
  | test _ _ | full _ _ | load _ | store _ | print _ | expires _ | wait _ =>
    rw [goto_pc_of_ne _ h]

/-- An idle thread accesses nothing. -/
theorem exec_of_idle {t : θ} (h : s.pc t = .idle) : s.exec settings clock second t = none := by
  rw [State.exec, h]

end

/-! ### Runs -/

variable [DecidableEq θ] [Fintype θ]

/-- All threads but one are idle, and what that one is at fits. -/
def InHand (settings : Settings) (clock : Clock ℤ) (second : ℤ) (s : State θ ι) : Prop :=
  ∃ t, (∀ u, u ≠ t → s.pc u = .idle) ∧ Fits settings clock second s (s.pc t)

/-- **Step lemma.** -/
theorem inHand_next (hserial : settings.Serial θ) (h : InHand settings clock second s)
    {l : Label θ ι} (hs : s.next settings clock second l = some s') :
    InHand settings clock second s' := by
  obtain ⟨t, hidle, hfits⟩ := h
  cases next_step hs with
  | elapse => exact ⟨t, hidle, hfits.elapse⟩
  | complete htimer => exact ⟨t, hidle, hfits.complete htimer⟩
  | @take u i rest hqueued hu hbound =>
    -- no other thread is in a handler
    have hall : ∀ v, s.pc v = .idle := by
      rcases hserial with hserial | hone
      · exact hbound hserial
      · intro v
        rw [hone.elim v u]
        exact hu
    rw [hall t] at hfits
    refine ⟨u, fun v hv => ?_, ?_⟩
    · rw [goto_pc_of_ne _ hv]
      exact hall v
    · rw [goto_pc_self]
      exact (hfits.take hqueued).goto
  | @exec u s' hexec =>
    by_cases hu : u = t
    · subst hu
      exact ⟨u, fun v hv => (exec_pc_of_ne hv hexec).trans (hidle v hv), hfits.exec hexec⟩
    · rw [exec_of_idle (hidle u hu)] at hexec
      cases hexec

theorem inHand_of_reach [Nonempty θ] (hserial : settings.Serial θ)
    (h : (system settings clock second θ ι).Reachable s) : InHand settings clock second s := by
  refine h.invariant (I := InHand settings clock second) ?_ ?_
  · intro s h0
    obtain ⟨reading, instant, -, rfl⟩ := h0
    obtain ⟨t⟩ := ‹Nonempty θ›
    exact ⟨t, fun _ _ => rfl, Fits.start reading instant⟩
  · intro s l s' _ hI _ hs
    exact inHand_next hserial hI hs

end CcSnippets.Asio.Printer

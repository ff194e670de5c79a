import CcSnippets.Core.Tally
import CcSnippets.Core.Termination
import CcSnippets.Asio.Basic
import CcSnippets.Asio.Printer.Strand

/-!
# CcSnippets.Asio.Printer.Runs

Whole runs of the printers.

Where one handler runs at a time, a run takes a bounded number of steps besides the
passing of time, and can always be brought to its end, where all the numbers are printed
(`prints_in_order`). Where two threads can be in handlers of two timers, a number can be
printed twice: the strand is exactly what is needed (`in_order_iff_serial`).
-/

namespace CcSnippets.Asio.Printer

open CcSnippets.Core

variable {θ ι : Type} [DecidableEq θ] [DecidableEq ι] [Fintype θ]
  {settings : Settings} {clock : Clock ℤ} {second : ℤ} {s s' : State θ ι}

/-! ### The end of a run -/

/-- `run ()` returns: nothing is waited for, queued or run. -/
def State.Finished (s : State θ ι) : Prop :=
  (∀ t, s.pc t = .idle) ∧ s.queued = [] ∧ ∀ i, (s.timer i).waits = 0

/-- The numbers are printed in their order, none too many and none too early. -/
structure Orderly (settings : Settings) (second : ℤ) (s : State θ ι) : Prop where
  numbers : s.printed.map (fun x => x.2.1) = List.range s.printed.length
  limited : s.printed.length ≤ settings.limit
  punctual : Punctual second s.started s.printed

omit [DecidableEq θ] [Fintype θ] in
theorem InHand.orderly (h : InHand settings clock second s) : Orderly settings second s := by
  obtain ⟨t, -, hfits⟩ := h
  refine ⟨hfits.numbers, ?_, hfits.punctual⟩
  have := hfits.count
  have := hfits.limited
  omega

omit [DecidableEq θ] [Fintype θ] in
theorem InHand.all_printed [Nonempty ι] (h : InHand settings clock second s)
    (hdone : s.Finished) : s.printed.length = settings.limit ∧ s.count = settings.limit := by
  obtain ⟨t, -, hfits⟩ := h
  obtain ⟨hidle, hqueued, hwaits⟩ := hdone
  obtain ⟨i⟩ := ‹Nonempty ι›
  rw [hidle t] at hfits
  have hcount := hfits.count
  have hfull := hfits.done i (by simp [hqueued, hwaits i, Pc.runs])
  exact ⟨hcount.trans hfull, hfull⟩

/-! ### How long a run is -/

/-- The steps that are left of a handler, with those of the next wait. -/
def Pc.left : Pc ι → ℕ
  | .idle => 0
  | .test _ => 2
  | .load _ => 1
  | .store _ _ => 0
  | .print _ _ => 7
  | .expires _ => 6
  | .wait _ => 5

/-- The steps that are left, besides the passing of time. -/
def State.left [Fintype ι] (settings : Settings) (s : State θ ι) : ℕ :=
  8 * (settings.limit - s.count) + 4 * tally Timer.waits s.timer + 3 * s.queued.length +
    tally Pc.left s.pc

/-- Every step but the passing of time. -/
def Label.works : Label θ ι → Bool
  | .elapse => false
  | _ => true

variable [Fintype ι]

omit [Fintype θ] [Fintype ι] in
/-- A thread in a handler can go on. -/
theorem exists_exec {t : θ} (ht : s.pc t ≠ .idle) :
    ∃ s', s.exec settings clock second t = some s' := by
  unfold State.exec
  cases hp : s.pc t with
  | idle => exact absurd hp ht
  | test i | load i | store i c | print i c | expires i | wait i => exact ⟨_, rfl⟩

/-- A handler that goes on leaves less to do. -/
theorem left_exec {t : θ} (h : Fits settings clock second s (s.pc t))
    (hs : s.exec settings clock second t = some s') :
    s'.left settings + 1 ≤ s.left settings := by
  have hmove := fun q => tally_update Pc.left s.pc t q
  cases exec_step hs with
  | @test i hp hlt =>
    have hmove := hmove (.load i)
    simp only [hp, Pc.left] at hmove
    simp only [State.left, State.goto]
    omega
  | full hp hfull =>
    have hmove := hmove .idle
    simp only [hp, Pc.left] at hmove
    simp only [State.left, State.goto]
    omega
  | @load i hp =>
    have hmove := hmove (.store i s.count)
    simp only [hp, Pc.left] at hmove
    simp only [State.left, State.goto]
    omega
  | @store i c hp =>
    rw [hp] at h
    obtain ⟨rfl, hlt⟩ := h.knows
    have hmove := hmove (.print i s.count)
    simp only [hp, Pc.left] at hmove
    simp only [State.left, State.goto]
    omega
  | @print i c hp =>
    have hmove := hmove (.expires i)
    simp only [hp, Pc.left] at hmove
    simp only [State.left, State.goto]
    omega
  | @expires i hp =>
    rw [hp] at h
    have hplace := h.place i
    simp only [Pc.runs, if_true] at hplace
    have hwaits : (s.timer i).waits = 0 := by omega
    have hmove := hmove (.wait i)
    have htimer : tally Timer.waits
        (Function.update s.timer i ⟨(s.timer i).expiry + second, 0⟩) + (s.timer i).waits =
          tally Timer.waits s.timer + 0 := tally_update Timer.waits s.timer i _
    simp only [hp, Pc.left] at hmove
    simp only [State.left, State.goto, Timer.expiresAt, hwaits, List.replicate_zero,
      List.append_nil]
    omega
  | @wait i hp =>
    have hmove := hmove .idle
    have htimer := tally_update Timer.waits s.timer i (s.timer i).asyncWait
    simp only [Timer.asyncWait] at htimer
    simp only [hp, Pc.left] at hmove
    simp only [State.left, State.goto, Timer.asyncWait]
    omega

/-- **A run is bounded.** -/
theorem variant_left (hserial : settings.Serial θ) :
    (system settings clock second θ ι).Variant (InHand settings clock second) Label.works
      (State.left settings) where
  keeps h hs := inHand_next hserial h hs
  lowers {s s' l} h hs := by
    obtain ⟨t, hidle, hfits⟩ := h
    cases next_step hs with
    | elapse => exact le_rfl
    | @complete i timer htimer =>
      obtain ⟨-, -, hwaits⟩ := Timer.complete_eq_some.mp htimer
      have hmove := tally_update Timer.waits s.timer i timer
      simp only [State.left, Label.works, List.length_append, List.length_singleton,
        Bool.toNat_true]
      omega
    | @take u i rest hqueued hu _ =>
      have hmove := tally_update Pc.left s.pc u (.test i)
      rw [hu] at hmove
      simp only [State.left, Label.works, State.goto, hqueued, List.length_cons,
        Bool.toNat_true, Pc.left] at hmove ⊢
      omega
    | @exec u s' hexec =>
      by_cases hu : u = t
      · subst hu
        exact left_exec hfits hexec
      · rw [exec_of_idle (hidle u hu)] at hexec
        cases hexec

/-! ### To the end -/

omit [Fintype ι] in
theorem run_elapse (n : ℕ) (s : State θ ι) :
    (system settings clock second θ ι).run s (List.replicate n .elapse) =
      some { s with instant := s.instant + n } :=
  System.run_replicate (fun n => { s with instant := s.instant + n }) (fun _ => rfl) n

omit [Fintype ι] in
/-- Until the end something can be done, if not now then at the next expiry. -/
theorem exists_works [Nonempty θ] (hclock : ∀ x, ∃ n, x ≤ clock.read n) (hdone : ¬ s.Finished) :
    ∃ ls l s', (system settings clock second θ ι).run s (ls ++ [l]) = some s' ∧
      l.works = true := by
  by_cases hidle : ∀ t, s.pc t = .idle
  · cases hqueued : s.queued with
    | cons i rest =>
      obtain ⟨t⟩ := ‹Nonempty θ›
      refine ⟨[], .take t, ({ s with queued := rest }).goto t (.test i), ?_, rfl⟩
      refine System.run_cons_eq_some.mpr ⟨_, ?_, rfl⟩
      simp only [system, State.next, hqueued]
      exact if_pos ⟨hidle t, fun _ => hidle⟩
    | nil =>
      obtain ⟨i, hi⟩ : ∃ i, (s.timer i).waits ≠ 0 := by
        by_contra hnone
        push Not at hnone
        exact hdone ⟨hidle, hqueued, hnone⟩
      obtain ⟨n, hn⟩ := hclock (s.timer i).expiry
      have hdue : (s.timer i).expiry ≤ clock.read (s.instant + n) :=
        hn.trans (clock.mono (Nat.le_add_left n _))
      obtain ⟨s', hs'⟩ : ∃ s', (system settings clock second θ ι).next
          { s with instant := s.instant + n } (.complete i) = some s' := by
        simp only [system, State.next, Timer.complete]
        rw [if_pos ⟨hdue, Nat.pos_of_ne_zero hi⟩]
        exact ⟨_, rfl⟩
      exact ⟨List.replicate n .elapse, .complete i, s', System.run_append_eq_some.mpr
        ⟨_, run_elapse n s, System.run_cons_eq_some.mpr ⟨s', hs', rfl⟩⟩, rfl⟩
  · push Not at hidle
    obtain ⟨t, ht⟩ := hidle
    obtain ⟨s', hs'⟩ : ∃ s', s.exec settings clock second t = some s' := exists_exec ht
    exact ⟨[], .exec t, s', System.run_cons_eq_some.mpr ⟨s', hs', rfl⟩, rfl⟩

/-! ### Whole runs -/

/-- **The printers**: where one handler runs at a time, in every state that is reached the
numbers from 0 are printed in their order, each once, at most as many as the limit, and
the `k`-th print of a timer not before `k` seconds after its construction; the run can be
brought to its end, and there all of them are printed; and a run takes a bounded number
of steps besides the passing of time. -/
theorem prints_in_order [Nonempty θ] [Nonempty ι] (hserial : settings.Serial θ)
    (hclock : ∀ x, ∃ n, x ≤ clock.read n)
    (h : (system settings clock second θ ι).Reachable s) :
    Orderly settings second s ∧
      (s.Finished → s.printed.length = settings.limit ∧ s.count = settings.limit) ∧
      (∃ ls s', (system settings clock second θ ι).run s ls = some s' ∧ s'.Finished) ∧
      ∀ ls s', (system settings clock second θ ι).run s ls = some s' →
        ls.countP Label.works ≤ s.left settings := by
  have hs := inHand_of_reach hserial h
  have hvariant : (system settings clock second θ ι).Variant (InHand settings clock second)
      Label.works (State.left settings) := variant_left hserial
  refine ⟨hs.orderly, hs.all_printed, ?_, fun ls s' hrun => ?_⟩
  · obtain ⟨ls, s', hrun, -, hdone⟩ :=
      hvariant.exists_run_done (fun s _ hdone => exists_works hclock hdone) hs
    exact ⟨ls, s', hrun, hdone⟩
  · have hle := hvariant.count_le hs hrun
    omega

theorem ticking_passes (x : ℤ) : ∃ n, x ≤ ticking.read n := ⟨x.toNat, Int.self_le_toNat x⟩

/-- The program of `05` once both of its timers have printed, in two seconds. -/
def firstSecond {θ : Type} (t u : θ) : List (Label θ Bool) :=
  [.elapse, .complete true, .complete false, .take t, .exec t, .exec t, .exec t, .exec t, .exec t,
    .exec t, .take u, .exec u, .exec u, .exec u, .exec u, .exec u, .exec u]

/-- The program of `05` after the first second: each timer has printed, and the run goes on
to ten numbers. -/
theorem prints_in_order_firstSecond :
    ∃ s, (system double ticking 1 Bool Bool).run (.start ticking 1 (fun _ => 0) 0)
        (firstSecond true false) = some s ∧
      s.printed.map (fun x => (x.1, x.2.1)) = [(true, 0), (false, 1)] ∧
      Orderly double 1 s ∧
      (s.Finished → s.printed.length = 10 ∧ s.count = 10) ∧
      (∃ ls s', (system double ticking 1 Bool Bool).run s ls = some s' ∧ s'.Finished) ∧
      ∀ ls s', (system double ticking 1 Bool Bool).run s ls = some s' →
        ls.countP Label.works ≤ s.left double := by
  obtain ⟨s, hrun, hprinted⟩ : ∃ s,
      (system double ticking 1 Bool Bool).run (.start ticking 1 (fun _ => 0) 0)
        (firstSecond true false) = some s ∧
      s.printed.map (fun x => (x.1, x.2.1)) = [(true, 0), (false, 1)] := ⟨_, rfl, rfl⟩
  exact ⟨s, hrun, hprinted, prints_in_order (.inl rfl) ticking_passes
    (.run (.init ⟨_, _, fun _ => le_rfl, rfl⟩) hrun)⟩

/-! ### Without the strand -/

omit [Fintype ι] in
/-- Two threads that test the counter at once are to print the same number. -/
theorem both_print {t u : θ} {i j : ι} (htu : t ≠ u) (hlimit : 0 < settings.limit)
    (hcount : s.count = 0) (ht : s.pc t = .test i) (hu : s.pc u = .test j) :
    ∃ s', (system settings clock second θ ι).run s
        [.exec t, .exec u, .exec t, .exec u, .exec t, .exec u] = some s' ∧
      s'.pc t = .print i 0 ∧ s'.pc u = .print j 0 := by
  simp [System.run, system, State.next, State.exec, State.goto, ht, hu, htu, htu.symm, hcount,
    hlimit]

omit [Fintype ι] in
/-- They print it. -/
theorem printed_twice {t u : θ} {i j : ι} {n : ℕ} (htu : t ≠ u) (ht : s.pc t = .print i n)
    (hu : s.pc u = .print j n) :
    ∃ s', (system settings clock second θ ι).run s [.exec t, .exec u] = some s' ∧
      s'.printed.map (fun x => (x.1, x.2.1)) =
        s.printed.map (fun x => (x.1, x.2.1)) ++ [(i, n), (j, n)] := by
  simp [System.run, system, State.next, State.exec, State.goto, ht, hu, htu.symm]

omit [Fintype ι] in
/-- Without the strand two threads get to test the counter at once. -/
theorem both_test (second : ℤ) {t u : θ} {i j : ι} (htu : t ≠ u) (hij : i ≠ j)
    (hbound : settings.bound = false) (hclock : ∀ x, ∃ n, x ≤ clock.read n) :
    ∃ s, (system settings clock second θ ι).Reachable s ∧ s.count = 0 ∧ s.printed = [] ∧
      s.pc t = .test i ∧ s.pc u = .test j := by
  obtain ⟨n, hn⟩ := hclock (clock.read 0 + second)
  have hstart : (system settings clock second θ ι).Reachable (.start clock second (fun _ => 0) 0) :=
    .init ⟨_, _, fun _ => le_rfl, rfl⟩
  have hdue := hstart.run (run_elapse n _)
  obtain ⟨s, hrun, hs⟩ : ∃ s, (system settings clock second θ ι).run
      { (State.start clock second (fun _ => 0) 0 : State θ ι) with instant := 0 + n }
      [.complete i, .complete j, .take t, .take u] = some s ∧ s.count = 0 ∧ s.printed = [] ∧
      s.pc t = .test i ∧ s.pc u = .test j := by
    simp [System.run, system, State.next, State.start, State.goto, Timer.complete, hn, hbound,
      htu, htu.symm, hij.symm]
  exact ⟨s, hdue.run hrun, hs⟩

omit [Fintype ι] in
/-- So two threads print the same number, in the handlers of two timers. -/
theorem exists_printed_twice [Nonempty θ] [Nontrivial ι] (second : ℤ)
    (hlimit : 0 < settings.limit) (hclock : ∀ x, ∃ n, x ≤ clock.read n)
    (hserial : ¬ settings.Serial θ) :
    ∃ (t u : θ) (i j : ι) (n : ℕ) (s s' : State θ ι), t ≠ u ∧ i ≠ j ∧
      (system settings clock second θ ι).Reachable s ∧
      s.pc t = .print i n ∧ s.pc u = .print j n ∧
      (system settings clock second θ ι).run s [.exec t, .exec u] = some s' ∧
      s'.printed.map (fun x => (x.1, x.2.1)) =
        s.printed.map (fun x => (x.1, x.2.1)) ++ [(i, n), (j, n)] := by
  obtain ⟨hbound, hthreads⟩ := not_or.mp hserial
  obtain ⟨t, u, htu⟩ : ∃ t u : θ, t ≠ u := by
    by_contra hnone
    push Not at hnone
    exact hthreads ⟨hnone⟩
  obtain ⟨i, j, hij⟩ := exists_pair_ne ι
  obtain ⟨s, hs, hcount, -, ht, hu⟩ :=
    both_test second htu hij (Bool.eq_false_of_not_eq_true hbound) hclock
  obtain ⟨m, hm, ht, hu⟩ := both_print htu hlimit hcount ht hu
  obtain ⟨s', hs', htwice⟩ := printed_twice htu ht hu
  exact ⟨t, u, i, j, 0, m, s', htu, hij, hs.run hm, ht, hu, hs', htwice⟩

omit [Fintype ι] in
/-- **The strand is what is needed**: of two or more timers, the numbers are printed in
their order in every run exactly where the handlers are bound to the strand or there is
only one thread. Otherwise two threads can print the same number one after the other. -/
theorem in_order_iff_serial [Nonempty θ] [Nontrivial ι] (hlimit : 0 < settings.limit)
    (hclock : ∀ x, ∃ n, x ≤ clock.read n) :
    ((∀ s, (system settings clock second θ ι).Reachable s →
      s.printed.map (fun x => x.2.1) = List.range s.printed.length) ↔ settings.Serial θ) ∧
    (¬ settings.Serial θ → ∃ (t u : θ) (i j : ι) (n : ℕ) (s s' : State θ ι), t ≠ u ∧ i ≠ j ∧
      (system settings clock second θ ι).Reachable s ∧
      s.pc t = .print i n ∧ s.pc u = .print j n ∧
      (system settings clock second θ ι).run s [.exec t, .exec u] = some s' ∧
      s'.printed.map (fun x => (x.1, x.2.1)) =
        s.printed.map (fun x => (x.1, x.2.1)) ++ [(i, n), (j, n)]) := by
  refine ⟨⟨fun hall => ?_, fun hserial s hs => (inHand_of_reach hserial hs).orderly.numbers⟩,
    exists_printed_twice second hlimit hclock⟩
  by_contra hserial
  obtain ⟨t, u, i, j, n, s, s', -, -, hs, -, -, hrun, htwice⟩ :=
    exists_printed_twice (θ := θ) (ι := ι) second hlimit hclock hserial
  -- a number that was printed twice is not in a range twice
  have horder := hall s' (hs.run hrun)
  have hnumbers := congrArg (List.map Prod.snd) htwice
  simp only [List.map_append, List.map_map, List.map_cons, List.map_nil] at hnumbers
  have hnodup : (s'.printed.map fun x => x.2.1).Nodup := horder ▸ List.nodup_range
  have hsame : (s'.printed.map fun x => x.2.1) =
      (s.printed.map fun x => x.2.1) ++ [n, n] := hnumbers
  rw [hsame] at hnodup
  exact absurd (List.nodup_append.mp hnodup).2.1 (by simp)

/-- Of `05`: two timers and two threads need the strand. -/
theorem in_order_iff_serial_double :
    (∀ s, (system double ticking 1 Bool Bool).Reachable s →
      s.printed.map (fun x => x.2.1) = List.range s.printed.length) ↔ double.Serial Bool :=
  (in_order_iff_serial (by decide) ticking_passes).1

end CcSnippets.Asio.Printer

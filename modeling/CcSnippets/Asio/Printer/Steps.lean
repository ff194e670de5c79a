import CcSnippets.Asio.Printer.Basic

/-!
# CcSnippets.Asio.Printer.Steps

Everything an access of a handler (`Exec`), and a step (`Step`), can do, read off the
step function.
-/

namespace CcSnippets.Asio.Printer

open CcSnippets.Core

variable {θ ι : Type} [DecidableEq θ] [DecidableEq ι]

/-- Everything the next access of a handler can do. -/
inductive Exec (settings : Settings) (clock : Clock ℤ) (second : ℤ) (s : State θ ι) (t : θ) :
    State θ ι → Prop
  | test {i : ι} :
      s.pc t = .test i → s.count < settings.limit →
      Exec settings clock second s t (s.goto t (.load i))
  | full {i : ι} :
      s.pc t = .test i → ¬ s.count < settings.limit →
      Exec settings clock second s t (s.goto t .idle)
  | load {i : ι} :
      s.pc t = .load i → Exec settings clock second s t (s.goto t (.store i s.count))
  | store {i : ι} {count : ℕ} :
      s.pc t = .store i count →
      Exec settings clock second s t ({ s with count := count + 1 }.goto t (.print i count))
  | print {i : ι} {count : ℕ} :
      s.pc t = .print i count →
      Exec settings clock second s t
        ({ s with
          instant := s.instant + 1
          printed := s.printed ++ [(i, count, clock.read s.instant)] }.goto t (.expires i))
  | expires {i : ι} :
      s.pc t = .expires i →
      Exec settings clock second s t
        ({ s with
          timer := Function.update s.timer i ((s.timer i).expiresAt ((s.timer i).expiry + second)).1
          queued := s.queued ++ List.replicate (s.timer i).waits i }.goto t (.wait i))
  | wait {i : ι} :
      s.pc t = .wait i →
      Exec settings clock second s t
        ({ s with timer := Function.update s.timer i (s.timer i).asyncWait }.goto t .idle)

theorem exec_step {settings : Settings} {clock : Clock ℤ} {second : ℤ} {s s' : State θ ι}
    {t : θ} (h : s.exec settings clock second t = some s') :
    Exec settings clock second s t s' := by
  unfold State.exec at h
  cases hp : s.pc t with
  | idle =>
    rw [hp] at h
    cases h
  | test i =>
    simp only [hp] at h
    obtain rfl := Option.some.inj h
    split
    · rename_i hlt
      exact .test hp hlt
    · rename_i hfull
      exact .full hp hfull
  | load i =>
    simp only [hp] at h
    obtain rfl := Option.some.inj h
    exact .load hp
  | store i count =>
    simp only [hp] at h
    obtain rfl := Option.some.inj h
    exact .store hp
  | print i count =>
    simp only [hp] at h
    obtain rfl := Option.some.inj h
    exact .print hp
  | expires i =>
    simp only [hp] at h
    obtain rfl := Option.some.inj h
    exact .expires hp
  | wait i =>
    simp only [hp] at h
    obtain rfl := Option.some.inj h
    exact .wait hp

variable [Fintype θ]

/-- Everything a step can do. -/
inductive Step (settings : Settings) (clock : Clock ℤ) (second : ℤ) (s : State θ ι) :
    Label θ ι → State θ ι → Prop
  | elapse : Step settings clock second s .elapse { s with instant := s.instant + 1 }
  | complete {i : ι} {timer : Timer ℤ} :
      (s.timer i).complete (clock.read s.instant) = some timer →
      Step settings clock second s (.complete i)
        { s with timer := Function.update s.timer i timer, queued := s.queued ++ [i] }
  | take {t : θ} {i : ι} {rest : List ι} :
      s.queued = i :: rest → s.pc t = .idle → (settings.bound = true → ∀ u, s.pc u = .idle) →
      Step settings clock second s (.take t) ({ s with queued := rest }.goto t (.test i))
  | exec {t : θ} {s' : State θ ι} :
      s.exec settings clock second t = some s' → Step settings clock second s (.exec t) s'

theorem next_step {settings : Settings} {clock : Clock ℤ} {second : ℤ} {s s' : State θ ι}
    {l : Label θ ι} (h : s.next settings clock second l = some s') :
    Step settings clock second s l s' := by
  cases l with
  | elapse =>
    obtain rfl := Option.some.inj h
    exact .elapse
  | complete i =>
    simp only [State.next] at h
    split at h
    · rename_i htimer
      obtain rfl := Option.some.inj h
      exact .complete htimer
    · cases h
  | take t =>
    simp only [State.next] at h
    split at h
    · rename_i hqueued
      split at h
      · rename_i hfree
        obtain rfl := Option.some.inj h
        exact .take hqueued hfree.1 hfree.2
      · cases h
    · cases h
  | exec t => exact .exec h

end CcSnippets.Asio.Printer

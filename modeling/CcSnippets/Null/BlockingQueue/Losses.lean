import CcSnippets.Null.BlockingQueue.Exceptions
import CcSnippets.Null.BlockingQueue.Fifo

/-!
# CcSnippets.Null.BlockingQueue.Losses

What a call that exits by an exception does to the elements.

Where `push_back` throws, or the move of the front element, the queue is as it was
when the call took the mutex. But `pop` and `try_pop` remove the front element before
they build the optional that they return: an exception there **loses the element**.
That is the only one that does (`intact_iff_not_building`).
-/

namespace CcSnippets.BlockingQueue

open CcSnippets.Core

variable {τ T : Type*} [DecidableEq τ]

/-! ### A lock-protected section -/

/-- What the thread, which has owned the mutex since the queue was `q₀`, has made
of it. -/
def Pc.Since (q₀ q : Queue T) : Pc T → Prop
  | .testing _ _ | .deciding _ _ | .mutating _ => q = q₀
  | .notifying _ r | .leaving r _ =>
    (r = .threw → q = q₀) ∧ ∀ x, r = .elem (some x) → q₀.queue = x :: q.queue
  | _ => True

theorem Pc.since_of_not_holds {q₀ q : Queue T} {pc : Pc T} (h : pc.holds = false) :
    pc.Since q₀ q := by
  cases pc with
  | testing | deciding | mutating | notifying | leaving | closeLocked => cases h
  | _ => trivial

theorem Pc.since_wakeOn {q₀ q : Queue T} {pc : Pc T} (cv : Cv) (h : pc.Since q₀ q) :
    (pc.wakeOn cv).Since q₀ q := by
  cases pc with
  | asleep op =>
    simp only [Pc.wakeOn]
    split <;> trivial
  | _ => exact h

theorem method_refusal_cases (op : Op T) :
    op.method.refusal = .bool false ∨ op.method.refusal = .elem none := by
  cases op <;> simp [Op.method, push, tryPush, pop, tryPop]

variable {q₀ : Queue T} {s s' : State τ T} {t : τ}

/-- Some thread moves, and the queue stays as it is. -/
theorem since_update (h : (s.pc t).Since q₀ s.q) {u : τ} {x : Pc T}
    (hx : u = t → x.Since q₀ s.q) : (Function.update s.pc u x t).Since q₀ s.q := by
  by_cases hut : u = t
  · subst hut
    rw [Function.update_self]
    exact hx rfl
  · rw [Function.update_of_ne (Ne.symm hut)]
    exact h

/-- Another thread changes the queue: this one is in no section. -/
theorem since_other (hO : Owned s) {u : τ} (hu : (s.pc u).holds = true) (hut : u ≠ t) (q : Queue T)
    (x : Pc T) : (Function.update s.pc u x t).Since q₀ q := by
  rw [Function.update_of_ne (Ne.symm hut)]
  exact Pc.since_of_not_holds (hO.owner.not_holds hu (Ne.symm hut))

/-- **Step lemma.** Until the thread takes the mutex again, every step keeps what it has
made of the queue. -/
theorem since_step {l : Label τ T} (hO : Owned s) (h : (s.pc t).Since q₀ s.q)
    (hl : ∀ b, l ≠ .lock t b) (hs : Step s l s') : (s'.pc t).Since q₀ s'.q := by
  cases hs with
  | call _ | callClose _ | sleep _ _ | leave _ _ | wake _ => exact since_update h fun _ => trivial
  | @enter u op _ _ =>
    refine since_update h fun heq => ?_
    subst heq
    exact absurd rfl (hl false)
  | @relock u op timedOut _ _ _ =>
    refine since_update h fun heq => ?_
    subst heq
    exact absurd rfl (hl timedOut)
  | lockClose _ _ => exact since_update h fun _ => trivial
  | @pass u op _ hpc _ | @giveUp u op hpc _ | @proceed u op _ hpc _ =>
    refine since_update h fun heq => ?_
    subst heq
    rw [hpc] at h
    exact h
  | @refuse u op success hpc hr =>
    refine since_update h fun heq => ?_
    rcases method_refusal_cases op with hrefusal | hrefusal
    · simp [Pc.Since, hrefusal]
    · simp [Pc.Since, hrefusal]
  | @bodyThrows u op hpc =>
    refine since_update h fun heq => ?_
    subst heq
    rw [hpc] at h
    exact ⟨fun _ => h, fun x hx => (by cases hx)⟩
  | @body u op q r hpc hb =>
    by_cases hut : u = t
    · subst hut
      rw [hpc] at h
      obtain rfl : s.q = q₀ := h
      show (Function.update s.pc u _ u).Since s.q q
      rw [Function.update_self]
      rcases method_body_cases hb with ⟨x, -, -, rfl⟩ | ⟨-, x, hq, rfl⟩
      · exact ⟨fun hr => (by cases hr), fun y hy => (by cases hy)⟩
      · refine ⟨fun hr => (by cases hr), fun y hy => ?_⟩
        cases hy
        exact hq
    · exact since_other hO (by rw [hpc]; rfl) hut _ _
  | @notifyNone u cv r hpc _ =>
    refine since_update h fun heq => ?_
    subst heq
    rw [hpc] at h
    exact h
  | @notifyOne u v op r hpc hv =>
    have hmid : ((s.goto v (.woken op)).pc t).Since q₀ s.q := since_update h fun _ => trivial
    refine since_update hmid fun heq => ?_
    subst heq
    rw [hpc] at h
    exact h
  | @closeSet u hpc =>
    by_cases hut : u = t
    · subst hut
      show (Function.update s.pc u _ u).Since q₀ _
      rw [Function.update_self]
      trivial
    · exact since_other hO (by rw [hpc]; rfl) hut _ _
  | closeNotEmpty _ =>
    have hmid : (({ s with pc := fun u => (s.pc u).wakeOn .notEmpty } : State τ T).pc t).Since q₀
        s.q := Pc.since_wakeOn _ h
    exact since_update hmid fun _ => trivial
  | closeNotFull _ =>
    have hmid : (({ s with pc := fun u => (s.pc u).wakeOn .notFull } : State τ T).pc t).Since q₀
        s.q := Pc.since_wakeOn _ h
    exact since_update hmid fun _ => trivial

variable [Fintype τ]

/-- What a thread makes of the queue in one section. -/
theorem since_of_lock {capacity : ℕ} {s₁ s₂ : State τ T} {timedOut : Bool}
    {ls : List (Label τ T)} (h : (system τ T capacity).Reachable s)
    (hlock : next s (.lock t timedOut) = some s₁) (hls : ∀ b, .lock t b ∉ ls)
    (hrun : (system τ T capacity).run s₁ ls = some s₂) : (s₂.pc t).Since s.q s₂.q := by
  have hstart : (s₁.pc t).Since s.q s₁.q := by
    cases next_step hlock with
    | enter _ _ | relock _ _ _ =>
      show (Function.update s.pc t _ t).Since s.q s.q
      rw [Function.update_self]
      rfl
    | lockClose _ _ =>
      show (Function.update s.pc t _ t).Since s.q s.q
      rw [Function.update_self]
      trivial
  have hnext : (system τ T capacity).next s (.lock t timedOut) = some s₁ := hlock
  have hreach : (system τ T capacity).Reachable s₁ := .step h trivial hnext
  have hother : ∀ l ∈ ls, ∀ b, l ≠ .lock t b := by
    intro l hl b heq
    subst heq
    exact hls b hl
  have hsection : (system τ T capacity).Reachable s₂ ∧ (s₂.pc t).Since s.q s₂.q := by
    refine System.run_invariant_of (fun l => ∀ b, l ≠ .lock t b)
      (I := fun m => (system τ T capacity).Reachable m ∧ (m.pc t).Since s.q m.q)
      (fun m l m' hl hm hm' => ?_) hother ⟨hreach, hstart⟩ hrun
    exact ⟨.step hm.1 trivial hm', since_step (owned_of_reach hm.1) hm.2 hl (next_step hm')⟩
  exact hsection.2

/-! ### What an exception loses -/

/-- **An exception loses an element exactly where it comes from building the optional.**
A call that exits by an exception leaves the queue as it was when the call took the
mutex (for the last time, if it has waited) if and only if its body threw and not
the construction of the optional that it returns. In a run in which no such
construction throws, every element accepted is still queued or has been removed, in
order, by exactly one call that answers with it. -/
theorem intact_iff_not_building (capacity : ℕ) :
    (∀ (s₀ s₁ s₂ s₃ : State τ T) (t : τ) (timedOut throws : Bool) (ls : List (Label τ T))
      (c : CallId τ) (arg : Option T), (system τ T capacity).Reachable s₀ →
      next s₀ (.lock t timedOut) = some s₁ → (∀ b, .lock t b ∉ ls) →
      (system τ T capacity).run s₁ ls = some s₂ → next s₂ (.leave t throws) = some s₃ →
      s₃.returned = s₂.returned ++ [(c, .threw, arg)] →
      (s₃.q.queue = s₀.q.queue ∧ s₃.q.closed = s₀.q.closed ↔ throws = false)) ∧
    ∀ s : State τ T, (system τ T capacity).Reach (fun _ l => l.throwsInBody = true) s →
      ExactlyOnce capacity s := by
  constructor
  · intro s₀ s₁ s₂ s₃ t timedOut throws ls c arg h hlock hls hrun hleave hthrew
    have hsince := since_of_lock h hlock hls hrun
    cases next_step hleave with
    | @leave _ r arg' _ hpc hbuild =>
      rw [hpc] at hsince
      obtain ⟨hbody, hremoved⟩ := hsince
      have hanswer : (if throws then .threw else r) = Result.threw := by
        have hlast := List.append_cancel_left hthrew
        simp only [List.cons.injEq, Prod.mk.injEq, and_true] at hlast
        exact hlast.2.1
      cases throws with
      | false =>
        have hq : s₂.q = s₀.q := hbody (by simpa using hanswer)
        exact ⟨fun _ => rfl, fun _ => ⟨congrArg Queue.queue hq, congrArg Queue.closed hq⟩⟩
      | true =>
        obtain ⟨x, hx⟩ := Option.isSome_iff_exists.mp (hbuild rfl)
        obtain rfl : r = .elem (some x) := by
          cases r with
          | elem o => exact congrArg Result.elem hx
          | _ => cases hx
        -- the element is gone from the queue
        refine ⟨fun hsame => ?_, fun habsurd => by cases habsurd⟩
        have hq := hremoved x rfl
        rw [← hsame.1] at hq
        exact absurd hq.symm (List.cons_ne_self x _)
  · intro s h
    refine (history_of_reach_of (fun s l hl t heq => ?_) h).exactlyOnce
    subst heq
    cases hl

/-- A `push` whose `push_back` throws leaves the queue empty, as it was. -/
theorem intact_iff_not_building_push :
    ∃ s₀ s₁ s₂ s₃ : State (Fin 1) ℕ,
      (system (Fin 1) ℕ 1).run (.start 1) [.call 0 (.push 7)] = some s₀ ∧
      next s₀ (.lock 0 false) = some s₁ ∧
      (system (Fin 1) ℕ 1).run s₁ [.test 0, .decide 0, .body 0 true] = some s₂ ∧
      next s₂ (.leave 0 false) = some s₃ ∧ s₃.returned = [((0, 0), .threw, some 7)] ∧
      s₃.q.queue = s₀.q.queue ∧ s₃.q.closed = s₀.q.closed := by
  refine ⟨_, _, _, _, rfl, rfl, rfl, rfl, rfl, ?_⟩
  exact ((intact_iff_not_building 1).1 _ _ _ _ 0 false false [.test 0, .decide 0, .body 0 true]
    (0, 0) (some 7) (.step (l := .call 0 (.push 7)) (.init rfl) trivial rfl) rfl (by simp) rfl rfl
    rfl).mpr rfl

/-- **A `pop` that throws after `pop_front` loses the element**: the queue holds 7
before it and nothing behind it, nobody is in a call, and no call has returned 7. -/
theorem optional_loses_element :
    ∃ s₀ s₁ s₂ s₃ : State (Fin 1) ℕ,
      (system (Fin 1) ℕ 1).run (.start 1)
        [.call 0 (.push 7), .lock 0 false, .test 0, .decide 0, .body 0 false, .notify 0 none,
          .leave 0 false, .call 0 .pop] = some s₀ ∧
      next s₀ (.lock 0 false) = some s₁ ∧
      (system (Fin 1) ℕ 1).run s₁ [.test 0, .decide 0, .body 0 false, .notify 0 none] = some s₂ ∧
      next s₂ (.leave 0 true) = some s₃ ∧
      s₃.returned = [((0, 0), .bool true, none), ((0, 1), .threw, none)] ∧
      s₀.q.queue = [7] ∧ s₃.q.queue = [] ∧ s₃.pc 0 = .idle :=
  ⟨_, _, _, _, rfl, rfl, rfl, rfl, rfl, rfl, rfl, rfl⟩

end CcSnippets.BlockingQueue

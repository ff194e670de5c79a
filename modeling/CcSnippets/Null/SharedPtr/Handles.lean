import CcSnippets.Null.SharedPtr.Calls
import CcSnippets.Null.SharedPtr.Cascade

/-!
# CcSnippets.Null.SharedPtr.Handles

Every operation on handles is carried through (`exists_call`): it does to the handles it
names what it promises, and the recursion of destructors that it sets off takes exactly
the handles that are doomed then, the one whose destructor it called and the members of
the objects that are lost with it. After it **the counts are the numbers of live
handles** again.
-/

namespace CcSnippets.SharedPtr

open CcSnippets.Core

variable {Loc Obj D : Type*} [Fintype Loc] [DecidableEq Loc] [DecidableEq Obj]
variable {s s' : State Loc Obj D}

/-- The calls that `s` leaves to be made take the doomed handles and no others. -/
def Sweeps (s s' : State Loc Obj D) : Prop :=
  ∀ l, (Doomed s l → s'.handle l = none) ∧ (¬ Doomed s l → s'.handle l = s.handle l)

variable [Fintype Obj]

theorem Unwound.sweeps (h : Unwound s s') (hs : Sound s) (hs' : Sound s') (hdone : s'.stack = []) :
    Sweeps s s' := by
  refine fun l => ⟨fun hdoomed => ?_, fun hnot => ?_⟩
  · rcases hdoomed with hdrop | ⟨o, ho, hmember⟩
    · exact h.gone_of_dropping hdone hdrop
    · obtain ⟨⟨del, hdel⟩, -⟩ := h.deleted_of_lost hs hs' hdone ho
      exact h.gone_of_member hs' hdone hdel hmember
  · rcases h.handle l with hsame | ⟨-, hdoomed⟩
    · exact hsame
    · exact absurd hdoomed hnot

/-- An operation that is called between two others goes through, with all it sets
off. -/
theorem exists_call (h : Sound s) (hdone : s.stack = []) {op : Op Loc Obj D} (hok : op.Ok s) :
    ∃ s₁ s', next s (.call op) = some s₁ ∧ Called op s s₁ ∧ Sound s₁ ∧ Returns s₁ s' ∧
      Sound s' ∧ Unwound s₁ s' := by
  obtain ⟨s₁, hs₁, hsound⟩ := h.run hdone hok
  have hcalled := called_of_run hdone hok hs₁
  obtain ⟨s', hs', hsound', hunwound⟩ := exists_returns (I := Unwound s₁)
    (fun t t' ht hI hstep => hI.step ht hstep) hsound
    (.refl (by rw [hcalled.stack]; exact op.calls_cases))
  refine ⟨s₁, s', ?_, hcalled, hsound, hs', hsound', hunwound⟩
  unfold SharedPtr.next
  exact (if_pos ⟨hdone, hok⟩).trans hs₁

/-! ### Over every run -/

end CcSnippets.SharedPtr

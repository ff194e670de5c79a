import CcSnippets.Core.Termination
import CcSnippets.Asio.Basic

/-!
# CcSnippets.Asio.WindDown

A session that **works for what it receives**, and so winds down.

Every chunk received pays for the handlers that pass it on and for the waits that they
move (`WindsDown.few`). Once the peer is silent, or the socket is closed, what is left to
do is bounded, and when it is done nothing refers to the session (`WindsDown.released`).
-/

namespace CcSnippets.Asio

open CcSnippets.Core

/-- What is seen of the steps of a session. -/
structure View (σ ι : Type) where
  /-- Time passes. -/
  elapse : ι
  /-- An operation or a wait gets on, or a handler runs. -/
  works : ι → Bool
  /-- What is received in the step. -/
  chunk : ι → Option Chunk
  isOpen : σ → Bool
  /-- How many closures hold a pointer to the session. -/
  refs : σ → ℕ

namespace View

variable {σ ι : Type} (v : View σ ι)

/-- What a step pays for. -/
def price (each : ℕ) (l : ι) : ℕ :=
  match v.chunk l with
  | some chunk => each + chunk.bytes.length
  | none => 0

/-- What a step brings: its price, and what it costs if it is no work. -/
def credit (each : ℕ) (l : ι) : ℕ := v.price each l + (!v.works l).toNat

theorem credit_add_works (each : ℕ) (l : ι) :
    v.credit each l + (v.works l).toNat = v.price each l + 1 := by
  cases h : v.works l <;> simp [credit, h]

end View

/-- A step that works and receives nothing can be made once time has passed. -/
theorem exists_works_after {σ ι : Type} {M : System σ ι} {elapse : ι} {works : ι → Bool}
    {chunk : ι → Option Chunk} {s m s' : σ} (n : ℕ) (l : ι)
    (hm : M.run s (List.replicate n elapse) = some m) (hs : M.next m l = some s')
    (hl : works l = true) (hchunk : chunk l = none) :
    ∃ n l s', works l = true ∧ chunk l = none ∧
      M.run s (List.replicate n elapse ++ [l]) = some s' :=
  ⟨n, l, s', hl, hchunk,
    System.run_append_eq_some.mpr ⟨m, hm, System.run_cons_eq_some.mpr ⟨s', hs, rfl⟩⟩⟩

/-- What it means that the sessions of `M` **wind down**: `first` is what the start of one is
good for, and `each`, with the number of its bytes, what a chunk is. -/
structure WindsDown {σ ι : Type} (M : System σ ι) (v : View σ ι) (clock : Clock ℤ)
    (first each : ℕ) : Prop where
  /-- No more is done than what is received pays for. -/
  few : ∀ s ls t, M.init s → M.run s ls = some t →
    ls.countP v.works ≤ first + System.paid (v.price each) ls
  /-- Where the session is referred to there is more to come, once time has passed, and even if
  no more is received. -/
  goesOn : (∀ t, ∃ n, t ≤ clock.read n) → ∀ s, M.Reachable s → v.refs s ≠ 0 →
    ∃ n l s', v.works l = true ∧ v.chunk l = none ∧
      M.run s (List.replicate n v.elapse ++ [l]) = some s'
  /-- Where nothing refers to it nothing is to come. -/
  final : ∀ s, v.refs s = 0 → ∀ l, v.works l = true → M.next s l = none
  /-- A session whose socket is closed receives no more. -/
  deaf : ∀ s, v.isOpen s = false → ∀ ls t, M.run s ls = some t → ∀ l ∈ ls, v.chunk l = none
  /-- If no more is received from some moment on, and more comes wherever it can, then nothing
  refers to the session in the end. -/
  released : ∀ s, M.Reachable s → ∀ e : M.Execution s,
    (∃ k, ∀ n, k ≤ n → v.chunk (e.label n) = none) →
    (∀ n, v.refs (e.state n) ≠ 0 → ∃ m, n ≤ m ∧ v.works (e.label m) = true) →
    ∃ n, v.refs (e.state n) = 0

/-- Sessions whose steps are paid for wind down. -/
theorem WindsDown.of_amortised {σ ι : Type} {M : System σ ι} {v : View σ ι} {clock : Clock ℤ}
    {first each : ℕ} {I : σ → Prop} {μ : σ → ℕ} (h : M.Amortised I (v.credit each) μ)
    (hinit : ∀ s, M.init s → I s ∧ μ s ≤ first)
    (hgoes : (∀ t, ∃ n, t ≤ clock.read n) → ∀ s, v.refs s ≠ 0 →
      ∃ n l s', v.works l = true ∧ v.chunk l = none ∧
        M.run s (List.replicate n v.elapse ++ [l]) = some s')
    (hfinal : ∀ s, v.refs s = 0 → ∀ l, v.works l = true → M.next s l = none)
    (hclosed : ∀ s l s', v.isOpen s = false → M.next s l = some s' →
      v.chunk l = none ∧ v.isOpen s' = false) : WindsDown M v clock first each where
  few s ls t hs hrun := by
    obtain ⟨hI, hle⟩ := hinit s hs
    have hcount := h.count_le v.works (v.price each)
      (fun l => by rw [v.credit_add_works, Nat.add_comm]) hI hrun
    omega
  goesOn hclock s _ := hgoes hclock s
  final := hfinal
  deaf s hs ls t hrun := by
    induction ls generalizing s with
    | nil => nofun
    | cons l ls ih =>
      obtain ⟨m, hm, hrest⟩ := System.run_cons_eq_some.mp hrun
      obtain ⟨hl, hopen⟩ := hclosed s l m hs hm
      exact List.forall_mem_cons.mpr ⟨hl, ih m hopen hrest⟩
  released s hs e hquiet hfair := by
    obtain ⟨k, hk⟩ := hquiet
    have hI : I s := hs.invariant (fun s h0 => (hinit s h0).1) fun _ _ _ _ hI _ hnext =>
      h.keeps hI hnext
    refine h.exists_done v.works (fun t => v.refs t = 0) hI e (k := k) (fun n hn => ?_) hfair
    rw [v.credit_add_works, View.price, hk n hn]

end CcSnippets.Asio

import Mathlib.Data.List.Dedup
import Mathlib.Data.List.Nodup
import Mathlib.Data.Finset.Dedup
import Mathlib.Data.Finset.Card

/-!
# CcSnippets.Core.Recency

Histories of uses and bounded most-recently-used lists.

A history is a list of keys, oldest use first. `recent h` lists its distinct
keys by their last use, newest first. An association list with the newest entry
in front is kept up by `use`; cut to a capacity after every use it always holds
a prefix of `recent h` (`keys_use_take`), which is why a bounded cache that
evicts the entry used least recently needs no memory of what it has evicted.
-/

namespace CcSnippets.Core.Recency

variable {κ β : Type*} [DecidableEq κ]

/-! ### Histories -/

/-- The distinct keys of a history, by their last use, newest first. -/
def recent (h : List κ) : List κ := h.dedup.reverse

/-- The uses after the last use of `k`, newest first. -/
def since (k : κ) (h : List κ) : List κ := h.reverse.takeWhile fun j => j ≠ k

theorem nodup_recent (h : List κ) : (recent h).Nodup :=
  List.nodup_reverse.mpr (List.nodup_dedup h)

@[simp] theorem mem_recent {k : κ} {h : List κ} : k ∈ recent h ↔ k ∈ h := by
  simp [recent]

/-- One more use of `k` moves it to the front. -/
theorem recent_concat (h : List κ) (k : κ) :
    recent (h ++ [k]) = k :: (recent h).erase k := by
  have hdedup : (h ++ [k]).dedup = h.dedup.erase k ++ [k] := by
    induction h with
    | nil => simp
    | cons j h ih =>
      rw [List.cons_append, List.dedup_cons, ih, List.dedup_cons]
      by_cases hj : j ∈ h
      · rw [if_pos (List.mem_append_left _ hj), if_pos hj]
      · rw [if_neg hj]
        by_cases hk : j = k
        · subst hk
          rw [if_pos (List.mem_append_right _ List.mem_cons_self), List.erase_cons_head,
            List.erase_of_not_mem (by simpa using hj)]
        · rw [if_neg (by simp [hj, hk]), List.erase_cons_tail (by simpa using hk),
            List.cons_append]
  rw [recent, hdedup, List.reverse_append, List.reverse_singleton, List.singleton_append, recent,
    (List.nodup_reverse.mpr (List.nodup_dedup h)).erase_eq_filter,
    (List.nodup_dedup h).erase_eq_filter, List.filter_reverse]

/-- Splitting a history at the last use of `k` splits `recent` at `k`. -/
theorem recent_split (h h' : List κ) (k : κ) :
    ∃ rest, recent (h ++ k :: h') = recent (k :: h') ++ rest := by
  induction h with
  | nil => exact ⟨[], by simp⟩
  | cons j h ih =>
    obtain ⟨rest, hrest⟩ := ih
    rw [List.cons_append, recent, List.dedup_cons]
    split
    · exact ⟨rest, hrest⟩
    · refine ⟨rest ++ [j], ?_⟩
      rw [List.reverse_cons, ← List.append_assoc, ← hrest]
      rfl

omit [DecidableEq κ] in
/-- A list that holds `k` once, at the end of a prefix `a`, has it among its
first `n` elements exactly where the prefix is shorter than `n`. -/
theorem mem_take_append_cons {a b : List κ} {k : κ} {n : ℕ} (ha : k ∉ a) :
    k ∈ (a ++ k :: b).take n ↔ a.length < n := by
  rw [List.take_append, List.mem_append]
  constructor
  · intro hcase
    rcases hcase with h | h
    · exact absurd (List.mem_of_mem_take h) ha
    · by_contra hle
      rw [show n - a.length = 0 by omega, List.take_zero] at h
      cases h
  · intro h
    obtain ⟨m, hm⟩ : ∃ m, n - a.length = m + 1 := ⟨n - a.length - 1, by omega⟩
    exact .inr (by rw [hm, List.take_succ_cons]; exact List.mem_cons_self)

/-- **The closed form of a bounded recency list**: `k` is among the first `n`
keys exactly where it was used and fewer than `n` distinct other keys have been
used since its last use. -/
theorem mem_take_recent {k : κ} {n : ℕ} {h : List κ} :
    k ∈ (recent h).take n ↔ k ∈ h ∧ (since k h).toFinset.card < n := by
  by_cases hk : k ∈ h
  · obtain ⟨post, pre, hrev, hpost⟩ := List.eq_append_cons_of_mem (List.mem_reverse.mpr hk)
    have hh : h = pre.reverse ++ k :: post.reverse := by
      rw [← List.reverse_reverse h, hrev]
      simp
    have hsince : since k h = post := by
      rw [since, hrev, List.takeWhile_append_of_pos fun j hj => by
        simpa using fun hjk : j = k => hpost (hjk ▸ hj)]
      simp
    obtain ⟨rest, hrest⟩ := recent_split pre.reverse post.reverse k
    have hrecent : recent h = recent post.reverse ++ k :: rest := by
      rw [hh, hrest, recent, List.dedup_cons_of_notMem (by simpa using hpost), List.reverse_cons,
        List.append_assoc]
      rfl
    have hlen : (recent post.reverse).length = post.toFinset.card := by
      rw [recent, List.length_reverse, ← List.card_toFinset, List.toFinset_reverse]
    rw [hrecent, mem_take_append_cons (by simpa using hpost), hlen, hsince]
    exact (and_iff_right hk).symm
  · refine ⟨fun hc => absurd (mem_recent.mp (List.mem_of_mem_take hc)) hk, fun hc => absurd hc.1 hk⟩

/-! ### Bounded lists -/

omit [DecidableEq κ] in
/-- Cutting before or after one key is taken out makes no difference, as long
as one more is kept. -/
theorem take_erase_take [BEq κ] [LawfulBEq κ] {l : List κ} {n : ℕ} (k : κ) :
    (((l.take (n + 1)).erase k).take n) = (l.erase k).take n := by
  by_cases hk : k ∈ l.take (n + 1)
  · conv_rhs => rw [← List.take_append_drop (n + 1) l, List.erase_append_left _ hk]
    by_cases hlen : n + 1 ≤ l.length
    · rw [List.take_append_of_le_length]
      rw [List.length_erase_of_mem hk, List.length_take]
      omega
    · rw [List.drop_eq_nil_of_le (by omega), List.append_nil]
  · rw [List.erase_of_not_mem hk, List.take_take, Nat.min_eq_left (Nat.le_succ n)]
    conv_rhs => rw [← List.take_append_drop (n + 1) l, List.erase_append_right _ hk]
    by_cases hlen : n + 1 ≤ l.length
    · rw [List.take_append_of_le_length (by rw [List.length_take]; omega), List.take_take,
        Nat.min_eq_left (Nat.le_succ n)]
    · rw [List.drop_eq_nil_of_le (by omega), List.erase_nil, List.append_nil, List.take_take,
        Nat.min_eq_left (Nat.le_succ n)]

/-- Use `k`: its entry, with value `v`, moves or comes to the front. -/
def use (k : κ) (v : β) (l : List (κ × β)) : List (κ × β) :=
  (k, v) :: l.filter fun p => p.1 ≠ k

/-- The value of `k`. -/
def find (k : κ) (l : List (κ × β)) : Option β :=
  (l.find? fun p => p.1 = k).map Prod.snd

/-- Look `k` up; a hit is a use. -/
def get (k : κ) (l : List (κ × β)) : List (κ × β) :=
  match find k l with
  | none => l
  | some v => use k v l

/-- Store `v` under `k` in a list with room for `n` entries. -/
def put (n : ℕ) (k : κ) (v : β) (l : List (κ × β)) : List (κ × β) := (use k v l).take n

theorem map_fst_filter (k : κ) {l : List (κ × β)} (hl : (l.map Prod.fst).Nodup) :
    (l.filter fun p => p.1 ≠ k).map Prod.fst = (l.map Prod.fst).erase k := by
  rw [hl.erase_eq_filter, List.filter_map]
  congr 1
  refine List.filter_congr fun p _ => ?_
  simp only [ne_eq, decide_not, bne, Function.comp_apply, beq_eq_decide]

/-- **One use of a bounded recency list.** -/
theorem keys_use_take {l : List (κ × β)} {h : List κ} {n : ℕ}
    (hl : l.map Prod.fst = (recent h).take n) (k : κ) (v : β) :
    ((use k v l).take n).map Prod.fst = (recent (h ++ [k])).take n := by
  have hnodup : (l.map Prod.fst).Nodup := by
    rw [hl]
    exact (nodup_recent h).sublist (List.take_sublist _ _)
  rw [List.map_take, use, List.map_cons, map_fst_filter k hnodup, hl, recent_concat]
  cases n with
  | zero => rfl
  | succ n => rw [List.take_succ_cons, List.take_succ_cons, take_erase_take]

theorem find_eq_some {k : κ} {v : β} {l : List (κ × β)} (hl : (l.map Prod.fst).Nodup) :
    find k l = some v ↔ (k, v) ∈ l := by
  induction l with
  | nil => simp [find]
  | cons p l ih =>
    rw [List.map_cons, List.nodup_cons] at hl
    by_cases hp : p.1 = k
    · have hnot : (k, v) ∉ l := fun hmem =>
        hl.1 (List.mem_map.mpr ⟨(k, v), hmem, hp.symm⟩)
      obtain ⟨j, w⟩ := p
      obtain rfl : j = k := hp
      simp [find, hnot, eq_comm]
    · rw [find, List.find?_cons_of_neg (by simpa using hp), ← find, ih hl.2, List.mem_cons]
      exact ⟨.inr, fun hmem => hmem.resolve_left fun heq => hp (heq ▸ rfl)⟩

theorem find_eq_none {k : κ} {l : List (κ × β)} : find k l = none ↔ k ∉ l.map Prod.fst := by
  rw [find, Option.map_eq_none_iff, List.find?_eq_none, List.mem_map]
  constructor
  · intro hall hmem
    obtain ⟨p, hp, hk⟩ := hmem
    exact hall p hp (by simpa using hk)
  · intro hnot p hp hk
    exact hnot ⟨p, hp, by simpa using hk⟩

/-- A use of a key that is there keeps the length. -/
theorem length_use_of_mem {k : κ} {v : β} {l : List (κ × β)} (hl : (l.map Prod.fst).Nodup)
    (hk : k ∈ l.map Prod.fst) : (use k v l).length = l.length := by
  have := congrArg List.length (map_fst_filter k hl)
  rw [List.length_map, List.length_erase_of_mem hk, List.length_map] at this
  have hpos : 0 < l.length := by
    have := List.length_pos_of_mem hk
    rwa [List.length_map] at this
  rw [use, List.length_cons]
  omega

end CcSnippets.Core.Recency

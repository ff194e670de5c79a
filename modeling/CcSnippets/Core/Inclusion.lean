import CcSnippets.Core.Recency

/-!
# CcSnippets.Core.Inclusion

The **inclusion property** of bounded most-recently-used lists.

Two lists with room for `m` and for `n` entries, `m ≤ n`, see the same uses. A
look-up that hits only in the larger one reorders only that one, so the smaller
list is not a prefix of the larger; what survives is that it is a sublist of it,
and that the two are equal for as long as the smaller one has never been full.
-/

namespace CcSnippets.Core.Recency

variable {κ β : Type*}

/-- The list `xs`, with room for `m` entries, is included in `ys`. -/
structure Included (m : ℕ) (xs ys : List (κ × β)) : Prop where
  nodup : (ys.map Prod.fst).Nodup
  sublist : xs.Sublist ys
  bounded : xs.length ≤ m
  /-- Until the smaller list is full nothing has been evicted from either. -/
  same : xs.length < m → xs = ys

/-- Cutting both lists to one entry less keeps the inclusion. -/
theorem Included.take {m n : ℕ} {xs ys : List (κ × β)} (h : Included (m + 1) xs ys) (hmn : m ≤ n)
    (hn : ys.length ≤ n + 1) : (xs.take m).Sublist (ys.take n) := by
  by_cases hroom : ys.length ≤ n
  · rw [List.take_of_length_le hroom]
    exact (List.take_sublist m xs).trans h.sublist
  · have hfull : xs.length = m + 1 := by
      refine Nat.le_antisymm h.bounded ?_
      by_contra hlt
      have hlen := congrArg List.length (h.same (Nat.lt_of_not_le hlt))
      have := h.bounded
      omega
    have hlarge : ys.length = n + 1 := Nat.le_antisymm hn (Nat.lt_of_not_le hroom)
    -- both are full, and both lose their last entry
    have hxs : xs.take m = xs.dropLast := by rw [List.dropLast_eq_take, hfull, Nat.add_sub_cancel]
    have hys : ys.take n = ys.dropLast := by rw [List.dropLast_eq_take, hlarge, Nat.add_sub_cancel]
    rw [hxs, hys, ← List.reverse_sublist, ← List.tail_reverse, ← List.tail_reverse]
    exact (List.reverse_sublist.mpr h.sublist).tail

theorem Included.nodup_small {m : ℕ} {xs ys : List (κ × β)} (h : Included m xs ys) :
    (xs.map Prod.fst).Nodup :=
  h.nodup.sublist (h.sublist.map _)

variable [DecidableEq κ]

theorem filter_of_find_eq_none {k : κ} {l : List (κ × β)} (h : find k l = none) :
    l.filter (fun p => p.1 ≠ k) = l := by
  refine List.filter_eq_self.mpr fun p hp => ?_
  have hnot := find_eq_none.mp h
  simpa using fun heq => hnot (List.mem_map.mpr ⟨p, hp, heq⟩)

/-- Where the key is found, one entry goes when it is taken out. -/
theorem length_filter_of_find_eq_some {k : κ} {v : β} {l : List (κ × β)}
    (hl : (l.map Prod.fst).Nodup) (h : find k l = some v) :
    (l.filter fun p => p.1 ≠ k).length + 1 = l.length := by
  have hmem := (find_eq_some hl).mp h
  have := length_use_of_mem (v := v) hl (List.mem_map.mpr ⟨_, hmem, rfl⟩)
  simpa only [use, List.length_cons] using this

theorem nodup_use {k : κ} {v : β} {l : List (κ × β)} (hl : (l.map Prod.fst).Nodup) :
    ((use k v l).map Prod.fst).Nodup := by
  rw [use, List.map_cons, map_fst_filter k hl]
  exact List.nodup_cons.mpr ⟨fun hmem => (hl.mem_erase_iff.mp hmem).1 rfl, hl.erase k⟩

namespace Included

variable {m n : ℕ} {xs ys : List (κ × β)}

/-- **A hit in the smaller list is a hit in the larger one**, with the same
value. -/
theorem find_eq_some (h : Included m xs ys) {k : κ} {v : β} (hfind : find k xs = some v) :
    find k ys = some v :=
  (Recency.find_eq_some h.nodup).mpr
    (h.sublist.subset ((Recency.find_eq_some h.nodup_small).mp hfind))

theorem filter (h : Included m xs ys) (k : κ) :
    (xs.filter fun p => p.1 ≠ k).Sublist (ys.filter fun p => p.1 ≠ k) :=
  h.sublist.filter _

/-- **A look-up keeps the inclusion**, whichever of the lists it hits in. -/
theorem get (h : Included m xs ys) (k : κ) :
    Included m (Recency.get k xs) (Recency.get k ys) := by
  cases hx : find k xs with
  | none =>
    cases hy : find k ys with
    | none => simpa only [Recency.get, hx, hy] using h
    | some v =>
      -- only the larger list is reordered
      simp only [Recency.get, hx, hy]
      refine ⟨nodup_use h.nodup, ?_, h.bounded, fun hlt => ?_⟩
      · rw [← filter_of_find_eq_none hx]
        exact (h.filter k).cons _
      · rw [h.same hlt, hy] at hx
        cases hx
  | some v =>
    have hlen := length_filter_of_find_eq_some h.nodup_small hx
    simp only [Recency.get, hx, h.find_eq_some hx]
    refine ⟨nodup_use h.nodup, (h.filter k).cons_cons _, ?_, fun hlt => ?_⟩
    · rw [use, List.length_cons, hlen]
      exact h.bounded
    · rw [use, List.length_cons, hlen] at hlt
      rw [h.same hlt]

/-- What is left of both lists when a new entry comes in front. -/
theorem take_filter (h : Included (m + 1) xs ys) (hmn : m ≤ n) (hn : ys.length ≤ n + 1) (k : κ) :
    ((xs.filter fun p => p.1 ≠ k).take m).Sublist ((ys.filter fun p => p.1 ≠ k).take n) := by
  cases hy : find k ys with
  | none =>
    have hx : find k xs = none := by
      by_contra hsome
      obtain ⟨v, hv⟩ := Option.ne_none_iff_exists'.mp hsome
      rw [h.find_eq_some hv] at hy
      cases hy
    rw [filter_of_find_eq_none hx, filter_of_find_eq_none hy]
    exact h.take hmn hn
  | some v =>
    have hlen := length_filter_of_find_eq_some h.nodup hy
    rw [List.take_of_length_le (i := n) (by omega)]
    exact (List.take_sublist m _).trans (h.filter k)

/-- **A store keeps the inclusion**, whichever of the lists it evicts from. -/
theorem put (h : Included m xs ys) (hpos : 0 < m) (hmn : m ≤ n) (hn : ys.length ≤ n) (k : κ)
    (v : β) : Included m (Recency.put m k v xs) (Recency.put n k v ys) := by
  obtain ⟨m, rfl⟩ := Nat.exists_eq_add_one_of_ne_zero hpos.ne'
  obtain ⟨n, rfl⟩ := Nat.exists_eq_add_one_of_ne_zero (hpos.trans_le hmn).ne'
  have hle : m ≤ n := Nat.le_of_succ_le_succ hmn
  refine ⟨(nodup_use h.nodup).sublist ((List.take_sublist _ _).map _), ?_,
    List.length_take_le _ _, fun hlt => ?_⟩
  · rw [Recency.put, Recency.put, use, use, List.take_succ_cons, List.take_succ_cons]
    exact (h.take_filter hle hn k).cons_cons _
  · -- the smaller list was not full, so the two were equal, and neither is cut
    have hroom : (use k v xs).length < m + 1 := by
      rw [Recency.put, List.length_take] at hlt
      omega
    have hfilter : xs.length ≤ (use k v xs).length := by
      cases hx : find k xs with
      | none => rw [use, List.length_cons, filter_of_find_eq_none hx]; exact Nat.le_succ _
      | some w => rw [use, List.length_cons, length_filter_of_find_eq_some h.nodup_small hx]
    obtain rfl := h.same (hfilter.trans_lt hroom)
    rw [Recency.put, Recency.put, List.take_of_length_le hroom.le,
      List.take_of_length_le (hroom.le.trans (Nat.succ_le_succ hle))]

end Included

end CcSnippets.Core.Recency

import Mathlib.Algebra.BigOperators.Group.List.Basic
import Mathlib.Tactic.Ring
import CcSnippets.Core.Recency

/-!
# CcSnippets.Core.Paging

How often a bounded recency list misses, **against any other way to serve the same
requests**.

A service has room for some pages and loads a page where it is requested and not there;
what it drops, and when, is up to it, and it may know the requests to come (`Service`).
The recency list holds the pages requested last (`faults` counts its misses).

The comparison is by a potential (`potential`): each page of the recency list that the
service lacks weighs the more the later the list would drop it. A miss of the list alone
lowers the potential, and only a miss of the service raises it.
-/

namespace CcSnippets.Core.Recency

variable {κ : Type*} [DecidableEq κ]

/-! ### Serving requests -/

/-- With room for `h` pages, of which `C` are held, the page `p` is requested. -/
structure Serves (h : ℕ) (C : Finset κ) (p : κ) (C' : Finset κ) : Prop where
  holds : p ∈ C'
  room : C'.card ≤ h
  /-- No page is loaded but `p`. -/
  demand : C' ⊆ insert p C

/-- A way to serve the requests, what is held after them, and how many pages were loaded. -/
inductive Service (h : ℕ) : List κ → Finset κ → ℕ → Prop
  | nil : Service h [] ∅ 0
  | hit {σ : List κ} {C C' : Finset κ} {n : ℕ} {p : κ} :
      Service h σ C n → p ∈ C → Serves h C p C' → Service h (σ ++ [p]) C' n
  | load {σ : List κ} {C C' : Finset κ} {n : ℕ} {p : κ} :
      Service h σ C n → p ∉ C → Serves h C p C' → Service h (σ ++ [p]) C' (n + 1)

/-- The misses of a recency list with room for `k` pages, behind the requests `past`. -/
def faultsFrom (k : ℕ) (past : List κ) : List κ → ℕ
  | [] => 0
  | p :: σ => (if p ∈ (recent past).take k then 0 else 1) + faultsFrom k (past ++ [p]) σ

/-- The misses of a recency list with room for `k` pages. -/
def faults (k : ℕ) (σ : List κ) : ℕ := faultsFrom k [] σ

theorem faultsFrom_concat (k : ℕ) (past σ : List κ) (p : κ) :
    faultsFrom k past (σ ++ [p]) =
      faultsFrom k past σ + if p ∈ (recent (past ++ σ)).take k then 0 else 1 := by
  induction σ generalizing past with
  | nil => simp [faultsFrom]
  | cons q σ ih =>
    simp only [List.cons_append, faultsFrom, ih, List.append_assoc, List.nil_append]
    omega

theorem faults_concat (k : ℕ) (σ : List κ) (p : κ) :
    faults k (σ ++ [p]) = faults k σ + if p ∈ (recent σ).take k then 0 else 1 := by
  rw [faults, faultsFrom_concat, List.nil_append, faults]

/-! ### The slots of the recency list -/

/-- The places of a recency list with room for `k` pages, the empty ones last. -/
def slots (k : ℕ) (σ : List κ) : List (Option κ) :=
  ((recent σ).map some ++ List.replicate k none).take k

@[simp] theorem length_slots (k : ℕ) (σ : List κ) : (slots k σ).length = k := by
  simp [slots]

theorem some_mem_slots {k : ℕ} {σ : List κ} {p : κ} :
    some p ∈ slots k σ ↔ p ∈ (recent σ).take k := by
  simp [slots, List.take_append, List.mem_replicate, ← List.map_take]

/-- No page is in two places. -/
theorem count_slots_le (k : ℕ) (σ : List κ) (p : κ) : (slots k σ).count (some p) ≤ 1 := by
  refine ((List.take_sublist _ _).count_le _).trans ?_
  rw [List.count_append, List.count_replicate, if_neg (by simp), Nat.add_zero,
    List.count_map_of_injective _ _ (Option.some_injective κ)]
  exact List.nodup_iff_count_le_one.mp (nodup_recent σ) p

/-- A request moves a page to the front, or brings it there and drops the last one. -/
theorem slots_concat (k : ℕ) (σ : List κ) (p : κ) :
    slots (k + 1) (σ ++ [p]) =
      some p :: if some p ∈ slots (k + 1) σ then (slots (k + 1) σ).erase (some p)
        else (slots (k + 1) σ).dropLast := by
  have hall : (recent (σ ++ [p])).map some ++ List.replicate (k + 1) none =
      some p :: ((recent σ).map some ++ List.replicate (k + 1) none).erase (some p) := by
    rw [recent_concat, List.map_cons, List.cons_append,
      List.map_erase (Option.some_injective κ)]
    congr 1
    by_cases hp : some p ∈ (recent σ).map some
    · rw [List.erase_append_left _ hp]
    · rw [List.erase_append_right _ hp, List.erase_of_not_mem hp,
        List.erase_of_not_mem (by simp [List.mem_replicate])]
  have hslots : slots (k + 1) (σ ++ [p]) =
      some p :: ((slots (k + 1) σ).erase (some p)).take k := by
    rw [slots, hall, List.take_succ_cons, slots, take_erase_take]
  rw [hslots]
  congr 1
  split
  · rename_i hp
    rw [List.take_of_length_le]
    rw [List.length_erase_of_mem hp, length_slots]
    exact le_rfl
  · rename_i hp
    rw [List.erase_of_not_mem hp, List.dropLast_eq_take, length_slots, Nat.add_sub_cancel]

/-! ### The potential -/

/-- The slot holds no page that is in `D`. -/
def lacks (D : Finset κ) : Option κ → ℕ
  | none => 1
  | some p => if p ∈ D then 0 else 1

/-- What `D` lacks, each by the number of slots from it to the last. -/
def potential (D : Finset κ) : List (Option κ) → ℕ
  | [] => 0
  | x :: l => lacks D x * (l.length + 1) + potential D l

theorem lacks_le_one (D : Finset κ) (x : Option κ) : lacks D x ≤ 1 := by
  cases x with
  | none => exact le_rfl
  | some p =>
    simp only [lacks]
    split <;> omega

/-- Without the last slot everything weighs one less. -/
theorem potential_dropLast (D : Finset κ) (l : List (Option κ)) :
    potential D l.dropLast + (l.map (lacks D)).sum = potential D l := by
  induction l with
  | nil => rfl
  | cons x l ih =>
    cases l with
    | nil => simp [potential]
    | cons y l =>
      have hlen : (y :: l).dropLast.length + 1 = (y :: l).length := by simp
      rw [List.dropLast_cons_of_ne_nil (List.cons_ne_nil y l), potential, potential,
        List.map_cons, List.sum_cons, ← ih, hlen]
      ring

theorem potential_erase_le (D : Finset κ) (x : Option κ) (l : List (Option κ)) :
    potential D (l.erase x) ≤ potential D l := by
  induction l with
  | nil => exact le_rfl
  | cons y l ih =>
    by_cases hy : y = x
    · subst hy
      rw [List.erase_cons_head, potential]
      exact Nat.le_add_left _ _
    · rw [List.erase_cons_tail (by simpa using hy), potential, potential]
      have hlen : (l.erase x).length ≤ l.length := List.length_erase_le
      exact Nat.add_le_add (Nat.mul_le_mul_left _ (by omega)) ih

/-- To drop a page from `D` costs at most the weight of the first slot. -/
theorem potential_evict_le (D : Finset κ) (p y : κ) {l : List (Option κ)}
    (hl : l.count (some y) ≤ 1) :
    potential (insert p (D.erase y)) l ≤
      potential D l + if some y ∈ l then l.length else 0 := by
  have hkeep : ∀ x, x ≠ some y → lacks (insert p (D.erase y)) x ≤ lacks D x := by
    intro x hx
    cases x with
    | none => exact le_rfl
    | some q =>
      have hq : q ≠ y := fun h => hx (congrArg some h)
      simp only [lacks]
      split
      · exact Nat.zero_le _
      · rename_i hnot
        rw [if_neg fun hmem => hnot (Finset.mem_insert_of_mem (Finset.mem_erase.mpr ⟨hq, hmem⟩))]
  induction l with
  | nil => simp [potential]
  | cons x l ih =>
    by_cases hx : x = some y
    · subst hx
      rw [List.count_cons_self] at hl
      have hnot : some y ∉ l := List.count_eq_zero.mp (by omega)
      have htail := ih (by omega)
      rw [if_neg hnot] at htail
      rw [potential, potential, if_pos List.mem_cons_self, List.length_cons]
      have hle := lacks_le_one (insert p (D.erase y)) (some y)
      have hmul := Nat.mul_le_mul_right (l.length + 1) hle
      omega
    · rw [List.count_cons_of_ne hx] at hl
      have htail := ih hl
      have hmul := Nat.mul_le_mul_right (l.length + 1) (hkeep x hx)
      have hmem : some y ∈ x :: l ↔ some y ∈ l := by
        rw [List.mem_cons]
        exact or_iff_right (Ne.symm hx)
      rw [potential, potential, List.length_cons]
      simp only [hmem]
      split
      · rename_i hy
        rw [if_pos hy] at htail
        omega
      · rename_i hy
        rw [if_neg hy] at htail
        omega

/-- The slots are lacking but for as many as there are pages in `D`. -/
theorem length_le_lacks {l : List (Option κ)} (hl : ∀ p, l.count (some p) ≤ 1) (D : Finset κ) :
    l.length ≤ (l.map (lacks D)).sum + D.card := by
  induction l generalizing D with
  | nil => exact Nat.zero_le _
  | cons x l ih =>
    have htail : ∀ p, l.count (some p) ≤ 1 := fun p =>
      (List.count_le_count_cons).trans (hl p)
    rw [List.length_cons, List.map_cons, List.sum_cons]
    cases x with
    | none =>
      have := ih htail D
      simp only [lacks]
      omega
    | some q =>
      by_cases hq : q ∈ D
      · have hnot : some q ∉ l := by
          have := hl q
          rw [List.count_cons_self] at this
          exact List.count_eq_zero.mp (by omega)
        have hsame : l.map (lacks (D.erase q)) = l.map (lacks D) := by
          refine List.map_congr_left fun x hx => ?_
          cases x with
          | none => rfl
          | some r =>
            have hr : r ≠ q := by
              rintro rfl
              exact hnot hx
            simp [lacks, Finset.mem_erase, hr]
        have hrest := ih htail (D.erase q)
        rw [hsame] at hrest
        have hcard := Finset.card_erase_add_one hq
        simp only [lacks, if_pos hq]
        omega
      · have := ih htail D
        simp only [lacks, if_neg hq]
        omega

/-! ### The comparison -/

/-- A set of pages that covers what a service holds can be kept up by dropping one page
for each that is loaded. -/
theorem Serves.cover {h : ℕ} {C C' D : Finset κ} {p : κ} (hs : Serves h C p C') (hC : C ⊆ D)
    (hD : D.card ≤ h) (hp : p ∉ D) :
    ∃ y, C' ⊆ insert p (D.erase y) ∧ (insert p (D.erase y)).card ≤ h := by
  have hC' : C' ⊆ insert p D := hs.demand.trans (Finset.insert_subset_insert p hC)
  rcases hD.lt_or_eq with hroom | hfull
  · refine ⟨p, ?_, ?_⟩
    · rwa [Finset.erase_eq_of_notMem hp]
    · rw [Finset.erase_eq_of_notMem hp, Finset.card_insert_of_notMem hp]
      exact hroom
  · -- not all of `D` is still held, with `p` beside it
    obtain ⟨y, hy, hy'⟩ : ∃ y ∈ D, y ∉ C' := by
      by_contra hall
      push Not at hall
      have hle := Finset.card_le_card (Finset.insert_subset hs.holds hall)
      rw [Finset.card_insert_of_notMem hp] at hle
      have := hs.room
      omega
    refine ⟨y, fun q hq => ?_, ?_⟩
    · rcases Finset.mem_insert.mp (hC' hq) with rfl | hqD
      · exact Finset.mem_insert_self _ _
      · have hqy : q ≠ y := fun heq => hy' (heq ▸ hq)
        exact Finset.mem_insert_of_mem (Finset.mem_erase.mpr ⟨hqy, hqD⟩)
    · have hcard := Finset.card_erase_add_one hy
      refine (Finset.card_insert_le _ _).trans ?_
      omega

/-- The recency list serves a request of a page in `D`. -/
theorem potential_slots_concat {k h : ℕ} {D : Finset κ} {p : κ} (σ : List κ) (hp : p ∈ D)
    (hD : D.card ≤ h) :
    (k + 2 - h) * (if p ∈ (recent σ).take (k + 1) then 0 else 1) +
        potential D (slots (k + 1) (σ ++ [p])) ≤ potential D (slots (k + 1) σ) := by
  have hfront : ∀ l, potential D (some p :: l) = potential D l := by
    intro l
    simp [potential, lacks, hp]
  rw [slots_concat, hfront]
  by_cases hhit : p ∈ (recent σ).take (k + 1)
  · rw [if_pos hhit, if_pos (some_mem_slots.mpr hhit), Nat.mul_zero, Nat.zero_add]
    exact potential_erase_le D (some p) _
  · rw [if_neg hhit, if_neg (mt some_mem_slots.mp hhit), Nat.mul_one,
      ← potential_dropLast D (slots (k + 1) σ)]
    -- of the slots, `p` is in none and at most `h - 1` are in `D`
    have hlacks := length_le_lacks (count_slots_le (k + 1) σ) (D.erase p)
    have hsame : (slots (k + 1) σ).map (lacks (D.erase p)) =
        (slots (k + 1) σ).map (lacks D) := by
      refine List.map_congr_left fun x hx => ?_
      cases x with
      | none => rfl
      | some q =>
        have hq : q ≠ p := by
          rintro rfl
          exact hhit (some_mem_slots.mp hx)
        simp [lacks, Finset.mem_erase, hq]
    rw [hsame, length_slots] at hlacks
    have hcard := Finset.card_erase_add_one hp
    omega

theorem potential_empty (D : Finset κ) (k : ℕ) :
    2 * potential D (List.replicate k none) = k * (k + 1) := by
  induction k with
  | zero => rfl
  | succ k ih =>
    rw [List.replicate_succ, potential, List.length_replicate, Nat.mul_add, ih, lacks]
    ring

/-- **A recency list with room for `k` pages misses at most `k / (k + 1 - h)` times as
often as a service with room for `h` pages loads one**, but for a constant. -/
theorem faults_le_of_service {k h n : ℕ} {σ : List κ} {C : Finset κ} (hs : Service h σ C n)
    (hh : 0 < h) (hk : h ≤ k) :
    2 * ((k + 1 - h) * faults k σ) ≤ 2 * (k * n) + k * (k + 1) := by
  obtain ⟨k, rfl⟩ := Nat.exists_eq_add_one_of_ne_zero (hh.trans_le hk).ne'
  suffices hcover : ∃ D, C ⊆ D ∧ D.card ≤ h ∧
      2 * ((k + 2 - h) * faults (k + 1) σ + potential D (slots (k + 1) σ)) ≤
        2 * ((k + 1) * n) + (k + 1) * (k + 2) by
    obtain ⟨D, -, -, hle⟩ := hcover
    show 2 * ((k + 2 - h) * faults (k + 1) σ) ≤ 2 * ((k + 1) * n) + (k + 1) * (k + 2)
    omega
  induction hs with
  | nil =>
    refine ⟨∅, Finset.Subset.refl _, Nat.zero_le _, ?_⟩
    have hslots : slots (k + 1) ([] : List κ) = List.replicate (k + 1) none := by
      simp [slots, recent]
    rw [hslots, Nat.mul_add, potential_empty]
    simp [faults, faultsFrom]
  | @hit σ C C' n p _ hp hserves ih =>
    obtain ⟨D, hC, hD, hle⟩ := ih
    have hC' : C' ⊆ D := hserves.demand.trans (Finset.insert_subset (hC hp) hC)
    refine ⟨D, hC', hD, ?_⟩
    have hstep := potential_slots_concat (k := k) σ (hC hp) hD
    rw [faults_concat, Nat.mul_add (k + 2 - h)]
    omega
  | @load σ C C' n p _ _ hserves ih =>
    obtain ⟨D, hC, hD, hle⟩ := ih
    by_cases hp : p ∈ D
    · have hC' : C' ⊆ D := hserves.demand.trans (Finset.insert_subset hp hC)
      refine ⟨D, hC', hD, ?_⟩
      have hstep := potential_slots_concat (k := k) σ hp hD
      rw [faults_concat, Nat.mul_add (k + 2 - h), Nat.mul_add (k + 1)]
      omega
    · obtain ⟨y, hC', hD'⟩ := hserves.cover hC hD hp
      refine ⟨insert p (D.erase y), hC', hD', ?_⟩
      have hstep := potential_slots_concat (k := k) σ (Finset.mem_insert_self p (D.erase y)) hD'
      have hevict := potential_evict_le D p y (count_slots_le (k + 1) σ y)
      rw [length_slots] at hevict
      have hweight : (if some y ∈ slots (k + 1) σ then k + 1 else 0) ≤ k + 1 := by
        split <;> omega
      rw [faults_concat, Nat.mul_add (k + 2 - h), Nat.mul_add (k + 1)]
      omega

end CcSnippets.Core.Recency

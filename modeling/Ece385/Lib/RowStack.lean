import Mathlib.Algebra.Order.BigOperators.Group.Finset
import Mathlib.Algebra.BigOperators.Fin
import Mathlib.Data.Fintype.BigOperators
import Mathlib.Tactic.Ring

/-!
# Stacks of rows

A stack of `m` rows of `n` cells over a type with a distinguished empty cell
`0`, row 0 on top. Removing a row closes the gap from above: the rows over it
move down by one and an empty row enters at the top. The counting lemmas say
what removing a full row and filling empty cells do to the number of occupied
cells; `TopEmpty` is the invariant that bounds how many removals can follow
each other.

Main results:

* `occupied_removeRow` — removing a full row takes exactly `n` cells away.
* `occupied_fill` — filling a set of empty cells adds exactly that many.
* `TopEmpty.removeRow` — each removal of a full row clears one more row at the
  top, so a full row lies below every cleared one (`TopEmpty.le_of_full`).
* `fullRows_removeRow`, `keptRows_removeRow`, `compact_removeRow` — removing a
  full row takes one full row away, keeps the others in their order and does not
  change the compaction, the stack with all full rows gone.
* `reachesRow_removeRow` — if the lowest full row is always the one removed,
  whether the topmost one comes down to a given row can be told in advance.
-/

open Finset

namespace RowStack

variable {α : Type*} [Zero α] {m n : ℕ}

/-! ## Removing a row -/

/-- Every cell of the row is occupied. -/
def Full (r : Fin n → α) : Prop := ∀ j, r j ≠ 0

instance [DecidableEq α] (r : Fin n → α) : Decidable (Full r) :=
  inferInstanceAs (Decidable (∀ j, r j ≠ 0))

/-- Take row `i` out, move the rows above it down and put an empty row on top. -/
def removeRow (b : Fin (m + 1) → Fin n → α) (i : Fin (m + 1)) : Fin (m + 1) → Fin n → α :=
  Fin.cons 0 (fun j => b (i.succAbove j))

@[simp] theorem removeRow_zero (b : Fin (m + 1) → Fin n → α) (i : Fin (m + 1)) :
    removeRow b i 0 = 0 := rfl

@[simp] theorem removeRow_succ (b : Fin (m + 1) → Fin n → α) (i : Fin (m + 1)) (j : Fin m) :
    removeRow b i j.succ = b (i.succAbove j) := rfl

/-- The rows below the one removed stay. -/
theorem removeRow_of_lt (b : Fin (m + 1) → Fin n → α) {i j : Fin (m + 1)} (h : i < j) :
    removeRow b i j = b j := by
  obtain ⟨q, rfl⟩ := Fin.exists_succ_eq_of_ne_zero (Fin.pos_iff_ne_zero.mp h.pos)
  have hLe : i ≤ q.castSucc := by
    rw [Fin.lt_def, Fin.val_succ] at h
    rw [Fin.le_def, Fin.val_castSucc]
    omega
  rw [removeRow_succ, Fin.succAbove_of_le_castSucc _ _ hLe]

/-- The rows above it come down by one. -/
theorem removeRow_of_le (b : Fin (m + 1) → Fin n → α) {i j k : Fin (m + 1)}
    (hNext : j.val = k.val + 1) (h : j ≤ i) : removeRow b i j = b k := by
  have hNe : j ≠ 0 := by
    rintro rfl
    simp at hNext
  obtain ⟨q, rfl⟩ := Fin.exists_succ_eq_of_ne_zero hNe
  have hSame : q.castSucc = k := Fin.ext (by simpa using hNext)
  have hLt : q.castSucc < i := by
    rw [Fin.le_def, Fin.val_succ] at h
    rw [Fin.lt_def, Fin.val_castSucc]
    omega
  rw [removeRow_succ, Fin.succAbove_of_castSucc_lt _ _ hLt, hSame]

/-! ## Counting occupied cells -/

section Counting

variable [DecidableEq α]

/-- The number of occupied cells. -/
def occupied (b : Fin m → Fin n → α) : ℕ := ∑ i, ∑ j, if b i j = 0 then 0 else 1

@[simp] theorem occupied_zero : occupied (0 : Fin m → Fin n → α) = 0 := by
  simp [occupied]

/-- Removing a full row of `n` cells takes exactly `n` cells away. -/
theorem occupied_removeRow {b : Fin (m + 1) → Fin n → α} {i : Fin (m + 1)} (h : Full (b i)) :
    occupied (removeRow b i) + n = occupied b := by
  have hRow : (∑ j, if b i j = 0 then 0 else 1) = n := by
    rw [sum_congr rfl fun j _ => if_neg (h j)]
    simp
  have hTop : (∑ j, if removeRow b i 0 j = 0 then 0 else 1) = 0 := by simp
  -- the sum over the new stack is the old one without row `i`
  rw [occupied, Fin.sum_univ_succ, hTop, Nat.zero_add, occupied,
    Fin.sum_univ_succAbove _ i, hRow, Nat.add_comm]
  rfl

/-- Filling the empty cells `s` adds exactly `s.card` cells. -/
theorem occupied_fill {b b' : Fin m → Fin n → α} {v : α} (hv : v ≠ 0)
    {s : Finset (Fin m × Fin n)} (hEmpty : ∀ p ∈ s, b p.1 p.2 = 0)
    (hFill : ∀ i j, b' i j = if (i, j) ∈ s then v else b i j) :
    occupied b' = occupied b + s.card := by
  have hCell : ∀ p : Fin m × Fin n, (if b' p.1 p.2 = 0 then 0 else 1) =
      (if b p.1 p.2 = 0 then 0 else 1) + if p ∈ s then 1 else 0 := by
    rintro ⟨i, j⟩
    rw [hFill i j]
    by_cases hp : (i, j) ∈ s
    · simp [hp, hv, hEmpty _ hp]
    · simp [hp]
  simp only [occupied, ← sum_product', univ_product_univ]
  rw [sum_congr rfl fun p _ => hCell p, sum_add_distrib]
  simp

/-- Writing to the cells `s` adds at most `s.card` cells. -/
theorem occupied_le_add_card {b b' : Fin m → Fin n → α} {s : Finset (Fin m × Fin n)}
    (hOff : ∀ i j, (i, j) ∉ s → b' i j = b i j) : occupied b' ≤ occupied b + s.card := by
  have hCell : ∀ p : Fin m × Fin n, (if b' p.1 p.2 = 0 then 0 else 1) ≤
      (if b p.1 p.2 = 0 then 0 else 1) + if p ∈ s then 1 else 0 := by
    rintro ⟨i, j⟩
    by_cases hp : (i, j) ∈ s
    · rw [if_pos hp]
      split_ifs <;> omega
    · rw [hOff i j hp, if_neg hp]
      exact le_rfl
  have hSum := sum_le_sum fun p (_ : p ∈ (univ : Finset (Fin m × Fin n))) => hCell p
  rw [sum_add_distrib, sum_boole, filter_mem_eq_inter, univ_inter] at hSum
  simpa only [occupied, ← sum_product', univ_product_univ, Nat.cast_id] using hSum

end Counting

/-- An empty row is not full. -/
theorem not_full_zero : ¬ Full (0 : Fin (n + 1) → α) := fun h => h 0 rfl

/-! ## Rows cleared from the top -/

/-- The `k` rows on top are empty. -/
def TopEmpty (k : ℕ) (b : Fin m → Fin n → α) : Prop := ∀ i : Fin m, i.val < k → b i = 0

theorem TopEmpty.mono {k l : ℕ} {b : Fin m → Fin n → α} (h : TopEmpty k b) (hl : l ≤ k) :
    TopEmpty l b :=
  fun i hi => h i (by omega)

/-- A full row is not among the empty ones. -/
theorem TopEmpty.le_of_full {k : ℕ} {b : Fin m → Fin (n + 1) → α} (h : TopEmpty k b)
    {i : Fin m} (hi : Full (b i)) : k ≤ i.val := by
  by_contra hlt
  have hRow := congrFun (h i (by omega)) 0
  exact hi 0 hRow

/-- Removing a row below the cleared part clears one more row. -/
theorem TopEmpty.removeRow {k : ℕ} {b : Fin (m + 1) → Fin n → α} (h : TopEmpty k b)
    {i : Fin (m + 1)} (hk : k ≤ i.val) : TopEmpty (k + 1) (removeRow b i) := by
  intro j hj
  cases j using Fin.cases with
  | zero => rfl
  | succ j =>
    have hjk : j.val < k := by simpa using hj
    rw [removeRow_succ, Fin.succAbove_of_castSucc_lt _ _ (Fin.lt_def.mpr (by simp; omega))]
    exact h _ (by simpa using hjk)

/-! ## Full rows and the rows kept -/

section Full

variable [DecidableEq α]

/-- The number of full rows. -/
def fullRows (b : Fin m → Fin n → α) : ℕ := (univ.filter fun i => Full (b i)).card

/-- The rows that are not full, from the top down. -/
def keptRows (b : Fin m → Fin n → α) : List (Fin n → α) :=
  (List.ofFn b).filter fun r => !decide (Full r)

/-- The stack with its full rows taken out and the kept rows at the bottom. -/
def compact (b : Fin m → Fin n → α) : Fin m → Fin n → α := fun i =>
  (List.replicate (m - (keptRows b).length) 0 ++ keptRows b).getD i 0

theorem fullRows_le (b : Fin m → Fin n → α) : fullRows b ≤ m :=
  (card_le_univ _).trans (by simp)

theorem fullRows_eq_zero_iff {b : Fin m → Fin n → α} : fullRows b = 0 ↔ ∀ i, ¬ Full (b i) := by
  simp [fullRows, filter_eq_empty_iff]

theorem length_keptRows_le (b : Fin m → Fin n → α) : (keptRows b).length ≤ m :=
  (List.length_filter_le _ _).trans (by simp)

theorem fullRows_removeRow {b : Fin (m + 1) → Fin (n + 1) → α} {i : Fin (m + 1)}
    (h : Full (b i)) : fullRows (removeRow b i) + 1 = fullRows b := by
  -- as for the cells: every row of the new stack but the top one is an old row
  simp only [fullRows, card_filter]
  rw [Fin.sum_univ_succ, Fin.sum_univ_succAbove _ i, if_pos h, removeRow_zero,
    if_neg not_full_zero, Nat.zero_add, Nat.add_comm]
  rfl

theorem ofFn_succAbove {β : Type*} (f : Fin (m + 1) → β) (i : Fin (m + 1)) :
    (List.ofFn fun j => f (i.succAbove j)) = (List.ofFn f).eraseIdx i := by
  have hLength : i.val < (List.ofFn f).length := by
    rw [List.length_ofFn]
    exact i.isLt
  refine List.ext_getElem (by rw [List.length_eraseIdx_of_lt hLength]; simp) fun l hl _ => ?_
  have hLt : l < m := by simpa using hl
  rw [List.getElem_eraseIdx]
  split_ifs with hli
  · rw [List.getElem_ofFn, List.getElem_ofFn,
      Fin.succAbove_of_castSucc_lt i ⟨l, hLt⟩ (Fin.lt_def.mpr hli)]
    rfl
  · rw [List.getElem_ofFn, List.getElem_ofFn,
      Fin.succAbove_of_le_castSucc i ⟨l, hLt⟩ (Fin.le_def.mpr (by simpa using hli))]
    rfl

/-- Removing a full row keeps every other row and their order. -/
theorem keptRows_removeRow {b : Fin (m + 1) → Fin (n + 1) → α} {i : Fin (m + 1)}
    (h : Full (b i)) : keptRows (removeRow b i) = 0 :: keptRows b := by
  have hLt : i.val < (List.ofFn b).length := by
    rw [List.length_ofFn]
    exact i.isLt
  have hRow : (List.ofFn b)[i.val] = b i := List.getElem_ofFn hLt
  have hSplit : List.ofFn b = (List.ofFn b).take i ++ b i :: (List.ofFn b).drop (i + 1) := by
    rw [← hRow, ← List.drop_eq_getElem_cons hLt, List.take_append_drop]
  have hRows : List.ofFn (removeRow b i) = 0 :: (List.ofFn b).eraseIdx i := by
    rw [List.ofFn_succ, ← ofFn_succAbove]
    rfl
  rw [keptRows, hRows, List.filter_cons_of_pos (by simpa using not_full_zero),
    List.eraseIdx_eq_take_drop_succ, List.filter_append, keptRows]
  -- the full row is filtered out on the right, and missing on the left
  conv_rhs => rw [hSplit, List.filter_append, List.filter_cons_of_neg (by simpa using h)]

theorem compact_removeRow {b : Fin (m + 1) → Fin (n + 1) → α} {i : Fin (m + 1)}
    (h : Full (b i)) : compact (removeRow b i) = compact b := by
  have hKept := keptRows_removeRow h
  have hLe := length_keptRows_le (removeRow b i)
  rw [hKept, List.length_cons] at hLe
  have hPad : m + 1 - (keptRows b).length = m + 1 - ((keptRows b).length + 1) + 1 := by omega
  funext j
  rw [compact, compact, hKept, List.length_cons, hPad, List.replicate_succ', List.append_assoc]
  rfl

theorem compact_eq_self {b : Fin m → Fin n → α} (h : ∀ i, ¬ Full (b i)) : compact b = b := by
  have hKept : keptRows b = List.ofFn b := by
    refine List.filter_eq_self.mpr fun r hr => ?_
    obtain ⟨i, rfl⟩ := (List.mem_ofFn' b r).mp hr
    simpa using h i
  funext i
  rw [compact, hKept]
  simp

theorem not_full_compact (b : Fin m → Fin (n + 1) → α) (i : Fin m) : ¬ Full (compact b i) := by
  have hRow : compact b i ∈ List.replicate (m - (keptRows b).length) 0 ++ keptRows b := by
    have hLe := length_keptRows_le b
    have hLt : i.val < (List.replicate (m - (keptRows b).length) 0 ++ keptRows b).length := by
      simp
      omega
    rw [compact, List.getD_eq_getElem?_getD, List.getElem?_eq_getElem hLt, Option.getD_some]
    exact List.getElem_mem hLt
  rcases List.mem_append.mp hRow with hPad | hKept
  · rw [List.eq_of_mem_replicate hPad]
    exact not_full_zero
  · simpa using (List.mem_filter.mp hKept).2

end Full

/-! ## Removing the lowest full row -/

section Lowest

/-- Row `i` is full and no row below it is. -/
structure LowestFull (b : Fin m → Fin n → α) (i : Fin m) : Prop where
  full : Full (b i)
  below : ∀ j, i < j → ¬ Full (b j)

instance [DecidableEq α] (b : Fin m → Fin n → α) (i : Fin m) : Decidable (LowestFull b i) :=
  decidable_of_iff (Full (b i) ∧ ∀ j, i < j → ¬ Full (b j))
    ⟨fun h => ⟨h.1, h.2⟩, fun h => ⟨h.full, h.below⟩⟩

/-- The other full rows have come down by one. -/
theorem LowestFull.full_removeRow_iff {b : Fin (m + 1) → Fin (n + 1) → α} {i : Fin (m + 1)}
    (h : LowestFull b i) {r : Fin (m + 1)} :
    Full (removeRow b i r) ↔ ∃ q, q < i ∧ r.val = q.val + 1 ∧ Full (b q) := by
  cases r using Fin.cases with
  | zero => exact iff_of_false not_full_zero (by simp)
  | succ j =>
    rw [removeRow_succ]
    by_cases hj : j.castSucc < i
    · rw [Fin.succAbove_of_castSucc_lt _ _ hj]
      constructor
      · exact fun hFull => ⟨j.castSucc, hj, by simp, hFull⟩
      · rintro ⟨q, -, hq, hFull⟩
        rwa [show j.castSucc = q from Fin.ext (by simpa using hq)]
    · -- a row below `i`, where nothing is full
      rw [Fin.succAbove_of_le_castSucc _ _ (not_lt.mp hj)]
      refine iff_of_false (h.below _ (Fin.lt_def.mpr ?_)) ?_
      · have hLe := Fin.le_def.mp (not_lt.mp hj)
        simp at hLe ⊢
        omega
      · rintro ⟨q, hq, hRow, -⟩
        exact hj (lt_of_eq_of_lt (Fin.ext (by simpa using hRow)) hq)

variable [DecidableEq α]

/-- The topmost full row, if there is one, comes down to row `k` or below when
the full rows under it go. -/
def ReachesRow (k : ℕ) (b : Fin m → Fin n → α) : Prop :=
  ∀ i, Full (b i) → (∀ j < i, ¬ Full (b j)) → k + 1 ≤ i + fullRows b

theorem reachesRow_removeRow {k : ℕ} {b : Fin (m + 1) → Fin (n + 1) → α} {i : Fin (m + 1)}
    (h : LowestFull b i) (hk : k ≤ i.val) : ReachesRow k (removeRow b i) ↔ ReachesRow k b := by
  have hCount := fullRows_removeRow h.full
  constructor
  · intro hReach r hFull hTop
    rcases lt_trichotomy r i with hri | rfl | hri
    · -- the topmost full row has come down by one
      have hLt : r.val + 1 < m + 1 := by
        have hBound := i.isLt
        have hVal := Fin.lt_def.mp hri
        omega
      have hNext := hReach ⟨r.val + 1, hLt⟩ (h.full_removeRow_iff.mpr ⟨r, hri, rfl, hFull⟩) (by
        intro j hj hFullJ
        obtain ⟨q, -, hq, hFullQ⟩ := h.full_removeRow_iff.mp hFullJ
        exact hTop q (by rw [Fin.lt_def] at hj ⊢; simp at hj; omega) hFullQ)
      dsimp only at hNext
      omega
    · omega
    · exact absurd hFull (h.below r hri)
  · intro hReach r hFull hTop
    -- the topmost full row was one higher before
    obtain ⟨q, hqi, hq, hFullQ⟩ := h.full_removeRow_iff.mp hFull
    have hNow := hReach q hFullQ (by
      intro j hj hFullJ
      have hLt : j.val + 1 < m + 1 := by
        have hBound := r.isLt
        have hVal := Fin.lt_def.mp hj
        omega
      refine hTop ⟨j.val + 1, hLt⟩ ?_ (h.full_removeRow_iff.mpr ⟨j, hj.trans hqi, rfl, hFullJ⟩)
      rw [Fin.lt_def] at hj ⊢
      dsimp only
      omega)
    omega

/-- With no full row from row `k` on, nothing comes down to row `k`. -/
theorem reachesRow_iff_of_none {k : ℕ} {b : Fin m → Fin n → α}
    (h : ∀ i : Fin m, k ≤ i.val → ¬ Full (b i)) : ReachesRow k b ↔ ∀ i, ¬ Full (b i) := by
  refine ⟨fun hReach i hFull => ?_, fun hNone i hFull => absurd hFull (hNone i)⟩
  obtain ⟨t, ht, hMin⟩ := (univ.filter fun i => Full (b i)).exists_minimal
    ⟨i, mem_filter.mpr ⟨mem_univ _, hFull⟩⟩
  have hFullT := (mem_filter.mp ht).2
  have hTop : ∀ j < t, ¬ Full (b j) := fun j hj hFullJ =>
    absurd (hMin (mem_filter.mpr ⟨mem_univ _, hFullJ⟩) hj.le) (not_le.mpr hj)
  have hReachT := hReach t hFullT hTop
  -- the full rows all lie from row `t` to row `k - 1`
  have hCard : fullRows b ≤ (Ico t.val k).card := by
    refine card_le_card_of_injOn Fin.val (fun j hj => ?_) Fin.val_injective.injOn
    have hFullJ := (mem_filter.mp hj).2
    rw [mem_coe, mem_Ico]
    exact ⟨Fin.le_def.mp (not_lt.mp fun hLt => hTop j hLt hFullJ),
      not_le.mp fun hLe => h j hLe hFullJ⟩
  rw [Nat.card_Ico] at hCard
  have hLt : t.val < k := not_le.mp fun hLe => h t hLe hFullT
  omega

end Lowest

end RowStack

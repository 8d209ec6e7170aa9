import Ece385.Tetris.LineClear

/-!
# Tetris — no row without its pieces

A lock writes four cells, and some of them may be occupied already, outside the well,
or undone by a line clear on the same clock; a removal takes eleven cells
whatever else happens. So the cells on the board and the rows removed are paid for by the
locks on every run, however close its frame edges are.

* `occupied_paint_le` — a paint adds at most four cells.
* `occupied_step_le` — one clock.

Main result:

* `rows_paid_by_locks` — eleven cells a row and the board, four cells a lock.
-/

open RowStack Clocked

namespace Ece385.Tetris

theorem length_paintTable (c : Choose) : ∀ t ∈ paintTable c, t.1.length = 4 := by
  have hBranch : ∀ (b : Bool) (t : List (ℤ × ℤ) × BitVec 4)
      (rest : Option (List (ℤ × ℤ) × BitVec 4)), t.1.length = 4 →
      (∀ u ∈ rest, u.1.length = 4) → ∀ u ∈ (if b then some t else rest), u.1.length = 4 := by
    intro b t rest ht hRest u hu
    cases b with
    | true => exact Option.some.inj hu ▸ ht
    | false => exact hRest u hu
  -- nineteen branches, one table each
  unfold paintTable
  iterate 19 refine hBranch _ _ _ rfl ?_
  exact fun u hu => absurd hu (by simp)

theorem length_paintedCells_le (c : Choose) (xPos yPos : BitVec 10) :
    (paintedCells c xPos yPos).length ≤ 4 := by
  unfold paintedCells
  cases hTable : paintTable c with
  | none => exact Nat.zero_le 4
  | some t => rw [List.length_map, length_paintTable c t hTable]

/-- The cells of the board that a paint writes. -/
def written (c : Choose) (xPos yPos : BitVec 10) : Finset (Fin 22 × Fin 11) :=
  Finset.univ.filter fun p => ∃ q ∈ paintedCells c xPos yPos, q.1.toNat = p.1 ∧ q.2.toNat = p.2

theorem card_written_le (c : Choose) (xPos yPos : BitVec 10) :
    (written c xPos yPos).card ≤ 4 := by
  refine le_trans ?_ (length_paintedCells_le c xPos yPos)
  refine le_trans (Finset.card_le_card_of_injOn
    (t := (paintedCells c xPos yPos).toFinset)
    (fun p => (BitVec.ofNat 32 p.1.val, BitVec.ofNat 32 p.2.val)) ?_ ?_) (List.toFinset_card_le _)
  · -- a written cell is one of the list, as indices
    intro p hp
    obtain ⟨q, hq, hRow, hCol⟩ := (Finset.mem_filter.mp hp).2
    have hSame : q = (BitVec.ofNat 32 p.1.val, BitVec.ofNat 32 p.2.val) := by
      rw [← hRow, ← hCol]
      exact Prod.ext (by simp) (by simp)
    rw [hSame] at hq
    exact List.mem_toFinset.mpr hq
  · -- indices below 22 and 11 are told apart in 32 bits
    intro p _ q _ hpq
    obtain ⟨hRow, hCol⟩ := Prod.mk.inj hpq
    have hp := p.1.isLt
    have hq := q.1.isLt
    have hp' := p.2.isLt
    have hq' := q.2.isLt
    refine Prod.ext (Fin.ext ?_) (Fin.ext ?_)
    · have hNat := congrArg BitVec.toNat hRow
      rw [BitVec.toNat_ofNat, BitVec.toNat_ofNat] at hNat
      omega
    · have hNat := congrArg BitVec.toNat hCol
      rw [BitVec.toNat_ofNat, BitVec.toNat_ofNat] at hNat
      omega

theorem occupied_paint_le (b : Board) (c : Choose) (xPos yPos : BitVec 10) :
    occupied (paint b c xPos yPos) ≤ occupied b + 4 := by
  have hOff : ∀ i j, (i, j) ∉ written c xPos yPos → paint b c xPos yPos i j = b i j := by
    intro i j hOff
    rw [paint_eq, if_neg]
    exact fun hIn => hOff (Finset.mem_filter.mpr ⟨Finset.mem_univ _, hIn⟩)
  have hWrite := occupied_le_add_card hOff
  have hFour := card_written_le c xPos yPos
  omega

/-- One clock without a reset: a removal takes eleven cells, and only a lock adds some. -/
theorem Game.occupied_step_le (s : Game) {i : Inputs} (hReset : i.reset = false) :
    occupied (s.step i).cells.board + (if s.removesRow = true then 11 else 0) ≤
      occupied s.cells.board + (if s.atBottom i = true then 4 else 0) := by
  -- a removal overwrites what a lock paints on the same clock
  by_cases hRemoves : s.removesRow = true
  · obtain ⟨r, hFull, hBoard⟩ := Game.exists_removed hRemoves
    have hTaken : occupied (s.step i).cells.board + 11 = occupied s.cells.board := by
      rw [hBoard]
      exact occupied_removeRow hFull
    rw [if_pos hRemoves]
    omega
  · have hNone := not_removesRow_iff.mp (by simpa using hRemoves)
    rw [if_neg hRemoves, Nat.add_zero]
    by_cases hLock : s.atBottom i = true
    · rw [if_pos hLock, Game.cells_step_lock hNone hReset hLock]
      exact occupied_paint_le _ _ _ _
    · rw [if_neg hLock, Nat.add_zero,
        Game.cells_step_same hNone hReset (by simpa using hLock)]

section Run

variable {s₀ : Game} {w : ℕ → Inputs}

/-- On every run from reset, for any frame clock: the cells on the board and eleven for
each row removed are at most four for each lock, and so is what the score says. -/
theorem rows_paid_by_locks (hReset : s₀.IsReset) (hLow : ∀ n, (w n).reset = false) (n : ℕ) :
    let removed := Nat.count (fun k => (s₀.run w k).removesRow = true) n
    occupied (s₀.run w n).cells.board + 11 * removed ≤ 4 * Nat.count (locks s₀ w) n ∧
      occupied (s₀.run w n).cells.board + 11 * (s₀.run w n).cells.score.toNat ≤
        4 * Nat.count (locks s₀ w) n := by
  intro removed
  have hPaid : occupied (s₀.run w n).cells.board + 11 * removed ≤
      4 * Nat.count (locks s₀ w) n := by
    induction n with
    | zero =>
      have hEmpty : (s₀.run w 0).cells.board = 0 := hReset.board
      simp only [removed, hEmpty, occupied_zero, Nat.count_zero]
      exact le_rfl
    | succ n ih =>
      have hClock := (s₀.run w n).occupied_step_le (hLow n)
      have hPay : (if (s₀.run w n).atBottom (w n) = true then 4 else 0) =
          4 * (if locks s₀ w n then 1 else 0) := by
        by_cases hLock : (s₀.run w n).atBottom (w n) = true
        · rw [if_pos hLock, if_pos (show locks s₀ w n from hLock)]
        · rw [if_neg hLock, if_neg (show ¬ locks s₀ w n from hLock)]
      have hNext : (s₀.run w (n + 1)).cells = ((s₀.run w n).step (w n)).cells := rfl
      simp only [removed] at ih ⊢
      rw [Nat.count_succ, Nat.count_succ, hNext]
      rw [hPay] at hClock
      by_cases hRemoves : (s₀.run w n).removesRow = true
      · rw [if_pos hRemoves] at hClock ⊢
        omega
      · rw [if_neg hRemoves] at hClock ⊢
        omega
  refine ⟨hPaid, ?_⟩
  -- the score has lost multiples of 65536 at most
  have hScore : (s₀.run w n).cells.score.toNat = removed % 65536 := by
    rw [score_eq_count hReset hLow]
    exact BitVec.toNat_ofNat _ _
  have hLe := Nat.mod_le removed 65536
  omega

/-- The first row removed shows that three pieces have locked at least. -/
theorem rows_paid_by_locks_third :
    let w := framed clearFrames
    let s := Game.initial.run w
    ∃ n, locks Game.initial w n ∧ (s (n + 1)).removesRow = true ∧
      occupied (s (n + 2)).cells.board +
          11 * Nat.count (fun k => (s k).removesRow = true) (n + 2) ≤
        4 * Nat.count (locks Game.initial w) (n + 2) ∧
      3 ≤ Nat.count (locks Game.initial w) (n + 2) := by
  intro w s
  obtain ⟨n, hLock, hRow⟩ := exists_completing_lock
  have hPaid := (rows_paid_by_locks (w := w) Game.isReset_initial (fun _ => rfl) (n + 2)).1
  have hOne : Nat.count (fun k => (Game.initial.run w k).removesRow = true) (n + 2) =
      Nat.count (fun k => (Game.initial.run w k).removesRow = true) (n + 1) + 1 :=
    count_succ_of _ hRow
  exact ⟨n, hLock, hRow, hPaid, by omega⟩

end Run

end Ece385.Tetris

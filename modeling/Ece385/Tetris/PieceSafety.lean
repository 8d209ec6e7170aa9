import Ece385.Tetris.Compaction

/-!
# Tetris — the active piece in the well

`Game.Safe` says of the active piece what every move is meant to keep: the
four cells `board` would paint for it are in the array and empty. It is stated
over the index pairs of the paint branch, so it reads off the code; for a shape
on the grid it is the statement that the figure fits (`cellsSafe_iff_fits`).

`Game.boardNext` is the board after a clock without a lock, which differs from
the board before when a row is removed or `Reset` is high. What it holds in a cell
is said on the board before: `Removes` is the row that goes, `ShiftFree` asks of
a cell what then comes down to it.

* `cellsSafe_iff_fits` — index pairs and figures.
* `forall_cellFree_boardNext_iff` — empty cells after a clock, on the board before.
* `safe_step_iff` — safety after a clock without a lock.
-/

open Figure RowStack Clocked

namespace Ece385.Tetris

/-! ## Four empty cells in the array -/

/-- The array cell at a pair of index expressions is in range and empty. -/
def CellEmpty (b : Board) (p : BitVec 32 × BitVec 32) : Prop :=
  ∃ h : p.1.toNat < 22 ∧ p.2.toNat < 11, b ⟨p.1.toNat, h.1⟩ ⟨p.2.toNat, h.2⟩ = 0

instance (b : Board) (p : BitVec 32 × BitVec 32) : Decidable (CellEmpty b p) :=
  inferInstanceAs (Decidable (∃ _, _))

/-- The paint branch would assign four cells, each in the array and empty. -/
def CellsSafe (b : Board) (c : Choose) (xPos yPos : BitVec 10) : Prop :=
  (paintedCells c xPos yPos).length = 4 ∧ ∀ p ∈ paintedCells c xPos yPos, CellEmpty b p

instance (b : Board) (c : Choose) (xPos yPos : BitVec 10) :
    Decidable (CellsSafe b c xPos yPos) :=
  -- checked along the list, never over all index pairs
  haveI := List.decidableBAll (CellEmpty b) (paintedCells c xPos yPos)
  inferInstanceAs (Decidable (_ ∧ _))

/-- The active piece is in the well and on empty cells. -/
def Game.Safe (s : Game) : Prop :=
  CellsSafe s.cells.board s.select.choose s.motion.blockXPos s.motion.blockYPos

instance (s : Game) : Decidable s.Safe := inferInstanceAs (Decidable (CellsSafe _ _ _ _))

/-- The array cell at a pair of index expressions is empty if it is in range. -/
def CellFree (b : Board) (p : BitVec 32 × BitVec 32) : Prop :=
  ∀ h : p.1.toNat < 22 ∧ p.2.toNat < 11, b ⟨p.1.toNat, h.1⟩ ⟨p.2.toNat, h.2⟩ = 0

/-- Those of the four cells that are in the array are empty. -/
def CellsFree (b : Board) (c : Choose) (xPos yPos : BitVec 10) : Prop :=
  ∀ p ∈ paintedCells c xPos yPos, CellFree b p

theorem not_cellsSafe_undrawn (b : Board) (xPos yPos : BitVec 10) :
    ¬ CellsSafe b {} xPos yPos :=
  fun h => absurd h.1 (by simp [paintedCells, paintTable])

/-- A safe piece is one of the seven kinds. -/
theorem Game.Safe.blockSel_ne_seven {s : Game} (h : s.Safe) : s.chooser.blockSel ≠ 7 := by
  intro hSel
  rw [Game.Safe, Game.select, hSel, chooseBlock_seven] at h
  exact not_cellsSafe_undrawn _ _ _ h

section Bridge

variable {xPos yPos : BitVec 10} {a : ℤ × ℤ} {k : Shape} {b : Board}

/-- The offsets of a figure point down and to the right. -/
theorem cells_bounds {d : ℤ × ℤ} (hd : d ∈ k.cells) :
    0 ≤ d.1 ∧ d.1 < k.height ∧ 0 ≤ d.2 ∧ d.2 < k.width :=
  mem_well.mp ((box_cells k).within d hd)

/-- The index expressions of a paint branch do not wrap. -/
theorem AtCell.offset_cells (h : AtCell xPos yPos a) {d : ℤ × ℤ} (hd : d ∈ k.cells) :
    ((offset (Tetris.gridRow yPos) d.1).toNat : ℤ) = a.1 + d.1 ∧
      ((offset (Tetris.gridCol xPos) d.2).toNat : ℤ) = a.2 + d.2 := by
  obtain ⟨h0, hH, h0', hW⟩ := cells_bounds hd
  have hHeight := height_le k
  have hWidth := width_le k
  have hRow := h.gridRow
  have hCol := h.gridCol
  have hX := h.x
  have hY := h.y
  have hLtX := xPos.isLt
  have hLtY := yPos.isLt
  rw [← hRow, ← hCol]
  exact ⟨toNat_offset (by omega) (by omega), toNat_offset (by omega) (by omega)⟩

theorem cellEmpty_iff (h : AtCell xPos yPos a) {d : ℤ × ℤ} (hd : d ∈ k.cells) :
    CellEmpty b (offset (gridRow yPos) d.1, offset (gridCol xPos) d.2) ↔
      a + d ∈ well 22 11 ∧ a + d ∉ filled b := by
  obtain ⟨hRow, hCol⟩ := h.offset_cells hd
  have hPair : a + d = (((offset (gridRow yPos) d.1).toNat : ℤ),
      ((offset (gridCol xPos) d.2).toNat : ℤ)) := by
    rw [hRow, hCol]; rfl
  rw [hPair, CellEmpty, mem_well]
  dsimp only
  -- both sides now speak of the same array cell
  constructor
  · rintro ⟨hRange, hEmpty⟩
    refine ⟨by omega, ?_⟩
    rw [mem_filled (i := ⟨_, hRange.1⟩) (j := ⟨_, hRange.2⟩), not_not]
    exact hEmpty
  · rintro ⟨hIn, hEmpty⟩
    have hRange : (offset (gridRow yPos) d.1).toNat < 22 ∧
        (offset (gridCol xPos) d.2).toNat < 11 := by omega
    refine ⟨hRange, ?_⟩
    rw [mem_filled (i := ⟨_, hRange.1⟩) (j := ⟨_, hRange.2⟩), not_not] at hEmpty
    exact hEmpty

/-- On the grid, "four cells, in the array and empty" is "the figure fits". -/
theorem cellsSafe_iff_fits (h : AtCell xPos yPos a) :
    CellsSafe b k.only xPos yPos ↔ Fits (well 22 11) (filled b) (place k.cells a) := by
  rw [CellsSafe, paintedCells_only, List.length_map, length_paintOffsets]
  simp only [List.forall_mem_map, true_and]
  have hCell : ∀ d ∈ k.paintOffsets,
      (CellEmpty b (offset (gridRow yPos) d.1, offset (gridCol xPos) d.2) ↔
        a + d ∈ well 22 11 ∧ a + d ∉ filled b) :=
    fun d hd => cellEmpty_iff (k := k) h (List.mem_toFinset.mpr hd)
  constructor
  · intro hSafe
    refine ⟨?_, ?_⟩
    -- the box, then the settled cells
    · exact forall_mem_place.mpr fun d hd =>
        ((hCell d (List.mem_toFinset.mp hd)).mp (hSafe d (List.mem_toFinset.mp hd))).1
    · exact forall_mem_place.mpr fun d hd =>
        ((hCell d (List.mem_toFinset.mp hd)).mp (hSafe d (List.mem_toFinset.mp hd))).2
  · intro hFits d hd
    have hMem := add_mem_place (a := a) (List.mem_toFinset.mpr hd : d ∈ k.cells)
    exact (hCell d hd).mpr ⟨hFits.inside _ hMem, hFits.free _ hMem⟩

theorem toNat_sub_one_add {y : BitVec 32} (h : y ≠ 0) : (y - 1).toNat + 1 = y.toNat := by
  have hPos : y.toNat ≠ 0 := fun hZero => h (BitVec.toNat_inj.mp hZero)
  have hLt := y.isLt
  rw [BitVec.toNat_sub, show (1 : BitVec 32).toNat = 1 from rfl]
  omega

theorem cellFree_iff (h : AtCell xPos yPos a) {d : ℤ × ℤ} (hd : d ∈ k.cells)
    (hIn : a + d ∈ well 22 11) :
    CellFree b (offset (gridRow yPos) d.1, offset (gridCol xPos) d.2) ↔ a + d ∉ filled b := by
  have hEmpty := cellEmpty_iff (b := b) h hd
  rw [and_iff_right hIn] at hEmpty
  rw [← hEmpty, CellEmpty]
  have hRange : (offset (gridRow yPos) d.1).toNat < 22 ∧
      (offset (gridCol xPos) d.2).toNat < 11 := by
    obtain ⟨hRow, hCol⟩ := h.offset_cells hd
    have hCell := mem_well.mp hIn
    simp only [Prod.fst_add, Prod.snd_add, Nat.cast_ofNat] at hCell
    omega
  exact ⟨fun hFree => ⟨hRange, hFree hRange⟩, fun ⟨_, hZero⟩ _ => hZero⟩

theorem cellsFree_iff_free (h : AtCell xPos yPos a) (hIn : Inside (well 22 11) (place k.cells a)) :
    CellsFree b k.only xPos yPos ↔ Free (filled b) (place k.cells a) := by
  rw [CellsFree, paintedCells_only, List.forall_mem_map, Free, forall_mem_place]
  have hMem : ∀ d, d ∈ k.cells ↔ d ∈ k.paintOffsets := fun d => List.mem_toFinset
  simp only [hMem]
  exact forall₂_congr fun d hd =>
    cellFree_iff h ((hMem d).mpr hd) (hIn _ (add_mem_place ((hMem d).mpr hd)))

end Bridge

/-! ## The active piece as a figure -/

/-- The shape shown, when one is drawn. -/
def Game.shape (s : Game) : Shape := shapeOf s.chooser.blockSel s.rotation

/-- A reachable state with a safe piece: the shape, its cell and its fit. -/
theorem Game.Safe.fits {s : Game} (hInv : GameInv s) (h : s.Safe) :
    ∃ a, AtCell s.motion.blockXPos s.motion.blockYPos a ∧ s.select = s.shape.select ∧
      Fits (well 22 11) (filled s.cells.board) (place s.shape.cells a) := by
  obtain ⟨a, hAt, -, -⟩ := hInv.grid.toOnGrid.atCell
  have hSel : s.select = s.shape.select := GameInv.select_of_ne_seven h.blockSel_ne_seven
  refine ⟨a, hAt, hSel, (cellsSafe_iff_fits hAt).mp ?_⟩
  rw [Game.Safe, hSel] at h
  exact h

/-! ## The board after a clock without a lock -/

namespace Game

variable {s : Game} {i : Inputs}

/-- The board after a clock on which nothing locks. -/
def boardNext (s : Game) (i : Inputs) : Board :=
  (lineClear s.cells.board).getD (if i.reset then 0 else s.cells.board)

theorem board_step (hLock : s.atBottom i = false) :
    (s.step i).cells.board = s.boardNext i := by
  simp only [step, BoardRegs.step, boardNext, BoardRegs.assign, hLock]
  -- a removal is assigned last and overrides a reset
  cases lineClear s.cells.board with
  | some b' => rfl
  | none => cases i.reset <;> rfl

theorem boardNext_of_kept (hReset : i.reset = false) (h : s.removesRow = false) :
    s.boardNext i = s.cells.board := by
  rw [boardNext, not_removesRow_iff.mp h, hReset]
  rfl

end Game

/-! ## The same on the board before -/

/-- The chain takes row `r` out of `b`: it is the lowest full row, and one of 6 to 21. -/
structure Removes (b : Board) (r : Fin 22) : Prop where
  tested : 6 ≤ r.val
  lowest : LowestFull b r

instance (b : Board) (r : Fin 22) : Decidable (Removes b r) :=
  decidable_of_iff (6 ≤ r.val ∧ LowestFull b r) ⟨fun h => ⟨h.1, h.2⟩, fun h => ⟨h.tested, h.lowest⟩⟩

theorem Removes.lineClear_eq {b : Board} {r : Fin 22} (h : Removes b r) :
    lineClear b = some (removeRow b r) := lineClear_of_lowest h.tested h.lowest

/-- No row is taken out if there is none to take out. -/
theorem lineClear_eq_none_of_removes {b : Board} (h : ∀ r, ¬ Removes b r) :
    lineClear b = none := by
  cases hClear : lineClear b with
  | none => rfl
  | some b' =>
    obtain ⟨r, hr, hLow, -⟩ := lineClear_eq_some_lowest hClear
    exact absurd ⟨hr, hLow⟩ (h r)

theorem removesRow_iff_removes {s : Game} :
    s.removesRow = true ↔ ∃ r, Removes s.cells.board r := by
  rw [removesRow_iff]
  constructor
  · rintro ⟨b', hb'⟩
    obtain ⟨r, hr, hLow, -⟩ := lineClear_eq_some_lowest hb'
    exact ⟨r, hr, hLow⟩
  · rintro ⟨r, hRow⟩
    exact ⟨_, hRow.lineClear_eq⟩

/-- With row `r` taken out the cell is empty: one below row `r` keeps its content, and to
any other the cell above it comes down. -/
structure ShiftFree (b : Board) (r : Fin 22) (p : BitVec 32 × BitVec 32) : Prop where
  below : r.val < p.1.toNat → CellFree b p
  above : p.1 ≠ 0 → p.1.toNat ≤ r.val → CellFree b (p.1 - 1, p.2)

instance (b : Board) (p : BitVec 32 × BitVec 32) : Decidable (CellFree b p) :=
  inferInstanceAs (Decidable (∀ _, _))

instance (b : Board) (r : Fin 22) (p : BitVec 32 × BitVec 32) : Decidable (ShiftFree b r p) :=
  decidable_of_iff ((r.val < p.1.toNat → CellFree b p) ∧
      (p.1 ≠ 0 → p.1.toNat ≤ r.val → CellFree b (p.1 - 1, p.2)))
    ⟨fun h => ⟨h.1, h.2⟩, fun h => ⟨h.below, h.above⟩⟩

theorem shiftFree_iff {b : Board} {r : Fin 22} {p : BitVec 32 × BitVec 32} :
    ShiftFree b r p ↔ CellFree (removeRow b r) p := by
  have hLt := r.isLt
  have hPred := fun hTop : p.1 ≠ 0 => toNat_sub_one_add hTop
  constructor
  · intro h hRange
    by_cases hBelow : r.val < p.1.toNat
    · rw [removeRow_of_lt b (Fin.lt_def.mpr hBelow)]
      exact h.below hBelow hRange
    by_cases hTop : p.1 = 0
    · have hNat : p.1.toNat = 0 := congrArg BitVec.toNat hTop
      have hZero : (⟨p.1.toNat, hRange.1⟩ : Fin 22) = 0 := Fin.ext hNat
      rw [hZero]
      rfl
    · -- what comes down to the cell is the one above it
      have hRow : (p.1 - 1).toNat < 22 := by have := hPred hTop; omega
      rw [removeRow_of_le b (k := ⟨(p.1 - 1).toNat, hRow⟩) (hPred hTop).symm
        (Fin.le_def.mpr (not_lt.mp hBelow))]
      exact h.above hTop (not_lt.mp hBelow) ⟨hRow, hRange.2⟩
  · intro h
    refine ⟨fun hBelow hRange => ?_, fun hTop hLe hRange => ?_⟩
    · have hCell := h hRange
      rwa [removeRow_of_lt b (Fin.lt_def.mpr hBelow)] at hCell
    · have hCell := h ⟨hLe.trans_lt hLt, hRange.2⟩
      rwa [removeRow_of_le b (k := ⟨(p.1 - 1).toNat, hRange.1⟩) (hPred hTop).symm
        (Fin.le_def.mpr hLe)] at hCell

namespace Game

variable {s : Game} {i : Inputs}

theorem boardNext_of_removes {r : Fin 22} (h : Removes s.cells.board r) :
    s.boardNext i = removeRow s.cells.board r := by
  rw [boardNext, h.lineClear_eq]
  rfl

theorem boardNext_of_none (h : ∀ r, ¬ Removes s.cells.board r) :
    s.boardNext i = if i.reset then 0 else s.cells.board := by
  rw [boardNext, lineClear_eq_none_of_removes h]
  rfl

/-- Which cells are empty after a clock without a lock: after a `Reset` that takes no row
out all of them, after a removal those that nothing comes down to, and else
those that were. -/
theorem forall_cellFree_boardNext_iff {P : BitVec 32 × BitVec 32 → Prop} :
    (∀ p, P p → CellFree (s.boardNext i) p) ↔
      (i.reset = false → (∀ r, ¬ Removes s.cells.board r) → ∀ p, P p → CellFree s.cells.board p) ∧
        ∀ r, Removes s.cells.board r → ∀ p, P p → ShiftFree s.cells.board r p := by
  by_cases hRow : ∃ r, Removes s.cells.board r
  · obtain ⟨r, hr⟩ := hRow
    constructor
    · refine fun h => ⟨fun _ hNone => absurd hr (hNone r), fun q hq p hp => ?_⟩
      rw [shiftFree_iff, ← boardNext_of_removes (i := i) hq]
      exact h p hp
    · rintro ⟨-, hShift⟩ p hp
      rw [boardNext_of_removes hr, ← shiftFree_iff]
      exact hShift r hr p hp
  · have hNone : ∀ r, ¬ Removes s.cells.board r := not_exists.mp hRow
    rw [boardNext_of_none hNone]
    constructor
    · refine fun h => ⟨fun hReset _ p hp => ?_, fun q hq => absurd hq (hNone q)⟩
      have hCell := h p hp
      rwa [hReset, if_neg Bool.false_ne_true] at hCell
    · rintro ⟨hKept, -⟩ p hp
      cases hReset : i.reset with
      | true => exact fun _ => rfl
      | false => exact hKept hReset hNone p hp

end Game

/-! ## The position after a clock without a lock -/

/-- The X position a frame edge goes to by the stored motion. -/
def colAfter (m : MotionRegs) (i : MotionInputs) : BitVec 10 :=
  if stepDue m i then m.blockXPos + m.blockXMotion else m.blockXPos

/-- The Y position a frame edge goes to. -/
def rowAfter (m : MotionRegs) (i : MotionInputs) : BitVec 10 :=
  if dropDue m i then m.blockYPos + m.blockYMotion else m.blockYPos

namespace Game

variable {s : Game} {i : Inputs}

/-- Where a clock on which nothing locks takes `X_Pos`: to the start under `Reset`, and on a
frame edge by the stored motion, if a step is due. -/
def xNext (s : Game) (i : Inputs) : BitVec 10 :=
  if i.reset then blockXStart
  else if s.motion.frameClkRisingEdge then colAfter s.motion (s.motionInputs i)
  else s.motion.blockXPos

/-- Where it takes `Y_Pos`. -/
def yNext (s : Game) (i : Inputs) : BitVec 10 :=
  if i.reset then blockYStart
  else if s.motion.frameClkRisingEdge then rowAfter s.motion (s.motionInputs i)
  else s.motion.blockYPos

theorem position_step (hLock : s.atBottom i = false) :
    (s.step i).motion.blockXPos = s.xNext i ∧ (s.step i).motion.blockYPos = s.yNext i := by
  rw [step, xNext, yNext]
  cases hReset : i.reset with
  | true =>
    rw [step_respawn (Or.inl hReset)]
    exact ⟨rfl, rfl⟩
  | false =>
    cases hEdge : s.motion.frameClkRisingEdge with
    | false =>
      rw [step_idle hReset hEdge]
      exact ⟨rfl, rfl⟩
    | true =>
      rw [step_latch hReset hLock]
      exact ⟨xPosIn_edge hEdge, yPosIn_edge hEdge⟩

/-- Safety after a clock without a lock, in terms of the state before but for
the shape shown. -/
theorem safe_step_iff (hLock : s.atBottom i = false) :
    (s.step i).Safe ↔
      CellsSafe (s.boardNext i) (s.step i).select.choose (s.xNext i) (s.yNext i) := by
  obtain ⟨hX, hY⟩ := position_step hLock
  rw [Safe, board_step hLock, hX, hY]

end Game

end Ece385.Tetris

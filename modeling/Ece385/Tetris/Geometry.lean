import Ece385.Lib.Figure
import Ece385.Tetris.Grid

/-!
# Tetris — the geometry written out five times

The nineteen pieces appear as paint offsets in `board`, as landing, LEFT and
RIGHT offsets in `block_motion`, and as pixel sizes in `choose_block`. Here
`Shape.cells` is read off the paint branches and everything else is compared
with it: each collision table is the cells newly covered by a shift, each size
is that of the bounding box, so every test in the source is the question
whether the shifted figure fits.

Main results:

* `landingTable_only`, `leftCells_toFinset`, `rightCells_toFinset`, `box_cells` —
  the tables and sizes, shape by shape.
* `hits_iff_blocked` — a table answers whether the shifted figure meets a
  settled cell, for every board.
* `tables_agree` — all checks of `block_motion` and both boundary tests of
  `rotate_block` in terms of the figure.
-/

open Figure

namespace Ece385.Tetris

/-! ## The figure of a shape -/

/-- The offsets the paint branch of `k` assigns, in source order. -/
def Shape.paintOffsets (k : Shape) : List (ℤ × ℤ) := ((paintTable k.only).map Prod.fst).getD []

/-- The colour the paint branch assigns. -/
def paintColour (c : Choose) : BitVec 4 := ((paintTable c).map Prod.snd).getD 0

/-- The colour of `k`. -/
def Shape.colour (k : Shape) : BitVec 4 := paintColour k.only

/-- The figure of `k`: its four cells `(row, column)` relative to the anchor. -/
def Shape.cells (k : Shape) : Finset (ℤ × ℤ) := k.paintOffsets.toFinset

theorem paintTable_only (k : Shape) : paintTable k.only = some (k.paintOffsets, k.colour) := by
  cases k <;> rfl

theorem colour_ne_zero (k : Shape) : k.colour ≠ 0 := by cases k <;> decide

theorem card_cells (k : Shape) : k.cells.card = 4 := by cases k <;> decide

theorem length_paintOffsets (k : Shape) : k.paintOffsets.length = 4 := by cases k <;> rfl

/-- `choose_block` gives each shape the size of its bounding box. -/
theorem box_cells (k : Shape) : Box k.height k.width k.cells := by cases k <;> decide

/-- The landing table is what one row down newly covers. -/
theorem landingTable_only (k : Shape) :
    (landingTable k.only).toFinset = place k.cells (1, 0) \ k.cells := by
  cases k <;> decide

/-- The LEFT table is what one column to the left newly covers. -/
theorem leftCells_toFinset (k : Shape) :
    k.leftCells.toFinset = place k.cells (0, -1) \ k.cells := by
  cases k <;> decide

/-- The RIGHT table is what one column to the right newly covers. -/
theorem rightCells_toFinset (k : Shape) :
    k.rightCells.toFinset = place k.cells (0, 1) \ k.cells := by
  cases k <;> decide

/-! ## Pixels and cells -/

/-- `(xPos, yPos)` is the corner of cell `a = (row, column)`. -/
structure AtCell (xPos yPos : BitVec 10) (a : ℤ × ℤ) : Prop where
  x : (xPos.toNat : ℤ) = 270 + 9 * a.2
  y : (yPos.toNat : ℤ) = 135 + 9 * a.1
  col : 0 ≤ a.2
  row : 0 ≤ a.1

theorem OnGrid.atCell {m : MotionRegs} (h : OnGrid m) :
    ∃ a : ℤ × ℤ, AtCell m.blockXPos m.blockYPos a ∧ a.1 ≤ 21 ∧ a.2 ≤ 10 := by
  obtain ⟨c, hc, hX⟩ := h.xPos
  obtain ⟨r, hr, hY⟩ := h.yPos
  exact ⟨((r : ℤ), (c : ℤ)), ⟨by simp [hX], by simp [hY], by simp, by simp⟩, by omega, by omega⟩

section Cells

variable {xPos yPos : BitVec 10} {a d : ℤ × ℤ}

theorem AtCell.gridRow (h : AtCell xPos yPos a) : ((gridRow yPos).toNat : ℤ) = a.1 := by
  have hY := h.y
  have hRow := h.row
  have hLt := yPos.isLt
  rw [Tetris.gridRow, BitVec.toNat_udiv, BitVec.toNat_sub, BitVec.toNat_setWidth]
  simp only [BitVec.toNat_ofNat, Nat.reducePow, Nat.reduceMod]
  omega

theorem AtCell.gridCol (h : AtCell xPos yPos a) : ((gridCol xPos).toNat : ℤ) = a.2 := by
  have hX := h.x
  have hCol := h.col
  have hLt := xPos.isLt
  rw [Tetris.gridCol, BitVec.toNat_udiv, BitVec.toNat_sub, BitVec.toNat_setWidth]
  simp only [BitVec.toNat_ofNat, Nat.reducePow, Nat.reduceMod]
  omega

/-- An index expression that does not wrap is exact, also below the base. -/
theorem toNat_offset {base : BitVec 32} {e : ℤ} (h0 : 0 ≤ base.toNat + e)
    (hLt : base.toNat + e < 2 ^ 32) : ((offset base e).toNat : ℤ) = base.toNat + e := by
  rw [offset, BitVec.toNat_add, BitVec.toNat_ofInt]
  omega

/-- The indices of the cell `a + d` of the well. -/
theorem AtCell.offset_toNat (h : AtCell xPos yPos a) (hIn : a + d ∈ well 22 11) :
    ((offset (Tetris.gridRow yPos) d.1).toNat : ℤ) = a.1 + d.1 ∧
      ((offset (Tetris.gridCol xPos) d.2).toNat : ℤ) = a.2 + d.2 := by
  obtain ⟨h0, h22, h0', h11⟩ := mem_well.mp hIn
  have hRow := h.gridRow
  have hCol := h.gridCol
  simp only [Prod.fst_add, Prod.snd_add, Nat.cast_ofNat] at h0 h22 h0' h11
  rw [← hRow, ← hCol]
  exact ⟨toNat_offset (by omega) (by omega), toNat_offset (by omega) (by omega)⟩

/-- Reading the cell `a + d` of the well finds it settled or empty. -/
theorem AtCell.read_ne_zero_iff (h : AtCell xPos yPos a) (hIn : a + d ∈ well 22 11)
    (undef : UndefinedRead) (b : Board) :
    read undef b (offset (Tetris.gridRow yPos) d.1) (offset (Tetris.gridCol xPos) d.2) ≠ 0 ↔
      a + d ∈ filled b := by
  obtain ⟨hRow, hCol⟩ := h.offset_toNat hIn
  obtain ⟨h0, h22, h0', h11⟩ := mem_well.mp hIn
  simp only [Prod.fst_add, Prod.snd_add, Nat.cast_ofNat] at h0 h22 h0' h11
  -- in range, so what an out-of-range read returns plays no part
  have hRange : (offset (Tetris.gridRow yPos) d.1).toNat < 22 ∧
      (offset (Tetris.gridCol xPos) d.2).toNat < 11 := by omega
  rw [read, dif_pos hRange, ← mem_filled, hRow, hCol]
  rfl

theorem filled_zero : filled (0 : Board) = ∅ := by
  ext p
  simp [filled]

/-- A collision test whose cells are in the well reads the settled cells. -/
theorem hits_iff {i : MotionInputs} (h : AtCell xPos yPos a) {cells : List (ℤ × ℤ)}
    (hIn : ∀ d ∈ cells, a + d ∈ well 22 11) :
    i.hits xPos yPos cells = true ↔ ∃ d ∈ cells, a + d ∈ filled i.board := by
  simp only [MotionInputs.hits, List.any_eq_true, bne_iff_ne]
  exact exists_congr fun d => and_congr_right fun hd => h.read_ne_zero_iff (hIn d hd) _ _

/-- A table of newly covered cells answers whether the moved figure is blocked. -/
theorem hits_iff_blocked {i : MotionInputs} (h : AtCell xPos yPos a) {k : Shape}
    {table : List (ℤ × ℤ)} {e : ℤ × ℤ} (hTable : table.toFinset = place k.cells e \ k.cells)
    (hFree : Free (filled i.board) (place k.cells a))
    (hIn : Inside (well 22 11) (place k.cells (a + e))) :
    i.hits xPos yPos table = true ↔ ∃ p ∈ place k.cells (a + e), p ∈ filled i.board := by
  have hMem : ∀ d, d ∈ table ↔ d ∈ place k.cells e \ k.cells := fun d => by
    rw [← hTable, List.mem_toFinset]
  -- the piece is free where it is, so only newly covered cells can be settled
  rw [← place_place] at hIn ⊢
  rw [hits_iff h fun d hd => hIn _ (add_mem_place (Finset.mem_sdiff.mp ((hMem d).mp hd)).1),
    ← not_free_iff, hFree.replace_iff]
  simp only [hMem, not_forall, not_not, exists_prop]

end Cells

/-! ## Painting -/

/-- Assigning one value to a list of cells. -/
theorem foldl_write (cells : List (BitVec 32 × BitVec 32)) (v : BitVec 4) (b : Board)
    (i : Fin 22) (j : Fin 11) :
    cells.foldl (fun b p => write b p.1 p.2 v) b i j =
      if ∃ p ∈ cells, p.1.toNat = i ∧ p.2.toNat = j then v else b i j := by
  induction cells generalizing b with
  | nil => simp
  | cons p cells ih =>
    rw [List.foldl_cons, ih]
    -- a later assignment to the same cell hides the head
    by_cases hTail : ∃ q ∈ cells, q.1.toNat = i ∧ q.2.toNat = j
    · rw [if_pos hTail, if_pos (by simpa using Or.inr (by simpa using hTail))]
    · rw [if_neg hTail, write]
      refine if_congr ?_ rfl rfl
      simp only [List.mem_cons, exists_eq_or_imp]
      exact (or_iff_left hTail).symm

theorem paintedCells_only (k : Shape) (xPos yPos : BitVec 10) :
    paintedCells k.only xPos yPos =
      k.paintOffsets.map fun d => (offset (gridRow yPos) d.1, offset (gridCol xPos) d.2) := by
  rw [paintedCells, paintTable_only]

/-- A lock writes its colour to the painted cells in range and nothing else. -/
theorem paint_eq (b : Board) (c : Choose) (xPos yPos : BitVec 10) (i : Fin 22) (j : Fin 11) :
    paint b c xPos yPos i j =
      if ∃ p ∈ paintedCells c xPos yPos, p.1.toNat = i ∧ p.2.toNat = j then paintColour c
      else b i j := by
  unfold paint paintedCells paintColour
  cases paintTable c with
  | none => simp
  | some e => exact foldl_write _ _ _ _ _

/-- A figure inside the well is painted cell by cell. -/
theorem paint_inside {xPos yPos : BitVec 10} {a : ℤ × ℤ} (h : AtCell xPos yPos a) (b : Board)
    (k : Shape) (hIn : Inside (well 22 11) (place k.cells a)) (i : Fin 22) (j : Fin 11) :
    paint b k.only xPos yPos i j =
      if ((i.val : ℤ), (j.val : ℤ)) ∈ place k.cells a then k.colour else b i j := by
  rw [paint_eq]
  refine if_congr ?_ rfl rfl
  rw [paintedCells_only, mem_place]
  simp only [List.mem_map, exists_exists_and_eq_and, Shape.cells, List.mem_toFinset]
  refine exists_congr fun d => and_congr_right fun hd => ?_
  have hCell := hIn (a + d) (add_mem_place (List.mem_toFinset.mpr hd))
  obtain ⟨hRow, hCol⟩ := h.offset_toNat hCell
  -- the pair of indices is the cell, coordinate by coordinate
  rw [Prod.ext_iff]
  simp only [Prod.fst_add, Prod.snd_add]
  omega

/-! ## The guards -/

section Guards

variable {m : MotionRegs} {i : MotionInputs} {k : Shape} {a : ℤ × ℤ}

/-- The figure fits in the rows below `a.1` and the columns right of `a.2`. -/
theorem inside_cells_iff (k : Shape) (a : ℤ × ℤ) :
    Inside (well 22 11) (place k.cells a) ↔
      0 ≤ a.1 ∧ a.1 + k.height ≤ 22 ∧ 0 ≤ a.2 ∧ a.2 + k.width ≤ 11 := by
  simpa using (box_cells k).inside_iff (m := 22) (n := 11) a

theorem AtCell.bounds (h : AtCell m.blockXPos m.blockYPos a)
    (hIn : Inside (well 22 11) (place k.cells a)) :
    m.blockXPos.toNat ≤ 360 ∧ m.blockYPos.toNat ≤ 324 := by
  have hX := h.x
  have hY := h.y
  have hHeight := height_pos k
  have hWidth := width_pos k
  rw [inside_cells_iff] at hIn
  omega

/-- `X_Pos > X_Min`: a column is left on the left. -/
theorem gt_xMin_iff_inside (h : AtCell m.blockXPos m.blockYPos a)
    (hIn : Inside (well 22 11) (place k.cells a)) :
    m.blockXPos > xMin ↔ Inside (well 22 11) (place k.cells (a + (0, -1))) := by
  have hX := h.x
  rw [inside_cells_iff] at hIn ⊢
  rw [gt_xMin_iff]
  simp only [Prod.fst_add, Prod.snd_add]
  omega

/-- `X_Pos + block_size_x < X_Max`: a column is left on the right. -/
theorem rightFree_iff_inside (hk : i.select = k.select) (h : AtCell m.blockXPos m.blockYPos a)
    (hIn : Inside (well 22 11) (place k.cells a)) :
    rightFree m i = true ↔ Inside (well 22 11) (place k.cells (a + (0, 1))) := by
  have hX := h.x
  rw [rightFree_iff_toNat hk (h.bounds hIn).1]
  rw [inside_cells_iff] at hIn ⊢
  simp only [Prod.fst_add, Prod.snd_add]
  omega

/-- `Y_Pos + block_size_y >= Y_Max`: no row is left below. -/
theorem atFloor_iff_not_inside (hk : i.select = k.select)
    (h : AtCell m.blockXPos m.blockYPos a) (hIn : Inside (well 22 11) (place k.cells a)) :
    atFloor m i = true ↔ ¬ Inside (well 22 11) (place k.cells (a + (1, 0))) := by
  have hY := h.y
  rw [atFloor_iff_toNat hk (h.bounds hIn).2]
  rw [inside_cells_iff] at hIn ⊢
  simp only [Prod.fst_add, Prod.snd_add]
  omega

/-- The test of `rotate_block` before a horizontal shape turns: as many rows
below the anchor as the shape has columns. -/
theorem beyondFloor_iff {j : RotateInputs} (hSize : j.blockSizeX = k.select.blockSizeX)
    (h : AtCell j.xPos j.yPos a) : j.beyondFloor = true ↔ 22 < a.1 + k.width := by
  have hY := h.y
  have hLt := j.yPos.isLt
  have hWidth := width_le k
  rw [RotateInputs.beyondFloor, decide_eq_true_eq, gt_iff_lt, BitVec.lt_def, BitVec.toNat_add,
    BitVec.toNat_add, BitVec.toNat_setWidth, BitVec.toNat_setWidth, hSize, toNat_blockSizeX]
  simp only [BitVec.toNat_ofNat, Nat.reducePow, Nat.reduceMod, Nat.reduceAdd]
  -- the literal makes the sum 32 bits wide: no wrap
  simp (disch := omega) only [Nat.mod_eq_of_lt]
  omega

/-- The test before a vertical shape turns. -/
theorem beyondWall_iff {j : RotateInputs} (hSize : j.blockSizeY = k.select.blockSizeY)
    (h : AtCell j.xPos j.yPos a) : j.beyondWall = true ↔ 11 < a.2 + k.height := by
  have hX := h.x
  have hLt := j.xPos.isLt
  have hHeight := height_le k
  rw [RotateInputs.beyondWall, decide_eq_true_eq, gt_iff_lt, BitVec.lt_def, BitVec.toNat_add,
    BitVec.toNat_add, BitVec.toNat_setWidth, BitVec.toNat_setWidth, hSize, toNat_blockSizeY]
  simp only [BitVec.toNat_ofNat, Nat.reducePow, Nat.reduceMod, Nat.reduceAdd]
  simp (disch := omega) only [Nat.mod_eq_of_lt]
  omega

end Guards

/-! ## All tables at once -/

section Agree

variable {m : MotionRegs} {i : MotionInputs} {k : Shape} {a : ℤ × ℤ}

theorem choose_of_select (hk : i.select = k.select) : i.select.choose = k.only := by
  rw [hk]; rfl

/-- The motion the LEFT branch assigns. -/
theorem checkKeys_left (hk : i.select = k.select) (hKey : i.left = true)
    (hGuard : m.blockXPos > xMin) :
    (checkKeys m i (checkLanding m i m.defaults)).blockXMotionIn =
      if i.hits m.blockXPos m.blockYPos k.leftCells then 0 else -9 := by
  rw [checkLanding_eq, checkKeys_xMotionIn _ _ _ rfl, if_pos ⟨hKey, hGuard⟩,
    choose_of_select hk, leftTable_only]
  rfl

theorem not_left_of_right (hKey : i.right = true) : i.left = false := by
  simp only [MotionInputs.right, Bool.and_eq_true, beq_iff_eq] at hKey
  simp [MotionInputs.left, hKey.2]

/-- The motion the RIGHT branch assigns. -/
theorem checkKeys_right (hk : i.select = k.select) (hKey : i.right = true)
    (hGuard : rightFree m i = true) :
    (checkKeys m i (checkLanding m i m.defaults)).blockXMotionIn =
      if i.hits m.blockXPos m.blockYPos k.rightCells then 0 else 9 := by
  rw [checkLanding_eq, checkKeys_xMotionIn _ _ _ rfl, not_left_of_right hKey,
    if_neg (by simp), if_pos ⟨hKey, hGuard⟩, choose_of_select hk, rightTable_only]
  rfl

/-- A motion that is 0 on a hit and `step ≠ 0` otherwise tells the two apart. -/
theorem ite_step_spec {hit : Bool} {blocked : Prop} (h : hit = true ↔ blocked)
    {step : BitVec 10} (hStep : step ≠ 0) :
    ((if hit then 0 else step) = 0 ↔ blocked) ∧
      (¬ blocked → (if hit then 0 else step) = step) := by
  rw [← h]
  cases hit with
  | false => simpa using hStep
  | true => simp

/-- The shape tables agree. For a shape `choose_block` shows, whose four painted cells are in the
well and empty, with the anchor in any cell and over any board: what `board`
paints is the figure, the landing, LEFT and RIGHT tests ask whether the shifted
figure meets a settled cell, the three guards of `block_motion` whether the
shift stays in the well, and the two of `rotate_block` whether the turned box
does. -/
theorem tables_agree {blockSel : BitVec 3} {rotSel : BitVec 2} (hSel : blockSel ≠ 7)
    (hShape : shapeOf blockSel rotSel = k) (hSelect : i.select = chooseBlock blockSel rotSel)
    (hX : (m.blockXPos.toNat : ℤ) = 270 + 9 * a.2) (hY : (m.blockYPos.toNat : ℤ) = 135 + 9 * a.1)
    (hFits : Fits (well 22 11) (filled i.board) (place k.cells a)) :
    -- the figure is what is painted
    (k.cells.card = 4 ∧ ∀ (r : Fin 22) (c : Fin 11),
      paint i.board i.select.choose m.blockXPos m.blockYPos r c =
        if ((r.val : ℤ), (c.val : ℤ)) ∈ place k.cells a then k.colour else i.board r c) ∧
    -- the landing test
    (Inside (well 22 11) (place k.cells (a + (1, 0))) →
      (i.hits m.blockXPos m.blockYPos (landingTable i.select.choose) = true ↔
        ∃ p ∈ place k.cells (a + (1, 0)), p ∈ filled i.board)) ∧
    -- the LEFT branch
    (i.left = true → m.blockXPos > xMin →
      ((checkKeys m i (checkLanding m i m.defaults)).blockXMotionIn = 0 ↔
        ∃ p ∈ place k.cells (a + (0, -1)), p ∈ filled i.board) ∧
      ((¬ ∃ p ∈ place k.cells (a + (0, -1)), p ∈ filled i.board) →
        (checkKeys m i (checkLanding m i m.defaults)).blockXMotionIn = -9)) ∧
    -- the RIGHT branch
    (i.right = true → rightFree m i = true →
      ((checkKeys m i (checkLanding m i m.defaults)).blockXMotionIn = 0 ↔
        ∃ p ∈ place k.cells (a + (0, 1)), p ∈ filled i.board) ∧
      ((¬ ∃ p ∈ place k.cells (a + (0, 1)), p ∈ filled i.board) →
        (checkKeys m i (checkLanding m i m.defaults)).blockXMotionIn = 9)) ∧
    -- the guards
    (m.blockXPos > xMin ↔ Inside (well 22 11) (place k.cells (a + (0, -1)))) ∧
    (rightFree m i = true ↔ Inside (well 22 11) (place k.cells (a + (0, 1)))) ∧
    (atFloor m i = true ↔ ¬ Inside (well 22 11) (place k.cells (a + (1, 0)))) ∧
    -- the tests of `rotate_block`
    (∀ j : RotateInputs, j.xPos = m.blockXPos → j.yPos = m.blockYPos →
      j.blockSizeX = i.select.blockSizeX → j.blockSizeY = i.select.blockSizeY →
      (j.beyondFloor = true ↔ 22 < a.1 + k.width) ∧
      (j.beyondWall = true ↔ 11 < a.2 + k.height)) := by
  have hk : i.select = k.select := by rw [hSelect, chooseBlock_eq_select _ _ hSel, hShape]
  have hBox := (inside_cells_iff k a).mp hFits.inside
  have ha : AtCell m.blockXPos m.blockYPos a := ⟨hX, hY, hBox.2.2.1, hBox.1⟩
  have hLeft := gt_xMin_iff_inside ha hFits.inside
  have hRight := rightFree_iff_inside hk ha hFits.inside
  refine ⟨⟨card_cells k, ?_⟩, ?_, ?_, ?_, hLeft, hRight,
    atFloor_iff_not_inside hk ha hFits.inside, ?_⟩
  · intro r c
    rw [choose_of_select hk]
    exact paint_inside ha _ _ hFits.inside _ _
  · intro hDown
    rw [choose_of_select hk]
    exact hits_iff_blocked ha (landingTable_only k) hFits.free hDown
  · intro hKey hGuard
    rw [checkKeys_left hk hKey hGuard]
    exact ite_step_spec (hits_iff_blocked ha (leftCells_toFinset k) hFits.free
      (hLeft.mp hGuard)) (by decide)
  · intro hKey hGuard
    rw [checkKeys_right hk hKey hGuard]
    exact ite_step_spec (hits_iff_blocked ha (rightCells_toFinset k) hFits.free
      (hRight.mp hGuard)) (by decide)
  · rintro j hjX hjY hjSizeX hjSizeY
    have hj : AtCell j.xPos j.yPos a := by rw [hjX, hjY]; exact ha
    rw [hk] at hjSizeX hjSizeY
    exact ⟨beyondFloor_iff hjSizeX hj, beyondWall_iff hjSizeY hj⟩

/-- Each of the 19 shapes is shown for some kind and orientation. -/
example (k : Shape) : ∃ b < 7, ∃ r < 4, shapeOf (BitVec.ofNat 3 b) (BitVec.ofNat 2 r) = k := by
  cases k <;> decide

/-- The T piece at its start with a settled cell to its left: LEFT assigns 0 and RIGHT +9. -/
theorem tables_agree_beside :
    let board : Board := fun r c => if r = 0 ∧ c = 2 then 1 else 0
    let i (keycode : BitVec 8) : MotionInputs :=
      { reset := false
        frameClk := false
        keycode := keycode
        keypress := true
        select := chooseBlock 6 0
        board := board
        undefinedRead := fun _ _ => 0 }
    let m := Game.initial.motion
    (checkKeys m (i 0x1C) (checkLanding m (i 0x1C) m.defaults)).blockXMotionIn = 0 ∧
      (checkKeys m (i 0x23) (checkLanding m (i 0x23) m.defaults)).blockXMotionIn = 9 := by
  intro board i m
  have hFilled : filled board = {((0 : ℤ), (2 : ℤ))} := by
    ext p
    simp [filled, board]
  have hFits : Fits (well 22 11) (filled board) (place Shape.tDown.cells (0, 3)) := by
    refine ⟨(inside_cells_iff _ _).mpr (by decide), fun p hp => ?_⟩
    rw [hFilled, Set.mem_singleton_iff]
    rintro rfl
    exact absurd hp (by decide)
  have hAgree := fun keycode => tables_agree (i := i keycode) (m := m) (k := .tDown)
    (show (6 : BitVec 3) ≠ 7 by decide) (show shapeOf 6 0 = .tDown from rfl) rfl rfl rfl hFits
  constructor
  · refine ((hAgree 0x1C).2.2.1 rfl (by decide)).1.mpr ⟨(0, 2), by decide, ?_⟩
    rw [hFilled]
    exact Set.mem_singleton _
  · refine ((hAgree 0x23).2.2.2.1 rfl (by decide)).2 ?_
    rw [hFilled]
    decide

end Agree

end Ece385.Tetris

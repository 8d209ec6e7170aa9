import Ece385.Tetris.Display

/-!
# Tetris — what the well shows

The sprites come from files that nobody compared with the tables of `board`. They
agree: where a sprite is neither of the colours the mapper takes for see-through, it is one of
the four cells that a lock of its shape paints, in the colour of that paint. So
the well always shows the board as it would be if the piece were settled where it is.

* `Shape.spriteBytes` — the files under `sprite_bytes`.
* `sprite_cell` — a sprite, cell by cell.
* `wellColor_eq_paint` — the well.

Main result:

* `Started.frame_shows_board` — every cell of every frame.
-/

open Clocked Raster Figure RowStack

namespace Ece385.Tetris

/-! ## The files -/

/-- The file of each sprite has a digit on a line. Here the digits are put together into rows
as wide as the sprite: how many equal rows follow one another, and their digits. -/
def Shape.spriteRuns : Shape → List (ℕ × ℕ)
  | .o => [
    (1, 0x0000000000000000000), (8, 0x0222222220222222220), (1, 0x0000000000000000000),
    (8, 0x0222222220222222220), (1, 0x0000000000000000000)]
  | .iVert => [
    (1, 0x0000000000), (8, 0x0111111110), (1, 0x0000000000), (8, 0x0111111110),
    (1, 0x0000000000), (8, 0x0111111110), (1, 0x0000000000), (8, 0x0111111110), (1, 0x0000000000)]
  | .iHoriz => [
    (1, 0x0000000000000000000000000000000000000), (8, 0x0111111110111111110111111110111111110),
    (1, 0x0000000000000000000000000000000000000)]
  | .jUp => [
    (1, 0x9999999990000000000), (8, 0x9999999990666666660), (1, 0x9999999990000000000),
    (8, 0x9999999990666666660), (1, 0x0000000000000000000), (8, 0x0666666660666666660),
    (1, 0x0000000000000000000)]
  | .jRight => [
    (1, 0x0000000000999999999999999999), (8, 0x0666666660999999999999999999),
    (1, 0x0000000000000000000000000000), (8, 0x0666666660666666660666666660),
    (1, 0x0000000000000000000000000000)]
  | .jLeft => [
    (1, 0x0000000000000000000000000000), (8, 0x0666666660666666660666666660),
    (1, 0x0000000000000000000000000000), (8, 0x9999999999999999990666666660),
    (1, 0x9999999999999999990000000000)]
  | .jDown => [
    (1, 0x0000000000000000000), (8, 0x0666666660666666660), (1, 0x0000000000000000000),
    (8, 0x0666666660999999999), (1, 0x0000000000999999999), (8, 0x0666666660999999999),
    (1, 0x0000000000999999999)]
  | .lUp => [
    (1, 0x0000000000999999999), (8, 0x0444444440999999999), (1, 0x0000000000999999999),
    (8, 0x0444444440999999999), (1, 0x0000000000000000000), (8, 0x0444444440444444440),
    (1, 0x0000000000000000000)]
  | .lRight => [
    (1, 0x0000000000000000000000000000), (8, 0x0444444440444444440444444440),
    (1, 0x0000000000000000000000000000), (8, 0x0444444440999999999999999999),
    (1, 0x0000000000999999999999999999)]
  | .lLeft => [
    (1, 0x9999999999999999990000000000), (8, 0x9999999999999999990444444440),
    (1, 0x0000000000000000000000000000), (8, 0x0444444440444444440444444440),
    (1, 0x0000000000000000000000000000)]
  | .lDown => [
    (1, 0x0000000000000000000), (8, 0x0444444440444444440), (1, 0x0000000000000000000),
    (8, 0x9999999990444444440), (1, 0x9999999990000000000), (8, 0x9999999990444444440),
    (1, 0x9999999990000000000)]
  | .tUp => [
    (1, 0x9999999990000000000999999999), (8, 0x9999999990777777770999999999),
    (1, 0x0000000000000000000000000000), (8, 0x0777777770777777770777777770),
    (1, 0x0000000000000000000000000000)]
  | .tRight => [
    (1, 0x0000000000999999999), (8, 0x0777777770999999999), (1, 0x0000000000000000000),
    (8, 0x0777777770777777770), (1, 0x0000000000000000000), (8, 0x0777777770999999999),
    (1, 0x0000000000999999999)]
  | .tLeft => [
    (1, 0x9999999990000000000), (8, 0x9999999990777777770), (1, 0x0000000000000000000),
    (8, 0x0777777770777777770), (1, 0x0000000000000000000), (8, 0x9999999990777777770),
    (1, 0x9999999990000000000)]
  | .tDown => [
    (1, 0x0000000000000000000000000000), (8, 0x0777777770777777770777777770),
    (1, 0x0000000000000000000000000000), (8, 0x9999999990777777770999999999),
    (1, 0x9999999990000000000999999999)]
  | .zVert => [
    (1, 0x9999999990000000000), (8, 0x9999999990333333330), (1, 0x0000000000000000000),
    (8, 0x0333333330333333330), (1, 0x0000000000000000000), (8, 0x0333333330999999999),
    (1, 0x0000000000999999999)]
  | .zHoriz => [
    (1, 0x0000000000000000000999999999), (8, 0x0333333330333333330999999999),
    (1, 0x0000000000000000000000000000), (8, 0x9999999990333333330333333330),
    (1, 0x9999999990000000000000000000)]
  | .sVert => [
    (1, 0x0000000000999999999), (8, 0x0555555550999999999), (1, 0x0000000000000000000),
    (8, 0x0555555550555555550), (1, 0x0000000000000000000), (8, 0x9999999990555555550),
    (1, 0x9999999990000000000)]
  | .sHoriz => [
    (1, 0x9999999990000000000000000000), (8, 0x9999999990555555550555555550),
    (1, 0x0000000000000000000000000000), (8, 0x0555555550555555550999999999),
    (1, 0x0000000000000000000999999999)]

/-- The rows of the file. -/
def Shape.spriteRows (k : Shape) : List ℕ :=
  k.spriteRuns.flatMap fun run => List.replicate run.1 run.2

/-- Digit `x` of a row of `width` digits, from the left. -/
def hexDigit (width row x : ℕ) : BitVec 4 := BitVec.ofNat 4 (row >>> (4 * (width - 1 - x)))

/-- The digits of a row of the sprite. -/
def Shape.spriteRow (k : Shape) (row : ℕ) : List (BitVec 4) :=
  (List.range (9 * k.width + 1)).map (hexDigit (9 * k.width + 1) row)

/-- The file, digit by digit. -/
def Shape.spriteBytes (k : Shape) : List (BitVec 4) := k.spriteRows.flatMap k.spriteRow

/-- `initial $readmemh(...)`: the ROMs of the blocks from their files. -/
def romContents (others : Rom → ℕ → BitVec 4) : Rom → ℕ → BitVec 4
  | .block k, a => k.spriteBytes.getD a 0
  | r, a => others r a

theorem length_spriteRow (k : Shape) (row : ℕ) : (k.spriteRow row).length = 9 * k.width + 1 := by
  rw [Shape.spriteRow, List.length_map, List.length_range]

/-- A file fills its ROM. -/
theorem length_spriteBytes (k : Shape) : k.spriteBytes.length = (Rom.block k).depth := by
  have hRows : (k.spriteRows.map fun _ => 9 * k.width + 1).sum = (Rom.block k).depth := by
    cases k <;> rfl
  rw [Shape.spriteBytes, List.length_flatMap, ← hRows]
  exact congrArg List.sum (List.map_congr_left fun row _ => length_spriteRow k row)

/-! ## A sprite, cell by cell -/

/-- The rows of the files against the paint table. -/
theorem spriteRows_cell (k : Shape) : ∀ r < k.height, ∀ c < k.width, ∀ y < 8, ∀ x < 8,
    (k.spriteRows[9 * r + 1 + y]?.map fun row =>
        hexDigit (9 * k.width + 1) row (9 * c + 1 + x)) =
      if ((r : ℤ), (c : ℤ)) ∈ k.paintOffsets then k.colour else 9 := by
  cases k <;> decide +kernel

/-- Inside a square of the sprite there is the colour of the shape or the see-through one. -/
theorem sprite_cell (k : Shape) (others : Rom → ℕ → BitVec 4) {r c x y : ℕ} (hr : r < k.height)
    (hc : c < k.width) (hx : x < 8) (hy : y < 8) :
    romContents others (.block k) (9 * c + 1 + x + (9 * r + 1 + y) * (9 * k.width + 1)) =
      if ((r : ℤ), (c : ℤ)) ∈ k.cells then k.colour else 9 := by
  have hCol : 9 * c + 1 + x < 9 * k.width + 1 := by omega
  have hRow := spriteRows_cell k r hr c hc y hy x hx
  obtain ⟨row, hAt, hDigit⟩ := Option.map_eq_some_iff.mp hRow
  have hWord : k.spriteBytes[9 * c + 1 + x + (9 * r + 1 + y) * (9 * k.width + 1)]? =
      some (hexDigit (9 * k.width + 1) row (9 * c + 1 + x)) := by
    rw [Shape.spriteBytes, getElem?_rows (length_spriteRow k) _ hCol, hAt, Option.bind_some,
      Shape.spriteRow, List.getElem?_map, List.getElem?_range hCol]
    rfl
  rw [romContents, List.getD_eq_getElem?_getD, hWord, Option.getD_some, hDigit]
  simp only [Shape.cells, List.mem_toFinset]

/-! ## The well -/

/-- On the grid a paint branch assigns the cells of the piece, as far as they are in the array. -/
theorem paint_atCell {xPos yPos : BitVec 10} {a : ℤ × ℤ} (h : AtCell xPos yPos a) (b : Board)
    (k : Shape) (i : Fin 22) (j : Fin 11) :
    paint b k.only xPos yPos i j =
      if ((i.val : ℤ), (j.val : ℤ)) ∈ place k.cells a then k.colour else b i j := by
  rw [paint_eq]
  refine if_congr ?_ rfl rfl
  rw [paintedCells_only, mem_place]
  simp only [List.mem_map, exists_exists_and_eq_and, Shape.cells, List.mem_toFinset]
  refine exists_congr fun d => and_congr_right fun hd => ?_
  obtain ⟨hRow, hCol⟩ := h.offset_cells (List.mem_toFinset.mpr hd)
  rw [Prod.ext_iff]
  simp only [Prod.fst_add, Prod.snd_add]
  omega

theorem paint_undrawn (b : Board) (xPos yPos : BitVec 10) : paint b {} xPos yPos = b := rfl

/-- A pixel inside cell `(row, col)` of the well, off the grid lines. -/
structure PixelOf (row : Fin 22) (col : Fin 11) (x y : ℕ) : Prop where
  left : 270 + 9 * col.val < x
  right : x < 279 + 9 * col.val
  top : 135 + 9 * row.val < y
  bottom : y < 144 + 9 * row.val

theorem PixelOf.off_lines {row : Fin 22} {col : Fin 11} {x y : ℕ} (h : PixelOf row col x y) :
    ¬ (x % 9 = 0 ∨ y % 9 = 0) := by
  obtain ⟨hLeft, hRight, hTop, hBottom⟩ := h
  omega

section Well

variable {row : Fin 22} {col : Fin 11} {x y : ℕ}

theorem Scene.settled_of_pixel (v : Scene) (h : PixelOf row col x y) :
    v.settled x y = v.board row col := by
  obtain ⟨hLeft, hRight, hTop, hBottom⟩ := h
  have hRow : (y - 135) / 9 = row := by omega
  have hCol : (x - 270) / 9 = col := by omega
  have hIn : (y - 135) / 9 < 22 ∧ (x - 270) / 9 < 11 := by
    rw [hRow, hCol]
    exact ⟨row.isLt, col.isLt⟩
  rw [Scene.settled, dif_pos hIn]
  exact congrArg₂ v.board (Fin.ext hRow) (Fin.ext hCol)

/-- The box of a piece covers whole cells. -/
theorem Scene.contains_iff_of_pixel {v : Scene} {k : Shape} {r c : ℕ} (hLeft : v.left = 270 + 9 * c)
    (hTop : v.top = 135 + 9 * r) (h : PixelOf row col x y) :
    (v.frame k).Contains x y ↔
      (r ≤ row.val ∧ row.val < r + k.height) ∧ c ≤ col.val ∧ col.val < c + k.width := by
  obtain ⟨hL, hR, hT, hB⟩ := h
  rw [Rect.contains_iff, Scene.frame, hLeft, hTop]
  dsimp only
  omega

/-- The cells of a placed piece, counted from its corner. -/
theorem mem_place_cells {k : Shape} {r c : ℕ} (hr : r ≤ row.val) (hc : c ≤ col.val) :
    ((row.val : ℤ), (col.val : ℤ)) ∈ place k.cells ((r : ℤ), (c : ℤ)) ↔
      (((row.val - r : ℕ) : ℤ), ((col.val - c : ℕ) : ℤ)) ∈ k.cells := by
  have hCell : ((row.val : ℤ), (col.val : ℤ)) =
      ((r : ℤ), (c : ℤ)) + (((row.val - r : ℕ) : ℤ), ((col.val - c : ℕ) : ℤ)) := by
    rw [Nat.cast_sub hr, Nat.cast_sub hc, Prod.mk_add_mk, add_sub_cancel, add_sub_cancel]
  rw [mem_place, hCell]
  simp only [add_right_inj, exists_eq_right]

/-- The cells of a placed piece are in its box. -/
theorem bounds_of_mem_place {k : Shape} {r c : ℕ}
    (h : ((row.val : ℤ), (col.val : ℤ)) ∈ place k.cells ((r : ℤ), (c : ℤ))) :
    (r ≤ row.val ∧ row.val < r + k.height) ∧ c ≤ col.val ∧ col.val < c + k.width := by
  obtain ⟨d, hd, hSum⟩ := mem_place.mp h
  obtain ⟨h0, hH, h0', hW⟩ := cells_bounds hd
  obtain ⟨hRow, hCol⟩ := Prod.ext_iff.mp hSum
  simp only [Prod.fst_add, Prod.snd_add] at hRow hCol
  omega

/-- Where the box covers a cell, the sprite says whether it is one of the piece's. -/
theorem Scene.sprite_of_pixel {v : Scene} {k : Shape} (others : Rom → ℕ → BitVec 4) {r c : ℕ}
    (hLeft : v.left = 270 + 9 * c) (hTop : v.top = 135 + 9 * r) (h : PixelOf row col x y)
    (hIn : (v.frame k).Contains x y) :
    romContents others (.block k) ((v.frame k).offset x y) =
      if ((row.val : ℤ), (col.val : ℤ)) ∈ place k.cells ((r : ℤ), (c : ℤ)) then k.colour
      else 9 := by
  obtain ⟨⟨hr, hRow⟩, hc, hCol⟩ := (Scene.contains_iff_of_pixel hLeft hTop h).mp hIn
  obtain ⟨hL, hR, hT, hB⟩ := h
  -- the pixel of the sprite, counted from the corner of its cell
  have hOffset : (v.frame k).offset x y =
      9 * (col.val - c) + 1 + (x - (271 + 9 * col.val)) +
        (9 * (row.val - r) + 1 + (y - (136 + 9 * row.val))) * (9 * k.width + 1) := by
    rw [Rect.offset, Scene.frame, hLeft, hTop]
    dsimp only
    congr 1
    · omega
    · congr 1
      omega
  rw [hOffset, sprite_cell k others (by omega) (by omega) (by omega) (by omega)]
  exact if_congr (mem_place_cells hr hc).symm rfl rfl

theorem colour_seen (k : Shape) : ¬ (k.colour = 0 ∨ k.colour = 9) := by cases k <;> decide

/-- In the well the piece looks as if it were settled already. -/
theorem Scene.wellColor_piece {v : Scene} {k : Shape} (others : Rom → ℕ → BitVec 4) {r c : ℕ}
    (hPiece : v.piece = some k) (hLeft : v.left = 270 + 9 * c) (hTop : v.top = 135 + 9 * r)
    (h : PixelOf row col x y) :
    v.wellColor (romContents others) x y =
      if ((row.val : ℤ), (col.val : ℤ)) ∈ place k.cells ((r : ℤ), (c : ℤ)) then k.colour
      else v.board row col := by
  rw [Scene.wellColor, if_neg h.off_lines, Scene.pieceColor, Scene.covering, hPiece,
    Option.filter_some, v.settled_of_pixel h]
  by_cases hIn : (v.frame k).Contains x y
  · rw [if_pos (decide_eq_true hIn), Option.map_some]
    dsimp only
    rw [Scene.sprite_of_pixel others hLeft hTop h hIn]
    by_cases hOn : ((row.val : ℤ), (col.val : ℤ)) ∈ place k.cells ((r : ℤ), (c : ℤ))
    · rw [if_pos hOn, if_pos hOn, if_neg (colour_seen k)]
    · rw [if_neg hOn, if_neg hOn, if_pos (Or.inr rfl)]
  · -- outside its box there is nothing of the piece
    have hOff := fun hOn => hIn
      ((Scene.contains_iff_of_pixel hLeft hTop h).mpr (bounds_of_mem_place (k := k) hOn))
    rw [if_neg (by simpa using hIn), if_neg hOff]
    rfl

/-- In a reachable state the well shows the board as a lock here would leave it. -/
theorem GameInv.wellColor_eq_paint {s : Game} (h : GameInv s) (others : Rom → ℕ → BitVec 4)
    (hPixel : PixelOf row col x y) :
    s.scene.wellColor (romContents others) x y =
      paint s.cells.board s.select.choose s.motion.blockXPos s.motion.blockYPos row col := by
  by_cases hSel : s.chooser.blockSel = 7
  · have hNone : s.scene.piece = none := if_pos hSel
    rw [Scene.wellColor, if_neg hPixel.off_lines, Scene.pieceColor, Scene.covering, hNone,
      (h.undrawn hSel).2, paint_undrawn]
    exact s.scene.settled_of_pixel hPixel
  · have hPiece : s.scene.piece = some s.shape := if_neg hSel
    have hDrawn : s.select = s.shape.select := GameInv.select_of_ne_seven hSel
    -- the piece is on the grid, so its sprite covers whole cells
    obtain ⟨c, -, hX⟩ := h.grid.xPos
    obtain ⟨r, -, hY⟩ := h.grid.yPos
    have hAt : AtCell s.motion.blockXPos s.motion.blockYPos ((r : ℤ), (c : ℤ)) := by
      constructor <;> dsimp only <;> omega
    rw [hDrawn]
    exact (Scene.wellColor_piece others hPiece hX hY hPixel).trans
      (paint_atCell hAt s.cells.board s.shape row col).symm

end Well

/-! ## The colours of a board -/

theorem colour_le_seven (k : Shape) : k.colour ≤ 7#4 := by cases k <;> decide

theorem GameInv.paint_le_seven {s : Game} (h : GameInv s)
    (hBoard : ∀ row col, s.cells.board row col ≤ 7#4) (row : Fin 22) (col : Fin 11) :
    paint s.cells.board s.select.choose s.motion.blockXPos s.motion.blockYPos row col ≤ 7#4 := by
  by_cases hSel : s.chooser.blockSel = 7
  · rw [(h.undrawn hSel).2, paint_undrawn]
    exact hBoard row col
  · have hDrawn : s.select = s.shape.select := GameInv.select_of_ne_seven hSel
    rw [hDrawn, paint_eq]
    split_ifs
    · exact colour_le_seven s.shape
    · exact hBoard row col

/-- The board holds 0 and the colours of the shapes, on every run from reset. -/
theorem board_le_seven {s₀ : Game} {w : ℕ → Inputs} (hReset : s₀.IsReset)
    (hLow : ∀ n, (w n).reset = false) (n : ℕ) :
    ∀ row col, (s₀.run w n).cells.board row col ≤ 7#4 := by
  induction n with
  | zero =>
    intro row col
    rw [Game.run, trace_zero, hReset.board]
    exact (by decide : 0#4 ≤ 7#4)
  | succ n ih =>
    have hNext : (s₀.run w (n + 1)).cells = ((s₀.run w n).step (w n)).cells := rfl
    rw [hNext]
    by_cases hRemoves : (s₀.run w n).removesRow = true
    · obtain ⟨r, -, hBoard⟩ := Game.exists_removed hRemoves
      rw [hBoard]
      intro row col
      -- the top row is new, the others were there
      cases row using Fin.cases with
      | zero => exact (by decide : 0#4 ≤ 7#4)
      | succ j =>
        rw [removeRow_succ]
        exact ih _ col
    · have hNone := not_removesRow_iff.mp (by simpa using hRemoves)
      cases hLock : (s₀.run w n).atBottom (w n) with
      | true =>
        rw [Game.cells_step_lock hNone (hLow n) hLock]
        exact (gameInv_run hReset w n).paint_le_seven ih
      | false =>
        rw [Game.cells_step_same hNone (hLow n) hLock]
        exact ih

/-- An empty cell is darker than the colours of the shapes. -/
theorem colors_eq_dark_iff {c : BitVec 4} (hc : c ≤ 7#4) (drawX : BitVec 10) :
    colors c drawX = ⟨0x18, 0x18, 0x18⟩ ↔ c = 0 := by
  -- none of these colours fades
  have hFlat : colors c drawX = colors c 0 := by
    have hLe : c.toNat ≤ 7 := BitVec.le_def.mp hc
    unfold colors
    split
    case h_9 hEight => omega
    all_goals rfl
  rw [hFlat]
  clear hFlat
  revert c
  decide

/-! ## Every cell of every frame -/

namespace TetrisTop

variable {others : Rom → ℕ → BitVec 4} {s : TetrisTop} {w : ℕ → TopInputs} {phase : ℕ}
  {row : Fin 22} {col : Fin 11} {x y : ℕ}

/-- Every frame shows the board as it would be if the piece were settled where it is at the start
of the frame: off the grid lines a pixel of a cell is sent exactly once, in the colour of that
cell, and it is dark if and only if the cell is neither settled nor the piece's. -/
theorem Started.frame_shows_board (h : s.Started) (hUp : KeyUp w) (hHalved : Halved w phase)
    {f : ℕ} (hf : 0 < f)
    (hTurn : ∀ n, frameStart phase f ≤ n → n < frameStart phase f + 768000 →
      (s.run (romContents others) w n).game.rotation =
        (s.run (romContents others) w (frameStart phase f)).game.rotation)
    (hPixel : PixelOf row col x y) :
    let g := (s.run (romContents others) w (frameStart phase f)).game
    let b := paint g.cells.board g.select.choose g.motion.blockXPos g.motion.blockYPos
    ∃ n, (frameStart phase f ≤ n ∧ n < frameStart phase (f + 1) ∧
        Samples (romContents others) s w n x y) ∧
      (∀ m, frameStart phase f ≤ m → m < frameStart phase (f + 1) →
        Samples (romContents others) s w m x y → m = n) ∧
      (s.run (romContents others) w n).rgb (w n) = colors (b row col) (BitVec.ofNat 10 x) ∧
      ((s.run (romContents others) w n).rgb (w n) = ⟨0x18, 0x18, 0x18⟩ ↔
        ((row.val : ℤ), (col.val : ℤ)) ∉ filled b) := by
  intro g b
  obtain ⟨hLeft, hRight, hTop, hBottom⟩ := hPixel
  have hRow := row.isLt
  have hCol := col.isLt
  have hx : x < 640 := by omega
  have hy : y < 480 := by omega
  obtain ⟨n, hAt, hOnce⟩ := h.sampled_once (romContents others) hUp hHalved hf hx hy
  have hColor := h.rgb_sampled hUp hHalved hf hTurn hx hy hAt.1 hAt.2.1 hAt.2.2
  have hGame : g = s.game.run (s.gameWave (romContents others) w) (frameStart phase f) :=
    game_run _
  have hInv : GameInv g := hGame ▸ gameInv_run h.game _ _
  -- of the colours up to 7 only 0 is dark
  have hSmall : b row col ≤ 7#4 := hInv.paint_le_seven
    (hGame ▸ board_le_seven h.game (h.gameLow hUp) _) row col
  have hWell : g.scene.color (romContents others) x y = b row col := by
    rw [Scene.color, if_pos (by omega)]
    exact hInv.wellColor_eq_paint others ⟨hLeft, hRight, hTop, hBottom⟩
  have hShown : (s.run (romContents others) w n).rgb (w n) =
      colors (b row col) (BitVec.ofNat 10 x) := by
    rw [hColor]
    exact congrArg (colors · _) hWell
  refine ⟨n, hAt, hOnce, hShown, ?_⟩
  rw [hShown, colors_eq_dark_iff hSmall, mem_filled, not_not]

/-- Two frame edges come before the first full frame. -/
theorem count_edges_fresh {contents : Rom → ℕ → BitVec 4} {n : ℕ} (hn : n ≤ frameStart 0 1) :
    Nat.count (frameEdge fresh.game (fresh.gameWave contents untouched)) n ≤ 49 := by
  have hSpaced : Spaced 393599 (frameEdge fresh.game (fresh.gameWave contents untouched)) :=
    started_fresh.frames_spaced keyUp_untouched
  rcases hSpaced.count_le n with h0 | ⟨m, hm, -, hGaps⟩
  · rw [h0]
    exact Nat.zero_le 49
  · unfold frameStart at hn
    omega

/-- Nothing touched, this frame shows the I piece at the start. -/
theorem paint_fresh (contents : Rom → ℕ → BitVec 4) :
    let g := (fresh.run contents untouched (frameStart 0 1)).game
    paint g.cells.board g.select.choose g.motion.blockXPos g.motion.blockYPos =
      paint 0 (chooseBlock 3 0).choose blockXStart blockYStart := by
  intro g
  have hLow : ∀ n, (fresh.gameWave contents untouched n).reset = false :=
    started_fresh.gameLow keyUp_untouched
  have hPress : ∀ n, (fresh.gameWave contents untouched n).keypress = false :=
    started_fresh.press_idle keyUp_untouched (fun _ => rfl) rfl
  have hTop := atTop_run started_fresh.game hLow hPress (count_edges_fresh le_rfl)
  have hKind : Game.drawnKind (fresh.gameWave contents untouched 0) = 3 := by
    show (0xff % 7 : BitVec 8).setWidth 3 = 3
    decide
  have hSel := blockSel_of_few (n := 839998) started_fresh.game hLow hPress
    (count_edges_fresh (by unfold frameStart; omega))
  rw [hKind, show 839998 + 1 = frameStart 0 1 from rfl] at hSel
  have hState := (released_run started_fresh.game hLow hPress (frameStart 0 1)).state
  rw [← game_run] at hTop hSel hState
  have hShown : g.select = chooseBlock 3 0 := by
    rw [Game.select, Game.rotation, hState, hSel]
    rfl
  rw [hTop.board, hTop.xPos, hTop.yPos, hShown]

/-- A pixel of the first piece. -/
theorem frame_shows_board_first :
    let contents := romContents fun _ _ => 0
    ∃ n, (frameStart 0 1 ≤ n ∧ n < frameStart 0 2 ∧ Samples contents fresh untouched n 301 139) ∧
      (∀ m, frameStart 0 1 ≤ m → m < frameStart 0 2 →
        Samples contents fresh untouched m 301 139 → m = n) ∧
      (fresh.run contents untouched n).rgb (untouched n) = colors 1 (BitVec.ofNat 10 301) := by
  intro contents
  have hIdle := started_fresh.released_idle contents keyUp_untouched (fun _ => rfl) rfl
  obtain ⟨n, hAt, hOnce, hColor, -⟩ := @Started.frame_shows_board (fun _ _ => 0) fresh untouched 0
    0 3 301 139 started_fresh keyUp_untouched halved_untouched 1 Nat.one_pos
    (fun n _ _ => by rw [Game.rotation, Game.rotation, (hIdle n).state, (hIdle _).state])
    (by constructor <;> decide)
  refine ⟨n, hAt, hOnce, ?_⟩
  rw [hColor, paint_fresh]
  exact congrArg (colors · _) (by decide +kernel)

end TetrisTop

end Ece385.Tetris

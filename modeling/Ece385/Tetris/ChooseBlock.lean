import Ece385.Tetris.Signals

/-!
# Tetris — `choose_block.sv`

The piece register. `new_shape` is raised by `Reset` or by a lock and, on the
clock after, makes `block_sel` load `LFSR_out % 7`; the `always_comb` block
decodes `block_sel` and `rot_sel` into one of the nineteen select lines and
the pixel size of the shape.
-/

namespace Ece385.Tetris

/-- The decoded outputs of `choose_block`. -/
structure ShapeSelect where
  choose : Choose := {}
  blockSizeX : BitVec 6 := 0
  blockSizeY : BitVec 6 := 0
  deriving DecidableEq

/-- The `always_comb` block of `choose_block`; whatever no case covers keeps the
defaults, no line high and both sizes 0. -/
def chooseBlock (blockSel : BitVec 3) (rotSel : BitVec 2) : ShapeSelect :=
  if blockSel = 0 then
    if rotSel = 0 ∨ rotSel = 1 ∨ rotSel = 2 ∨ rotSel = 3 then
      { blockSizeX := 19, blockSizeY := 19, choose := { chooseO := true } }
    else {}
  else if blockSel = 1 then
    if rotSel = 0 ∨ rotSel = 2 then
      { blockSizeX := 28, blockSizeY := 19, choose := { chooseZHoriz := true } }
    else if rotSel = 1 ∨ rotSel = 3 then
      { blockSizeX := 19, blockSizeY := 28, choose := { chooseZVert := true } }
    else {}
  else if blockSel = 2 then
    if rotSel = 0 ∨ rotSel = 2 then
      { blockSizeX := 28, blockSizeY := 19, choose := { chooseSHoriz := true } }
    else if rotSel = 1 ∨ rotSel = 3 then
      { blockSizeX := 19, blockSizeY := 28, choose := { chooseSVert := true } }
    else {}
  else if blockSel = 3 then
    if rotSel = 0 ∨ rotSel = 2 then
      { blockSizeX := 37, blockSizeY := 10, choose := { chooseIHoriz := true } }
    else if rotSel = 1 ∨ rotSel = 3 then
      { blockSizeX := 10, blockSizeY := 37, choose := { chooseIVert := true } }
    else {}
  else if blockSel = 4 then
    if rotSel = 0 then
      { blockSizeX := 28, blockSizeY := 19, choose := { chooseLRight := true } }
    else if rotSel = 1 then
      { blockSizeX := 19, blockSizeY := 28, choose := { chooseLDown := true } }
    else if rotSel = 2 then
      { blockSizeX := 28, blockSizeY := 19, choose := { chooseLLeft := true } }
    else if rotSel = 3 then
      { blockSizeX := 19, blockSizeY := 28, choose := { chooseLUp := true } }
    else {}
  else if blockSel = 5 then
    if rotSel = 0 then
      { blockSizeX := 28, blockSizeY := 19, choose := { chooseJLeft := true } }
    else if rotSel = 1 then
      { blockSizeX := 19, blockSizeY := 28, choose := { chooseJUp := true } }
    else if rotSel = 2 then
      { blockSizeX := 28, blockSizeY := 19, choose := { chooseJRight := true } }
    else if rotSel = 3 then
      { blockSizeX := 19, blockSizeY := 28, choose := { chooseJDown := true } }
    else {}
  else if blockSel = 6 then
    if rotSel = 0 then
      { blockSizeX := 28, blockSizeY := 19, choose := { chooseTDown := true } }
    else if rotSel = 1 then
      { blockSizeX := 19, blockSizeY := 28, choose := { chooseTLeft := true } }
    else if rotSel = 2 then
      { blockSizeX := 28, blockSizeY := 19, choose := { chooseTUp := true } }
    else if rotSel = 3 then
      { blockSizeX := 19, blockSizeY := 28, choose := { chooseTRight := true } }
    else {}
  else {}

/-- The registers of `choose_block`. -/
structure ChooseRegs where
  newShape : Bool
  blockSel : BitVec 3
  deriving DecidableEq

/-- The `always_ff` block of `choose_block`. -/
def ChooseRegs.step (c : ChooseRegs) (reset atBottom : Bool) (lfsrOut : BitVec 8) :
    ChooseRegs :=
  -- a lock only asks for a new shape, the load follows on the next clock
  if reset || atBottom then { c with newShape := true }
  else if c.newShape then { newShape := false, blockSel := (lfsrOut % 7).setWidth 3 }
  else c

/-! ## What the decoder shows -/

/-- The shape shown for kind `blockSel` in orientation `rotSel`. -/
def shapeOf (blockSel : BitVec 3) (rotSel : BitVec 2) : Shape :=
  match blockSel.toNat, rotSel.toNat with
  | 0, _ => .o
  | 1, 0 | 1, 2 => .zHoriz
  | 1, _ => .zVert
  | 2, 0 | 2, 2 => .sHoriz
  | 2, _ => .sVert
  | 3, 0 | 3, 2 => .iHoriz
  | 3, _ => .iVert
  | 4, 0 => .lRight
  | 4, 1 => .lDown
  | 4, 2 => .lLeft
  | 4, _ => .lUp
  | 5, 0 => .jLeft
  | 5, 1 => .jUp
  | 5, 2 => .jRight
  | 5, _ => .jDown
  | _, 0 => .tDown
  | _, 1 => .tLeft
  | _, 2 => .tUp
  | _, _ => .tRight

/-- Columns spanned by a shape. -/
def Shape.width : Shape → ℕ
  | .iHoriz => 4
  | .zHoriz | .sHoriz | .jLeft | .jRight | .lLeft | .lRight | .tUp | .tDown => 3
  | .o | .zVert | .sVert | .jUp | .jDown | .lUp | .lDown | .tLeft | .tRight => 2
  | .iVert => 1

/-- Rows spanned by a shape. -/
def Shape.height : Shape → ℕ
  | .iVert => 4
  | .zVert | .sVert | .jUp | .jDown | .lUp | .lDown | .tLeft | .tRight => 3
  | .o | .zHoriz | .sHoriz | .jLeft | .jRight | .lLeft | .lRight | .tUp | .tDown => 2
  | .iHoriz => 1

/-- A box of `n` cells is `9 * n + 1` pixels across. -/
def Shape.select (k : Shape) : ShapeSelect :=
  { choose := k.only
    blockSizeX := BitVec.ofNat 6 (9 * k.width + 1)
    blockSizeY := BitVec.ofNat 6 (9 * k.height + 1) }

/-- A drawn kind decodes to the one line and the size of its shape. -/
theorem chooseBlock_eq_select : ∀ (blockSel : BitVec 3) (rotSel : BitVec 2),
    blockSel ≠ 7 → chooseBlock blockSel rotSel = (shapeOf blockSel rotSel).select := by
  decide

/-- Kind 7, which only an unloaded register holds, shows nothing. -/
theorem chooseBlock_seven (rotSel : BitVec 2) : chooseBlock 7 rotSel = {} := by
  simp [chooseBlock]

theorem toNat_blockSizeX (k : Shape) : k.select.blockSizeX.toNat = 9 * k.width + 1 := by
  cases k <;> rfl

theorem toNat_blockSizeY (k : Shape) : k.select.blockSizeY.toNat = 9 * k.height + 1 := by
  cases k <;> rfl

theorem width_pos (k : Shape) : 1 ≤ k.width := by cases k <;> decide

theorem height_pos (k : Shape) : 1 ≤ k.height := by cases k <;> decide

theorem width_le (k : Shape) : k.width ≤ 4 := by cases k <;> decide

theorem height_le (k : Shape) : k.height ≤ 4 := by cases k <;> decide

/-- A load puts one of the seven kinds in `block_sel`. -/
theorem lfsr_mod_ne_seven : ∀ lfsrOut : BitVec 8, (lfsrOut % 7).setWidth 3 ≠ (7 : BitVec 3) := by
  decide

end Ece385.Tetris

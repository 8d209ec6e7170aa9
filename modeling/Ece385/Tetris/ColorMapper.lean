import Ece385.Lib.Raster
import Ece385.Tetris.Top

/-!
# Tetris — `Color_Mapper.sv` and the ROMs of `sprite_ram.sv`

Combinational logic from a pixel to a colour. The first `always_comb` block
finds the regions the pixel is in and computes one address for all ROMs, later
regions overwriting it; the second picks the ROM, the board or a constant in a
priority chain of its own and, where the sprite is transparent, the board again.

* `Rom` — the thirty-one ROMs with their depths.
* `MapperInputs` — the ports; `*_on` and `address` are `MapperDraw`.
* `ColorSource` — which wire the priority chain connects to `sprite_color`, and
  `MapperInputs.spriteColor`, the value on it.
-/

open Raster

namespace Ece385.Tetris

/-! ## The ROMs -/

/-- The modules of `sprite_ram.sv`. -/
inductive Rom where
  | block (k : Shape)
  | tetrisLogo
  | score
  | digit (d : Fin 10)
  deriving DecidableEq

/-- The size of the array `OCM` of each module. -/
def Rom.depth : Rom → ℕ
  | .block .o => 361
  | .block .iVert | .block .iHoriz => 370
  | .block .jUp | .block .jRight | .block .jLeft | .block .jDown => 532
  | .block .lUp | .block .lRight | .block .lLeft | .block .lDown => 532
  | .block .tUp | .block .tRight | .block .tLeft | .block .tDown => 532
  | .block .zVert | .block .zHoriz | .block .sVert | .block .sHoriz => 532
  | .tetrisLogo => 6250
  | .score => 600
  | .digit _ => 120

/-! ## The ports -/

/-- The inputs of `color_mapper`, with the oracle for out-of-range reads of
`board`. -/
structure MapperInputs where
  drawX : BitVec 10
  drawY : BitVec 10
  romData : Rom → BitVec 4
  choose : Choose
  xPos : BitVec 10
  yPos : BitVec 10
  blockSizeX : BitVec 6
  blockSizeY : BitVec 6
  board : Board
  score : BitVec 16
  undefinedRead : UndefinedRead

/-- The `*_on` variables and `address`, with their defaults. -/
structure MapperDraw where
  blockOn : Shape → Bool := fun _ => false
  gridOn : Bool := false
  logoOn : Bool := false
  scoreOn : Bool := false
  scoreTensDigitOn : Bool := false
  scoreOnesDigitOn : Bool := false
  address : BitVec 19 := 0

/-- The order in which both chains go through the shapes. -/
def drawOrder : List Shape :=
  [.o, .iHoriz, .iVert, .zHoriz, .zVert, .sHoriz, .sVert, .jLeft, .jUp, .jRight, .jDown,
    .lLeft, .lUp, .lRight, .lDown, .tLeft, .tUp, .tRight, .tDown]

/-! ## Regions of the screen -/

namespace MapperInputs

/-- `DrawX >= x && DrawX < x' && DrawY >= y && DrawY < y'` -/
def within (i : MapperInputs) (x x' y y' : BitVec 10) : Bool :=
  decide (i.drawX ≥ x) && decide (i.drawX < x') && decide (i.drawY ≥ y) && decide (i.drawY < y')

/-- The box of the active block; the sums are 10 bits wide. -/
def inBlock (i : MapperInputs) : Bool :=
  i.within i.xPos (i.xPos + i.blockSizeX.setWidth 10) i.yPos
    (i.yPos + i.blockSizeY.setWidth 10)

/-- `((DrawX >= 270) && (DrawX <= 369)) && ((DrawY >= 135) && (DrawY <= 333))` -/
def inWell (i : MapperInputs) : Bool :=
  decide (i.drawX ≥ 270) && decide (i.drawX ≤ 369) && decide (i.drawY ≥ 135) &&
    decide (i.drawY ≤ 333)

/-- `((DrawX % 9) == 0) || ((DrawY % 9) == 0)` -/
def onLine (i : MapperInputs) : Bool :=
  decide (i.drawX.setWidth 32 % 9#32 = 0) || decide (i.drawY.setWidth 32 % 9#32 = 0)

def inLogo (i : MapperInputs) : Bool := i.within 260 385 70 120
def inScore (i : MapperInputs) : Bool := i.within 400 440 135 150
def inTensDigit (i : MapperInputs) : Bool := i.within 410 418 155 170
def inOnesDigit (i : MapperInputs) : Bool := i.within 421 429 155 170

/-! ## The sections of the first `always_comb` block -/

/-- `((DrawX - X_Pos) + (DrawY - Y_Pos) * block_size_x)`, as wide as `address`. -/
def blockAddress (i : MapperInputs) : BitVec 19 :=
  (i.drawX.setWidth 19 - i.xPos.setWidth 19) +
    (i.drawY.setWidth 19 - i.yPos.setWidth 19) * i.blockSizeX.setWidth 19

/-- `((DrawX - x) + (DrawY - y) * width)` with literals, cut from 32 bits. -/
def fixedAddress (i : MapperInputs) (x y width : BitVec 32) : BitVec 19 :=
  ((i.drawX.setWidth 32 - x) + (i.drawY.setWidth 32 - y) * width).setWidth 19

/-- "draw active block": the nineteen branches differ in the line tested and the
variable set. -/
def drawBlock (i : MapperInputs) (v : MapperDraw) : MapperDraw :=
  -- the position test is the same in all nineteen branches
  if i.inBlock then
    match drawOrder.find? i.choose.line with
    | some k => { v with blockOn := Function.update v.blockOn k true, address := i.blockAddress }
    | none => v
  else v

/-- "draw grid" -/
def drawGrid (i : MapperInputs) (v : MapperDraw) : MapperDraw :=
  -- the only region that leaves the address alone
  if i.onLine && i.inWell then { v with gridOn := true } else v

/-- "draw logo" -/
def drawLogo (i : MapperInputs) (v : MapperDraw) : MapperDraw :=
  if i.inLogo then { v with logoOn := true, address := i.fixedAddress 260 70 125 } else v

/-- "draw score" -/
def drawScore (i : MapperInputs) (v : MapperDraw) : MapperDraw :=
  if i.inScore then { v with scoreOn := true, address := i.fixedAddress 400 135 40 } else v

/-- "draw score tens digit" -/
def drawTensDigit (i : MapperInputs) (v : MapperDraw) : MapperDraw :=
  if i.inTensDigit then
    { v with scoreTensDigitOn := true, address := i.fixedAddress 410 155 8 }
  else v

/-- "draw score ones digit" -/
def drawOnesDigit (i : MapperInputs) (v : MapperDraw) : MapperDraw :=
  if i.inOnesDigit then
    { v with scoreOnesDigitOn := true, address := i.fixedAddress 421 155 8 }
  else v

/-- "draw sprites": the first `always_comb` block. -/
def draw (i : MapperInputs) : MapperDraw :=
  i.drawOnesDigit (i.drawTensDigit (i.drawScore (i.drawLogo (i.drawGrid (i.drawBlock {})))))

/-- The output `address`. -/
def address (i : MapperInputs) : BitVec 19 := i.draw.address

end MapperInputs

/-! ## The colour -/

/-- What `sprite_color` or `decided_color` is connected to. -/
inductive ColorSource where
  | constant (c : BitVec 4)
  | rom (r : Rom)
  | board
  deriving DecidableEq

namespace MapperInputs

/-- `score_ones_digit_value` and `score_tens_digit_value`, four bits wide. -/
def scoreOnesDigitValue (i : MapperInputs) : BitVec 4 := (i.score.setWidth 32 % 10#32).setWidth 4
def scoreTensDigitValue (i : MapperInputs) : BitVec 4 := (i.score.setWidth 32 / 10#32).setWidth 4

/-- `case (score_*_digit_value)`; the tens digit may be above 9. -/
def digitSource (value : BitVec 4) : ColorSource :=
  if h : value.toNat < 10 then .rom (.digit ⟨value.toNat, h⟩) else .constant 8

/-- The priority chain of `sprite_color`. -/
def spriteSource (i : MapperInputs) : ColorSource :=
  let v := i.draw
  -- the grid comes first here, although it is drawn before the fixed regions
  if v.gridOn then .constant 10
  else if v.logoOn then .rom .tetrisLogo
  else if v.scoreOn then .rom .score
  else if v.scoreTensDigitOn then digitSource i.scoreTensDigitValue
  else if v.scoreOnesDigitOn then digitSource i.scoreOnesDigitValue
  else match drawOrder.find? v.blockOn with
    | some k => .rom (.block k)
    -- background
    | none => if i.inWell then .board else .constant 8

/-- `board[((DrawY-135)/9)][((DrawX-270)/9)]` -/
def boardLookup (i : MapperInputs) : BitVec 4 :=
  read i.undefinedRead i.board (gridRow i.drawY) (gridCol i.drawX)

/-- The value on a wire. -/
def value (i : MapperInputs) : ColorSource → BitVec 4
  | .constant c => c
  | .rom r => i.romData r
  | .board => i.boardLookup

/-- `sprite_color` -/
def spriteColor (i : MapperInputs) : BitVec 4 := i.value i.spriteSource

/-- Colours 0 and 9 let the board through. -/
def decidedSource (i : MapperInputs) : ColorSource :=
  if (i.spriteColor = 0 ∨ i.spriteColor = 9) ∧ i.inWell then .board else i.spriteSource

/-- `decided_color` -/
def decidedColor (i : MapperInputs) : BitVec 4 := i.value i.decidedSource

end MapperInputs

/-! ## Wired to the game -/

/-- The inputs of `color_mapper` for a pixel, as `tetris_top` connects them; the
ROM outputs are what the ROMs have been read to. -/
def Game.mapperInputs (s : Game) (drawX drawY : BitVec 10) (romData : Rom → BitVec 4)
    (undefinedRead : UndefinedRead) : MapperInputs where
  drawX := drawX
  drawY := drawY
  romData := romData
  choose := s.select.choose
  xPos := s.motion.blockXPos
  yPos := s.motion.blockYPos
  blockSizeX := s.select.blockSizeX
  blockSizeY := s.select.blockSizeY
  board := s.cells.board
  score := s.cells.score
  undefinedRead := undefinedRead

end Ece385.Tetris

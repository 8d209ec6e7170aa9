import Mathlib.Data.BitVec
import Mathlib.Logic.Function.Basic

/-!
# Tetris — signals shared by the game modules

The nets that `tetris_top` runs between `choose_block`, `rotate_block`,
`block_motion` and `board`: the 22×11 well of 4-bit colours, the nineteen
one-bit `choose_*` lines and the pixel-to-cell arithmetic that both
`block_motion` and `board` write out in front of every board access.

* `Board`, `read` — the packed array `logic [21:0][10:0][3:0] board`. A read
  outside the array has no defined value, so it goes to an oracle.
* `Choose`, `Shape` — the select lines, and the nineteen shapes they name.
* `gridRow`, `gridCol` — `(Y_Pos-135)/9` and `(X_Pos-270)/9`, computed in 32
  unsigned bits as the integer literals in the source force.
-/

namespace Ece385.Tetris

/-! ## The well -/

/-- `logic [21:0][10:0][3:0] board`; colour 0 is an empty cell. -/
abbrev Board := Fin 22 → Fin 11 → BitVec 4

/-- What reading `board` outside its bounds yields at each index pair. -/
abbrev UndefinedRead := BitVec 32 → BitVec 32 → BitVec 4

/-- `board[i][j]` with 32-bit index expressions. -/
def read (undef : UndefinedRead) (b : Board) (i j : BitVec 32) : BitVec 4 :=
  if h : i.toNat < 22 ∧ j.toNat < 11 then b ⟨i.toNat, h.1⟩ ⟨j.toNat, h.2⟩ else undef i j

/-- `board[i][j] <= v`; an assignment outside the bounds has no effect. -/
def write (b : Board) (i j : BitVec 32) (v : BitVec 4) : Board :=
  fun i' j' => if i.toNat = i' ∧ j.toNat = j' then v else b i' j'

/-- `(Y_Pos - 135) / 9` -/
def gridRow (yPos : BitVec 10) : BitVec 32 := (yPos.setWidth 32 - 135#32) / 9#32

/-- `(X_Pos - 270) / 9` -/
def gridCol (xPos : BitVec 10) : BitVec 32 := (xPos.setWidth 32 - 270#32) / 9#32

/-- The index expression `base + d` (or `base - |d|`) in 32 bits. -/
def offset (base : BitVec 32) (d : ℤ) : BitVec 32 := base + BitVec.ofInt 32 d

/-! ## The select lines -/

/-- The nineteen `choose_*` lines. -/
structure Choose where
  chooseO : Bool := false
  chooseIHoriz : Bool := false
  chooseIVert : Bool := false
  chooseZHoriz : Bool := false
  chooseZVert : Bool := false
  chooseSHoriz : Bool := false
  chooseSVert : Bool := false
  chooseJLeft : Bool := false
  chooseJUp : Bool := false
  chooseJRight : Bool := false
  chooseJDown : Bool := false
  chooseLLeft : Bool := false
  chooseLUp : Bool := false
  chooseLRight : Bool := false
  chooseLDown : Bool := false
  chooseTLeft : Bool := false
  chooseTUp : Bool := false
  chooseTRight : Bool := false
  chooseTDown : Bool := false
  deriving DecidableEq

/-- The nineteen shapes. -/
inductive Shape where
  | o
  | iHoriz | iVert
  | zHoriz | zVert
  | sHoriz | sVert
  | jLeft | jUp | jRight | jDown
  | lLeft | lUp | lRight | lDown
  | tLeft | tUp | tRight | tDown
  deriving DecidableEq

/-- The line that names shape `k`. -/
def Choose.line (c : Choose) : Shape → Bool
  | .o => c.chooseO
  | .iHoriz => c.chooseIHoriz
  | .iVert => c.chooseIVert
  | .zHoriz => c.chooseZHoriz
  | .zVert => c.chooseZVert
  | .sHoriz => c.chooseSHoriz
  | .sVert => c.chooseSVert
  | .jLeft => c.chooseJLeft
  | .jUp => c.chooseJUp
  | .jRight => c.chooseJRight
  | .jDown => c.chooseJDown
  | .lLeft => c.chooseLLeft
  | .lUp => c.chooseLUp
  | .lRight => c.chooseLRight
  | .lDown => c.chooseLDown
  | .tLeft => c.chooseTLeft
  | .tUp => c.chooseTUp
  | .tRight => c.chooseTRight
  | .tDown => c.chooseTDown

/-- Exactly the line of `k` high. -/
def Shape.only : Shape → Choose
  | .o => { chooseO := true }
  | .iHoriz => { chooseIHoriz := true }
  | .iVert => { chooseIVert := true }
  | .zHoriz => { chooseZHoriz := true }
  | .zVert => { chooseZVert := true }
  | .sHoriz => { chooseSHoriz := true }
  | .sVert => { chooseSVert := true }
  | .jLeft => { chooseJLeft := true }
  | .jUp => { chooseJUp := true }
  | .jRight => { chooseJRight := true }
  | .jDown => { chooseJDown := true }
  | .lLeft => { chooseLLeft := true }
  | .lUp => { chooseLUp := true }
  | .lRight => { chooseLRight := true }
  | .lDown => { chooseLDown := true }
  | .tLeft => { chooseTLeft := true }
  | .tUp => { chooseTUp := true }
  | .tRight => { chooseTRight := true }
  | .tDown => { chooseTDown := true }

/-- `k.only` raises the line of `k` and no other. -/
theorem line_only (k j : Shape) : k.only.line j = decide (j = k) := by
  cases k <;> cases j <;> rfl

end Ece385.Tetris

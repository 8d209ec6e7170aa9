import Ece385.Lib.Lanes

/-!
# The seven-segment displays

`hexdriver` of the AES project and `HexDriver` of the game are one table. It has no two equal
lines, so a row of displays can be read back.

* `hexDriver` — the segments of a digit, low for lit.
* `hexRow` — a number on a row of displays.
* `hexRow_injective` — what the row says about the number.
-/

namespace Ece385

/-- `hexdriver`, `HexDriver` -/
def hexDriver (input : BitVec 4) : BitVec 7 :=
  match input.toNat with
  | 0 => 0b1000000
  | 1 => 0b1111001
  | 2 => 0b0100100
  | 3 => 0b0110000
  | 4 => 0b0011001
  | 5 => 0b0010010
  | 6 => 0b0000010
  | 7 => 0b1111000
  | 8 => 0b0000000
  | 9 => 0b0010000
  | 10 => 0b0001000
  | 11 => 0b0000011
  | 12 => 0b1000110
  | 13 => 0b0100001
  | 14 => 0b0000110
  | _ => 0b0001110

theorem hexDriver_injective : Function.Injective hexDriver := by
  intro a b
  revert a b
  decide

/-- Digit `i` of `x`, counted from the right, on display `i`. -/
def hexRow {k : ℕ} (x : BitVec (k * 4)) (i : Fin k) : BitVec 7 :=
  hexDriver (x.extractLsb' (i * 4) 4)

theorem hexRow_injective {k : ℕ} : Function.Injective (hexRow (k := k)) := by
  intro x y hSame
  refine Lanes.lane_ext fun i => ?_
  exact hexDriver_injective (congrFun hSame i.rev)

end Ece385

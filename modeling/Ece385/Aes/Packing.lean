import Ece385.Aes.ByteField
import Ece385.Lib.Lanes

/-!
# AES — words and blocks

A word is four bytes, a block sixteen bytes or four words, the first one on top
throughout. `wordByte_blockWord` fits the two readings of a block together.
-/

namespace Ece385.Aes

/-- One proof for the numerals of `Fin 4` and of `Fin 16`, wherever they are written. -/
scoped instance neZeroFour : NeZero 4 := ⟨by decide⟩

scoped instance neZeroSixteen : NeZero 16 := ⟨by decide⟩

/-! ## Positions -/

/-- Byte `r` of word `c`, of sixteen. -/
def byteIndex (c r : Fin 4) : Fin 16 := ⟨4 * c + r, by omega⟩

/-- The word byte `i` is in. -/
def wordIndex (i : Fin 16) : Fin 4 := ⟨i / 4, by omega⟩

/-- Its place in the word. -/
def rowIndex (i : Fin 16) : Fin 4 := ⟨i % 4, by omega⟩

@[simp] theorem byteIndex_split (i : Fin 16) : byteIndex (wordIndex i) (rowIndex i) = i :=
  Fin.ext (Nat.div_add_mod i 4)

@[simp] theorem wordIndex_byteIndex (c r : Fin 4) : wordIndex (byteIndex c r) = c := by
  refine Fin.ext ?_
  simp only [wordIndex, byteIndex]
  omega

@[simp] theorem rowIndex_byteIndex (c r : Fin 4) : rowIndex (byteIndex c r) = r := by
  refine Fin.ext ?_
  simp only [rowIndex, byteIndex]
  omega

/-! ## Words -/

/-- Byte `r` of a word. -/
def wordByte (w : BitVec 32) (r : Fin 4) : Byte := @Lanes.lane 8 4 w r

/-- The word with these bytes. -/
def ofBytes (b : Fin 4 → Byte) : BitVec 32 := @Lanes.join 8 4 b

@[simp] theorem wordByte_ofBytes (b : Fin 4 → Byte) : wordByte (ofBytes b) = b :=
  funext (Lanes.lane_join b)

@[simp] theorem ofBytes_wordByte (w : BitVec 32) : ofBytes (wordByte w) = w :=
  @Lanes.join_lane 8 4 w

theorem word_ext {v w : BitVec 32} (h : wordByte v = wordByte w) : v = w := by
  rw [← ofBytes_wordByte v, h, ofBytes_wordByte]

theorem wordByte_xor (v w : BitVec 32) (r : Fin 4) :
    wordByte (v ^^^ w) r = wordByte v r ^^^ wordByte w r := @Lanes.lane_xor 8 4 v w r

/-! ## Blocks -/

/-- Byte `i` of a block. -/
def blockByte (x : BitVec 128) (i : Fin 16) : Byte := @Lanes.lane 8 16 x i

/-- The block with these bytes. -/
def ofBlockBytes (b : Fin 16 → Byte) : BitVec 128 := @Lanes.join 8 16 b

/-- Word `i` of a block. -/
def blockWord (x : BitVec 128) (i : Fin 4) : BitVec 32 := @Lanes.lane 32 4 x i

/-- The block with these words. -/
def ofWords (w : Fin 4 → BitVec 32) : BitVec 128 := @Lanes.join 32 4 w

@[simp] theorem blockByte_ofBlockBytes (b : Fin 16 → Byte) : blockByte (ofBlockBytes b) = b :=
  funext (Lanes.lane_join b)

@[simp] theorem blockWord_ofWords (w : Fin 4 → BitVec 32) : blockWord (ofWords w) = w :=
  funext (Lanes.lane_join w)

@[simp] theorem ofWords_blockWord (x : BitVec 128) : ofWords (blockWord x) = x :=
  @Lanes.join_lane 32 4 x

theorem blockByte_ext {x y : BitVec 128} (h : ∀ i, blockByte x i = blockByte y i) : x = y :=
  @Lanes.lane_ext 8 16 x y h

theorem blockByte_xor (x y : BitVec 128) (i : Fin 16) :
    blockByte (x ^^^ y) i = blockByte x i ^^^ blockByte y i := @Lanes.lane_xor 8 16 x y i

/-- Byte `r` of word `c` is byte `4 * c + r` of the block. -/
theorem wordByte_blockWord (x : BitVec 128) (c r : Fin 4) :
    wordByte (blockWord x c) r = blockByte x (byteIndex c r) := by
  refine BitVec.eq_of_getLsbD_eq fun j hj => ?_
  have hIndex : c.rev.val * 32 + (r.rev * 8 + j) = (byteIndex c r).rev.val * 8 + j := by
    simp only [Fin.val_rev, byteIndex]
    omega
  rw [wordByte, blockWord, blockByte, Lanes.getLsbD_lane _ _ hj, Lanes.getLsbD_lane _ _ hj,
    Lanes.getLsbD_lane _ _ (by omega), hIndex]

/-- The bytes of a block of words. -/
theorem blockByte_ofWords (w : Fin 4 → BitVec 32) (i : Fin 16) :
    blockByte (ofWords w) i = wordByte (w (wordIndex i)) (rowIndex i) := by
  have hByte := wordByte_blockWord (ofWords w) (wordIndex i) (rowIndex i)
  rw [blockWord_ofWords, byteIndex_split] at hByte
  exact hByte.symm

end Ece385.Aes

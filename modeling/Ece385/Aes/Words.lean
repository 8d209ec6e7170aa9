import Ece385.Aes.Packing
import Ece385.Aes.Software

/-!
# AES — words and bytes

What the word operations of `main.c` do to the four bytes of a word, the first
byte on top. The shifts and masks of `RotWord` and `SubWord` come out as a
rotation and a byte-by-byte substitution.

* `addRoundKey_eq`, `mixColumns_column` — the steps of a round that read words or
  columns, byte by byte.
* `wordByte_bigEndian`, `wordByte_rotWord`, `wordByte_subWord` — each operation by
  its bytes.
-/

open CountedLoop

namespace Ece385.Aes.Software

theorem bigEndian_eq (b : Fin 4 → Byte) : bigEndian (b 0) (b 1) (b 2) (b 3) = ofBytes b := by
  refine BitVec.eq_of_toNat_eq ?_
  -- both are the value of the bytes in base 256
  have hSum : (ofBytes b).toNat =
      (((b 0).toNat * 2 ^ 8 + (b 1).toNat) * 2 ^ 8 + (b 2).toNat) * 2 ^ 8 + (b 3).toNat := by
    simp only [ofBytes, Lanes.toNat_join_succ]
    simp [Lanes.join, Fin.last]
  rw [hSum, bigEndian]
  simp [BitVec.toNat_add, Nat.shiftLeft_eq]
  omega

/-- A byte-wide mask leaves one byte of the word, in place. -/
theorem mask_eq (w : BitVec 32) (k : ℕ) :
    ((0x000000FF : BitVec 32) <<< k) &&& w = ((w >>> k).setWidth 8).setWidth 32 <<< k := by
  have hMask : (0x000000FF : BitVec 32) = (BitVec.allOnes 8).setWidth 32 := rfl
  refine BitVec.eq_of_getLsbD_eq fun i hi => ?_
  rw [hMask]
  simp only [BitVec.getLsbD_and, BitVec.getLsbD_shiftLeft, BitVec.getLsbD_setWidth,
    BitVec.getLsbD_allOnes, BitVec.getLsbD_ushiftRight, hi, decide_true, Bool.true_and]
  by_cases hLow : i < k
  · simp [hLow]
  · rw [Nat.add_sub_cancel' (Nat.le_of_not_lt hLow)]
    simp only [Bool.and_assoc]

/-- A byte shifted up within the word comes back down unchanged. -/
theorem shift_back (b : Byte) {k : ℕ} (hk : k ≤ 24) :
    (b.setWidth 32 <<< k) >>> k = b.setWidth 32 := by
  refine BitVec.eq_of_getLsbD_eq fun i hi => ?_
  by_cases hByte : i < 8
  · have hFit : k + i < 32 := by omega
    simp [hFit, hi]
  · simp [BitVec.getLsbD_of_ge b i (Nat.le_of_not_lt hByte)]

theorem rotWord_eq (w : BitVec 32) :
    rotWord w = bigEndian (wordByte w 1) (wordByte w 2) (wordByte w 3) (wordByte w 0) := by
  have hLow := mask_eq w 0
  rw [BitVec.shiftLeft_zero, BitVec.ushiftRight_zero, BitVec.shiftLeft_zero] at hLow
  unfold rotWord bigEndian
  dsimp only
  rw [mask_eq w 24, mask_eq w 16, mask_eq w 8, hLow, shift_back _ (Nat.le_refl 24),
    ← BitVec.shiftLeft_add, ← BitVec.shiftLeft_add]
  rfl

/-- The table index of a byte; the test for the zero word changes nothing. -/
theorem aesIndex_eq (w : BitVec 32) {k : ℕ} (hk : k ≤ 24) :
    (if w = 0 then 0 else (((0x000000FF : BitVec 32) <<< k) &&& w) >>> k) =
      ((w >>> k).setWidth 8).setWidth 32 := by
  rw [mask_eq, shift_back _ hk]
  split_ifs with hw
  · subst hw
    simp
  · rfl

theorem subWord_eq (w : BitVec 32) :
    subWord w = bigEndian (aesSbox (wordByte w 0).toNat) (aesSbox (wordByte w 1).toNat)
      (aesSbox (wordByte w 2).toNat) (aesSbox (wordByte w 3).toNat) := by
  have hIndex : ∀ i < 4, ((if w = 0 then 0 else
      (((0x000000FF : BitVec 32) <<< (i * 8)) &&& w) >>> (i * 8)) : BitVec 32).toNat =
        ((w >>> (i * 8)).setWidth 8).toNat := by
    intro i hi
    rw [aesIndex_eq w (by omega), BitVec.toNat_setWidth_of_le (by decide)]
  unfold subWord bigEndian
  simp only [forLoop, iterations, Nat.zero_add, hIndex, Nat.reduceLT]
  simp only [Nat.zero_mul, BitVec.shiftLeft_zero, BitVec.ofNat_eq_ofNat, BitVec.zero_add]
  -- the loop adds the bytes from the lowest up, `bigEndian` from the top down
  have hOrder : ∀ b0 b1 b2 b3 : BitVec 32, b3 + b2 + b1 + b0 = b0 + b1 + b2 + b3 := by
    intros
    ac_rfl
  exact hOrder _ _ _ _

theorem wordByte_bigEndian (b : Fin 4 → Byte) :
    wordByte (bigEndian (b 0) (b 1) (b 2) (b 3)) = b := by
  rw [bigEndian_eq, wordByte_ofBytes]

/-- `RotWord` moves every byte one place up. -/
theorem wordByte_rotWord (w : BitVec 32) (r : Fin 4) :
    wordByte (rotWord w) r = wordByte w (r + 1) := by
  rw [rotWord_eq]
  exact congrFun (wordByte_bigEndian fun r => wordByte w (r + 1)) r

/-- `SubWord` substitutes every byte. -/
theorem wordByte_subWord (w : BitVec 32) (r : Fin 4) :
    wordByte (subWord w) r = aesSbox (wordByte w r).toNat := by
  rw [subWord_eq]
  exact congrFun (wordByte_bigEndian fun r => aesSbox (wordByte w r).toNat) r

/-- Word `i` of 16 bytes. -/
theorem wordByte_wordAt (bytes : Vector Byte 16) (i r : Fin 4) :
    wordByte (wordAt bytes i) r = bytes.get (byteIndex i r) :=
  congrFun (wordByte_bigEndian fun r => bytes.get (byteIndex i r)) r

/-! ## The state and the round keys as blocks -/

/-- The state as 128 bits, packed as `msg_enc`. -/
def pack (s : State) : BitVec 128 := ofWords (wordAt s)

/-- The round key of 128 bits that starts at word `offset`. -/
def keyBlock {n : ℕ} (expandedKey : Vector (BitVec 32) n) (offset : ℕ) : BitVec 128 :=
  ofWords fun c => expandedKey.getD (c + offset) 0

/-- The bytes of a block, as `main.c` holds them. -/
def unpack (x : BitVec 128) : Vector Byte 16 := Vector.ofFn (blockByte x)

theorem blockByte_pack (s : State) (i : Fin 16) : blockByte (pack s) i = s.get i := by
  rw [pack, blockByte_ofWords, wordByte_wordAt, byteIndex_split]

theorem pack_unpack (x : BitVec 128) : pack (unpack x) = x := by
  refine blockByte_ext fun i => ?_
  rw [blockByte_pack]
  exact Vector.getElem_ofFn i.isLt

/-! ## Columns of the state -/

/-- Every byte of the state is added the matching byte of the round key. -/
theorem addRoundKey_eq {n : ℕ} (s : State) (expandedKey : Vector (BitVec 32) n) (offset : ℕ)
    (j : Fin 16) : (addRoundKey s expandedKey offset).get j =
      s.get j ^^^ wordByte (expandedKey.getD (wordIndex j + offset) 0) (rowIndex j) := by
  have hTruncate : ∀ (b : Byte) (w : BitVec 32),
      (b.setWidth 32 ^^^ w).setWidth 8 = b ^^^ w.setWidth 8 := by
    intro b w
    simp
  refine (Vector.getElem_ofFn j.isLt).trans ?_
  fin_cases j <;> exact hTruncate _ _

/-- Column `c` after `MixColumns`, from column `c` before. -/
theorem mixColumns_column (s : State) (c : Fin 4) :
    (mixColumns s).get (byteIndex c 0) = gfMul2 (s.get (byteIndex c 0)) ^^^
      gfMul3 (s.get (byteIndex c 1)) ^^^ s.get (byteIndex c 2) ^^^ s.get (byteIndex c 3) ∧
    (mixColumns s).get (byteIndex c 1) = s.get (byteIndex c 0) ^^^
      gfMul2 (s.get (byteIndex c 1)) ^^^ gfMul3 (s.get (byteIndex c 2)) ^^^
      s.get (byteIndex c 3) ∧
    (mixColumns s).get (byteIndex c 2) = s.get (byteIndex c 0) ^^^ s.get (byteIndex c 1) ^^^
      gfMul2 (s.get (byteIndex c 2)) ^^^ gfMul3 (s.get (byteIndex c 3)) ∧
    (mixColumns s).get (byteIndex c 3) = gfMul3 (s.get (byteIndex c 0)) ^^^
      s.get (byteIndex c 1) ^^^ s.get (byteIndex c 2) ^^^ gfMul2 (s.get (byteIndex c 3)) := by
  -- the source writes the columns out one by one
  fin_cases c <;> exact ⟨rfl, rfl, rfl, rfl⟩

/-! ## Multiples of a byte -/

theorem xtime_eq_double : ∀ x : Byte, xtime x = BinaryField.double 0x1b#8 x := by
  decide +kernel

theorem toGF_gfMul2 (x : Byte) : toGF (gfMul2 x) = AdjoinRoot.root aesPoly * toGF x := by
  rw [gfMul2, xtime_eq_double, toGF_double]

theorem toGF_gfMul3 (x : Byte) : toGF (gfMul3 x) = (AdjoinRoot.root aesPoly + 1) * toGF x := by
  rw [gfMul3, toGF_xor, xtime_eq_double, toGF_double]
  ring

end Ece385.Aes.Software

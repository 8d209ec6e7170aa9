import Ece385.Aes.Hardware
import Ece385.Aes.Words
import Mathlib.Tactic.LinearCombination

/-!
# AES — the hardware steps undo the software rounds

The state of `main.c` packed into 128 bits, top byte first, as `encrypt` packs
`msg_enc`. Each hardware module takes the packed result of the matching software
step back to the packed state before it; so a round is undone by the inverse
steps with the same round key, and a run of rounds by the inverse rounds with the
keys in reverse order.

Main results:

* `invMixColumns_wordAt` — `{0e, 0b, 0d, 09}` undoes `{02, 03, 01, 01}` on a column.
* `invRound_round`, `invFinalRound_finalRound` — one round of either kind.
* `inverseCipher_msgEnc` — the ciphertext is taken back to the message.
-/

open CountedLoop

namespace Ece385.Aes.Hardware

/-! ## The order of the steps -/

/-- `InvSubBytes` on every byte. -/
def invSubBytesBlock (x : BitVec 128) : BitVec 128 :=
  ofBlockBytes fun i => invSubBytes (blockByte x i)

/-- `InvMixColumns` on every word. -/
def invMixColumnsBlock (x : BitVec 128) : BitVec 128 :=
  ofWords fun i => invMixColumns (blockWord x i)

/-- The inverse of a round with round key `k`. -/
def invRound (x k : BitVec 128) : BitVec 128 :=
  invSubBytesBlock (invShiftRows (invMixColumnsBlock (x ^^^ k)))

/-- The inverse of the last round. -/
def invFinalRound (x k : BitVec 128) : BitVec 128 :=
  invSubBytesBlock (invShiftRows (x ^^^ k))

/-- Decryption by the inverse rounds, with round keys `keys 0` to `keys 10`. -/
def inverseCipher (keys : ℕ → BitVec 128) (x : BitVec 128) : BitVec 128 :=
  (List.range 9).reverse.foldl (fun x i => invRound x (keys (i + 1)))
    (invFinalRound x (keys 10)) ^^^ keys 0

/-- Only the round keys 0 to 10 matter. -/
theorem inverseCipher_congr {keys keys' : ℕ → BitVec 128} (x : BitVec 128)
    (hKeys : ∀ i ≤ 10, keys i = keys' i) : inverseCipher keys x = inverseCipher keys' x := by
  have hRounds : ∀ y, (List.range 9).reverse.foldl (fun x i => invRound x (keys (i + 1))) y =
      (List.range 9).reverse.foldl (fun x i => invRound x (keys' (i + 1))) y := by
    intro y
    refine List.foldl_ext _ _ y fun x i hi => ?_
    have hLt : i < 9 := by simpa using hi
    rw [hKeys (i + 1) (by omega)]
  rw [inverseCipher, inverseCipher, hKeys 10 (Nat.le_refl 10), hKeys 0 (Nat.zero_le 10), hRounds]

end Ece385.Aes.Hardware

namespace Ece385.Aes.Software

open Hardware (invSubBytes invSubBytesBlock invMixColumns invMixColumnsBlock invShiftRows
  invRound invFinalRound inverseCipher gfMul9 gfMulB gfMulD gfMulE)

/-! ## The single steps -/

theorem invSubBytes_aesSbox : ∀ b : Byte, invSubBytes (aesSbox b.toNat) = b := by
  decide +kernel

theorem invSubBytesBlock_subBytes (s : State) :
    invSubBytesBlock (pack (subBytes s)) = pack s := by
  refine blockByte_ext fun i => ?_
  have hByte : (subBytes s).get i = aesSbox (s.get i).toNat := Vector.getElem_map _ i.isLt
  rw [invSubBytesBlock, blockByte_ofBlockBytes, blockByte_pack, blockByte_pack, hByte,
    invSubBytes_aesSbox]

theorem invShiftRows_shiftRows (s : State) : invShiftRows (pack (shiftRows s)) = pack s := by
  refine blockByte_ext fun i => ?_
  rw [invShiftRows, blockByte_ofBlockBytes]
  simp only [blockByte_pack]
  fin_cases i <;> rfl

theorem pack_addRoundKey {n : ℕ} (s : State) (expandedKey : Vector (BitVec 32) n) (offset : ℕ) :
    pack (addRoundKey s expandedKey offset) = pack s ^^^ keyBlock expandedKey offset := by
  refine blockByte_ext fun i => ?_
  rw [blockByte_xor, keyBlock, blockByte_ofWords, blockByte_pack, blockByte_pack, addRoundKey_eq]

/-! ## MixColumns -/

/-- The first row of the product of the two matrices, `x` being `{02}`. The other
rows are this one with the column rotated. -/
theorem mix_inverse {R : Type*} [CommRing R] [CharP R 2] (x a b c d : R) :
    (x ^ 3 + x ^ 2 + x) * (x * a + (x + 1) * b + c + d) +
      (x ^ 3 + x + 1) * (a + x * b + (x + 1) * c + d) +
      (x ^ 3 + x ^ 2 + 1) * (a + b + x * c + (x + 1) * d) +
      (x ^ 3 + 1) * ((x + 1) * a + b + c + x * d) = a := by
  have hTwo : (2 : R) = 0 := CharTwo.two_eq_zero
  linear_combination ((x ^ 4 + 2 * x ^ 3 + x ^ 2 + x + 1) * a +
    (x ^ 4 + 2 * x ^ 3 + 2 * x ^ 2 + x + 1) * b +
    (x ^ 4 + 2 * x ^ 3 + x ^ 2 + 2 * x + 1) * (c + d)) * hTwo

theorem hardware_xtime_eq_double : ∀ x : Byte, Hardware.xtime x = BinaryField.double 0x1b#8 x := by
  decide +kernel

theorem toGF_gfMul9 (b : Byte) :
    toGF (gfMul9 b) = (AdjoinRoot.root aesPoly ^ 3 + 1) * toGF b := by
  simp only [gfMul9, hardware_xtime_eq_double, toGF_xor, toGF_double]
  ring

theorem toGF_gfMulB (b : Byte) :
    toGF (gfMulB b) = (AdjoinRoot.root aesPoly ^ 3 + AdjoinRoot.root aesPoly + 1) * toGF b := by
  simp only [gfMulB, hardware_xtime_eq_double, toGF_xor, toGF_double]
  ring

theorem toGF_gfMulD (b : Byte) :
    toGF (gfMulD b) = (AdjoinRoot.root aesPoly ^ 3 + AdjoinRoot.root aesPoly ^ 2 + 1) * toGF b := by
  simp only [gfMulD, hardware_xtime_eq_double, toGF_xor, toGF_double]
  ring

theorem toGF_gfMulE (b : Byte) : toGF (gfMulE b) =
    (AdjoinRoot.root aesPoly ^ 3 + AdjoinRoot.root aesPoly ^ 2 + AdjoinRoot.root aesPoly) *
      toGF b := by
  simp only [gfMulE, hardware_xtime_eq_double, toGF_xor, toGF_double]
  ring

theorem invMixColumns_wordAt (s : State) (c : Fin 4) :
    invMixColumns (wordAt (mixColumns s) c) = wordAt s c := by
  obtain ⟨h0, h1, h2, h3⟩ := mixColumns_column s c
  have hRow := @mix_inverse GF256 _ _ (AdjoinRoot.root aesPoly)
  refine word_ext (funext fun r => toGF_injective ?_)
  rw [invMixColumns, wordByte_ofBytes]
  simp only [wordByte_wordAt]
  fin_cases r <;>
    simp [h0, h1, h2, h3, toGF_xor, toGF_gfMul2, toGF_gfMul3, toGF_gfMul9, toGF_gfMulB,
      toGF_gfMulD, toGF_gfMulE]
  all_goals
    generalize toGF (s.get (byteIndex c 0)) = a0 at *
    generalize toGF (s.get (byteIndex c 1)) = a1 at *
    generalize toGF (s.get (byteIndex c 2)) = a2 at *
    generalize toGF (s.get (byteIndex c 3)) = a3 at *
  -- the other rows up to the order of the summands
  · exact hRow a0 a1 a2 a3
  · linear_combination hRow a1 a2 a3 a0
  · linear_combination hRow a2 a3 a0 a1
  · linear_combination hRow a3 a0 a1 a2

theorem invMixColumnsBlock_mixColumns (s : State) :
    invMixColumnsBlock (pack (mixColumns s)) = pack s := by
  rw [invMixColumnsBlock, pack, blockWord_ofWords]
  exact congrArg ofWords (funext (invMixColumns_wordAt s))

/-! ## Rounds -/

theorem invRound_round {n : ℕ} (expandedKey : Vector (BitVec 32) n) (offset : ℕ) (s : State) :
    invRound (pack (round expandedKey offset s)) (keyBlock expandedKey offset) = pack s := by
  rw [round, pack_addRoundKey, invRound, BitVec.xor_assoc, BitVec.xor_self, BitVec.xor_zero,
    invMixColumnsBlock_mixColumns, invShiftRows_shiftRows, invSubBytesBlock_subBytes]

theorem invFinalRound_finalRound {n : ℕ} (expandedKey : Vector (BitVec 32) n) (offset : ℕ)
    (s : State) :
    invFinalRound (pack (finalRound expandedKey offset s)) (keyBlock expandedKey offset) =
      pack s := by
  rw [finalRound, pack_addRoundKey, invFinalRound, BitVec.xor_assoc, BitVec.xor_self,
    BitVec.xor_zero, invShiftRows_shiftRows, invSubBytesBlock_subBytes]

/-- What `encrypt` leaves in `msg_enc` is decrypted with its own round keys. -/
theorem inverseCipher_msgEnc (msgAscii keyAscii : Vector Byte 32)
    (uninit : Vector (BitVec 32) 44) :
    inverseCipher (fun i => keyBlock (keyExpansion (readBytes keyAscii) uninit) (4 * i))
      (ofWords fun i => (encrypt msgAscii keyAscii uninit).1[i]) = pack (readBytes msgAscii) := by
  have hRound : ∀ (e : Vector (BitVec 32) 44) (s : State) (i : ℕ),
      invRound (pack (round e ((i + 1) * 4) s)) (keyBlock e (4 * (i + 1))) = pack s := by
    intro e s i
    rw [Nat.mul_comm 4]
    exact invRound_round e ((i + 1) * 4) s
  have hWords : ∀ s : State, (ofWords fun i => (Vector.ofFn (wordAt s))[i]) = pack s := by
    intro s
    refine congrArg ofWords (funext fun i => ?_)
    rw [Fin.getElem_fin, Vector.getElem_ofFn]
  simp only [encrypt, hWords, encryptedState]
  generalize keyExpansion (readBytes keyAscii) uninit = e
  -- the last round first, then the nine rounds of the loop, then the first round key
  have hFinal := invFinalRound_finalRound e (4 * 10)
  rw [inverseCipher, hFinal, forLoop_eq_foldl, ← List.range_eq_range', foldl_undo (hRound e),
    pack_addRoundKey, BitVec.xor_assoc, BitVec.xor_self, BitVec.xor_zero]

/-- Software rounds with any round keys, undone by the hardware steps with the keys
in reverse order, and the same with the last kind of round; so the ciphertext of
`encrypt` is taken back to the message. -/
theorem hardware_undoes_software :
    (∀ (s : State) (ks : List (Vector (BitVec 32) 4)),
      ks.reverse.foldl (fun x k => invRound x (ofWords fun c => k[c]))
        (pack (ks.foldl (fun s k => round k 0 s) s)) = pack s) ∧
    (∀ (s : State) (ks : List (Vector (BitVec 32) 4)),
      ks.reverse.foldl (fun x k => invFinalRound x (ofWords fun c => k[c]))
        (pack (ks.foldl (fun s k => finalRound k 0 s) s)) = pack s) ∧
    ∀ (msgAscii keyAscii : Vector Byte 32) (uninit : Vector (BitVec 32) 44),
      inverseCipher (fun i => keyBlock (keyExpansion (readBytes keyAscii) uninit) (4 * i))
        (ofWords fun i => (encrypt msgAscii keyAscii uninit).1[i]) =
          pack (readBytes msgAscii) := by
  have hKey : ∀ k : Vector (BitVec 32) 4, (ofWords fun c => k[c]) = keyBlock k 0 := by
    intro k
    refine congrArg ofWords (funext fun c => ?_)
    simp [Vector.getD]
  refine ⟨fun s ks => foldl_undo (fun s k => ?_) ks s, fun s ks => foldl_undo (fun s k => ?_) ks s,
    inverseCipher_msgEnc⟩
  · rw [hKey]
    exact invRound_round k 0 s
  · rw [hKey]
    exact invFinalRound_finalRound k 0 s

end Ece385.Aes.Software

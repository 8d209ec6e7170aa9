import Ece385.Aes.Packing
import Ece385.Lib.CyclicProduct
import Mathlib.Data.Fin.VecNotation

/-!
# AES — the reference cipher

AES-128 by its algebra: the S-box inverts in GF(2^8) and applies an affine map
over GF(2), MixColumns multiplies a column, as a polynomial over GF(2^8), by
`{03}x^3 + {01}x^2 + {01}x + {02}` modulo `x^4 + 1`, and the key schedule adds
the round constants `x^(i-1)`. Nothing here is a table; `sBox_eq` and
`toGF_mixColumns` say what the operations come to, byte by byte.
-/

open Polynomial

namespace Ece385.Aes.Fips197

/-- The state: row, then column. -/
abbrev State := Fin 4 → Fin 4 → Byte

/-- Four bytes, the first one on top. -/
abbrev Word := Fin 4 → Byte

/-! ## The S-box -/

/-- The affine map of the S-box. -/
def affine (b : Byte) : Byte :=
  b ^^^ b.rotateLeft 1 ^^^ b.rotateLeft 2 ^^^ b.rotateLeft 3 ^^^ b.rotateLeft 4 ^^^ 0x63

/-- Bit `i` of the affine map is `b_i + b_{i+4} + b_{i+5} + b_{i+6} + b_{i+7} + c_i`,
the indices modulo 8 and `c = {63}`. -/
theorem getLsbD_affine : ∀ (b : Byte) (i : Fin 8), (affine b).getLsbD i =
    (b.getLsbD i ^^ b.getLsbD ((i + 4) % 8) ^^ b.getLsbD ((i + 5) % 8) ^^
      b.getLsbD ((i + 6) % 8) ^^ b.getLsbD ((i + 7) % 8) ^^ (0x63#8).getLsbD i) := by
  decide +kernel

/-- Invert in GF(2^8), 0 going to 0, and apply the affine map. -/
noncomputable def sBox (b : Byte) : Byte := affine (ofGF (toGF b)⁻¹)

theorem sBox_eq (b : Byte) : sBox b = affine (inverse b) := by
  rw [sBox, ← toGF_inverse, ofGF_toGF]

/-! ## The steps of a round -/

noncomputable def subBytes (s : State) : State := fun r c => sBox (s r c)

/-- Row `r` is rotated `r` places to the left. -/
def shiftRows (s : State) : State := fun r c => s r (c + r)

/-- The column `s_3 x^3 + s_2 x^2 + s_1 x + s_0`. -/
noncomputable def columnPoly (s : State) (c : Fin 4) : GF256[X] :=
  CyclicProduct.ofCoeffs fun r => toGF (s r c)

/-- `{03}x^3 + {01}x^2 + {01}x + {02}` -/
noncomputable def mixPoly : GF256[X] :=
  C (toGF 0x03) * X ^ 3 + C (toGF 0x01) * X ^ 2 + C (toGF 0x01) * X + C (toGF 0x02)

noncomputable def mixColumns (s : State) : State :=
  fun r c => ofGF (((mixPoly * columnPoly s c) %ₘ (X ^ 4 + 1)).coeff r)

/-- Word `c` of the round key is added to column `c`. -/
def addRoundKey (s : State) (w : Fin 4 → Word) : State := fun r c => s r c ^^^ w c r

/-! ## The key schedule -/

def rotWord (w : Word) : Word := fun r => w (r + 1)

noncomputable def subWord (w : Word) : Word := fun r => sBox (w r)

/-- `[x^(i-1), {00}, {00}, {00}]` -/
noncomputable def rcon (i : ℕ) : Word := ![ofGF (AdjoinRoot.root aesPoly ^ (i - 1)), 0, 0, 0]

/-- The words `w[i]` of the expanded key. -/
noncomputable def keyExpansion (key : Vector Byte 16) (i : ℕ) : Word :=
  if h : i < 4 then fun r => key[4 * i + r.val]
  else if i % 4 = 0 then fun r => keyExpansion key (i - 4) r ^^^
    (subWord (rotWord (keyExpansion key (i - 1))) r ^^^ rcon (i / 4) r)
  else fun r => keyExpansion key (i - 4) r ^^^ keyExpansion key (i - 1) r
termination_by i

/-- The four words of round key `i`. -/
noncomputable def roundKey (key : Vector Byte 16) (i : ℕ) : Fin 4 → Word :=
  fun c => keyExpansion key (4 * i + c)

/-- The first word of a round key. -/
theorem roundKey_zero_word (key : Vector Byte 16) (i : ℕ) (r : Fin 4) :
    roundKey key (i + 1) 0 r = roundKey key i 0 r ^^^
      (subWord (rotWord (roundKey key i 3)) r ^^^ rcon (i + 1) r) := by
  have hBack : 4 * (i + 1) + (0 : Fin 4) - 4 = 4 * i + (0 : Fin 4) := by
    simp only [Fin.val_zero]
    omega
  have hPrev : 4 * (i + 1) + (0 : Fin 4) - 1 = 4 * i + (3 : Fin 4) := by
    simp only [Fin.val_zero, Fin.isValue]
    omega
  have hRound : (4 * (i + 1) + (0 : Fin 4)) / 4 = i + 1 := by
    simp only [Fin.val_zero]
    omega
  unfold roundKey
  rw [keyExpansion, dif_neg (by omega), if_pos (by simp), hBack, hPrev, hRound]

/-- Any other word of a round key is the sum of the word before it and the one four
places back. -/
theorem roundKey_succ_word (key : Vector Byte 16) (i : ℕ) (c : Fin 3) (r : Fin 4) :
    roundKey key (i + 1) c.succ r =
      roundKey key i c.succ r ^^^ roundKey key (i + 1) c.castSucc r := by
  have hBack : 4 * (i + 1) + c.succ.val - 4 = 4 * i + c.succ.val := by omega
  have hPrev : 4 * (i + 1) + c.succ.val - 1 = 4 * (i + 1) + c.castSucc.val := by
    simp only [Fin.val_succ, Fin.val_castSucc]
    omega
  have hMod : ¬ (4 * (i + 1) + c.succ.val) % 4 = 0 := by
    simp only [Fin.val_succ]
    omega
  conv_lhs => rw [roundKey, keyExpansion, dif_neg (by omega), if_neg hMod, hBack, hPrev]
  rfl

/-! ## The cipher -/

/-- `s[r, c] = in[r + 4c]` -/
def toState (bytes : Vector Byte 16) : State := fun r c => bytes.get (byteIndex c r)

/-- `out[r + 4c] = s[r, c]` -/
def ofState (s : State) : Vector Byte 16 :=
  Vector.ofFn fun i => s (rowIndex i) (wordIndex i)

/-- Rounds 1 to `n` of the nine rounds with MixColumns. -/
noncomputable def rounds (key : Vector Byte 16) (s : State) : ℕ → State
  | 0 => addRoundKey s (roundKey key 0)
  | n + 1 => addRoundKey (mixColumns (shiftRows (subBytes (rounds key s n)))) (roundKey key (n + 1))

/-- AES-128 encryption of 16 bytes under a 16-byte key. -/
noncomputable def cipher (message key : Vector Byte 16) : Vector Byte 16 :=
  ofState (addRoundKey (shiftRows (subBytes (rounds key (toState message) 9))) (roundKey key 10))

theorem ofState_toState (bytes : Vector Byte 16) : ofState (toState bytes) = bytes := by
  refine Vector.ext fun i hi => ?_
  rw [ofState, Vector.getElem_ofFn, toState, byteIndex_split]
  rfl

/-! ## MixColumns as a matrix -/

theorem toGF_two : toGF 0x02 = AdjoinRoot.root aesPoly := by
  rw [show (0x02 : Byte) = BinaryField.double 0x1b#8 1#8 from rfl, toGF_double, toGF_one, mul_one]

theorem toGF_three : toGF 0x03 = AdjoinRoot.root aesPoly + 1 := by
  rw [show (0x03 : Byte) = 0x02 ^^^ 1#8 from rfl, toGF_xor, toGF_two, toGF_one]

theorem mixPoly_eq : mixPoly =
    CyclicProduct.ofCoeffs ![toGF 0x02, toGF 0x01, toGF 0x01, toGF 0x03] := by
  rw [CyclicProduct.ofCoeffs, mixPoly]
  simp [Fin.sum_univ_four]
  ring

/-- Each byte of the product is the row of the MixColumns matrix applied to the
column. -/
theorem toGF_mixColumns (s : State) (r c : Fin 4) :
    toGF (mixColumns s r c) =
      toGF 0x02 * toGF (s r c) + toGF (s (r - 1) c) + toGF (s (r - 2) c) +
        toGF 0x03 * toGF (s (r - 3) c) := by
  -- minus is plus, so the modulus is that of the cyclic product
  have hModulus : (X ^ 4 + 1 : GF256[X]) = X ^ 4 - 1 := (CharTwo.sub_eq_add _ _).symm
  rw [mixColumns, toGF_ofGF, hModulus, mixPoly_eq, columnPoly,
    CyclicProduct.coeff_mul_modByMonic, Fin.sum_univ_four]
  simp [toGF_one]

end Ece385.Aes.Fips197

import Ece385.Aes.Fips197
import Ece385.Aes.Words
import Mathlib.Data.List.GetD

/-!
# AES — the software cipher is AES-128

Each step of `main.c` is the reference step on the state its sixteen bytes
stand for, column by column: the table is the algebraic S-box, `MixColumns` the
polynomial product, `KeyExpansion` the key schedule word by word. The round loop
then follows the reference rounds, whatever the array for the expanded key held.

Main results:

* `keyExpansion_eq` — the 44 words of the expanded key.
* `encrypt_eq` — from hexadecimal texts to the words of the ciphertext.
-/

open CountedLoop

namespace Ece385.Aes

/-- The four words of 16 bytes. -/
def wordsOf (bytes : Vector Byte 16) : Vector (BitVec 32) 4 :=
  Vector.ofFn fun i => ofBytes fun r => bytes.get (byteIndex i r)

namespace Software

/-! ## Texts -/

/-- The hexadecimal digit of a value, as a character code. -/
def hexDigit (upper : Bool) (value : BitVec 4) : Byte :=
  if value.toNat < 10 then ascii '0' + value.setWidth 8
  else ascii (if upper then 'A' else 'a') + (value.setWidth 8 - 10)

/-- Sixteen bytes in hexadecimal, the case of every digit chosen freely. -/
def hexText (bytes : Vector Byte 16) (upper : Fin 32 → Bool) : Vector Byte 32 :=
  Vector.ofFn fun i =>
    let byte := bytes[i.val / 2]
    hexDigit (upper i) (if i.val % 2 = 0 then (byte >>> 4).setWidth 4 else byte.setWidth 4)

theorem charToHex_hexDigit : ∀ (upper : Bool) (value : BitVec 4),
    charToHex (hexDigit upper value) = value.setWidth 8 := by
  decide +kernel

/-- The two halves of a byte, shifted and added. -/
theorem add_digits : ∀ b : Byte, (((((b >>> 4).setWidth 4).setWidth 8).signExtend 32 <<< 4) +
    ((b.setWidth 4).setWidth 8).signExtend 32).setWidth 8 = b := by
  decide +kernel

theorem charsToHex_hexDigit (b : Byte) (u1 u2 : Bool) :
    charsToHex (hexDigit u1 ((b >>> 4).setWidth 4)) (hexDigit u2 (b.setWidth 4)) = b := by
  rw [charsToHex, charToHex_hexDigit, charToHex_hexDigit, add_digits]

theorem readBytes_hexText (bytes : Vector Byte 16) (upper : Fin 32 → Bool) :
    readBytes (hexText bytes upper) = bytes := by
  refine Vector.ext fun i hi => ?_
  have hHigh : (hexText bytes upper)[i * 2] =
      hexDigit (upper ⟨i * 2, by omega⟩) ((bytes[i] >>> 4).setWidth 4) := by
    simp [hexText]
  have hLow : (hexText bytes upper)[i * 2 + 1] =
      hexDigit (upper ⟨i * 2 + 1, by omega⟩) (bytes[i].setWidth 4) := by
    have hHalf : (i * 2 + 1) / 2 = i := by omega
    simp [hexText, hHalf]
  rw [readBytes, Vector.getElem_ofFn, hHigh, hLow, charsToHex_hexDigit]

/-! ## The steps of a round -/

theorem map_affine_inverseTable : inverseTable.map Fips197.affine = aesSboxTable := by
  decide +kernel

theorem length_inverseTable : inverseTable.length = 256 := by
  decide +kernel

theorem aesSbox_eq_affine (b : Byte) : aesSbox b.toNat = Fips197.affine (inverse b) := by
  have hIn : b.toNat < inverseTable.length := by
    rw [length_inverseTable]
    exact b.isLt
  rw [aesSbox, ← map_affine_inverseTable, inverse, List.getD_eq_getElem _ _ hIn,
    List.getD_eq_getElem _ _ (by rwa [List.length_map]), List.getElem_map]

/-- The table is the S-box. -/
theorem aesSbox_eq (b : Byte) : aesSbox b.toNat = Fips197.sBox b := by
  rw [Fips197.sBox_eq, aesSbox_eq_affine]

theorem toState_subBytes (s : State) :
    Fips197.toState (subBytes s) = Fips197.subBytes (Fips197.toState s) := by
  funext r c
  exact (Vector.getElem_map _ (byteIndex c r).isLt).trans (aesSbox_eq _)

theorem toState_shiftRows (s : State) :
    Fips197.toState (shiftRows s) = Fips197.shiftRows (Fips197.toState s) := by
  funext r c
  fin_cases r <;> fin_cases c <;> rfl

theorem toState_mixColumns (s : State) :
    Fips197.toState (mixColumns s) = Fips197.mixColumns (Fips197.toState s) := by
  have hOne : (-1 : Fin 4) = 3 := rfl
  have hTwo : (-2 : Fin 4) = 2 := rfl
  have hThree : (-3 : Fin 4) = 1 := rfl
  funext r c
  obtain ⟨h0, h1, h2, h3⟩ := mixColumns_column s c
  -- both sides are linear in the four bytes of the column
  apply toGF_injective
  rw [Fips197.toGF_mixColumns, Fips197.toGF_two, Fips197.toGF_three]
  fin_cases r <;>
    simp [Fips197.toState, h0, h1, h2, h3, toGF_xor, toGF_gfMul2, toGF_gfMul3, hOne, hTwo,
      hThree] <;>
    ring

theorem toState_addRoundKey (s : State) {expandedKey : Vector (BitVec 32) 44} {offset : ℕ}
    {w : Fin 4 → Fips197.Word}
    (hKey : ∀ c : Fin 4, wordByte (expandedKey.getD (c + offset) 0) = w c) :
    Fips197.toState (addRoundKey s expandedKey offset) =
      Fips197.addRoundKey (Fips197.toState s) w := by
  funext r c
  simp only [Fips197.toState, Fips197.addRoundKey, addRoundKey_eq, wordIndex_byteIndex,
    rowIndex_byteIndex, hKey]

/-! ## The key schedule -/

/-- The table entry after `x^i` is `x^(i+1)`, as far as the schedule reads. -/
theorem rcon_double : ∀ i < 9,
    wordByte (rcon (i + 2)) 0 = BinaryField.double 0x1b#8 (wordByte (rcon (i + 1)) 0) := by
  decide +kernel

theorem toGF_rcon {i : ℕ} (hi : i < 10) :
    toGF (wordByte (rcon (i + 1)) 0) = AdjoinRoot.root aesPoly ^ i := by
  induction i with
  | zero => exact toGF_one
  | succ i ih =>
    rw [rcon_double i (by omega), toGF_double, ih (by omega), pow_succ']

theorem wordByte_rcon {i : ℕ} (hPos : 0 < i) (hi : i ≤ 10) :
    wordByte (rcon i) = Fips197.rcon i := by
  have hTop : wordByte (rcon i) 0 = ofGF (AdjoinRoot.root aesPoly ^ (i - 1)) := by
    rw [← toGF_rcon (by omega), ofGF_toGF, Nat.sub_add_cancel hPos]
  have hRest : ∀ i ≤ 10, ∀ r : Fin 3, wordByte (rcon i) r.succ = 0 := by
    decide +kernel
  funext r
  cases r using Fin.cases with
  | zero => exact hTop
  | succ r => rw [hRest i hi r]; fin_cases r <;> rfl

/-- Word `i` of the expanded key is word `i` of the key schedule. -/
theorem keyExpansion_eq (hexKey : Vector Byte 16) (expandedKey : Vector (BitVec 32) 44) {i : ℕ}
    (hi : i < 44) :
    wordByte ((keyExpansion hexKey expandedKey).getD i 0) = Fips197.keyExpansion hexKey i := by
  -- the first loop copies the key, the second continues the recurrence
  have hFirst : ∀ i < 4, wordByte ((forLoop 0 4
      (fun i e => e.setIfInBounds i (wordAt hexKey (Fin.ofNat 4 i))) expandedKey).getD i 0) =
        Fips197.keyExpansion hexKey i := by
    refine forLoop_fill (Nat.zero_le 4) (by decide)
      (fun i w => wordByte w = Fips197.keyExpansion hexKey i)
      (fun i hi => absurd hi (Nat.not_lt_zero i)) fun i _ _ hi _ => ?_
    funext r
    have hWord : (Fin.ofNat 4 i).val = i := Nat.mod_eq_of_lt hi
    rw [wordByte_wordAt, Fips197.keyExpansion, dif_pos hi]
    refine congrArg hexKey.get (Fin.ext ?_)
    simp only [byteIndex, hWord]
  refine forLoop_fill (by decide) (Nat.le_refl 44)
    (fun i w => wordByte w = Fips197.keyExpansion hexKey i) hFirst
    (fun i e hlo hhi hBelow => ?_) i hi
  have hPrev := hBelow (i - 1) (by omega)
  have hBack := hBelow (i - 4) (by omega)
  rw [Fips197.keyExpansion, dif_neg (by omega)]
  unfold nextWord
  split_ifs with hMod
  · funext r
    have hRcon := @wordByte_rcon (i / 4) (by omega) (by omega)
    rw [wordByte_xor, wordByte_xor, wordByte_subWord, wordByte_rotWord, aesSbox_eq, hPrev, hBack,
      hRcon]
    rfl
  · funext r
    rw [wordByte_xor, hPrev, hBack]

/-- The four words at offset `4 * i` are round key `i`. -/
theorem roundKey_eq (hexKey : Vector Byte 16) (expandedKey : Vector (BitVec 32) 44) {i offset : ℕ}
    (hOffset : offset = 4 * i) (hi : i ≤ 10) (c : Fin 4) :
    wordByte ((keyExpansion hexKey expandedKey).getD (c + offset) 0) =
      Fips197.roundKey hexKey i c := by
  rw [hOffset, Nat.add_comm, keyExpansion_eq hexKey expandedKey (by omega)]
  rfl

/-! ## The cipher -/

/-- The round loop, from the first round key on, runs through the reference rounds. -/
theorem toState_rounds (message hexKey : Vector Byte 16) (expandedKey : Vector (BitVec 32) 44) :
    Fips197.toState (forLoop 0 9
      (fun i state => round (keyExpansion hexKey expandedKey) ((i + 1) * 4) state)
      (addRoundKey message (keyExpansion hexKey expandedKey) 0)) =
        Fips197.rounds hexKey (Fips197.toState message) 9 := by
  refine forLoop_invariant (Nat.zero_le 9)
    (fun i state => Fips197.toState state = Fips197.rounds hexKey (Fips197.toState message) i)
    (toState_addRoundKey message (roundKey_eq hexKey expandedKey rfl (Nat.zero_le 10)))
    fun i state _ hi hState => ?_
  have hKey := @roundKey_eq hexKey expandedKey (i + 1) ((i + 1) * 4) (Nat.mul_comm _ _) (by omega)
  rw [round, toState_addRoundKey _ hKey, toState_mixColumns, toState_shiftRows, toState_subBytes,
    hState, Fips197.rounds]

theorem ofFn_wordAt (bytes : Vector Byte 16) : Vector.ofFn (wordAt bytes) = wordsOf bytes := by
  refine congrArg Vector.ofFn (funext fun i => word_ext (funext fun r => ?_))
  rw [wordByte_wordAt, wordByte_ofBytes]

theorem encryptedState_hexText (message key : Vector Byte 16) (upperMsg upperKey : Fin 32 → Bool)
    (uninit : Vector (BitVec 32) 44) :
    encryptedState (hexText message upperMsg) (hexText key upperKey) uninit =
      Fips197.cipher message key := by
  unfold encryptedState
  simp only [readBytes_hexText]
  rw [← Fips197.ofState_toState (finalRound _ _ _), finalRound,
    toState_addRoundKey _ (roundKey_eq key uninit rfl (Nat.le_refl 10)),
    toState_shiftRows, toState_subBytes, toState_rounds, Fips197.cipher]

/-- `encrypt` reads a message and a key from their hexadecimal texts and leaves
the words of the AES-128 ciphertext and of the key. -/
theorem encrypt_eq (message key : Vector Byte 16) (upperMsg upperKey : Fin 32 → Bool)
    (uninit : Vector (BitVec 32) 44) :
    encrypt (hexText message upperMsg) (hexText key upperKey) uninit =
      (wordsOf (Fips197.cipher message key), wordsOf key) := by
  rw [encrypt, encryptedState_hexText, readBytes_hexText, ofFn_wordAt, ofFn_wordAt]

example : (encrypt (hexText (Vector.replicate 16 0) fun _ => false)
    (hexText (Vector.replicate 16 0) fun _ => true) (Vector.replicate 44 0)).1 =
      #v[0x66e94bd4, 0xef8a2c3b, 0x884cfa59, 0xca342b2e] := by
  decide +kernel

end Software

end Ece385.Aes

import Ece385.Aes.KeySchedule
import Mathlib.Data.BitVec
import Mathlib.Data.Fintype.EquivFin

/-!
# AES — nothing is lost

The hardware takes back what `encrypt` puts out. Blocks are finitely many, so the converse
holds as well: whatever block the hardware is given, valid ciphertext or not, `encrypt` makes
it again from what comes out. The key schedule loses nothing either: each stage can be run
backwards, from the last word of a round key to the first.

* `nextKey_injective` — a stage, run backwards.

Main results:

* `software_hardware_inverse` — encryption and decryption are inverse permutations.
* `roundKey_bijective` — one round key is as good as the cipher key.
-/

namespace Ece385.Aes

theorem finite_bitVec (n : ℕ) : Finite (BitVec n) := Finite.of_equiv _ BitVec.equivFin.symm.toEquiv

/-- A map of blocks with an inverse on one side has it on the other. -/
theorem rightInverse_of_block {n : ℕ} {f g : BitVec n → BitVec n} (h : Function.LeftInverse g f) :
    Function.RightInverse g f := by
  have hFinite := finite_bitVec n
  exact h.rightInverse_of_surjective (Finite.injective_iff_surjective.mp h.injective)

namespace Hardware

open Software (encrypt hexText readBytes pack unpack keyExpansion inverseCipher_msgEnc)

/-! ## The cipher -/

/-- The block `encrypt` makes of `x`, entered in hexadecimal. -/
def encryptBlock (upper : Fin 32 → Bool) (keyAscii : Vector Byte 32)
    (uninit : Vector (BitVec 32) 44) (x : BitVec 128) : BitVec 128 :=
  ofWords (encrypt (hexText (unpack x) upper) keyAscii uninit).1.get

/-- The block the inverse steps make of `x` with the key schedule after `n` edges. -/
def decryptBlock (cipherKey : BitVec 128) (s : Subwords) (n : ℕ) (x : BitVec 128) : BitVec 128 :=
  inverseCipher (fun i => if h : i < 11 then
    @Lanes.lane 128 11 (keySchedule cipherKey (Clocked.trace step s (fun _ => cipherKey) n)) ⟨i, h⟩
    else 0) x

/-- Under one key the encryption of `main.c` and the inverse steps of the hardware, with the
schedule settled, are inverse to each other on all blocks. -/
theorem software_hardware_inverse (upper : Fin 32 → Bool) (keyAscii : Vector Byte 32)
    (uninit : Vector (BitVec 32) 44) (s : Subwords) {n : ℕ} (hn : 10 ≤ n) :
    Function.LeftInverse (decryptBlock (pack (readBytes keyAscii)) s n)
        (encryptBlock upper keyAscii uninit) ∧
      Function.RightInverse (decryptBlock (pack (readBytes keyAscii)) s n)
        (encryptBlock upper keyAscii uninit) := by
  have hLeft : Function.LeftInverse (decryptBlock (pack (readBytes keyAscii)) s n)
      (encryptBlock upper keyAscii uninit) := by
    intro x
    -- the slices of the settled schedule are the round keys of the software
    have hBlock := inverseCipher_msgEnc (hexText (unpack x) upper) keyAscii uninit
    rw [Software.readBytes_hexText, Software.pack_unpack] at hBlock
    rw [decryptBlock]
    refine (inverseCipher_congr _ fun i hi => ?_).trans hBlock
    have hLt : i < 11 := by omega
    rw [dif_pos hLt, lane_keySchedule _ uninit s ⟨i, hLt⟩ (by dsimp only; omega)]
  exact ⟨hLeft, rightInverse_of_block hLeft⟩

theorem software_hardware_inverse_zero :
    let keyAscii : Vector Byte 32 := Vector.replicate 32 0x30
    let decrypt := decryptBlock (pack (readBytes keyAscii)) (Vector.replicate 10 0xffffffff) 10
    let encryption := encryptBlock (fun _ => false) keyAscii (Vector.replicate 44 0)
    Function.LeftInverse decrypt encryption ∧ Function.RightInverse decrypt encryption :=
  software_hardware_inverse (fun _ => false) (Vector.replicate 32 0x30) (Vector.replicate 44 0)
    (Vector.replicate 10 0xffffffff) (le_refl 10)

/-! ## The key schedule -/

/-- The output of a stage once its registers are loaded. -/
def nextKey (x : BitVec 128) (rcon : Byte) : BitVec 128 := newKey x (subwordNext x) rcon

/-- The words of a round key are the differences of those of the next one, except for the
first, which takes the S-boxes of the last. -/
theorem nextKey_injective (rcon : Byte) : Function.Injective fun x => nextKey x rcon := by
  intro x y hSame
  have hWords : ∀ c, blockWord (nextKey x rcon) c = blockWord (nextKey y rcon) c :=
    fun c => congrArg (blockWord · c) hSame
  -- word `c + 1` of a round key is what its successor adds to word `c` of its own
  have hLater : ∀ c : Fin 3, blockWord x c.succ = blockWord y c.succ := fun c => by
    have hSum := hWords c.succ
    have hBefore := hWords c.castSucc
    unfold nextKey at hSum hBefore
    rw [blockWord_newKey_succ, blockWord_newKey_succ, hBefore] at hSum
    exact (BitVec.xor_left_inj _).mp hSum
  -- the first word takes the substituted last one, which is known by now
  have hFirst : blockWord x 0 = blockWord y 0 := by
    have hSub : subwordNext x = subwordNext y := by
      rw [subwordNext, subwordNext]
      exact congrArg (fun v => ofBytes ![subBytes (wordByte v 1), subBytes (wordByte v 2),
        subBytes (wordByte v 3), subBytes (wordByte v 0)]) (hLater 2)
    have hSum := hWords 0
    rw [nextKey, nextKey, blockWord_newKey_zero, blockWord_newKey_zero, hSub] at hSum
    exact (BitVec.xor_left_inj _).mp hSum
  rw [← ofWords_blockWord x, ← ofWords_blockWord y]
  refine congrArg ofWords (funext fun c => ?_)
  cases c using Fin.cases with
  | zero => exact hFirst
  | succ c => exact hLater c

/-- Round key `i` of a cipher key. -/
def expandedKey (cipherKey : BitVec 128) : ℕ → BitVec 128
  | 0 => cipherKey
  | i + 1 => nextKey (expandedKey cipherKey i) (rconTable.getD i 0)

theorem expandedKey_injective (i : ℕ) : Function.Injective fun x => expandedKey x i := by
  induction i with
  | zero => exact Function.injective_id
  | succ i ih => exact (nextKey_injective (rconTable.getD i 0)).comp ih

theorem expandedKey_isRoundKey (key : Vector Byte 16) {i : ℕ} (hi : i ≤ 10) :
    IsRoundKey key i (expandedKey (pack key) i) := by
  induction i with
  | zero => exact pack_isRoundKey key
  | succ i ih => exact newKey_isRoundKey hi (ih (by omega))

/-- A settled slice of the schedule is the round key. -/
theorem lane_eq_expandedKey (cipherKey : BitVec 128) (s : Subwords) {n : ℕ} (i : Fin 11)
    (hn : i.val ≤ n) :
    @Lanes.lane 128 11 (keySchedule cipherKey (Clocked.trace step s (fun _ => cipherKey) n)) i =
      expandedKey cipherKey i := by
  have hi : i.val ≤ 10 := Nat.le_of_lt_succ i.isLt
  rw [← Software.pack_unpack cipherKey, keySchedule, Lanes.lane_join]
  exact (settled_trace _ s n i hn hi).unique (expandedKey_isRoundKey _ hi)

/-- Every block is round key `i` of exactly one cipher key, on the settled slices of the
hardware and in the array of the software: the last round key, which decryption needs first,
says as much as the key itself. -/
theorem roundKey_bijective (s : Subwords) (uninit : Vector (BitVec 32) 44) {n : ℕ} (i : Fin 11)
    (hn : i.val ≤ n) :
    (Function.Bijective fun cipherKey => @Lanes.lane 128 11 (keySchedule cipherKey
        (Clocked.trace step s (fun _ => cipherKey) n)) i) ∧
      Function.Bijective fun cipherKey =>
        Software.keyBlock (keyExpansion (unpack cipherKey) uninit) (4 * i) := by
  have hFinite := finite_bitVec 128
  have hExpanded : Function.Bijective fun cipherKey => expandedKey cipherKey i :=
    Finite.injective_iff_bijective.mp (expandedKey_injective i)
  constructor
  · simpa only [lane_eq_expandedKey _ s i hn] using hExpanded
  · have hBlock : ∀ cipherKey, Software.keyBlock (keyExpansion (unpack cipherKey) uninit) (4 * i) =
        expandedKey cipherKey i := fun cipherKey => by
      rw [← lane_eq_expandedKey cipherKey s i hn,
        ← lane_keySchedule (unpack cipherKey) uninit s i hn, Software.pack_unpack]
    simpa only [hBlock] using hExpanded

/-- The last round key, ten edges after any contents of the registers. -/
theorem roundKey_bijective_last :
    (Function.Bijective fun cipherKey => @Lanes.lane 128 11 (keySchedule cipherKey
        (Clocked.trace step (Vector.replicate 10 0xffffffff) (fun _ => cipherKey) 10)) 10) ∧
      Function.Bijective fun cipherKey => Software.keyBlock
        (keyExpansion (unpack cipherKey) (Vector.replicate 44 0)) (4 * (10 : Fin 11).val) :=
  roundKey_bijective (Vector.replicate 10 0xffffffff) (Vector.replicate 44 0) 10 (le_refl 10)

end Hardware

end Ece385.Aes

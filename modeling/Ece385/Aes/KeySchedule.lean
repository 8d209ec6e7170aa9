import Ece385.Aes.InverseCipher
import Ece385.Aes.SoftwareCorrect

/-!
# AES — the clocked key schedule

`KeyExpansion.sv` is a chain of ten stages whose S-boxes are registers, so the
schedule is wrong until it has settled. Stage `i` is right one edge after the
stage before it, whatever the registers held: a register loaded from a round key
that is already right makes the next round key right, and keeps it.

Main results:

* `newKey_isRoundKey` — one stage, its registers loaded from the same key.
* `settled_trace` — the first `n` stages after `n` edges.
* `keySchedule_settles` — the slices against the words of the software.
* `inverseCipher_keySchedule` — the settled schedule decrypts what `encrypt` puts out.
-/

open CountedLoop

namespace Ece385.Aes.Hardware

/-- The block is round key `i`. -/
def IsRoundKey (key : Vector Byte 16) (i : ℕ) (x : BitVec 128) : Prop :=
  ∀ c, wordByte (blockWord x c) = Fips197.roundKey key i c

theorem IsRoundKey.unique {key : Vector Byte 16} {i : ℕ} {x y : BitVec 128}
    (hx : IsRoundKey key i x) (hy : IsRoundKey key i y) : x = y := by
  rw [← ofWords_blockWord x, ← ofWords_blockWord y]
  exact congrArg ofWords (funext fun c => word_ext ((hx c).trans (hy c).symm))

/-! ## One stage -/

theorem subBytesTable_eq : subBytesTable = Software.aesSboxTable := by
  decide +kernel

theorem subBytes_eq (b : Byte) : subBytes b = Fips197.sBox b := by
  rw [subBytes, subBytesTable_eq, ← Software.aesSbox_eq]
  rfl

/-- The byte `Rcon[i]` on top of a word is round constant `i + 1`. -/
theorem rconTable_eq : ∀ i < 10,
    ofBytes ![rconTable.getD i 0, 0, 0, 0] = Software.rcon (i + 1) := by
  decide +kernel

/-- The registered word is `SubWord` of the rotated last word. -/
theorem wordByte_subwordNext (oldKey : BitVec 128) :
    wordByte (subwordNext oldKey) =
      Fips197.subWord (Fips197.rotWord (wordByte (blockWord oldKey 3))) := by
  rw [subwordNext, wordByte_ofBytes]
  funext r
  fin_cases r <;> exact subBytes_eq _

theorem blockWord_newKey_zero (oldKey : BitVec 128) (subword : BitVec 32) (rcon : Byte) :
    blockWord (newKey oldKey subword rcon) 0 =
      blockWord oldKey 0 ^^^ (subword ^^^ ofBytes ![rcon, 0, 0, 0]) := by
  have hTop : ofBytes ![wordByte subword 0 ^^^ rcon, wordByte subword 1, wordByte subword 2,
      wordByte subword 3] = subword ^^^ ofBytes ![rcon, 0, 0, 0] := by
    refine word_ext (funext fun r => ?_)
    rw [wordByte_xor, wordByte_ofBytes, wordByte_ofBytes]
    fin_cases r <;> simp
  rw [newKey, blockWord_ofWords, hTop]
  rfl

theorem blockWord_newKey_succ (oldKey : BitVec 128) (subword : BitVec 32) (rcon : Byte)
    (c : Fin 3) :
    blockWord (newKey oldKey subword rcon) c.succ =
      blockWord oldKey c.succ ^^^ blockWord (newKey oldKey subword rcon) c.castSucc := by
  rw [newKey, blockWord_ofWords]
  fin_cases c <;> rfl

/-- A stage whose registers were loaded from a round key, fed the same round key, puts
out the next one. -/
theorem newKey_isRoundKey {key : Vector Byte 16} {i : ℕ} {x : BitVec 128} (hi : i < 10)
    (hKey : IsRoundKey key i x) :
    IsRoundKey key (i + 1) (newKey x (subwordNext x) (rconTable.getD i 0)) := by
  have hRcon := Software.wordByte_rcon (Nat.succ_pos i) hi
  intro c
  induction c using Fin.induction with
  | zero =>
    funext r
    rw [blockWord_newKey_zero, wordByte_xor, wordByte_xor, wordByte_subwordNext, hKey 0, hKey 3,
      rconTable_eq i hi, hRcon, Fips197.roundKey_zero_word]
  | succ c ih =>
    funext r
    rw [blockWord_newKey_succ, wordByte_xor, hKey c.succ, ih, Fips197.roundKey_succ_word]

/-! ## The chain of stages -/

/-- The stages that have settled: the first `n` of ten. -/
def Settled (key : Vector Byte 16) (n : ℕ) (s : Subwords) : Prop :=
  ∀ i ≤ n, i ≤ 10 → IsRoundKey key i (stageKey (Software.pack key) s i)

theorem pack_isRoundKey (key : Vector Byte 16) : IsRoundKey key 0 (Software.pack key) := by
  intro c
  funext r
  have hIndex : 4 * 0 + c.val < 4 := by omega
  rw [Software.pack, blockWord_ofWords, Software.wordByte_wordAt, Fips197.roundKey,
    Fips197.keyExpansion, dif_pos hIndex]
  refine congrArg key.get (Fin.ext ?_)
  simp only [byteIndex]
  omega

/-- One falling edge settles one more stage and unsettles none. -/
theorem settled_step {key : Vector Byte 16} {n : ℕ} {s : Subwords} (hSettled : Settled key n s) :
    Settled key (n + 1) (step s (Software.pack key)) := by
  intro i
  induction i with
  | zero => exact fun _ _ => pack_isRoundKey key
  | succ i ih =>
    intro hn hi
    have hBefore := hSettled i (by omega) (by omega)
    have hAfter := ih (by omega) (by omega)
    -- the stage before had settled, so its register loads from the key it is fed now
    have hSame := hAfter.unique hBefore
    have hLoad : (step s (Software.pack key)).getD i 0 =
        subwordNext (stageKey (Software.pack key) s i) := by
      have hIndex : i < 10 := by omega
      simp [step, Vector.getD, hIndex]
    rw [stageKey, hLoad, hSame]
    exact newKey_isRoundKey (by omega) hBefore

/-- After `n` edges under a constant key the first `n` stages have settled. -/
theorem settled_trace (key : Vector Byte 16) (s : Subwords) (n : ℕ) :
    Settled key n (Clocked.trace step s (fun _ => Software.pack key) n) := by
  refine @Clocked.trace_invariant _ _ step s (fun _ => Software.pack key) (Settled key) ?_
    (fun _ hSettled => settled_step hSettled) n
  intro i hi _
  obtain rfl : i = 0 := Nat.le_zero.mp hi
  exact pack_isRoundKey key

/-! ## The schedule and the software -/

/-- The words `KeyExpansion` of `main.c` stores from index `4 * i` on. -/
theorem keyBlock_isRoundKey (key : Vector Byte 16) (uninit : Vector (BitVec 32) 44) {i : ℕ}
    (hi : i ≤ 10) :
    IsRoundKey key i (Software.keyBlock (Software.keyExpansion key uninit) (4 * i)) := by
  intro c
  rw [Software.keyBlock, blockWord_ofWords]
  exact Software.roundKey_eq key uninit rfl hi c

/-- Slice `i` of the schedule, from edge `i` on. -/
theorem lane_keySchedule (key : Vector Byte 16) (uninit : Vector (BitVec 32) 44) (s : Subwords)
    {n : ℕ} (i : Fin 11) (hn : i.val ≤ n) :
    @Lanes.lane 128 11 (keySchedule (Software.pack key)
      (Clocked.trace step s (fun _ => Software.pack key) n)) i =
        Software.keyBlock (Software.keyExpansion key uninit) (4 * i) := by
  have hi : i.val ≤ 10 := by omega
  rw [keySchedule, Lanes.lane_join]
  exact (settled_trace key s n i hn hi).unique (keyBlock_isRoundKey key uninit hi)

/-- With the cipher key held, slice `i` of the schedule holds the software's round key
`i` after any `n ≥ i` falling edges, from any register contents, and after ten edges
the whole schedule is the software's. -/
theorem keySchedule_settles (cipherKey : BitVec 128) (uninit : Vector (BitVec 32) 44)
    (s : Subwords) (n : ℕ) :
    (∀ i : Fin 11, i.val ≤ n →
      @Lanes.lane 128 11 (keySchedule cipherKey
        (Clocked.trace step s (fun _ => cipherKey) n)) i = ofWords fun c =>
          (Software.keyExpansion (Software.unpack cipherKey) uninit).getD (4 * i + c) 0) ∧
    (10 ≤ n → keySchedule cipherKey (Clocked.trace step s (fun _ => cipherKey) n) =
      @Lanes.join 128 11 fun i => ofWords fun c =>
        (Software.keyExpansion (Software.unpack cipherKey) uninit).getD (4 * i + c) 0) := by
  obtain ⟨key, hPack⟩ : ∃ key, key = Software.unpack cipherKey := ⟨_, rfl⟩
  have hCipher : Software.pack key = cipherKey := hPack ▸ Software.pack_unpack cipherKey
  have hBlock : ∀ i : Fin 11, Software.keyBlock (Software.keyExpansion key uninit) (4 * i) =
      ofWords fun c => (Software.keyExpansion key uninit).getD (4 * i + c) 0 :=
    fun i => congrArg ofWords (funext fun c => by rw [Nat.add_comm])
  rw [← hPack, ← hCipher]
  refine ⟨fun i hn => (lane_keySchedule key uninit s i hn).trans (hBlock i), fun hn => ?_⟩
  refine @Lanes.lane_ext 128 11 _ _ fun i => ?_
  rw [lane_keySchedule key uninit s i (by omega), Lanes.lane_join, hBlock]

theorem keySchedule_settles_zero :
    keySchedule 0 (Clocked.trace step (Vector.replicate 10 0xffffffff) (fun _ => 0) 10) =
      @Lanes.join 128 11 fun i => ofWords fun c =>
        (Software.keyExpansion (Software.unpack 0) (Vector.replicate 44 0)).getD (4 * i + c) 0 :=
  (keySchedule_settles 0 (Vector.replicate 44 0) (Vector.replicate 10 0xffffffff) 10).2 (by decide)

/-- Once settled, the hardware schedule drives the hardware steps from the ciphertext of
`encrypt` back to the message. -/
theorem inverseCipher_keySchedule (msgAscii keyAscii : Vector Byte 32)
    (uninit : Vector (BitVec 32) 44) (s : Subwords) {n : ℕ} (hn : 10 ≤ n) :
    inverseCipher (fun i => @Lanes.lane 128 11 (keySchedule
        (Software.pack (Software.readBytes keyAscii)) (Clocked.trace step s
          (fun _ => Software.pack (Software.readBytes keyAscii)) n)) (Fin.ofNat 11 i))
      (ofWords fun i => (Software.encrypt msgAscii keyAscii uninit).1[i]) =
        Software.pack (Software.readBytes msgAscii) := by
  rw [← Software.inverseCipher_msgEnc msgAscii keyAscii uninit]
  refine inverseCipher_congr _ fun i hi => ?_
  have hIndex : (Fin.ofNat 11 i).val = i := Nat.mod_eq_of_lt (by omega)
  rw [lane_keySchedule _ uninit s _ (by omega), hIndex]

end Ece385.Aes.Hardware

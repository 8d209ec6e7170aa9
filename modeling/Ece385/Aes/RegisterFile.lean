import Ece385.Aes.SoftwareCorrect
import Ece385.Lib.Clocked
import Mathlib.Logic.Function.Basic

/-!
# AES — `avalon_aes_interface.sv`

Sixteen 32-bit registers on the Avalon bus, written by bytes, and the conduit
that shows both ends of the encrypted message. `main` writes them with eight
full words, one per register of the key and of the message.

* `RegFile.step`, `readdata`, `exportData` — the module.
* `laneUpdate` — what one clock does to one byte of one register;
  `byteLane_step`: it does nothing else.
* `LastWrite` — the clock a byte was last written on, since the last reset.

Main results:

* `LastWrite.byteLane_eq`, `byteLane_eq_zero` — what a byte is along a run.
* `register_of_makes`, `exportData_of_makes` — what the registers and the conduit
  show after the stores of `main`.
* `register_file` — the interface as a whole.
-/

open Clocked CountedLoop

namespace Ece385.Aes.Hardware

/-! ## The module -/

/-- The inputs of `avalon_aes_interface`. -/
structure AvlInputs where
  reset : Bool := false
  read : Bool := false
  write : Bool := false
  cs : Bool := false
  byteEn : BitVec 4 := 0
  addr : BitVec 4 := 0
  writedata : BitVec 32 := 0

/-- `logic [31:0] reg_file[16]` -/
abbrev RegFile := BitVec 4 → BitVec 32

/-- `w[8*k+7 : 8*k]` -/
def byteLane (w : BitVec 32) (k : Fin 4) : Byte := w.extractLsb' (k * 8) 8

/-- The assignments to `reg_file[AVL_ADDR]` under `AVL_BYTE_EN[3]` to `AVL_BYTE_EN[0]`. -/
def writeBytes (byteEn : BitVec 4) (writedata reg : BitVec 32) : BitVec 32 :=
  let byte (k : Fin 4) := if byteEn.getLsbD k then byteLane writedata k else byteLane reg k
  byte 3 ++ byte 2 ++ byte 1 ++ byte 0

/-- The `always_ff` block. -/
def RegFile.step (regFile : RegFile) (i : AvlInputs) : RegFile :=
  if i.reset then fun _ => 0
  else if i.write && i.cs then
    Function.update regFile i.addr (writeBytes i.byteEn i.writedata (regFile i.addr))
  else regFile

/-- `AVL_READDATA` -/
def readdata (regFile : RegFile) (i : AvlInputs) : BitVec 32 :=
  if i.read && i.cs then regFile i.addr else 0

/-- `EXPORT_DATA = {reg_file[4][31:16], reg_file[7][15:0]}` -/
def exportData (regFile : RegFile) : BitVec 32 :=
  (regFile 4).extractLsb' 16 16 ++ (regFile 7).extractLsb' 0 16

/-! ## One byte of one register -/

theorem byteLane_eq_wordByte (w : BitVec 32) (k : Fin 4) : byteLane w k = wordByte w k.rev := by
  rw [wordByte, Lanes.lane, Fin.rev_rev]
  rfl

theorem ext_byteLane {v w : BitVec 32} (h : ∀ k, byteLane v k = byteLane w k) : v = w := by
  refine word_ext (funext fun r => ?_)
  have hByte := h r.rev
  rwa [byteLane_eq_wordByte, byteLane_eq_wordByte, Fin.rev_rev] at hByte

theorem byteLane_zero (k : Fin 4) : byteLane 0 k = 0 := by
  simp [byteLane]

theorem byteLane_append (b : Fin 4 → Byte) (k : Fin 4) :
    byteLane (b 3 ++ b 2 ++ b 1 ++ b 0) k = b k := by
  rw [byteLane]
  fin_cases k
  · exact BitVec.extractLsb'_append_eq_right
  · exact (BitVec.extractLsb'_append_eq_of_le (by decide)).trans
      BitVec.extractLsb'_append_eq_right
  · exact (BitVec.extractLsb'_append_eq_of_le (by decide)).trans
      ((BitVec.extractLsb'_append_eq_of_le (by decide)).trans
        BitVec.extractLsb'_append_eq_right)
  · exact (BitVec.extractLsb'_append_eq_of_le (by decide)).trans
      ((BitVec.extractLsb'_append_eq_of_le (by decide)).trans
        BitVec.extractLsb'_append_eq_left)

theorem byteLane_writeBytes (byteEn : BitVec 4) (writedata reg : BitVec 32) (k : Fin 4) :
    byteLane (writeBytes byteEn writedata reg) k =
      if byteEn.getLsbD k then byteLane writedata k else byteLane reg k :=
  byteLane_append (fun k => if byteEn.getLsbD k then byteLane writedata k else byteLane reg k) k

/-- The clock writes byte `k` of register `a`. -/
structure Writes (i : AvlInputs) (a : BitVec 4) (k : Fin 4) : Prop where
  reset : i.reset = false
  write : i.write = true
  cs : i.cs = true
  addr : i.addr = a
  byteEn : i.byteEn.getLsbD k = true

instance (i : AvlInputs) (a : BitVec 4) (k : Fin 4) : Decidable (Writes i a k) :=
  decidable_of_iff (i.reset = false ∧ i.write = true ∧ i.cs = true ∧ i.addr = a ∧
      i.byteEn.getLsbD k = true)
    ⟨fun ⟨h₁, h₂, h₃, h₄, h₅⟩ => ⟨h₁, h₂, h₃, h₄, h₅⟩,
      fun ⟨h₁, h₂, h₃, h₄, h₅⟩ => ⟨h₁, h₂, h₃, h₄, h₅⟩⟩

/-- What a clock gives byte `k` of register `a`. -/
def laneUpdate (i : AvlInputs) (a : BitVec 4) (k : Fin 4) : Option Byte :=
  if i.reset then some 0
  else if Writes i a k then some (byteLane i.writedata k)
  else none

theorem byteLane_step (regFile : RegFile) (i : AvlInputs) (a : BitVec 4) (k : Fin 4) :
    byteLane (regFile.step i a) k = (laneUpdate i a k).getD (byteLane (regFile a) k) := by
  rw [RegFile.step, laneUpdate]
  -- reset, bus, address, enable: in the order the block tests them
  cases hReset : i.reset with
  | true =>
    rw [if_pos rfl, if_pos rfl, Option.getD_some]
    exact byteLane_zero k
  | false =>
    rw [if_neg Bool.false_ne_true, if_neg Bool.false_ne_true]
    by_cases hBus : (i.write && i.cs) = true
    · obtain ⟨hWrite, hCs⟩ := Bool.and_eq_true_iff.mp hBus
      rw [if_pos hBus]
      by_cases hAddr : i.addr = a
      · subst hAddr
        rw [Function.update_self, byteLane_writeBytes]
        by_cases hEn : i.byteEn.getLsbD k = true
        · rw [if_pos hEn, if_pos ⟨hReset, hWrite, hCs, rfl, hEn⟩, Option.getD_some]
        · rw [if_neg hEn, if_neg fun h => hEn h.byteEn, Option.getD_none]
      · rw [Function.update_of_ne (Ne.symm hAddr), if_neg fun h => hAddr h.addr, Option.getD_none]
    · rw [if_neg hBus, if_neg fun h => hBus (by rw [h.write, h.cs]; rfl), Option.getD_none]

/-! ## A byte along a run -/

section Run

variable {r : RegFile} {w : ℕ → AvlInputs} {n m : ℕ} {a : BitVec 4} {k : Fin 4}

/-- Clock `m` is the last one before `n` to write the byte, and no reset came since. -/
structure LastWrite (w : ℕ → AvlInputs) (n : ℕ) (a : BitVec 4) (k : Fin 4) (m : ℕ) : Prop where
  before : m < n
  writes : Writes (w m) a k
  since : ∀ j, m < j → j < n → (w j).reset = false ∧ ¬ Writes (w j) a k

theorem laneUpdate_of_writes {i : AvlInputs} (h : Writes i a k) :
    laneUpdate i a k = some (byteLane i.writedata k) := by
  rw [laneUpdate, h.reset, if_neg Bool.false_ne_true, if_pos h]

theorem laneUpdate_eq_none_iff {i : AvlInputs} :
    laneUpdate i a k = none ↔ i.reset = false ∧ ¬ Writes i a k := by
  rw [laneUpdate]
  split_ifs with hReset hWrites
  · simp [hReset]
  · simp [hWrites]
  · simp [hReset, hWrites]

/-- The byte is a register of its own. -/
theorem holds_byteLane (r : RegFile) (w : ℕ → AvlInputs) (a : BitVec 4) (k : Fin 4) :
    Holds (fun n => byteLane (trace RegFile.step r w n a) k) fun n => laneUpdate (w n) a k :=
  fun n => byteLane_step _ (w n) a k

theorem LastWrite.byteLane_eq (h : LastWrite w n a k m) :
    byteLane (trace RegFile.step r w n a) k = byteLane (w m).writedata k :=
  (holds_byteLane r w a k).eq_of_last h.before (laneUpdate_of_writes h.writes)
    fun j hmj hjn => laneUpdate_eq_none_iff.mpr (h.since j hmj hjn)

/-- With nothing written since the last reset the byte is 0. -/
theorem byteLane_eq_zero (hReset : (w 0).reset = true) (hn : 0 < n)
    (hNone : ∀ m, ¬ LastWrite w n a k m) : byteLane (trace RegFile.step r w n a) k = 0 := by
  have hGiven : laneUpdate (w 0) a k ≠ none := by
    rw [laneUpdate, if_pos hReset]
    exact Option.some_ne_none 0
  obtain ⟨m, -, hmn, hLast, hSince⟩ := exists_last (fun m => laneUpdate (w m) a k) hn hGiven
  have hNotWrites : ¬ Writes (w m) a k := fun hWrites =>
    hNone m ⟨hmn, hWrites, fun j hmj hjn => laneUpdate_eq_none_iff.mp (hSince j hmj hjn)⟩
  -- what the byte was given last was no write, so it was a reset
  have hClears : (w m).reset = true := by
    by_contra hLow
    exact hLast (laneUpdate_eq_none_iff.mpr ⟨by simpa using hLow, hNotWrites⟩)
  refine (holds_byteLane r w a k).eq_of_last hmn ?_ hSince
  rw [laneUpdate, if_pos hClears]

/-- A clock that writes no byte and is no reset changes no register. -/
theorem RegFile.step_eq_self {i : AvlInputs} (hReset : i.reset = false)
    (hNone : ∀ a k, ¬ Writes i a k) : r.step i = r := by
  funext a
  refine ext_byteLane fun k => ?_
  rw [byteLane_step, laneUpdate_eq_none_iff.mpr ⟨hReset, hNone a k⟩, Option.getD_none]

end Run

/-! ## The stores of `main` -/

/-- A store of a whole word: all four bytes of register `a` from `v`. -/
structure Stores (i : AvlInputs) (a : BitVec 4) (v : BitVec 32) : Prop where
  reset : i.reset = false
  write : i.write = true
  cs : i.cs = true
  addr : i.addr = a
  byteEn : i.byteEn = 15
  writedata : i.writedata = v

theorem Stores.writes {i : AvlInputs} {a : BitVec 4} {v : BitVec 32} (h : Stores i a v)
    (k : Fin 4) : Writes i a k where
  reset := h.reset
  write := h.write
  cs := h.cs
  addr := h.addr
  byteEn := by
    rw [h.byteEn]
    revert k
    decide

end Ece385.Aes.Hardware

namespace Ece385.Aes.Software

/-- `AES_PTR[0] = key[0]; …; AES_PTR[7] = msg_enc[3];` -/
def mainStores (msgEnc key : Vector (BitVec 32) 4) : List (BitVec 4 × BitVec 32) := [
  (0, key[0]), (1, key[1]), (2, key[2]), (3, key[3]),
  (4, msgEnc[0]), (5, msgEnc[1]), (6, msgEnc[2]), (7, msgEnc[3])]

theorem mainStores_lt {msgEnc key : Vector (BitVec 32) 4} {p : BitVec 4 × BitVec 32}
    (hp : p ∈ mainStores msgEnc key) : p.1 < 8 := by
  have hAddr : p.1 ∈ (mainStores msgEnc key).map Prod.fst := List.mem_map_of_mem hp
  revert hAddr
  exact (by decide : ∀ a ∈ ([0, 1, 2, 3, 4, 5, 6, 7] : List (BitVec 4)), a < 8) p.1

/-- No register is stored to twice. -/
theorem mainStores_unique {msgEnc key : Vector (BitVec 32) 4} {a : BitVec 4} {u v : BitVec 32}
    (hu : (a, u) ∈ mainStores msgEnc key) (hv : (a, v) ∈ mainStores msgEnc key) : u = v := by
  have hNodup : ((mainStores msgEnc key).map Prod.fst).Nodup :=
    (by decide : ([0, 1, 2, 3, 4, 5, 6, 7] : List (BitVec 4)).Nodup)
  exact congrArg Prod.snd (List.inj_on_of_nodup_map hNodup hu hv rfl)

end Ece385.Aes.Software

namespace Ece385.Aes.Hardware

open Software

variable {r : RegFile} {w : ℕ → AvlInputs} {s e t : ℕ}

/-- In the clocks from `s` to `e` all of `stores` are made, in any order, and
nothing else is written but registers 8 to 15. -/
structure Makes (w : ℕ → AvlInputs) (s e : ℕ) (stores : List (BitVec 4 × BitVec 32)) : Prop where
  reset : ∀ j, s ≤ j → j < e → (w j).reset = false
  made : ∀ p ∈ stores, ∃ j, s ≤ j ∧ j < e ∧ Stores (w j) p.1 p.2
  others : ∀ j, s ≤ j → j < e → ∀ a k, Writes (w j) a k →
    8 ≤ a ∨ ∃ v, (a, v) ∈ stores ∧ Stores (w j) a v

/-- From `e` to `t` the register is neither reset nor written. -/
def Untouched (w : ℕ → AvlInputs) (e t : ℕ) (a : BitVec 4) : Prop :=
  ∀ j, e ≤ j → j < t → (w j).reset = false ∧ ∀ k, ¬ Writes (w j) a k

/-- A register still holds what `main` stored in it. -/
theorem register_of_makes {msgEnc key : Vector (BitVec 32) 4}
    (h : Makes w s e (mainStores msgEnc key))
    (hle : e ≤ t) {p : BitVec 4 × BitVec 32} (hp : p ∈ mainStores msgEnc key)
    (hKept : Untouched w e t p.1) : trace RegFile.step r w t p.1 = p.2 := by
  refine ext_byteLane fun k => ?_
  obtain ⟨j, hsj, hje, hStored⟩ := h.made p hp
  have hGiven : laneUpdate (w j) p.1 k ≠ none := by
    rw [laneUpdate_of_writes (hStored.writes k)]
    exact Option.some_ne_none _
  obtain ⟨m, hjm, hmt, hLast, hSince⟩ := exists_last (fun m => laneUpdate (w m) p.1 k)
    (hje.trans_le hle) hGiven
  -- the last write before `t` is one of the stores, and the only one to `p.1`
  have hme : m < e := by
    by_contra hLater
    obtain ⟨hLow, hNone⟩ := hKept m (Nat.le_of_not_lt hLater) hmt
    exact hLast (laneUpdate_eq_none_iff.mpr ⟨hLow, hNone k⟩)
  have hWrites : Writes (w m) p.1 k := by
    by_contra hNone
    exact hLast (laneUpdate_eq_none_iff.mpr ⟨h.reset m (hsj.trans hjm) hme, hNone⟩)
  obtain hHigh | ⟨v, hv, hStore⟩ := h.others m (hsj.trans hjm) hme p.1 k hWrites
  · exact absurd (mainStores_lt hp) (BitVec.not_lt.mpr hHigh)
  · have hWord : v = p.2 := mainStores_unique hv hp
    refine (holds_byteLane r w p.1 k).eq_of_last hmt ?_ hSince
    rw [laneUpdate_of_writes hWrites, hStore.writedata, hWord]

/-- The conduit shows the upper half of register 4 and the lower half of register 7. -/
theorem exportData_eq (regFile : RegFile) :
    exportData regFile =
      (byteLane (regFile 4) 3 ++ byteLane (regFile 4) 2) ++
        (byteLane (regFile 7) 1 ++ byteLane (regFile 7) 0) := by
  have hUpper : byteLane (regFile 4) 3 ++ byteLane (regFile 4) 2 =
      (regFile 4).extractLsb' 16 16 :=
    BitVec.extractLsb'_append_extractLsb'_eq_extractLsb' rfl
  have hLower : byteLane (regFile 7) 1 ++ byteLane (regFile 7) 0 =
      (regFile 7).extractLsb' 0 16 :=
    BitVec.extractLsb'_append_extractLsb'_eq_extractLsb' rfl
  rw [hUpper, hLower, exportData]

theorem byteLane_wordAt (bytes : Vector Byte 16) (i k : Fin 4) :
    byteLane (wordAt bytes i) k = bytes.get (byteIndex i k.rev) := by
  rw [byteLane_eq_wordByte, wordByte_wordAt]

/-- The ends of what `encrypt` packed. -/
theorem exportData_of_makes {state hexKey : State}
    (h : Makes w s e (mainStores (Vector.ofFn (wordAt state)) (Vector.ofFn (wordAt hexKey))))
    (hle : e ≤ t) (h4 : Untouched w e t 4) (h7 : Untouched w e t 7) :
    exportData (trace RegFile.step r w t) =
      (state.get 0 ++ state.get 1) ++ (state.get 14 ++ state.get 15) := by
  have hFirst : trace RegFile.step r w t 4 = wordAt state 0 :=
    register_of_makes h hle (p := (4, wordAt state 0)) (by simp [mainStores]) h4
  have hLast : trace RegFile.step r w t 7 = wordAt state 3 :=
    register_of_makes h hle (p := (7, wordAt state 3)) (by simp [mainStores]) h7
  rw [exportData_eq, hFirst, hLast, byteLane_wordAt, byteLane_wordAt, byteLane_wordAt,
    byteLane_wordAt]
  rfl

/-- Every run of the interface from a reset on, whatever is on the bus:

* a byte of a register is what the last clock since the last reset that wrote it
  wrote, and 0 if there is none;
* `AVL_READDATA` is the addressed register while it is read, and 0 otherwise;
* a clock that writes nothing and is no reset changes no register;
* once `main` has stored the results of `encrypt`, in any order and among any
  writes to registers 8 to 15, each of the eight registers holds its word until it
  is written again, and `EXPORT_DATA` is the first two and the last two bytes of
  the ciphertext until register 4 or 7 is. -/
theorem register_file (r : RegFile) {w : ℕ → AvlInputs} (hReset : (w 0).reset = true) :
    (∀ n a k, 0 < n →
      (∀ m, LastWrite w n a k m →
        byteLane (trace RegFile.step r w n a) k = byteLane (w m).writedata k) ∧
      ((∀ m, ¬ LastWrite w n a k m) → byteLane (trace RegFile.step r w n a) k = 0)) ∧
    (∀ n, readdata (trace RegFile.step r w n) (w n) =
      if (w n).read = true ∧ (w n).cs = true then trace RegFile.step r w n (w n).addr else 0) ∧
    (∀ n, (w n).reset = false → (∀ a k, ¬ Writes (w n) a k) →
      trace RegFile.step r w (n + 1) = trace RegFile.step r w n) ∧
    (∀ msgAscii keyAscii uninit s e t,
      let result := encrypt msgAscii keyAscii uninit
      let state := encryptedState msgAscii keyAscii uninit
      Makes w s e (mainStores result.1 result.2) → e ≤ t →
        (∀ a v, (a, v) ∈ mainStores result.1 result.2 → Untouched w e t a →
          trace RegFile.step r w t a = v) ∧
        (Untouched w e t 4 → Untouched w e t 7 →
          exportData (trace RegFile.step r w t) =
            (state.get 0 ++ state.get 1) ++ (state.get 14 ++ state.get 15))) := by
  refine ⟨fun n a k hn => ⟨fun m hLast => hLast.byteLane_eq, byteLane_eq_zero hReset hn⟩,
    fun n => ?_, fun n hLow hNone => RegFile.step_eq_self hLow hNone, ?_⟩
  · rw [readdata]
    simp only [Bool.and_eq_true]
  · intro msgAscii keyAscii uninit s e t result state hMakes hle
    exact ⟨fun a v hv => register_of_makes hMakes hle hv, exportData_of_makes hMakes hle⟩

/-- A reset, the given stores clock by clock, and an idle bus. -/
def bus (stores : List (BitVec 4 × BitVec 32)) : ℕ → AvlInputs
  | 0 => { reset := true }
  | n + 1 =>
    match stores[n]? with
    | some (a, v) => { write := true, cs := true, byteEn := 15, addr := a, writedata := v }
    | none => {}

theorem makes_bus (stores : List (BitVec 4 × BitVec 32)) :
    Makes (bus stores) 1 (stores.length + 1) stores where
  reset := by
    rintro (_ | n) hPos -
    · exact absurd hPos (by decide)
    · rw [bus]
      split <;> rfl
  made := by
    intro p hp
    obtain ⟨n, hn, rfl⟩ := List.getElem_of_mem hp
    refine ⟨n + 1, by omega, by omega, ?_⟩
    rw [bus, List.getElem?_eq_getElem hn]
    exact ⟨rfl, rfl, rfl, rfl, rfl, rfl⟩
  others := by
    rintro (_ | n) hPos hLt a k hWrites
    · exact absurd hPos (by decide)
    have hn : n < stores.length := by omega
    rw [bus, List.getElem?_eq_getElem hn] at hWrites ⊢
    obtain rfl := hWrites.addr
    exact Or.inr ⟨_, List.getElem_mem hn, ⟨rfl, rfl, rfl, rfl, rfl, rfl⟩⟩

/-- The stores of one encryption, right after a reset. -/
theorem register_file_zero :
    let zeros := hexText (Vector.replicate 16 0) fun _ => false
    let result := encrypt zeros zeros (Vector.replicate 44 0)
    let state := encryptedState zeros zeros (Vector.replicate 44 0)
    let regFile := trace RegFile.step (fun _ => 0) (bus (mainStores result.1 result.2)) 9
    regFile 0 = result.2.get 0 ∧
      exportData regFile = (state.get 0 ++ state.get 1) ++ (state.get 14 ++ state.get 15) := by
  intro zeros result state regFile
  have hNone {a : BitVec 4} : Untouched (bus (mainStores result.1 result.2)) 9 9 a :=
    fun j hj hlt => by omega
  obtain ⟨hRegs, hEnds⟩ := (register_file (fun _ => 0)
    (w := bus (mainStores result.1 result.2)) rfl).2.2.2
      zeros zeros (Vector.replicate 44 0) 1 9 9 (makes_bus _) le_rfl
  exact ⟨hRegs 0 (result.2.get 0) List.mem_cons_self hNone, hEnds hNone hNone⟩

end Ece385.Aes.Hardware

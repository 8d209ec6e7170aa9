import Ece385.Aes.RegisterFile
import Ece385.HexDriver

/-!
# AES — `lab9_top.sv`

The conduit of the register file on eight displays. What stands there after the stores
of `main` is the start and the end of the AES-128 ciphertext, two digits a byte, and
nothing that happens on the bus later changes it but a write to register 4 or 7.

* `hexDisplays` — HEX0 to HEX7.
* `ciphertext_shown` — the displays as a person reads them.
-/

open CountedLoop Clocked

namespace Ece385.Aes.Hardware

open Software

/-- HEX0 to HEX7 of `lab9_top`: display `k` shows `AES_EXPORT_DATA[4*k+3 : 4*k]`. -/
def hexDisplays (regFile : RegFile) : Fin 8 → BitVec 7 := hexRow (k := 8) (exportData regFile)

/-- The first digit of a byte, and the second. -/
def digits (b : Byte) : List (BitVec 4) := [b.extractLsb' 4 4, b.extractLsb' 0 4]

/-- The eight displays from the left. -/
def displayed (regFile : RegFile) : List (BitVec 7) :=
  (List.finRange 8).reverse.map (hexDisplays regFile)

/-- A digit of the conduit is a digit of one of its bytes. -/
theorem extract_bytes (b0 b1 b2 b3 : Byte) {o : ℕ} (ho : o + 4 ≤ 8) :
    (((b0 ++ b1) ++ (b2 ++ b3)).extractLsb' (24 + o) 4 = b0.extractLsb' o 4 ∧
      ((b0 ++ b1) ++ (b2 ++ b3)).extractLsb' (16 + o) 4 = b1.extractLsb' o 4) ∧
    ((b0 ++ b1) ++ (b2 ++ b3)).extractLsb' (8 + o) 4 = b2.extractLsb' o 4 ∧
      ((b0 ++ b1) ++ (b2 ++ b3)).extractLsb' o 4 = b3.extractLsb' o 4 := by
  -- first the half the digit is in, then the byte
  have hUpper : ∀ i, ((b0 ++ b1) ++ (b2 ++ b3)).extractLsb' (16 + i) 4 =
      (b0 ++ b1).extractLsb' i 4 := fun i => by
    rw [BitVec.extractLsb'_append_eq_of_le (Nat.le_add_right 16 i), Nat.add_sub_cancel_left]
  have hLower : ∀ i, i + 4 ≤ 16 → ((b0 ++ b1) ++ (b2 ++ b3)).extractLsb' i 4 =
      (b2 ++ b3).extractLsb' i 4 := fun i hi => BitVec.extractLsb'_append_eq_of_add_le hi
  have hFirst : ∀ x y : Byte, (x ++ y).extractLsb' (8 + o) 4 = x.extractLsb' o 4 := fun x y => by
    rw [BitVec.extractLsb'_append_eq_of_le (Nat.le_add_right 8 o), Nat.add_sub_cancel_left]
  have hSecond : ∀ x y : Byte, (x ++ y).extractLsb' o 4 = y.extractLsb' o 4 := fun x y =>
    BitVec.extractLsb'_append_eq_of_add_le ho
  refine ⟨⟨?_, ?_⟩, ?_, ?_⟩
  · rw [show 24 + o = 16 + (8 + o) by omega, hUpper, hFirst]
  · rw [hUpper, hSecond]
  · rw [hLower _ (by omega), hFirst]
  · rw [hLower _ (by omega), hSecond]

/-- The displays show the bytes of the conduit. -/
theorem displayed_of_bytes {regFile : RegFile} {b0 b1 b2 b3 : Byte}
    (h : exportData regFile = (b0 ++ b1) ++ (b2 ++ b3)) :
    displayed regFile = ([b0, b1, b2, b3].flatMap digits).map hexDriver := by
  have hRow : displayed regFile =
      [(exportData regFile).extractLsb' (24 + 4) 4, (exportData regFile).extractLsb' (24 + 0) 4,
        (exportData regFile).extractLsb' (16 + 4) 4, (exportData regFile).extractLsb' (16 + 0) 4,
        (exportData regFile).extractLsb' (8 + 4) 4, (exportData regFile).extractLsb' (8 + 0) 4,
        (exportData regFile).extractLsb' 4 4,
        (exportData regFile).extractLsb' 0 4].map hexDriver := rfl
  obtain ⟨⟨h7, h5⟩, h3, h1⟩ := extract_bytes b0 b1 b2 b3 (o := 4) (by decide)
  obtain ⟨⟨h6, h4⟩, h2, h0⟩ := extract_bytes b0 b1 b2 b3 (o := 0) (by decide)
  rw [hRow, h, h7, h6, h5, h4, h3, h2, h1, h0]
  rfl

theorem digits_injective : Function.Injective digits := by
  intro a b hSame
  obtain ⟨hHigh, hRest⟩ := List.cons.inj hSame
  have hLow := (List.cons.inj hRest).1
  have hByte : ∀ x : Byte, x.extractLsb' 4 4 ++ x.extractLsb' 0 4 = x := by decide +kernel
  rw [← hByte a, ← hByte b, hHigh, hLow]

/-- Every run of the register file, from any contents: once `main` has made its stores with
what `encrypt` computed from the hexadecimal texts of a message and a key, and until
register 4 or 7 is written or reset, the displays show the first two bytes and the last two
bytes of the ciphertext, and no other four bytes look the same. -/
theorem ciphertext_shown (r : RegFile) {w : ℕ → AvlInputs} (message key : Vector Byte 16)
    (upperMsg upperKey : Fin 32 → Bool) (uninit : Vector (BitVec 32) 44) {s e t : ℕ}
    (hMakes : Makes w s e (mainStores
      (encrypt (hexText message upperMsg) (hexText key upperKey) uninit).1
      (encrypt (hexText message upperMsg) (hexText key upperKey) uninit).2))
    (hle : e ≤ t) (h4 : Untouched w e t 4) (h7 : Untouched w e t 7) :
    let out := Fips197.cipher message key
    let shown := displayed (trace RegFile.step r w t)
    shown = ([out.get 0, out.get 1, out.get 14, out.get 15].flatMap digits).map hexDriver ∧
      ∀ b0 b1 b2 b3, shown = ([b0, b1, b2, b3].flatMap digits).map hexDriver →
        b0 = out.get 0 ∧ b1 = out.get 1 ∧ b2 = out.get 14 ∧ b3 = out.get 15 := by
  intro out shown
  rw [encrypt, encryptedState_hexText, readBytes_hexText] at hMakes
  have hShown : shown =
      ([out.get 0, out.get 1, out.get 14, out.get 15].flatMap digits).map hexDriver :=
    displayed_of_bytes (exportData_of_makes hMakes hle h4 h7)
  refine ⟨hShown, fun b0 b1 b2 b3 hSame => ?_⟩
  have hDigits := hexDriver_injective.list_map (hSame.symm.trans hShown)
  -- two digits a byte
  have hPair : ∀ {x y : Byte} {l l' : List (BitVec 4)},
      digits x ++ l = digits y ++ l' → x = y ∧ l = l' := fun hEq => by
    obtain ⟨hFirst, hRest⟩ := List.append_inj hEq rfl
    exact ⟨digits_injective hFirst, hRest⟩
  simp only [List.flatMap_cons] at hDigits
  obtain ⟨h0, hRest⟩ := hPair hDigits
  obtain ⟨h1, hRest⟩ := hPair hRest
  obtain ⟨h2, hRest⟩ := hPair hRest
  exact ⟨h0, h1, h2, (hPair hRest).1⟩

theorem ciphertext_shown_zero :
    let zeros : Vector Byte 16 := Vector.replicate 16 0
    let result := encrypt (hexText zeros fun _ => false) (hexText zeros fun _ => true)
      (Vector.replicate 44 0)
    let out := Fips197.cipher zeros zeros
    let shown := displayed
      (trace RegFile.step (fun _ => 0) (bus (mainStores result.1 result.2)) 9)
    shown = ([out.get 0, out.get 1, out.get 14, out.get 15].flatMap digits).map hexDriver ∧
      ∀ b0 b1 b2 b3, shown = ([b0, b1, b2, b3].flatMap digits).map hexDriver →
        b0 = out.get 0 ∧ b1 = out.get 1 ∧ b2 = out.get 14 ∧ b3 = out.get 15 := by
  intro zeros result out shown
  have hNone {a : BitVec 4} : Untouched (bus (mainStores result.1 result.2)) 9 9 a :=
    fun j hj hlt => by omega
  exact ciphertext_shown (fun _ => 0) zeros zeros (fun _ => false) (fun _ => true)
    (Vector.replicate 44 0) (makes_bus (mainStores result.1 result.2)) (le_refl 9) hNone hNone

end Ece385.Aes.Hardware

import Ece385.Lib.Clocked
import Mathlib.Data.BitVec
import Mathlib.Logic.Function.Iterate

/-!
# Tetris — `keyboard.sv`

The receiver shifts the serial line through two chained 11-bit registers. While
its bit counter shows a complete byte, every system clock runs the decoder on
the byte in `Byte_2` and the one before it in `Byte_1`, so each byte is decoded
some number of times with the same pair.

* `ScanChain` — `reg_B` and `reg_A`; `ScanChain.getLsbD_trace`: they are a queue of
  22 bits that the line shifts through.
* `Decoder` — `Data`, `Press` and `Typematic_Keycode`; `Decoder.step_step`:
  decoding a byte again changes nothing.
* `Keyboard.Decodes` — what the bytes of a stream lead to.
-/

open Clocked

namespace Ece385.Tetris

/-! ## The shift chain -/

/-- `reg_11` with `Shift_En` high: `{Shift_In, Data_Out[10:1]}` -/
def reg11Shift (dataOut : BitVec 11) (shiftIn : Bool) : BitVec 11 :=
  BitVec.cons shiftIn (dataOut.extractLsb' 1 10)

theorem getLsbD_reg11Shift (d : BitVec 11) (b : Bool) {i : ℕ} (hi : i < 11) :
    (reg11Shift d b).getLsbD i = if i = 10 then b else d.getLsbD (i + 1) := by
  rw [reg11Shift, BitVec.getLsbD_cons]
  by_cases hTop : i = 10
  · rw [if_pos hTop, if_pos hTop]
  · rw [if_neg hTop, if_neg hTop, BitVec.getLsbD_extractLsb', decide_eq_true (by omega),
      Bool.true_and, Nat.add_comm]

/-- `Byte_1` of `reg_A` and `Byte_2` of `reg_B`. -/
structure ScanChain where
  byte1 : BitVec 11
  byte2 : BitVec 11

/-- One rising edge of `psClk` with `en` high; `reg_A` is fed from `reg_B`. -/
def ScanChain.shift (c : ScanChain) (psData : Bool) : ScanChain where
  byte1 := reg11Shift c.byte1 (c.byte2.getLsbD 0)
  byte2 := reg11Shift c.byte2 psData

/-- `Byte_x[9:2]` -/
def scanField (byte : BitVec 11) : BitVec 8 := byte.extractLsb' 2 8

namespace ScanChain

/-- The bits queued in the chain, oldest first, and then those on the line. -/
def queue (c : ScanChain) (psData : ℕ → Bool) (j : ℕ) : Bool :=
  if j < 11 then c.byte1.getLsbD j
  else if j < 22 then c.byte2.getLsbD (j - 11)
  else psData (j - 22)

/-- Every edge moves the queue on by one bit. -/
theorem getLsbD_trace (c : ScanChain) (psData : ℕ → Bool) (n : ℕ) {i : ℕ} (hi : i < 11) :
    (trace shift c psData n).byte1.getLsbD i = c.queue psData (i + n) ∧
      (trace shift c psData n).byte2.getLsbD i = c.queue psData (i + 11 + n) := by
  induction n generalizing i with
  | zero =>
    rw [trace_zero, queue, queue, if_pos (by omega), if_neg (by omega), if_pos (by omega)]
    simp
  | succ n ih =>
    rw [trace_succ, shift, getLsbD_reg11Shift _ _ hi, getLsbD_reg11Shift _ _ hi]
    by_cases hTop : i = 10
    · -- `reg_A` takes the bit `reg_B` shifts out, `reg_B` the one on the line
      rw [if_pos hTop, if_pos hTop, (ih (by omega)).2, hTop]
      refine ⟨by congr 1; omega, ?_⟩
      rw [queue, if_neg (by omega), if_neg (by omega)]
      congr 1
      omega
    · rw [if_neg hTop, if_neg hTop, (ih (by omega)).1, (ih (by omega)).2]
      exact ⟨by congr 1; omega, by congr 1; omega⟩

end ScanChain

/-! ## The decoder -/

/-- The registers of the decoder; `Data` is the output `keyCode` and `Press` the
output `press`. -/
structure Decoder where
  data : BitVec 8
  press : Bool
  typematicKeycode : BitVec 8
  deriving DecidableEq

/-- The `always` block of the decoder with `Count == 5'd11`. -/
def Decoder.step (d : Decoder) (byte1 byte2 : BitVec 8) : Decoder :=
  -- an extended key code, or a key about to be released
  if byte2 = 0xE0 then d
  else if byte2 = 0xF0 then d
  -- "A key has been released."; the assignments are blocking
  else if byte1 = 0xF0 then
    { data := byte2
      press := false
      typematicKeycode := if byte2 = d.typematicKeycode then 0x00 else d.typematicKeycode }
  -- "This make code is a repeat.", whatever the outputs show
  else if byte2 = d.typematicKeycode then d
  else if byte1 ≠ 0xF0 then { data := byte2, press := true, typematicKeycode := byte2 }
  else d

namespace Decoder

variable {d : Decoder} {byte1 byte2 : BitVec 8}

theorem step_announced (h : byte2 = 0xE0 ∨ byte2 = 0xF0) : d.step byte1 byte2 = d := by
  rw [step]
  rcases h with hExtended | hBreak
  · rw [if_pos hExtended]
  · rw [if_pos hBreak, ite_self]

theorem step_released (hExtended : byte2 ≠ 0xE0) (hBreak : byte2 ≠ 0xF0) :
    d.step 0xF0 byte2 =
      { data := byte2
        press := false
        typematicKeycode := if byte2 = d.typematicKeycode then 0x00 else d.typematicKeycode } := by
  rw [step, if_neg hExtended, if_neg hBreak, if_pos rfl]

theorem step_made (hExtended : byte2 ≠ 0xE0) (hBreak : byte2 ≠ 0xF0) (hMade : byte1 ≠ 0xF0) :
    d.step byte1 byte2 =
      if byte2 = d.typematicKeycode then d
      else { data := byte2, press := true, typematicKeycode := byte2 } := by
  rw [step, if_neg hExtended, if_neg hBreak, if_neg hMade, if_pos hMade]

/-- Decoding the same pair of bytes again changes nothing. -/
theorem step_step (d : Decoder) (byte1 byte2 : BitVec 8) :
    (d.step byte1 byte2).step byte1 byte2 = d.step byte1 byte2 := by
  by_cases hAnnounced : byte2 = 0xE0 ∨ byte2 = 0xF0
  · rw [step_announced hAnnounced, step_announced hAnnounced]
  obtain ⟨hExtended, hBreak⟩ := not_or.mp hAnnounced
  by_cases hReleased : byte1 = 0xF0
  · subst hReleased
    rw [step_released hExtended hBreak, step_released hExtended hBreak]
    -- the repeat code was cleared the first time, or is another one
    by_cases hSame : byte2 = d.typematicKeycode
    · simp only [if_pos hSame, ite_self]
    · simp only [if_neg hSame]
  · rw [step_made hExtended hBreak hReleased, step_made hExtended hBreak hReleased]
    by_cases hRepeat : byte2 = d.typematicKeycode
    · simp only [if_pos hRepeat]
    · simp only [if_neg hRepeat, if_true]

end Decoder

/-- The decoder between two bytes; `lastByte` is in `Byte_2`, about to be shifted
on to `Byte_1`. -/
structure Keyboard where
  decoder : Decoder
  lastByte : BitVec 8
  deriving DecidableEq

namespace Keyboard

/-- The next byte, decoded on `clocks` system clocks. -/
def receive (s : Keyboard) (byte : BitVec 8) (clocks : ℕ) : Keyboard where
  decoder := (fun d => d.step s.lastByte byte)^[clocks] s.decoder
  lastByte := byte

/-- The bytes of a stream, each of them decoded one or more times. -/
inductive Decodes : Keyboard → List (BitVec 8) → Keyboard → Prop
  | nil (s : Keyboard) : Decodes s [] s
  | cons {s s' : Keyboard} {byte : BitVec 8} {bytes : List (BitVec 8)} (clocks : ℕ)
      (pos : 0 < clocks) (rest : Decodes (s.receive byte clocks) bytes s') :
      Decodes s (byte :: bytes) s'

/-- The same with each byte decoded once. -/
def decode (s : Keyboard) (bytes : List (BitVec 8)) : Keyboard :=
  bytes.foldl (fun s byte => s.receive byte 1) s

theorem receive_eq (s : Keyboard) (byte : BitVec 8) {clocks : ℕ} (hPos : 0 < clocks) :
    s.receive byte clocks = s.receive byte 1 := by
  obtain ⟨n, rfl⟩ := Nat.exists_eq_succ_of_ne_zero hPos.ne'
  have hAgain : ∀ m, (fun d : Decoder => d.step s.lastByte byte)^[m]
      (s.decoder.step s.lastByte byte) = s.decoder.step s.lastByte byte := by
    intro m
    induction m with
    | zero => rfl
    | succ m ih => rw [Function.iterate_succ_apply, Decoder.step_step, ih]
  rw [receive, receive, Function.iterate_succ_apply, hAgain, Function.iterate_one]

/-- How often a byte is decoded does not matter. -/
theorem decodes_iff {s s' : Keyboard} {bytes : List (BitVec 8)} :
    s.Decodes bytes s' ↔ s' = s.decode bytes := by
  constructor
  · intro h
    induction h with
    | nil s => rfl
    | cons clocks pos rest ih => rw [ih, receive_eq _ _ pos]; rfl
  · rintro rfl
    induction bytes generalizing s with
    | nil => exact .nil s
    | cons byte bytes ih => exact .cons 1 Nat.one_pos ih

theorem decode_append (s : Keyboard) (bytes bytes' : List (BitVec 8)) :
    s.decode (bytes ++ bytes') = (s.decode bytes).decode bytes' :=
  List.foldl_append

end Keyboard

/-! ## Keys -/

/-- A key with a make code of one byte: `00` is no key, `E0` and `F0` announce
other codes. -/
structure Key where
  code : BitVec 8
  ne_zero : code ≠ 0x00
  ne_extended : code ≠ 0xE0
  ne_break : code ≠ 0xF0
  deriving DecidableEq

theorem Key.code_inj {k j : Key} : k.code = j.code ↔ k = j := by
  constructor
  · intro h
    cases k
    cases j
    congr
  · rintro rfl
    rfl

/-- What a keyboard sends about. -/
inductive KeyEvent where
  | press (k : Key)
  | autoRepeat (k : Key)
  | release (k : Key)
  deriving DecidableEq

/-- The scan codes of an event. -/
def KeyEvent.bytes : KeyEvent → List (BitVec 8)
  | .press k => [k.code]
  | .autoRepeat k => [k.code]
  | .release k => [0xF0, k.code]

/-- The byte stream of a list of events. -/
def scanCodes (es : List KeyEvent) : List (BitVec 8) := es.flatMap KeyEvent.bytes

end Ece385.Tetris

import Ece385.Lib.Clocked
import Mathlib.Algebra.BigOperators.Group.Finset.Basic
import Mathlib.Data.BitVec

/-!
# Lab 7 — `accumulator`

The function `accumulator` of `main.c` is to be called over and over. Each call looks at
two keys and acts when both are found up after one of them was found down: letting go of
KEY3 adds the switches to the LEDs, letting go of KEY2 clears them. Between the
calls it remembers which key it was in `key_held`.

* `Accumulator.step` — one call.
* `letGo` — the key that is let go at a call, for any timing of the keys.
* `keyHeld_run` — what `key_held` stands for.

Main result:

* `leds_total` — the LEDs are the sum of the switches since the last clearing.
-/

open Clocked

namespace Ece385.Lab7

/-! ## One call -/

/-- The pins, at one moment. -/
structure Pins where
  key : BitVec 4 := 0xF
  sw : BitVec 16 := 0

/-- `fpga_input_data` of `lab7.sv`: the keys are low when pressed. -/
def Pins.fpgaInputData (p : Pins) : BitVec 20 := p.sw ++ ~~~p.key

/-- What a call reads of `*switches_and_keys`: the pointer is volatile, so that the three
initialisers may see different pins. -/
structure Reads where
  first : Pins := {}
  second : Pins := {}
  third : Pins := {}

/-- `key_2`, `key_3` and `switches_value` -/
def Reads.key2 (r : Reads) : BitVec 32 := r.first.fpgaInputData.setWidth 32 &&& 0x04
def Reads.key3 (r : Reads) : BitVec 32 := r.second.fpgaInputData.setWidth 32 &&& 0x08
def Reads.switchesValue (r : Reads) : BitVec 32 :=
  (r.third.fpgaInputData.setWidth 32 >>> 4) &&& 0x0FFFF

/-- The global `key_held`, and the register of the LED port, which is eight bits wide. -/
structure Accumulator where
  keyHeld : BitVec 32
  led : BitVec 8
  deriving DecidableEq

/-- One call of `accumulator`. -/
def Accumulator.step (s : Accumulator) (r : Reads) : Accumulator :=
  if r.key2 ≠ 0 then { s with keyHeld := 2 }
  else if r.key3 ≠ 0 then { s with keyHeld := 3 }
  else if s.keyHeld = 3 then
    -- the port is read back with zeros above its eight bits and cuts what is written
    { keyHeld := 0, led := ((s.led.setWidth 32 + r.switchesValue) % 256).setWidth 8 }
  else if s.keyHeld = 2 then { keyHeld := 0, led := 0 }
  else s

/-! ## Pins and words -/

theorem and_bit_ne_zero_iff (p : Pins) {i : ℕ} (hi : i < 4) :
    p.fpgaInputData.setWidth 32 &&& BitVec.twoPow 32 i ≠ 0 ↔ p.key.getLsbD i = false := by
  have hBit : (p.fpgaInputData.setWidth 32).getLsbD i = !p.key.getLsbD i := by
    rw [Pins.fpgaInputData, BitVec.getLsbD_setWidth, BitVec.getLsbD_append, if_pos hi,
      BitVec.getLsbD_not]
    simp [hi, show i < 32 by omega]
  rw [BitVec.and_twoPow, hBit]
  have hNe : BitVec.twoPow 32 i ≠ 0#32 :=
    (by decide : ∀ j < 4, BitVec.twoPow 32 j ≠ 0#32) i hi
  cases p.key.getLsbD i <;> simp [hNe]

theorem key2_ne_zero_iff (r : Reads) : r.key2 ≠ 0 ↔ r.first.key.getLsbD 2 = false := by
  rw [Reads.key2, show (0x04 : BitVec 32) = BitVec.twoPow 32 2 by decide]
  exact and_bit_ne_zero_iff r.first (by decide)

theorem key3_ne_zero_iff (r : Reads) : r.key3 ≠ 0 ↔ r.second.key.getLsbD 3 = false := by
  rw [Reads.key3, show (0x08 : BitVec 32) = BitVec.twoPow 32 3 by decide]
  exact and_bit_ne_zero_iff r.second (by decide)

theorem switchesValue_eq (r : Reads) : r.switchesValue = r.third.sw.setWidth 32 := by
  rw [Reads.switchesValue, Pins.fpgaInputData,
    show (0x0FFFF : BitVec 32) = (BitVec.allOnes 16).setWidth 32 by decide]
  refine BitVec.eq_of_getLsbD_eq fun i hi => ?_
  rw [BitVec.getLsbD_and, BitVec.getLsbD_ushiftRight, BitVec.getLsbD_setWidth,
    BitVec.getLsbD_append, if_neg (by omega), Nat.add_sub_cancel_left, BitVec.getLsbD_setWidth,
    BitVec.getLsbD_setWidth, BitVec.getLsbD_allOnes]
  by_cases hLow : i < 16
  · simp [hLow, hi, show 4 + i < 32 by omega]
  · simp [hLow, BitVec.getLsbD_of_ge _ _ (show 16 ≤ i by omega)]

theorem led_add (led : BitVec 8) (sw : BitVec 16) :
    ((led.setWidth 32 + sw.setWidth 32) % 256).setWidth 8 = led + BitVec.ofNat 8 sw.toNat := by
  apply BitVec.eq_of_toNat_eq
  simp [BitVec.toNat_umod]

/-! ## Letting go of a key -/

inductive Button where
  | reset
  | accumulate
  deriving DecidableEq

/-- The value of `key_held` that stands for the key. -/
def Button.code : Button → BitVec 32
  | reset => 2
  | accumulate => 3

/-- The key a call finds down; KEY2 is looked at first. -/
def Reads.pressed (r : Reads) : Option Button :=
  if r.first.key.getLsbD 2 = false then some .reset
  else if r.second.key.getLsbD 3 = false then some .accumulate
  else none

section Run

variable {s : Accumulator} {w : ℕ → Reads}

/-- The key found down by the call before. -/
def pressedBefore (w : ℕ → Reads) : ℕ → Option Button
  | 0 => none
  | n + 1 => (w n).pressed

/-- The key that is found let go by call `n`: the call before found it down, and this one
finds neither. -/
def letGo (w : ℕ → Reads) (n : ℕ) : Option Button :=
  if (w n).pressed = none then pressedBefore w n else none

/-- One call, in terms of the keys. -/
theorem step_eq (s : Accumulator) (r : Reads) :
    s.step r = match r.pressed with
      | some b => { s with keyHeld := b.code }
      | none =>
        if s.keyHeld = 3 then { keyHeld := 0, led := s.led + BitVec.ofNat 8 r.third.sw.toNat }
        else if s.keyHeld = 2 then { keyHeld := 0, led := 0 }
        else s := by
  rw [Accumulator.step, switchesValue_eq, led_add, Reads.pressed]
  simp only [key2_ne_zero_iff, key3_ne_zero_iff]
  -- the tests on words are tests on the pins
  by_cases h2 : r.first.key.getLsbD 2 = false
  · rw [if_pos h2, if_pos h2]
    rfl
  · rw [if_neg h2, if_neg h2]
    by_cases h3 : r.second.key.getLsbD 3 = false
    · rw [if_pos h3, if_pos h3]
      rfl
    · rw [if_neg h3, if_neg h3]

/-- `key_held` is the key the last call found down. -/
theorem keyHeld_run (hStart : s.keyHeld = 0) (n : ℕ) :
    (trace Accumulator.step s w n).keyHeld = ((pressedBefore w n).map Button.code).getD 0 := by
  induction n with
  | zero => exact hStart
  | succ n ih =>
    rw [trace_succ, step_eq, pressedBefore]
    cases hNow : (w n).pressed with
    | some b => rfl
    | none =>
      -- up: a key of the call before has been let go, and it is forgotten
      rw [ih]
      cases hBefore : pressedBefore w n with
      | none => simpa [hBefore] using ih
      | some b => cases b <;> rfl

/-- What a call does to the LEDs. -/
theorem led_step (hStart : s.keyHeld = 0) (n : ℕ) :
    (trace Accumulator.step s w (n + 1)).led = match letGo w n with
      | some .accumulate =>
        (trace Accumulator.step s w n).led + BitVec.ofNat 8 (w n).third.sw.toNat
      | some .reset => 0
      | none => (trace Accumulator.step s w n).led := by
  have hHeld := keyHeld_run (w := w) hStart n
  rw [trace_succ, step_eq, letGo]
  cases hNow : (w n).pressed with
  | some b => rfl
  | none =>
    rw [if_pos rfl, hHeld]
    cases hBefore : pressedBefore w n with
    | none => rfl
    | some b => cases b <;> rfl

/-- The calls before `n` that add to the LEDs and are not cleared away. -/
def added (w : ℕ → Reads) (n : ℕ) : Finset ℕ :=
  (Finset.range n).filter fun k =>
    letGo w k = some .accumulate ∧ ∀ j, k ≤ j → j < n → letGo w j ≠ some .reset

theorem mem_added_iff {k n : ℕ} : k ∈ added w n ↔
    k < n ∧ letGo w k = some .accumulate ∧ ∀ j, k ≤ j → j < n → letGo w j ≠ some .reset := by
  rw [added, Finset.mem_filter, Finset.mem_range]

theorem added_succ (n : ℕ) :
    added w (n + 1) = match letGo w n with
      | some .accumulate => insert n (added w n)
      | some .reset => ∅
      | none => added w n := by
  have hLater : ∀ k, k < n → ((∀ j, k ≤ j → j < n + 1 → letGo w j ≠ some .reset) ↔
      (∀ j, k ≤ j → j < n → letGo w j ≠ some .reset) ∧ letGo w n ≠ some .reset) := by
    intro k hk
    constructor
    · exact fun h => ⟨fun j hkj hj => h j hkj (by omega), h n (by omega) (by omega)⟩
    · rintro ⟨h, hNow⟩ j hkj hj
      rcases Nat.lt_or_ge j n with hlt | hge
      · exact h j hkj hlt
      · rwa [show j = n by omega]
  ext k
  rw [mem_added_iff]
  rcases Nat.lt_trichotomy k n with hk | rfl | hk
  · -- an earlier call counts on unless this one clears
    rw [hLater k hk, and_iff_right (show k < n + 1 by omega)]
    have hIn : k ∈ added w n ↔ letGo w k = some .accumulate ∧
        ∀ j, k ≤ j → j < n → letGo w j ≠ some .reset := by
      rw [mem_added_iff, and_iff_right hk]
    rw [← and_assoc, ← hIn]
    cases letGo w n with
    | none => simp
    | some b => cases b <;> simp [hk.ne]
  · -- the call itself
    have hOut : k ∉ added w k := fun hIn => lt_irrefl k (mem_added_iff.mp hIn).1
    have hOnly : (∀ j, k ≤ j → j < k + 1 → letGo w j ≠ some .reset) ↔
        letGo w k ≠ some .reset :=
      ⟨fun h => h k le_rfl (by omega), fun h j hkj hj => by rwa [show j = k by omega]⟩
    rw [hOnly, and_iff_right (Nat.lt_succ_self k)]
    cases letGo w k with
    | none => simp [hOut]
    | some b => cases b <;> simp
  · have hOut : k ∉ added w n := fun hIn => absurd (mem_added_iff.mp hIn).1 (by omega)
    refine iff_of_false (fun h => absurd h.1 (by omega)) ?_
    cases letGo w n with
    | none => exact hOut
    | some b => cases b <;> simp [hOut, hk.ne']

/-- Whatever is done with the keys, and however often the function is called meanwhile: the
LEDs show the sum, modulo 256, of the switches at the calls that found KEY3 let go and that
no letting go of KEY2 has followed. -/
theorem leds_total (hStart : s.keyHeld = 0) (hDark : s.led = 0) (n : ℕ) :
    (trace Accumulator.step s w n).led =
      BitVec.ofNat 8 (∑ k ∈ added w n, (w k).third.sw.toNat) := by
  induction n with
  | zero => exact hDark
  | succ n ih =>
    rw [led_step hStart, added_succ, ih]
    cases letGo w n with
    | none => rfl
    | some b =>
      cases b with
      | reset => rfl
      | accumulate =>
        have hNew : n ∉ added w n := fun hIn => lt_irrefl n (mem_added_iff.mp hIn).1
        dsimp only
        rw [Finset.sum_insert hNew, Nat.add_comm, BitVec.ofNat_add]

end Run

/-- A call while the pins stand still. -/
def still (p : Pins) : Reads := ⟨p, p, p⟩

/-- KEY3 is pressed twice, the second time for two calls. -/
def tapTwice (n : ℕ) : Reads :=
  [still { key := 0x7, sw := 200 }, still { sw := 200 }, still { key := 0x7, sw := 200 },
    still { key := 0x7, sw := 100 }].getD n (still { sw := 100 })

theorem leds_total_twice : (trace Accumulator.step ⟨0, 0⟩ tapTwice 6).led = 44 :=
  (leds_total rfl rfl 6).trans (by decide)

end Ece385.Lab7

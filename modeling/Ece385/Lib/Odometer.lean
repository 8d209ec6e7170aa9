import Mathlib.Data.Nat.ModEq
import Mathlib.Logic.Function.Iterate

/-!
# Odometers

A wheel that counts to `size` in a register with room for `capacity` values,
and two of them in a row, the second one moved on by each turn of the first.
In range the register is a remainder; out of range (a register that was never
reset) it runs up to the capacity and falls back into range.

* `iterate_advance_of_lt` / `iterate_advance_lt` — one wheel: in range it counts
  modulo its size, and from anywhere it is in range after `capacity - size` ticks.
* `iterate_turn_of_lt` — two wheels: low digit and number of carries after `n` ticks.
* `exists_phase` — from any contents the two end up on the reading of a clock
  that is off by a constant.
* `existsUnique_reading` — every reading is shown once in each full period.
-/

namespace Odometer

/-! ## One wheel -/

section Wheel

variable {size capacity : ℕ}

/-- One tick of a wheel. -/
def advance (size capacity x : ℕ) : ℕ := if x + 1 = size then 0 else (x + 1) % capacity

theorem advance_lt (hPos : 0 < capacity) (x : ℕ) : advance size capacity x < capacity := by
  unfold advance
  split_ifs
  · exact hPos
  · exact Nat.mod_lt _ hPos

/-- In range a tick is a step modulo the size. -/
theorem advance_of_lt (hSize : size ≤ capacity) {x : ℕ} (hx : x < size) :
    advance size capacity x = (x + 1) % size := by
  unfold advance
  split_ifs with hTop
  · rw [hTop, Nat.mod_self]
  · rw [Nat.mod_eq_of_lt (by omega), Nat.mod_eq_of_lt (by omega)]

theorem iterate_advance_of_lt (hSize : size ≤ capacity) {x : ℕ} (hx : x < size) (n : ℕ) :
    (advance size capacity)^[n] x = (x + n) % size := by
  induction n with
  | zero => exact (Nat.mod_eq_of_lt hx).symm
  | succ n ih =>
    rw [Function.iterate_succ_apply', ih, advance_of_lt hSize (Nat.mod_lt _ (by omega)),
      Nat.mod_add_mod, Nat.add_assoc]

/-- Out of range the wheel runs up to the capacity and starts again at 0. -/
theorem iterate_advance_lt_of (hPos : 0 < size) (hSize : size ≤ capacity) {x n : ℕ}
    (hx : x < capacity) (hSettled : x < size ∨ capacity - x ≤ n) :
    (advance size capacity)^[n] x < size := by
  induction n generalizing x with
  | zero =>
    rcases hSettled with hIn | hOut
    · exact hIn
    · omega
  | succ n ih =>
    -- the induction is on the ticks left, from the value after the next one
    rw [Function.iterate_succ_apply]
    refine ih (advance_lt (by omega) x) ?_
    rcases Nat.lt_or_ge x size with hIn | hOut
    · rw [advance_of_lt hSize hIn]
      exact Or.inl (Nat.mod_lt _ hPos)
    · rw [advance, if_neg (by omega)]
      rcases Nat.lt_or_ge (x + 1) capacity with hRoom | hFull
      · rw [Nat.mod_eq_of_lt hRoom]
        omega
      · -- the register overflows to 0, which is in range
        rw [show x + 1 = capacity by omega, Nat.mod_self]
        exact Or.inl hPos

theorem iterate_advance_lt (hPos : 0 < size) (hSize : size ≤ capacity) {x n : ℕ}
    (hx : x < capacity) (hn : capacity - size ≤ n) : (advance size capacity)^[n] x < size :=
  iterate_advance_lt_of hPos hSize hx (by omega)

end Wheel

/-! ## Two wheels -/

section TwoWheels

variable {b M c N : ℕ}

/-- One tick of two wheels of sizes `b` and `c` in registers of `M` and `N` values. -/
def turn (b M c N : ℕ) (w : ℕ × ℕ) : ℕ × ℕ :=
  (advance b M w.1, if w.1 + 1 = b then advance c N w.2 else w.2)

theorem iterate_turn_fst (w : ℕ × ℕ) (n : ℕ) :
    ((turn b M c N)^[n] w).1 = (advance b M)^[n] w.1 := by
  induction n with
  | zero => rfl
  | succ n ih => rw [Function.iterate_succ_apply', Function.iterate_succ_apply', turn, ih]

theorem iterate_turn_snd_lt {w : ℕ × ℕ} (hw : w.2 < N) (n : ℕ) :
    ((turn b M c N)^[n] w).2 < N := by
  induction n with
  | zero => exact hw
  | succ n ih =>
    rw [Function.iterate_succ_apply', turn]
    dsimp only
    split_ifs
    · exact advance_lt (by omega) _
    · exact ih

/-- With the first wheel in range, the carries are the full turns so far. -/
theorem iterate_turn_of_lt (hb : b ≤ M) {w : ℕ × ℕ} (hw : w.1 < b) (n : ℕ) :
    (turn b M c N)^[n] w = ((w.1 + n) % b, (advance c N)^[(w.1 + n) / b] w.2) := by
  induction n with
  | zero =>
    rw [Nat.add_zero, Nat.mod_eq_of_lt hw, Nat.div_eq_of_lt hw]
    rfl
  | succ n ih =>
    have hLow : (w.1 + n) % b < b := Nat.mod_lt _ (by omega)
    rw [Function.iterate_succ_apply', ih, turn, advance_of_lt hb hLow, Nat.mod_add_mod,
      ← Nat.add_assoc]
    congr 1
    -- a carry exactly when the quotient grows
    by_cases hCarry : (w.1 + n) % b + 1 = b
    · have hZero : (w.1 + n + 1) % b = 0 := by rw [← Nat.mod_add_mod, hCarry, Nat.mod_self]
      rw [if_pos hCarry, Nat.succ_div_of_mod_eq_zero hZero, Function.iterate_succ_apply']
    · have hRest : (w.1 + n + 1) % b ≠ 0 := by
        rw [← Nat.mod_add_mod, Nat.mod_eq_of_lt (by omega)]
        omega
      rw [if_neg hCarry, Nat.succ_div_of_mod_ne_zero hRest]

/-! ## Readings -/

/-- What two wheels started at 0 show at tick `n`. -/
def reading (b c n : ℕ) : ℕ × ℕ := (n % b, n / b % c)

theorem iterate_turn_zero (hb : 0 < b) (hM : b ≤ M) (hc : 0 < c) (hN : c ≤ N) (n : ℕ) :
    (turn b M c N)^[n] (0, 0) = reading b c n := by
  rw [iterate_turn_of_lt hM hb, iterate_advance_of_lt hN hc, Nat.zero_add, Nat.zero_add, reading]

/-- The two digits are those of the tick modulo the period. -/
theorem reading_eq_iff {n x y : ℕ} (hx : x < b) (hy : y < c) :
    reading b c n = (x, y) ↔ n % (b * c) = x + b * y := by
  rw [Nat.mod_mul, reading, Prod.mk.injEq]
  constructor
  · rintro ⟨rfl, rfl⟩
    rfl
  · intro h
    -- read the digits off the sum again
    have hLow := congrArg (· % b) h
    have hHigh := congrArg (· / b) h
    simp only [Nat.add_mul_mod_self_left, Nat.mod_mod, Nat.mod_eq_of_lt hx] at hLow
    simp only [Nat.add_mul_div_left _ _ (show 0 < b by omega), Nat.div_eq_of_lt hx,
      Nat.div_eq_of_lt (Nat.mod_lt n (show 0 < b by omega)), Nat.zero_add] at hHigh
    exact ⟨hLow, hHigh⟩

/-- A remainder is met once in every window as long as the modulus. -/
theorem existsUnique_mod {p r : ℕ} (hr : r < p) (m : ℕ) :
    ∃! n, (m ≤ n ∧ n < m + p) ∧ n % p = r := by
  refine ⟨m + (r + p - m % p) % p, ⟨⟨Nat.le_add_right _ _, ?_⟩, ?_⟩, ?_⟩
  · exact Nat.add_lt_add_left (Nat.mod_lt _ (by omega)) m
  · have hLt : m % p < p := Nat.mod_lt _ (by omega)
    rw [Nat.add_mod_mod, ← Nat.mod_add_mod, show m % p + (r + p - m % p) = r + p by omega,
      Nat.add_mod_right, Nat.mod_eq_of_lt hr]
  · -- another one would be a multiple of the modulus away
    rintro n ⟨⟨hLo, hHi⟩, hn⟩
    obtain ⟨k, rfl⟩ := Nat.exists_eq_add_of_le hLo
    congr 1
    have hSame : k ≡ r + p - m % p [MOD p] := by
      refine Nat.ModEq.add_left_cancel' m ?_
      have hLt : m % p < p := Nat.mod_lt _ (by omega)
      rw [Nat.ModEq, hn, ← Nat.mod_add_mod, show m % p + (r + p - m % p) = r + p by omega,
        Nat.add_mod_right, Nat.mod_eq_of_lt hr]
    rw [← Nat.mod_eq_of_lt (show k < p by omega)]
    exact hSame

/-- Every reading is shown exactly once in each period. -/
theorem existsUnique_reading {x y : ℕ} (hx : x < b) (hy : y < c) (m : ℕ) :
    ∃! n, (m ≤ n ∧ n < m + b * c) ∧ reading b c n = (x, y) := by
  simp only [reading_eq_iff hx hy]
  refine existsUnique_mod ?_ m
  calc x + b * y < b + b * y := Nat.add_lt_add_right hx _
    _ = b * (y + 1) := by rw [Nat.mul_succ, Nat.add_comm]
    _ ≤ b * c := Nat.mul_le_mul_left b hy

/-- From any contents of the registers the wheels settle: after at most `M - b`
ticks for the first and `N - c` of its turns for the second, they read a clock
off by a constant. -/
theorem exists_phase (hb : 0 < b) (hM : b ≤ M) (hc : 0 < c) (hN : c ≤ N) {w : ℕ × ℕ}
    (hLow : w.1 < M) (hHigh : w.2 < N) :
    ∃ φ, ∀ n, (M - b) + b * (N - c) ≤ n → (turn b M c N)^[n] w = reading b c (n + φ) := by
  -- the first wheel in range, and then the second
  set w' := (turn b M c N)^[M - b] w
  have hLow' : w'.1 < b := by
    rw [iterate_turn_fst]
    exact iterate_advance_lt hb hM hLow le_rfl
  have hHigh' : w'.2 < N := iterate_turn_snd_lt hHigh _
  set h := (advance c N)^[N - c] w'.2
  have hIn : h < c := iterate_advance_lt hc hN hHigh' le_rfl
  -- the rows the second wheel is ahead by, shifted by whole periods to stay positive
  have hShift : N - c ≤ c * (N - c) := Nat.le_mul_of_pos_left _ hc
  have hPeriod : M - b ≤ b * (c * (M - b)) :=
    (Nat.le_mul_of_pos_left _ hc).trans (Nat.le_mul_of_pos_left _ hb)
  refine ⟨w'.1 + b * (h + (c * (N - c) - (N - c))) + (b * (c * (M - b)) - (M - b)),
    fun n hn => ?_⟩
  obtain ⟨m, rfl⟩ := Nat.exists_eq_add_of_le (Nat.le_of_add_right_le hn)
  have hm : b * (N - c) ≤ m := Nat.le_of_add_le_add_left hn
  have hTurns : N - c ≤ (w'.1 + m) / b := by
    rw [Nat.le_div_iff_mul_le hb, Nat.mul_comm]
    omega
  obtain ⟨k, hk⟩ := Nat.exists_eq_add_of_le hTurns
  have hSum : M - b + m + (w'.1 + b * (h + (c * (N - c) - (N - c))) +
      (b * (c * (M - b)) - (M - b))) =
      w'.1 + m + b * (h + (c * (N - c) - (N - c)) + c * (M - b)) := by
    rw [Nat.mul_add b (h + _), ← Nat.add_assoc, ← Nat.add_assoc]
    omega
  have hRows : N - c + k + (h + (c * (N - c) - (N - c)) + c * (M - b)) =
      h + k + c * (N - c + (M - b)) := by
    rw [Nat.mul_add]
    omega
  rw [Nat.add_comm (M - b) m, Function.iterate_add_apply, iterate_turn_of_lt hM hLow',
    Nat.add_comm m (M - b), hSum, reading, Nat.add_mul_mod_self_left,
    Nat.add_mul_div_left _ _ hb, hk, hRows, Nat.add_mul_mod_self_left, Nat.add_comm (N - c) k,
    Function.iterate_add_apply, iterate_advance_of_lt hN hIn]

end TwoWheels

end Odometer

import Ece385.Tetris.Handover
import Mathlib.Dynamics.PeriodicPts.Lemmas
import Mathlib.Tactic.IntervalCases
import Mathlib.Tactic.NormNum.Prime

/-!
# Tetris — `LFSR.sv`

The shift register behind the piece choice. Both taps are among its low five
bits, so these step on their own and the upper three are their past: after three
clocks the whole register is a function of a five-bit one. That one runs through
all its nonzero values, and 0 is stuck.

* `lfsr_run_eq_iff` — from the third clock on the register repeats after 31
  clocks and not before, unless the low five bits were 0.
* `lfsr_draws_every_kind` — in any 31 clocks from then on, every kind comes up.
-/

open Clocked Function

namespace Ece385.Tetris

/-- One rising edge of `Clk`: `{LFSR_out[6:0], feedback}`. -/
def lfsrStep (lfsrOut : BitVec 8) (reset : Bool) : BitVec 8 :=
  if reset then 0xff
  else lfsrOut.extractLsb' 0 7 ++ BitVec.ofBool (lfsrOut.getLsbD 4 ^^ lfsrOut.getLsbD 2)

/-- The register after `n` clocks without a reset. -/
abbrev lfsrRun (lfsrOut : BitVec 8) (n : ℕ) : BitVec 8 :=
  trace lfsrStep lfsrOut (fun _ => false) n

/-! ## The low five bits -/

/-- `LFSR_out[4:0]` -/
def lowBits (x : BitVec 8) : BitVec 5 := x.setWidth 5

/-- The same shift on five bits, the taps 4 and 2. -/
def lowStep (y : BitVec 5) : BitVec 5 :=
  y.extractLsb' 0 4 ++ BitVec.ofBool (y.getLsbD 4 ^^ y.getLsbD 2)

/-- The register whose low five bits were `y` three clocks ago. -/
def widen (y : BitVec 5) : BitVec 8 := lfsrRun (y.setWidth 8) 3

/-- Bit by bit, a step is a shift. -/
theorem getLsbD_lfsrStep (x : BitVec 8) (i : ℕ) (hi : i < 8) :
    (lfsrStep x false).getLsbD i =
      if i = 0 then x.getLsbD 4 ^^ x.getLsbD 2 else x.getLsbD (i - 1) := by
  simp only [lfsrStep, Bool.false_eq_true, if_false]
  grind

theorem lowBits_step (x : BitVec 8) : lowBits (lfsrStep x false) = lowStep (lowBits x) := by
  refine BitVec.eq_of_getLsbD_eq fun i hi => ?_
  simp only [lowBits, lowStep, lfsrStep, Bool.false_eq_true, if_false]
  grind

theorem lowBits_run (x : BitVec 8) (n : ℕ) : lowBits (lfsrRun x n) = lowStep^[n] (lowBits x) := by
  induction n with
  | zero => rfl
  | succ n ih => rw [lfsrRun, trace_succ, lowBits_step, ih, iterate_succ_apply']

/-- Three shifts push out the bits above the low five. -/
theorem lfsrRun_three (x : BitVec 8) : lfsrRun x 3 = widen (lowBits x) := by
  refine BitVec.eq_of_getLsbD_eq fun i hi => ?_
  show (lfsrStep (lfsrStep (lfsrStep x false) false) false).getLsbD i =
    (lfsrStep (lfsrStep (lfsrStep ((lowBits x).setWidth 8) false) false) false).getLsbD i
  have hLow : ∀ j < 5, ((lowBits x).setWidth 8).getLsbD j = x.getLsbD j := fun j hj => by
    simp [lowBits, hj]
    omega
  interval_cases i <;> simp (disch := decide) only [getLsbD_lfsrStep, hLow]

theorem lowBits_widen (y : BitVec 5) : lowBits (widen y) = lowStep^[3] y := by
  rw [widen, lowBits_run, lowBits, BitVec.setWidth_setWidth_of_le y (by decide),
    BitVec.setWidth_eq]

/-- From the third clock on the low bits of three clocks ago decide the register. -/
theorem lfsrRun_eq_widen (x : BitVec 8) (n : ℕ) :
    lfsrRun x (n + 3) = widen (lowStep^[n] (lowBits x)) := by
  rw [lfsrRun, trace_add, ← lowBits_run]
  exact lfsrRun_three _

theorem iterate_lowStep_period : ∀ y : BitVec 5, lowStep^[31] y = y := by decide +kernel

theorem lowStep_injective : Injective lowStep :=
  LeftInverse.injective (g := lowStep^[30]) iterate_lowStep_period

theorem widen_injective : Injective widen := fun y z h => by
  -- the low bits are three steps on, and a step loses nothing
  have hLow := congrArg lowBits h
  rw [lowBits_widen, lowBits_widen] at hLow
  exact lowStep_injective.iterate 3 hLow

theorem lowStep_ne_self : ∀ y : BitVec 5, y ≠ 0 → lowStep y ≠ y := by decide

theorem minimalPeriod_lowStep {y : BitVec 5} (hy : y ≠ 0) : minimalPeriod lowStep y = 31 := by
  -- 31 is prime, and no value but 0 is fixed
  have : Fact (Nat.Prime 31) := ⟨by norm_num⟩
  exact minimalPeriod_eq_prime (iterate_lowStep_period y) (lowStep_ne_self y hy)

theorem iterate_lowStep_eq_iff {y : BitVec 5} (hy : y ≠ 0) (m n : ℕ) :
    lowStep^[m] y = lowStep^[n] y ↔ m ≡ n [MOD 31] := by
  have hPeriod := minimalPeriod_lowStep hy
  have hMod : ∀ k, lowStep^[k] y = lowStep^[k % 31] y := fun k => by
    rw [← hPeriod, iterate_mod_minimalPeriod_eq]
  have hLt : ∀ k, k % 31 < minimalPeriod lowStep y := fun k => by omega
  rw [hMod m, hMod n, iterate_eq_iterate_iff_of_lt_minimalPeriod (hLt m) (hLt n)]
  rfl

theorem iterate_lowStep_ne_zero {y : BitVec 5} (hy : y ≠ 0) (n : ℕ) : lowStep^[n] y ≠ 0 := by
  have hStuck : lowStep^[n] 0 = 0 := iterate_fixed (by decide) n
  exact fun h => hy (lowStep_injective.iterate n (h.trans hStuck.symm))

/-- The nonzero values form one cycle: there are 31 of them. -/
theorem exists_iterate_lowStep {y z : BitVec 5} (hy : y ≠ 0) (hz : z ≠ 0) :
    ∃ j < 31, lowStep^[j] y = z := by
  have hPos : ∀ x : BitVec 5, x ≠ 0 → x.toNat ∈ Finset.Ico 1 32 := fun x hx => by
    have hNe : x.toNat ≠ 0 := fun h => hx (BitVec.eq_of_toNat_eq h)
    exact Finset.mem_Ico.mpr ⟨Nat.one_le_iff_ne_zero.mpr hNe, x.isLt⟩
  -- 31 distinct values among the 31 that are not 0
  have hAll : (Finset.range 31).image (fun j => (lowStep^[j] y).toNat) = Finset.Ico 1 32 := by
    refine Finset.eq_of_subset_of_card_le (fun v hv => ?_) ?_
    · obtain ⟨j, -, rfl⟩ := Finset.mem_image.mp hv
      exact hPos _ (iterate_lowStep_ne_zero hy j)
    · rw [Finset.card_image_of_injOn, Finset.card_range, Nat.card_Ico]
      intro i hi j hj hSame
      have hMod := (iterate_lowStep_eq_iff hy i j).mp (BitVec.eq_of_toNat_eq hSame)
      rw [Finset.coe_range, Set.mem_Iio] at hi hj
      exact hMod.eq_of_lt_of_lt hi hj
  obtain ⟨j, hj, hSame⟩ := Finset.mem_image.mp (hAll ▸ hPos z hz)
  exact ⟨j, Finset.mem_range.mp hj, BitVec.eq_of_toNat_eq hSame⟩

/-! ## The whole register -/

/-- The kinds a nonzero register draws from. -/
theorem exists_widen_kind : ∀ k : BitVec 3, k ≠ 7 →
    ∃ z : BitVec 5, z ≠ 0 ∧ (widen z % 7).setWidth 3 = k := by decide

/-- From the third clock on the register is periodic with period exactly 31. -/
theorem lfsr_run_eq_iff (x : BitVec 8) (hx : lowBits x ≠ 0) {m n : ℕ} (hm : 3 ≤ m)
    (hn : 3 ≤ n) : lfsrRun x m = lfsrRun x n ↔ m ≡ n [MOD 31] := by
  obtain ⟨m, rfl⟩ := Nat.exists_eq_add_of_le' hm
  obtain ⟨n, rfl⟩ := Nat.exists_eq_add_of_le' hn
  rw [lfsrRun_eq_widen, lfsrRun_eq_widen, widen_injective.eq_iff, iterate_lowStep_eq_iff hx]
  exact (Nat.ModEq.add_iff_right rfl).symm

/-- With the low five bits 0 the register empties and stays empty. -/
theorem lfsr_stuck (x : BitVec 8) (hx : lowBits x = 0) {n : ℕ} (hn : 3 ≤ n) :
    lfsrRun x n = 0 := by
  obtain ⟨n, rfl⟩ := Nat.exists_eq_add_of_le' hn
  rw [lfsrRun_eq_widen, hx, iterate_fixed (by decide) n]
  decide

/-- In any 31 clocks from the third on, `choose_block` could load every kind. -/
theorem lfsr_draws_every_kind (x : BitVec 8) (hx : lowBits x ≠ 0) {n : ℕ} (hn : 3 ≤ n)
    (k : BitVec 3) (hk : k ≠ 7) : ∃ j < 31, (lfsrRun x (n + j) % 7).setWidth 3 = k := by
  obtain ⟨n, rfl⟩ := Nat.exists_eq_add_of_le' hn
  obtain ⟨z, hz, rfl⟩ := exists_widen_kind k hk
  obtain ⟨j, hj, hReach⟩ := exists_iterate_lowStep (iterate_lowStep_ne_zero hx n) hz
  refine ⟨j, hj, ?_⟩
  rw [show n + 3 + j = j + n + 3 by omega, lfsrRun_eq_widen, iterate_add_apply, hReach]

/-- From any byte, and from the third clock on: either the register is 0 for good, which
is when its low five bits were, or its values repeat after 31 clocks and not before,
and every kind is drawn from within any 31 of them. -/
theorem lfsr_cycle (x : BitVec 8) (n : ℕ) (hn : 3 ≤ n) :
    (lowBits x = 0 ∧ ∀ k, lfsrRun x (n + k) = 0) ∨
      (lowBits x ≠ 0 ∧ (∀ k, lfsrRun x (n + k) = lfsrRun x n ↔ 31 ∣ k) ∧
        ∀ kind : BitVec 3, kind ≠ 7 → ∃ j < 31, (lfsrRun x (n + j) % 7).setWidth 3 = kind) := by
  by_cases hx : lowBits x = 0
  · exact Or.inl ⟨hx, fun k => lfsr_stuck x hx (by omega)⟩
  · refine Or.inr ⟨hx, fun k => ?_, lfsr_draws_every_kind x hx hn⟩
    rw [lfsr_run_eq_iff x hx (by omega) hn, Nat.ModEq.comm, Nat.modEq_iff_dvd' (by omega),
      Nat.add_sub_cancel_left]

theorem lfsr_cycle_ff :
    3 ≤ 3 ∧ ((lowBits 0xff = 0 ∧ ∀ k, lfsrRun 0xff (3 + k) = 0) ∨
      (lowBits 0xff ≠ 0 ∧ (∀ k, lfsrRun 0xff (3 + k) = lfsrRun 0xff 3 ↔ 31 ∣ k) ∧
        ∀ kind : BitVec 3, kind ≠ 7 →
          ∃ j < 31, (lfsrRun 0xff (3 + j) % 7).setWidth 3 = kind)) :=
  ⟨le_rfl, lfsr_cycle 0xff 3 le_rfl⟩

end Ece385.Tetris

import Mathlib.Algebra.BigOperators.Fin
import Mathlib.Logic.Equiv.Fin.Basic
import Mathlib.RingTheory.AdjoinRoot

/-!
# Multiplication of polynomials modulo X^n - 1

The product of two polynomials of degree below `n`, reduced modulo `X ^ n - 1`,
has the cyclic convolution of their coefficients as coefficients: exponents
only count modulo `n`.

Main result:

* `coeff_mul_modByMonic` — coefficient `k` of the reduced product is
  `∑ i, a i * b (k - i)`, the subtraction being that of `Fin n`.
-/

open Polynomial Finset

namespace CyclicProduct

variable {R : Type*} [CommRing R] {n : ℕ}

/-- The polynomial with the given coefficients. -/
noncomputable def ofCoeffs (a : Fin n → R) : R[X] := ∑ i, C (a i) * X ^ (i : ℕ)

theorem coeff_ofCoeffs (a : Fin n → R) (k : Fin n) : (ofCoeffs a).coeff k = a k := by
  rw [ofCoeffs, finsetSum_coeff, sum_eq_single k]
  · simp
  · intro i _ hik
    have hne : (k : ℕ) ≠ i := fun h => hik (Fin.ext h.symm)
    simp [coeff_X_pow, hne]
  · exact fun h => absurd (mem_univ k) h

theorem degree_ofCoeffs_lt (a : Fin n → R) : (ofCoeffs a).degree < n := by
  refine (degree_sum_le _ _).trans_lt ((Finset.sup_lt_iff (WithBot.bot_lt_coe n)).mpr ?_)
  intro i _
  exact (degree_C_mul_X_pow_le _ _).trans_lt (Nat.cast_lt.mpr i.isLt)

/-- The cyclic convolution of two coefficient sequences. -/
def convolve [NeZero n] (a b : Fin n → R) (k : Fin n) : R := ∑ i, a i * b (k - i)

theorem root_pow_eq_one : AdjoinRoot.root (X ^ n - 1 : R[X]) ^ n = 1 := by
  have hSelf := AdjoinRoot.mk_self (f := (X ^ n - 1 : R[X]))
  rw [map_sub, map_pow, AdjoinRoot.mk_X, map_one] at hSelf
  exact sub_eq_zero.mp hSelf

theorem mk_ofCoeffs (g : R[X]) (a : Fin n → R) :
    AdjoinRoot.mk g (ofCoeffs a) = ∑ i, AdjoinRoot.of g (a i) * AdjoinRoot.root g ^ (i : ℕ) := by
  simp only [ofCoeffs, map_sum, map_mul, map_pow, AdjoinRoot.mk_C, AdjoinRoot.mk_X]

/-- Exponents that agree modulo `n` give the same power of the root. -/
theorem root_pow_add_sub [NeZero n] (i k : Fin n) :
    AdjoinRoot.root (X ^ n - 1 : R[X]) ^ ((i : ℕ) + ((k - i : Fin n) : ℕ)) =
      AdjoinRoot.root (X ^ n - 1 : R[X]) ^ (k : ℕ) := by
  have hSum : ((i : ℕ) + ((k - i : Fin n) : ℕ)) % n = k := by
    rw [← Fin.val_add, add_sub_cancel]
  rw [pow_eq_pow_mod _ root_pow_eq_one, hSum]

/-- Modulo `X ^ n - 1` the product is the convolution. -/
theorem mk_mul_ofCoeffs [NeZero n] (a b : Fin n → R) :
    AdjoinRoot.mk (X ^ n - 1 : R[X]) (ofCoeffs a * ofCoeffs b) =
      AdjoinRoot.mk (X ^ n - 1 : R[X]) (ofCoeffs (convolve a b)) := by
  have hRow : ∀ i : Fin n,
      (∑ j : Fin n, AdjoinRoot.of (X ^ n - 1 : R[X]) (a i) * AdjoinRoot.root _ ^ (i : ℕ) *
        (AdjoinRoot.of (X ^ n - 1 : R[X]) (b j) * AdjoinRoot.root _ ^ (j : ℕ))) =
      ∑ k : Fin n, AdjoinRoot.of (X ^ n - 1 : R[X]) (a i * b (k - i)) *
        AdjoinRoot.root _ ^ (k : ℕ) := by
    intro i
    -- sum over `k = i + j` instead of over `j`
    rw [← (Equiv.subRight i).sum_comp]
    refine sum_congr rfl fun k _ => ?_
    rw [Equiv.subRight_apply, map_mul, ← root_pow_add_sub i k, pow_add]
    ring
  rw [map_mul, mk_ofCoeffs, mk_ofCoeffs, mk_ofCoeffs, sum_mul_sum, sum_congr rfl fun i _ => hRow i,
    sum_comm]
  simp only [convolve, map_sum, sum_mul]

theorem coeff_mul_modByMonic [Nontrivial R] [NeZero n] (a b : Fin n → R) (k : Fin n) :
    ((ofCoeffs a * ofCoeffs b) %ₘ (X ^ n - 1)).coeff k = ∑ i, a i * b (k - i) := by
  have hMonic : (X ^ n - 1 : R[X]).Monic := monic_X_pow_sub_C 1 (NeZero.ne n)
  have hDvd : (X ^ n - 1 : R[X]) ∣ ofCoeffs a * ofCoeffs b - ofCoeffs (convolve a b) :=
    AdjoinRoot.mk_eq_mk.mp (mk_mul_ofCoeffs a b)
  have hDegree : (ofCoeffs (convolve a b)).degree < (X ^ n - 1 : R[X]).degree := by
    rw [← map_one C, degree_X_pow_sub_C (NeZero.pos n)]
    exact degree_ofCoeffs_lt _
  rw [modByMonic_eq_of_dvd_sub hMonic hDvd, (modByMonic_eq_self_iff hMonic).mpr hDegree,
    coeff_ofCoeffs, convolve]

end CyclicProduct

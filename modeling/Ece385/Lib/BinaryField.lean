import Mathlib.Algebra.Field.ZMod
import Mathlib.Data.BitVec
import Mathlib.RingTheory.AdjoinRoot

/-!
# Bit vectors as elements of a binary field

A bit vector of width `n` stands for a polynomial of degree below `n` over
GF(2), bit `i` being the coefficient of `X ^ i`, and modulo a monic `f` of
degree `n` for an element of `GF(2)[X] / (f)`. The bit operations hardware and
table-free software use are the ring operations there: `xor` is addition, a
shift with conditional correction is multiplication by the root.

Main results:

* `toRoot_bijective` — every element has exactly one representation.
* `toRoot_double`, `toRoot_mul` — the shift-and-add product is the product.
* `irreducible_of_inverse` — if a function on bit vectors computes inverses,
  `f` is irreducible, so the quotient is a field.
-/

open Polynomial Finset

namespace BinaryField

variable {n : ℕ}

/-! ## Polynomials of bits -/

/-- Bit `i` is the coefficient of `X ^ i`. -/
noncomputable def toPoly (b : BitVec n) : (ZMod 2)[X] :=
  ∑ i ∈ range n, if b.getLsbD i then X ^ i else 0

theorem coeff_toPoly (b : BitVec n) (i : ℕ) :
    (toPoly b).coeff i = if b.getLsbD i then 1 else 0 := by
  have hTerm : ∀ j, (if b.getLsbD j then (X ^ j : (ZMod 2)[X]) else 0).coeff i =
      if i = j then (if b.getLsbD i then 1 else 0) else 0 := by
    intro j
    by_cases hij : i = j
    · subst hij
      cases b.getLsbD i <;> simp
    · split_ifs <;> simp [coeff_X_pow, hij]
  simp only [toPoly, finsetSum_coeff, hTerm, sum_ite_eq, mem_range]
  by_cases hi : i < n
  · rw [if_pos hi]
  · rw [if_neg hi, BitVec.getLsbD_of_ge b i (by omega)]
    rfl

theorem toPoly_zero : toPoly (0#n) = 0 := by
  ext i
  simp [coeff_toPoly]

theorem toPoly_xor (a b : BitVec n) : toPoly (a ^^^ b) = toPoly a + toPoly b := by
  ext i
  rw [coeff_add, coeff_toPoly, coeff_toPoly, coeff_toPoly, BitVec.getLsbD_xor]
  cases a.getLsbD i <;> cases b.getLsbD i <;> decide

/-- A bit is read back off its coefficient. -/
theorem getLsbD_eq_decide (b : BitVec n) (i : ℕ) :
    b.getLsbD i = decide ((toPoly b).coeff i = 1) := by
  rw [coeff_toPoly]
  cases b.getLsbD i <;> decide

theorem toPoly_injective : Function.Injective (toPoly : BitVec n → (ZMod 2)[X]) := by
  intro a b h
  refine BitVec.eq_of_getLsbD_eq fun i _ => ?_
  rw [getLsbD_eq_decide, h, ← getLsbD_eq_decide]

theorem degree_toPoly_lt (b : BitVec n) : (toPoly b).degree < n := by
  rw [degree_lt_iff_coeff_zero]
  intro i hi
  rw [coeff_toPoly, BitVec.getLsbD_of_ge b i (by omega)]
  rfl

/-! ## Elements of the quotient -/

/-- `f` is `X ^ n` plus the polynomial of `r`, the bits a shift out of the top
is corrected by. -/
structure IsModulus (f : (ZMod 2)[X]) (r : BitVec n) : Prop where
  pos : 0 < n
  eq : f = X ^ n + toPoly r

section Quotient

variable {f : (ZMod 2)[X]} {r : BitVec n}

theorem IsModulus.monic (h : IsModulus f r) : f.Monic := by
  rw [h.eq]
  exact monic_X_pow_add (degree_toPoly_lt r)

theorem IsModulus.degree_eq (h : IsModulus f r) : f.degree = n := by
  have hLt : (toPoly r).degree < ((X : (ZMod 2)[X]) ^ n).degree := by
    rw [degree_X_pow]
    exact degree_toPoly_lt r
  rw [h.eq, degree_add_eq_left_of_degree_lt hLt, degree_X_pow]

/-- The element a bit vector stands for. -/
noncomputable def toRoot (f : (ZMod 2)[X]) (b : BitVec n) : AdjoinRoot f :=
  AdjoinRoot.mk f (toPoly b)

theorem toRoot_zero (f : (ZMod 2)[X]) : toRoot f (0#n) = 0 := by
  rw [toRoot, toPoly_zero, map_zero]

theorem toRoot_xor (f : (ZMod 2)[X]) (a b : BitVec n) :
    toRoot f (a ^^^ b) = toRoot f a + toRoot f b := by
  rw [toRoot, toPoly_xor, map_add]
  rfl

theorem toRoot_one (h : IsModulus f r) : toRoot f (1#n) = 1 := by
  have hPoly : toPoly (1#n) = 1 := by
    ext i
    have hBit : (1#n).getLsbD i = decide (i = 0) := by
      rw [BitVec.getLsbD_one, decide_eq_true h.pos, Bool.true_and]
    rw [coeff_toPoly, hBit, coeff_one]
    simp only [decide_eq_true_eq]
  rw [toRoot, hPoly, map_one]

theorem toRoot_injective (h : IsModulus f r) :
    Function.Injective (toRoot f : BitVec n → AdjoinRoot f) := by
  intro a b hab
  -- the degree is too small for anything to be reduced
  have hRep : ∀ c : BitVec n, AdjoinRoot.modByMonicHom h.monic (toRoot f c) = toPoly c := by
    intro c
    rw [toRoot, AdjoinRoot.modByMonicHom_mk, modByMonic_eq_self_iff h.monic, h.degree_eq]
    exact degree_toPoly_lt c
  exact toPoly_injective (by rw [← hRep, hab, hRep])

/-! ## Multiplication -/

/-- Shift up by one and correct by `r` if the top bit fell out. -/
def double (r b : BitVec n) : BitVec n := (b <<< 1) ^^^ if b.msb then r else 0#n

/-- The shift carries the top coefficient to degree `n`. -/
theorem X_mul_toPoly (hn : 0 < n) (b : BitVec n) :
    X * toPoly b = toPoly (b <<< 1) + if b.msb then X ^ n else 0 := by
  ext i
  cases i with
  | zero =>
    have hTop : ¬ 0 = n := by omega
    rw [coeff_add, coeff_toPoly, BitVec.getLsbD_shiftLeft]
    split_ifs <;> simp_all [coeff_X_pow]
  | succ i =>
    have hShift : (b <<< 1).getLsbD (i + 1) = (decide (i + 1 < n) && b.getLsbD i) := by
      simp [BitVec.getLsbD_shiftLeft]
    have hMsb : b.msb = b.getLsbD (n - 1) := BitVec.msb_eq_getLsbD_last b
    rw [coeff_X_mul, coeff_add, coeff_toPoly, coeff_toPoly, hShift]
    by_cases hi : i + 1 < n
    · have hne : ¬ i + 1 = n := by omega
      split_ifs <;> simp_all [coeff_X_pow]
    · by_cases hTop : i + 1 = n
      · have hLast : n - 1 = i := by omega
        rw [hMsb, hLast]
        cases b.getLsbD i <;> simp [coeff_X_pow, hTop]
      · rw [BitVec.getLsbD_of_ge b i (by omega)]
        split_ifs <;> simp_all [coeff_X_pow]

/-- Doubling is multiplication by the root. -/
theorem toRoot_double (h : IsModulus f r) (b : BitVec n) :
    toRoot f (double r b) = AdjoinRoot.root f * toRoot f b := by
  -- in characteristic 2 the top power is the correction
  have hTop : AdjoinRoot.mk f (X ^ n) = AdjoinRoot.mk f (toPoly r) := by
    rw [AdjoinRoot.mk_eq_mk, CharTwo.sub_eq_add, ← h.eq]
  have hMul : AdjoinRoot.root f * toRoot f b = AdjoinRoot.mk f (X * toPoly b) := by
    rw [map_mul, AdjoinRoot.mk_X, toRoot]
  rw [hMul, X_mul_toPoly h.pos, double, toRoot_xor, map_add, toRoot]
  cases b.msb
  · simp [toRoot_zero]
  · simp [hTop, toRoot]

/-- Every element is reached: the constants are, sums are by `xor` and
multiples of the root by doubling. -/
theorem toRoot_surjective (h : IsModulus f r) :
    Function.Surjective (toRoot f : BitVec n → AdjoinRoot f) := by
  intro x
  obtain ⟨p, rfl⟩ := AdjoinRoot.mk_surjective x
  induction p using Polynomial.induction_on with
  | C a =>
    have hBit : a = 0 ∨ a = 1 := by revert a; decide
    rcases hBit with rfl | rfl
    · exact ⟨0#n, by rw [toRoot_zero, map_zero, map_zero]⟩
    · exact ⟨1#n, by rw [toRoot_one h, map_one, map_one]⟩
  | add p q hp hq =>
    obtain ⟨b, hb⟩ := hp
    obtain ⟨c, hc⟩ := hq
    exact ⟨b ^^^ c, by rw [toRoot_xor, hb, hc, map_add]⟩
  | monomial k a ih =>
    obtain ⟨b, hb⟩ := ih
    refine ⟨double r b, ?_⟩
    rw [toRoot_double h, hb, pow_succ, ← mul_assoc, map_mul _ _ X, AdjoinRoot.mk_X, mul_comm]

theorem toRoot_bijective (h : IsModulus f r) :
    Function.Bijective (toRoot f : BitVec n → AdjoinRoot f) :=
  ⟨toRoot_injective h, toRoot_surjective h⟩

/-- The first `k` rows of the shift-and-add product. -/
def mulUpTo (r a b : BitVec n) : ℕ → BitVec n
  | 0 => 0#n
  | k + 1 => mulUpTo r a b k ^^^ if a.getLsbD k then (double r)^[k] b else 0#n

/-- The shift-and-add product modulo the modulus. -/
def mul (r a b : BitVec n) : BitVec n := mulUpTo r a b n

theorem toRoot_double_iterate (h : IsModulus f r) (b : BitVec n) (k : ℕ) :
    toRoot f ((double r)^[k] b) = AdjoinRoot.root f ^ k * toRoot f b := by
  induction k with
  | zero => simp
  | succ k ih =>
    rw [Function.iterate_succ_apply', toRoot_double h, ih]
    ring

theorem toRoot_mul (h : IsModulus f r) (a b : BitVec n) :
    toRoot f (mul r a b) = toRoot f a * toRoot f b := by
  have hRows : ∀ k, toRoot f (mulUpTo r a b k) =
      (∑ i ∈ range k, if a.getLsbD i then AdjoinRoot.root f ^ i else 0) * toRoot f b := by
    intro k
    induction k with
    | zero => rw [mulUpTo, toRoot_zero, sum_range_zero, zero_mul]
    | succ k ih =>
      rw [mulUpTo, toRoot_xor, ih, sum_range_succ, add_mul]
      cases a.getLsbD k
      · simp [toRoot_zero]
      · simp [toRoot_double_iterate h]
  have hValue : toRoot f a = ∑ i ∈ range n, if a.getLsbD i then AdjoinRoot.root f ^ i else 0 := by
    rw [toRoot, toPoly, map_sum]
    refine sum_congr rfl fun i _ => ?_
    cases a.getLsbD i
    · simp
    · simp
  rw [mul, hRows, ← hValue]

/-! ## Inverses -/

/-- If `inv` computes inverses of the nonzero bit vectors, the modulus is
irreducible. -/
theorem irreducible_of_inverse (h : IsModulus f r) (inv : BitVec n → BitVec n)
    (hInv : ∀ b, b ≠ 0#n → mul r b (inv b) = 1#n) : Irreducible f := by
  have hField : IsField (AdjoinRoot f) := by
    refine ⟨⟨0, 1, ?_⟩, mul_comm, ?_⟩
    · rw [← toRoot_zero (n := n), ← toRoot_one h]
      intro hEq
      have hBits := congrArg (BitVec.getLsbD · 0) (toRoot_injective h hEq)
      have hPos := h.pos
      simp [hPos] at hBits
    · intro x hx
      obtain ⟨b, rfl⟩ := toRoot_surjective h x
      have hb : b ≠ 0#n := by
        rintro rfl
        exact hx (toRoot_zero f)
      exact ⟨toRoot f (inv b), by rw [← toRoot_mul h, hInv b hb, toRoot_one h]⟩
  -- the ideal of a field quotient is maximal, hence prime
  have hMaximal : (Ideal.span {f}).IsMaximal := Ideal.Quotient.maximal_of_isField _ hField
  exact ((Ideal.span_singleton_prime h.monic.ne_zero).mp hMaximal.isPrime).irreducible

end Quotient

end BinaryField

import Mathlib.Algebra.Group.Nat.Hom
import Mathlib.Data.Fin.Rev
import Mathlib.Data.Fin.VecNotation
import Mathlib.Data.Nat.Notation

/-!
# Lanes of a bit vector

A vector of `k * n` bits read as `k` lanes of `n` bits each, lane 0 on top: the
bytes of a word, the words of a block. `join q` is the concatenation
`{q 0, q 1, …}`, `lane x i` the slice.

* `lane_join`, `join_lane` — the two are inverse to each other.
* `lane_ext` — a vector is determined by its lanes.
* `toNat_join_succ` — the value of a vector from those of its lanes.
-/

namespace Lanes

variable {n k : ℕ}

/-- `{q 0, q 1, …, q (k - 1)}` -/
def join : {k : ℕ} → (Fin k → BitVec n) → BitVec (k * n)
  | 0, _ => (0#0).cast (Nat.zero_mul n).symm
  | k + 1, q => (join (fun i => q i.castSucc) ++ q (Fin.last k)).cast (Nat.succ_mul k n).symm

/-- The `i`-th slice of `n` bits from the top. -/
def lane (x : BitVec (k * n)) (i : Fin k) : BitVec n := x.extractLsb' (i.rev * n) n

theorem getLsbD_lane (x : BitVec (k * n)) (i : Fin k) {j : ℕ} (hj : j < n) :
    (lane x i).getLsbD j = x.getLsbD (i.rev * n + j) := by
  rw [lane, BitVec.getLsbD_extractLsb']
  simp [hj]

@[simp] theorem lane_join (q : Fin k → BitVec n) (i : Fin k) : lane (join q) i = q i := by
  refine BitVec.eq_of_getLsbD_eq fun j hj => ?_
  rw [getLsbD_lane _ _ hj]
  induction k with
  | zero => exact i.elim0
  | succ k ih =>
    rw [join, BitVec.getLsbD_cast, BitVec.getLsbD_append]
    cases i using Fin.lastCases with
    | last => simp [hj]
    | cast i =>
      -- a lane further up, past the last one
      have hBit : (i.castSucc.rev : ℕ) * n + j = (i.rev * n + j) + n := by
        rw [Fin.rev_castSucc, Fin.val_succ, Nat.succ_mul]
        omega
      rw [hBit, if_neg (by omega), Nat.add_sub_cancel]
      exact ih (fun i => q i.castSucc) i

theorem lane_ext {x y : BitVec (k * n)} (h : ∀ i, lane x i = lane y i) : x = y := by
  refine BitVec.eq_of_getLsbD_eq fun j hj => ?_
  -- bit `j` is bit `j % n` of lane `j / n`, counted from below
  have hn : 0 < n := Nat.pos_of_mul_pos_left (Nat.zero_lt_of_lt hj)
  have hLane : j / n < k := Nat.div_lt_of_lt_mul (by rwa [Nat.mul_comm])
  have hMod : j % n < n := Nat.mod_lt _ hn
  have hBit := congrArg (fun b => b.getLsbD (j % n)) (h (Fin.rev ⟨j / n, hLane⟩))
  simp only [getLsbD_lane _ _ hMod, Fin.rev_rev] at hBit
  rwa [Nat.div_add_mod' j n] at hBit

@[simp] theorem join_lane (x : BitVec (k * n)) : join (lane x) = x :=
  lane_ext fun i => lane_join (lane x) i

@[simp] theorem lane_xor (x y : BitVec (k * n)) (i : Fin k) :
    lane (x ^^^ y) i = lane x i ^^^ lane y i := by
  refine BitVec.eq_of_getLsbD_eq fun j hj => ?_
  simp only [getLsbD_lane _ _ hj, BitVec.getLsbD_xor]

/-- The value of the lanes, the last one counting for least. -/
theorem toNat_join_succ (q : Fin (k + 1) → BitVec n) :
    (join q).toNat = (join fun i => q i.castSucc).toNat * 2 ^ n + (q (Fin.last k)).toNat := by
  rw [join, BitVec.toNat_cast, BitVec.toNat_append, ← Nat.shiftLeft_add_eq_or_of_lt (q _).isLt,
    Nat.shiftLeft_eq]

end Lanes

import Mathlib.Data.Nat.Notation
import Mathlib.Tactic.SplitIfs

/-!
# A point between two walls

A point moves by one, up to `lo + span` and down to `lo` again, for ever: `bounce lo span k` is
where it is `k` moves after it left `lo`, and `Rising span k` that it is on its way up.

* `bounce_mem` — it stays between the walls.
* `bounce_succ` — every move is by one.
* `rising_succ_iff` — it turns at the walls and nowhere else.
-/

namespace Bounce

variable {lo span : ℕ}

/-- The height after `k` moves from `lo`. -/
def bounce (lo span k : ℕ) : ℕ :=
  if k % (2 * span) < span then lo + k % (2 * span) else lo + 2 * span - k % (2 * span)

/-- The move after these `k` is upwards. -/
def Rising (span k : ℕ) : Prop := k % (2 * span) < span

instance (span k : ℕ) : Decidable (Rising span k) := inferInstanceAs (Decidable (_ < _))

theorem bounce_mem (hSpan : 0 < span) (k : ℕ) :
    lo ≤ bounce lo span k ∧ bounce lo span k ≤ lo + span := by
  have hMod := Nat.mod_lt k (by omega : 0 < 2 * span)
  rw [bounce]
  split_ifs <;> omega

/-- One step further round. -/
theorem succ_mod_eq (hSpan : 0 < span) (k : ℕ) :
    (k + 1) % (2 * span) =
      if k % (2 * span) + 1 = 2 * span then 0 else k % (2 * span) + 1 := by
  have hMod := Nat.mod_lt k (by omega : 0 < 2 * span)
  rw [Nat.add_mod, Nat.mod_eq_of_lt (by omega : 1 < 2 * span)]
  split_ifs with hWrap
  · rw [hWrap, Nat.mod_self]
  · exact Nat.mod_eq_of_lt (by omega)

theorem bounce_succ (hSpan : 0 < span) (k : ℕ) :
    bounce lo span (k + 1) =
      if Rising span k then bounce lo span k + 1 else bounce lo span k - 1 := by
  have hMod := Nat.mod_lt k (by omega : 0 < 2 * span)
  unfold bounce Rising
  rw [succ_mod_eq hSpan]
  split_ifs <;> omega

theorem rising_succ_iff (hSpan : 0 < span) (k : ℕ) :
    Rising span (k + 1) ↔ bounce lo span (k + 1) = lo ∨
      (Rising span k ∧ bounce lo span (k + 1) ≠ lo + span) := by
  have hMod := Nat.mod_lt k (by omega : 0 < 2 * span)
  unfold bounce Rising
  rw [succ_mod_eq hSpan]
  split_ifs <;> omega

/-- Between the walls a point on its way down is not at the lower one. -/
theorem lt_bounce_of_not_rising {k : ℕ} (hSpan : 0 < span) (h : ¬ Rising span k) :
    lo < bounce lo span k := by
  have hMod := Nat.mod_lt k (by omega : 0 < 2 * span)
  unfold Rising at h
  rw [bounce, if_neg h]
  omega

theorem bounce_lt_of_rising {k : ℕ} (h : Rising span k) : bounce lo span k < lo + span := by
  unfold Rising at h
  rw [bounce, if_pos h]
  omega

end Bounce

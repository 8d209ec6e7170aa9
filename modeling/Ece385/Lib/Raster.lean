import Mathlib.Data.BitVec
import Mathlib.Tactic.Ring

/-!
# Rectangles on a raster

A picture stored row by row and shown in a rectangle of the screen: the word
for a pixel is its offset from the top left corner, row-major. The address is
computed in machine words, the offset in natural numbers.

* `Rect.offset_lt` — the offset of a pixel inside is below the area.
* `Rect.Contains.not_below`, `Rect.Contains.not_right` — rectangles apart.
* `getElem?_rows` — the word stored at an offset, if the rows are stored one
  after the other.
* `toNat_rowMajor` — the address computed in `n` bits is the offset, as long as
  the offset fits.
-/

namespace Raster

/-- A rectangle of the screen with corner `(x, y)`. -/
structure Rect where
  x : ℕ
  y : ℕ
  width : ℕ
  height : ℕ
  deriving DecidableEq

/-- The pixel `(px, py)` lies in the rectangle. -/
structure Rect.Contains (r : Rect) (px py : ℕ) : Prop where
  left : r.x ≤ px
  right : px < r.x + r.width
  top : r.y ≤ py
  bottom : py < r.y + r.height

theorem Rect.contains_iff {r : Rect} {px py : ℕ} :
    r.Contains px py ↔ (r.x ≤ px ∧ px < r.x + r.width) ∧ r.y ≤ py ∧ py < r.y + r.height :=
  ⟨fun ⟨a, b, c, d⟩ => ⟨⟨a, b⟩, c, d⟩, fun ⟨⟨a, b⟩, c, d⟩ => ⟨a, b, c, d⟩⟩

instance (r : Rect) (px py : ℕ) : Decidable (r.Contains px py) :=
  decidable_of_iff' _ Rect.contains_iff

/-- Where the pixel is stored. -/
def Rect.offset (r : Rect) (px py : ℕ) : ℕ := (px - r.x) + (py - r.y) * r.width

/-- The number of pixels. -/
def Rect.area (r : Rect) : ℕ := r.width * r.height

theorem Rect.offset_lt {r : Rect} {px py : ℕ} (h : r.Contains px py) :
    r.offset px py < r.area := by
  obtain ⟨hLeft, hRight, hTop, hBottom⟩ := h
  have hCol : px - r.x < r.width := by omega
  have hRow : py - r.y + 1 ≤ r.height := by omega
  -- the rows above, full, and the part of its own row
  calc r.offset px py < r.width + (py - r.y) * r.width := Nat.add_lt_add_right hCol _
    _ = r.width * (py - r.y + 1) := by ring
    _ ≤ r.area := Nat.mul_le_mul_left _ hRow

/-- A pixel of `r` is in no rectangle that starts below it. -/
theorem Rect.Contains.not_below {r t : Rect} {px py : ℕ} (h : r.Contains px py)
    (hBelow : r.y + r.height ≤ t.y) : ¬ t.Contains px py :=
  fun hOther => absurd (hBelow.trans hOther.top) (Nat.not_le_of_gt h.bottom)

/-- A pixel of `r` is in no rectangle that starts to the right of it. -/
theorem Rect.Contains.not_right {r t : Rect} {px py : ℕ} (h : r.Contains px py)
    (hRight : r.x + r.width ≤ t.x) : ¬ t.Contains px py :=
  fun hOther => absurd (hRight.trans hOther.left) (Nat.not_le_of_gt h.right)

/-- The word at an offset of a picture whose rows are the lists `f r`. -/
theorem getElem?_rows {α β : Type*} {f : α → List β} {width : ℕ}
    (hWidth : ∀ r, (f r).length = width) (rows : List α) {x : ℕ} (hx : x < width) (y : ℕ) :
    (rows.flatMap f)[x + y * width]? = rows[y]?.bind fun r => (f r)[x]? := by
  induction rows generalizing y with
  | nil => rfl
  | cons r rows ih =>
    rw [List.flatMap_cons]
    cases y with
    | zero =>
      rw [Nat.zero_mul, Nat.add_zero, List.getElem?_append_left (by rw [hWidth]; exact hx)]
      rfl
    | succ y =>
      -- past the first row
      have hPast : (f r).length ≤ x + (y + 1) * width := by
        rw [hWidth, Nat.succ_mul]
        omega
      have hRest : x + (y + 1) * width - (f r).length = x + y * width := by
        rw [hWidth, Nat.succ_mul]
        omega
      rw [List.getElem?_append_right hPast, hRest, ih]
      rfl

/-- The address expression `(px - x) + (py - y) * width` in `n` bits. -/
theorem toNat_rowMajor {n : ℕ} {px py x y width : BitVec n} (hx : x ≤ px) (hy : y ≤ py)
    (hFits : (px.toNat - x.toNat) + (py.toNat - y.toNat) * width.toNat < 2 ^ n) :
    ((px - x) + (py - y) * width).toNat =
      (px.toNat - x.toNat) + (py.toNat - y.toNat) * width.toNat := by
  rw [BitVec.toNat_add, BitVec.toNat_mul, BitVec.toNat_sub_of_le hx, BitVec.toNat_sub_of_le hy,
    Nat.add_mod_mod, Nat.mod_eq_of_lt hFits]

end Raster

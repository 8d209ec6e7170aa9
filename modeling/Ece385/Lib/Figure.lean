import Mathlib.Algebra.Order.Group.Int
import Mathlib.Data.Finset.Image
import Mathlib.Data.Finset.Prod
import Mathlib.Data.Fintype.Prod
import Mathlib.Tactic.Abel

/-!
# Figures placed among obstacles

A figure is a finite set `P` of offsets in an additive group; `place P a` is
its copy anchored at `a`. It fits in a region `W` with obstacles `S` when every
cell of the copy is in `W` and none is in `S`. Collision tests of a moving
figure look only at the cells the move newly covers; the first part says that
this is enough. The second part is about figures in ℤ × ℤ and rectangular
regions, where the bounding box decides what stays inside.

Main results:

* `Fits.replace_iff` — from a fitting placement of `P` the figure `Q` fits iff it is inside
  and the cells that `P` did not cover are free.
* `Box.inside_iff` — a figure with bounding box `h × w` is inside `well m n`
  iff its anchor and its opposite corner are.
-/

open Finset

namespace Figure

/-! ## Placement -/

section Placement

variable {α : Type*} [AddCommGroup α] [DecidableEq α] {W S : Set α} {P Q : Finset α} {a e p : α}

/-- The figure `P` anchored at `a`. -/
def place (P : Finset α) (a : α) : Finset α := P.image (a + ·)

theorem mem_place : p ∈ place P a ↔ ∃ d ∈ P, a + d = p := mem_image

theorem add_mem_place {d : α} (h : d ∈ P) : a + d ∈ place P a := mem_image_of_mem _ h

theorem forall_mem_place {R : α → Prop} : (∀ p ∈ place P a, R p) ↔ ∀ d ∈ P, R (a + d) :=
  forall_mem_image

/-- Anchoring a moved figure is moving the anchor. -/
theorem place_place : place (place P e) a = place P (a + e) := by
  ext p
  simp only [mem_place]
  constructor
  · rintro ⟨-, ⟨d, hd, rfl⟩, rfl⟩
    exact ⟨d, hd, by abel⟩
  · rintro ⟨d, hd, rfl⟩
    exact ⟨e + d, ⟨d, hd, rfl⟩, by abel⟩

theorem card_place : (place P a).card = P.card :=
  card_image_of_injective _ (add_right_injective a)

/-- Every cell of the figure is inside `W`. -/
def Inside (W : Set α) (Q : Finset α) : Prop := ∀ p ∈ Q, p ∈ W

/-- No cell of the figure is an obstacle. -/
def Free (S : Set α) (Q : Finset α) : Prop := ∀ p ∈ Q, p ∉ S

/-- The figure is in the region and off the obstacles. -/
structure Fits (W S : Set α) (Q : Finset α) : Prop where
  inside : Inside W Q
  free : Free S Q

omit [AddCommGroup α] [DecidableEq α] in
theorem not_free_iff : ¬ Free S Q ↔ ∃ p ∈ Q, p ∈ S := by simp [Free]

/-- Only the newly covered cells of `Q` can meet an obstacle. -/
theorem Free.replace_iff (h : Free S (place P a)) :
    Free S (place Q a) ↔ ∀ d ∈ Q \ P, a + d ∉ S := by
  rw [Free, forall_mem_place]
  constructor
  · exact fun hQ d hd => hQ d (mem_sdiff.mp hd).1
  · intro hNew d hd
    -- a cell of `Q` is one of `P`, already known to be free, or newly covered
    by_cases hP : d ∈ P
    · exact h _ (add_mem_place hP)
    · exact hNew d (mem_sdiff.mpr ⟨hd, hP⟩)

/-- From a fitting placement, `Q` fits iff it is inside and the newly covered
cells are free. -/
theorem Fits.replace_iff (h : Fits W S (place P a)) :
    Fits W S (place Q a) ↔ Inside W (place Q a) ∧ ∀ d ∈ Q \ P, a + d ∉ S :=
  ⟨fun hQ => ⟨hQ.inside, h.free.replace_iff.mp hQ.free⟩,
    fun hQ => ⟨hQ.1, h.free.replace_iff.mpr hQ.2⟩⟩

end Placement

/-! ## Rectangles -/

section Rectangle

/-- The cells `(row, column)` of an `m × n` array. -/
def well (m n : ℕ) : Set (ℤ × ℤ) := {p | 0 ≤ p.1 ∧ p.1 < m ∧ 0 ≤ p.2 ∧ p.2 < n}

theorem mem_well {m n : ℕ} {p : ℤ × ℤ} :
    p ∈ well m n ↔ 0 ≤ p.1 ∧ p.1 < m ∧ 0 ≤ p.2 ∧ p.2 < n := Iff.rfl

/-- The cells of an array that do not hold `0`. -/
def filled {m n : ℕ} {β : Type*} [Zero β] (b : Fin m → Fin n → β) : Set (ℤ × ℤ) :=
  {p | ∃ i j, p = ((i.val : ℤ), (j.val : ℤ)) ∧ b i j ≠ 0}

theorem mem_filled {m n : ℕ} {β : Type*} [Zero β] {b : Fin m → Fin n → β} {i : Fin m}
    {j : Fin n} : ((i.val : ℤ), (j.val : ℤ)) ∈ filled b ↔ b i j ≠ 0 := by
  constructor
  · rintro ⟨i', j', hp, hb⟩
    obtain ⟨rfl⟩ : i = i' := Fin.ext (by simpa using congrArg Prod.fst hp)
    obtain ⟨rfl⟩ : j = j' := Fin.ext (by simpa using congrArg Prod.snd hp)
    exact hb
  · exact fun hb => ⟨i, j, rfl, hb⟩

/-- A figure inside an array covers as many cells of it as it has. -/
theorem card_covered {m n : ℕ} {Q : Finset (ℤ × ℤ)} (hIn : Inside (well m n) Q) :
    (univ.filter fun p : Fin m × Fin n => ((p.1.val : ℤ), (p.2.val : ℤ)) ∈ Q).card = Q.card := by
  refine card_nbij (fun p => ((p.1.val : ℤ), (p.2.val : ℤ))) ?_ ?_ ?_
  · intro p hp
    exact (mem_filter.mp hp).2
  · intro p _ q _ h
    have hRow : (p.1.val : ℤ) = q.1.val := congrArg Prod.fst h
    have hCol : (p.2.val : ℤ) = q.2.val := congrArg Prod.snd h
    exact Prod.ext (Fin.ext (by omega)) (Fin.ext (by omega))
  · rintro ⟨r, c⟩ hQ
    obtain ⟨h0, hm, h0', hn⟩ := mem_well.mp (hIn _ hQ)
    have hCell : (((r.toNat : ℕ) : ℤ), ((c.toNat : ℕ) : ℤ)) = (r, c) := by
      rw [Int.toNat_of_nonneg h0, Int.toNat_of_nonneg h0']
    refine ⟨(⟨r.toNat, by omega⟩, ⟨c.toNat, by omega⟩), ?_, hCell⟩
    exact mem_filter.mpr ⟨mem_univ _, hCell ▸ hQ⟩

/-- `P` lies in an `h × w` rectangle at the origin and touches its four sides. -/
structure Box (h w : ℕ) (P : Finset (ℤ × ℤ)) : Prop where
  within : ∀ d ∈ P, d ∈ well h w
  top : ∃ d ∈ P, d.1 = 0
  bottom : ∃ d ∈ P, d.1 + 1 = h
  left : ∃ d ∈ P, d.2 = 0
  right : ∃ d ∈ P, d.2 + 1 = w

instance (m n : ℕ) : DecidablePred (· ∈ well m n) := fun p =>
  inferInstanceAs (Decidable (0 ≤ p.1 ∧ p.1 < m ∧ 0 ≤ p.2 ∧ p.2 < n))

theorem box_iff {h w : ℕ} {P : Finset (ℤ × ℤ)} :
    Box h w P ↔ (∀ d ∈ P, d ∈ well h w) ∧ (∃ d ∈ P, d.1 = 0) ∧ (∃ d ∈ P, d.1 + 1 = h) ∧
      (∃ d ∈ P, d.2 = 0) ∧ ∃ d ∈ P, d.2 + 1 = w :=
  ⟨fun ⟨a, b, c, d, e⟩ => ⟨a, b, c, d, e⟩, fun ⟨a, b, c, d, e⟩ => ⟨a, b, c, d, e⟩⟩

instance (h w : ℕ) (P : Finset (ℤ × ℤ)) : Decidable (Box h w P) := decidable_of_iff' _ box_iff

/-- The bounding box decides whether the figure is inside. -/
theorem Box.inside_iff {h w m n : ℕ} {P : Finset (ℤ × ℤ)} (hBox : Box h w P) (a : ℤ × ℤ) :
    Inside (well m n) (place P a) ↔
      0 ≤ a.1 ∧ a.1 + h ≤ m ∧ 0 ≤ a.2 ∧ a.2 + w ≤ n := by
  rw [Inside, forall_mem_place]
  constructor
  · intro hIn
    obtain ⟨t, ht, hTop⟩ := hBox.top
    obtain ⟨b, hb, hBottom⟩ := hBox.bottom
    obtain ⟨l, hl, hLeft⟩ := hBox.left
    obtain ⟨r, hr, hRight⟩ := hBox.right
    -- the cell on each side gives that side's bound
    have hT := mem_well.mp (hIn t ht)
    have hB := mem_well.mp (hIn b hb)
    have hL := mem_well.mp (hIn l hl)
    have hR := mem_well.mp (hIn r hr)
    simp only [Prod.fst_add, Prod.snd_add] at hT hB hL hR
    omega
  · intro hCorner d hd
    have hD := mem_well.mp (hBox.within d hd)
    rw [mem_well, Prod.fst_add, Prod.snd_add]
    omega

end Rectangle

end Figure

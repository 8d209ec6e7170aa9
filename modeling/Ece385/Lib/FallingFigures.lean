import Ece385.Lib.Figure
import Ece385.Lib.RowStack
import Mathlib.Data.Int.Interval
import Mathlib.Data.Set.Card

/-!
# Games of falling figures

A well, settled cells and one figure at a time: it appears at the top, glides as
long as it fits, and is settled where it is; a full row is taken out and what is
above comes down. The rules say when a figure may be where; when it settles, and
whether a full row goes, they leave open. A play is any sequence of moves they
allow, written down by the kinds of its moves.

* `Rules`, `Position`, `Move` — the game.
* `Play` — a sequence of moves.
* `collapse` — the settled cells without a row; `filled_removeRow`, the same of an
  array.

Main results:

* `Play.legal` — nothing overlaps and nothing is outside the well, ever.
* `Play.balance` — the settled cells are those of the figures settled less those of
  the rows taken out.
* `Play.spawns` — figures appear and are settled in turn.
-/

open Figure RowStack Set

namespace Falling

/-! ## Taking out a row -/

/-- The cells without row `r`, those above it one row lower. -/
def collapse (r : ℤ) (S : Set (ℤ × ℤ)) : Set (ℤ × ℤ) :=
  {p | (r < p.1 ∧ p ∈ S) ∨ (p.1 ≤ r ∧ (p.1 - 1, p.2) ∈ S)}

/-- Where a cell goes. -/
def descend (r : ℤ) (p : ℤ × ℤ) : ℤ × ℤ := if p.1 < r then (p.1 + 1, p.2) else p

theorem collapse_eq_image (r : ℤ) (S : Set (ℤ × ℤ)) :
    collapse r S = descend r '' {p | p ∈ S ∧ p.1 ≠ r} := by
  ext ⟨x, y⟩
  constructor
  · -- a cell below stays, and one above comes from one row higher
    rintro (⟨hBelow, hIn⟩ | ⟨hLe, hIn⟩)
    · have hHere : r < x := hBelow
      exact ⟨(x, y), ⟨hIn, by dsimp only; omega⟩, if_neg (by dsimp only; omega)⟩
    · have hHere : x ≤ r := hLe
      refine ⟨(x - 1, y), ⟨hIn, by dsimp only; omega⟩, ?_⟩
      rw [descend, if_pos (by dsimp only; omega)]
      exact Prod.ext (by dsimp only; omega) rfl
  · rintro ⟨⟨a, b⟩, ⟨hIn, hNot⟩, hGoes⟩
    have hRow : a ≠ r := hNot
    by_cases hAbove : a < r
    · rw [descend, if_pos hAbove] at hGoes
      obtain ⟨rfl, rfl⟩ := Prod.mk.inj hGoes
      refine Or.inr ⟨by dsimp only; omega, ?_⟩
      rwa [show a + 1 - 1 = a by omega]
    · rw [descend, if_neg hAbove] at hGoes
      obtain ⟨rfl, rfl⟩ := Prod.mk.inj hGoes
      exact Or.inl ⟨by dsimp only; omega, hIn⟩

theorem descend_injOn (r : ℤ) : InjOn (descend r) {p | p.1 ≠ r} := by
  rintro ⟨a, b⟩ hA ⟨c, d⟩ hC hSame
  have hRow : a ≠ r := hA
  have hRow' : c ≠ r := hC
  unfold descend at hSame
  split_ifs at hSame with h₁ h₂
  all_goals
    obtain ⟨hFirst, hSecond⟩ := Prod.mk.inj hSame
    dsimp only at *
    exact Prod.ext (by dsimp only; omega) hSecond

/-- Every cell of row `r` of a well with `n` columns is there. -/
def FullRow (n : ℕ) (r : ℤ) (S : Set (ℤ × ℤ)) : Prop := ∀ c : ℤ, 0 ≤ c → c < n → (r, c) ∈ S

theorem finite_well (m n : ℕ) : (well m n).Finite := by
  refine (Set.Finite.prod (Set.finite_Ico (0 : ℤ) m) (Set.finite_Ico (0 : ℤ) n)).subset ?_
  rintro ⟨a, b⟩ ⟨h₁, h₂, h₃, h₄⟩
  exact ⟨⟨h₁, h₂⟩, h₃, h₄⟩

/-- Taking out a full row takes its cells out and no others. -/
theorem ncard_collapse {m n : ℕ} {r : ℤ} {S : Set (ℤ × ℤ)} (hIn : S ⊆ well m n)
    (hFull : FullRow n r S) : (collapse r S).ncard + n = S.ncard := by
  have hFinite : S.Finite := (finite_well m n).subset hIn
  -- the rest of the cells is sent on injectively, the row itself has `n`
  set row : Set (ℤ × ℤ) := (fun c => (r, c)) '' Ico (0 : ℤ) n
  have hRow : row ⊆ S := by
    rintro _ ⟨c, hc, rfl⟩
    exact hFull c hc.1 hc.2
  have hRest : {p | p ∈ S ∧ p.1 ≠ r} = S \ row := by
    ext ⟨x, y⟩
    refine and_congr_right fun hS => ⟨fun hNe hRow => ?_, fun hNot hEq => ?_⟩
    · obtain ⟨c, -, hSame⟩ := hRow
      exact hNe (congrArg Prod.fst hSame).symm
    · obtain ⟨-, -, hLo, hHi⟩ := hIn hS
      exact hNot ⟨y, ⟨hLo, hHi⟩, Prod.ext (show r = x from hEq.symm) rfl⟩
  have hCard : row.ncard = n := by
    rw [ncard_image_of_injective _ fun c d hSame => congrArg Prod.snd hSame, ← Finset.coe_Ico,
      ncard_coe_finset, Int.card_Ico, Int.sub_zero, Int.toNat_natCast]
  have hInj : InjOn (descend r) {p | p ∈ S ∧ p.1 ≠ r} := (descend_injOn r).mono fun p hp => hp.2
  rw [collapse_eq_image, hInj.ncard_image, hRest, ← hCard,
    ncard_sdiff_add_ncard_of_subset hRow hFinite]

/-- The cells of an array without one of its rows. -/
theorem filled_removeRow {m n : ℕ} {β : Type*} [Zero β] (b : Fin (m + 1) → Fin n → β)
    (i : Fin (m + 1)) : filled (removeRow b i) = collapse i (filled b) := by
  ext ⟨x, y⟩
  constructor
  · rintro ⟨j, c, hCell, hKept⟩
    obtain ⟨rfl, rfl⟩ := Prod.mk.inj hCell
    rcases lt_or_ge i j with hBelow | hLe
    · rw [removeRow_of_lt b hBelow] at hKept
      exact Or.inl ⟨Int.ofNat_lt.mpr hBelow, mem_filled.mpr hKept⟩
    · -- the top row is empty now, the others come from one row higher
      have hPos : j ≠ 0 := by
        rintro rfl
        exact hKept rfl
      obtain ⟨j', rfl⟩ := Fin.exists_succ_eq_of_ne_zero hPos
      have hFrom : removeRow b i j'.succ = b j'.castSucc := removeRow_of_le b rfl hLe
      rw [hFrom] at hKept
      refine Or.inr ⟨Int.ofNat_le.mpr hLe, ?_⟩
      have hUp : ((j'.succ.val : ℤ) - 1, (c.val : ℤ)) =
          ((j'.castSucc.val : ℤ), (c.val : ℤ)) :=
        Prod.ext (by rw [Fin.val_succ, Fin.val_castSucc]; omega) rfl
      exact hUp ▸ mem_filled.mpr hKept
  · rintro (⟨hBelow, j, c, hCell, hKept⟩ | ⟨hLe, j, c, hCell, hKept⟩)
    · obtain ⟨rfl, rfl⟩ := Prod.mk.inj hCell
      have hLt : i < j := Int.ofNat_lt.mp hBelow
      exact mem_filled.mpr (by rwa [removeRow_of_lt b hLt])
    · -- the cell one row higher, seen from the row it comes down to
      obtain ⟨hRow, rfl⟩ := Prod.mk.inj hCell
      have hTop : x ≤ i.val := hLe
      have hi := i.isLt
      have hx : x = ((j.val + 1 : ℕ) : ℤ) := by push_cast; omega
      have hRange : j.val + 1 < m + 1 := by omega
      subst hx
      have hFrom : removeRow b i ⟨j.val + 1, hRange⟩ = b j :=
        removeRow_of_le b rfl (by rw [Fin.le_def]; dsimp only; omega)
      exact ⟨⟨j.val + 1, hRange⟩, c, rfl, by rwa [hFrom]⟩

/-! ## The game -/

/-- The size of the well, the cells of each figure, where one appears, into what it may
turn and how far it may go in one move. -/
structure Rules (κ : Type*) where
  rows : ℕ
  cols : ℕ
  cells : κ → Finset (ℤ × ℤ)
  start : ℤ × ℤ
  turns : κ → κ → Prop
  steps : Set (ℤ × ℤ)

/-- The settled cells, and the figure in play with the cell it is anchored at. -/
structure Position (κ : Type*) where
  settled : Set (ℤ × ℤ)
  piece : Option (κ × (ℤ × ℤ))

inductive MoveKind where
  | spawn
  | glide
  | settle
  | clear
  deriving DecidableEq

section Game

variable {κ : Type*} {R : Rules κ} {p q : Position κ}

/-- The rules. A figure appears and glides only to where it fits, and a row is taken out
only if that leaves the figure in play on free cells. -/
inductive Move (R : Rules κ) : Position κ → MoveKind → Position κ → Prop where
  | spawn {S k} : Fits (well R.rows R.cols) S (place (R.cells k) R.start) →
      Move R ⟨S, none⟩ .spawn ⟨S, some (k, R.start)⟩
  | glide {S k k' a e} : R.turns k k' → e ∈ R.steps →
      Fits (well R.rows R.cols) S (place (R.cells k') (a + e)) →
      Move R ⟨S, some (k, a)⟩ .glide ⟨S, some (k', a + e)⟩
  | settle {S k a} : Move R ⟨S, some (k, a)⟩ .settle ⟨S ∪ place (R.cells k) a, none⟩
  | clear {S q} {r : ℕ} : r < R.rows → FullRow R.cols r S →
      (∀ k a, q = some (k, a) → Free (collapse r S) (place (R.cells k) a)) →
      Move R ⟨S, q⟩ .clear ⟨collapse r S, q⟩

/-- A sequence of moves and their kinds. -/
inductive Play (R : Rules κ) (p : Position κ) : List MoveKind → Position κ → Prop where
  | nil : Play R p [] p
  | snoc {es q e q'} : Play R p es q → Move R q e q' → Play R p (es ++ [e]) q'

theorem Play.trans {es fs : List MoveKind} {r : Position κ} (h : Play R p es q)
    (h' : Play R q fs r) : Play R p (es ++ fs) r := by
  induction h' with
  | nil => rwa [List.append_nil]
  | snoc _ hMove ih =>
    rw [← List.append_assoc]
    exact ih.snoc hMove

theorem Move.play {e : MoveKind} (h : Move R p e q) : Play R p [e] q := Play.nil.snoc h

/-! ## What every play keeps -/

/-- The settled cells are in the well, and so is the figure, on free cells. -/
structure Legal (R : Rules κ) (p : Position κ) : Prop where
  settled : p.settled ⊆ well R.rows R.cols
  fits : ∀ k a, p.piece = some (k, a) →
    Fits (well R.rows R.cols) p.settled (place (R.cells k) a)

theorem Move.legal {e : MoveKind} (h : Move R p e q) (hp : Legal R p) : Legal R q := by
  cases h with
  | spawn hFits =>
    refine ⟨hp.settled, fun k a hPiece => ?_⟩
    obtain ⟨rfl, rfl⟩ := Prod.mk.inj (Option.some.inj hPiece)
    exact hFits
  | glide _ _ hFits =>
    refine ⟨hp.settled, fun k a hPiece => ?_⟩
    obtain ⟨rfl, rfl⟩ := Prod.mk.inj (Option.some.inj hPiece)
    exact hFits
  | settle =>
    refine ⟨union_subset hp.settled fun c hc => ?_, fun k a hPiece => ?_⟩
    · exact (hp.fits _ _ rfl).inside c hc
    · exact absurd hPiece (Option.some_ne_none _).symm
  | clear hRows hFull hFree =>
    refine ⟨?_, fun k a hPiece => ⟨(hp.fits k a hPiece).inside, hFree k a hPiece⟩⟩
    rintro ⟨x, y⟩ (⟨-, hIn⟩ | ⟨hLe, hIn⟩)
    · exact hp.settled hIn
    · -- what comes down was in the well and stays above the row taken out
      obtain ⟨hLo, -, hLeft, hRight⟩ := hp.settled hIn
      have hRow : x ≤ _ := hLe
      have hTop : 0 ≤ x - 1 := hLo
      exact ⟨by dsimp only; omega, by dsimp only; omega, hLeft, hRight⟩

/-- Nothing ever overlaps and nothing is ever outside the well. -/
theorem Play.legal {es : List MoveKind} (h : Play R p es q) (hp : Legal R p) : Legal R q := by
  induction h with
  | nil => exact hp
  | snoc _ hMove ih => exact hMove.legal ih

/-- One move of the balance. -/
theorem Move.balance {e : MoveKind} {c : ℕ} (h : Move R p e q) (hp : Legal R p)
    (hCells : ∀ k, (R.cells k).card = c) :
    q.settled.ncard + R.cols * [e].count .clear = p.settled.ncard + c * [e].count .settle := by
  cases h with
  | spawn hFits => simp
  | glide _ _ hFits => simp
  | @settle S k a =>
    have hFinite : S.Finite := (finite_well _ _).subset hp.settled
    -- a legal figure is on free cells, so all of its cells are new
    have hApart : Disjoint S (place (R.cells k) a : Set (ℤ × ℤ)) :=
      Set.disjoint_left.mpr fun d hd hPlaced => (hp.fits k a rfl).free d hPlaced hd
    have hUnion := ncard_union_eq hApart hFinite (Finset.finite_toSet _)
    rw [ncard_coe_finset, card_place, hCells] at hUnion
    simpa using hUnion
  | clear _ hFull _ =>
    have hTaken := ncard_collapse hp.settled hFull
    simpa using hTaken

/-- The settled cells are those of the figures settled, less those of the rows taken out. -/
theorem Play.balance {es : List MoveKind} {c : ℕ} (h : Play R p es q) (hp : Legal R p)
    (hCells : ∀ k, (R.cells k).card = c) :
    q.settled.ncard + R.cols * es.count .clear = p.settled.ncard + c * es.count .settle := by
  induction h with
  | nil => simp
  | snoc hPlay hMove ih =>
    have hNow := hMove.balance (hPlay.legal hp) hCells
    rw [List.count_append, List.count_append, Nat.mul_add, Nat.mul_add]
    omega

/-- Figures appear and are settled in turn. -/
theorem Play.spawns {es : List MoveKind} (h : Play R p es q) :
    es.count .spawn + (if p.piece.isSome then 1 else 0) =
      es.count .settle + if q.piece.isSome then 1 else 0 := by
  induction h with
  | nil => simp
  | snoc _ hMove ih =>
    rw [List.count_append, List.count_append]
    cases hMove with
    | spawn _ =>
      rw [Nat.add_right_comm]
      simpa using ih
    | glide _ _ _ => simpa using ih
    | settle => simpa using ih
    | clear _ _ _ => simpa using ih

end Game

end Falling

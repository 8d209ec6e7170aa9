import Ece385.Tetris.MotionSpec
import Ece385.Tetris.Top
import Mathlib.Tactic.SplitIfs

/-!
# Tetris — the piece stays on the grid

`block_motion` keeps its position in pixels and moves it by motion registers
written on an earlier frame edge. `OnGrid` is what the rest of the game relies
on: the position is a cell corner inside the well, the motions are 0 or one
cell, the counters have not passed the values they are compared with.

`OnGrid` is not inductive. `GridInv` adds the link between the stored motion,
the counter of the frames it has waited, and the position: a motion is only
carried across frames (`counter_x ≠ 0`) while a step by it stays in the well,
and a piece on row 21 that still has its Y motion has just arrived there.

Main results:

* `GridInv.step` — one clock preserves the invariant for any drawn shape.
* `motion_onGrid` — every state reached from reset is on the grid, and the
  position arithmetic is exact.
-/

namespace Ece385.Tetris

/-! ## The invariant -/

/-- Position, motions and counters of `block_motion` as a grid position. -/
structure OnGrid (m : MotionRegs) : Prop where
  xPos : ∃ c ≤ 10, m.blockXPos.toNat = 270 + 9 * c
  yPos : ∃ r ≤ 21, m.blockYPos.toNat = 135 + 9 * r
  xMotion : m.blockXMotion = 0 ∨ m.blockXMotion = 9 ∨ m.blockXMotion = 1015
  yMotion : m.blockYMotion = 0 ∨ m.blockYMotion = 9
  counterX : m.counterX.toNat ≤ 6
  counterY : m.counterY.toNat ≤ 49

/-- The inductive invariant. -/
structure GridInv (m : MotionRegs) : Prop extends OnGrid m where
  left : m.blockXMotion = 1015 → m.counterX ≠ 0 → 279 ≤ m.blockXPos.toNat
  right : m.blockXMotion = 9 → m.counterX ≠ 0 → m.blockXPos.toNat ≤ 351
  floor : m.blockYPos.toNat = 324 → m.blockYMotion = 9 → m.counterY = 0

theorem MotionRegs.AtStart.gridInv {m : MotionRegs} (h : m.AtStart) : GridInv m where
  xPos := ⟨3, by decide, by rw [h.xPos]; rfl⟩
  yPos := ⟨0, by decide, by rw [h.yPos]; rfl⟩
  xMotion := Or.inl h.xMotion
  yMotion := Or.inr h.yMotion
  counterX := by rw [h.counterX]; decide
  counterY := by rw [h.counterY]; decide
  left := fun hx => by rw [h.xMotion] at hx; exact absurd hx (by decide)
  right := fun hx => by rw [h.xMotion] at hx; exact absurd hx (by decide)
  floor := fun _ _ => h.counterY

/-! ## The tables of a drawn shape -/

/-- The decoder shows the line and the size of some shape. -/
def Drawn (d : ShapeSelect) : Prop := ∃ k : Shape, d = k.select

theorem drawn_chooseBlock {blockSel : BitVec 3} (h : blockSel ≠ 7) (rotSel : BitVec 2) :
    Drawn (chooseBlock blockSel rotSel) :=
  ⟨_, chooseBlock_eq_select blockSel rotSel h⟩

/-- The cells checked for a step to the left. -/
def Shape.leftCells (k : Shape) : List (ℤ × ℤ) := (leftTable k.only).getD []

/-- The cells checked for a step to the right. -/
def Shape.rightCells (k : Shape) : List (ℤ × ℤ) := (rightTable k.only).getD []

theorem leftTable_only (k : Shape) : leftTable k.only = some k.leftCells := by
  cases k <;> rfl

theorem rightTable_only (k : Shape) : rightTable k.only = some k.rightCells := by
  cases k <;> rfl

theorem sideMotion_some (m : MotionRegs) (i : MotionInputs) (cells : List (ℤ × ℤ))
    (step old : BitVec 10) :
    sideMotion m i (some cells) step old =
      if i.hits m.blockXPos m.blockYPos cells then 0 else step := rfl

/-! ## The guards in pixels -/

section Guards

variable {m : MotionRegs} {i : MotionInputs} {k : Shape}

theorem toNat_add_sizeX (hk : i.select = k.select) (hx : m.blockXPos.toNat ≤ 360) :
    (m.blockXPos + i.select.blockSizeX.setWidth 10).toNat =
      m.blockXPos.toNat + (9 * k.width + 1) := by
  have hw := width_le k
  rw [BitVec.toNat_add, BitVec.toNat_setWidth, hk, toNat_blockSizeX]
  omega

theorem toNat_add_sizeY (hk : i.select = k.select) (hy : m.blockYPos.toNat ≤ 324) :
    (m.blockYPos + i.select.blockSizeY.setWidth 10).toNat =
      m.blockYPos.toNat + (9 * k.height + 1) := by
  have hw := height_le k
  rw [BitVec.toNat_add, BitVec.toNat_setWidth, hk, toNat_blockSizeY]
  omega

theorem atRightEdge_iff_toNat (hk : i.select = k.select) (hx : m.blockXPos.toNat ≤ 360) :
    atRightEdge m i = true ↔ 369 ≤ m.blockXPos.toNat + (9 * k.width + 1) := by
  rw [atRightEdge_iff, ge_iff_le, BitVec.le_def, toNat_add_sizeX hk hx]
  rfl

theorem rightFree_iff_toNat (hk : i.select = k.select) (hx : m.blockXPos.toNat ≤ 360) :
    rightFree m i = true ↔ m.blockXPos.toNat + (9 * k.width + 1) < 369 := by
  rw [rightFree_eq_not_atRightEdge, Bool.not_eq_true', ← Bool.not_eq_true,
    atRightEdge_iff_toNat hk hx, not_le]

theorem atFloor_iff_toNat (hk : i.select = k.select) (hy : m.blockYPos.toNat ≤ 324) :
    atFloor m i = true ↔ 333 ≤ m.blockYPos.toNat + (9 * k.height + 1) := by
  rw [atFloor_iff, ge_iff_le, BitVec.le_def, toNat_add_sizeY hk hy]
  rfl

theorem gt_xMin_iff : m.blockXPos > xMin ↔ 270 < m.blockXPos.toNat := by
  rw [gt_iff_lt, BitVec.lt_def]; rfl

end Guards

namespace OnGrid

variable {m : MotionRegs}

theorem xPos_bounds (h : OnGrid m) : 270 ≤ m.blockXPos.toNat ∧ m.blockXPos.toNat ≤ 360 := by
  obtain ⟨c, hc, hx⟩ := h.xPos
  omega

theorem yPos_bounds (h : OnGrid m) : 135 ≤ m.blockYPos.toNat ∧ m.blockYPos.toNat ≤ 324 := by
  obtain ⟨r, hr, hy⟩ := h.yPos
  omega

/-- A step by +9 does not wrap. -/
theorem add_right (h : OnGrid m) (hm : m.blockXMotion = 9) :
    (m.blockXPos + m.blockXMotion).toNat = m.blockXPos.toNat + 9 := by
  have hx := h.xPos_bounds
  rw [hm, BitVec.toNat_add, show (9 : BitVec 10).toNat = 9 from rfl]
  omega

/-- A step by 1015 wraps to the intended -9. -/
theorem add_left (h : OnGrid m) (hm : m.blockXMotion = 1015) :
    (m.blockXPos + m.blockXMotion).toNat = m.blockXPos.toNat - 9 := by
  have hx := h.xPos_bounds
  rw [hm, BitVec.toNat_add, show (1015 : BitVec 10).toNat = 1015 from rfl]
  omega

/-- A drop does not wrap. -/
theorem add_drop (h : OnGrid m) (hm : m.blockYMotion = 9) :
    (m.blockYPos + m.blockYMotion).toNat = m.blockYPos.toNat + 9 := by
  have hy := h.yPos_bounds
  rw [hm, BitVec.toNat_add, show (9 : BitVec 10).toNat = 9 from rfl]
  omega

end OnGrid

/-! ## One frame edge -/

section Edge

variable {m : MotionRegs} {i : MotionInputs} {k : Shape}

/-- The motion chosen on an edge, with the reason it was chosen. -/
theorem xMotionIn_cases (hEdge : m.frameClkRisingEdge = true) (hk : i.select = k.select) :
    (motionComb m i).blockXMotionIn = 0 ∨
    ((motionComb m i).blockXMotionIn = 1015 ∧ m.blockXPos > xMin) ∨
    ((motionComb m i).blockXMotionIn = 9 ∧ rightFree m i = true) ∨
    ((motionComb m i).blockXMotionIn = m.blockXMotion ∧ raisesMoveHoriz m i = false) := by
  have hLeft : i.select.choose = k.only := by rw [hk]; rfl
  rw [xMotionIn_edge hEdge, hLeft, leftTable_only, rightTable_only, sideMotion_some,
    sideMotion_some]
  -- one case for each branch, in the order in which later ones win
  by_cases hFloor : atFloor m i = true
  · exact Or.inl (if_pos hFloor)
  rw [if_neg hFloor]
  by_cases hL : i.left = true ∧ m.blockXPos > xMin
  · rw [if_pos hL]
    split_ifs
    · exact Or.inl rfl
    · exact Or.inr (Or.inl ⟨rfl, hL.2⟩)
  rw [if_neg hL]
  by_cases hR : i.right = true ∧ rightFree m i = true
  · rw [if_pos hR]
    split_ifs
    · exact Or.inl rfl
    · exact Or.inr (Or.inr (Or.inl ⟨rfl, hR.2⟩))
  rw [if_neg hR]
  by_cases hW : atRightEdge m i = true ∨ m.blockXPos ≤ xMin
  · exact Or.inl (if_pos hW)
  -- nothing raised `move_horiz`: the old motion is carried over
  rw [if_neg hW]
  refine Or.inr (Or.inr (Or.inr ⟨rfl, ?_⟩))
  rw [not_or] at hW
  simp only [raisesMoveHoriz, Bool.or_eq_false_iff, Bool.and_eq_false_iff,
    decide_eq_false_iff_not]
  refine ⟨⟨⟨?_, ?_⟩, by simpa using hW.1⟩, hW.2⟩
  · by_cases hl : i.left = true
    · exact Or.inr fun hx => hL ⟨hl, hx⟩
    · exact Or.inl (by simpa using hl)
  · by_cases hr : i.right = true
    · exact Or.inr (by simpa using fun hx => hR ⟨hr, hx⟩)
    · exact Or.inl (by simpa using hr)

theorem stepDue_iff : stepDue m i = true ↔ m.counterX = 6 ∧ raisesMoveHoriz m i = true := by
  rw [stepDue, Bool.and_eq_true, decide_eq_true_eq]

theorem dropDue_iff :
    dropDue m i = true ↔ m.counterY + 1 = 50 ∨ (i.down = true ∧ m.counterY + 1 = 5) := by
  rw [dropDue, Bool.or_eq_true, Bool.and_eq_true, decide_eq_true_eq, decide_eq_true_eq]

/-- Where the sideways step goes: nowhere, or one cell to a column of the well. -/
theorem xPosIn_cases (h : GridInv m) (hEdge : m.frameClkRisingEdge = true) :
    (stepDue m i = false ∧ (motionComb m i).blockXPosIn = m.blockXPos) ∨
    (stepDue m i = true ∧ m.blockXMotion = 0 ∧
      (motionComb m i).blockXPosIn = m.blockXPos) ∨
    (stepDue m i = true ∧ m.blockXMotion = 9 ∧ m.blockXPos.toNat ≤ 351 ∧
      (motionComb m i).blockXPosIn.toNat = m.blockXPos.toNat + 9) ∨
    (stepDue m i = true ∧ m.blockXMotion = 1015 ∧ 279 ≤ m.blockXPos.toNat ∧
      (motionComb m i).blockXPosIn.toNat + 9 = m.blockXPos.toNat) := by
  rw [xPosIn_edge hEdge]
  cases hDue : stepDue m i with
  | false => exact Or.inl ⟨rfl, rfl⟩
  | true =>
    have hSix : m.counterX = 6 := (stepDue_iff.mp hDue).1
    have hNe : m.counterX ≠ 0 := by rw [hSix]; decide
    refine Or.inr ?_
    rw [if_pos rfl]
    rcases h.xMotion with h0 | h9 | h1015
    · exact Or.inl ⟨rfl, h0, by simp [h0]⟩
    · exact Or.inr (Or.inl ⟨rfl, h9, h.right h9 hNe, h.add_right h9⟩)
    · have hX := h.left h1015 hNe
      exact Or.inr (Or.inr ⟨rfl, h1015, hX, by rw [h.add_left h1015]; omega⟩)

/-- Where the drop goes while the piece has not reached the bottom. -/
theorem yPosIn_cases (h : GridInv m) (hEdge : m.frameClkRisingEdge = true)
    (hBottom : (motionComb m i).atBottom = false) :
    m.blockYMotion = 9 ∧
    ((dropDue m i = false ∧ (motionComb m i).blockYPosIn = m.blockYPos) ∨
     (dropDue m i = true ∧ m.blockYPos.toNat ≤ 315 ∧
      (motionComb m i).blockYPosIn.toNat = m.blockYPos.toNat + 9)) := by
  have hMotion : m.blockYMotion = 9 := by
    rw [atBottom_edge hEdge, Bool.or_eq_false_iff, decide_eq_false_iff_not] at hBottom
    exact h.yMotion.resolve_left hBottom.1
  refine ⟨hMotion, ?_⟩
  rw [yPosIn_edge hEdge]
  cases hDue : dropDue m i with
  | false => exact Or.inl ⟨rfl, rfl⟩
  | true =>
    refine Or.inr ⟨rfl, ?_, h.add_drop hMotion⟩
    -- on row 21 the counter is 0, so no drop is due
    by_contra hLow
    obtain ⟨r, hr, hy⟩ := h.yPos
    have hZero := h.floor (by omega) hMotion
    rw [dropDue_iff, hZero] at hDue
    rcases hDue with h50 | ⟨-, h5⟩
    · exact absurd h50 (by decide)
    · exact absurd h5 (by decide)

/-- The X counter is restarted by a step, advanced by contact, else kept. -/
theorem counterXIn_cases (i : MotionInputs) (hEdge : m.frameClkRisingEdge = true) :
    (raisesMoveHoriz m i = false ∧ (motionComb m i).counterXIn = m.counterX) ∨
    (stepDue m i = true ∧ (motionComb m i).counterXIn = 0) ∨
    (raisesMoveHoriz m i = true ∧ m.counterX ≠ 6 ∧
      (motionComb m i).counterXIn = m.counterX + 1) := by
  rw [counterXIn_edge hEdge, stepDue_iff]
  by_cases hR : raisesMoveHoriz m i = true
  · by_cases h6 : m.counterX = 6
    · exact Or.inr (Or.inl ⟨⟨h6, hR⟩, by rw [if_pos hR, if_pos h6]⟩)
    · exact Or.inr (Or.inr ⟨hR, h6, by rw [if_pos hR, if_neg h6]⟩)
  · exact Or.inl ⟨by simpa using hR, by rw [if_neg hR]⟩

/-- A motion is carried to the next frame only by a piece that did not step. -/
theorem xPosIn_of_carried (hEdge : m.frameClkRisingEdge = true)
    (hCarried : (motionComb m i).counterXIn ≠ 0) :
    (motionComb m i).blockXPosIn = m.blockXPos := by
  have hDue : stepDue m i ≠ true := by
    intro hDue
    obtain ⟨h6, hR⟩ := stepDue_iff.mp hDue
    rw [counterXIn_edge hEdge, if_pos hR, if_pos h6] at hCarried
    exact hCarried rfl
  rw [xPosIn_edge hEdge, if_neg hDue]

end Edge

/-! ## The next values keep the invariant -/

section Next

variable {m : MotionRegs} {i : MotionInputs}

theorem xPosIn_column (h : GridInv m) (hEdge : m.frameClkRisingEdge = true) :
    ∃ c ≤ 10, (motionComb m i).blockXPosIn.toNat = 270 + 9 * c := by
  obtain ⟨c, hc, hX⟩ := h.xPos
  rcases xPosIn_cases (i := i) h hEdge with ⟨-, hX'⟩ | ⟨-, -, hX'⟩ | ⟨-, -, hLe, hX'⟩ |
    ⟨-, -, hLe, hX'⟩
  · exact ⟨c, hc, by rw [hX', hX]⟩
  · exact ⟨c, hc, by rw [hX', hX]⟩
  · exact ⟨c + 1, by omega, by omega⟩
  · exact ⟨c - 1, by omega, by omega⟩

theorem yPosIn_row (h : GridInv m) (hEdge : m.frameClkRisingEdge = true)
    (hBottom : (motionComb m i).atBottom = false) :
    ∃ r ≤ 21, (motionComb m i).blockYPosIn.toNat = 135 + 9 * r := by
  obtain ⟨r, hr, hY⟩ := h.yPos
  rcases (yPosIn_cases h hEdge hBottom).2 with ⟨-, hY'⟩ | ⟨-, hLe, hY'⟩
  · exact ⟨r, hr, by rw [hY', hY]⟩
  · exact ⟨r + 1, by omega, by omega⟩

theorem xMotionIn_mem (h : GridInv m) (hDrawn : Drawn i.select)
    (hEdge : m.frameClkRisingEdge = true) :
    (motionComb m i).blockXMotionIn = 0 ∨ (motionComb m i).blockXMotionIn = 9 ∨
      (motionComb m i).blockXMotionIn = 1015 := by
  obtain ⟨k, hk⟩ := hDrawn
  rcases xMotionIn_cases hEdge hk with h0 | ⟨h1015, -⟩ | ⟨h9, -⟩ | ⟨hOld, -⟩
  · exact Or.inl h0
  · exact Or.inr (Or.inr h1015)
  · exact Or.inr (Or.inl h9)
  · rw [hOld]; exact h.xMotion

theorem yMotionIn_mem (h : GridInv m) (hEdge : m.frameClkRisingEdge = true)
    (hBottom : (motionComb m i).atBottom = false) :
    (motionComb m i).blockYMotionIn = 0 ∨ (motionComb m i).blockYMotionIn = 9 := by
  rw [yMotionIn_edge hEdge]
  split_ifs
  · exact Or.inl rfl
  · exact Or.inr rfl
  · exact Or.inr (yPosIn_cases h hEdge hBottom).1

theorem counterXIn_le (h : GridInv m) (hEdge : m.frameClkRisingEdge = true) :
    (motionComb m i).counterXIn.toNat ≤ 6 := by
  have hLe := h.counterX
  rcases counterXIn_cases i hEdge with ⟨-, hC⟩ | ⟨-, hC⟩ | ⟨-, hSix, hC⟩
  · rw [hC]; exact hLe
  · rw [hC]; decide
  · rw [hC]; bv_omega

theorem counterYIn_le (h : GridInv m) (hEdge : m.frameClkRisingEdge = true) :
    (motionComb m i).counterYIn.toNat ≤ 49 := by
  have hLe := h.counterY
  rw [counterYIn_edge hEdge]
  cases hDue : dropDue m i with
  | true => simp
  | false =>
    have hNe : m.counterY + 1 ≠ 50 := fun h50 => by
      rw [dropDue_iff.mpr (Or.inl h50)] at hDue
      exact absurd hDue (by decide)
    simp only [Bool.false_eq_true, if_false]
    bv_omega

/-- A motion to the left that is carried on has a column to go to. -/
theorem carried_left (h : GridInv m) (hDrawn : Drawn i.select)
    (hEdge : m.frameClkRisingEdge = true) (h1015 : (motionComb m i).blockXMotionIn = 1015)
    (hCarried : (motionComb m i).counterXIn ≠ 0) :
    279 ≤ (motionComb m i).blockXPosIn.toNat := by
  obtain ⟨k, hk⟩ := hDrawn
  obtain ⟨c, hc, hX⟩ := h.xPos
  rw [xPosIn_of_carried hEdge hCarried]
  -- chosen on this edge, under the guard, or carried on from the edge before
  rcases xMotionIn_cases hEdge hk with h0 | ⟨-, hGuard⟩ | ⟨h9, -⟩ | ⟨hOld, hKept⟩
  · rw [h0] at h1015; exact absurd h1015 (by decide)
  · rw [gt_xMin_iff] at hGuard
    omega
  · rw [h9] at h1015; exact absurd h1015 (by decide)
  · rw [counterXIn_edge hEdge, hKept] at hCarried
    exact h.left (hOld ▸ h1015) hCarried

/-- A motion to the right that is carried on has a column to go to. -/
theorem carried_right (h : GridInv m) (hDrawn : Drawn i.select)
    (hEdge : m.frameClkRisingEdge = true) (h9 : (motionComb m i).blockXMotionIn = 9)
    (hCarried : (motionComb m i).counterXIn ≠ 0) :
    (motionComb m i).blockXPosIn.toNat ≤ 351 := by
  obtain ⟨k, hk⟩ := hDrawn
  obtain ⟨c, hc, hX⟩ := h.xPos
  rw [xPosIn_of_carried hEdge hCarried]
  rcases xMotionIn_cases hEdge hk with h0 | ⟨h1015, -⟩ | ⟨-, hGuard⟩ | ⟨hOld, hKept⟩
  · rw [h0] at h9; exact absurd h9 (by decide)
  · rw [h1015] at h9; exact absurd h9 (by decide)
  · have hWidth := width_pos k
    rw [rightFree_iff_toNat hk (by omega)] at hGuard
    omega
  · rw [counterXIn_edge hEdge, hKept] at hCarried
    exact h.right (hOld ▸ h9) hCarried

/-- A piece on row 21 with its Y motion still set has dropped there on this edge. -/
theorem floor_arrival (h : GridInv m) (hDrawn : Drawn i.select)
    (hEdge : m.frameClkRisingEdge = true) (hBottom : (motionComb m i).atBottom = false)
    (hLow : (motionComb m i).blockYPosIn.toNat = 324)
    (h9 : (motionComb m i).blockYMotionIn = 9) : (motionComb m i).counterYIn = 0 := by
  obtain ⟨k, hk⟩ := hDrawn
  rcases (yPosIn_cases h hEdge hBottom).2 with ⟨-, hY⟩ | ⟨hDue, -⟩
  · -- standing on row 21: the floor check stops the motion
    have hHeight := height_pos k
    have hFloor : atFloor m i = true := by
      rw [hY] at hLow
      rw [atFloor_iff_toNat hk (by omega)]
      omega
    rw [yMotionIn_edge hEdge, if_pos hFloor] at h9
    exact absurd h9 (by decide)
  · rw [counterYIn_edge hEdge, if_pos hDue]

end Next

/-! ## One clock -/

section Step

variable {m : MotionRegs} {i : MotionInputs}

theorem step_respawn (h : i.reset = true ∨ (motionComb m i).atBottom = true) :
    m.step i = (m.sampleFrameClk i.frameClk).respawn := by
  rw [MotionRegs.step, if_pos (by simpa using h)]

theorem step_latch (hReset : i.reset = false) (hBottom : (motionComb m i).atBottom = false) :
    m.step i = (m.sampleFrameClk i.frameClk).latch (motionComb m i) := by
  rw [MotionRegs.step, hReset, hBottom]
  rfl

/-- Off a frame edge only the edge detector moves. -/
theorem step_idle (hReset : i.reset = false) (hIdle : m.frameClkRisingEdge = false) :
    m.step i = m.sampleFrameClk i.frameClk := by
  rw [step_latch hReset (atBottom_idle hIdle), motionComb_idle hIdle]
  rfl

theorem GridInv.sampleFrameClk (h : GridInv m) (f : Bool) : GridInv (m.sampleFrameClk f) :=
  ⟨⟨h.xPos, h.yPos, h.xMotion, h.yMotion, h.counterX, h.counterY⟩, h.left, h.right, h.floor⟩

/-- On a frame edge without a lock the registers load values that keep the
invariant. -/
theorem GridInv.latch (h : GridInv m) (hDrawn : Drawn i.select)
    (hEdge : m.frameClkRisingEdge = true) (hBottom : (motionComb m i).atBottom = false)
    (m' : MotionRegs) : GridInv (m'.latch (motionComb m i)) where
  xPos := xPosIn_column h hEdge
  yPos := yPosIn_row h hEdge hBottom
  xMotion := xMotionIn_mem h hDrawn hEdge
  yMotion := yMotionIn_mem h hEdge hBottom
  counterX := counterXIn_le h hEdge
  counterY := counterYIn_le h hEdge
  left := carried_left h hDrawn hEdge
  right := carried_right h hDrawn hEdge
  floor := floor_arrival h hDrawn hEdge hBottom

/-- One clock preserves the invariant, whatever the inputs, as long as the
lines and sizes are those of a drawn shape. -/
theorem GridInv.step (h : GridInv m) (hDrawn : Drawn i.select) : GridInv (m.step i) := by
  by_cases hRespawn : i.reset = true ∨ (motionComb m i).atBottom = true
  · rw [step_respawn hRespawn]
    exact (MotionRegs.atStart_respawn _).gridInv
  rw [not_or, Bool.not_eq_true, Bool.not_eq_true] at hRespawn
  -- position and motions only change on a frame edge
  cases hEdge : m.frameClkRisingEdge with
  | false =>
    rw [step_idle hRespawn.1 hEdge]
    exact h.sampleFrameClk _
  | true =>
    rw [step_latch hRespawn.1 hRespawn.2]
    exact h.latch hDrawn hEdge hRespawn.2 _

end Step

/-! ## Every run from reset -/

/-- A legal input of `block_motion` alone: lines and sizes as `choose_block`
decodes them for one of the kinds 0 to 6, everything else arbitrary. -/
def LegalSelect (d : ShapeSelect) : Prop :=
  ∃ (blockSel : BitVec 3) (rotSel : BitVec 2), blockSel ≠ 7 ∧ d = chooseBlock blockSel rotSel

theorem gridInv_trace {m₀ : MotionRegs} (hReset : m₀.AtStart) {w : ℕ → MotionInputs}
    (hSelect : ∀ n, LegalSelect (w n).select) (n : ℕ) :
    GridInv (Clocked.trace MotionRegs.step m₀ w n) := by
  refine Clocked.trace_invariant (P := fun _ m => GridInv m) hReset.gridInv ?_ n
  intro n ih
  obtain ⟨blockSel, rotSel, hSel, hEq⟩ := hSelect n
  exact ih.step (hEq ▸ drawn_chooseBlock hSel rotSel)

/-- Every state of `block_motion` reached from reset is on the grid, for every
waveform of frame clock, keys, boards and shapes and whatever an out-of-range
board read returns. The additions on the position do not wrap, but for the one
that stands for a step to the left; the divisions by 9 are exact; and the
counters, at most 6 and 49, have not passed the 6 and the 50 they, the second
one after its increment, are compared with. -/
theorem motion_onGrid {m₀ : MotionRegs} (hReset : m₀.AtStart) (w : ℕ → MotionInputs)
    (hSelect : ∀ n, LegalSelect (w n).select) (n : ℕ) :
    let m := Clocked.trace MotionRegs.step m₀ w n
    let d := (w n).select
    OnGrid m ∧
    (m.blockXMotion = 9 → (m.blockXPos + m.blockXMotion).toNat = m.blockXPos.toNat + 9) ∧
    (m.blockXMotion = 1015 → (m.blockXPos + m.blockXMotion).toNat = m.blockXPos.toNat - 9) ∧
    (m.blockYMotion = 9 → (m.blockYPos + m.blockYMotion).toNat = m.blockYPos.toNat + 9) ∧
    (m.blockXPos + d.blockSizeX.setWidth 10).toNat = m.blockXPos.toNat + d.blockSizeX.toNat ∧
    (m.blockYPos + d.blockSizeY.setWidth 10).toNat = m.blockYPos.toNat + d.blockSizeY.toNat ∧
    9 ∣ m.blockXPos.toNat - 270 ∧ 9 ∣ m.blockYPos.toNat - 135 ∧
    (m.counterY + 1).toNat = m.counterY.toNat + 1 := by
  intro m d
  have hGrid : OnGrid m := (gridInv_trace hReset hSelect n).toOnGrid
  obtain ⟨c, hc, hX⟩ := hGrid.xPos
  obtain ⟨r, hr, hY⟩ := hGrid.yPos
  have hCy := hGrid.counterY
  refine ⟨hGrid, hGrid.add_right, hGrid.add_left, hGrid.add_drop, ?_, ?_, ⟨c, by omega⟩,
    ⟨r, by omega⟩, by bv_omega⟩
  · have hLt := d.blockSizeX.isLt
    rw [BitVec.toNat_add, BitVec.toNat_setWidth]
    omega
  · have hLt := d.blockSizeY.isLt
    rw [BitVec.toNat_add, BitVec.toNat_setWidth]
    omega

/-- The I piece under key LEFT, with a frame edge every second clock. -/
theorem motion_onGrid_left :
    let w : ℕ → MotionInputs := fun n =>
      { reset := false
        frameClk := n % 2 == 0
        keycode := 0x1C
        keypress := true
        select := chooseBlock 3 0
        board := 0
        undefinedRead := fun _ _ => 0 }
    OnGrid (Clocked.trace MotionRegs.step Game.initial.motion w 40) :=
  (motion_onGrid Game.isReset_initial.motion.toAtStart _
    (fun _ => ⟨3, 0, by decide, rfl⟩) 40).1

end Ece385.Tetris

import Ece385.Tetris.PieceSafety

/-!
# Tetris — when a frame edge keeps the piece safe

On a frame edge `block_motion` moves the piece by motion registers written on
an earlier edge, while its checks look straight sideways and straight down
from where the piece stands now, and the floor and the walls are not checked
for the step about to be taken. A piece that turned, or fell past a ledge,
since the motion was written can therefore step past a wall, through the floor
or into settled cells.

`FrameStepOk` is the exact condition under which it does not: the drop is not
taken on the floor, the step to the right is not taken at the right edge, and
the side table of the stored motion, read in the row the piece drops to, is
free. On a clock on which the line-clear chain takes a row out, what comes down to
the cells the piece goes to has to be empty; a `Reset` that takes no row out
leaves nothing to ask.

Main results:

* `EdgeInside`, `EdgeFree` and `inside_edge_iff`, `free_edge_iff` — the two
  halves of the condition for `block_motion` alone.
* `cellsSafe_next_iff`, `frameStep_safe_iff` — for every reachable state of the
  game.
* `frameStep_past_wall` — a run on which a frame edge carries a piece past the
  right wall.
-/

open Figure RowStack Clocked

namespace Ece385.Tetris

/-! ## Where a frame edge takes the piece -/

section Edge

variable {m : MotionRegs} {i : MotionInputs} {k : Shape} {a : ℤ × ℤ}

/-- The columns the sideways update adds. -/
def columnStep (m : MotionRegs) (i : MotionInputs) : ℤ :=
  if stepDue m i then
    if m.blockXMotion = 9 then 1 else if m.blockXMotion = 1015 then -1 else 0
  else 0

/-- The rows the vertical update adds. -/
def rowStep (m : MotionRegs) (i : MotionInputs) : ℤ := if dropDue m i then 1 else 0

theorem rowAfter_eq (hEdge : m.frameClkRisingEdge = true) :
    rowAfter m i = (motionComb m i).blockYPosIn := (yPosIn_edge hEdge).symm

theorem rowStep_mem (m : MotionRegs) (i : MotionInputs) :
    (dropDue m i = false ∧ rowStep m i = 0) ∨ (dropDue m i = true ∧ rowStep m i = 1) := by
  rw [rowStep]
  cases dropDue m i <;> simp

/-- Pixels and cells of the row the piece goes to. -/
theorem atCell_rowAfter (hGrid : GridInv m) (hAt : AtCell m.blockXPos m.blockYPos a)
    (hEdge : m.frameClkRisingEdge = true) (hBottom : (motionComb m i).atBottom = false) :
    AtCell m.blockXPos (rowAfter m i) (a + (rowStep m i, 0)) := by
  have hY := hAt.y
  have hRow := hAt.row
  refine ⟨by simpa using hAt.x, ?_, by simpa using hAt.col, ?_⟩
  · rw [rowAfter_eq hEdge, rowStep]
    rcases (yPosIn_cases hGrid hEdge hBottom).2 with ⟨hDue, hY'⟩ | ⟨hDue, -, hY'⟩
    · simp [hDue, hY', hY]
    · simp [hDue, hY', hY]
      ring
  · rcases rowStep_mem m i with ⟨-, h0⟩ | ⟨-, h1⟩ <;> simp only [Prod.fst_add] <;> omega

/-- What the sideways update adds, with what the grid invariant knows of it. -/
theorem columnStep_cases (hGrid : GridInv m) (hAt : AtCell m.blockXPos m.blockYPos a) :
    (columnStep m i = 0 ∧ (stepDue m i = true → m.blockXMotion = 0)) ∨
    (columnStep m i = 1 ∧ stepDue m i = true ∧ m.blockXMotion = 9) ∨
    (columnStep m i = -1 ∧ stepDue m i = true ∧ m.blockXMotion = 1015 ∧ 1 ≤ a.2) := by
  rw [columnStep]
  cases hDue : stepDue m i with
  | false => exact Or.inl ⟨by simp, by simp⟩
  | true =>
    rcases hGrid.xMotion with h0 | h9 | h1015
    · exact Or.inl ⟨by rw [h0]; rfl, fun _ => h0⟩
    · exact Or.inr (Or.inl ⟨by rw [h9]; rfl, rfl, h9⟩)
    · refine Or.inr (Or.inr ⟨by rw [h1015]; rfl, rfl, h1015, ?_⟩)
      -- a carried motion to the left has a column left to go to
      have hSix : m.counterX ≠ 0 := by rw [(stepDue_iff.mp hDue).1]; decide
      have hLow := hGrid.left h1015 hSix
      have hX := hAt.x
      omega

/-- Pixels and cells of the place the piece goes to. -/
theorem atCell_edge (hGrid : GridInv m) (hAt : AtCell m.blockXPos m.blockYPos a)
    (hEdge : m.frameClkRisingEdge = true) (hBottom : (motionComb m i).atBottom = false) :
    AtCell (colAfter m i) (rowAfter m i) (a + (rowStep m i, columnStep m i)) := by
  have hRowAfter := atCell_rowAfter hGrid hAt hEdge hBottom
  have hX := hAt.x
  have hCol := hAt.col
  refine ⟨?_, by simpa using hRowAfter.y, ?_, by simpa using hRowAfter.row⟩
  · have hBounds := hGrid.xPos_bounds
    rw [colAfter, Prod.snd_add]
    rcases columnStep_cases (i := i) hGrid hAt with ⟨h0, hZero⟩ | ⟨h1, hDue, h9⟩ |
      ⟨h1, hDue, h1015, hLe⟩
    · -- a step by the motion 0 goes nowhere
      rw [h0]
      split_ifs with hDue
      · have hSame : m.blockXPos + m.blockXMotion = m.blockXPos := by rw [hZero hDue]; simp
        rw [hSame]; omega
      · omega
    · rw [h1, if_pos hDue, hGrid.add_right h9]; push_cast; omega
    · rw [h1, if_pos hDue, hGrid.add_left h1015]; omega
  · simp only [Prod.snd_add]
    rcases columnStep_cases (i := i) hGrid hAt with ⟨h0, -⟩ | ⟨h1, -⟩ | ⟨h1, -, -, hLe⟩ <;> omega

/-! ## The condition for `block_motion` alone -/

/-- The side check that belongs to a stored motion. -/
def sideCells (motion : BitVec 10) (c : Choose) : List (ℤ × ℤ) :=
  if motion = stepSize then (rightTable c).getD []
  else if motion = ~~~stepSize + 1 then (leftTable c).getD []
  else []

theorem sideCells_right (k : Shape) : sideCells 9 k.only = k.rightCells := rfl

theorem sideCells_left (k : Shape) : sideCells 1015 k.only = k.leftCells := rfl

theorem sideCells_zero (k : Shape) : sideCells 0 k.only = [] := rfl

/-- The step of this edge is not taken through the floor or past the right wall. -/
structure EdgeInside (m : MotionRegs) (i : MotionInputs) : Prop where
  floor : dropDue m i = true → atFloor m i = false
  wall : stepDue m i = true → m.blockXMotion = stepSize → rightFree m i = true

/-- The side table of the stored motion is free in the row dropped to. -/
def EdgeFree (m : MotionRegs) (i : MotionInputs) : Prop :=
  stepDue m i = true →
    i.hits m.blockXPos (rowAfter m i) (sideCells m.blockXMotion i.select.choose) = false

theorem inside_edge_iff (hGrid : GridInv m) (hk : i.select = k.select)
    (hAt : AtCell m.blockXPos m.blockYPos a)
    (hIn : Inside (well 22 11) (place k.cells a)) :
    Inside (well 22 11) (place k.cells (a + (rowStep m i, columnStep m i))) ↔
      EdgeInside m i := by
  have hX := hAt.x
  have hY := hAt.y
  have hBounds := hAt.bounds hIn
  have hFloor := atFloor_iff_toNat hk hBounds.2
  have hRight := rightFree_iff_toNat hk hBounds.1
  have hCorner := (inside_cells_iff k a).mp hIn
  have hRow := rowStep_mem m i
  have hCol := columnStep_cases (i := i) hGrid hAt
  rw [inside_cells_iff]
  simp only [Prod.fst_add, Prod.snd_add]
  constructor
  · -- a forbidden drop or step is visible in the row or the column reached
    intro hGoal
    refine ⟨fun hDue => ?_, fun hDue hMotion => ?_⟩
    · rw [← Bool.not_eq_true, hFloor]
      rcases hRow with ⟨hNot, -⟩ | ⟨-, h1⟩
      · rw [hDue] at hNot; exact absurd hNot (by decide)
      · omega
    · rw [hRight]
      have h1 : columnStep m i = 1 := by
        rw [columnStep, if_pos hDue, if_pos (show m.blockXMotion = 9 from hMotion)]
      omega
  · -- the left wall needs no condition, the grid invariant keeps the piece off it
    intro hOk
    have hDrop : a.1 + rowStep m i + k.height ≤ 22 := by
      rcases hRow with ⟨-, h0⟩ | ⟨hDue, h1⟩
      · omega
      · have hNot := hOk.floor hDue
        rw [← Bool.not_eq_true, hFloor] at hNot
        omega
    have hStep : a.2 + columnStep m i + k.width ≤ 11 := by
      rcases hCol with ⟨h0, -⟩ | ⟨h1, hDue, h9⟩ | ⟨h1, -⟩
      · omega
      · have hFree := hRight.mp (hOk.wall hDue h9)
        omega
      · omega
    rcases hRow with ⟨-, hR⟩ | ⟨-, hR⟩ <;> rcases hCol with ⟨hC, -⟩ | ⟨hC, -⟩ | ⟨hC, -, -, hLe⟩ <;>
      omega

/-- Where no lock happens the figure is free one row down, as far as it is in
the well there. -/
theorem free_below (hk : i.select = k.select) (hAt : AtCell m.blockXPos m.blockYPos a)
    (hFree : Free (filled i.board) (place k.cells a)) (hEdge : m.frameClkRisingEdge = true)
    (hBottom : (motionComb m i).atBottom = false)
    (hIn : Inside (well 22 11) (place k.cells (a + (1, 0)))) :
    Free (filled i.board) (place k.cells (a + (1, 0))) := by
  rw [atBottom_edge hEdge, Bool.or_eq_false_iff, choose_of_select hk] at hBottom
  by_contra hBlocked
  -- a settled cell below would have been hit by the landing test
  rw [not_free_iff, ← hits_iff_blocked hAt (landingTable_only k) hFree hIn, hBottom.2] at hBlocked
  exact absurd hBlocked (by decide)

theorem free_rowStep (hk : i.select = k.select) (hAt : AtCell m.blockXPos m.blockYPos a)
    (hFree : Free (filled i.board) (place k.cells a)) (hEdge : m.frameClkRisingEdge = true)
    (hBottom : (motionComb m i).atBottom = false)
    (hIn : Inside (well 22 11) (place k.cells (a + (rowStep m i, 0)))) :
    Free (filled i.board) (place k.cells (a + (rowStep m i, 0))) := by
  rcases rowStep_mem m i with ⟨-, h0⟩ | ⟨-, h1⟩
  · rw [h0, show ((0, 0) : ℤ × ℤ) = 0 from rfl, add_zero]
    exact hFree
  · rw [h1] at hIn ⊢
    exact free_below hk hAt hFree hEdge hBottom hIn

theorem free_edge_iff (hGrid : GridInv m) (hk : i.select = k.select)
    (hAt : AtCell m.blockXPos m.blockYPos a)
    (hFits : Fits (well 22 11) (filled i.board) (place k.cells a))
    (hEdge : m.frameClkRisingEdge = true) (hBottom : (motionComb m i).atBottom = false)
    (hIn : Inside (well 22 11) (place k.cells (a + (rowStep m i, columnStep m i)))) :
    Free (filled i.board) (place k.cells (a + (rowStep m i, columnStep m i))) ↔
      EdgeFree m i := by
  have hCorner := (inside_cells_iff k a).mp hFits.inside
  have hInRow : Inside (well 22 11) (place k.cells (a + (rowStep m i, 0))) := by
    rw [inside_cells_iff] at hIn ⊢
    simp only [Prod.fst_add, Prod.snd_add] at hIn ⊢
    omega
  have hAtRow := atCell_rowAfter hGrid hAt hEdge hBottom
  have hFreeRow := free_rowStep hk hAt hFits.free hEdge hBottom hInRow
  -- first down, where the landing test vouches for the cells, then sideways
  have hSplit : a + (rowStep m i, columnStep m i) =
      a + (rowStep m i, 0) + (0, columnStep m i) := by ext <;> simp
  rw [hSplit] at hIn ⊢
  rw [EdgeFree, choose_of_select hk]
  rcases columnStep_cases (i := i) hGrid hAt with ⟨h0, hZero⟩ | ⟨h1, hDue, h9⟩ |
    ⟨h1, hDue, h1015, -⟩
  · -- no step, or a step by 0: nothing new is covered
    refine iff_of_true ?_ fun hDue => ?_
    · rw [h0, show ((0, 0) : ℤ × ℤ) = 0 from rfl, add_zero]
      exact hFreeRow
    · rw [hZero hDue, sideCells_zero]; rfl
  · -- the right table lists the cells newly covered by a step to the right
    rw [h1] at hIn ⊢
    rw [← not_iff_not, not_free_iff, ← hits_iff_blocked hAtRow (rightCells_toFinset k) hFreeRow hIn,
      h9, sideCells_right]
    simp [hDue]
  · rw [h1] at hIn ⊢
    rw [← not_iff_not, not_free_iff, ← hits_iff_blocked hAtRow (leftCells_toFinset k) hFreeRow hIn,
      h1015, sideCells_left]
    simp [hDue]

end Edge

/-! ## The condition for the game -/

/-- The condition under which a frame edge without a lock keeps the piece safe, on the state
before it. -/
structure FrameStepOk (s : Game) (i : Inputs) : Prop where
  inside : i.reset = false → EdgeInside s.motion (s.motionInputs i)
  free : i.reset = false → (∀ r, ¬ Removes s.cells.board r) →
    EdgeFree s.motion (s.motionInputs i)
  shifted : ∀ r, Removes s.cells.board r →
    ∀ p ∈ paintedCells s.select.choose (s.xNext i) (s.yNext i), ShiftFree s.cells.board r p

instance (m : MotionRegs) (i : MotionInputs) : Decidable (EdgeInside m i) :=
  decidable_of_iff ((dropDue m i = true → atFloor m i = false) ∧
      (stepDue m i = true → m.blockXMotion = stepSize → rightFree m i = true))
    ⟨fun h => ⟨h.1, h.2⟩, fun h => ⟨h.floor, h.wall⟩⟩

instance (m : MotionRegs) (i : MotionInputs) : Decidable (EdgeFree m i) :=
  inferInstanceAs (Decidable (_ → _))

instance (s : Game) (i : Inputs) : Decidable (FrameStepOk s i) :=
  -- checked along the list, never over all index pairs
  haveI := fun r => List.decidableBAll (ShiftFree s.cells.board r)
    (paintedCells s.select.choose (s.xNext i) (s.yNext i))
  decidable_of_iff
    ((i.reset = false → EdgeInside s.motion (s.motionInputs i)) ∧
      (i.reset = false → (∀ r, ¬ Removes s.cells.board r) →
        EdgeFree s.motion (s.motionInputs i)) ∧
      ∀ r, Removes s.cells.board r →
        ∀ p ∈ paintedCells s.select.choose (s.xNext i) (s.yNext i),
          ShiftFree s.cells.board r p)
    ⟨fun h => ⟨h.1, h.2.1, h.2.2⟩, fun h => ⟨h.inside, h.free, h.shifted⟩⟩

section Game

variable {s : Game} {i : Inputs} {a : ℤ × ℤ}

/-- The start position is inside the well for every shape. -/
theorem inside_start (k : Shape) : Inside (well 22 11) (place k.cells (0, 3)) := by
  have hHeight := height_le k
  have hWidth := width_le k
  rw [inside_cells_iff]
  dsimp only
  omega

/-- The cell the clock takes the piece to, and both halves of the condition there. -/
theorem frameStep_destination (hGrid : GridInv s.motion) (hSel : s.select = s.shape.select)
    (hAt : AtCell s.motion.blockXPos s.motion.blockYPos a)
    (hFits : Fits (well 22 11) (filled s.cells.board) (place s.shape.cells a))
    (hEdge : s.motion.frameClkRisingEdge = true) (hLock : s.atBottom i = false) :
    ∃ a', AtCell (s.xNext i) (s.yNext i) a' ∧
      (Inside (well 22 11) (place s.shape.cells a') ↔
        (i.reset = false → EdgeInside s.motion (s.motionInputs i))) ∧
      (Inside (well 22 11) (place s.shape.cells a') → i.reset = false →
        (Free (filled s.cells.board) (place s.shape.cells a') ↔
          EdgeFree s.motion (s.motionInputs i))) := by
  rw [Game.xNext, Game.yNext]
  cases hReset : i.reset with
  | true =>
    -- `Reset` takes the piece to the start, whatever the motions say
    exact ⟨(0, 3), ⟨rfl, rfl, by decide, by decide⟩,
      iff_of_true (inside_start _) fun hLow => absurd hLow (by decide),
      fun _ hLow => absurd hLow (by decide)⟩
  | false =>
    simp only [hEdge, Bool.false_eq_true, if_false, if_true, true_imp_iff]
    refine ⟨_, atCell_edge hGrid hAt hEdge hLock, inside_edge_iff hGrid hSel hAt hFits.inside,
      fun hIn => free_edge_iff hGrid hSel hAt hFits hEdge hLock hIn⟩

/-- Where the shape is not changed on the way, the piece fits where the frame
edge takes it exactly if `FrameStepOk` holds. -/
theorem cellsSafe_next_iff (hInv : GameInv s) (hSafe : s.Safe)
    (hEdge : s.motion.frameClkRisingEdge = true) (hLock : s.atBottom i = false) :
    CellsSafe (s.boardNext i) s.select.choose (s.xNext i) (s.yNext i) ↔ FrameStepOk s i := by
  obtain ⟨a, hAt, hSel, hFits⟩ := hSafe.fits hInv
  obtain ⟨a', hAt', hInside, hFree⟩ :=
    frameStep_destination (i := i) hInv.grid hSel hAt hFits hEdge hLock
  have hOnly : s.select.choose = s.shape.only := by rw [hSel]; rfl
  rw [hOnly, cellsSafe_iff_fits hAt']
  -- on either board "free" is a matter of the painted cells
  have hCells : ∀ b : Board, Inside (well 22 11) (place s.shape.cells a') →
      (CellsFree b s.select.choose (s.xNext i) (s.yNext i) ↔
        Free (filled b) (place s.shape.cells a')) := fun b hIn => by
    rw [hOnly]
    exact cellsFree_iff_free hAt' hIn
  constructor
  · rintro ⟨hIn, hNext⟩
    obtain ⟨hKept, hShift⟩ := Game.forall_cellFree_boardNext_iff.mp ((hCells _ hIn).mpr hNext)
    refine ⟨hInside.mp hIn, fun hLow hNone => ?_, hShift⟩
    exact (hFree hIn hLow).mp ((hCells _ hIn).mp (hKept hLow hNone))
  · intro hOk
    have hIn := hInside.mpr hOk.inside
    refine ⟨hIn, (hCells _ hIn).mp (Game.forall_cellFree_boardNext_iff.mpr ⟨?_, hOk.shifted⟩)⟩
    -- the collision tests saw the board before
    exact fun hLow hNone => (hCells _ hIn).mpr ((hFree hIn hLow).mpr (hOk.free hLow hNone))

/-- A frame edge without a lock, from a state with a safe piece, that leaves the
shape shown as it is. -/
structure FrameStepClock (s : Game) (i : Inputs) : Prop where
  safe : s.Safe
  edge : s.motion.frameClkRisingEdge = true
  noLock : s.atBottom i = false
  sameShape : (s.step i).select.choose = s.select.choose

instance (s : Game) (i : Inputs) : Decidable (FrameStepClock s i) :=
  decidable_of_iff (s.Safe ∧ s.motion.frameClkRisingEdge = true ∧ s.atBottom i = false ∧
      (s.step i).select.choose = s.select.choose)
    ⟨fun ⟨h₁, h₂, h₃, h₄⟩ => ⟨h₁, h₂, h₃, h₄⟩, fun ⟨h₁, h₂, h₃, h₄⟩ => ⟨h₁, h₂, h₃, h₄⟩⟩

/-- On every run from reset, `Reset` pulses included, such a frame edge keeps the
piece safe exactly if `FrameStepOk` holds of the state before. -/
theorem frameStep_safe_iff {s₀ : Game} (hReset : s₀.IsReset) (w : ℕ → Inputs) (n : ℕ)
    (h : FrameStepClock (s₀.run w n) (w n)) :
    (s₀.run w (n + 1)).Safe ↔ FrameStepOk (s₀.run w n) (w n) := by
  rw [Game.run, trace_succ, Game.safe_step_iff h.noLock, h.sameShape]
  exact cellsSafe_next_iff (gameInv_run hReset w n) h.safe h.edge h.noLock

/-- Draw the I piece and let one frame pass, then hold RIGHT for 7 frames, LEFT for 21 and
RIGHT for 21. -/
def diagonalRun : List Inputs :=
  { lfsrOut := 3 } :: ([[({ frameClk := true } : Inputs), {}]] ++
    List.replicate 7 [keyDown 0x23 true, keyDown 0x23 false] ++
    List.replicate 21 [keyDown 0x1C true, keyDown 0x1C false] ++
    List.replicate 21 [keyDown 0x23 true, keyDown 0x23 false]).flatten

/-- On the last of these frame edges the piece goes to the right and down at once. -/
theorem frameStep_safe_iff_diagonal :
    let s := Game.initial.run (listed diagonalRun)
    (s 100).motion.blockXPos + 9 = (s 101).motion.blockXPos ∧
      (s 100).motion.blockYPos + 9 = (s 101).motion.blockYPos ∧ (s 101).Safe := by
  intro s
  have hLength : diagonalRun.length = 101 := by decide +kernel
  have hBefore : s 100 = _ := run_listed Game.initial diagonalRun (n := 100) (by omega)
  have hAfter : s 101 = _ := run_listed Game.initial diagonalRun (n := 101) (by omega)
  obtain ⟨hClock, hOk, hX, hY⟩ : FrameStepClock (s 100) (listed diagonalRun 100) ∧
      FrameStepOk (s 100) (listed diagonalRun 100) ∧
      (s 100).motion.blockXPos + 9 = (s 101).motion.blockXPos ∧
      (s 100).motion.blockYPos + 9 = (s 101).motion.blockYPos := by
    rw [hBefore, hAfter]
    decide +kernel
  exact ⟨hX, hY, (frameStep_safe_iff Game.isReset_initial _ 100 hClock).mpr hOk⟩

end Game

/-! ## A frame edge past the wall -/

/-- Draw the I piece, turn it upright, hold RIGHT for 34 frames, which brings it
to column 7 with the next step pending, and press the rotate key: the piece
lies flat against the wall, its stored motion still 9. -/
def wallRun : List Inputs :=
  [{ lfsrOut := 3 }, keyDown 0x1d false, {}] ++
    (List.replicate 34 [keyDown 0x23 true, keyDown 0x23 false]).flatten ++
    [keyDown 0x1d true, keyDown 0x1d false]

/-- The next frame edge moves the flat piece from columns 7 to 10 to columns 8
to 11, past the right wall. -/
theorem frameStep_past_wall :
    let w := listed wallRun
    FrameStepClock (Game.initial.run w 72) (w 72) ∧ ¬ (Game.initial.run w 73).Safe := by
  intro w
  have hLength : wallRun.length = 73 := by decide +kernel
  rw [show Game.initial.run w 72 = _ from run_listed _ _ (by omega),
    show Game.initial.run w 73 = _ from run_listed _ _ (by omega)]
  decide +kernel

end Ece385.Tetris

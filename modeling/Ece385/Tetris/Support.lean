import Ece385.Tetris.Conservation
import Ece385.Tetris.Probes

/-!
# Tetris — what a locking piece rests on

`at_bottom` has two sources. The landing test looks for a settled cell right
below the piece; it means what it says as long as the cell it finds is one of
the array. The other source is `block_Y_Motion == 0`, and that register was
cleared on the frame edge before, when the boundary check found the piece at
the floor. Nothing looks at the floor again: a piece that has turned flat in
between locks where it hangs.

`GroundedStep` is the condition on a clock that rules both out. `StopInv`, the
invariant it carries along a run, says that a cleared motion still means a
piece on the floor.

Main results:

* `StopInv.step` — one clock without such a turn keeps the invariant.
* `lock_supported` — on every run of such clocks every locking piece is
  supported.
* `lock_in_mid_air` — a run on which a flat piece locks four rows up.
-/

open Figure RowStack Clocked

namespace Ece385.Tetris

/-! ## Supported pieces -/

/-- The cell below `p` is a settled cell of the array. -/
def RestsOn (b : Board) (p : BitVec 32 × BitVec 32) : Prop :=
  ∃ h : p.1.toNat + 1 < 22 ∧ p.2.toNat < 11, b ⟨p.1.toNat + 1, h.1⟩ ⟨p.2.toNat, h.2⟩ ≠ 0

instance (b : Board) (p : BitVec 32 × BitVec 32) : Decidable (RestsOn b p) :=
  inferInstanceAs (Decidable (∃ _, _))

/-- One of the cells `board` would paint is in row 21 or right above a settled cell. -/
def Game.Supported (s : Game) : Prop :=
  ∃ p ∈ paintedCells s.select.choose s.motion.blockXPos s.motion.blockYPos,
    p.1.toNat = 21 ∨ RestsOn s.cells.board p

instance (s : Game) : Decidable s.Supported :=
  -- checked along the list, never over all index pairs
  List.decidableBEx (fun p : BitVec 32 × BitVec 32 => p.1.toNat = 21 ∨ RestsOn s.cells.board p) _

section Cells

variable {s : Game} {k : Shape} {a d : ℤ × ℤ}

theorem mem_paintedCells (hk : s.select = k.select) (hd : d ∈ k.cells) :
    (offset (gridRow s.motion.blockYPos) d.1, offset (gridCol s.motion.blockXPos) d.2) ∈
      paintedCells s.select.choose s.motion.blockXPos s.motion.blockYPos := by
  have hOnly : s.select.choose = k.only := by rw [hk]; rfl
  rw [hOnly, paintedCells_only]
  exact List.mem_map_of_mem (List.mem_toFinset.mp hd)

/-- A cell of the figure above a settled one supports the piece. -/
theorem supported_of_filled (hk : s.select = k.select)
    (hAt : AtCell s.motion.blockXPos s.motion.blockYPos a) (hd : d ∈ k.cells)
    (hFilled : a + (d + (1, 0)) ∈ filled s.cells.board) : s.Supported := by
  obtain ⟨hRow, hCol⟩ := hAt.offset_cells hd
  obtain ⟨r, c, hPair, hNe⟩ := hFilled
  have hR : a.1 + (d.1 + 1) = r := congrArg Prod.fst hPair
  have hC : a.2 + (d.2 + 0) = c := congrArg Prod.snd hPair
  refine ⟨_, mem_paintedCells hk hd, Or.inr ⟨⟨by dsimp only; omega, by dsimp only; omega⟩, ?_⟩⟩
  -- the row below `d` and its column are the settled cell's
  convert hNe using 2
  · exact Fin.ext (by dsimp only; omega)
  · exact Fin.ext (by dsimp only; omega)

/-- Every row of the bounding box has a cell of the figure. -/
theorem exists_cell_in_row (k : Shape) : ∀ r < k.height, ∃ d ∈ k.cells, d.1 = r := by
  cases k <;> decide

/-- A figure that reaches down to row 21, or below, has a cell in row 21. -/
theorem supported_of_floor (hk : s.select = k.select)
    (hAt : AtCell s.motion.blockXPos s.motion.blockYPos a) (hHigh : a.1 ≤ 21)
    (hLow : 22 ≤ a.1 + k.height) : s.Supported := by
  obtain ⟨d, hd, hRow⟩ := exists_cell_in_row k (21 - a.1).toNat (by omega)
  have hIndex := (hAt.offset_cells hd).1
  exact ⟨_, mem_paintedCells hk hd, Or.inl (by dsimp only; omega)⟩

end Cells

/-! ## The condition on one clock -/

/-- `Y_Pos + block_size_y >= Y_Max` for the shape shown. -/
def Game.OnFloor (s : Game) : Prop :=
  s.motion.blockYPos + s.select.blockSizeY.setWidth 10 ≥ yMax

/-- The Y motion is cleared, or the boundary check clears it on this clock. -/
def Game.stopped (s : Game) (i : Inputs) : Bool :=
  if s.motion.frameClkRisingEdge then atFloor s.motion (s.motionInputs i)
  else decide (s.motion.blockYMotion = 0)

/-- One clock does not take a stopped piece off the floor, and a piece that the landing test
locks is not past the right wall. -/
structure GroundedStep (s : Game) (i : Inputs) : Prop where
  turn : i.reset = false → s.atBottom i = false → s.stopped i = true → s.turnDue i = true →
    s.yNext i + s.turned.select.blockSizeY.setWidth 10 ≥ yMax
  wall : s.atBottom i = true → s.motion.blockYMotion ≠ 0 →
    s.motion.blockXPos + s.select.blockSizeX.setWidth 10 ≤ xMax + 1

instance (s : Game) (i : Inputs) : Decidable (GroundedStep s i) :=
  decidable_of_iff
    ((i.reset = false → s.atBottom i = false → s.stopped i = true → s.turnDue i = true →
        s.yNext i + s.turned.select.blockSizeY.setWidth 10 ≥ yMax) ∧
      (s.atBottom i = true → s.motion.blockYMotion ≠ 0 →
        s.motion.blockXPos + s.select.blockSizeX.setWidth 10 ≤ xMax + 1))
    ⟨fun h => ⟨h.1, h.2⟩, fun h => ⟨h.turn, h.wall⟩⟩

/-- A cleared Y motion means a piece on the floor. -/
def StopInv (s : Game) : Prop := s.motion.blockYMotion = 0 → s.OnFloor

section Step

variable {s : Game} {i : Inputs}

theorem onFloor_iff (i : Inputs) : s.OnFloor ↔ atFloor s.motion (s.motionInputs i) = true := by
  rw [atFloor_iff, Game.OnFloor, show (s.motionInputs i).select = s.select from rfl]

/-- A piece in the first row is not on the floor. -/
theorem Game.not_onFloor_of_yPos (h : s.motion.blockYPos = blockYStart) : ¬ s.OnFloor := by
  have hLt := s.select.blockSizeY.isLt
  have hMax : yMax.toNat = 333 := rfl
  have hStart : blockYStart.toNat = 135 := rfl
  rw [Game.OnFloor, h, ge_iff_le, BitVec.le_def, BitVec.toNat_add, BitVec.toNat_setWidth]
  omega

/-- Where the Y motion is cleared after a clock, the piece was stopped on the
floor before it. -/
theorem stopped_of_cleared (hInv : GameInv s) (hStop : StopInv s)
    (hReset : i.reset = false) (hLock : s.atBottom i = false)
    (hCleared : (s.step i).motion.blockYMotion = 0) : s.stopped i = true ∧ s.OnFloor := by
  rw [Game.stopped]
  cases hEdge : s.motion.frameClkRisingEdge with
  | false =>
    have hKept : s.motion.blockYMotion = 0 := by
      rw [Game.step, step_idle hReset hEdge] at hCleared
      exact hCleared
    exact ⟨by simpa using hKept, hStop hKept⟩
  | true =>
    have hNine := (yPosIn_cases hInv.grid hEdge hLock).1
    have hNext : (motionComb s.motion (s.motionInputs i)).blockYMotionIn = 0 := by
      rw [Game.step, step_latch hReset hLock] at hCleared
      exact hCleared
    rw [yMotionIn_edge hEdge] at hNext
    -- only the floor assigns 0; the other two branches keep a step of 9
    have hFloor : atFloor s.motion (s.motionInputs i) = true := by
      by_contra hUp
      rw [if_neg hUp] at hNext
      split_ifs at hNext
      · exact absurd hNext (by decide)
      · exact absurd (hNine.symm.trans hNext) (by decide)
    exact ⟨hFloor, (onFloor_iff i).mpr hFloor⟩

/-- A piece on the floor stays on it, whatever the drop of this clock. -/
theorem onFloor_yNext (hInv : GameInv s) (hFloor : s.OnFloor) (hReset : i.reset = false)
    (hLock : s.atBottom i = false) :
    s.yNext i + s.select.blockSizeY.setWidth 10 ≥ yMax := by
  have hY := hInv.grid.yPos_bounds
  have hLt := s.select.blockSizeY.isLt
  rw [Game.OnFloor, ge_iff_le, BitVec.le_def, BitVec.toNat_add, BitVec.toNat_setWidth] at hFloor
  rw [ge_iff_le, BitVec.le_def, BitVec.toNat_add, BitVec.toNat_setWidth, Game.yNext, hReset]
  cases hEdge : s.motion.frameClkRisingEdge with
  | false => simpa using hFloor
  | true =>
    have hRow := yPosIn_cases (i := s.motionInputs i) hInv.grid hEdge hLock
    simp only [Bool.false_eq_true, if_false, if_true, rowAfter_eq hEdge]
    -- no drop, or a drop that only goes further down
    rcases hRow.2 with ⟨-, hY'⟩ | ⟨-, -, hY'⟩
    · rw [hY']; exact hFloor
    · omega

/-- One clock. -/
theorem StopInv.step (hStop : StopInv s) (hInv : GameInv s) (hOk : GroundedStep s i) :
    StopInv (s.step i) := by
  intro hCleared
  by_cases hRespawn : i.reset = true ∨ s.atBottom i = true
  · have hStart := Game.motion_step_of_respawn hRespawn
    rw [hStart.yMotion] at hCleared
    exact absurd hCleared (by decide)
  rw [not_or, Bool.not_eq_true, Bool.not_eq_true] at hRespawn
  obtain ⟨hStopped, hFloor⟩ := stopped_of_cleared hInv hStop hRespawn.1 hRespawn.2 hCleared
  -- a piece still to be drawn is at the start, far from the floor
  have hNew : s.chooser.newShape = false := by
    by_contra hNew
    exact Game.not_onFloor_of_yPos (hInv.start (by simpa using hNew)).yPos hFloor
  rw [Game.OnFloor, (Game.position_step hRespawn.2).2]
  by_cases hSame : (s.step i).rotation = s.rotation
  · rw [select_step_of_eq hNew hSame]
    exact onFloor_yNext hInv hFloor hRespawn.1 hRespawn.2
  · rw [select_eq_turned (hInv.drawn hNew) hNew hSame]
    exact hOk.turn hRespawn.1 hRespawn.2 hStopped ((turnDue_iff hRespawn.1 hNew).mpr hSame)

/-- Only a drawn shape locks. -/
theorem blockSel_ne_seven_of_lock (hInv : GameInv s) (hLock : s.atBottom i = true) :
    s.chooser.blockSel ≠ 7 := by
  intro hSel
  obtain ⟨hStart, hNone⟩ := hInv.undrawn hSel
  rw [Game.atBottom, atBottom_edge (Game.edge_of_atBottom hLock), hStart.yMotion,
    show (s.motionInputs i).select = {} from hNone] at hLock
  simp [stepSize, landingTable, MotionInputs.hits] at hLock

/-- Not past the right wall, a piece that the landing test locks is supported: the cell found is
settled, or below row 21. -/
theorem supported_of_hit {k : Shape} {a : ℤ × ℤ} (hk : s.select = k.select)
    (hAt : AtCell s.motion.blockXPos s.motion.blockYPos a) (hHigh : a.1 ≤ 21) (hLeft : a.2 ≤ 10)
    (hWall : s.motion.blockXPos + s.select.blockSizeX.setWidth 10 ≤ xMax + 1)
    (hHit : (s.motionInputs i).hits s.motion.blockXPos s.motion.blockYPos
      (landingTable s.select.choose) = true) : s.Supported := by
  have hOnly : s.select.choose = k.only := by rw [hk]; rfl
  rw [hOnly, MotionInputs.hits, List.any_eq_true] at hHit
  obtain ⟨d, hd, hRead⟩ := hHit
  have hRow := hAt.row
  have hCol := hAt.col
  have hHeight := height_le k
  have hWidth := width_le k
  have hBounds := table_bounds (landingTable_only k) hd
  have hInWall := (inWall_iff (i := s.motionInputs i) hk hAt hLeft).mp hWall
  -- a cell probed below row 21 belongs to a piece on the floor
  by_cases hIn : a.1 + d.1 < 22
  · have hWell : a + d ∈ well 22 11 := mem_well.mpr (by
      simp only [Prod.fst_add, Prod.snd_add, Nat.cast_ofNat]
      omega)
    have hFilled := (hAt.read_ne_zero_iff hWell _ _).mp (bne_iff_ne.mp hRead)
    obtain ⟨c, hc, rfl⟩ : ∃ c ∈ k.cells, (1, 0) + c = d := by
      rw [← List.mem_toFinset, landingTable_only] at hd
      exact mem_place.mp (Finset.mem_sdiff.mp hd).1
    exact supported_of_filled hk hAt hc (by rwa [add_comm c])
  · exact supported_of_floor hk hAt hHigh (by omega)

/-- A lock from a state that keeps the invariant. -/
theorem supported_of_lock (hInv : GameInv s) (hStop : StopInv s) (hOk : GroundedStep s i)
    (hLock : s.atBottom i = true) : s.Supported := by
  obtain ⟨a, hAt, hHigh, hLeft⟩ := hInv.grid.toOnGrid.atCell
  have hk := GameInv.select_of_ne_seven (blockSel_ne_seven_of_lock hInv hLock)
  by_cases hCleared : s.motion.blockYMotion = 0
  · have hFloor := (onFloor_iff i).mp (hStop hCleared)
    have hY := hAt.y
    rw [atFloor_iff_toNat hk (by omega)] at hFloor
    exact supported_of_floor hk hAt hHigh (by omega)
  · have hWall := hOk.wall hLock hCleared
    rw [Game.atBottom, atBottom_edge (Game.edge_of_atBottom hLock), Bool.or_eq_true,
      decide_eq_true_eq] at hLock
    exact supported_of_hit hk hAt hHigh hLeft hWall (hLock.resolve_left hCleared)

end Step

/-! ## Every run -/

section Run

variable {s₀ : Game} {w : ℕ → Inputs}

theorem stopInv_run (hReset : s₀.IsReset) (n : ℕ)
    (hOk : ∀ l < n, GroundedStep (s₀.run w l) (w l)) : StopInv (s₀.run w n) := by
  induction n with
  | zero =>
    intro hCleared
    rw [Game.run, trace_zero, hReset.motion.yMotion] at hCleared
    exact absurd hCleared (by decide)
  | succ n ih =>
    exact (ih fun l hl => hOk l (by omega)).step (gameInv_run hReset w n) (hOk n (by omega))

/-- No piece locks in mid-air. On every run from reset, `Reset` pulses included,
whose clocks meet `GroundedStep`, a piece that locks has a cell in row 21 or a
cell right above a settled one. -/
theorem lock_supported (hReset : s₀.IsReset) (w : ℕ → Inputs) (n : ℕ)
    (hOk : ∀ l ≤ n, GroundedStep (s₀.run w l) (w l)) (hLock : locks s₀ w n) :
    (s₀.run w n).Supported :=
  supported_of_lock (gameInv_run hReset w n)
    (stopInv_run hReset n fun l hl => hOk l (by omega)) (hOk n le_rfl) hLock

end Run

/-! ## A lock in mid-air -/

/-- The piece locks upright in rows 18 to 21. -/
theorem lock_supported_upright : (Game.initial.run (listed standingRun) 186).Supported := by
  have hChecked : ((checkedRun Game.step (fun s i => decide (GroundedStep s i)) Game.initial
      standingRun).any fun s => decide (GroundedStep s {})) = true := by decide +kernel
  obtain ⟨s, hRun, hLast⟩ := (Option.any_eq_true _ _).mp hChecked
  obtain ⟨hEnd, hOk⟩ := run_listed_checked hRun
  rw [length_standingRun] at hEnd hOk
  refine lock_supported Game.isReset_initial _ 186 (fun l hl => ?_) locks_standingRun.1
  rcases Nat.lt_or_ge l 186 with hlt | hge
  · exact of_decide_eq_true (hOk l hlt)
  · obtain rfl : l = 186 := by omega
    rw [hEnd, listed_of_le length_standingRun.le]
    exact of_decide_eq_true hLast

/-- The run to the floor with the rotate key pressed before the last frame edge. -/
def hangingRun : List Inputs := uprightRun ++ [keyDown 0x1d true, keyDown 0x1d false]

/-- The piece, stopped upright on the floor, is shown flat in row 18 and locks
there, over an empty board. -/
theorem lock_in_mid_air :
    let w := listed hangingRun
    locks Game.initial w 186 ∧ (Game.initial.run w 186).cells.board = 0 ∧
      ¬ (Game.initial.run w 186).Supported := by
  intro w
  have hLength : hangingRun.length = 187 := by decide +kernel
  have hState : Game.initial.run w 186 = (hangingRun.take 186).foldl Game.step Game.initial :=
    run_listed _ _ (by omega)
  rw [locks, hState]
  decide +kernel

end Ece385.Tetris

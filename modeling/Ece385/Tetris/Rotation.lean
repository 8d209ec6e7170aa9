import Ece385.Tetris.FrameStep

/-!
# Tetris — when a change of orientation keeps the piece safe

`rotate_block` tests the boundary when the rotate key goes down and shows the
new orientation when it is released, and it has no view of the board at all.
Nothing repeats the test at the release, however far the piece has fallen.

`TurnOk` is what the turn needs where it takes effect: the boundary test would
pass there too, and the cells the new orientation covers beyond the old ones
are empty, or on a clock that takes a row out, what comes down to them is.

Main results:

* `rotation_step_of_ne` — which orientation a change goes to.
* `inside_turn_iff`, `free_turn_iff` — the two halves of `TurnOk`.
* `turn_safe_iff_rotationOk` — for every clock of every run.
* `turn_below_floor` — a run on which a release turns the I piece through the
  floor.
-/

open Figure RowStack Clocked

namespace Ece385.Tetris

/-! ## The orientation a change goes to -/

/-- The orientation shown after a change from `st`. -/
def RotateState.turnsTo : RotateState → BitVec 2
  | .rotate0Wait => 1
  | .rotate1Wait => 2
  | .rotate2Wait => 3
  | _ => 0

/-- A change is due: a release from one of the first three waiting states, or a press from
`Rotate_1` to `Rotate_3` that is not refused, which shows orientation 0. -/
def Game.turnDue (s : Game) (i : Inputs) : Bool :=
  match s.currentState with
  | .rotate0Wait | .rotate1Wait | .rotate2Wait => !i.keypress
  | .rotate1 | .rotate3 => (s.rotateInputs i).rotateKey && !(s.rotateInputs i).beyondWall
  | .rotate2 => (s.rotateInputs i).rotateKey && !(s.rotateInputs i).beyondFloor
  -- the decode shows 0 before and after
  | .rotate0 | .rotate3Wait => false

section Turn

variable {s : Game} {i : Inputs} {a : ℤ × ℤ} {b : Board} {xPos yPos : BitVec 10}

theorem turnDue_iff (hReset : i.reset = false) (hNew : s.chooser.newShape = false) :
    s.turnDue i = true ↔ (s.step i).rotation ≠ s.rotation := by
  have hState : (s.step i).currentState = rotateNext (s.rotateInputs i) s.currentState := by
    simp [Game.step, rotateStep, hReset, hNew]
  have hPress : (s.rotateInputs i).keypress = i.keypress := rfl
  rw [Game.rotation, Game.rotation, hState, Game.turnDue]
  cases hCur : s.currentState <;>
    simp only [rotateNext, RotateInputs.press, RotateInputs.release, hPress] <;>
    split_ifs <;> simp_all [rotSel]

/-- While no shape is being loaded, the state left alone decides which
orientation a change goes to. -/
theorem rotation_step_of_ne (hNew : s.chooser.newShape = false)
    (hTurn : (s.step i).rotation ≠ s.rotation) :
    (s.step i).rotation = s.currentState.turnsTo := by
  have hState : (s.step i).currentState =
      if i.reset then .rotate0 else rotateNext (s.rotateInputs i) s.currentState := by
    simp [Game.step, rotateStep, hNew]
  rw [Game.rotation, Game.rotation, hState] at hTurn
  rw [Game.rotation, hState]
  -- a reset goes where a press from `Rotate_1` to `Rotate_3` already leads: orientation 0
  cases hCur : s.currentState <;>
    simp only [hCur, rotateNext, RotateInputs.press, RotateInputs.release] at hTurn ⊢ <;>
    split_ifs at hTurn ⊢ <;> first | rfl | exact absurd rfl hTurn

/-- The shape in the orientation a change goes to. -/
def Game.turned (s : Game) : Shape := shapeOf s.chooser.blockSel s.currentState.turnsTo

theorem select_eq_turned (hSel : s.chooser.blockSel ≠ 7) (hNew : s.chooser.newShape = false)
    (hTurn : (s.step i).rotation ≠ s.rotation) : (s.step i).select = s.turned.select := by
  have hKind : (s.step i).chooser.blockSel = s.chooser.blockSel := by
    rw [Game.blockSel_step, Game.loads, hNew]
    simp
  rw [Game.select, hKind, rotation_step_of_ne hNew hTurn, chooseBlock_eq_select _ _ hSel]
  rfl

theorem select_step_of_ne (hSel : s.chooser.blockSel ≠ 7) (hNew : s.chooser.newShape = false)
    (hTurn : (s.step i).rotation ≠ s.rotation) :
    (s.step i).select.choose = s.turned.only := by
  rw [select_eq_turned hSel hNew hTurn]
  rfl

/-! ## The condition -/

/-- The boundary test of `rotate_block` as a press at `(xPos, yPos)` makes it. -/
def Game.turnTest (s : Game) (xPos yPos : BitVec 10) : RotateInputs where
  keypress := true
  keycode := 0x1d
  xPos := xPos
  yPos := yPos
  blockSizeX := s.select.blockSizeX
  blockSizeY := s.select.blockSizeY

/-- The offsets `k'` covers beyond `k`. -/
def newlyCovered (k k' : Shape) : List (ℤ × ℤ) :=
  k'.paintOffsets.filter fun d => d ∉ k.paintOffsets

/-- The index pairs of the cells newly covered by a turn at `(xPos, yPos)`. -/
def Game.coveredByTurn (s : Game) (xPos yPos : BitVec 10) : List (BitVec 32 × BitVec 32) :=
  (newlyCovered s.shape s.turned).map fun d =>
    (offset (gridRow yPos) d.1, offset (gridCol xPos) d.2)

/-- What a turn out of the state `s` needs at `(xPos, yPos)`. A release from
`Rotate_0_wait` or `Rotate_2_wait` turns the piece upright, a press in `Rotate_1`
or `Rotate_3` lays it flat; the other changes keep its box. -/
structure TurnOk (s : Game) (i : Inputs) (xPos yPos : BitVec 10) : Prop where
  floor : s.currentState = .rotate0Wait ∨ s.currentState = .rotate2Wait →
    (s.turnTest xPos yPos).beyondFloor = false
  wall : s.currentState = .rotate1 ∨ s.currentState = .rotate3 →
    (s.turnTest xPos yPos).beyondWall = false
  cover : i.reset = false → (∀ r, ¬ Removes s.cells.board r) →
    ∀ p ∈ s.coveredByTurn xPos yPos, CellFree s.cells.board p
  shifted : ∀ r, Removes s.cells.board r →
    ∀ p ∈ s.coveredByTurn xPos yPos, ShiftFree s.cells.board r p

instance (s : Game) (i : Inputs) (xPos yPos : BitVec 10) : Decidable (TurnOk s i xPos yPos) :=
  -- checked along the list, never over all index pairs
  haveI := List.decidableBAll (CellFree s.cells.board) (s.coveredByTurn xPos yPos)
  haveI := fun r => List.decidableBAll (ShiftFree s.cells.board r) (s.coveredByTurn xPos yPos)
  decidable_of_iff
    ((s.currentState = .rotate0Wait ∨ s.currentState = .rotate2Wait →
        (s.turnTest xPos yPos).beyondFloor = false) ∧
      (s.currentState = .rotate1 ∨ s.currentState = .rotate3 →
        (s.turnTest xPos yPos).beyondWall = false) ∧
      (i.reset = false → (∀ r, ¬ Removes s.cells.board r) →
        ∀ p ∈ s.coveredByTurn xPos yPos, CellFree s.cells.board p) ∧
      ∀ r, Removes s.cells.board r →
        ∀ p ∈ s.coveredByTurn xPos yPos, ShiftFree s.cells.board r p)
    ⟨fun h => ⟨h.1, h.2.1, h.2.2.1, h.2.2.2⟩, fun h => ⟨h.floor, h.wall, h.cover, h.shifted⟩⟩

/-- Which sizes a change of orientation swaps. -/
theorem turned_box (hSel : s.chooser.blockSel ≠ 7) :
    ((s.currentState = .rotate0Wait ∨ s.currentState = .rotate2Wait) ∧
      s.turned.height = s.shape.width ∧ s.turned.width ≤ s.shape.width) ∨
    ((s.currentState = .rotate1 ∨ s.currentState = .rotate3) ∧
      s.turned.width = s.shape.height ∧ s.turned.height ≤ s.shape.height) ∨
    (¬ (s.currentState = .rotate0Wait ∨ s.currentState = .rotate2Wait) ∧
      ¬ (s.currentState = .rotate1 ∨ s.currentState = .rotate3) ∧
      s.turned.height = s.shape.height ∧ s.turned.width = s.shape.width) := by
  revert hSel
  rw [Game.turned, Game.shape, Game.rotation]
  generalize s.chooser.blockSel = sel
  cases s.currentState <;> revert sel <;> decide

/-- In the well, the turned figure stays in the well iff the boundary test of
the turn passes. -/
theorem inside_turn_iff (hSel : s.chooser.blockSel ≠ 7) (hAt : AtCell xPos yPos a)
    (hIn : Inside (well 22 11) (place s.shape.cells a)) :
    Inside (well 22 11) (place s.turned.cells a) ↔
      (s.currentState = .rotate0Wait ∨ s.currentState = .rotate2Wait →
        (s.turnTest xPos yPos).beyondFloor = false) ∧
      (s.currentState = .rotate1 ∨ s.currentState = .rotate3 →
        (s.turnTest xPos yPos).beyondWall = false) := by
  have hSize : s.select = s.shape.select := GameInv.select_of_ne_seven hSel
  have hFloor := beyondFloor_iff (j := s.turnTest xPos yPos) (k := s.shape)
    (by rw [Game.turnTest, hSize]) hAt
  have hWall := beyondWall_iff (j := s.turnTest xPos yPos) (k := s.shape)
    (by rw [Game.turnTest, hSize]) hAt
  rw [← Bool.not_eq_true, ← Bool.not_eq_true, hFloor, hWall]
  rw [inside_cells_iff] at hIn ⊢
  -- upright, flat, or the same box
  rcases turned_box hSel with ⟨hState, hH, hW⟩ | ⟨hState, hW, hH⟩ | ⟨hNot, hNot', hH, hW⟩
  · have hNot : ¬ (s.currentState = .rotate1 ∨ s.currentState = .rotate3) := by
      rcases hState with h | h <;> rw [h] <;> decide
    simp only [hState, hNot, true_imp_iff, false_imp_iff, and_true]
    omega
  · have hNot : ¬ (s.currentState = .rotate0Wait ∨ s.currentState = .rotate2Wait) := by
      rcases hState with h | h <;> rw [h] <;> decide
    simp only [hState, hNot, true_imp_iff, false_imp_iff, true_and]
    omega
  · simp only [hNot, hNot', false_imp_iff, and_true, iff_true]
    omega

theorem mem_newlyCovered {k k' : Shape} {d : ℤ × ℤ} :
    d ∈ newlyCovered k k' ↔ d ∈ k'.cells \ k.cells := by
  simp [newlyCovered, Shape.cells]

/-- Off the settled cells, the turned figure is iff the newly covered cells are
empty. -/
theorem free_turn_iff (hAt : AtCell xPos yPos a)
    (hFree : Free (filled b) (place s.shape.cells a))
    (hIn : Inside (well 22 11) (place s.turned.cells a)) :
    Free (filled b) (place s.turned.cells a) ↔ ∀ p ∈ s.coveredByTurn xPos yPos, CellFree b p := by
  rw [hFree.replace_iff, Game.coveredByTurn, List.forall_mem_map]
  simp only [mem_newlyCovered]
  refine forall₂_congr fun d hd => ?_
  have hMem := (Finset.mem_sdiff.mp hd).1
  exact (cellFree_iff hAt hMem (hIn _ (add_mem_place hMem))).symm

/-- A piece that fits on the board the clock leaves still fits once turned exactly if
`TurnOk` holds. -/
theorem turn_fits_iff (hSel : s.chooser.blockSel ≠ 7) (hAt : AtCell xPos yPos a)
    (hFits : Fits (well 22 11) (filled (s.boardNext i)) (place s.shape.cells a)) :
    Fits (well 22 11) (filled (s.boardNext i)) (place s.turned.cells a) ↔
      TurnOk s i xPos yPos := by
  have hInside := inside_turn_iff hSel hAt hFits.inside
  constructor
  · intro hTurned
    obtain ⟨hFloor, hWall⟩ := hInside.mp hTurned.inside
    obtain ⟨hCover, hShift⟩ := Game.forall_cellFree_boardNext_iff.mp
      ((free_turn_iff hAt hFits.free hTurned.inside).mp hTurned.free)
    exact ⟨hFloor, hWall, hCover, hShift⟩
  · intro hOk
    have hIn := hInside.mpr ⟨hOk.floor, hOk.wall⟩
    exact ⟨hIn, (free_turn_iff hAt hFits.free hIn).mpr
      (Game.forall_cellFree_boardNext_iff.mpr ⟨hOk.cover, hOk.shifted⟩)⟩

end Turn

/-! ## Every clock of every run -/

section Run

variable {s : Game} {i : Inputs}

/-- A clock on which the orientation of a safe, loaded piece changes, without a
frame edge (and so without a lock). -/
structure TurnClock (s : Game) (i : Inputs) : Prop where
  safe : s.Safe
  idle : s.motion.frameClkRisingEdge = false
  loaded : s.chooser.newShape = false
  turns : (s.step i).rotation ≠ s.rotation

instance (s : Game) (i : Inputs) : Decidable (TurnClock s i) :=
  decidable_of_iff (s.Safe ∧ s.motion.frameClkRisingEdge = false ∧ s.chooser.newShape = false ∧
      (s.step i).rotation ≠ s.rotation)
    ⟨fun ⟨h₁, h₂, h₃, h₄⟩ => ⟨h₁, h₂, h₃, h₄⟩, fun ⟨h₁, h₂, h₃, h₄⟩ => ⟨h₁, h₂, h₃, h₄⟩⟩

/-- The condition under which such a change keeps the piece safe, on the state before it. Only
a clock that takes a row out has anything to ask of the cells the piece has covered
already. -/
structure RotationOk (s : Game) (i : Inputs) : Prop where
  turn : TurnOk s i s.motion.blockXPos s.motion.blockYPos
  shifted : ∀ r, Removes s.cells.board r →
    ∀ p ∈ paintedCells s.turned.only s.motion.blockXPos s.motion.blockYPos,
      ShiftFree s.cells.board r p

theorem turn_safe_iff_rotationOk (hInv : GameInv s) (h : TurnClock s i) :
    CellsSafe (s.step i).cells.board (s.step i).select.choose s.motion.blockXPos
      s.motion.blockYPos ↔ RotationOk s i := by
  have hSel := h.safe.blockSel_ne_seven
  have hLock : s.atBottom i = false := atBottom_idle h.idle
  obtain ⟨a, hAt, -, hFits⟩ := h.safe.fits hInv
  rw [Game.board_step hLock, select_step_of_ne hSel h.loaded h.turns, cellsSafe_iff_fits hAt]
  have hInside := inside_turn_iff hSel hAt hFits.inside
  -- the four cells of the new orientation, on the board before and after
  have hCells : ∀ b : Board, Inside (well 22 11) (place s.turned.cells a) →
      ((∀ p ∈ paintedCells s.turned.only s.motion.blockXPos s.motion.blockYPos, CellFree b p) ↔
        Free (filled b) (place s.turned.cells a)) := fun b hIn => cellsFree_iff_free hAt hIn
  have hCovered : ∀ b : Board, Inside (well 22 11) (place s.turned.cells a) →
      Free (filled b) (place s.turned.cells a) →
      ∀ p ∈ s.coveredByTurn s.motion.blockXPos s.motion.blockYPos, CellFree b p :=
    fun b hIn hFree p hp => by
      obtain ⟨d, hd, rfl⟩ := List.mem_map.mp hp
      have hMem := (Finset.mem_sdiff.mp (mem_newlyCovered.mp hd)).1
      exact (cellFree_iff hAt hMem (hIn _ (add_mem_place hMem))).mpr
        (hFree _ (add_mem_place hMem))
  constructor
  · rintro ⟨hIn, hNext⟩
    obtain ⟨hFloor, hWall⟩ := hInside.mp hIn
    obtain ⟨hCover, hShift⟩ := Game.forall_cellFree_boardNext_iff.mp (hCovered _ hIn hNext)
    exact ⟨⟨hFloor, hWall, hCover, hShift⟩,
      (Game.forall_cellFree_boardNext_iff.mp ((hCells _ hIn).mpr hNext)).2⟩
  · intro hOk
    have hIn := hInside.mpr ⟨hOk.turn.floor, hOk.turn.wall⟩
    refine ⟨hIn, (hCells _ hIn).mp
      (Game.forall_cellFree_boardNext_iff.mpr ⟨fun hLow hNone => ?_, hOk.shifted⟩)⟩
    exact (hCells _ hIn).mpr
      ((free_turn_iff hAt hFits.free hIn).mpr (hOk.turn.cover hLow hNone))

/-- On every run from reset, `Reset` pulses included, a change of orientation of
a safe piece that is not just being loaded, off a frame edge, shows four cells
that are in the well and empty exactly if `RotationOk` holds of the state
before. -/
theorem rotation_safe_iff {s₀ : Game} (hReset : s₀.IsReset) (w : ℕ → Inputs) (n : ℕ)
    (h : TurnClock (s₀.run w n) (w n)) :
    CellsSafe (s₀.run w (n + 1)).cells.board (s₀.run w (n + 1)).select.choose
      (s₀.run w n).motion.blockXPos (s₀.run w n).motion.blockYPos ↔
    RotationOk (s₀.run w n) (w n) :=
  turn_safe_iff_rotationOk (gameInv_run hReset w n) h

/-- A rotate press and release at the start position. -/
theorem rotation_safe_iff_first :
    let w := listed [{ lfsrOut := 3 }, keyDown 0x1d false]
    CellsSafe (Game.initial.run w 3).cells.board (Game.initial.run w 3).select.choose
      (Game.initial.run w 2).motion.blockXPos (Game.initial.run w 2).motion.blockYPos ↔
    RotationOk (Game.initial.run w 2) (w 2) :=
  rotation_safe_iff Game.isReset_initial _ 2 (by decide +kernel)

end Run

/-! ## A release below the floor -/

/-- Draw the I piece, press the rotate key on row 0, where the turn is accepted,
and hold DOWN for 95 frames without ever releasing. -/
def floorRun : List Inputs :=
  [{ lfsrOut := 3 }, keyDown 0x1d false] ++
    (List.replicate 95 [keyDown 0x1b true, keyDown 0x1b false]).flatten ++ [({} : Inputs)]

/-- The release on row 19 turns the piece upright, its lowest cell in row 22. -/
theorem turn_below_floor :
    let w := listed floorRun
    TurnClock (Game.initial.run w 192) (w 192) ∧
      ¬ CellsSafe (Game.initial.run w 193).cells.board (Game.initial.run w 193).select.choose
        (Game.initial.run w 192).motion.blockXPos (Game.initial.run w 192).motion.blockYPos := by
  intro w
  have hLength : floorRun.length = 193 := by decide +kernel
  rw [show Game.initial.run w 192 = _ from run_listed _ _ (by omega),
    show Game.initial.run w 193 = _ from run_listed _ _ (by omega)]
  decide +kernel

end Ece385.Tetris

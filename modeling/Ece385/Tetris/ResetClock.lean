import Ece385.Tetris.Compaction

/-!
# Tetris — a clock with Reset high

`block_motion`, `rotate_block` and `choose_block` put `Reset` first: whatever
else falls on the clock, their registers load the initial values. In `board`
the line-clear chain is a second statement after the reset branch, and where
it finds a full row its assignments to the board and to the score are the
later ones.

The wires between the modules are arbitrary here, `at_bottom` and `new_shape`
included, so that the result is about each module and not about the values the
others happen to give it.

* `Game.Restarted` — the initial state of the game.
* `Game.step_eq_resetStep` — the game itself is an instance.

Main results:

* `reset_dominates_iff` — one clock restarts the game unless a full row is left
  to the chain.
* `reset_keeps_rows` — a state on which it does not.
-/

open RowStack

namespace Ece385.Tetris

/-- The initial state of the game, the edge detector aside. -/
structure Game.Restarted (s : Game) : Prop where
  motion : s.motion.AtStart
  state : s.currentState = .rotate0
  newShape : s.chooser.newShape = true
  board : s.cells.board = 0
  score : s.cells.score = 0

/-- What the four modules sample on a clock with `Reset` high, wire by wire. -/
structure ResetPorts where
  motion : MotionInputs
  rotate : RotateInputs
  newShape : Bool
  atBottom : Bool
  lfsrOut : BitVec 8
  choose : Choose
  xPos : BitVec 10
  yPos : BitVec 10

namespace Game

/-- One clock of the four modules with `Reset` high. -/
def resetStep (s : Game) (p : ResetPorts) : Game where
  motion := s.motion.step { p.motion with reset := true }
  currentState := rotateStep true p.newShape p.rotate s.currentState
  chooser := s.chooser.step true p.atBottom p.lfsrOut
  cells := s.cells.step true p.atBottom p.choose p.xPos p.yPos

/-- The wires of `tetris_top` on a clock. -/
def resetPorts (s : Game) (i : Inputs) : ResetPorts where
  motion := s.motionInputs i
  rotate := s.rotateInputs i
  newShape := s.chooser.newShape
  atBottom := s.atBottom i
  lfsrOut := i.lfsrOut
  choose := s.select.choose
  xPos := s.motion.blockXPos
  yPos := s.motion.blockYPos

theorem step_eq_resetStep (s : Game) (i : Inputs) (h : i.reset = true) :
    s.step i = s.resetStep (s.resetPorts i) := by
  have hSame : { s.motionInputs i with reset := true } = s.motionInputs i := by
    rw [← h]; rfl
  rw [step, h, resetStep, resetPorts, hSame]

end Game

section Reset

variable {s : Game} {p : ResetPorts}

/-- The reset branch, with no full row for the chain. -/
theorem cells_resetStep_of_none (h : lineClear s.cells.board = none) :
    (s.resetStep p).cells = { board := 0, score := 0 } := by
  simp only [Game.resetStep, BoardRegs.step, h, BoardRegs.override, BoardRegs.assign, if_true]

/-- The chain overrides the reset branch. -/
theorem cells_resetStep_of_some {b' : Board} (h : lineClear s.cells.board = some b') :
    (s.resetStep p).cells = { board := b', score := s.cells.score + 1 } := by
  simp only [Game.resetStep, BoardRegs.step, h, BoardRegs.override]

/-- Removing a row empties the board exactly if every other row is empty. -/
theorem removeRow_eq_zero_iff {b : Board} {i : Fin 22} :
    removeRow b i = 0 ↔ ∀ j, j ≠ i → b j = 0 := by
  constructor
  · intro hEmpty j hj
    -- a row above comes down by one, a row below stays
    rcases lt_or_gt_of_ne hj with hlt | hgt
    · have hNext : j.val + 1 < 22 := by
        have hBound := i.isLt
        have hVal := Fin.lt_def.mp hlt
        omega
      have hDown : removeRow b i ⟨j.val + 1, hNext⟩ = b j :=
        removeRow_of_le b rfl (Fin.le_def.mpr (Nat.succ_le_of_lt (Fin.lt_def.mp hlt)))
      rw [← hDown, hEmpty]
      rfl
    · rw [← removeRow_of_lt b hgt, hEmpty]
      rfl
  · intro hOthers
    funext j
    cases j using Fin.cases with
    | zero => rfl
    | succ q => exact hOthers _ (Fin.succAbove_ne i q)

/-- No row from 6 on is full, or the clear of this clock happens to leave the
initial board and score: one full row and nothing else, the score about to wrap. -/
def ResetTakes (c : BoardRegs) : Prop :=
  (∀ i : Fin 22, 6 ≤ i.val → ¬ Full (c.board i)) ∨
    (c.score = 0xFFFF ∧ ∃ i : Fin 22, 6 ≤ i.val ∧ Full (c.board i) ∧ ∀ j, j ≠ i → c.board j = 0)

theorem cells_reset_iff :
    ((s.resetStep p).cells.board = 0 ∧ (s.resetStep p).cells.score = 0) ↔ ResetTakes s.cells := by
  cases hClear : lineClear s.cells.board with
  | none =>
    rw [cells_resetStep_of_none hClear]
    exact iff_of_true ⟨rfl, rfl⟩ (Or.inl (lineClear_eq_none.mp hClear))
  | some b' =>
    obtain ⟨i, hi, hLow, rfl⟩ := lineClear_eq_some_lowest hClear
    have hWrap : s.cells.score + 1 = 0 ↔ s.cells.score = 0xFFFF := by
      constructor <;> intro h <;> bv_omega
    rw [cells_resetStep_of_some hClear, removeRow_eq_zero_iff, hWrap]
    constructor
    · rintro ⟨hOthers, hScore⟩
      exact Or.inr ⟨hScore, i, hi, hLow.full, hOthers⟩
    · rintro (hNone | ⟨hScore, j, -, hFullJ, hOthers⟩)
      · exact absurd hLow.full (hNone i hi)
      · -- the only row that is not empty is the one the chain takes out
        obtain rfl : i = j := by
          by_contra hNe
          exact not_full_zero (hOthers i hNe ▸ hLow.full)
        exact ⟨hOthers, hScore⟩

end Reset

/-- For every state of the four modules and all their inputs, one clock with
`Reset` high restarts the game exactly if `ResetTakes` holds of the board and
the score. -/
theorem reset_dominates_iff (s : Game) (p : ResetPorts) :
    (s.resetStep p).Restarted ↔ ResetTakes s.cells := by
  rw [← cells_reset_iff (p := p)]
  constructor
  · exact fun h => ⟨h.board, h.score⟩
  · rintro ⟨hBoard, hScore⟩
    exact
      { motion := (MotionRegs.isReset_step s.motion { p.motion with reset := true } rfl).toAtStart
        state := rfl
        newShape := rfl
        board := hBoard
        score := hScore }

/-! ## A reset that a completed row wins against -/

/-- Row 21 full and one cell on top of it. -/
def completedRow : Game :=
  { Game.initial with
    cells :=
      { board := fun i j => if i.val = 21 ∨ (i.val = 20 ∧ j.val = 0) then 1 else 0
        score := 0 } }

/-- The clock removes the row, counts it and keeps the cell. -/
theorem reset_keeps_rows :
    let s := completedRow.step { reset := true }
    s.cells.board 21 0 = 1 ∧ s.cells.score = 1 ∧ ¬ s.Restarted := by
  intro s
  have hScore : s.cells.score = 1 := by decide +kernel
  refine ⟨by decide +kernel, hScore, fun hRestarted => ?_⟩
  exact absurd (hScore.symm.trans hRestarted.score) (by decide)

end Ece385.Tetris

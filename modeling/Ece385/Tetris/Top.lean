import Ece385.Lib.Clocked
import Ece385.Tetris.BlockMotion
import Ece385.Tetris.Board
import Ece385.Tetris.RotateBlock

/-!
# Tetris — the game part of `tetris_top.sv`

`block_motion`, `rotate_block`, `choose_block` and `board` on one clock, wired
as in `tetris_top`: `rot_sel` is cut from three bits to the two of the
`choose_block` port, the decoded lines and sizes go to all the others, and
`at_bottom` closes the loop combinationally. Keyboard, LFSR and VGA controller
are outside this part, their outputs are inputs here.
-/

namespace Ece385.Tetris

/-- What the four modules sample on one rising edge of `Clk`. -/
structure Inputs where
  reset : Bool := false
  frameClk : Bool := false
  keycode : BitVec 8 := 0
  keypress : Bool := false
  lfsrOut : BitVec 8 := 0
  undefinedRead : UndefinedRead := fun _ _ => 0

/-- The registers of the four modules. -/
@[ext]
structure Game where
  motion : MotionRegs
  currentState : RotateState
  chooser : ChooseRegs
  cells : BoardRegs

namespace Game

/-- The displayed orientation, as `choose_block` receives it. -/
def rotation (s : Game) : BitVec 2 := (rotSel s.currentState).setWidth 2

/-- The outputs of `choose_block`. -/
def select (s : Game) : ShapeSelect := chooseBlock s.chooser.blockSel s.rotation

/-- The inputs of `block_motion`. -/
def motionInputs (s : Game) (i : Inputs) : MotionInputs where
  reset := i.reset
  frameClk := i.frameClk
  keycode := i.keycode
  keypress := i.keypress
  select := s.select
  board := s.cells.board
  undefinedRead := i.undefinedRead

/-- The inputs of `rotate_block`. -/
def rotateInputs (s : Game) (i : Inputs) : RotateInputs where
  keypress := i.keypress
  keycode := i.keycode
  xPos := s.motion.blockXPos
  yPos := s.motion.blockYPos
  blockSizeX := s.select.blockSizeX
  blockSizeY := s.select.blockSizeY

/-- `at_bottom` -/
def atBottom (s : Game) (i : Inputs) : Bool := (motionComb s.motion (s.motionInputs i)).atBottom

/-- One rising edge of `Clk`. -/
def step (s : Game) (i : Inputs) : Game where
  -- every module samples the old registers of the others
  motion := s.motion.step (s.motionInputs i)
  currentState := rotateStep i.reset s.chooser.newShape (s.rotateInputs i) s.currentState
  chooser := s.chooser.step i.reset (s.atBottom i) i.lfsrOut
  cells := s.cells.step i.reset (s.atBottom i) s.select.choose s.motion.blockXPos
    s.motion.blockYPos

end Game

/-! ## Runs -/

/-- The registers after `n` clocks of the inputs `w`. -/
abbrev Game.run (s₀ : Game) (w : ℕ → Inputs) (n : ℕ) : Game := Clocked.trace Game.step s₀ w n

/-- `frame_clk_rising_edge` at clock `n`: `frame_clk` rose at the clock before. -/
def frameEdge (s₀ : Game) (w : ℕ → Inputs) (n : ℕ) : Prop :=
  (s₀.run w n).motion.frameClkRisingEdge = true

instance (s₀ : Game) (w : ℕ → Inputs) : DecidablePred (frameEdge s₀ w) := fun n =>
  inferInstanceAs (Decidable ((s₀.run w n).motion.frameClkRisingEdge = true))

/-- The inputs listed clock by clock, nothing pressed afterwards. -/
def listed (l : List Inputs) (n : ℕ) : Inputs := l.getD n {}

theorem run_listed (s₀ : Game) (l : List Inputs) {n : ℕ} (hn : n ≤ l.length) :
    s₀.run (listed l) n = (l.take n).foldl Game.step s₀ :=
  Clocked.trace_eq_foldl _ _ _ _ hn

/-- A listed waveform every clock of which is checked. -/
theorem run_listed_checked {s₀ s' : Game} {ok : Game → Inputs → Bool} {l : List Inputs}
    (h : Clocked.checkedRun Game.step ok s₀ l = some s') :
    s₀.run (listed l) l.length = s' ∧
      ∀ n < l.length, ok (s₀.run (listed l) n) (listed l n) = true :=
  Clocked.trace_of_checkedRun ({} : Inputs) h

theorem listed_of_le {l : List Inputs} {n : ℕ} (h : l.length ≤ n) : listed l n = {} := by
  rw [listed, List.getD_eq_getElem?_getD, List.getElem?_eq_none h]
  rfl

theorem reset_listed {l : List Inputs} (h : ∀ i ∈ l, i.reset = false) (n : ℕ) :
    (listed l n).reset = false := by
  rw [listed, List.getD_eq_getElem?_getD]
  cases hAt : l[n]? with
  | none => rfl
  | some i => exact h i (List.mem_of_getElem? hAt)

/-! ## The reset state -/

/-- The values `Reset` and a lock load into `block_motion`. -/
structure MotionRegs.AtStart (m : MotionRegs) : Prop where
  xPos : m.blockXPos = blockXStart
  yPos : m.blockYPos = blockYStart
  xMotion : m.blockXMotion = 0
  yMotion : m.blockYMotion = stepSize
  counterX : m.counterX = 0
  counterY : m.counterY = 0

/-- What a clock with `Reset` high leaves in `block_motion`. The edge detector
is not reset; it only never reports an edge that `frame_clk_delayed` has
not seen. -/
structure MotionRegs.IsReset (m : MotionRegs) : Prop extends m.AtStart where
  edge : m.frameClkRisingEdge = true → m.frameClkDelayed = true

/-- The reset state of the game: empty board, score 0, a new shape about to be
drawn. `block_sel` has no reset value. -/
structure Game.IsReset (s : Game) : Prop where
  motion : s.motion.IsReset
  state : s.currentState = .rotate0
  newShape : s.chooser.newShape = true
  board : s.cells.board = 0
  score : s.cells.score = 0

theorem MotionRegs.atStart_respawn (m : MotionRegs) : m.respawn.AtStart := by
  constructor <;> rfl

/-- A reset clock leaves `block_motion` in its reset state, whatever it held. -/
theorem MotionRegs.isReset_step (m : MotionRegs) (i : MotionInputs) (h : i.reset = true) :
    (m.step i).IsReset := by
  rw [MotionRegs.step, h, Bool.true_or, if_pos rfl]
  refine ⟨MotionRegs.atStart_respawn _, ?_⟩
  simp +contextual [MotionRegs.respawn, MotionRegs.sampleFrameClk]

/-- A reset clock leaves the game in its reset state unless a row of the old
board is full, which the line-clear chain then removes instead. -/
theorem Game.isReset_step (s : Game) (i : Inputs) (h : i.reset = true)
    (hRows : lineClear s.cells.board = none) : (s.step i).IsReset where
  motion := MotionRegs.isReset_step _ _ h
  state := by simp [Game.step, rotateStep, h]
  newShape := by simp [Game.step, ChooseRegs.step, h]
  board := by simp [Game.step, BoardRegs.step, hRows, BoardRegs.override, BoardRegs.assign, h]
  score := by simp [Game.step, BoardRegs.step, hRows, BoardRegs.override, BoardRegs.assign, h]

/-- A reset state: nothing seen on `frame_clk` yet, `block_sel` 0. -/
def Game.initial : Game where
  motion :=
    { frameClkDelayed := false
      frameClkRisingEdge := false
      blockXPos := blockXStart
      blockYPos := blockYStart
      blockXMotion := 0
      blockYMotion := stepSize
      counterX := 0
      counterY := 0 }
  currentState := .rotate0
  chooser := { newShape := true, blockSel := 0 }
  cells := { board := 0, score := 0 }

theorem Game.isReset_initial : Game.initial.IsReset where
  motion := ⟨⟨rfl, rfl, rfl, rfl, rfl, rfl⟩, fun hEdge => absurd hEdge (by decide)⟩
  state := rfl
  newShape := rfl
  board := rfl
  score := rfl

/-- A clock with the key of scan code `keycode` down. -/
def keyDown (keycode : BitVec 8) (frameClk : Bool) : Inputs :=
  { frameClk := frameClk, keycode := keycode, keypress := true }

end Ece385.Tetris

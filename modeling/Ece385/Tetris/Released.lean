import Ece385.Tetris.Gravity
import Ece385.Tetris.Support

/-!
# Tetris — a game left alone

With no key down nothing writes a sideways motion, and no turn is begun. The piece
falls in column 3, and the boundary check stops it on the floor 49 frames before the
next drop would be due. So the conditions on the clocks of a run hold of themselves, and
only the places where the pieces appear are left to ask about.

* `Released` — what holds of the registers, and `Released.step`.
* `AtTop` — the first piece before its first drop.

Main results:

* `stepsOk_of_released` — every clock meets `StepOk`.
* `atTop_run`, `blockSel_of_few` — the first piece hangs at the top for 49 frames.
-/

open Figure RowStack Clocked

namespace Ece385.Tetris

section Step

variable {s : Game} {i : Inputs}

/-- With no key down a piece in its first orientation keeps it. -/
theorem currentState_step_released (h : s.currentState = .rotate0) (hPress : i.keypress = false) :
    (s.step i).currentState = .rotate0 := by
  have hNoKey : (s.rotateInputs i).rotateKey = false := by
    rw [RotateInputs.rotateKey]
    exact Bool.and_eq_false_iff.mpr (Or.inl hPress)
  rw [Game.step, h]
  simp only [rotateStep, rotateNext, RotateInputs.press, hNoKey, Bool.false_eq_true, if_false,
    ite_self]

theorem motionInputs_released (hPress : i.keypress = false) :
    (s.motionInputs i).left = false ∧ (s.motionInputs i).right = false ∧
      (s.motionInputs i).down = false := by
  have hKey : (s.motionInputs i).keypress = false := hPress
  simp [MotionInputs.left, MotionInputs.right, MotionInputs.down, hKey]

/-- What holds of a game no key of which has been pressed. -/
structure Released (s : Game) : Prop where
  state : s.currentState = .rotate0
  motion : s.motion.blockXMotion = 0
  stops : s.OnFloor → s.motion.waited ≠ 0 → s.motion.blockYMotion = 0

/-- A drop is not due on the floor: the piece locks before. -/
theorem Released.not_onFloor_of_dropDue (h : Released s) (hPress : i.keypress = false)
    (hEdge : s.motion.frameClkRisingEdge = true) (hLock : s.atBottom i = false)
    (hDue : dropDue s.motion (s.motionInputs i) = true) : ¬ s.OnFloor := by
  intro hFloor
  rw [dropDue_iff, (motionInputs_released hPress).2.2] at hDue
  have hFifty : s.motion.counterY + 1 = 50 := by simpa using hDue
  have hWaited : s.motion.waited ≠ 0 := fun h0 => by
    have hZero : s.motion.counterY = 0 := BitVec.eq_of_toNat_eq h0
    rw [hZero] at hFifty
    exact absurd hFifty (by decide)
  rw [Game.atBottom, atBottom_edge hEdge, h.stops hFloor hWaited] at hLock
  simp at hLock

/-- Neither key is down, so neither motion is written. -/
theorem Released.xMotion_step (h : Released s) (hReset : i.reset = false)
    (hPress : i.keypress = false) (hLock : s.atBottom i = false) :
    (s.step i).motion.blockXMotion = 0 := by
  obtain ⟨hLeft, hRight, -⟩ := motionInputs_released (s := s) hPress
  cases hEdge : s.motion.frameClkRisingEdge with
  | false =>
    rw [Game.step, step_idle (i := s.motionInputs i) hReset hEdge]
    exact h.motion
  | true =>
    rw [Game.step, step_latch (i := s.motionInputs i) hReset hLock]
    show (motionComb s.motion (s.motionInputs i)).blockXMotionIn = 0
    rw [xMotionIn_edge hEdge, hLeft, hRight, h.motion]
    simp

/-- The boundary check stops a piece on the first frame edge that finds it on the floor. -/
theorem Released.stops_step (h : Released s) (hInv : GameInv s) (hReset : i.reset = false)
    (hPress : i.keypress = false) (hLock : s.atBottom i = false) (hFloor : (s.step i).OnFloor)
    (hWaited : (s.step i).motion.waited ≠ 0) : (s.step i).motion.blockYMotion = 0 := by
  have hState := currentState_step_released h.state hPress
  have hRow : (s.step i).motion.blockYPos = s.yNext i := (Game.position_step hLock).2
  rw [Game.yNext, hReset, if_neg Bool.false_ne_true] at hRow
  -- a piece still to be drawn is at the start, and stays in its row
  have hNew : s.chooser.newShape = false := by
    by_contra hNew
    rw [Bool.not_eq_false] at hNew
    have hStart := hInv.start hNew
    rw [rowAfter, AtStart.dropDue_eq_false hStart, if_neg Bool.false_ne_true, ite_self,
      hStart.yPos] at hRow
    exact Game.not_onFloor_of_yPos hRow hFloor
  have hShown : (s.step i).select = s.select :=
    select_step_of_eq hNew (by rw [Game.rotation, Game.rotation, hState, h.state])
  rw [Game.OnFloor, hShown, hRow] at hFloor
  cases hEdge : s.motion.frameClkRisingEdge with
  | false =>
    rw [hEdge, if_neg Bool.false_ne_true] at hFloor
    rw [Game.step, step_idle (i := s.motionInputs i) hReset hEdge] at hWaited ⊢
    exact h.stops hFloor hWaited
  | true =>
    rw [Game.step, step_latch (i := s.motionInputs i) hReset hLock] at hWaited ⊢
    rw [hEdge, if_pos rfl, rowAfter] at hFloor
    cases hDue : dropDue s.motion (s.motionInputs i) with
    | true =>
      -- a drop restarts the counter
      refine absurd ?_ hWaited
      show (motionComb s.motion (s.motionInputs i)).counterYIn.toNat = 0
      rw [counterYIn_edge hEdge, hDue]
      rfl
    | false =>
      rw [hDue, if_neg Bool.false_ne_true] at hFloor
      show (motionComb s.motion (s.motionInputs i)).blockYMotionIn = 0
      rw [yMotionIn_edge hEdge, if_pos ((onFloor_iff i).mp hFloor)]

/-- One clock with no key down. -/
theorem Released.step (h : Released s) (hInv : GameInv s) (hReset : i.reset = false)
    (hPress : i.keypress = false) : Released (s.step i) := by
  have hState := currentState_step_released h.state hPress
  cases hLock : s.atBottom i with
  | true =>
    have hStart := Game.motion_step_of_respawn (Or.inr hLock)
    exact ⟨hState, hStart.xMotion,
      fun hFloor => absurd hFloor (Game.not_onFloor_of_yPos hStart.yPos)⟩
  | false =>
    exact ⟨hState, h.xMotion_step hReset hPress hLock, h.stops_step hInv hReset hPress hLock⟩

/-- Without a lock, and with all rows cleared by the next frame edge. -/
theorem Released.stepOk (h : Released s) (hPress : i.keypress = false)
    (hLock : s.atBottom i = false)
    (hNone : s.motion.frameClkRisingEdge = true → s.removesRow = false) : StepOk s i where
  frame hEdge :=
    { inside := fun _ =>
        ⟨fun hDue => by
          rw [← Bool.not_eq_true, ← onFloor_iff i]
          exact h.not_onFloor_of_dropDue hPress hEdge hLock hDue,
        fun _ hMotion => absurd (h.motion.symm.trans hMotion) (by decide)⟩
      free := fun _ _ _ => by rw [h.motion]; rfl
      shifted := fun r hr => by
        have hSome := removesRow_iff_removes.mpr ⟨r, hr⟩
        rw [hNone hEdge] at hSome
        exact absurd hSome Bool.false_ne_true }
  turn hDue := by
    rw [Game.turnDue, h.state] at hDue
    exact absurd hDue Bool.false_ne_true

/-- The first piece in the first row, over an empty board, `f` frame edges after the start. -/
structure AtTop (s : Game) (f : ℕ) : Prop where
  xPos : s.motion.blockXPos = blockXStart
  yPos : s.motion.blockYPos = blockYStart
  yMotion : s.motion.blockYMotion = stepSize
  board : s.cells.board = 0
  waited : s.motion.waited = f

theorem AtTop.atCell {f : ℕ} (h : AtTop s f) :
    AtCell s.motion.blockXPos s.motion.blockYPos (0, 3) :=
  ⟨by rw [h.xPos]; rfl, by rw [h.yPos]; rfl, by decide, by decide⟩

theorem AtTop.counterY_succ {f : ℕ} (h : AtTop s f) (hFew : f < 49) :
    (s.motion.counterY + 1).toNat = f + 1 := by
  have hWaited : s.motion.counterY.toNat = f := h.waited
  rw [BitVec.toNat_add, hWaited]
  exact Nat.mod_eq_of_lt (by change f + 1 < 65536; omega)

/-- The first drop is due on the fiftieth frame edge. -/
theorem AtTop.dropDue_eq_false {f : ℕ} (h : AtTop s f) (hPress : i.keypress = false)
    (hFew : f < 49) : dropDue s.motion (s.motionInputs i) = false := by
  rw [← Bool.not_eq_true, dropDue_iff, (motionInputs_released hPress).2.2]
  rintro (hFifty | ⟨hDown, -⟩)
  · have hSum := h.counterY_succ hFew
    rw [hFifty] at hSum
    change 50 = f + 1 at hSum
    omega
  · exact absurd hDown Bool.false_ne_true

/-- A frame edge counts one, and moves nothing. -/
theorem AtTop.latch {f : ℕ} (h : AtTop s f) (hReleased : Released s) (hPress : i.keypress = false)
    (hEdge : s.motion.frameClkRisingEdge = true) (hFew : f < 49) :
    (motionComb s.motion (s.motionInputs i)).blockXPosIn = blockXStart ∧
      (motionComb s.motion (s.motionInputs i)).blockYPosIn = blockYStart ∧
      (motionComb s.motion (s.motionInputs i)).blockYMotionIn = stepSize ∧
      (motionComb s.motion (s.motionInputs i)).counterYIn.toNat = f + 1 := by
  have hDue := h.dropDue_eq_false hPress hFew
  have hUp : atFloor s.motion (s.motionInputs i) = false := by
    rw [← Bool.not_eq_true, ← onFloor_iff i]
    exact Game.not_onFloor_of_yPos h.yPos
  refine ⟨?_, ?_, ?_, ?_⟩
  · -- a step by the motion 0 goes nowhere
    rw [xPosIn_edge hEdge, hReleased.motion, h.xPos]
    split_ifs <;> rfl
  · rw [yPosIn_edge hEdge, hDue, if_neg Bool.false_ne_true, h.yPos]
  · rw [yMotionIn_edge hEdge, hUp, if_neg Bool.false_ne_true, h.yMotion, ite_self]
  · rw [counterYIn_edge hEdge, hDue, if_neg Bool.false_ne_true, h.counterY_succ hFew]

theorem AtTop.step {f : ℕ} (h : AtTop s f) (hReleased : Released s) (hInv : GameInv s)
    (hReset : i.reset = false) (hPress : i.keypress = false)
    (hFew : s.motion.frameClkRisingEdge = true → f < 49) :
    AtTop (s.step i) (f + if s.motion.frameClkRisingEdge = true then 1 else 0) := by
  have hLock := hInv.atBottom_eq_false h.atCell h.yMotion h.board i
  have hBoard : (s.step i).cells.board = 0 := by
    rw [Game.cells_step_same (by rw [h.board]; exact lineClear_zero) hReset hLock, h.board]
  cases hEdge : s.motion.frameClkRisingEdge with
  | false =>
    have hIdle : (s.step i).motion = s.motion.sampleFrameClk i.frameClk :=
      step_idle (i := s.motionInputs i) hReset hEdge
    rw [if_neg Bool.false_ne_true, Nat.add_zero]
    exact ⟨by rw [hIdle]; exact h.xPos, by rw [hIdle]; exact h.yPos, by rw [hIdle]; exact h.yMotion,
      hBoard, by rw [hIdle]; exact h.waited⟩
  | true =>
    have hLatch : (s.step i).motion =
        (s.motion.sampleFrameClk i.frameClk).latch (motionComb s.motion (s.motionInputs i)) :=
      step_latch (i := s.motionInputs i) hReset hLock
    obtain ⟨hX, hY, hYMotion, hCounter⟩ := h.latch hReleased hPress hEdge (hFew hEdge)
    rw [if_pos rfl]
    exact ⟨by rw [hLatch]; exact hX, by rw [hLatch]; exact hY, by rw [hLatch]; exact hYMotion,
      hBoard, by rw [hLatch]; exact hCounter⟩

end Step

/-! ## A run with no key down -/

section Run

variable {s₀ : Game} {w : ℕ → Inputs}

theorem released_run (hReset : s₀.IsReset) (hLow : ∀ n, (w n).reset = false)
    (hPress : ∀ n, (w n).keypress = false) (n : ℕ) : Released (s₀.run w n) := by
  induction n with
  | zero =>
    exact ⟨hReset.state, hReset.motion.xMotion,
      fun hFloor => absurd hFloor (Game.not_onFloor_of_yPos hReset.motion.yPos)⟩
  | succ n ih => exact ih.step (gameInv_run hReset w n) (hLow n) (hPress n)

/-- Whatever has settled, every clock of such a run keeps its piece safe. -/
theorem stepsOk_of_released (hReset : s₀.IsReset) (hLow : ∀ n, (w n).reset = false)
    (hSpaced : Spaced 24 (frameEdge s₀ w)) (hPress : ∀ n, (w n).keypress = false) (n : ℕ) :
    StepsOk s₀ w n := fun l _ _ hLock =>
  (released_run hReset hLow hPress l).stepOk (hPress l) (by simpa [locks] using hLock)
    fun hEdge => not_removesRow_of_edge hReset hLow hSpaced hEdge

/-- For 49 frames the first piece hangs where it appeared. -/
theorem atTop_run (hReset : s₀.IsReset) (hLow : ∀ n, (w n).reset = false)
    (hPress : ∀ n, (w n).keypress = false) {n : ℕ} (hFew : Nat.count (frameEdge s₀ w) n ≤ 49) :
    AtTop (s₀.run w n) (Nat.count (frameEdge s₀ w) n) := by
  induction n with
  | zero =>
    exact ⟨hReset.motion.xPos, hReset.motion.yPos, hReset.motion.yMotion, hReset.board,
      congrArg BitVec.toNat hReset.motion.counterY⟩
  | succ n ih =>
    have hMono := Nat.count_monotone (frameEdge s₀ w) (Nat.le_succ n)
    rw [Nat.count_succ] at hFew ⊢
    refine (ih (by omega)).step (released_run hReset hLow hPress n) (gameInv_run hReset w n)
      (hLow n) (hPress n) fun hEdge => ?_
    rw [if_pos (show frameEdge s₀ w n from hEdge)] at hFew
    omega

/-- It is still the piece drawn first. -/
theorem blockSel_of_few (hReset : s₀.IsReset) (hLow : ∀ n, (w n).reset = false)
    (hPress : ∀ n, (w n).keypress = false) {n : ℕ} (hFew : Nat.count (frameEdge s₀ w) n ≤ 49) :
    (s₀.run w (n + 1)).chooser.blockSel = Game.drawnKind (w 0) := by
  obtain ⟨l, hl, hLoad, -, hSel⟩ := blockSel_eq_drawnKind hReset hLow n
  rcases (loadsAt_iff hReset hLow l).mp hLoad with rfl | ⟨l', rfl, hLock⟩
  · exact hSel
  · -- nothing locks at the top
    have hTop := atTop_run hReset hLow hPress
      ((Nat.count_monotone (frameEdge s₀ w) (show l' ≤ n by omega)).trans hFew)
    rw [locks, (gameInv_run hReset w l').atBottom_eq_false hTop.atCell hTop.yMotion hTop.board]
      at hLock
    exact absurd hLock Bool.false_ne_true

end Run

end Ece385.Tetris

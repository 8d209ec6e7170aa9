import Ece385.Tetris.FrameStep

/-!
# Tetris — which key a sideways step obeys

The key handling of `block_motion` writes `block_X_Motion` for the next frame,
and the X update adds the value written before, on the seventh frame that
raised `move_horiz`. What raises it need not be the key that wrote the motion:
the other direction key does, and so does contact with a wall. And the side
check was made when the motion was written, in whatever row and orientation
the piece had then.

`SidestepOk` is the condition under which the step taken is nevertheless the
one asked for: the other key is not down, no wall contact stands in for the
key, and the side table is free where the piece is now.

Main results:

* `sidestep_obeys_key_iff` — on every run of `block_motion`, exactly then.
* `sidestep_against_key` — a run on which the piece steps left under RIGHT.
-/

open Clocked

namespace Ece385.Tetris

/-! ## The step and its key -/

/-- The LEFT branch, in its guard, finds the cells beside the piece free. -/
def leftCheckPasses (m : MotionRegs) (i : MotionInputs) : Bool :=
  decide (m.blockXPos > xMin) &&
    (leftTable i.select.choose).any fun cells => !i.hits m.blockXPos m.blockYPos cells

/-- The RIGHT branch, in its guard, finds the cells beside the piece free. -/
def rightCheckPasses (m : MotionRegs) (i : MotionInputs) : Bool :=
  rightFree m i &&
    (rightTable i.select.choose).any fun cells => !i.hits m.blockXPos m.blockYPos cells

/-- Where `X_Pos` changes, the key of that direction is down and its check passes. -/
structure StepObeysKey (m : MotionRegs) (i : MotionInputs) : Prop where
  left : (m.step i).blockXPos < m.blockXPos → i.left = true ∧ leftCheckPasses m i = true
  right : m.blockXPos < (m.step i).blockXPos → i.right = true ∧ rightCheckPasses m i = true

/-- A stored motion that has waited six frames is still asked for on this one. -/
structure SidestepOk (m : MotionRegs) (i : MotionInputs) : Prop where
  -- a wall raises `move_horiz` like a key, and the stored motion goes through
  left : m.counterX = 6 → m.blockXMotion = ~~~stepSize + 1 →
    i.right = false ∧ (atRightEdge m i = true → i.left = true)
  right : m.counterX = 6 → m.blockXMotion = stepSize →
    i.left = false ∧ atRightEdge m i = false ∧ (m.blockXPos ≤ xMin → i.right = true)
  free : m.counterX = 6 → i.left = true ∨ i.right = true →
    i.hits m.blockXPos m.blockYPos (sideCells m.blockXMotion i.select.choose) = false

section Step

variable {m : MotionRegs} {i : MotionInputs} {k : Shape}

theorem leftCheckPasses_iff (hk : i.select = k.select) :
    leftCheckPasses m i = true ↔
      m.blockXPos > xMin ∧ i.hits m.blockXPos m.blockYPos k.leftCells = false := by
  rw [leftCheckPasses, choose_of_select hk, leftTable_only]
  simp

theorem rightCheckPasses_iff (hk : i.select = k.select) :
    rightCheckPasses m i = true ↔
      rightFree m i = true ∧ i.hits m.blockXPos m.blockYPos k.rightCells = false := by
  rw [rightCheckPasses, choose_of_select hk, rightTable_only]
  simp

/-- One direction key at a time. -/
theorem not_right_of_left (hKey : i.left = true) : i.right = false := by
  by_contra hRight
  rw [not_left_of_right (by simpa using hRight)] at hKey
  exact absurd hKey (by decide)

theorem xPos_step_of_edge (hReset : i.reset = false) (hBottom : (motionComb m i).atBottom = false) :
    (m.step i).blockXPos = (motionComb m i).blockXPosIn := by
  rw [step_latch hReset hBottom]
  rfl

/-- `X_Pos` grows exactly where a step by +9 is taken. -/
theorem lt_xPos_step_iff (h : GridInv m) (hEdge : m.frameClkRisingEdge = true)
    (hReset : i.reset = false) (hBottom : (motionComb m i).atBottom = false) :
    m.blockXPos < (m.step i).blockXPos ↔ m.blockXMotion = 9 ∧ stepDue m i = true := by
  rw [xPos_step_of_edge hReset hBottom, BitVec.lt_def]
  rcases xPosIn_cases (i := i) h hEdge with ⟨hDue, hX⟩ | ⟨-, h0, hX⟩ | ⟨hDue, h9, -, hX⟩ |
    ⟨-, h1015, -, hX⟩
  · simp [hX, hDue]
  · simp [hX, h0]
  · exact iff_of_true (by omega) ⟨h9, hDue⟩
  · exact iff_of_false (by omega) fun hNine => absurd (h1015.symm.trans hNine.1) (by decide)

/-- `X_Pos` shrinks exactly where a step by -9 is taken. -/
theorem xPos_step_lt_iff (h : GridInv m) (hEdge : m.frameClkRisingEdge = true)
    (hReset : i.reset = false) (hBottom : (motionComb m i).atBottom = false) :
    (m.step i).blockXPos < m.blockXPos ↔ m.blockXMotion = 1015 ∧ stepDue m i = true := by
  rw [xPos_step_of_edge hReset hBottom, BitVec.lt_def]
  rcases xPosIn_cases (i := i) h hEdge with ⟨hDue, hX⟩ | ⟨-, h0, hX⟩ | ⟨-, h9, -, hX⟩ |
    ⟨hDue, h1015, -, hX⟩
  · simp [hX, hDue]
  · simp [hX, h0]
  · exact iff_of_false (by omega) fun hLeft => absurd (h9.symm.trans hLeft.1) (by decide)
  · exact iff_of_true (by omega) ⟨h1015, hDue⟩

/-- With +9 stored for six frames, a step to the right that is asked for. -/
theorem obeys_right_iff (hk : i.select = k.select) (hSix : m.counterX = 6) :
    (stepDue m i = true → i.right = true ∧ rightCheckPasses m i = true) ↔
      (i.left = false ∧ atRightEdge m i = false ∧ (m.blockXPos ≤ xMin → i.right = true)) ∧
      (i.left = true ∨ i.right = true →
        i.hits m.blockXPos m.blockYPos k.rightCells = false) := by
  rw [stepDue_iff, and_iff_right hSix, rightCheckPasses_iff hk, rightFree_eq_not_atRightEdge,
    raisesMoveHoriz, rightFree_eq_not_atRightEdge]
  have hExcl := not_right_of_left (i := i)
  have hGuard : m.blockXPos > xMin ↔ ¬ m.blockXPos ≤ xMin := BitVec.not_le.symm
  -- the two keys, the two walls: what is left is propositional
  revert hExcl
  by_cases hX : m.blockXPos ≤ xMin <;>
    cases i.left <;> cases i.right <;> cases atRightEdge m i <;> simp [hGuard, hX]

/-- With -9 stored for six frames, a step to the left that is asked for. The
piece is not in column 0 then, so the guard of the LEFT branch holds. -/
theorem obeys_left_iff (hk : i.select = k.select) (hSix : m.counterX = 6)
    (hGuard : m.blockXPos > xMin) :
    (stepDue m i = true → i.left = true ∧ leftCheckPasses m i = true) ↔
      (i.right = false ∧ (atRightEdge m i = true → i.left = true)) ∧
      (i.left = true ∨ i.right = true →
        i.hits m.blockXPos m.blockYPos k.leftCells = false) := by
  rw [stepDue_iff, and_iff_right hSix, leftCheckPasses_iff hk, and_iff_right hGuard,
    raisesMoveHoriz, rightFree_eq_not_atRightEdge]
  have hExcl := not_right_of_left (i := i)
  have hX : ¬ m.blockXPos ≤ xMin := BitVec.not_le.mpr hGuard
  revert hExcl
  cases i.left <;> cases i.right <;> cases atRightEdge m i <;> simp [hGuard, hX]

/-- The condition, one stored motion at a time. -/
theorem sidestepOk_iff (h : GridInv m) (hk : i.select = k.select) :
    SidestepOk m i ↔
      (m.blockXMotion = 1015 → stepDue m i = true →
        i.left = true ∧ leftCheckPasses m i = true) ∧
      (m.blockXMotion = 9 → stepDue m i = true →
        i.right = true ∧ rightCheckPasses m i = true) := by
  by_cases hSix : m.counterX = 6
  swap
  · -- no step is due, and nothing is asked of the stored motion
    have hDue : stepDue m i ≠ true := fun hDue => hSix (stepDue_iff.mp hDue).1
    exact iff_of_true ⟨fun h6 => absurd h6 hSix, fun h6 => absurd h6 hSix,
      fun h6 => absurd h6 hSix⟩ ⟨fun _ hNow => absurd hNow hDue, fun _ hNow => absurd hNow hDue⟩
  have hOnly := choose_of_select hk
  rcases h.xMotion with h0 | h9 | h1015
  -- a stored 0 moves nothing and has no side table
  · refine iff_of_true ⟨fun _ hNe => ?_, fun _ hNe => ?_, fun _ _ => ?_⟩
      ⟨fun hNe => ?_, fun hNe => ?_⟩
    case refine_3 => rw [h0, hOnly, sideCells_zero]; rfl
    all_goals exact absurd (h0.symm.trans hNe) (by decide)
  · have hNe : m.blockXMotion ≠ 1015 := by rw [h9]; decide
    rw [obeys_right_iff hk hSix]
    constructor
    · intro hOk
      have hFree := hOk.free hSix
      rw [h9, hOnly, sideCells_right] at hFree
      exact ⟨fun hLeft => absurd hLeft hNe, fun _ => ⟨hOk.right hSix h9, hFree⟩⟩
    · rintro ⟨-, hRight⟩
      refine ⟨fun _ hLeft => absurd hLeft hNe, fun _ _ => (hRight h9).1, fun _ hKey => ?_⟩
      rw [h9, hOnly, sideCells_right]
      exact (hRight h9).2 hKey
  · have hNe : m.blockXMotion ≠ 9 := by rw [h1015]; decide
    -- `GridInv` keeps a due -9 out of column 0
    have hGuard : m.blockXPos > xMin := by
      have hX := h.left h1015 (by rw [hSix]; decide)
      rw [gt_xMin_iff]
      omega
    rw [obeys_left_iff hk hSix hGuard]
    constructor
    · intro hOk
      have hFree := hOk.free hSix
      rw [h1015, hOnly, sideCells_left] at hFree
      exact ⟨fun _ => ⟨hOk.left hSix h1015, hFree⟩, fun hRight => absurd hRight hNe⟩
    · rintro ⟨hLeft, -⟩
      refine ⟨fun _ _ => (hLeft h1015).1, fun _ hRight => absurd hRight hNe, fun _ hKey => ?_⟩
      rw [h1015, hOnly, sideCells_left]
      exact (hLeft h1015).2 hKey

/-- One frame edge without a respawn. -/
theorem obeysKey_iff (h : GridInv m) (hk : i.select = k.select)
    (hEdge : m.frameClkRisingEdge = true) (hReset : i.reset = false)
    (hBottom : (motionComb m i).atBottom = false) :
    StepObeysKey m i ↔ SidestepOk m i := by
  rw [sidestepOk_iff h hk]
  constructor
  · intro hObeys
    exact ⟨fun h1015 hDue => hObeys.left
        ((xPos_step_lt_iff h hEdge hReset hBottom).mpr ⟨h1015, hDue⟩),
      fun h9 hDue => hObeys.right ((lt_xPos_step_iff h hEdge hReset hBottom).mpr ⟨h9, hDue⟩)⟩
  · rintro ⟨hLeft, hRight⟩
    refine ⟨fun hLt => ?_, fun hLt => ?_⟩
    · obtain ⟨h1015, hDue⟩ := (xPos_step_lt_iff h hEdge hReset hBottom).mp hLt
      exact hLeft h1015 hDue
    · obtain ⟨h9, hDue⟩ := (lt_xPos_step_iff h hEdge hReset hBottom).mp hLt
      exact hRight h9 hDue

end Step

/-! ## Every run -/

/-- A frame edge of `block_motion` without a respawn. -/
structure MoveClock (m : MotionRegs) (i : MotionInputs) : Prop where
  edge : m.frameClkRisingEdge = true
  noReset : i.reset = false
  noLock : (motionComb m i).atBottom = false

/-- On every run of `block_motion` from reset, for every waveform of frame clock,
keys, boards and drawn shapes and whatever an out-of-range read returns: on a
frame edge without a respawn a change of `X_Pos` obeys the key and the side
check of that edge exactly if `SidestepOk` holds of the state before. -/
theorem sidestep_obeys_key_iff {m₀ : MotionRegs} (hReset : m₀.AtStart) (w : ℕ → MotionInputs)
    (hSelect : ∀ n, LegalSelect (w n).select) (n : ℕ)
    (h : MoveClock (trace MotionRegs.step m₀ w n) (w n)) :
    StepObeysKey (trace MotionRegs.step m₀ w n) (w n) ↔
      SidestepOk (trace MotionRegs.step m₀ w n) (w n) := by
  obtain ⟨blockSel, rotSel, hSel, hEq⟩ := hSelect n
  exact obeysKey_iff (gridInv_trace hReset hSelect n)
    (hEq.trans (chooseBlock_eq_select blockSel rotSel hSel)) h.edge h.noReset h.noLock

/-! ## A step against the key -/

/-- The flat I piece over an empty board, a frame edge on every odd clock; LEFT
is down on the first six edges and RIGHT from then on. -/
def turnBack (n : ℕ) : MotionInputs where
  reset := false
  frameClk := n % 2 == 0
  keycode := if n < 13 then 0x1C else 0x23
  keypress := true
  select := chooseBlock 3 0
  board := 0
  undefinedRead := fun _ _ => 0

theorem legalSelect_turnBack (n : ℕ) : LegalSelect (turnBack n).select :=
  ⟨3, 0, by decide, rfl⟩

/-- LEFT held all along. -/
def leftHeld (n : ℕ) : MotionInputs := { turnBack n with keycode := 0x1C }

/-- On the seventh edge of LEFT the piece steps, as asked. -/
theorem sidestep_obeys_key_iff_held :
    let m := trace MotionRegs.step Game.initial.motion leftHeld 13
    (m.step (leftHeld 13)).blockXPos < m.blockXPos ∧ StepObeysKey m (leftHeld 13) := by
  intro m
  have hOk : SidestepOk m (leftHeld 13) :=
    ⟨by decide +kernel, by decide +kernel, by decide +kernel⟩
  refine ⟨by decide +kernel, ?_⟩
  exact (sidestep_obeys_key_iff Game.isReset_initial.motion.toAtStart leftHeld
    legalSelect_turnBack 13 ⟨by decide +kernel, rfl, by decide +kernel⟩).mpr hOk

/-- On the seventh edge RIGHT is down and the piece steps to the left. -/
theorem sidestep_against_key :
    let m := trace MotionRegs.step Game.initial.motion turnBack 13
    (∀ n, LegalSelect (turnBack n).select) ∧ MoveClock m (turnBack 13) ∧
      (turnBack 13).right = true ∧ (m.step (turnBack 13)).blockXPos < m.blockXPos ∧
      ¬ StepObeysKey m (turnBack 13) := by
  intro m
  have hStep : (m.step (turnBack 13)).blockXPos < m.blockXPos := by decide +kernel
  refine ⟨legalSelect_turnBack, ⟨by decide +kernel, rfl, by decide +kernel⟩, rfl, hStep, ?_⟩
  intro hObeys
  exact absurd (hObeys.left hStep).1 (by decide)

end Ece385.Tetris

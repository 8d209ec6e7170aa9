import Ece385.Tetris.BlockMotion

/-!
# Tetris — what one frame edge does to `block_motion`

One lemma per variable of the `always_comb` block, each a closed form in the
registers and inputs. Everything later is proved from these equations; no
other module unfolds the sections of `motionComb`.

* `motionComb_idle` — off a frame edge every variable keeps its default.
* `atBottom_edge` — `at_bottom` is "Y motion 0" or a hit of the landing table.
* `xPosIn_edge`, `counterXIn_edge`, `xMotionIn_edge` — the horizontal half.
* `yPosIn_edge`, `counterYIn_edge`, `yMotionIn_edge` — the vertical half.
-/

namespace Ece385.Tetris

/-! ## Conditions the source tests in several places -/

/-- Key LEFT (A) is down. -/
def MotionInputs.left (i : MotionInputs) : Bool := i.keypress && i.keycode == 0x1C

/-- Key RIGHT (D) is down. -/
def MotionInputs.right (i : MotionInputs) : Bool := i.keypress && i.keycode == 0x23

/-- Key DOWN (S) is down. -/
def MotionInputs.down (i : MotionInputs) : Bool := i.keypress && i.keycode == 0x1b

/-- `(block_X_Pos + block_size_x) >= X_Max` -/
def atRightEdge (m : MotionRegs) (i : MotionInputs) : Bool :=
  decide (m.blockXPos + i.select.blockSizeX.setWidth 10 ≥ xMax)

/-- `(block_Y_Pos + block_size_y) >= Y_Max` -/
def atFloor (m : MotionRegs) (i : MotionInputs) : Bool :=
  decide (m.blockYPos + i.select.blockSizeY.setWidth 10 ≥ yMax)

/-- What sets `move_horiz` on a frame edge: a direction key inside its guard,
or contact with a wall. -/
def raisesMoveHoriz (m : MotionRegs) (i : MotionInputs) : Bool :=
  (i.left && decide (m.blockXPos > xMin)) || (i.right && rightFree m i) ||
    atRightEdge m i || decide (m.blockXPos ≤ xMin)

/-- A sideways step is taken on this frame edge. -/
def stepDue (m : MotionRegs) (i : MotionInputs) : Bool :=
  decide (m.counterX = 6) && raisesMoveHoriz m i

/-- A drop is taken on this frame edge. -/
def dropDue (m : MotionRegs) (i : MotionInputs) : Bool :=
  decide (m.counterY + 1 = 50) || (i.down && decide (m.counterY + 1 = 5))

theorem rightFree_eq_not_atRightEdge (m : MotionRegs) (i : MotionInputs) :
    rightFree m i = !atRightEdge m i := by
  rw [rightFree, atRightEdge, ← decide_not, decide_eq_decide, ge_iff_le, BitVec.not_le]

theorem atRightEdge_iff (m : MotionRegs) (i : MotionInputs) :
    atRightEdge m i = true ↔ m.blockXPos + i.select.blockSizeX.setWidth 10 ≥ xMax := by
  rw [atRightEdge, decide_eq_true_eq]

theorem atFloor_iff (m : MotionRegs) (i : MotionInputs) :
    atFloor m i = true ↔ m.blockYPos + i.select.blockSizeY.setWidth 10 ≥ yMax := by
  rw [atFloor, decide_eq_true_eq]

/-! ## Frame lemmas of the sections -/

section Frames

variable (m : MotionRegs) (i : MotionInputs) (v : MotionComb)

theorem checkLanding_eq :
    checkLanding m i v = { v with
      atBottom := v.atBottom || decide (m.blockYMotion = 0) ||
        i.hits m.blockXPos m.blockYPos (landingTable i.select.choose) } := by
  unfold checkLanding
  dsimp only
  -- the two tests only ever raise the flag, so their order is immaterial
  split_ifs <;> simp_all

@[simp] theorem checkKeys_atBottom : (checkKeys m i v).atBottom = v.atBottom := by
  unfold checkKeys; split_ifs <;> rfl

@[simp] theorem checkKeys_counterXIn : (checkKeys m i v).counterXIn = v.counterXIn := by
  unfold checkKeys; split_ifs <;> rfl

@[simp] theorem checkKeys_xPosIn : (checkKeys m i v).blockXPosIn = v.blockXPosIn := by
  unfold checkKeys; split_ifs <;> rfl

@[simp] theorem checkKeys_yPosIn : (checkKeys m i v).blockYPosIn = v.blockYPosIn := by
  unfold checkKeys; split_ifs <;> rfl

theorem checkKeys_fastDrop : (checkKeys m i v).fastDrop = (v.fastDrop || i.down) := by
  unfold checkKeys MotionInputs.down
  split_ifs <;> simp_all

theorem checkKeys_moveHoriz (h : v.moveHoriz = false) :
    (checkKeys m i v).moveHoriz =
      ((i.left && decide (m.blockXPos > xMin)) || (i.right && rightFree m i)) := by
  unfold checkKeys MotionInputs.left MotionInputs.right
  split_ifs <;> simp_all

theorem checkKeys_xMotionIn (h : v.moveHoriz = false) :
    (checkKeys m i v).blockXMotionIn =
      if i.left ∧ m.blockXPos > xMin then
        sideMotion m i (leftTable i.select.choose) (~~~stepSize + 1) v.blockXMotionIn
      else if i.right ∧ rightFree m i then
        sideMotion m i (rightTable i.select.choose) stepSize v.blockXMotionIn
      else v.blockXMotionIn := by
  unfold checkKeys MotionInputs.left MotionInputs.right
  split_ifs <;> simp_all

theorem checkKeys_yMotionIn :
    (checkKeys m i v).blockYMotionIn = if i.down then stepSize else v.blockYMotionIn := by
  unfold checkKeys MotionInputs.down
  split_ifs <;> simp_all

@[simp] theorem checkXBoundary_atBottom : (checkXBoundary m i v).atBottom = v.atBottom := by
  unfold checkXBoundary; split_ifs <;> rfl

@[simp] theorem checkXBoundary_counterXIn :
    (checkXBoundary m i v).counterXIn = v.counterXIn := by
  unfold checkXBoundary; split_ifs <;> rfl

@[simp] theorem checkXBoundary_xPosIn : (checkXBoundary m i v).blockXPosIn = v.blockXPosIn := by
  unfold checkXBoundary; split_ifs <;> rfl

@[simp] theorem checkXBoundary_yPosIn : (checkXBoundary m i v).blockYPosIn = v.blockYPosIn := by
  unfold checkXBoundary; split_ifs <;> rfl

@[simp] theorem checkXBoundary_fastDrop : (checkXBoundary m i v).fastDrop = v.fastDrop := by
  unfold checkXBoundary; split_ifs <;> rfl

@[simp] theorem checkXBoundary_yMotionIn :
    (checkXBoundary m i v).blockYMotionIn = v.blockYMotionIn := by
  unfold checkXBoundary; split_ifs <;> rfl

theorem checkXBoundary_moveHoriz :
    (checkXBoundary m i v).moveHoriz =
      (v.moveHoriz || atRightEdge m i || decide (m.blockXPos ≤ xMin)) := by
  simp only [checkXBoundary, ← atRightEdge_iff]
  by_cases hx : m.blockXPos ≤ xMin <;> cases atRightEdge m i <;> cases hv : v.moveHoriz <;>
    simp [hx, hv]

theorem checkXBoundary_xMotionIn :
    (checkXBoundary m i v).blockXMotionIn =
      if v.moveHoriz = false ∧ (atRightEdge m i ∨ m.blockXPos ≤ xMin) then 0
      else v.blockXMotionIn := by
  simp only [checkXBoundary, ← atRightEdge_iff]
  by_cases hx : m.blockXPos ≤ xMin <;> cases atRightEdge m i <;> cases hv : v.moveHoriz <;>
    simp [hx]

@[simp] theorem checkYBoundary_atBottom : (checkYBoundary m i v).atBottom = v.atBottom := by
  unfold checkYBoundary; split_ifs <;> rfl

@[simp] theorem checkYBoundary_counterXIn :
    (checkYBoundary m i v).counterXIn = v.counterXIn := by
  unfold checkYBoundary; split_ifs <;> rfl

@[simp] theorem checkYBoundary_xPosIn : (checkYBoundary m i v).blockXPosIn = v.blockXPosIn := by
  unfold checkYBoundary; split_ifs <;> rfl

@[simp] theorem checkYBoundary_yPosIn : (checkYBoundary m i v).blockYPosIn = v.blockYPosIn := by
  unfold checkYBoundary; split_ifs <;> rfl

@[simp] theorem checkYBoundary_fastDrop : (checkYBoundary m i v).fastDrop = v.fastDrop := by
  unfold checkYBoundary; split_ifs <;> rfl

@[simp] theorem checkYBoundary_moveHoriz : (checkYBoundary m i v).moveHoriz = v.moveHoriz := by
  unfold checkYBoundary; split_ifs <;> rfl

theorem checkYBoundary_xMotionIn :
    (checkYBoundary m i v).blockXMotionIn = if atFloor m i then 0 else v.blockXMotionIn := by
  simp only [checkYBoundary, ← atFloor_iff]
  split_ifs <;> rfl

theorem checkYBoundary_yMotionIn :
    (checkYBoundary m i v).blockYMotionIn =
      if atFloor m i then 0 else if m.blockYPos ≤ yMin then stepSize else v.blockYMotionIn := by
  simp only [checkYBoundary, ← atFloor_iff]
  split_ifs <;> rfl

@[simp] theorem updateX_atBottom : (updateX m v).atBottom = v.atBottom := by
  unfold updateX; split_ifs <;> rfl

@[simp] theorem updateX_fastDrop : (updateX m v).fastDrop = v.fastDrop := by
  unfold updateX; split_ifs <;> rfl

@[simp] theorem updateX_yPosIn : (updateX m v).blockYPosIn = v.blockYPosIn := by
  unfold updateX; split_ifs <;> rfl

@[simp] theorem updateX_xMotionIn : (updateX m v).blockXMotionIn = v.blockXMotionIn := by
  unfold updateX; split_ifs <;> rfl

@[simp] theorem updateX_yMotionIn : (updateX m v).blockYMotionIn = v.blockYMotionIn := by
  unfold updateX; split_ifs <;> rfl

theorem updateX_xPosIn :
    (updateX m v).blockXPosIn =
      if v.counterXIn = 6 ∧ v.moveHoriz then m.blockXPos + m.blockXMotion
      else v.blockXPosIn := by
  unfold updateX; split_ifs <;> rfl

theorem updateX_counterXIn :
    (updateX m v).counterXIn =
      if v.moveHoriz then if v.counterXIn = 6 then 0 else m.counterX + 1 else v.counterXIn := by
  unfold updateX; split_ifs <;> simp_all

@[simp] theorem updateY_atBottom : (updateY m v).atBottom = v.atBottom := by
  unfold updateY; dsimp only; split_ifs <;> rfl

@[simp] theorem updateY_xPosIn : (updateY m v).blockXPosIn = v.blockXPosIn := by
  unfold updateY; dsimp only; split_ifs <;> rfl

@[simp] theorem updateY_counterXIn : (updateY m v).counterXIn = v.counterXIn := by
  unfold updateY; dsimp only; split_ifs <;> rfl

@[simp] theorem updateY_xMotionIn : (updateY m v).blockXMotionIn = v.blockXMotionIn := by
  unfold updateY; dsimp only; split_ifs <;> rfl

@[simp] theorem updateY_yMotionIn : (updateY m v).blockYMotionIn = v.blockYMotionIn := by
  unfold updateY; dsimp only; split_ifs <;> rfl

theorem updateY_yPosIn :
    (updateY m v).blockYPosIn =
      if m.counterY + 1 = 50 ∨ (v.fastDrop ∧ m.counterY + 1 = 5) then
        m.blockYPos + m.blockYMotion
      else v.blockYPosIn := by
  unfold updateY; dsimp only; split_ifs <;> simp_all

theorem updateY_counterYIn :
    (updateY m v).counterYIn =
      if m.counterY + 1 = 50 ∨ (v.fastDrop ∧ m.counterY + 1 = 5) then 0
      else m.counterY + 1 := by
  unfold updateY; dsimp only; split_ifs <;> simp_all

end Frames

/-! ## The variables on and off a frame edge -/

section Edge

variable {m : MotionRegs} {i : MotionInputs}

theorem motionComb_idle (h : m.frameClkRisingEdge = false) : motionComb m i = m.defaults := by
  simp [motionComb, h]

theorem motionComb_edge (h : m.frameClkRisingEdge = true) :
    motionComb m i = updateY m (updateX m (checkYBoundary m i (checkXBoundary m i
      (checkKeys m i (checkLanding m i m.defaults))))) := by
  simp [motionComb, h]

theorem atBottom_edge (h : m.frameClkRisingEdge = true) :
    (motionComb m i).atBottom =
      (decide (m.blockYMotion = 0) ||
        i.hits m.blockXPos m.blockYPos (landingTable i.select.choose)) := by
  rw [motionComb_edge h, checkLanding_eq]
  simp [MotionRegs.defaults]

theorem atBottom_idle (h : m.frameClkRisingEdge = false) :
    (motionComb m i).atBottom = false := by
  rw [motionComb_idle h]; rfl

theorem moveHoriz_edge (v : MotionComb) (hv : v.moveHoriz = false) :
    (checkYBoundary m i (checkXBoundary m i (checkKeys m i v))).moveHoriz =
      raisesMoveHoriz m i := by
  rw [checkYBoundary_moveHoriz, checkXBoundary_moveHoriz, checkKeys_moveHoriz m i v hv,
    raisesMoveHoriz]

theorem xPosIn_edge (h : m.frameClkRisingEdge = true) :
    (motionComb m i).blockXPosIn =
      if stepDue m i then m.blockXPos + m.blockXMotion else m.blockXPos := by
  rw [motionComb_edge h, checkLanding_eq, updateY_xPosIn, updateX_xPosIn,
    moveHoriz_edge _ rfl]
  simp [MotionRegs.defaults, stepDue]

theorem counterXIn_edge (h : m.frameClkRisingEdge = true) :
    (motionComb m i).counterXIn =
      if raisesMoveHoriz m i then if m.counterX = 6 then 0 else m.counterX + 1
      else m.counterX := by
  rw [motionComb_edge h, checkLanding_eq, updateY_counterXIn, updateX_counterXIn,
    moveHoriz_edge _ rfl]
  simp [MotionRegs.defaults]

theorem xMotionIn_edge (h : m.frameClkRisingEdge = true) :
    (motionComb m i).blockXMotionIn =
      if atFloor m i then 0
      else if i.left ∧ m.blockXPos > xMin then
        sideMotion m i (leftTable i.select.choose) (~~~stepSize + 1) m.blockXMotion
      else if i.right ∧ rightFree m i then
        sideMotion m i (rightTable i.select.choose) stepSize m.blockXMotion
      else if atRightEdge m i ∨ m.blockXPos ≤ xMin then 0
      else m.blockXMotion := by
  -- later assignments win: the floor over the walls over the keys
  rw [motionComb_edge h, checkLanding_eq, updateY_xMotionIn, updateX_xMotionIn,
    checkYBoundary_xMotionIn, checkXBoundary_xMotionIn, checkKeys_moveHoriz _ _ _ rfl,
    checkKeys_xMotionIn _ _ _ rfl]
  simp only [MotionRegs.defaults]
  split_ifs <;> simp_all

theorem yPosIn_edge (h : m.frameClkRisingEdge = true) :
    (motionComb m i).blockYPosIn =
      if dropDue m i then m.blockYPos + m.blockYMotion else m.blockYPos := by
  rw [motionComb_edge h, checkLanding_eq, updateY_yPosIn]
  simp [MotionRegs.defaults, dropDue, checkKeys_fastDrop]

theorem counterYIn_edge (h : m.frameClkRisingEdge = true) :
    (motionComb m i).counterYIn = if dropDue m i then 0 else m.counterY + 1 := by
  rw [motionComb_edge h, checkLanding_eq, updateY_counterYIn]
  simp [MotionRegs.defaults, dropDue, checkKeys_fastDrop]

theorem yMotionIn_edge (h : m.frameClkRisingEdge = true) :
    (motionComb m i).blockYMotionIn =
      if atFloor m i then 0
      else if m.blockYPos ≤ yMin ∨ i.down then stepSize
      else m.blockYMotion := by
  rw [motionComb_edge h, checkLanding_eq, updateY_yMotionIn, updateX_yMotionIn,
    checkYBoundary_yMotionIn, checkXBoundary_yMotionIn, checkKeys_yMotionIn]
  -- at the top and under key DOWN the step is the same
  by_cases hy : m.blockYPos ≤ yMin <;> cases i.down <;> simp [MotionRegs.defaults, hy]

end Edge

end Ece385.Tetris

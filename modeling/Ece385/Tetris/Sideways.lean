import Ece385.Tetris.Gravity
import Ece385.Tetris.Sidestep

/-!
# Tetris — the piece moves aside

`counter_x` counts the frame edges that raise `move_horiz` and is restarted by a
sideways step. Seven times the distance to either wall plus the counter therefore
grows by no more than one with a frame edge: nothing that is typed moves a piece
faster than one column in seven frames. A key that is held, and not in the way of
anything, moves it exactly that fast until the wall.

* `column_step`, `paused_step` — what a frame edge does to column and counter.
* `Pushed`, `Driven` — a held key, and what is then known of the stored motion.

Main results:

* `column_after_frames` — how far aside a piece may have come.
* `held_key_moves` — how far it has come under a held key.
-/

open Clocked

namespace Ece385.Tetris

/-! ## One clock -/

/-- The column of the piece. -/
def MotionRegs.column (m : MotionRegs) : ℕ := (m.blockXPos.toNat - 270) / 9

/-- The frame edges counted for the next sideways step. -/
def MotionRegs.paused (m : MotionRegs) : ℕ := m.counterX.toNat

section Step

variable {m : MotionRegs} {i : MotionInputs} {k : Shape}

theorem OnGrid.column_le (h : OnGrid m) : m.column ≤ 10 := by
  obtain ⟨c, hc, hX⟩ := h.xPos
  rw [MotionRegs.column, hX]
  omega

theorem OnGrid.xPos_eq (h : OnGrid m) : m.blockXPos.toNat = 270 + 9 * m.column := by
  obtain ⟨c, hc, hX⟩ := h.xPos
  rw [MotionRegs.column, hX]
  omega

theorem paused_eq_six_iff : m.paused = 6 ↔ m.counterX = 6 := by
  rw [MotionRegs.paused, ← BitVec.toNat_inj]
  rfl

theorem stepDue_iff_paused : stepDue m i = true ↔ m.paused = 6 ∧ raisesMoveHoriz m i = true := by
  rw [stepDue_iff, paused_eq_six_iff]

/-- The piece goes by the stored motion, where a step is due. -/
theorem GridInv.column_step (h : GridInv m) (hReset : i.reset = false)
    (hBottom : (motionComb m i).atBottom = false) (hEdge : m.frameClkRisingEdge = true) :
    (stepDue m i = false ∧ (m.step i).column = m.column) ∨
      (stepDue m i = true ∧ m.blockXMotion = 0 ∧ (m.step i).column = m.column) ∨
      (stepDue m i = true ∧ m.blockXMotion = 9 ∧ (m.step i).column = m.column + 1) ∨
      (stepDue m i = true ∧ m.blockXMotion = 1015 ∧ (m.step i).column + 1 = m.column) := by
  have hX := h.toOnGrid.xPos_eq
  have hTo : (m.step i).column = ((motionComb m i).blockXPosIn.toNat - 270) / 9 := by
    rw [MotionRegs.column, xPos_step_of_edge hReset hBottom]
  rw [hTo]
  rcases xPosIn_cases (i := i) h hEdge with ⟨hDue, hX'⟩ | ⟨hDue, h0, hX'⟩ | ⟨hDue, h9, -, hX'⟩ |
    ⟨hDue, h1015, hLe, hX'⟩
  · exact Or.inl ⟨hDue, by rw [hX', hX]; omega⟩
  · exact Or.inr (Or.inl ⟨hDue, h0, by rw [hX', hX]; omega⟩)
  · exact Or.inr (Or.inr (Or.inl ⟨hDue, h9, by rw [hX', hX]; omega⟩))
  · exact Or.inr (Or.inr (Or.inr ⟨hDue, h1015, by omega⟩))

/-- The counter runs from 0 to 6 and around, on the frame edges that raise `move_horiz`. -/
theorem GridInv.paused_step (h : GridInv m) (hReset : i.reset = false)
    (hBottom : (motionComb m i).atBottom = false) (hEdge : m.frameClkRisingEdge = true) :
    (m.step i).paused = if raisesMoveHoriz m i then (m.paused + 1) % 7 else m.paused := by
  have hLe : m.paused ≤ 6 := h.counterX
  have hTo : (m.step i).paused = (motionComb m i).counterXIn.toNat := by
    rw [MotionRegs.paused, step_latch hReset hBottom]
    rfl
  rw [hTo, counterXIn_edge hEdge]
  -- a wrap at 6, a step of a 16-bit counter that is small, or nothing
  split_ifs with hRaise hSix
  · rw [← paused_eq_six_iff] at hSix
    rw [hSix]
    rfl
  · rw [← paused_eq_six_iff] at hSix
    rw [BitVec.toNat_add]
    change (m.paused + 1) % 65536 = _
    omega
  · rfl

/-- Off a frame edge the piece waits. -/
theorem side_idle (hReset : i.reset = false) (hEdge : m.frameClkRisingEdge = false) :
    (m.step i).column = m.column ∧ (m.step i).paused = m.paused ∧
      (m.step i).blockXMotion = m.blockXMotion := by
  rw [step_idle hReset hEdge]
  exact ⟨rfl, rfl, rfl⟩

/-- A frame edge brings the piece no nearer to a step to either side than by one frame. -/
theorem GridInv.side_potential (h : GridInv m) (hReset : i.reset = false)
    (hBottom : (motionComb m i).atBottom = false) :
    7 * (m.step i).column + (m.step i).paused ≤
        7 * m.column + m.paused + (if m.frameClkRisingEdge = true then 1 else 0) ∧
      7 * (10 - (m.step i).column) + (m.step i).paused ≤
        7 * (10 - m.column) + m.paused + (if m.frameClkRisingEdge = true then 1 else 0) := by
  by_cases hEdge : m.frameClkRisingEdge = true
  · have hLe : m.paused ≤ 6 := h.counterX
    have hCol := h.toOnGrid.column_le
    have hPaused := h.paused_step hReset hBottom hEdge
    rw [if_pos hEdge]
    rcases h.column_step hReset hBottom hEdge with ⟨-, hStay⟩ | hStep
    · split_ifs at hPaused <;> omega
    · -- a step uses up the six frames waited for it
      have hDue : m.paused = 6 ∧ raisesMoveHoriz m i = true := by
        rcases hStep with ⟨hDue, -⟩ | ⟨hDue, -⟩ | ⟨hDue, -⟩ <;> exact stepDue_iff_paused.mp hDue
      rw [if_pos hDue.2] at hPaused
      rcases hStep with ⟨-, -, hTo⟩ | ⟨-, -, hTo⟩ | ⟨-, -, hTo⟩ <;> omega
  · obtain ⟨hCol, hPaused, -⟩ := side_idle (i := i) hReset (by simpa using hEdge)
    rw [if_neg hEdge, hCol, hPaused]
    omega

end Step

/-! ## Whatever is typed -/

section Run

variable {s₀ : Game} {w : ℕ → Inputs}

/-- How far aside a piece may have come: `f` frame edges after it appeared and before it
locks it is within `f / 7` columns of column 3, whatever is pressed meanwhile. -/
theorem column_after_frames (hReset : s₀.IsReset) {m n : ℕ} (hmn : m ≤ n)
    (hLow : ∀ k, m ≤ k → k < n → (w k).reset = false)
    (hNoLock : ∀ k, m ≤ k → k < n → ¬ locks s₀ w k) (hStart : (s₀.run w m).motion.AtStart) :
    let f := Nat.count (frameEdge s₀ w) n - Nat.count (frameEdge s₀ w) m
    3 ≤ (s₀.run w n).motion.column + f / 7 ∧ (s₀.run w n).motion.column ≤ 3 + f / 7 := by
  intro f
  have hBottom : ∀ k, m ≤ k → k < n → (s₀.run w k).atBottom (w k) = false := by
    intro k hk hkn
    simpa [locks] using hNoLock k hk hkn
  have hStep := fun k hk hkn => (gameInv_run hReset w k).grid.side_potential
    (i := (s₀.run w k).motionInputs (w k)) (hLow k hk hkn) (hBottom k hk hkn)
  -- from either wall, with the counter at 0 in column 3 to begin with
  have hRight := potential_le_count (p := frameEdge s₀ w)
    (fun k => 7 * (s₀.run w k).motion.column + (s₀.run w k).motion.paused) hmn
    fun k hk hkn => (hStep k hk hkn).1
  have hLeft := potential_le_count (p := frameEdge s₀ w)
    (fun k => 7 * (10 - (s₀.run w k).motion.column) + (s₀.run w k).motion.paused) hmn
    fun k hk hkn => (hStep k hk hkn).2
  have hCol : (s₀.run w m).motion.column = 3 := by rw [MotionRegs.column, hStart.xPos]; rfl
  have hNone : (s₀.run w m).motion.paused = 0 := by rw [MotionRegs.paused, hStart.counterX]; rfl
  have hMono := Nat.count_monotone (frameEdge s₀ w) hmn
  simp only [hCol, hNone] at hRight hLeft
  simp only [f]
  omega

/-! ## Under a held key -/

inductive Side where
  | left
  | right
  deriving DecidableEq

namespace Side

/-- The motion the key of that side stores. -/
def motion : Side → BitVec 10
  | left => ~~~stepSize + 1
  | right => stepSize

/-- The key of that side is down. -/
def key (i : MotionInputs) : Side → Bool
  | left => i.left
  | right => i.right

/-- The branch of that key finds the cells beside the piece free. -/
def checkPasses (m : MotionRegs) (i : MotionInputs) : Side → Bool
  | left => leftCheckPasses m i
  | right => rightCheckPasses m i

/-- The columns from the piece to the wall of that side. -/
def room (k : Shape) (m : MotionRegs) : Side → ℕ
  | left => m.column
  | right => 11 - k.width - m.column

end Side

/-- The key of the side is down and nothing is in the way but the wall. -/
structure Pushed (side : Side) (k : Shape) (m : MotionRegs) (i : MotionInputs) : Prop where
  shape : i.select = k.select
  key : side.key i = true
  free : side.room k m ≠ 0 → side.checkPasses m i = true
  floor : atFloor m i = false

/-- What is known of the stored motion after a frame edge under the key: it is the one of the
key, and 0 where the piece has waited at the wall. -/
structure Driven (side : Side) (k : Shape) (m : MotionRegs) : Prop where
  motion : side.room k m ≠ 0 → m.blockXMotion = side.motion
  wall : side.room k m = 0 → m.paused ≠ 0 → m.blockXMotion = 0

section Step

variable {m : MotionRegs} {i : MotionInputs} {k : Shape} {side : Side}

theorem Pushed.raises (h : Pushed side k m i) : raisesMoveHoriz m i = true := by
  have hKey := h.key
  cases side with
  | left =>
    rw [raisesMoveHoriz, show i.left = true from hKey]
    by_cases hX : m.blockXPos ≤ xMin
    · simp [hX]
    · simp [BitVec.not_le.mp hX]
  | right =>
    rw [raisesMoveHoriz, show i.right = true from hKey, rightFree_eq_not_atRightEdge]
    cases atRightEdge m i <;> simp

theorem gt_xMin_iff_column (h : OnGrid m) : m.blockXPos > xMin ↔ m.column ≠ 0 := by
  rw [gt_xMin_iff, h.xPos_eq]
  omega

theorem rightFree_iff_room (h : OnGrid m) (hk : i.select = k.select) :
    rightFree m i = true ↔ Side.right.room k m ≠ 0 := by
  have hX := h.xPos_eq
  rw [rightFree_iff_toNat hk h.xPos_bounds.2, hX, Side.room]
  omega

/-- What a frame edge under the key stores. -/
theorem Pushed.motion_step (h : Pushed side k m i) (hGrid : OnGrid m) (hReset : i.reset = false)
    (hBottom : (motionComb m i).atBottom = false) (hEdge : m.frameClkRisingEdge = true) :
    (m.step i).blockXMotion = if side.room k m = 0 then 0 else side.motion := by
  have hTo : (m.step i).blockXMotion = (motionComb m i).blockXMotionIn := by
    rw [step_latch hReset hBottom]
    rfl
  have hFloor : ¬ atFloor m i = true := by rw [h.floor]; decide
  have hFree := h.free
  rw [hTo, xMotionIn_edge hEdge, if_neg hFloor, choose_of_select h.shape, leftTable_only,
    rightTable_only, sideMotion_some, sideMotion_some]
  cases side with
  | left =>
    have hKey : i.left = true := h.key
    by_cases hRoom : Side.left.room k m = 0
    · -- column 0 fails the guard of the branch, and the wall clears the motion
      have hWall : ¬ m.blockXPos > xMin := fun hGo => (gt_xMin_iff_column hGrid).mp hGo hRoom
      rw [if_neg (fun hGo => hWall hGo.2), if_neg (by simp [not_right_of_left hKey]),
        if_pos (Or.inr (BitVec.not_lt.mp hWall)), if_pos hRoom]
    · -- the cells beside the piece are free, so the branch stores its step
      obtain ⟨hGo, hHit⟩ := (leftCheckPasses_iff h.shape).mp (hFree hRoom)
      rw [if_pos ⟨hKey, hGo⟩, hHit, if_neg Bool.false_ne_true, if_neg hRoom]
      rfl
  | right =>
    have hKey : i.right = true := h.key
    have hNoLeft : ¬ (i.left = true ∧ m.blockXPos > xMin) := by simp [not_left_of_right hKey]
    rw [if_neg hNoLeft]
    by_cases hRoom : Side.right.room k m = 0
    · -- the branch fails its guard here as well
      have hWall : ¬ rightFree m i = true := fun hGo =>
        (rightFree_iff_room hGrid h.shape).mp hGo hRoom
      have hEdge : atRightEdge m i = true := by
        simpa [rightFree_eq_not_atRightEdge] using hWall
      rw [if_neg (fun hGo => hWall hGo.2), if_pos (Or.inl hEdge), if_pos hRoom]
    · obtain ⟨hGo, hHit⟩ := (rightCheckPasses_iff h.shape).mp (hFree hRoom)
      rw [if_pos ⟨hKey, hGo⟩, hHit, if_neg Bool.false_ne_true, if_neg hRoom]
      rfl

/-- With six frames counted, the stored motion is the one of the key, or 0 at the wall. -/
theorem Driven.motion_eq (h : Driven side k m) (hSix : m.paused = 6) :
    m.blockXMotion = if side.room k m = 0 then 0 else side.motion := by
  by_cases hRoom : side.room k m = 0
  · rw [if_pos hRoom, h.wall hRoom (by omega)]
  · rw [if_neg hRoom, h.motion hRoom]

/-- The step that is due then is one column to the side, and none at the wall. -/
theorem Pushed.room_step (h : Pushed side k m i) (hGrid : GridInv m) (hReset : i.reset = false)
    (hBottom : (motionComb m i).atBottom = false) (hEdge : m.frameClkRisingEdge = true)
    (hDriven : m.paused = 6 → Driven side k m) :
    side.room k (m.step i) = side.room k m - (if m.paused = 6 then 1 else 0) := by
  have hStep := hGrid.column_step hReset hBottom hEdge
  have hDue := stepDue_iff_paused (m := m) (i := i)
  rw [h.raises, and_iff_left rfl] at hDue
  by_cases hSix : m.paused = 6
  · have hMotion := (hDriven hSix).motion_eq hSix
    rw [hDue.mpr hSix, hMotion] at hStep
    rw [if_pos hSix]
    -- at the wall the stored motion is 0, elsewhere it is that of the key
    by_cases hRoom : side.room k m = 0
    · rw [if_pos hRoom] at hStep
      have hStay : (m.step i).column = m.column := by simpa using hStep
      cases side <;> simp only [Side.room, hStay] at hRoom ⊢ <;> omega
    · rw [if_neg hRoom] at hStep
      cases side with
      | left =>
        have hTo : (m.step i).column + 1 = m.column := by
          simpa [Side.motion, stepSize] using hStep
        simp only [Side.room]
        omega
      | right =>
        have hTo : (m.step i).column = m.column + 1 := by
          simpa [Side.motion, stepSize] using hStep
        simp only [Side.room, hTo]
        omega
  · have hStay : (m.step i).column = m.column := by
      have hNot : stepDue m i ≠ true := fun hNow => hSix (hDue.mp hNow)
      simpa [hNot] using hStep
    rw [if_neg hSix, Nat.sub_zero]
    cases side <;> simp only [Side.room, hStay]

/-- What a frame edge under the key does: the counter runs on, and where it is used up the
piece goes one column nearer to the wall. -/
theorem Pushed.driven_step (h : Pushed side k m i) (hGrid : GridInv m) (hReset : i.reset = false)
    (hBottom : (motionComb m i).atBottom = false) (hEdge : m.frameClkRisingEdge = true)
    (hDriven : m.paused = 6 → Driven side k m) :
    (m.step i).paused = (m.paused + 1) % 7 ∧
      side.room k (m.step i) = side.room k m - (if m.paused = 6 then 1 else 0) ∧
      Driven side k (m.step i) := by
  have hPaused := hGrid.paused_step hReset hBottom hEdge
  rw [if_pos h.raises] at hPaused
  have hMotion := h.motion_step hGrid.toOnGrid hReset hBottom hEdge
  have hRoom := h.room_step hGrid hReset hBottom hEdge hDriven
  refine ⟨hPaused, hRoom, ⟨fun hFar => ?_, fun hNear hWaits => ?_⟩⟩
  · rw [hMotion, if_neg (by omega)]
  · have hNotSix : m.paused ≠ 6 := fun hSix => hWaits (by rw [hPaused, hSix])
    rw [if_neg hNotSix] at hRoom
    rw [hMotion, if_pos (by omega)]

/-- Off a frame edge nothing of it changes. -/
theorem driven_idle (side : Side) (k : Shape) (hReset : i.reset = false)
    (hEdge : m.frameClkRisingEdge = false) :
    side.room k (m.step i) = side.room k m ∧ (Driven side k m → Driven side k (m.step i)) := by
  obtain ⟨hCol, hPaused, hMotion⟩ := side_idle hReset hEdge
  have hRoom : side.room k (m.step i) = side.room k m := by
    cases side <;> simp only [Side.room, hCol]
  refine ⟨hRoom, fun h => ⟨fun hFar => ?_, fun hNear hWaits => ?_⟩⟩
  · rw [hMotion, h.motion (hRoom ▸ hFar)]
  · rw [hMotion, h.wall (hRoom ▸ hNear) (hPaused ▸ hWaits)]

end Step

/-- The state under a held key, the frame edges being counted from clock `m` on. -/
theorem driven_run (hReset : s₀.IsReset) {m n : ℕ} (hmn : m ≤ n) (side : Side) (k : Shape)
    (hLow : ∀ j, m ≤ j → j < n → (w j).reset = false)
    (hNoLock : ∀ j, m ≤ j → j < n → ¬ locks s₀ w j) (hFresh : (s₀.run w m).motion.paused ≠ 6)
    (hHeld : ∀ j, m ≤ j → j < n → frameEdge s₀ w j →
      Pushed side k (s₀.run w j).motion ((s₀.run w j).motionInputs (w j))) :
    let c := (s₀.run w m).motion.paused
    let f := Nat.count (frameEdge s₀ w) n - Nat.count (frameEdge s₀ w) m
    (s₀.run w n).motion.paused = (c + f) % 7 ∧
      side.room k (s₀.run w n).motion = side.room k (s₀.run w m).motion - (c + f) / 7 ∧
      (f ≠ 0 → Driven side k (s₀.run w n).motion) := by
  have hLe : (s₀.run w m).motion.paused ≤ 6 := (gameInv_run hReset w m).grid.counterX
  -- by induction on the clocks; `Driven` holds from the first frame edge on
  induction n, hmn using Nat.le_induction with
  | base =>
    simp only [Nat.sub_self, Nat.add_zero]
    exact ⟨by omega, by omega, fun h0 => absurd rfl h0⟩
  | succ n hmn ih =>
    have hNow := ih (fun j hj hjn => hLow j hj (by omega)) (fun j hj hjn => hNoLock j hj (by omega))
      fun j hj hjn => hHeld j hj (by omega)
    obtain ⟨hPaused, hRoom, hDriven⟩ := hNow
    have hGrid := (gameInv_run hReset w n).grid
    have hLow' : (w n).reset = false := hLow n hmn (Nat.lt_succ_self n)
    have hBottom : (s₀.run w n).atBottom (w n) = false := by
      simpa [locks] using hNoLock n hmn (Nat.lt_succ_self n)
    have hMono := Nat.count_monotone (frameEdge s₀ w) hmn
    by_cases hEdge : frameEdge s₀ w n
    · -- six frames are counted under the key, one of them at least from clock `m` on
      have hSix : (s₀.run w n).motion.paused = 6 → Driven side k (s₀.run w n).motion := by
        intro hSix
        refine hDriven ?_
        omega
      obtain ⟨hPaused', hRoom', hDriven'⟩ :=
        (hHeld n hmn (Nat.lt_succ_self n) hEdge).driven_step hGrid hLow' hBottom hEdge hSix
      rw [count_succ_of _ hEdge]
      refine ⟨hPaused'.trans ?_, hRoom'.trans ?_, fun _ => hDriven'⟩
      · omega
      · split_ifs <;> omega
    · have hIdle : (s₀.run w n).motion.frameClkRisingEdge = false := by
        simpa [frameEdge] using hEdge
      have hSame := side_idle (i := (s₀.run w n).motionInputs (w n)) hLow' hIdle
      obtain ⟨hRoom', hDriven'⟩ :=
        driven_idle (i := (s₀.run w n).motionInputs (w n)) side k hLow' hIdle
      rw [count_succ_of_not _ hEdge]
      exact ⟨hSame.2.1.trans hPaused, hRoom'.trans hRoom, fun h0 => hDriven' (hDriven h0)⟩

/-- How fast a held key moves the piece: with the cells beside it free and no floor under it,
one column in seven frame edges until the wall, however the piece falls meanwhile. Only a
counter that stands at 6 already takes the first of these steps by an older motion. -/
theorem held_key_moves (hReset : s₀.IsReset) {m n : ℕ} (hmn : m ≤ n) (side : Side) (k : Shape)
    (hLow : ∀ j, m ≤ j → j < n → (w j).reset = false)
    (hNoLock : ∀ j, m ≤ j → j < n → ¬ locks s₀ w j) (hFresh : (s₀.run w m).motion.paused ≠ 6)
    (hHeld : ∀ j, m ≤ j → j < n → frameEdge s₀ w j →
      Pushed side k (s₀.run w j).motion ((s₀.run w j).motionInputs (w j))) :
    let f := Nat.count (frameEdge s₀ w) n - Nat.count (frameEdge s₀ w) m
    side.room k (s₀.run w n).motion =
      side.room k (s₀.run w m).motion - ((s₀.run w m).motion.paused + f) / 7 :=
  (driven_run hReset hmn side k hLow hNoLock hFresh hHeld).2.1

end Run

instance (side : Side) (k : Shape) (m : MotionRegs) (i : MotionInputs) :
    Decidable (Pushed side k m i) :=
  decidable_of_iff (i.select = k.select ∧ side.key i = true ∧
      (side.room k m ≠ 0 → side.checkPasses m i = true) ∧ atFloor m i = false)
    ⟨fun h => ⟨h.1, h.2.1, h.2.2.1, h.2.2.2⟩, fun h => ⟨h.shape, h.key, h.free, h.floor⟩⟩

/-- Draw the I piece and hold LEFT for 22 frames. -/
def slideRun : List Inputs :=
  { lfsrOut := 3 } :: (List.replicate 22 [keyDown 0x1C true, keyDown 0x1C false]).flatten

theorem slideRun_run :
    ((checkedRun Game.step (fun s i => s.atBottom i == false &&
        decide (s.motion.frameClkRisingEdge = true →
          Pushed .left (shapeOf 3 0) s.motion (s.motionInputs i))) Game.initial slideRun).any
      fun s => s.motion.column == 0) = true := by
  decide +kernel

/-- It stands in column 0 then, and nothing has been in the way. -/
theorem slideRun_spec :
    (Game.initial.run (listed slideRun) 45).motion.column = 0 ∧
      Nat.count (frameEdge Game.initial (listed slideRun)) 45 = 22 ∧
      (∀ j < 45, ¬ locks Game.initial (listed slideRun) j) ∧
      ∀ j < 45, frameEdge Game.initial (listed slideRun) j →
        Pushed .left (shapeOf 3 0) (Game.initial.run (listed slideRun) j).motion
          ((Game.initial.run (listed slideRun) j).motionInputs (listed slideRun j)) := by
  obtain ⟨s, hRun, hColumn⟩ := (Option.any_eq_true _ _).mp slideRun_run
  obtain ⟨hEnd, hOk⟩ := run_listed_checked hRun
  rw [show slideRun.length = 45 by decide +kernel] at hEnd hOk
  simp only [Bool.and_eq_true, beq_iff_eq, decide_eq_true_eq] at hOk
  refine ⟨by rw [hEnd]; exact eq_of_beq hColumn, by decide +kernel, fun j hj => ?_,
    fun j hj => (hOk j hj).2⟩
  rw [locks, Bool.not_eq_true]
  exact (hOk j hj).1

theorem reset_slideRun (n : ℕ) : (listed slideRun n).reset = false :=
  reset_listed (by decide +kernel) n

/-- Three columns in 22 frames: the piece has come as far as it can. -/
theorem column_after_frames_slide :
    let w := listed slideRun
    let f := Nat.count (frameEdge Game.initial w) 45 - Nat.count (frameEdge Game.initial w) 0
    f = 22 ∧ (Game.initial.run w 45).motion.column = 0 ∧
      3 ≤ (Game.initial.run w 45).motion.column + f / 7 := by
  intro w f
  obtain ⟨hColumn, hCount, hNoLock, -⟩ := slideRun_spec
  have hFrames : f = 22 := by simp only [f, w, hCount, Nat.count_zero]
  exact ⟨hFrames, hColumn, (column_after_frames Game.isReset_initial (Nat.zero_le 45)
    (fun k _ _ => reset_slideRun k) (fun k _ hk => hNoLock k hk)
    Game.isReset_initial.motion.toAtStart).1⟩

theorem held_key_moves_left :
    Side.left.room (shapeOf 3 0) (Game.initial.run (listed slideRun) 45).motion = 0 := by
  obtain ⟨-, hCount, hNoLock, hPushed⟩ := slideRun_spec
  have hMoves := held_key_moves (w := listed slideRun) Game.isReset_initial (Nat.zero_le 45)
    .left (shapeOf 3 0) (fun j _ _ => reset_slideRun j) (fun j _ hj => hNoLock j hj) (by decide)
    fun j _ hj => hPushed j hj
  rw [hCount, Nat.count_zero] at hMoves
  exact hMoves

end Ece385.Tetris

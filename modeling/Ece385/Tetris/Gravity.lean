import Ece385.Lib.Components
import Ece385.Tetris.Handover

/-!
# Tetris — the piece falls

`counter_y` counts frame edges and is restarted by a drop, which comes at 50, or at 5
under key DOWN. Fifty times the row plus the counter therefore grows with every frame
edge, and five times the row plus the counter grows by no more than one. Both
hold until a lock; the first one bounds the time to it.

* `fall_step` — what a frame edge does to row and counter.
* `fall_bounds` — a fall takes at least 5 and at most 50 frame edges a row.

Main results:

* `row_after_frames` — the row, in terms of the frames since the piece appeared.
* `lock_within` — among 1100 frame edges there is a lock.
-/

open Clocked

namespace Ece385.Tetris

/-! ## One clock -/

/-- The row of the piece. -/
def MotionRegs.row (m : MotionRegs) : ℕ := (m.blockYPos.toNat - 135) / 9

/-- The frame edges since the last drop. -/
def MotionRegs.waited (m : MotionRegs) : ℕ := m.counterY.toNat

theorem OnGrid.row_le {m : MotionRegs} (h : OnGrid m) : m.row ≤ 21 := by
  obtain ⟨r, hr, hY⟩ := h.yPos
  rw [MotionRegs.row, hY]
  omega

/-- Without a lock a frame edge is waited for, or the piece drops by one row; the
wait was then for the fifth or the fiftieth. -/
theorem GridInv.fall_step {m : MotionRegs} {i : MotionInputs} (h : GridInv m)
    (hReset : i.reset = false) (hBottom : (motionComb m i).atBottom = false)
    (hEdge : m.frameClkRisingEdge = true) :
    ((m.step i).row = m.row ∧ (m.step i).waited = m.waited + 1) ∨
      ((m.step i).row = m.row + 1 ∧ (m.step i).waited = 0 ∧
        (m.waited + 1 = 5 ∨ m.waited + 1 = 50)) := by
  obtain ⟨r, hr, hY⟩ := h.yPos
  have hWait := h.counterY
  have hLatch := step_latch (m := m) hReset hBottom
  have hRow : (m.step i).row = ((motionComb m i).blockYPosIn.toNat - 135) / 9 := by
    rw [hLatch]
    rfl
  have hCounter : (m.step i).waited = (motionComb m i).counterYIn.toNat := by
    rw [hLatch]
    rfl
  have hNext : (m.counterY + 1).toNat = m.waited + 1 := by
    rw [MotionRegs.waited, BitVec.toNat_add]
    change (m.counterY.toNat + 1) % 65536 = _
    omega
  rw [hRow, hCounter, counterYIn_edge hEdge, MotionRegs.row, hY]
  -- the counter goes on, or it is restarted by the drop
  rcases (yPosIn_cases h hEdge hBottom).2 with ⟨hNone, hY'⟩ | ⟨hDue, hLe, hY'⟩
  · refine Or.inl ⟨by rw [hY', hY], ?_⟩
    rw [hNone, if_neg (by decide), hNext]
  · refine Or.inr ⟨by rw [hY', hY]; omega, by rw [if_pos hDue]; rfl, ?_⟩
    rcases dropDue_iff.mp hDue with h50 | ⟨-, h5⟩
    · exact Or.inr (by rw [← hNext, h50]; rfl)
    · exact Or.inl (by rw [← hNext, h5]; rfl)

/-- Off a frame edge the piece waits. -/
theorem fall_idle {m : MotionRegs} {i : MotionInputs} (hReset : i.reset = false)
    (hEdge : m.frameClkRisingEdge = false) :
    (m.step i).row = m.row ∧ (m.step i).waited = m.waited := by
  rw [step_idle hReset hEdge]
  exact ⟨rfl, rfl⟩

/-! ## A fall -/

section Run

variable {s₀ : Game} {w : ℕ → Inputs}

/-- From one lock to the next, from any clock to any other: every frame edge brings
the piece nearer to a drop, and no drop comes before the fifth. -/
theorem fall_bounds (hReset : s₀.IsReset) {m n : ℕ} (hmn : m ≤ n)
    (hLow : ∀ k, m ≤ k → k < n → (w k).reset = false)
    (hNoLock : ∀ k, m ≤ k → k < n → ¬ locks s₀ w k) :
    Nat.count (frameEdge s₀ w) n + (50 * (s₀.run w m).motion.row + (s₀.run w m).motion.waited) ≤
        Nat.count (frameEdge s₀ w) m +
          (50 * (s₀.run w n).motion.row + (s₀.run w n).motion.waited) ∧
      5 * (s₀.run w n).motion.row + (s₀.run w n).motion.waited +
          Nat.count (frameEdge s₀ w) m ≤
        5 * (s₀.run w m).motion.row + (s₀.run w m).motion.waited +
          Nat.count (frameEdge s₀ w) n := by
  -- what a clock of the stretch does, a frame edge or not
  have hStep : ∀ k, m ≤ k → k < n →
      (frameEdge s₀ w k ∧
        (((s₀.run w (k + 1)).motion.row = (s₀.run w k).motion.row ∧
            (s₀.run w (k + 1)).motion.waited = (s₀.run w k).motion.waited + 1) ∨
          ((s₀.run w (k + 1)).motion.row = (s₀.run w k).motion.row + 1 ∧
            (s₀.run w (k + 1)).motion.waited = 0 ∧
            ((s₀.run w k).motion.waited + 1 = 5 ∨ (s₀.run w k).motion.waited + 1 = 50)))) ∨
      (¬ frameEdge s₀ w k ∧ (s₀.run w (k + 1)).motion.row = (s₀.run w k).motion.row ∧
        (s₀.run w (k + 1)).motion.waited = (s₀.run w k).motion.waited) := by
    intro k hk hkn
    have hBottom : (s₀.run w k).atBottom (w k) = false := by
      simpa [locks] using hNoLock k hk hkn
    by_cases hEdge : frameEdge s₀ w k
    · exact Or.inl ⟨hEdge, (gameInv_run hReset w k).grid.fall_step
        (i := (s₀.run w k).motionInputs (w k)) (hLow k hk hkn) hBottom hEdge⟩
    · exact Or.inr ⟨hEdge, fall_idle (i := (s₀.run w k).motionInputs (w k)) (hLow k hk hkn)
        (by simpa [frameEdge] using hEdge)⟩
  constructor
  · refine count_le_potential
      (fun k => 50 * (s₀.run w k).motion.row + (s₀.run w k).motion.waited) hmn ?_
    intro k hk hkn
    have hWait := (gameInv_run hReset w k).grid.counterY
    rw [show (s₀.run w k).motion.counterY.toNat = (s₀.run w k).motion.waited from rfl] at hWait
    -- a drop adds a row, which is worth 50, and takes back at most 49
    rcases hStep k hk hkn with ⟨hEdge, hFall⟩ | ⟨hEdge, hFall⟩
    · rw [if_pos hEdge]
      omega
    · rw [if_neg hEdge]
      omega
  · refine potential_le_count
      (fun k => 5 * (s₀.run w k).motion.row + (s₀.run w k).motion.waited) hmn ?_
    intro k hk hkn
    -- a drop adds 5 and takes back at least 4
    rcases hStep k hk hkn with ⟨hEdge, hFall⟩ | ⟨hEdge, hFall⟩
    · rw [if_pos hEdge]
      omega
    · rw [if_neg hEdge]
      omega

/-- Among any 1100 frame edges there is a lock: 22 rows of 50 frames each. -/
theorem lock_within (hReset : s₀.IsReset) {m n : ℕ} (hmn : m ≤ n)
    (hLow : ∀ k, m ≤ k → k < n → (w k).reset = false)
    (hEdges : Nat.count (frameEdge s₀ w) m + 1100 ≤ Nat.count (frameEdge s₀ w) n) :
    ∃ l, m ≤ l ∧ l < n ∧ locks s₀ w l := by
  by_contra hNone
  have hNoLock : ∀ k, m ≤ k → k < n → ¬ locks s₀ w k := fun k hk hkn hLock =>
    hNone ⟨k, hk, hkn, hLock⟩
  -- 22 rows of 50 and the counter are less than the frames gone by
  have hFall := (fall_bounds hReset hmn hLow hNoLock).1
  have hGrid := (gameInv_run hReset w n).grid
  have hRow := hGrid.toOnGrid.row_le
  have hWait : (s₀.run w n).motion.waited ≤ 49 := hGrid.counterY
  omega

/-- How far a piece has come: after `f` frame edges without a lock it has come down
by at least `f / 50` rows and by at most `f / 5`, whatever is pressed meanwhile. -/
theorem row_after_frames (hReset : s₀.IsReset) {m n : ℕ} (hmn : m ≤ n)
    (hLow : ∀ k, m ≤ k → k < n → (w k).reset = false)
    (hNoLock : ∀ k, m ≤ k → k < n → ¬ locks s₀ w k) (hStart : (s₀.run w m).motion.AtStart) :
    let f := Nat.count (frameEdge s₀ w) n - Nat.count (frameEdge s₀ w) m
    f / 50 ≤ (s₀.run w n).motion.row ∧ (s₀.run w n).motion.row ≤ f / 5 := by
  intro f
  have hFall := fall_bounds hReset hmn hLow hNoLock
  have hWait : (s₀.run w n).motion.waited ≤ 49 := (gameInv_run hReset w n).grid.counterY
  have hRow : (s₀.run w m).motion.row = 0 := by rw [MotionRegs.row, hStart.yPos]; rfl
  have hNone : (s₀.run w m).motion.waited = 0 := by rw [MotionRegs.waited, hStart.counterY]; rfl
  have hMono := Nat.count_monotone (frameEdge s₀ w) hmn
  rw [hRow, hNone] at hFall
  simp only [f]
  omega

/-- Under DOWN the piece comes down as fast as it can: 18 rows in 90 frames. -/
theorem row_after_frames_standing :
    let w := listed standingRun
    let f := Nat.count (frameEdge Game.initial w) 184 - Nat.count (frameEdge Game.initial w) 0
    f = 90 ∧ (Game.initial.run w 184).motion.row = 18 ∧
      f / 50 ≤ (Game.initial.run w 184).motion.row ∧
      (Game.initial.run w 184).motion.row ≤ f / 5 := by
  intro w f
  refine ⟨by decide +kernel, by decide +kernel, ?_⟩
  exact row_after_frames Game.isReset_initial (Nat.zero_le 184)
    (fun k _ _ => reset_standingRun k) (fun k _ hk => locks_standingRun.2 k (by omega))
    Game.isReset_initial.motion.toAtStart

end Run

end Ece385.Tetris

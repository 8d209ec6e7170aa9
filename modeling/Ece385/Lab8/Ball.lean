import Ece385.Lib.Bounce
import Ece385.Lib.Clocked
import Mathlib.Data.BitVec
import Mathlib.Tactic.Linarith

/-!
# Lab 8 — `ball.sv`

A ball that moves up and down by one pixel a frame. The motion is turned round on the
frame after the edge of the screen has been touched, since the position is updated with the
old motion, so the ball runs one pixel further than the tests on its position suggest: its
middle goes from line 3 to line 476, not from 4 to 475.

* `bounce` — the motion of a point between two walls.
* `OnTrack`, `OnTrack.step` — the registers on the line, and one clock.

Main results:

* `trajectory` — the registers after any number of clocks.
* `ball_shown` — the pixels of the ball: the disc of radius 4 about the point `bounce`.
-/

open Clocked Bounce

namespace Ece385.Lab8

/-- The registers of `ball`. -/
structure BallRegs where
  ballXPos : BitVec 10
  ballXMotion : BitVec 10
  ballYPos : BitVec 10
  ballYMotion : BitVec 10
  frameClkDelayed : Bool
  frameClkRisingEdge : Bool
  deriving DecidableEq

/-- The inputs that are clocked. -/
structure BallInputs where
  reset : Bool := false
  frameClk : Bool := false

def ballXCenter : BitVec 10 := 320
def ballYCenter : BitVec 10 := 240
def ballYMin : BitVec 10 := 0
def ballYMax : BitVec 10 := 479
def ballYStep : BitVec 10 := 1
def ballSize : BitVec 10 := 4

namespace BallRegs

/-- `Ball_Y_Motion_in`; the comparisons are unsigned and the sums ten bits wide. -/
def ballYMotionIn (s : BallRegs) : BitVec 10 :=
  if s.frameClkRisingEdge then
    if ballYMax ≤ s.ballYPos + ballSize then ~~~ballYStep + 1
    else if s.ballYPos ≤ ballYMin + ballSize then ballYStep
    else s.ballYMotion
  else s.ballYMotion

/-- `Ball_Y_Pos_in` -/
def ballYPosIn (s : BallRegs) : BitVec 10 :=
  if s.frameClkRisingEdge then s.ballYPos + s.ballYMotion else s.ballYPos

/-- `Ball_X_Pos_in` -/
def ballXPosIn (s : BallRegs) : BitVec 10 :=
  if s.frameClkRisingEdge then s.ballXPos + s.ballXMotion else s.ballXPos

/-- One rising edge of `Clk`. -/
def step (s : BallRegs) (i : BallInputs) : BallRegs where
  ballXPos := if i.reset then ballXCenter else s.ballXPosIn
  ballYPos := if i.reset then ballYCenter else s.ballYPosIn
  ballXMotion := if i.reset then 0 else s.ballXMotion
  ballYMotion := if i.reset then ballYStep else s.ballYMotionIn
  frameClkDelayed := i.frameClk
  frameClkRisingEdge := i.frameClk && !s.frameClkDelayed

/-- The state after `n` clocks. -/
def run (s : BallRegs) (w : ℕ → BallInputs) : ℕ → BallRegs := trace step s w

/-- `is_ball`; the distances are signed and 32 bits wide. -/
def isBall (s : BallRegs) (drawX drawY : BitVec 10) : Bool :=
  let distX := drawX.setWidth 32 - s.ballXPos.setWidth 32
  let distY := drawY.setWidth 32 - s.ballYPos.setWidth 32
  let size := ballSize.setWidth 32
  BitVec.sle (distX * distX + distY * distY) (size * size)

end BallRegs

/-! ## One clock -/

/-- The ball after `e` frames: 237 moves above the lower turning point at the start, and on
its way up. -/
structure OnTrack (s : BallRegs) (e : ℕ) : Prop where
  ballXPos : s.ballXPos = 320
  ballXMotion : s.ballXMotion = 0
  ballYPos : s.ballYPos.toNat = bounce 3 473 (237 + e)
  ballYMotion : s.ballYMotion = if Rising 473 (237 + e) then 1 else 1023

theorem onTrack_reset (s : BallRegs) {i : BallInputs} (hReset : i.reset = true) :
    OnTrack (s.step i) 0 where
  ballXPos := if_pos hReset
  ballXMotion := if_pos hReset
  ballYPos := congrArg BitVec.toNat (if_pos hReset)
  ballYMotion := if_pos hReset

/-- The position is updated with the motion before the frame. -/
theorem OnTrack.toNat_ballYPosIn {s : BallRegs} {e : ℕ} (h : OnTrack s e)
    (hEdge : s.frameClkRisingEdge = true) :
    s.ballYPosIn.toNat = bounce 3 473 (237 + (e + 1)) := by
  have hY := h.ballYPos
  have hSum : s.ballYPosIn.toNat = (s.ballYPos.toNat + s.ballYMotion.toNat) % 1024 := by
    rw [BallRegs.ballYPosIn, if_pos hEdge, BitVec.toNat_add]
  rw [hSum, ← Nat.add_assoc, bounce_succ (by decide), h.ballYMotion, hY]
  -- upwards by 1, downwards by 1023, which is -1 in ten bits
  by_cases hUp : Rising 473 (237 + e)
  · have hTop : bounce 3 473 (237 + e) < 3 + 473 := bounce_lt_of_rising hUp
    rw [if_pos hUp, if_pos hUp]
    show (_ + 1) % 1024 = _
    omega
  · have hMem : 3 ≤ bounce 3 473 (237 + e) ∧ bounce 3 473 (237 + e) ≤ 3 + 473 :=
      bounce_mem (by decide) _
    rw [if_neg hUp, if_neg hUp]
    show (_ + 1023) % 1024 = _
    omega

/-- The tests on the position come out a frame before it is at the turning point, and the
motion has turned when it is there. -/
theorem OnTrack.ballYMotionIn_eq {s : BallRegs} {e : ℕ} (h : OnTrack s e)
    (hEdge : s.frameClkRisingEdge = true) :
    s.ballYMotionIn = if Rising 473 (237 + (e + 1)) then 1 else 1023 := by
  have hMem : 3 ≤ bounce 3 473 (237 + e) ∧ bounce 3 473 (237 + e) ≤ 3 + 473 :=
    bounce_mem (by decide) _
  have hMove : bounce 3 473 (237 + e + 1) = _ := bounce_succ (by decide) _
  have hTurn : Rising 473 (237 + e + 1) ↔ bounce 3 473 (237 + e + 1) = 3 ∨
      (Rising 473 (237 + e) ∧ bounce 3 473 (237 + e + 1) ≠ 3 + 473) :=
    rising_succ_iff (by decide) _
  have hSum : (s.ballYPos + ballSize).toNat = s.ballYPos.toNat + 4 := by
    rw [BitVec.toNat_add, h.ballYPos]
    exact Nat.mod_eq_of_lt (show bounce 3 473 (237 + e) + 4 < 1024 by omega)
  have hBottom : ballYMax ≤ s.ballYPos + ballSize ↔ 475 ≤ bounce 3 473 (237 + e) := by
    rw [BitVec.le_def, hSum, h.ballYPos]
    exact Nat.add_le_add_iff_right (n := 4) (m := 475)
  have hTop : s.ballYPos ≤ ballYMin + ballSize ↔ bounce 3 473 (237 + e) ≤ 4 := by
    rw [BitVec.le_def, h.ballYPos]
    rfl
  rw [BallRegs.ballYMotionIn, if_pos hEdge, h.ballYMotion, ← Nat.add_assoc, if_congr hBottom rfl
    (if_congr hTop rfl rfl)]
  -- on its way up only the test at the bottom can come out, and vice versa
  by_cases hUp : Rising 473 (237 + e)
  · have hBelow : bounce 3 473 (237 + e) < 3 + 473 := bounce_lt_of_rising hUp
    rw [if_pos hUp] at hMove ⊢
    by_cases hLow : 475 ≤ bounce 3 473 (237 + e)
    · rw [if_pos hLow, if_neg (by rw [hTurn]; omega)]
      rfl
    · rw [if_neg hLow, if_pos (hTurn.mpr (Or.inr ⟨hUp, by omega⟩))]
      exact ite_self _
  · have hAbove : 3 < bounce 3 473 (237 + e) := lt_bounce_of_not_rising (by decide) hUp
    rw [if_neg hUp] at hMove ⊢
    by_cases hHigh : bounce 3 473 (237 + e) ≤ 4
    · rw [if_neg (by omega), if_pos hHigh, if_pos (hTurn.mpr (Or.inl (by omega)))]
      rfl
    · have hDown : ¬ Rising 473 (237 + e + 1) := fun hRise => by
        rcases hTurn.mp hRise with hFloor | ⟨hStill, -⟩
        · omega
        · exact hUp hStill
      rw [if_neg hHigh, if_neg hDown]
      exact ite_self _

/-- A clock takes the ball on if an edge of `frame_clk` has been registered. -/
theorem OnTrack.step {s : BallRegs} {e : ℕ} (h : OnTrack s e) {i : BallInputs}
    (hReset : i.reset = false) :
    OnTrack (s.step i) (e + if s.frameClkRisingEdge then 1 else 0) := by
  have hLow : ¬ i.reset = true := by rw [hReset]; decide
  cases hEdge : s.frameClkRisingEdge with
  | true =>
    refine ⟨?_, (if_neg hLow).trans h.ballXMotion, ?_, ?_⟩
    · refine (if_neg hLow).trans ?_
      rw [BallRegs.ballXPosIn, if_pos hEdge, h.ballXMotion, h.ballXPos]
      rfl
    · exact (congrArg BitVec.toNat (if_neg hLow)).trans (h.toNat_ballYPosIn hEdge)
    · exact (if_neg hLow).trans (h.ballYMotionIn_eq hEdge)
  | false =>
    have hNone : ¬ s.frameClkRisingEdge = true := by rw [hEdge]; decide
    exact
      { ballXPos := ((if_neg hLow).trans (if_neg hNone)).trans h.ballXPos
        ballXMotion := (if_neg hLow).trans h.ballXMotion
        ballYPos := (congrArg BitVec.toNat ((if_neg hLow).trans (if_neg hNone))).trans h.ballYPos
        ballYMotion := ((if_neg hLow).trans (if_neg hNone)).trans h.ballYMotion }

/-! ## The ball on the screen -/

/-- The frames the ball has moved in before clock `n`, the first clock being a reset. -/
def frames (s : BallRegs) (w : ℕ → BallInputs) (n : ℕ) : ℕ :=
  Nat.count (fun k => 0 < k ∧ (s.run w k).frameClkRisingEdge = true) n

/-- Where the ball is at any clock after a reset, for every waveform of `frame_clk`. -/
theorem trajectory (s : BallRegs) {w : ℕ → BallInputs} (hReset : (w 0).reset = true)
    (hLow : ∀ n, 0 < n → (w n).reset = false) {n : ℕ} (hn : 0 < n) :
    OnTrack (s.run w n) (frames s w n) := by
  induction n, hn using Nat.le_induction with
  | base =>
    have hNone : frames s w 1 = 0 := by
      rw [frames, Nat.count_succ, Nat.count_zero, if_neg fun h => absurd h.1 (by decide)]
    rw [hNone]
    exact onTrack_reset s hReset
  | succ n hn ih =>
    have hCount : frames s w (n + 1) =
        frames s w n + if (s.run w n).frameClkRisingEdge then 1 else 0 := by
      rw [frames, Nat.count_succ, frames]
      simp only [show 0 < n from hn, true_and]
    rw [hCount]
    exact ih.step (hLow n hn)

/-- A distance on the screen, as an `int`. -/
theorem toInt_dist (a b : BitVec 10) :
    (a.setWidth 32 - b.setWidth 32).toInt = (a.toNat : ℤ) - b.toNat := by
  have hWide : ∀ c : BitVec 10, (c.setWidth 32).toInt = c.toNat := fun c => by
    have hc := c.isLt
    have hSame : (c.setWidth 32).toNat = c.toNat := BitVec.toNat_setWidth_of_le (by decide)
    rw [BitVec.toInt_eq_toNat_of_lt (by rw [hSame]; omega), hSame]
  have ha := a.isLt
  have hb := b.isLt
  rw [BitVec.toInt_sub, hWide, hWide]
  exact Int.bmod_eq_of_le_mul_two (by omega) (by omega)

/-- The square of a distance. -/
theorem toInt_square (a b : BitVec 10) :
    ((a.setWidth 32 - b.setWidth 32) * (a.setWidth 32 - b.setWidth 32)).toInt =
        ((a.toNat : ℤ) - b.toNat) ^ 2 ∧
      0 ≤ ((a.toNat : ℤ) - b.toNat) ^ 2 ∧ ((a.toNat : ℤ) - b.toNat) ^ 2 ≤ 1023 * 1023 := by
  have ha := a.isLt
  have hb := b.isLt
  -- two such squares are far below 2^31
  have hMost : ((a.toNat : ℤ) - b.toNat) ^ 2 ≤ 1023 * 1023 := by nlinarith
  have hLeast := sq_nonneg ((a.toNat : ℤ) - b.toNat)
  refine ⟨?_, hLeast, hMost⟩
  rw [BitVec.toInt_mul, toInt_dist, ← pow_two]
  exact Int.bmod_eq_of_le_mul_two (by omega) (by omega)

/-- `is_ball` compares true distances: nothing overflows. -/
theorem isBall_iff (s : BallRegs) (drawX drawY : BitVec 10) :
    s.isBall drawX drawY = true ↔
      ((drawX.toNat : ℤ) - s.ballXPos.toNat) ^ 2 + ((drawY.toNat : ℤ) - s.ballYPos.toNat) ^ 2 ≤
        4 ^ 2 := by
  obtain ⟨hX, hX₀, hX₁⟩ := toInt_square drawX s.ballXPos
  obtain ⟨hY, hY₀, hY₁⟩ := toInt_square drawY s.ballYPos
  rw [BallRegs.isBall, BitVec.sle_iff_toInt_le, BitVec.toInt_add, hX, hY,
    Int.bmod_eq_of_le_mul_two (by omega) (by omega)]
  rfl

/-- After a reset the ball is a disc that goes up and down between lines 3 and 476 for
ever, one line a frame, for every waveform of `frame_clk`; its middle is never on a line
less than 3, so one row of it leaves the screen on each side. -/
theorem ball_shown (s : BallRegs) {w : ℕ → BallInputs} (hReset : (w 0).reset = true)
    (hLow : ∀ n, 0 < n → (w n).reset = false) {n : ℕ} (hn : 0 < n) :
    let y := bounce 3 473 (237 + frames s w n)
    (3 ≤ y ∧ y ≤ 476) ∧
      ∀ drawX drawY : BitVec 10, (s.run w n).isBall drawX drawY = true ↔
        ((drawX.toNat : ℤ) - 320) ^ 2 + ((drawY.toNat : ℤ) - y) ^ 2 ≤ 4 ^ 2 := by
  intro y
  have hTrack := trajectory s hReset hLow hn
  refine ⟨bounce_mem (by decide) _, fun drawX drawY => ?_⟩
  rw [isBall_iff, hTrack.ballXPos, hTrack.ballYPos]
  rfl

/-- A reset, and a frame every other clock. -/
def everyOther (n : ℕ) : BallInputs where
  reset := decide (n = 0)
  frameClk := decide (n % 2 = 1)

theorem ball_shown_everyOther :
    let s : BallRegs := ⟨0, 0, 0, 0, true, true⟩
    let y := bounce 3 473 (237 + frames s everyOther 1000)
    (3 ≤ y ∧ y ≤ 476) ∧
      ∀ drawX drawY : BitVec 10, (s.run everyOther 1000).isBall drawX drawY = true ↔
        ((drawX.toNat : ℤ) - 320) ^ 2 + ((drawY.toNat : ℤ) - y) ^ 2 ≤ 4 ^ 2 :=
  ball_shown _ rfl (fun _ hn => decide_eq_false (Nat.ne_of_gt hn)) (by decide)

end Ece385.Lab8

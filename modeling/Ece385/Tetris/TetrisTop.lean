import Ece385.Tetris.ColorMapper
import Ece385.Tetris.Lfsr
import Ece385.Tetris.Reception
import Ece385.Tetris.ResetClock
import Ece385.Tetris.VgaController

/-!
# Tetris — `tetris_top.sv`

Everything on the board: the reset register, the keyboard receiver, the VGA
controller, the LFSR, the game and the output registers of the sprite ROMs.
`CLOCK_50` runs all of them but the VGA controller, whose clock comes from the PLL
`vga_clk`; which edges of `CLOCK_50` come with one of `VGA_CLK` is an input here,
as the PLL is no code of this repository. So is what the sprite files hold.

* `TetrisTop.step` — one rising edge of `CLOCK_50`.
* `game_run`, `lfsr_run`, `vga_run` — the components, each on its own inputs.
* `started_of_restart` — `KEY[0]` held for 24 clocks starts the system, whatever
  its registers held.
-/

open Clocked RowStack

namespace Ece385.Tetris

/-- What comes in with one rising edge of `CLOCK_50`. Of `KEY` only bit 0 is used. -/
structure TopInputs where
  key : BitVec 4 := 0xF
  ps2Clk : Bool := true
  ps2Dat : Bool := true
  vgaClk : Bool := false
  undefinedRead : UndefinedRead := fun _ _ => 0

/-- The registers of the whole design. -/
structure TetrisTop where
  resetH : Bool
  keyboard : Receiver
  vga : VgaRegs
  lfsrOut : BitVec 8
  game : Game
  romData : Rom → BitVec 4

namespace TetrisTop

/-- `PS2_CLK` and `PS2_DAT` at the keyboard, with `Reset_h`. -/
def lineSample (s : TetrisTop) (i : TopInputs) : LineSample where
  reset := s.resetH
  psClk := i.ps2Clk
  psData := i.ps2Dat

/-- The inputs of the game: `frame_clk` is `VGA_VS`. -/
def gameInputs (s : TetrisTop) (i : TopInputs) : Inputs where
  reset := s.resetH
  frameClk := s.vga.vgaVs
  keycode := s.keyboard.keyCode
  keypress := s.keyboard.press
  lfsrOut := s.lfsrOut
  undefinedRead := i.undefinedRead

/-- The inputs of `color_mapper`. -/
def mapperInputs (s : TetrisTop) (i : TopInputs) : MapperInputs :=
  s.game.mapperInputs s.vga.hCounter s.vga.vCounter s.romData i.undefinedRead

/-- One rising edge of `CLOCK_50`; `contents` is what `$readmemh` put into the ROMs. -/
def step (contents : Rom → ℕ → BitVec 4) (s : TetrisTop) (i : TopInputs) : TetrisTop where
  -- "The push buttons are active low"
  resetH := !i.key.getLsbD 0
  keyboard := s.keyboard.step (s.lineSample i)
  vga := if i.vgaClk then s.vga.step s.resetH else s.vga
  lfsrOut := lfsrStep s.lfsrOut s.resetH
  game := s.game.step (s.gameInputs i)
  romData := fun r => contents r (s.mapperInputs i).address.toNat

end TetrisTop

section Run

variable {contents : Rom → ℕ → BitVec 4} {s : TetrisTop} {w : ℕ → TopInputs}

/-- The design after `n` clocks. -/
abbrev TetrisTop.run (contents : Rom → ℕ → BitVec 4) (s : TetrisTop) (w : ℕ → TopInputs)
    (n : ℕ) : TetrisTop := trace (TetrisTop.step contents) s w n

namespace TetrisTop

/-! ## The components -/

/-- What the game samples along a run. -/
def gameWave (contents : Rom → ℕ → BitVec 4) (s : TetrisTop) (w : ℕ → TopInputs) (n : ℕ) :
    Inputs := (s.run contents w n).gameInputs (w n)

theorem game_run (n : ℕ) :
    (s.run contents w n).game = s.game.run (s.gameWave contents w) n :=
  trace_component TetrisTop.game gameInputs (fun _ _ => rfl) s w n

theorem lfsr_run (n : ℕ) :
    (s.run contents w n).lfsrOut =
      trace lfsrStep s.lfsrOut (fun k => (s.run contents w k).resetH) n :=
  trace_component TetrisTop.lfsrOut (fun s _ => s.resetH) (fun _ _ => rfl) s w n

/-- Rising edges of `VGA_CLK` among the first `n` clocks. -/
def ticks (w : ℕ → TopInputs) (n : ℕ) : ℕ := Nat.count (fun k => (w k).vgaClk = true) n

/-- While `Reset_h` is low, the VGA controller has run on the edges of its own clock. -/
theorem vga_run (hLow : ∀ k, (s.run contents w k).resetH = false) (n : ℕ) :
    (s.run contents w n).vga = s.vga.run (ticks w n) := by
  have hEnabled : (s.run contents w n).vga = trace (enabledStep VgaRegs.step) s.vga
      (fun k => ((w k).vgaClk, (s.run contents w k).resetH)) n :=
    trace_component TetrisTop.vga (fun s i => (i.vgaClk, s.resetH)) (fun _ _ => rfl) s w n
  rw [hEnabled, trace_enabled]
  congr 1
  funext k
  exact hLow _

/-! ## Starting -/

/-- The design as `Reset_h` leaves it, at the moment it goes low. -/
structure Started (s : TetrisTop) : Prop where
  resetH : s.resetH = false
  keyboard : s.keyboard.Restarted
  vga : s.vga = VgaRegs.cleared
  lfsrOut : s.lfsrOut = 0xff
  game : s.game.IsReset
  edge : s.game.motion.frameClkRisingEdge = false

/-- `KEY[0]` held for `r` clocks and let go, with a tick of `VGA_CLK` while
`Reset_h` is high. -/
structure Restart (w : ℕ → TopInputs) (r : ℕ) : Prop where
  long : 24 ≤ r
  pressed : ∀ n < r, (w n).key.getLsbD 0 = false
  released : (w r).key.getLsbD 0 = true
  ticks : ∃ n, 0 < n ∧ n ≤ r ∧ (w n).vgaClk = true

/-- The reset register follows the button one clock behind. -/
theorem resetH_run (n : ℕ) : (s.run contents w (n + 1)).resetH = !(w n).key.getLsbD 0 := rfl

theorem Restart.resetH {r : ℕ} (h : Restart w r) {n : ℕ} (hPos : 0 < n) (hn : n ≤ r) :
    (s.run contents w n).resetH = true := by
  obtain ⟨n, rfl⟩ := Nat.exists_eq_succ_of_ne_zero hPos.ne'
  rw [Nat.succ_eq_add_one, resetH_run, h.pressed n (by omega)]
  rfl

/-- Each clock of a reset empties the board or takes a full row out of it. -/
theorem cells_reset (contents : Rom → ℕ → BitVec 4) (i : TopInputs) (hReset : s.resetH = true) :
    ((s.step contents i).game.cells.board = 0 ∧ (s.step contents i).game.cells.score = 0) ∨
      fullRows (s.step contents i).game.cells.board + 1 = fullRows s.game.cells.board := by
  have hStep : (s.step contents i).game = s.game.resetStep (s.game.resetPorts (s.gameInputs i)) :=
    Game.step_eq_resetStep _ _ hReset
  rw [hStep]
  cases hClear : lineClear s.game.cells.board with
  | none => rw [cells_resetStep_of_none hClear]; exact Or.inl ⟨rfl, rfl⟩
  | some b' =>
    obtain ⟨j, -, hLow, rfl⟩ := lineClear_eq_some_lowest hClear
    rw [cells_resetStep_of_some hClear]
    exact Or.inr (fullRows_removeRow hLow.full)

/-- An empty board stays empty. -/
theorem cells_reset_zero {i : TopInputs} (hReset : s.resetH = true)
    (hBoard : s.game.cells.board = 0) :
    (s.step contents i).game.cells.board = 0 ∧ (s.step contents i).game.cells.score = 0 := by
  have hStep : (s.step contents i).game = s.game.resetStep (s.game.resetPorts (s.gameInputs i)) :=
    Game.step_eq_resetStep _ _ hReset
  rw [hStep, cells_resetStep_of_none (by rw [hBoard]; exact lineClear_zero)]
  exact ⟨rfl, rfl⟩

/-- There are 22 rows, so 23 clocks empty any board. -/
theorem Restart.board {r : ℕ} (h : Restart w r) {n : ℕ} (hn : n ≤ r) (hLate : 23 ≤ n) :
    (s.run contents w (n + 1)).game.cells.board = 0 := by
  -- a clock that does not empty the board has taken a full row out, and there are 22
  have hAll : ∀ k ≤ r, (s.run contents w (k + 1)).game.cells.board = 0 ∨
      fullRows (s.run contents w (k + 1)).game.cells.board + k ≤ 22 := by
    intro k
    induction k with
    | zero => exact fun _ => Or.inr (fullRows_le _)
    | succ k ih =>
      intro hk
      have hReset : (s.run contents w (k + 1)).resetH = true := h.resetH (by omega) hk
      have hStep : s.run contents w (k + 2) =
          (s.run contents w (k + 1)).step contents (w (k + 1)) := trace_succ _ _ _ _
      rw [hStep]
      rcases ih (by omega) with hZero | hLess
      · exact Or.inl (cells_reset_zero hReset hZero).1
      · rcases cells_reset contents (w (k + 1)) hReset with hEmpty | hTaken
        · exact Or.inl hEmpty.1
        · exact Or.inr (by omega)
  rcases hAll n hn with hZero | hLess
  · exact hZero
  · omega

/-- Once the VGA controller has ticked under reset it stays cleared. -/
theorem Restart.vga {r : ℕ} (h : Restart w r) : (s.run contents w (r + 1)).vga = .cleared := by
  obtain ⟨n, hPos, hn, hTick⟩ := h.ticks
  have hStep : ∀ k, 0 < k → k ≤ r → (s.run contents w (k + 1)).vga =
      if (w k).vgaClk then .cleared else (s.run contents w k).vga := fun k hk hkr => by
    rw [run, trace_succ, step, h.resetH hk hkr]
    rfl
  -- from the tick on nothing but a clear happens to it
  have hLater : ∀ k, n + 1 ≤ k → k ≤ r + 1 → (s.run contents w k).vga = .cleared := by
    intro k hk
    induction k, hk using Nat.le_induction with
    | base => exact fun _ => by rw [hStep n hPos hn, if_pos hTick]
    | succ k hk ih =>
      exact fun hkr => by rw [hStep k (by omega) (by omega), ih (by omega), ite_self]
  exact hLater (r + 1) (by omega) le_rfl

/-- Under reset `VGA_VS` only falls, so the game is left with no frame edge. -/
theorem Restart.edge {r : ℕ} (h : Restart w r) :
    (s.run contents w (r + 1)).game.motion.frameClkRisingEdge = false := by
  obtain ⟨k, rfl⟩ := Nat.exists_eq_add_of_le' (show 2 ≤ r from le_trans (by decide) h.long)
  have hReset : (s.run contents w (k + 1)).resetH = true := h.resetH (by omega) (by omega)
  have hSeen : (s.run contents w (k + 2)).game.motion.frameClkDelayed =
      (s.run contents w (k + 1)).vga.vgaVs := Game.frameClkDelayed_step
  -- a tick under reset clears `VGA_VS`, and no other clock moves it
  have hFalls : (s.run contents w (k + 2)).vga.vgaVs =
      if (w (k + 1)).vgaClk then false else (s.run contents w (k + 1)).vga.vgaVs := by
    rw [run, trace_succ, step, hReset]
    split_ifs <;> rfl
  have hEdge : (s.run contents w (k + 3)).game.motion.frameClkRisingEdge =
      ((s.run contents w (k + 2)).vga.vgaVs &&
        !(s.run contents w (k + 2)).game.motion.frameClkDelayed) :=
    Game.frameClkRisingEdge_step
  rw [hEdge, hSeen, hFalls]
  split_ifs <;> simp

/-- From any register contents, 24 clocks of `KEY[0]` start the system. -/
theorem started_of_restart (s : TetrisTop) {r : ℕ} (h : Restart w r) :
    (s.run contents w (r + 1)).Started := by
  have hLong := h.long
  have hReset : (s.run contents w r).resetH = true := h.resetH (by omega) le_rfl
  have hEmpty : lineClear (s.run contents w r).game.cells.board = none := by
    obtain ⟨k, rfl⟩ := Nat.exists_eq_succ_of_ne_zero (show r ≠ 0 by omega)
    rw [Nat.succ_eq_add_one, h.board (by omega) (by omega)]
    exact lineClear_zero
  exact
    { resetH := by rw [resetH_run, h.released]; rfl
      keyboard := Receiver.restarted_step _ hReset
      vga := h.vga
      lfsrOut := by rw [run, trace_succ, step, hReset]; rfl
      game := Game.isReset_step _ _ hReset hEmpty
      edge := h.edge }

end TetrisTop

end Run

/-- The board switched on: every register as `Game.initial`, the VGA controller not reset. -/
def TetrisTop.initial : TetrisTop where
  resetH := false
  keyboard := Receiver.powerUp
  vga := VgaRegs.cleared
  lfsrOut := 0
  game := Game.initial
  romData := fun _ => 0

/-- `KEY[0]` held for 24 clocks, `VGA_CLK` at half the rate of `CLOCK_50`. -/
def heldReset (n : ℕ) : TopInputs where
  key := if n < 24 then 0 else 0xF
  vgaClk := decide (n % 2 = 0)

theorem TetrisTop.started_of_restart_held :
    Restart heldReset 24 ∧ (initial.run (fun _ _ => 0) heldReset 25).Started := by
  have hRestart : Restart heldReset 24 :=
    { long := le_rfl
      pressed := fun n hn => by
        rw [heldReset, if_pos hn]
        exact BitVec.getLsbD_zero
      released := rfl
      ticks := ⟨2, by decide, by decide, rfl⟩ }
  exact ⟨hRestart, started_of_restart initial hRestart⟩

end Ece385.Tetris

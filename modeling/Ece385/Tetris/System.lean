import Ece385.Tetris.Conservation
import Ece385.Tetris.Gravity
import Ece385.Tetris.TetrisTop

/-!
# Tetris — the system between two resets

From the moment `Reset_h` goes low the VGA controller counts the ticks of its own
clock, and through `VGA_VS` it alone decides when the game has a frame edge: at its
first tick and then 420000 ticks apart. What the game needs of its frame clock is
therefore true of the system, whatever the PLL, the button and the line do.

* `frameEdge_iff` — the frame edges in ticks of `VGA_CLK`.
* `frames_spaced` — no two of them within 393599 clocks.
* `edgeClock` — where the frame edges are when `VGA_CLK` has half the rate of `CLOCK_50`.
* `picture_step` — off the frame edges and the 22 clocks after each of them, the
  picture does not change.

Main results:

* `Started.locks_forever` — the system never stops locking pieces.
* `Started.rows_counted` — locks, line clears and score of the complete system.
* `Started.picture_stable` — while lines 0 to 489 are drawn the picture stands still.
-/

open Clocked Odometer RowStack

namespace Ece385.Tetris

/-! ## The picture -/

/-- What `color_mapper` draws, but for the orientation of the piece. -/
structure Picture where
  blockXPos : BitVec 10
  blockYPos : BitVec 10
  blockSel : BitVec 3
  cells : BoardRegs

def Game.picture (g : Game) : Picture where
  blockXPos := g.motion.blockXPos
  blockYPos := g.motion.blockYPos
  blockSel := g.chooser.blockSel
  cells := g.cells

/-- With the last frame edge more than 22 clocks ago nothing in the picture moves. -/
theorem picture_step {s₀ : Game} {w : ℕ → Inputs} (hReset : s₀.IsReset)
    (hLow : ∀ n, (w n).reset = false) {n : ℕ} (hPos : 0 < n)
    (hQuiet : ∀ t, t ≤ n → n ≤ t + 22 → ¬ frameEdge s₀ w t) :
    (s₀.run w (n + 1)).picture = (s₀.run w n).picture := by
  have hIdle : (s₀.run w n).motion.frameClkRisingEdge = false := by
    simpa [frameEdge] using hQuiet n le_rfl (by omega)
  have hNoLock : (s₀.run w n).atBottom (w n) = false := atBottom_idle hIdle
  -- rows still to be removed would go back to a lock within 22 clocks
  have hNone : (s₀.run w n).removesRow = false := by
    by_contra hRemoves
    rw [Bool.not_eq_false] at hRemoves
    obtain ⟨t, hlt, hLock, hTop⟩ := rowsPending hReset hLow n hRemoves
    obtain ⟨r, hFull, -⟩ := Game.exists_removed hRemoves
    have hRow := hTop.le_of_full hFull
    exact hQuiet t hlt.le (by omega) (Game.edge_of_atBottom hLock)
  have hKept : (s₀.run w n).loads (w n) = false := by
    by_contra hLoads
    rw [Bool.not_eq_false] at hLoads
    rcases (loadsAt_iff hReset hLow n).mp hLoads with rfl | ⟨l, rfl, hLock⟩
    · exact Nat.lt_irrefl 0 hPos
    · exact hQuiet l (by omega) (by omega) (Game.edge_of_atBottom hLock)
  have hCells := Game.cells_step_same (not_removesRow_iff.mp hNone) (hLow n) hNoLock
  have hMotion : ((s₀.run w n).step (w n)).motion =
      (s₀.run w n).motion.sampleFrameClk (w n).frameClk := step_idle (hLow n) hIdle
  have hSel : ((s₀.run w n).step (w n)).chooser.blockSel = (s₀.run w n).chooser.blockSel := by
    rw [Game.blockSel_step, hKept]
    rfl
  rw [Game.run, trace_succ, Game.picture, hCells, hMotion, hSel]
  rfl

/-! ## The system -/

/-- `KEY[0]` is not touched. -/
def KeyUp (w : ℕ → TopInputs) : Prop := ∀ n, (w n).key.getLsbD 0 = true

/-- The moment a reset ends. -/
def TetrisTop.fresh : TetrisTop where
  resetH := false
  keyboard := { Receiver.powerUp with enable := true }
  vga := VgaRegs.cleared
  lfsrOut := 0xff
  game := Game.initial
  romData := fun _ => 0

theorem TetrisTop.started_fresh : fresh.Started where
  resetH := rfl
  keyboard := ⟨⟨rfl, rfl⟩, ⟨rfl, rfl, rfl⟩, rfl⟩
  vga := rfl
  lfsrOut := rfl
  game := Game.isReset_initial
  edge := rfl

/-- Nothing pressed and nothing typed, `VGA_CLK` at half the rate of `CLOCK_50`. -/
def untouched (n : ℕ) : TopInputs where
  vgaClk := decide (n % 2 = 0)

theorem keyUp_of_key {w : ℕ → TopInputs} (h : ∀ n, (w n).key = 0xF) : KeyUp w := fun n => by
  rw [h n]
  decide

theorem keyUp_untouched : KeyUp untouched := keyUp_of_key fun _ => rfl

/-- `vga_clk` divides its clock by 2; which of the two clocks gets the tick is left open. -/
structure Halved (w : ℕ → TopInputs) (phase : ℕ) : Prop where
  phase_lt : phase < 2
  vgaClk : ∀ n, (w n).vgaClk = decide (n % 2 = phase)

namespace TetrisTop

variable {contents : Rom → ℕ → BitVec 4} {s : TetrisTop} {w : ℕ → TopInputs} {phase : ℕ}

theorem halved_untouched : Halved untouched 0 where
  phase_lt := by decide
  vgaClk := fun _ => rfl

/-! ## The components after a start -/

theorem Started.low (h : s.Started) (hUp : KeyUp w) (n : ℕ) :
    (s.run contents w n).resetH = false := by
  cases n with
  | zero => exact h.resetH
  | succ n => rw [resetH_run, hUp n]; rfl

theorem Started.gameLow (h : s.Started) (hUp : KeyUp w) (n : ℕ) :
    (s.gameWave contents w n).reset = false := h.low hUp n

theorem Started.vga_eq (h : s.Started) (hUp : KeyUp w) (n : ℕ) :
    (s.run contents w n).vga = VgaRegs.cleared.run (ticks w n) := by
  rw [vga_run (h.low hUp), h.vga]

theorem Started.lfsr_eq (h : s.Started) (hUp : KeyUp w) (n : ℕ) :
    (s.run contents w n).lfsrOut = lfsrRun 0xff n := by
  rw [lfsr_run, h.lfsrOut]
  congr 1
  funext k
  exact h.low hUp k

theorem gameWave_frameClk (n : ℕ) :
    (s.gameWave contents w n).frameClk = (s.run contents w n).vga.vgaVs := rfl

/-! ## The frame edges -/

theorem ticks_succ_of (h : (w n).vgaClk = true) : ticks w (n + 1) = ticks w n + 1 :=
  count_succ_of _ h

theorem ticks_succ_of_not (h : (w n).vgaClk = false) : ticks w (n + 1) = ticks w n :=
  count_succ_of_not _ (by rw [h]; decide)

theorem ticks_mono {m n : ℕ} (h : m ≤ n) : ticks w m ≤ ticks w n := Nat.count_monotone _ h

/-- There is at most one tick in a clock. -/
theorem ticks_le {m n : ℕ} (h : m ≤ n) : ticks w n ≤ ticks w m + (n - m) := by
  induction n, h using Nat.le_induction with
  | base => omega
  | succ n hmn ih =>
    cases hTick : (w n).vgaClk with
    | true => rw [ticks_succ_of hTick]; omega
    | false => rw [ticks_succ_of_not hTick]; omega

/-- There is no frame edge on the first two clocks. -/
theorem Started.not_frameEdge (h : s.Started) {n : ℕ} (hn : n < 2) :
    ¬ frameEdge s.game (s.gameWave contents w) n := by
  obtain rfl | rfl : n = 0 ∨ n = 1 := by omega
  · rw [frameEdge, Game.run, trace_zero, h.edge]
    decide
  · rw [frameEdge, Game.run, trace_succ, Game.frameClkRisingEdge_step, gameWave_frameClk,
      run, trace_zero, h.vga]
    exact Bool.false_ne_true

/-- The detector reports at clock `n + 2` what `VGA_VS` did at clock `n`. -/
theorem frameEdge_vs (n : ℕ) :
    frameEdge s.game (s.gameWave contents w) (n + 2) ↔
      (s.run contents w n).vga.vgaVs = false ∧
        (s.run contents w (n + 1)).vga.vgaVs = true := by
  have hSeen : (s.game.run (s.gameWave contents w) (n + 1)).motion.frameClkDelayed =
      (s.run contents w n).vga.vgaVs := Game.frameClkDelayed_step
  rw [frameEdge, Game.run, trace_succ, Game.frameClkRisingEdge_step, hSeen, gameWave_frameClk,
    Bool.and_eq_true, Bool.not_eq_true', and_comm]

/-- The frame edges in ticks of `VGA_CLK`. -/
theorem Started.frameEdge_iff (h : s.Started) (hUp : KeyUp w) (n : ℕ) :
    frameEdge s.game (s.gameWave contents w) (n + 2) ↔
      (w n).vgaClk = true ∧ (ticks w n = 0 ∨ (ticks w n + 1) % 420000 = 393600) := by
  rw [frameEdge_vs, h.vga_eq hUp, h.vga_eq hUp]
  cases hTick : (w n).vgaClk with
  | true => rw [ticks_succ_of hTick, VgaRegs.vgaVs_rises_iff, eq_self_iff_true, true_and]
  | false =>
    rw [ticks_succ_of_not hTick]
    simp

/-- Frame edges of the system are far apart. -/
theorem Started.frames_spaced (h : s.Started) (hUp : KeyUp w) :
    Spaced 393599 (frameEdge s.game (s.gameWave contents w)) := by
  intro m n hlt hm hn
  have hSmall : ∀ k, frameEdge s.game (s.gameWave contents w) k → 2 ≤ k := fun k hk => by
    by_contra hEarly
    exact h.not_frameEdge (by omega) hk
  obtain ⟨m, rfl⟩ := Nat.exists_eq_add_of_le' (hSmall m hm)
  obtain ⟨n, rfl⟩ := Nat.exists_eq_add_of_le' (hSmall n hn)
  obtain ⟨hTick, hAt⟩ := (h.frameEdge_iff hUp m).mp hm
  obtain ⟨-, hAt'⟩ := (h.frameEdge_iff hUp n).mp hn
  -- the later edge is at a later tick, so in another frame
  have hNext := ticks_succ_of hTick
  have hLater := ticks_mono (w := w) (show m + 1 ≤ n by omega)
  have hApart := ticks_le (w := w) (show m ≤ n by omega)
  omega

/-! ## The clock of a frame -/

theorem ticks_halved (h : Halved w phase) (n : ℕ) : ticks w n = (n + 1 - phase) / 2 := by
  have hPhase := h.phase_lt
  induction n with
  | zero =>
    rw [ticks, Nat.count_zero]
    omega
  | succ n ih =>
    by_cases hTick : n % 2 = phase
    · rw [ticks_succ_of (by rw [h.vgaClk, decide_eq_true hTick]), ih]
      omega
    · rw [ticks_succ_of_not (by rw [h.vgaClk, decide_eq_false hTick]), ih]
      omega

/-- The clock on which the game sees the frame edge of frame `f`, the frames counted
from the first full one. -/
def edgeClock (phase f : ℕ) : ℕ := 840000 * f + 787200 + phase

/-- After the frame edge right after the start, all of them are on such a clock. -/
theorem Started.edge_clock (h : s.Started) (hUp : KeyUp w) (hHalved : Halved w phase) {n : ℕ}
    (hn : 4 ≤ n) (hEdge : frameEdge s.game (s.gameWave contents w) n) :
    ∃ f, n = edgeClock phase f := by
  have hPhase := hHalved.phase_lt
  obtain ⟨m, rfl⟩ := Nat.exists_eq_add_of_le' (show 2 ≤ n by omega)
  obtain ⟨hTick, hAt⟩ := (h.frameEdge_iff hUp m).mp hEdge
  rw [hHalved.vgaClk, decide_eq_true_eq] at hTick
  rw [ticks_halved hHalved] at hAt
  refine ⟨(m + 2 - 787200) / 840000, ?_⟩
  rw [edgeClock]
  omega

/-- Every frame has its frame edge. -/
theorem Started.frameEdge_edgeClock (h : s.Started) (hUp : KeyUp w) (hHalved : Halved w phase)
    (f : ℕ) : frameEdge s.game (s.gameWave contents w) (edgeClock phase f) := by
  have hPhase := hHalved.phase_lt
  rw [show edgeClock phase f = 840000 * f + 787198 + phase + 2 by unfold edgeClock; omega,
    h.frameEdge_iff hUp, hHalved.vgaClk, ticks_halved hHalved, decide_eq_true_eq]
  omega

theorem Started.count_edges (h : s.Started) (hUp : KeyUp w) (hHalved : Halved w phase)
    (f k : ℕ) :
    Nat.count (frameEdge s.game (s.gameWave contents w)) (edgeClock phase f) + k ≤
      Nat.count (frameEdge s.game (s.gameWave contents w)) (edgeClock phase (f + k)) := by
  induction k with
  | zero => rw [Nat.add_zero, Nat.add_zero]
  | succ k ih =>
    have hEdge : frameEdge s.game (s.gameWave contents w) (edgeClock phase (f + k)) :=
      h.frameEdge_edgeClock hUp hHalved (f + k)
    have hNow := count_succ_of _ hEdge
    have hLater : edgeClock phase (f + k) + 1 ≤ edgeClock phase (f + (k + 1)) := by
      unfold edgeClock; omega
    have hMono := Nat.count_monotone (frameEdge s.game (s.gameWave contents w)) hLater
    omega

/-- Between the edges of frames `f` and `f + 1100` a piece locks. -/
theorem Started.exists_lock (h : s.Started) (contents : Rom → ℕ → BitVec 4) (hUp : KeyUp w)
    (hHalved : Halved w phase) (f : ℕ) :
    ∃ l, edgeClock phase f ≤ l ∧ l < edgeClock phase (f + 1100) ∧
      locks s.game (s.gameWave contents w) l :=
  lock_within h.game (by unfold edgeClock; omega) (fun k _ _ => h.gameLow hUp k)
    (h.count_edges hUp hHalved f 1100)

/-- The system never stops: whatever is typed, and however high the stack, at any time
another piece locks within 1102 frames. -/
theorem Started.locks_forever (h : s.Started) (hUp : KeyUp w) (hHalved : Halved w phase)
    (m : ℕ) :
    ∃ l, m ≤ l ∧ l < m + 1102 * 840000 ∧ locks s.game (s.gameWave contents w) l := by
  have hPhase := hHalved.phase_lt
  -- the first frame edge from `m` on
  obtain ⟨f, hFrom, hSoon⟩ : ∃ f, m ≤ edgeClock phase f ∧ edgeClock phase f ≤ m + 840000 := by
    refine ⟨(m + 52799) / 840000, ?_⟩
    unfold edgeClock
    omega
  obtain ⟨l, hml, hln, hLock⟩ := h.exists_lock contents hUp hHalved f
  refine ⟨l, hFrom.trans hml, ?_, hLock⟩
  unfold edgeClock at hSoon hln
  omega

theorem locks_forever_fresh :
    fresh.Started ∧ KeyUp untouched ∧ Halved untouched 0 ∧
      ∃ l, 0 ≤ l ∧ l < 0 + 1102 * 840000 ∧
        locks fresh.game (fresh.gameWave (fun _ _ => 0) untouched) l :=
  ⟨started_fresh, keyUp_untouched, halved_untouched,
    started_fresh.locks_forever keyUp_untouched halved_untouched 0⟩

/-! ## Locks, line clears and the score -/

theorem Started.spaced (h : s.Started) (hUp : KeyUp w) :
    Spaced 24 (frameEdge s.game (s.gameWave contents w)) := fun m n hlt hm hn =>
  (Nat.add_le_add_left (by decide) m).trans (h.frames_spaced hUp m n hlt hm hn)

/-- Every lock of the system, every line clear and the score: where `at_bottom` is
high no row of 6 to 21 is full and the board gets the painted cells; elsewhere it
stays or loses exactly one full row; and the score is the number of rows removed,
modulo 2^16. -/
theorem Started.rows_counted (h : s.Started) (hUp : KeyUp w) (n : ℕ) :
    let g := (s.run contents w n).game
    let i := s.gameWave contents w n
    let board' := (s.run contents w (n + 1)).game.cells.board
    (g.atBottom i = true →
      (∀ r : Fin 22, 6 ≤ r.val → ¬ Full (g.cells.board r)) ∧
        board' = paint g.cells.board g.select.choose g.motion.blockXPos g.motion.blockYPos) ∧
    (g.atBottom i = false →
      (g.removesRow = false ∧ board' = g.cells.board) ∨
      (g.removesRow = true ∧
        ∃ r, Full (g.cells.board r) ∧ board' = removeRow g.cells.board r)) ∧
    g.cells.score = BitVec.ofNat 16
      (Nat.count (fun k => (s.run contents w k).game.removesRow = true) n) := by
  intro g i board'
  have hLow : ∀ k, (s.gameWave contents w k).reset = false := h.gameLow hUp
  have hSpaced : Spaced 24 (frameEdge s.game (s.gameWave contents w)) := h.spaced hUp
  refine ⟨fun hLock => ?_, fun hNoLock => ?_, ?_⟩
  · have hEdge : frameEdge s.game (s.gameWave contents w) n := by
      rw [frameEdge, ← game_run]
      exact Game.edge_of_atBottom hLock
    -- by then the rows of the lock before have been removed
    have hNone := not_removesRow_of_edge h.game hLow hSpaced hEdge
    rw [← game_run, not_removesRow_iff] at hNone
    exact ⟨lineClear_eq_none.mp hNone,
      congrArg BoardRegs.board (Game.cells_step_lock hNone (hLow n) hLock)⟩
  · cases hNow : g.removesRow with
    | false =>
      exact Or.inl ⟨rfl, congrArg BoardRegs.board
        (Game.cells_step_same (not_removesRow_iff.mp hNow) (hLow n) hNoLock)⟩
    | true =>
      obtain ⟨r, hFull, hBoard⟩ := Game.exists_removed hNow
      exact Or.inr ⟨rfl, r, hFull, hBoard i⟩
  · have hScore := score_eq_count h.game hLow n
    simp only [← game_run] at hScore
    exact hScore

/-- Nothing touched, the first piece locks and is painted. -/
theorem rows_counted_lock :
    ∃ n, let g := (fresh.run (fun _ _ => 0) untouched n).game
      g.atBottom (fresh.gameWave (fun _ _ => 0) untouched n) = true ∧
      (∀ r : Fin 22, 6 ≤ r.val → ¬ Full (g.cells.board r)) ∧
      (fresh.run (fun _ _ => 0) untouched (n + 1)).game.cells.board =
        paint g.cells.board g.select.choose g.motion.blockXPos g.motion.blockYPos := by
  obtain ⟨n, -, -, hLock⟩ :=
    started_fresh.exists_lock (fun _ _ => 0) keyUp_untouched halved_untouched 0
  rw [locks, ← game_run] at hLock
  exact ⟨n, hLock, (started_fresh.rows_counted keyUp_untouched n).1 hLock⟩

/-- Lines 0 to 489 of a frame after the first 32 ticks: no frame edge is near. -/
theorem Started.quiet_of_line (h : s.Started) (hUp : KeyUp w) {n : ℕ} (hTicks : 32 ≤ ticks w n)
    (hLine : (s.run contents w n).vga.vCounter.toNat < 490) :
    ∀ t, t ≤ n → n ≤ t + 22 → ¬ frameEdge s.game (s.gameWave contents w) t := by
  intro t hle hNear hEdge
  obtain ⟨m, rfl⟩ := Nat.exists_eq_add_of_le' (show 2 ≤ t by
    by_contra hEarly
    exact h.not_frameEdge (by omega) hEdge)
  obtain ⟨hTick, hAt⟩ := (h.frameEdge_iff hUp m).mp hEdge
  have hNext := ticks_succ_of hTick
  have hLater := ticks_mono (w := w) (show m + 1 ≤ n by omega)
  have hApart := ticks_le (w := w) (show m ≤ n by omega)
  -- the counter is still on line 492
  rw [h.vga_eq hUp, VgaRegs.run_eq_rasterAt (by omega)] at hLine
  have hCounter : (rasterAt (ticks w n)).vCounter.toNat = ticks w n / 800 % 525 :=
    congrArg Prod.snd (counters_rasterAt (ticks w n))
  omega

/-- While lines 0 to 489 are drawn, the visible ones among them, the picture stands
still: position, kind, board and score are the same at all of their clocks. -/
theorem Started.picture_stable (h : s.Started) (hUp : KeyUp w) {m n : ℕ} (hmn : m ≤ n)
    (hTicks : 32 ≤ ticks w m)
    (hLines : ∀ k, m ≤ k → k < n → (s.run contents w k).vga.vCounter.toNat < 490) :
    (s.run contents w n).game.picture = (s.run contents w m).game.picture := by
  have hLow : ∀ k, (s.gameWave contents w k).reset = false := h.gameLow hUp
  induction n, hmn using Nat.le_induction with
  | base => rfl
  | succ n hmn ih =>
    have hLate := hTicks.trans (ticks_mono (w := w) hmn)
    have hPos : 0 < n := by
      rcases Nat.eq_zero_or_pos n with rfl | hPos
      · rw [ticks, Nat.count_zero] at hLate
        omega
      · exact hPos
    -- no frame edge is near, so nothing of the picture is written
    rw [← ih fun k hk hkn => hLines k hk (by omega), game_run, game_run]
    exact picture_step h.game hLow hPos
      (h.quiet_of_line hUp hLate (hLines n hmn (Nat.lt_succ_self n)))

end TetrisTop

end Ece385.Tetris

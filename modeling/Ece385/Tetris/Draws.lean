import Ece385.Tetris.System

/-!
# Tetris — which piece comes next

The LFSR runs on `CLOCK_50`, and so does the frame clock: the PLL halves it, and a
frame is 420000 of its ticks. So the value a lock finds in the LFSR is decided by
the frame the lock falls into. A frame is 840000 clocks, 24 modulo the 31 of the
LFSR, so the kinds repeat after 31 frames, and all of them come up.

* `frameKind` — the kind a lock in a given frame draws.

Main result:

* `Started.kinds_by_frame` — for either phase of `VGA_CLK` the next piece is a function of the
  frame number modulo 31.
-/

open Clocked Odometer

namespace Ece385.Tetris

namespace TetrisTop

variable {contents : Rom → ℕ → BitVec 4} {s : TetrisTop} {w : ℕ → TopInputs} {phase : ℕ}

/-- The kind a lock in frame `f` draws: `LFSR_out % 7` on the clock after it. -/
def frameKind (phase f : ℕ) : BitVec 3 := (lfsrRun 0xff (edgeClock phase f + 1) % 7).setWidth 3

theorem frameKind_add (phase f : ℕ) : frameKind phase (f + 31) = frameKind phase f := by
  have hSame : lfsrRun 0xff (edgeClock phase (f + 31) + 1) =
      lfsrRun 0xff (edgeClock phase f + 1) := by
    refine (lfsr_run_eq_iff 0xff (by decide) ?_ ?_).mpr ?_
    · unfold edgeClock; omega
    · unfold edgeClock; omega
    · show _ % 31 = _ % 31
      unfold edgeClock
      omega
  rw [frameKind, frameKind, hSame]

/-- A frame is 24 clocks modulo 31, and 22 is the inverse of 24. -/
theorem exists_frameKind (phase : ℕ) {k : BitVec 3} (hk : k ≠ 7) :
    ∃ f < 31, frameKind phase f = k := by
  -- a clock that draws the kind, and then the frame that falls on it modulo 31
  obtain ⟨j, hj, hKind⟩ := lfsr_draws_every_kind 0xff (by decide)
    (n := edgeClock phase 0 + 1) (by unfold edgeClock; omega) k hk
  refine ⟨22 * j % 31, Nat.mod_lt _ (by decide), ?_⟩
  have hSame : lfsrRun 0xff (edgeClock phase (22 * j % 31) + 1) =
      lfsrRun 0xff (edgeClock phase 0 + 1 + j) := by
    refine (lfsr_run_eq_iff 0xff (by decide) ?_ ?_).mpr ?_
    · unfold edgeClock; omega
    · unfold edgeClock; omega
    · show _ % 31 = _ % 31
      unfold edgeClock
      omega
  rw [frameKind, hSame, hKind]

/-- Whatever is typed, the piece after a lock is decided by the phase of `VGA_CLK` and the
frame the lock falls into: for either phase the kind is a function of the frame
number with period 31, and each of the seven kinds is among its values. -/
theorem Started.kinds_by_frame (h : s.Started) (hUp : KeyUp w) (hHalved : Halved w phase) :
    (∀ n, 4 ≤ n → locks s.game (s.gameWave contents w) n →
      ∃ f, n = edgeClock phase f ∧
        (s.run contents w (n + 2)).game.chooser.blockSel = frameKind phase f) ∧
    (∀ f, frameKind phase (f + 31) = frameKind phase f) ∧
    ∀ k : BitVec 3, k ≠ 7 → ∃ f < 31, frameKind phase f = k := by
  -- the load is one clock after the lock and takes what the LFSR holds then
  refine ⟨fun n hn hLock => ?_, frameKind_add phase, fun k hk => exists_frameKind phase hk⟩
  obtain ⟨f, hf⟩ := h.edge_clock hUp hHalved hn (Game.edge_of_atBottom hLock)
  refine ⟨f, hf, ?_⟩
  have hLow : ∀ k, (s.gameWave contents w k).reset = false := h.gameLow hUp
  have hLoads : loadsAt s.game (s.gameWave contents w) (n + 1) :=
    (loadsAt_iff h.game hLow (n + 1)).mpr (Or.inr ⟨n, rfl, hLock⟩)
  rw [loadsAt] at hLoads
  rw [game_run, Game.run, trace_succ, Game.blockSel_step, if_pos hLoads, Game.drawnKind, frameKind,
    ← hf]
  have hOut : (s.gameWave contents w (n + 1)).lfsrOut = lfsrRun 0xff (n + 1) :=
    h.lfsr_eq hUp (n + 1)
  rw [hOut]

/-- A lock comes, and the frame it falls into has drawn the next piece. -/
theorem kinds_by_frame_lock :
    ∃ n, locks fresh.game (fresh.gameWave (fun _ _ => 0) untouched) n ∧
      ∃ f, n = edgeClock 0 f ∧
        (fresh.run (fun _ _ => 0) untouched (n + 2)).game.chooser.blockSel = frameKind 0 f := by
  obtain ⟨n, hFrom, -, hLock⟩ :=
    started_fresh.exists_lock (fun _ _ => 0) keyUp_untouched halved_untouched 0
  have hLate : 4 ≤ n := by
    unfold edgeClock at hFrom
    omega
  exact ⟨n, hLock,
    (started_fresh.kinds_by_frame keyUp_untouched halved_untouched).1 n hLate hLock⟩

end TetrisTop

end Ece385.Tetris

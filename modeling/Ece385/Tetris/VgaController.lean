import Ece385.Lib.Clocked
import Ece385.Lib.Odometer
import Mathlib.Data.BitVec

/-!
# Tetris — `VGA_controller.sv`

Two ten-bit counters, the pixel of the line and the line of the frame, and three
output registers decoded from the counters' next values. A tick is one rising
edge of `VGA_CLK`.

* `rasterAt` — the raster as a function of the tick alone.
* `run_eq_rasterAt` — after a reset the controller is on the raster from the
  first tick on.
* `settles` — never reset, it is on the raster, off by a constant, from tick
  399424 on, whatever the registers held.
* `pixel_once` — every visible pixel is drawn exactly once in any 420000 ticks.
-/

open Clocked Odometer

namespace Ece385.Tetris

/-- `H_TOTAL` -/
def hTotal : BitVec 10 := 800

/-- `V_TOTAL` -/
def vTotal : BitVec 10 := 525

/-- The registers of `VGA_controller`; `DrawX` is `h_counter`, `DrawY` is
`v_counter`, and `VGA_SYNC_N` is tied low. -/
@[ext]
structure VgaRegs where
  vgaHs : Bool
  vgaVs : Bool
  vgaBlankN : Bool
  hCounter : BitVec 10
  vCounter : BitVec 10
  deriving DecidableEq

namespace VgaRegs

/-- `h_counter_in` -/
def hCounterIn (s : VgaRegs) : BitVec 10 :=
  if s.hCounter + 1 = hTotal then 0 else s.hCounter + 1

/-- `v_counter_in` -/
def vCounterIn (s : VgaRegs) : BitVec 10 :=
  if s.hCounter + 1 = hTotal then
    if s.vCounter + 1 = vTotal then 0 else s.vCounter + 1
  else s.vCounter

/-- `VGA_HS_in` -/
def vgaHsIn (s : VgaRegs) : Bool := !(decide (656 ≤ s.hCounterIn) && decide (s.hCounterIn < 752))

/-- `VGA_VS_in` -/
def vgaVsIn (s : VgaRegs) : Bool := !(decide (490 ≤ s.vCounterIn) && decide (s.vCounterIn < 492))

/-- `VGA_BLANK_N_in` -/
def vgaBlankNIn (s : VgaRegs) : Bool :=
  decide (s.hCounterIn < 640) && decide (s.vCounterIn < 480)

/-- What `Reset` loads. -/
def cleared : VgaRegs where
  vgaHs := false
  vgaVs := false
  vgaBlankN := false
  hCounter := 0
  vCounter := 0

/-- One rising edge of `VGA_CLK`. -/
def step (s : VgaRegs) (reset : Bool) : VgaRegs :=
  if reset then cleared
  else
    { vgaHs := s.vgaHsIn
      vgaVs := s.vgaVsIn
      vgaBlankN := s.vgaBlankNIn
      hCounter := s.hCounterIn
      vCounter := s.vCounterIn }

/-- The registers after `n` ticks without a reset. -/
abbrev run (s : VgaRegs) (n : ℕ) : VgaRegs := trace step s (fun _ => false) n

/-- Both counters as numbers. -/
def counters (s : VgaRegs) : ℕ × ℕ := (s.hCounter.toNat, s.vCounter.toNat)

end VgaRegs

/-! ## The counters are an odometer -/

/-- A ten-bit counter with a reload is a wheel with room for 1024 values. -/
theorem toNat_reload (x size : BitVec 10) (hSize : 0 < size.toNat) :
    (if x + 1 = size then 0 else x + 1).toNat = advance size.toNat 1024 x.toNat := by
  have hx := x.isLt
  have hTop : x + 1 = size ↔ x.toNat + 1 = size.toNat := by
    rw [← BitVec.toNat_inj, BitVec.toNat_add]
    have hs := size.isLt
    change (x.toNat + 1) % 1024 = size.toNat ↔ _
    omega
  unfold advance
  by_cases hReload : x + 1 = size
  · rw [if_pos hReload, if_pos (hTop.mp hReload)]
    rfl
  · rw [if_neg hReload, if_neg (mt hTop.mpr hReload), BitVec.toNat_add]
    rfl

theorem carry_iff (x : BitVec 10) : x + 1 = hTotal ↔ x.toNat + 1 = 800 := by
  have hx := x.isLt
  rw [← BitVec.toNat_inj, BitVec.toNat_add, hTotal]
  change (x.toNat + 1) % 1024 = 800 ↔ _
  omega

namespace VgaRegs

theorem counters_step (s : VgaRegs) :
    (s.step false).counters = turn 800 1024 525 1024 s.counters := by
  have hLow : s.hCounterIn.toNat = advance 800 1024 s.hCounter.toNat :=
    toNat_reload s.hCounter hTotal (by decide)
  have hHigh : s.vCounterIn.toNat =
      if s.hCounter.toNat + 1 = 800 then advance 525 1024 s.vCounter.toNat
      else s.vCounter.toNat := by
    have hReload := toNat_reload s.vCounter vTotal (by decide)
    unfold vCounterIn
    -- the line counter moves with the reload of the pixel counter
    by_cases hCarry : s.hCounter + 1 = hTotal
    · rw [if_pos hCarry, if_pos ((carry_iff _).mp hCarry), hReload]
      rfl
    · rw [if_neg hCarry, if_neg (mt (carry_iff _).mpr hCarry)]
  exact Prod.ext hLow hHigh

theorem counters_run (s : VgaRegs) (n : ℕ) :
    (s.run n).counters = (turn 800 1024 525 1024)^[n] s.counters := by
  induction n with
  | zero => rfl
  | succ n ih => rw [run, trace_succ, counters_step, ih, Function.iterate_succ_apply']

end VgaRegs

/-! ## The raster -/

/-- The counters and outputs that belong to a pixel and a line. -/
def outputsAt (p : ℕ × ℕ) : VgaRegs where
  vgaHs := !(decide (656 ≤ p.1) && decide (p.1 < 752))
  vgaVs := !(decide (490 ≤ p.2) && decide (p.2 < 492))
  vgaBlankN := decide (p.1 < 640) && decide (p.2 < 480)
  hCounter := BitVec.ofNat 10 p.1
  vCounter := BitVec.ofNat 10 p.2

/-- The raster at tick `n`: 800 ticks a line, 525 lines a frame. -/
def rasterAt (n : ℕ) : VgaRegs := outputsAt (reading 800 525 n)

namespace VgaRegs

/-- A tick without a reset leaves outputs that agree with the counters. -/
theorem step_eq_outputsAt (s : VgaRegs) : s.step false = outputsAt (s.step false).counters := by
  -- the comparisons of the source are in ten bits, those of the raster on numbers
  have hLow : ∀ (x : BitVec 10) (k : ℕ), k < 1024 →
      decide (x < BitVec.ofNat 10 k) = decide (x.toNat < k) := by
    intro x k hk
    rw [decide_eq_decide, BitVec.lt_def, BitVec.toNat_ofNat, Nat.mod_eq_of_lt hk]
  have hHigh : ∀ (x : BitVec 10) (k : ℕ), k < 1024 →
      decide (BitVec.ofNat 10 k ≤ x) = decide (k ≤ x.toNat) := by
    intro x k hk
    rw [decide_eq_decide, BitVec.le_def, BitVec.toNat_ofNat, Nat.mod_eq_of_lt hk]
  have hBack : ∀ x : BitVec 10, x = BitVec.ofNat 10 x.toNat := fun x => by
    rw [BitVec.ofNat_toNat, BitVec.setWidth_eq]
  apply VgaRegs.ext
  · exact congrArg₂ (fun a b => !(a && b)) (hHigh _ 656 (by decide)) (hLow _ 752 (by decide))
  · exact congrArg₂ (fun a b => !(a && b)) (hHigh _ 490 (by decide)) (hLow _ 492 (by decide))
  · exact congrArg₂ and (hLow _ 640 (by decide)) (hLow _ 480 (by decide))
  · exact hBack _
  · exact hBack _

theorem run_succ_eq (s : VgaRegs) (n : ℕ) :
    s.run (n + 1) = outputsAt ((turn 800 1024 525 1024)^[n + 1] s.counters) := by
  rw [← counters_run, run, trace_succ, ← step_eq_outputsAt]

/-- After a reset the controller is on the raster from the first tick on; at the
reset itself the outputs are all low. -/
theorem run_eq_rasterAt {n : ℕ} (hn : 0 < n) : cleared.run n = rasterAt n := by
  obtain ⟨n, rfl⟩ := Nat.exists_eq_succ_of_ne_zero hn.ne'
  rw [run_succ_eq]
  exact congrArg outputsAt
    (iterate_turn_zero (by decide) (by decide) (by decide) (by decide) (n + 1))

/-- Whatever the registers hold, and without any reset, the controller ends up on
the raster, off by a constant number of ticks. -/
theorem settles (s : VgaRegs) : ∃ φ, ∀ n, 399424 ≤ n → s.run n = rasterAt (n + φ) := by
  obtain ⟨φ, hφ⟩ := exists_phase (b := 800) (M := 1024) (c := 525) (N := 1024) (by decide)
    (by decide) (by decide) (by decide) (w := s.counters) s.hCounter.isLt s.vCounter.isLt
  refine ⟨φ, fun n hn => ?_⟩
  -- the outputs are registered: they agree with the counters from the first tick on
  obtain ⟨m, rfl⟩ := Nat.exists_eq_succ_of_ne_zero (show n ≠ 0 by omega)
  rw [run_succ_eq, hφ (m + 1) hn]
  rfl

/-- The pixel the monitor draws: `DrawX` and `DrawY`, not blanked. -/
def Draws (s : VgaRegs) (x y : ℕ) : Prop :=
  s.vgaBlankN = true ∧ s.hCounter.toNat = x ∧ s.vCounter.toNat = y

end VgaRegs

theorem reading_lt (n : ℕ) : (reading 800 525 n).1 < 800 ∧ (reading 800 525 n).2 < 525 :=
  ⟨Nat.mod_lt _ (by decide), Nat.mod_lt _ (by decide)⟩

theorem counters_rasterAt (n : ℕ) : (rasterAt n).counters = reading 800 525 n := by
  have hLt := reading_lt n
  refine Prod.ext ?_ ?_
  · exact (BitVec.toNat_ofNat _ _).trans (Nat.mod_eq_of_lt (by omega))
  · exact (BitVec.toNat_ofNat _ _).trans (Nat.mod_eq_of_lt (by omega))

/-- On the raster the visible pixels are drawn at their own tick and no others are. -/
theorem draws_rasterAt_iff (n x y : ℕ) :
    (rasterAt n).Draws x y ↔ (x < 640 ∧ y < 480) ∧ reading 800 525 n = (x, y) := by
  have hCounters : (rasterAt n).hCounter.toNat = x ∧ (rasterAt n).vCounter.toNat = y ↔
      reading 800 525 n = (x, y) := by
    rw [← counters_rasterAt, VgaRegs.counters, Prod.mk.injEq]
  rw [VgaRegs.Draws, hCounters, and_congr_left_iff]
  intro hReading
  simp only [rasterAt, outputsAt, hReading, Bool.and_eq_true, decide_eq_true_eq]

theorem existsUnique_draws {x y : ℕ} (hx : x < 640) (hy : y < 480) (m : ℕ) :
    ∃! n, (m ≤ n ∧ n < m + 420000) ∧ (rasterAt n).Draws x y := by
  simp only [draws_rasterAt_iff, and_iff_right (And.intro hx hy)]
  exact existsUnique_reading (b := 800) (c := 525) (by omega) (by omega) m

/-- After a reset every visible pixel is drawn exactly once in any 420000 ticks,
and nothing else is ever drawn. -/
theorem VgaRegs.pixel_once (m : ℕ) (hm : 0 < m) (x y : ℕ) :
    (x < 640 ∧ y < 480 → ∃! n, (m ≤ n ∧ n < m + 420000) ∧ (cleared.run n).Draws x y) ∧
      (¬ (x < 640 ∧ y < 480) → ∀ n, m ≤ n → ¬ (cleared.run n).Draws x y) := by
  refine ⟨fun hVisible => ?_, fun hHidden n hn hDraws => ?_⟩
  · have hSame : ∀ n, ((m ≤ n ∧ n < m + 420000) ∧ (cleared.run n).Draws x y) ↔
        (m ≤ n ∧ n < m + 420000) ∧ (rasterAt n).Draws x y := fun n =>
      and_congr_right fun hn => by rw [run_eq_rasterAt (by omega)]
    simp only [hSame]
    exact existsUnique_draws hVisible.1 hVisible.2 m
  · rw [run_eq_rasterAt (by omega), draws_rasterAt_iff] at hDraws
    exact hHidden hDraws.1

/-- The last pixel, in the first frame. -/
theorem VgaRegs.pixel_once_last :
    0 < 1 ∧ ∃! n, (1 ≤ n ∧ n < 1 + 420000) ∧ (cleared.run n).Draws 639 479 :=
  ⟨Nat.one_pos, (pixel_once 1 Nat.one_pos 639 479).1 (by decide)⟩

/-- The same without a reset, once the counters have settled. -/
theorem VgaRegs.pixel_once_of_any (s : VgaRegs) (m : ℕ) (hm : 399424 ≤ m) (x y : ℕ) :
    (x < 640 ∧ y < 480 → ∃! n, (m ≤ n ∧ n < m + 420000) ∧ (s.run n).Draws x y) ∧
      (¬ (x < 640 ∧ y < 480) → ∀ n, m ≤ n → ¬ (s.run n).Draws x y) := by
  obtain ⟨φ, hφ⟩ := s.settles
  refine ⟨fun hVisible => ?_, fun hHidden n hn hDraws => ?_⟩
  · -- the window moved by the phase
    obtain ⟨n, ⟨⟨hLo, hHi⟩, hDraws⟩, hUnique⟩ :=
      existsUnique_draws hVisible.1 hVisible.2 (m + φ)
    refine ⟨n - φ, ⟨by omega, ?_⟩, fun k hk => ?_⟩
    · rwa [hφ _ (by omega), show n - φ + φ = n by omega]
    · have hk' := hUnique (k + φ) ⟨by omega, by rw [← hφ _ (by omega)]; exact hk.2⟩
      omega
  · rw [hφ n (by omega), draws_rasterAt_iff] at hDraws
    exact hHidden hDraws.1

/-- From the counters farthest beyond their totals. -/
theorem VgaRegs.pixel_once_of_any_beyond :
    399424 ≤ 399424 ∧ ∃! n, (399424 ≤ n ∧ n < 399424 + 420000) ∧
      (run { cleared with hCounter := 800, vCounter := 525 } n).Draws 0 0 :=
  ⟨le_rfl, (pixel_once_of_any { cleared with hCounter := 800, vCounter := 525 } 399424
    le_rfl 0 0).1 (by decide)⟩

/-! ## The frame clock -/

/-- `VGA_VS` is low on lines 490 and 491. -/
theorem vgaVs_rasterAt (n : ℕ) :
    (rasterAt n).vgaVs = false ↔ 392000 ≤ n % 420000 ∧ n % 420000 < 393600 := by
  have hLine : n / 800 % 525 = n % 420000 / 800 := by
    rw [show 420000 = 800 * 525 by rfl, Nat.mod_mul_right_div_self]
  simp only [rasterAt, outputsAt, reading, hLine, Bool.not_eq_false', Bool.and_eq_true,
    decide_eq_true_eq]
  omega

/-- After a reset `VGA_VS` rises at the first tick and then once a frame. -/
theorem VgaRegs.vgaVs_rises_iff (n : ℕ) :
    ((cleared.run n).vgaVs = false ∧ (cleared.run (n + 1)).vgaVs = true) ↔
      n = 0 ∨ (n + 1) % 420000 = 393600 := by
  rw [← Bool.not_eq_false, run_eq_rasterAt (Nat.succ_pos n), vgaVs_rasterAt]
  rcases Nat.eq_zero_or_pos n with rfl | hn
  · simp [cleared]
  · rw [run_eq_rasterAt hn, vgaVs_rasterAt]
    omega

end Ece385.Tetris

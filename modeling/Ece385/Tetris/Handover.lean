import Ece385.Tetris.Geometry

/-!
# Tetris — one draw and one lock per piece

A lock respawns `block_motion` and raises `new_shape`; one clock later
`choose_block` loads the next kind and `rotate_block` returns to `Rotate_0`.
On the clock in between the old kind is still shown at the start position. No
module waits for another: the hand-over works because the edge detector never
reports two edges in a row.

* `GameInv` — what holds of the four modules together in every reachable
  state: edges are delayed, a shape is drawn unless one is about to be, the
  piece is on the grid, and it is at the start while a shape is pending.
* `GameInv.step`, `gameInv_of_reachable` — every clock keeps it.

Main result:

* `one_lock_per_piece` — no two locks in a row, one load between two locks,
  and every lock is of the kind that load drew.
-/

open Figure Clocked

namespace Ece385.Tetris

/-! ## One clock of the hand-over -/

namespace Game

variable {s : Game} {i : Inputs}

/-- A lock happens on frame edges only. -/
theorem edge_of_atBottom (h : s.atBottom i = true) : s.motion.frameClkRisingEdge = true := by
  by_contra hIdle
  rw [atBottom, atBottom_idle (by simpa using hIdle)] at h
  exact absurd h (by decide)

theorem frameClkDelayed_step : (s.step i).motion.frameClkDelayed = i.frameClk := by
  simp only [step, MotionRegs.step]
  split_ifs <;> rfl

theorem frameClkRisingEdge_step :
    (s.step i).motion.frameClkRisingEdge = (i.frameClk && !s.motion.frameClkDelayed) := by
  simp only [step, MotionRegs.step]
  split_ifs <;> rfl

/-- `new_shape` is raised by `Reset` or a lock and lasts one clock. -/
theorem newShape_step : (s.step i).chooser.newShape = (i.reset || s.atBottom i) := by
  simp only [step, ChooseRegs.step]
  split_ifs <;> simp_all

/-- `block_sel` loads on this clock. -/
def loads (s : Game) (i : Inputs) : Bool :=
  !(i.reset || s.atBottom i) && s.chooser.newShape

/-- The kind a load takes from the LFSR. -/
def drawnKind (i : Inputs) : BitVec 3 := (i.lfsrOut % 7).setWidth 3

theorem blockSel_step :
    (s.step i).chooser.blockSel = if s.loads i then drawnKind i else s.chooser.blockSel := by
  simp only [step, ChooseRegs.step, loads, drawnKind]
  split_ifs <;> simp_all

theorem loads_of_newShape (hReset : i.reset = false) (hLock : s.atBottom i = false)
    (hNew : s.chooser.newShape = true) : s.loads i = true := by
  simp [loads, hReset, hLock, hNew]

theorem currentState_step_of_newShape (h : s.chooser.newShape = true) :
    (s.step i).currentState = .rotate0 := by
  simp [step, rotateStep, h]

theorem motion_step_of_respawn (h : i.reset = true ∨ s.atBottom i = true) :
    (s.step i).motion.AtStart := by
  rw [step, step_respawn (i := s.motionInputs i) h]
  exact MotionRegs.atStart_respawn _

end Game

/-! ## The invariant of the composed game -/

/-- What holds of the four modules together in every reachable state. -/
structure GameInv (s : Game) : Prop where
  edge : s.motion.frameClkRisingEdge = true → s.motion.frameClkDelayed = true
  grid : GridInv s.motion
  drawn : s.chooser.newShape = false → s.chooser.blockSel ≠ 7
  start : s.chooser.newShape = true → s.motion.AtStart

theorem Game.IsReset.gameInv {s : Game} (h : s.IsReset) : GameInv s where
  edge := h.motion.edge
  grid := h.motion.gridInv
  drawn := fun hNew => by rw [h.newShape] at hNew; exact absurd hNew (by decide)
  start := fun _ => h.motion.toAtStart

section Undrawn

variable {m : MotionRegs} {i : MotionInputs}

theorem AtStart.stepDue_eq_false (h : m.AtStart) : stepDue m i = false := by
  rw [stepDue, h.counterX]; rfl

theorem AtStart.dropDue_eq_false (h : m.AtStart) : dropDue m i = false := by
  rw [dropDue, h.counterY]; simp

/-- With no line high a piece at the start is not given a motion. -/
theorem AtStart.xMotionIn_undrawn (h : m.AtStart) (hk : i.select = {})
    (hEdge : m.frameClkRisingEdge = true) : (motionComb m i).blockXMotionIn = 0 := by
  have hLeft : leftTable i.select.choose = none := by rw [hk]; rfl
  have hRight : rightTable i.select.choose = none := by rw [hk]; rfl
  rw [xMotionIn_edge hEdge, hLeft, hRight, sideMotion, sideMotion, h.xMotion]
  simp only [ite_self]

/-- Before the first load no shape may be shown at all; the piece waits at the
start. -/
theorem AtStart.gridInv_step_undrawn (h : m.AtStart) (hk : i.select = {}) :
    GridInv (m.step i) := by
  by_cases hRespawn : i.reset = true ∨ (motionComb m i).atBottom = true
  · rw [step_respawn hRespawn]
    exact (MotionRegs.atStart_respawn _).gridInv
  rw [not_or, Bool.not_eq_true, Bool.not_eq_true] at hRespawn
  cases hEdge : m.frameClkRisingEdge with
  | false =>
    rw [step_idle hRespawn.1 hEdge]
    exact h.gridInv.sampleFrameClk _
  | true =>
    have hX : (motionComb m i).blockXPosIn = m.blockXPos := by
      rw [xPosIn_edge hEdge, AtStart.stepDue_eq_false h]; rfl
    have hY : (motionComb m i).blockYPosIn = m.blockYPos := by
      rw [yPosIn_edge hEdge, AtStart.dropDue_eq_false h]; rfl
    have hMotion := AtStart.xMotionIn_undrawn h hk hEdge
    -- neither counter is due at the start, so the position is kept
    rw [step_latch hRespawn.1 hRespawn.2]
    refine ⟨⟨?_, ?_, Or.inl hMotion, yMotionIn_mem h.gridInv hEdge hRespawn.2,
      counterXIn_le h.gridInv hEdge, counterYIn_le h.gridInv hEdge⟩, ?_, ?_, ?_⟩
    · show ∃ c ≤ 10, (motionComb m i).blockXPosIn.toNat = 270 + 9 * c
      rw [hX]; exact h.gridInv.xPos
    · show ∃ r ≤ 21, (motionComb m i).blockYPosIn.toNat = 135 + 9 * r
      rw [hY]; exact h.gridInv.yPos
    · intro h1015
      exact absurd (hMotion.symm.trans h1015) (by decide)
    · intro h9
      exact absurd (hMotion.symm.trans h9) (by decide)
    · intro hLow
      have hStart : m.blockYPos.toNat = 324 := by rw [← hY]; exact hLow
      rw [h.yPos] at hStart
      exact absurd hStart (by decide)

end Undrawn

namespace GameInv

variable {s : Game} {i : Inputs}

theorem select_of_ne_seven (h : s.chooser.blockSel ≠ 7) :
    s.select = (shapeOf s.chooser.blockSel s.rotation).select :=
  chooseBlock_eq_select _ _ h

/-- Before the first load nothing is shown and the piece waits at the start. -/
theorem undrawn (h : GameInv s) (hSel : s.chooser.blockSel = 7) :
    s.motion.AtStart ∧ s.select = {} := by
  refine ⟨h.start ?_, ?_⟩
  · by_contra hOld
    exact h.drawn (by simpa using hOld) hSel
  · rw [Game.select, hSel]
    exact chooseBlock_seven s.rotation

theorem gridInv_step (h : GameInv s) : GridInv (s.step i).motion := by
  by_cases hSel : s.chooser.blockSel = 7
  · obtain ⟨hStart, hNone⟩ := h.undrawn hSel
    exact AtStart.gridInv_step_undrawn hStart hNone
  · exact h.grid.step ⟨_, select_of_ne_seven hSel⟩

/-- Every clock, whatever the inputs, keeps the invariant. -/
theorem step (h : GameInv s) (i : Inputs) : GameInv (s.step i) where
  edge := by
    rw [Game.frameClkRisingEdge_step, Game.frameClkDelayed_step, Bool.and_eq_true]
    exact fun hEdge => hEdge.1
  grid := h.gridInv_step
  drawn := by
    intro hNew
    rw [Game.blockSel_step]
    cases hLoad : s.loads i with
    | true => exact lfsr_mod_ne_seven _
    | false =>
      -- no load and nothing pending afterwards: nothing was pending before
      rw [Game.newShape_step] at hNew
      rw [Game.loads, hNew, Bool.not_false, Bool.true_and] at hLoad
      exact h.drawn hLoad
  start := by
    intro hNew
    rw [Game.newShape_step, Bool.or_eq_true] at hNew
    exact Game.motion_step_of_respawn hNew

end GameInv

/-- The states reached from reset under any inputs, `Reset` pulses included. -/
abbrev Game.ReachableFromReset : Game → Prop :=
  Reachable Game.IsReset (fun _ => True) Game.step

theorem gameInv_of_reachable {s : Game} (h : s.ReachableFromReset) : GameInv s :=
  h.invariant (fun _ hs => hs.gameInv) fun _ i hs _ => hs.step i

theorem gameInv_run {s₀ : Game} (hReset : s₀.IsReset) (w : ℕ → Inputs) (n : ℕ) :
    GameInv (s₀.run w n) :=
  gameInv_of_reachable (reachable_trace hReset (fun _ => trivial) n)

/-! ## A new piece over an empty board -/

/-- The start position is row 0, column 3. -/
theorem MotionRegs.AtStart.atCell {m : MotionRegs} (h : m.AtStart) :
    AtCell m.blockXPos m.blockYPos (0, 3) :=
  ⟨by rw [h.xPos]; rfl, by rw [h.yPos]; rfl, by decide, by decide⟩

theorem landing_start_in_well (k : Shape) :
    ∀ d ∈ landingTable k.only, ((0, 3) : ℤ × ℤ) + d ∈ well 22 11 := by
  cases k <;> decide

/-- Over an empty board a piece with its Y motion does not lock at the start. -/
theorem GameInv.atBottom_eq_false {s : Game} (h : GameInv s)
    (hAt : AtCell s.motion.blockXPos s.motion.blockYPos (0, 3))
    (hMotion : s.motion.blockYMotion = stepSize) (hBoard : s.cells.board = 0) (i : Inputs) :
    s.atBottom i = false := by
  by_contra hLock
  rw [Bool.not_eq_false] at hLock
  rw [Game.atBottom, atBottom_edge (Game.edge_of_atBottom hLock), hMotion] at hLock
  -- the Y motion is 9, which leaves the landing test
  have hHit : (s.motionInputs i).hits s.motion.blockXPos s.motion.blockYPos
      (landingTable (s.motionInputs i).select.choose) = true := by
    simpa [stepSize] using hLock
  by_cases hSel : s.chooser.blockSel = 7
  · have hNone : (s.motionInputs i).select = {} := (h.undrawn hSel).2
    rw [hNone] at hHit
    simp [landingTable, MotionInputs.hits] at hHit
  · rw [choose_of_select (k := shapeOf s.chooser.blockSel s.rotation)
        (GameInv.select_of_ne_seven hSel), hits_iff hAt (landing_start_in_well _)] at hHit
    obtain ⟨d, -, hd⟩ := hHit
    rw [Game.motionInputs, hBoard, filled_zero] at hd
    exact hd

/-- The reset state does not lock, even on a pending frame edge. -/
theorem Game.IsReset.atBottom_eq_false {s : Game} (h : s.IsReset) (i : Inputs) :
    s.atBottom i = false :=
  h.gameInv.atBottom_eq_false h.motion.toAtStart.atCell h.motion.yMotion h.board i

/-! ## Every run -/

/-- The kind a shape belongs to. -/
def Shape.kind : Shape → BitVec 3
  | .o => 0
  | .zHoriz | .zVert => 1
  | .sHoriz | .sVert => 2
  | .iHoriz | .iVert => 3
  | .lLeft | .lUp | .lRight | .lDown => 4
  | .jLeft | .jUp | .jRight | .jDown => 5
  | .tLeft | .tUp | .tRight | .tDown => 6

theorem kind_shapeOf : ∀ (blockSel : BitVec 3) (rotSel : BitVec 2),
    blockSel ≠ 7 → (shapeOf blockSel rotSel).kind = blockSel := by
  decide

section Run

variable {s₀ : Game} {w : ℕ → Inputs}

/-- A piece locks at clock `n`. -/
def locks (s₀ : Game) (w : ℕ → Inputs) (n : ℕ) : Prop := (s₀.run w n).atBottom (w n) = true

/-- `block_sel` loads at clock `n`. -/
def loadsAt (s₀ : Game) (w : ℕ → Inputs) (n : ℕ) : Prop := (s₀.run w n).loads (w n) = true

instance : DecidablePred (locks s₀ w) := fun n =>
  inferInstanceAs (Decidable ((s₀.run w n).atBottom (w n) = true))

/-- The edge detector reports no edge right after an edge. -/
theorem not_frameEdge_succ (hReset : s₀.IsReset) {n : ℕ} (h : frameEdge s₀ w n) :
    ¬ frameEdge s₀ w (n + 1) := by
  have hDelayed := (gameInv_run hReset w n).edge h
  rw [frameEdge, Game.run, trace_succ, Game.frameClkRisingEdge_step, hDelayed]
  simp

theorem not_locks_succ (hReset : s₀.IsReset) {n : ℕ} (h : locks s₀ w n) :
    ¬ locks s₀ w (n + 1) :=
  fun hNext => not_frameEdge_succ hReset (Game.edge_of_atBottom h) (Game.edge_of_atBottom hNext)

theorem not_locks_zero (hReset : s₀.IsReset) : ¬ locks s₀ w 0 := by
  rw [locks, Game.run, trace_zero, hReset.atBottom_eq_false]
  simp

theorem newShape_succ_iff (hLow : ∀ n, (w n).reset = false) (n : ℕ) :
    (s₀.run w (n + 1)).chooser.newShape = true ↔ locks s₀ w n := by
  rw [Game.run, trace_succ, Game.newShape_step, hLow n]
  rfl

/-- `block_sel` loads right after reset and right after each lock. -/
theorem loadsAt_iff (hReset : s₀.IsReset) (hLow : ∀ n, (w n).reset = false) (n : ℕ) :
    loadsAt s₀ w n ↔ n = 0 ∨ ∃ l, n = l + 1 ∧ locks s₀ w l := by
  cases n with
  | zero =>
    refine iff_of_true ?_ (Or.inl rfl)
    exact Game.loads_of_newShape (hLow 0) (hReset.atBottom_eq_false _) hReset.newShape
  | succ l =>
    have hLock : (∃ l', l + 1 = l' + 1 ∧ locks s₀ w l') ↔ locks s₀ w l :=
      ⟨fun ⟨_, hEq, h⟩ => Nat.succ.inj hEq ▸ h, fun h => ⟨l, rfl, h⟩⟩
    rw [or_iff_right (Nat.succ_ne_zero l), hLock]
    constructor
    · intro hLoad
      rw [loadsAt, Game.loads, Bool.and_eq_true] at hLoad
      exact (newShape_succ_iff hLow l).mp hLoad.2
    · intro hLocks
      refine Game.loads_of_newShape (hLow _) ?_ ((newShape_succ_iff hLow l).mpr hLocks)
      simpa [locks] using not_locks_succ hReset hLocks

/-- After the first clock `block_sel` holds what the last load took. -/
theorem blockSel_eq_drawnKind (hReset : s₀.IsReset) (hLow : ∀ n, (w n).reset = false) (n : ℕ) :
    ∃ l ≤ n, loadsAt s₀ w l ∧ (∀ k, l < k → k ≤ n → ¬ loadsAt s₀ w k) ∧
      (s₀.run w (n + 1)).chooser.blockSel = Game.drawnKind (w l) := by
  induction n with
  | zero =>
    have hLoad : loadsAt s₀ w 0 := (loadsAt_iff hReset hLow 0).mpr (Or.inl rfl)
    refine ⟨0, le_rfl, hLoad, fun k _ _ => by omega, ?_⟩
    rw [Game.run, trace_succ, Game.blockSel_step]
    exact if_pos hLoad
  | succ n ih =>
    rw [Game.run, trace_succ, Game.blockSel_step]
    by_cases hLoad : loadsAt s₀ w (n + 1)
    · exact ⟨n + 1, le_rfl, hLoad, fun k _ _ => by omega, if_pos hLoad⟩
    · -- the last load stays the last
      obtain ⟨l, hl, hLoadL, hNone, hSel⟩ := ih
      refine ⟨l, by omega, hLoadL, ?_, (if_neg hLoad).trans hSel⟩
      intro k hlk hk
      rcases Nat.lt_or_ge n k with hlt | hge
      · have hEq : k = n + 1 := by omega
        exact hEq ▸ hLoad
      · exact hNone k hlk hge

/-- One line is high, the line of a shape of the kind loaded. -/
theorem existsUnique_line {s : Game} (h : s.chooser.blockSel ≠ 7) :
    ∃ k : Shape, s.select.choose = k.only ∧ k.kind = s.chooser.blockSel ∧
      ∃! j, s.select.choose.line j = true := by
  have hOnly : s.select.choose = (shapeOf s.chooser.blockSel s.rotation).only := by
    rw [GameInv.select_of_ne_seven h]; rfl
  refine ⟨_, hOnly, kind_shapeOf _ _ h, shapeOf s.chooser.blockSel s.rotation, ?_, ?_⟩
  · simp only [hOnly, line_only, decide_true]
  · intro j hj
    simpa only [hOnly, line_only, decide_eq_true_eq] using hj

/-- One draw and one lock per piece, for every waveform of frame clock, keys
and LFSR bytes and every initial `block_sel`:

* no two consecutive clocks lock;
* `block_sel` loads `LFSR_out % 7` exactly right after reset and right after
  each lock, so exactly once up to the next lock, and keeps its value otherwise;
* the clock of a load that follows a lock is no frame edge, and the load comes
  with a return to `Rotate_0`, so the first edge that sees the new shape sees
  it in that orientation;
* a lock has one `choose_*` line high, of the kind the last load drew. -/
theorem one_lock_per_piece (hReset : s₀.IsReset) (hLow : ∀ n, (w n).reset = false) :
    (∀ n, locks s₀ w n → ¬ locks s₀ w (n + 1)) ∧
    (∀ n, (loadsAt s₀ w n ↔ n = 0 ∨ ∃ l, n = l + 1 ∧ locks s₀ w l) ∧
      (s₀.run w (n + 1)).chooser.blockSel =
        if (s₀.run w n).loads (w n) then Game.drawnKind (w n)
        else (s₀.run w n).chooser.blockSel) ∧
    (∀ p n, (p = 0 ∨ ∃ l, p = l + 1 ∧ locks s₀ w l) → p ≤ n → locks s₀ w n →
      (∀ k, p ≤ k → k < n → ¬ locks s₀ w k) → ∃! l, (p ≤ l ∧ l < n) ∧ loadsAt s₀ w l) ∧
    (∀ n, loadsAt s₀ w n → (s₀.run w (n + 1)).currentState = .rotate0) ∧
    (∀ n, locks s₀ w n → ¬ frameEdge s₀ w (n + 1)) ∧
    (∀ n, locks s₀ w n → ∃ l < n, loadsAt s₀ w l ∧
      (∀ k, l < k → k ≤ n → ¬ loadsAt s₀ w k) ∧
      ∃ shape : Shape, (s₀.run w n).select.choose = shape.only ∧
        shape.kind = Game.drawnKind (w l) ∧
        ∃! j, (s₀.run w n).select.choose.line j = true) := by
  have hLoads := loadsAt_iff hReset hLow
  refine ⟨fun n => not_locks_succ hReset, fun n => ⟨hLoads n, ?_⟩, ?_, ?_, ?_, ?_⟩
  · rw [Game.run, trace_succ, Game.blockSel_step]
  · intro p n hp hpn hLock hNone
    have hLoadP : loadsAt s₀ w p := (hLoads p).mpr hp
    -- a clock that loads does not lock
    have hne : p ≠ n := by
      rintro rfl
      rw [loadsAt, Game.loads, show (s₀.run w p).atBottom (w p) = true from hLock] at hLoadP
      simp at hLoadP
    refine ⟨p, ⟨⟨le_rfl, by omega⟩, hLoadP⟩, ?_⟩
    rintro l ⟨⟨hpl, hln⟩, hLoad⟩
    by_contra hlp
    -- another load would follow a lock between `p` and `n`
    rcases (hLoads l).mp hLoad with rfl | ⟨l', rfl, hLock'⟩
    · omega
    · exact hNone l' (by omega) (by omega) hLock'
  · intro n hLoad
    rw [loadsAt, Game.loads, Bool.and_eq_true] at hLoad
    exact Game.currentState_step_of_newShape hLoad.2
  · exact fun n hLock => not_frameEdge_succ hReset (Game.edge_of_atBottom hLock)
  · intro n hLock
    cases n with
    | zero => exact absurd hLock (not_locks_zero hReset)
    | succ n =>
      obtain ⟨l, hl, hLoad, hNone, hSel⟩ := blockSel_eq_drawnKind hReset hLow n
      obtain ⟨shape, hOnly, hKind, hUnique⟩ := existsUnique_line
        (s := s₀.run w (n + 1)) (hSel ▸ lfsr_mod_ne_seven _)
      refine ⟨l, by omega, hLoad, ?_, shape, hOnly, hKind.trans hSel, hUnique⟩
      intro k hlk hk
      rcases Nat.lt_or_ge n k with hlt | hge
      · have hEq : k = n + 1 := by omega
        rw [hEq, loadsAt, Game.loads,
          show (s₀.run w (n + 1)).atBottom (w (n + 1)) = true from hLock]
        simp
      · exact hNone k hlk hge

/-- Draw the I piece, turn it upright and hold DOWN for 91 frames. -/
def uprightRun : List Inputs :=
  [{ lfsrOut := 3 }, keyDown 0x1d false, {}] ++
    (List.replicate 91 [keyDown 0x1b true, keyDown 0x1b false]).flatten

/-- One more frame edge, on which the piece stands on the floor. -/
def standingRun : List Inputs := uprightRun ++ [{ frameClk := true }]

theorem length_standingRun : standingRun.length = 186 := by decide +kernel

theorem reset_standingRun (n : ℕ) : (listed standingRun n).reset = false :=
  reset_listed (by decide +kernel) n

/-- The clock after the run is the first that locks. -/
theorem standingRun_run :
    ((checkedRun Game.step (fun s i => !s.atBottom i) Game.initial standingRun).any
      fun s => s.atBottom {}) = true := by
  decide +kernel

theorem locks_standingRun :
    locks Game.initial (listed standingRun) 186 ∧
      ∀ k < 186, ¬ locks Game.initial (listed standingRun) k := by
  obtain ⟨s, hRun, hLock⟩ := (Option.any_eq_true _ _).mp standingRun_run
  obtain ⟨hEnd, hNone⟩ := run_listed_checked hRun
  rw [length_standingRun] at hEnd hNone
  constructor
  · rw [locks, hEnd, listed_of_le length_standingRun.le]
    exact hLock
  · exact fun k hk hLocks => absurd hLocks (by simpa [locks] using hNone k hk)

/-- The upright I piece locks once, after one load, and hands over to the next. -/
theorem one_lock_per_piece_standing :
    let w := listed standingRun
    (locks Game.initial w 186 ∧ ¬ locks Game.initial w 187 ∧ ¬ frameEdge Game.initial w 187) ∧
    (∃! l, (0 ≤ l ∧ l < 186) ∧ loadsAt Game.initial w l) ∧
    (loadsAt Game.initial w 187 ∧ (Game.initial.run w 188).currentState = .rotate0) ∧
    ∃ l < 186, loadsAt Game.initial w l ∧
      (∀ k, l < k → k ≤ 186 → ¬ loadsAt Game.initial w k) ∧
      ∃ shape : Shape, (Game.initial.run w 186).select.choose = shape.only ∧
        shape.kind = Game.drawnKind (w l) ∧
        ∃! j, (Game.initial.run w 186).select.choose.line j = true := by
  intro w
  obtain ⟨hLock, hNone⟩ := locks_standingRun
  obtain ⟨hNext, hLoads, hOnce, hState, hEdge, hKind⟩ :=
    one_lock_per_piece Game.isReset_initial reset_standingRun
  have hLoad : loadsAt Game.initial w 187 := (hLoads 187).1.mpr (Or.inr ⟨186, rfl, hLock⟩)
  exact ⟨⟨hLock, hNext 186 hLock, hEdge 186 hLock⟩,
    hOnce 0 186 (Or.inl rfl) (by omega) hLock fun k _ hk => hNone k hk,
    ⟨hLoad, hState 187 hLoad⟩, hKind 186 hLock⟩

end Run

end Ece385.Tetris

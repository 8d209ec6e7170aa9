import Ece385.Tetris.Rotation

/-!
# Tetris — lock conservation

Every lock is meant to add four cells to the board and every removal to take
eleven away. That needs the active piece to be in the well and on empty cells
whenever it locks, through all frame edges, changes of orientation and line
clears since it was spawned.

Frame edges and changes of orientation keep the piece safe under `StepOk`,
which puts `FrameStepOk` and `TurnOk` together. Line clears need no condition:
they follow a lock, when the next piece still waits at the start, and clear
the rows it lies in faster than it can turn (`clear_keeps_safe`).

Main results:

* `piece_safe` — under `StepOk` the active piece is safe at every clock of a
  run on which every piece was spawned on empty cells.
* `lock_conservation` — so every lock paints four distinct empty cells, and
  the count of cells balances.
* `lock_loses_cell` — without the condition a square of a piece can be lost.
-/

open Figure RowStack Clocked

namespace Ece385.Tetris

/-! ## The condition on one clock -/

/-- What one clock without a lock needs to keep a safe piece safe: its frame
edge, if it is one, and its change of orientation, if there is one, where the
piece goes to. -/
structure StepOk (s : Game) (i : Inputs) : Prop where
  frame : s.motion.frameClkRisingEdge = true → FrameStepOk s i
  turn : s.turnDue i = true → TurnOk s i (s.xNext i) (s.yNext i)

instance (s : Game) (i : Inputs) : Decidable (StepOk s i) :=
  decidable_of_iff ((s.motion.frameClkRisingEdge = true → FrameStepOk s i) ∧
      (s.turnDue i = true → TurnOk s i (s.xNext i) (s.yNext i)))
    ⟨fun h => ⟨h.1, h.2⟩, fun h => ⟨h.frame, h.turn⟩⟩

section Step

variable {s : Game} {i : Inputs}

theorem select_step_of_eq (hNew : s.chooser.newShape = false)
    (hSame : (s.step i).rotation = s.rotation) : (s.step i).select = s.select := by
  have hKind : (s.step i).chooser.blockSel = s.chooser.blockSel := by
    rw [Game.blockSel_step, Game.loads, hNew]
    simp
  rw [Game.select, hKind, hSame]
  rfl

/-- If the piece in its old orientation fits where the clock takes it, over the
board the clock leaves, it is safe after the clock. -/
theorem safe_step_of_turnOk (hInv : GameInv s) (hSel : s.chooser.blockSel ≠ 7)
    (hNew : s.chooser.newShape = false) (hLock : s.atBottom i = false)
    (hMoved : CellsSafe (s.boardNext i) s.select.choose (s.xNext i) (s.yNext i))
    (hTurn : (s.step i).rotation ≠ s.rotation → TurnOk s i (s.xNext i) (s.yNext i)) :
    (s.step i).Safe := by
  rw [Game.safe_step_iff hLock]
  by_cases hSame : (s.step i).rotation = s.rotation
  · rw [select_step_of_eq hNew hSame]
    exact hMoved
  · obtain ⟨a, hAt, -, -⟩ := (hInv.step i).grid.toOnGrid.atCell
    obtain ⟨hX, hY⟩ := Game.position_step hLock
    rw [hX, hY] at hAt
    rw [GameInv.select_of_ne_seven hSel, show (shapeOf s.chooser.blockSel s.rotation).select.choose
      = s.shape.only from rfl, cellsSafe_iff_fits hAt] at hMoved
    rw [select_step_of_ne hSel hNew hSame, cellsSafe_iff_fits hAt]
    exact (turn_fits_iff hSel hAt hMoved).mpr (hTurn hSame)

end Step

/-! ## The clocks after a lock -/

section Spawn

variable {s₀ : Game} {w : ℕ → Inputs}

/-- Until the next frame edge the piece stays where the lock put it. -/
theorem position_since_lock (hLow : ∀ n, (w n).reset = false) {t : ℕ} (hLock : locks s₀ w t)
    {n : ℕ} (hlt : t < n) (hIdle : ∀ k, t < k → k < n → ¬ frameEdge s₀ w k) :
    (s₀.run w n).motion.AtStart := by
  induction n, hlt using Nat.le_induction with
  | base => exact Game.motion_step_of_respawn (Or.inr hLock)
  | succ n hle ih =>
    have hStart := ih fun k hk hkn => hIdle k hk (by omega)
    have hNoEdge : (s₀.run w n).motion.frameClkRisingEdge = false := by
      simpa [frameEdge] using hIdle n hle (by omega)
    rw [Game.run, trace_succ, Game.step,
      step_idle (i := (s₀.run w n).motionInputs (w n)) (hLow n) hNoEdge]
    exact ⟨hStart.xPos, hStart.yPos, hStart.xMotion, hStart.yMotion, hStart.counterX,
      hStart.counterY⟩

theorem rotation_step_rotate0 {s : Game} (i : Inputs) (h : s.currentState = .rotate0) :
    (s.step i).rotation = 0 := by
  rw [Game.rotation, Game.step, h]
  simp only [rotateStep, rotateNext, RotateInputs.press]
  split_ifs <;> rfl

/-- The two clocks after a load show orientation 0. -/
theorem rotation_since_lock (hLow : ∀ n, (w n).reset = false) {t : ℕ} (hLock : locks s₀ w t) :
    (s₀.run w (t + 2)).rotation = 0 ∧ (s₀.run w (t + 3)).rotation = 0 := by
  have hNew : (s₀.run w (t + 1)).chooser.newShape = true := (newShape_succ_iff hLow t).mpr hLock
  have hState : (s₀.run w (t + 2)).currentState = .rotate0 :=
    Game.currentState_step_of_newShape hNew
  exact ⟨by rw [Game.rotation, hState]; rfl, rotation_step_rotate0 _ hState⟩

theorem height_le_two : ∀ blockSel : BitVec 3, (shapeOf blockSel 0).height ≤ 2 := by decide

/-- From the load on the piece is no taller than the clocks since the lock. -/
theorem height_since_lock (hLow : ∀ n, (w n).reset = false) {t n : ℕ} (hLock : locks s₀ w t)
    (hlt : t < n) (hNew : (s₀.run w n).chooser.newShape = false) :
    t + (s₀.run w n).shape.height ≤ n := by
  have hFour := height_le (s₀.run w n).shape
  have hPending := (newShape_succ_iff hLow t).mpr hLock
  have hne : n ≠ t + 1 := by
    rintro rfl
    rw [hNew] at hPending
    exact absurd hPending (by decide)
  obtain ⟨h2, h3⟩ := rotation_since_lock hLow hLock
  -- four rows are the most there is; before that the shape is the one just loaded
  by_cases hLate : t + 4 ≤ n
  · omega
  · have hTwo : (s₀.run w n).shape.height ≤ 2 := by
      have hCase : n = t + 2 ∨ n = t + 3 := by omega
      rcases hCase with rfl | rfl
      · rw [Game.shape, h2]; exact height_le_two _
      · rw [Game.shape, h3]; exact height_le_two _
    omega

/-- A figure in rows that are empty meets no settled cell. -/
theorem free_of_topEmpty {b : Board} {l : ℕ} (hTop : TopEmpty l b) {k : Shape}
    (hHeight : k.height ≤ l) (c : ℤ) : Free (filled b) (place k.cells (0, c)) := by
  rw [Free, forall_mem_place]
  rintro d hd ⟨r, j, hCell, hFilled⟩
  have hRow : d.1 = r.val := by simpa using congrArg Prod.fst hCell
  have hBelow := (cells_bounds hd).2.1
  have hEmpty := hTop r (by omega)
  exact hFilled (congrFun hEmpty j)

/-- A line clear does not reach the piece: its rows are already cleared. -/
theorem clear_keeps_safe (hReset : s₀.IsReset) (hLow : ∀ n, (w n).reset = false)
    (hSpaced : Spaced 24 (frameEdge s₀ w)) {n : ℕ}
    (hNew : (s₀.run w n).chooser.newShape = false) (hSafe : (s₀.run w n).Safe)
    (hRemoves : (s₀.run w n).removesRow = true) :
    CellsSafe ((s₀.run w n).boardNext (w n)) (s₀.run w n).select.choose
      (s₀.run w n).motion.blockXPos (s₀.run w n).motion.blockYPos := by
  obtain ⟨t, hlt, hLock, hTop⟩ := rowsPending hReset hLow n hRemoves
  obtain ⟨b', hb'⟩ := removesRow_iff.mp hRemoves
  obtain ⟨i, -, hFull, rfl⟩ := lineClear_eq_some hb'
  have hRow := hTop.le_of_full hFull
  -- at most 22 clocks since the lock, so no frame edge in between
  have hStart : (s₀.run w n).motion.AtStart := by
    refine position_since_lock hLow hLock hlt fun k hk hkn hEdge => ?_
    have hGap := hSpaced t k hk (Game.edge_of_atBottom hLock) hEdge
    omega
  have hBoard : (s₀.run w n).boardNext (w n) = removeRow (s₀.run w n).cells.board i := by
    rw [Game.boardNext, hb']; rfl
  have hSel : (s₀.run w n).select = (s₀.run w n).shape.select :=
    GameInv.select_of_ne_seven hSafe.blockSel_ne_seven
  rw [Game.Safe, hSel] at hSafe
  rw [hSel, hBoard]
  refine (cellsSafe_iff_fits hStart.atCell).mpr
    ⟨((cellsSafe_iff_fits hStart.atCell).mp hSafe).inside, ?_⟩
  -- the rows emptied since the lock reach further down than the piece
  refine free_of_topEmpty (hTop.removeRow hRow) ?_ 3
  have hHeight := height_since_lock hLow hLock hlt hNew
  omega

end Spawn

/-! ## The piece along a run -/

section Run

variable {s₀ : Game} {w : ℕ → Inputs}

/-- One clock without a lock, after the load. -/
theorem safe_succ (hReset : s₀.IsReset) (hLow : ∀ n, (w n).reset = false)
    (hSpaced : Spaced 24 (frameEdge s₀ w)) {n : ℕ}
    (hNew : (s₀.run w n).chooser.newShape = false) (hLock : ¬ locks s₀ w n)
    (hSafe : (s₀.run w n).Safe) (hOk : StepOk (s₀.run w n) (w n)) :
    (s₀.run w (n + 1)).Safe := by
  have hInv := gameInv_run hReset w n
  have hNoLock : (s₀.run w n).atBottom (w n) = false := by simpa [locks] using hLock
  refine safe_step_of_turnOk hInv hSafe.blockSel_ne_seven hNew hNoLock ?_
    fun hTurn => hOk.turn ((turnDue_iff (hLow n) hNew).mpr hTurn)
  -- off a frame edge only a line clear can get in the way of the piece
  cases hEdge : (s₀.run w n).motion.frameClkRisingEdge with
  | true => exact (cellsSafe_next_iff hInv hSafe hEdge hNoLock).mpr (hOk.frame hEdge)
  | false =>
    have hX : (s₀.run w n).xNext (w n) = (s₀.run w n).motion.blockXPos := by
      simp [Game.xNext, hLow n, hEdge]
    have hY : (s₀.run w n).yNext (w n) = (s₀.run w n).motion.blockYPos := by
      simp [Game.yNext, hLow n, hEdge]
    rw [hX, hY]
    cases hRemoves : (s₀.run w n).removesRow with
    | true => exact clear_keeps_safe hReset hLow hSpaced hNew hSafe hRemoves
    | false =>
      rw [Game.boardNext_of_kept (hLow n) hRemoves]
      exact hSafe

/-- Every piece up to clock `n` was spawned on four empty cells. -/
def SpawnsSafe (s₀ : Game) (w : ℕ → Inputs) (n : ℕ) : Prop :=
  ∀ l < n, loadsAt s₀ w l → (s₀.run w (l + 1)).Safe

/-- Every clock before `n` that shows a loaded piece and does not lock it meets
the condition. -/
def StepsOk (s₀ : Game) (w : ℕ → Inputs) (n : ℕ) : Prop :=
  ∀ l < n, (s₀.run w l).chooser.newShape = false → ¬ locks s₀ w l → StepOk (s₀.run w l) (w l)

/-- The active piece is safe at every clock, from its load on. -/
theorem piece_safe (hReset : s₀.IsReset) (hLow : ∀ n, (w n).reset = false)
    (hSpaced : Spaced 24 (frameEdge s₀ w)) {n : ℕ} (hSpawn : SpawnsSafe s₀ w n)
    (hOk : StepsOk s₀ w n) (hNew : (s₀.run w n).chooser.newShape = false) :
    (s₀.run w n).Safe := by
  induction n with
  | zero =>
    rw [Game.run, trace_zero, hReset.newShape] at hNew
    exact absurd hNew (by decide)
  | succ n ih =>
    have hLock : ¬ locks s₀ w n := fun h => by
      rw [(newShape_succ_iff hLow n).mpr h] at hNew
      exact absurd hNew (by decide)
    -- either the piece was loaded on this clock or it was there and safe before
    cases hOld : (s₀.run w n).chooser.newShape with
    | true =>
      exact hSpawn n (by omega)
        (Game.loads_of_newShape (hLow n) (by simpa [locks] using hLock) hOld)
    | false =>
      have hSafe := ih (fun l hl => hSpawn l (by omega)) (fun l hl => hOk l (by omega)) hOld
      exact safe_succ hReset hLow hSpaced hOld hLock hSafe (hOk n (by omega) hOld hLock)

/-! ## Counting cells -/

theorem nodup_paintOffsets (k : Shape) : k.paintOffsets.Nodup := by cases k <;> decide

/-- The four cells a lock paints are distinct. -/
theorem nodup_paintedCells {xPos yPos : BitVec 10} {a : ℤ × ℤ} (h : AtCell xPos yPos a)
    (k : Shape) : (paintedCells k.only xPos yPos).Nodup := by
  rw [paintedCells_only]
  refine (nodup_paintOffsets k).map_on fun d hd e he hEq => ?_
  obtain ⟨hRow, hCol⟩ := h.offset_cells (List.mem_toFinset.mpr hd : d ∈ k.cells)
  obtain ⟨hRow', hCol'⟩ := h.offset_cells (List.mem_toFinset.mpr he : e ∈ k.cells)
  have hRows : offset (gridRow yPos) d.1 = offset (gridRow yPos) e.1 := congrArg Prod.fst hEq
  have hCols : offset (gridCol xPos) d.2 = offset (gridCol xPos) e.2 := congrArg Prod.snd hEq
  rw [hRows] at hRow
  rw [hCols] at hCol
  exact Prod.ext (by omega) (by omega)

/-- A lock of a safe piece adds four cells. -/
theorem occupied_lock {s : Game} {i : Inputs} (hInv : GameInv s) (hSafe : s.Safe)
    (hReset : i.reset = false) (hNone : lineClear s.cells.board = none)
    (hLock : s.atBottom i = true) :
    occupied (s.step i).cells.board = occupied s.cells.board + 4 := by
  obtain ⟨a, hAt, hSel, hFits⟩ := hSafe.fits hInv
  rw [Game.cells_step_lock hNone hReset hLock, hSel, occupied_fill (colour_ne_zero s.shape)
    (s := Finset.univ.filter fun p => ((p.1.val : ℤ), (p.2.val : ℤ)) ∈ place s.shape.cells a)
    (b := s.cells.board), card_covered hFits.inside, card_place, card_cells]
  · intro p hp
    have hFree := hFits.free _ (Finset.mem_filter.mp hp).2
    rwa [mem_filled, not_not] at hFree
  · intro r c
    exact (paint_inside hAt _ _ hFits.inside r c).trans (by simp)

/-- The balance of cells at clock `n`. -/
def Balanced (s₀ : Game) (w : ℕ → Inputs) (n : ℕ) : Prop :=
  occupied (s₀.run w n).cells.board + 11 * Nat.count (fun l => (s₀.run w l).removesRow = true) n =
    4 * Nat.count (locks s₀ w) n

theorem newShape_eq_false_of_locks (hReset : s₀.IsReset) (hLow : ∀ n, (w n).reset = false)
    {n : ℕ} (hLock : locks s₀ w n) : (s₀.run w n).chooser.newShape = false := by
  by_contra hNew
  rw [Bool.not_eq_false] at hNew
  cases n with
  | zero => exact not_locks_zero hReset hLock
  | succ n => exact not_locks_succ hReset ((newShape_succ_iff hLow n).mp hNew) hLock

/-- A lock adds four cells and removes none, a removal takes eleven. -/
theorem balanced_succ (hReset : s₀.IsReset) (hLow : ∀ n, (w n).reset = false)
    (hSpaced : Spaced 24 (frameEdge s₀ w)) {n : ℕ}
    (hSafe : (s₀.run w n).chooser.newShape = false → (s₀.run w n).Safe)
    (h : Balanced s₀ w n) : Balanced s₀ w (n + 1) := by
  rw [Balanced] at h ⊢
  by_cases hLock : locks s₀ w n
  · -- a lock is on a frame edge, and all rows were cleared before it
    have hKept := not_removesRow_of_edge hReset hLow hSpaced (Game.edge_of_atBottom hLock)
    have hAdded : occupied (s₀.run w (n + 1)).cells.board =
        occupied (s₀.run w n).cells.board + 4 :=
      occupied_lock (gameInv_run hReset w n)
        (hSafe (newShape_eq_false_of_locks hReset hLow hLock)) (hLow n)
        (not_removesRow_iff.mp hKept) hLock
    rw [count_succ_of _ hLock, count_succ_of_not _ (by simp [hKept]), hAdded]
    omega
  · rw [count_succ_of_not _ hLock]
    cases hRemoves : (s₀.run w n).removesRow with
    | true =>
      -- a full row has eleven cells
      obtain ⟨r, hFull, hBoard⟩ := Game.exists_removed hRemoves
      have hTaken := occupied_removeRow hFull
      rw [count_succ_of _ hRemoves, Game.run, trace_succ, hBoard]
      omega
    | false =>
      have hSame : (s₀.run w (n + 1)).cells = (s₀.run w n).cells :=
        Game.cells_step_same (not_removesRow_iff.mp hRemoves) (hLow n)
          (by simpa [locks] using hLock)
      rw [count_succ_of_not _ (by simp [hRemoves]), hSame]
      exact h

/-- Lock conservation. On every run from reset with frame edges at least 24
clocks apart, up to any clock `n` before which every piece was spawned on empty
cells and every clock met `StepOk`: a lock at `n` paints four distinct cells
that are in the array and empty just before, and the number of occupied cells
plus 11 for each row removed is 4 for each lock. -/
theorem lock_conservation (hReset : s₀.IsReset) (hLow : ∀ n, (w n).reset = false)
    (hSpaced : Spaced 24 (frameEdge s₀ w)) (n : ℕ) (hSpawn : SpawnsSafe s₀ w n)
    (hOk : StepsOk s₀ w n) :
    (locks s₀ w n →
      (paintedCells (s₀.run w n).select.choose (s₀.run w n).motion.blockXPos
        (s₀.run w n).motion.blockYPos).Nodup ∧ (s₀.run w n).Safe) ∧
    Balanced s₀ w n := by
  have hSafe : ∀ l ≤ n, (s₀.run w l).chooser.newShape = false → (s₀.run w l).Safe :=
    fun l hl => piece_safe hReset hLow hSpaced (fun k hk => hSpawn k (by omega))
      fun k hk => hOk k (by omega)
  constructor
  · intro hLock
    have hNow := hSafe n le_rfl (newShape_eq_false_of_locks hReset hLow hLock)
    obtain ⟨a, hAt, hSel, -⟩ := hNow.fits (gameInv_run hReset w n)
    exact ⟨by rw [hSel]; exact nodup_paintedCells hAt _, hNow⟩
  · have hAll : ∀ l ≤ n, Balanced s₀ w l := by
      intro l
      induction l with
      | zero =>
        intro _
        rw [Balanced, Game.run, trace_zero, hReset.board]
        simp
      | succ l ih =>
        exact fun hl => balanced_succ hReset hLow hSpaced (hSafe l (by omega)) (ih (by omega))
    exact hAll n le_rfl

/-- A load on a free place, and `StepOk` on a clock that shows a piece and does not lock it. -/
def conservesOn (s : Game) (i : Inputs) : Bool :=
  decide (s.loads i = true → (s.step i).Safe) &&
    decide (s.chooser.newShape = false → s.atBottom i = false → StepOk s i)

theorem clearFrames_conserves :
    ((clearFrames.foldlM (Game.frame? conservesOn) Game.initial).any fun s => completesRow s &&
      (List.range 3).all fun m => conservesOn (s.run (framed []) m) (framed [] m)) = true := by
  decide +kernel

theorem exists_conserving_lock :
    ∃ n, locks Game.initial (framed clearFrames) n ∧
      (Game.initial.run (framed clearFrames) (n + 1)).removesRow = true ∧
      ∀ l < n + 2,
        conservesOn (Game.initial.run (framed clearFrames) l) (framed clearFrames l) = true := by
  obtain ⟨t, hRun, hEnd⟩ := (Option.any_eq_true _ _).mp clearFrames_conserves
  rw [Bool.and_eq_true, List.all_eq_true] at hEnd
  exact exists_lock_of_frames hRun hEnd.1 fun m hm => hEnd.2 m (List.mem_range.mpr hm)

/-- Three pieces, the third of which completes a row: it locks without a loss, and with the row
gone one cell is left of twelve. -/
theorem lock_conservation_third :
    let w := framed clearFrames
    let s := Game.initial.run w
    ∃ n, locks Game.initial w n ∧
      ((paintedCells (s n).select.choose (s n).motion.blockXPos (s n).motion.blockYPos).Nodup ∧
        (s n).Safe) ∧
      (s (n + 1)).removesRow = true ∧ Balanced Game.initial w (n + 2) := by
  intro w s
  obtain ⟨n, hLock, hRow, hChecked⟩ := exists_conserving_lock
  simp only [conservesOn, Bool.and_eq_true, decide_eq_true_eq] at hChecked
  have hLow : ∀ m, (w m).reset = false := fun _ => rfl
  have hSpawn : SpawnsSafe Game.initial w (n + 2) := fun l hl hLoad => (hChecked l hl).1 hLoad
  have hOk : StepsOk Game.initial w (n + 2) := fun l hl hNew hNoLock =>
    (hChecked l hl).2 hNew (Bool.eq_false_iff.mpr hNoLock)
  have hNow := lock_conservation Game.isReset_initial hLow (spaced_framed clearFrames) n
    (fun l hl => hSpawn l (by omega)) fun l hl => hOk l (by omega)
  have hLater := lock_conservation Game.isReset_initial hLow (spaced_framed clearFrames) (n + 2)
    hSpawn hOk
  exact ⟨n, hLock, hNow.1 hLock, hRow, hLater.2⟩

end Run

/-! ## A lost square -/

/-- Draw the I piece, press the rotate key in the next frame, hold DOWN for 93
frames without releasing, and release on row 19. -/
def lossFrames : List Inputs :=
  [{ lfsrOut := 3 }, keyDown 0x1d false] ++ List.replicate 93 (keyDown 0x1b false) ++
    [({} : Inputs)]

/-- What is wrong at the next frame edge: the piece locks, not on four empty cells
of the array, and the board is left with three cells. -/
def losesCell (s : Game) : Bool :=
  (s.run (framed []) 1).atBottom (framed [] 1) && !decide (s.run (framed []) 1).Safe &&
    decide (occupied (s.run (framed []) 2).cells.board = 3)

theorem lossFrames_run :
    ((lossFrames.foldlM (Game.frame? fun s i => !s.atBottom i) Game.initial).any losesCell) =
      true := by
  decide +kernel

/-- The upright piece hangs out of the well when it locks: three of its squares
are painted and one is lost, on a run with frame edges 24 clocks apart whose
one piece was spawned on empty cells. -/
theorem lock_loses_cell :
    let w := framed lossFrames
    let n := 24 * lossFrames.length + 1
    (∀ l, (w l).reset = false) ∧ Spaced 24 (frameEdge Game.initial w) ∧
      SpawnsSafe Game.initial w n ∧ locks Game.initial w n ∧ ¬ (Game.initial.run w n).Safe ∧
      ¬ Balanced Game.initial w (n + 1) := by
  intro w n
  obtain ⟨s, hRun, hLoses⟩ := (Option.any_eq_true _ _).mp lossFrames_run
  obtain ⟨hEnd, hNoLock⟩ := Game.run_frames hRun
  simp only [losesCell, Bool.and_eq_true, Bool.not_eq_true', decide_eq_false_iff_not,
    decide_eq_true_eq] at hLoses
  obtain ⟨⟨hLock, hUnsafe⟩, hThree⟩ := hLoses
  have hAt : Game.initial.run w n = s.run (framed []) 1 := Game.run_framed_add hEnd 1
  have hAfter : Game.initial.run w (n + 1) = s.run (framed []) 2 := Game.run_framed_add hEnd 2
  have hLow : ∀ l, (w l).reset = false := fun _ => rfl
  have hLocks : locks Game.initial w n := by
    rw [locks, hAt, show w n = framed [] 1 from framed_add lossFrames 1]
    exact hLock
  -- no lock before `n`: in the frames, and on the clock before there is no edge
  have hFirstLock : ∀ l < n, ¬ locks Game.initial w l := by
    intro l hl hLocksL
    rcases Nat.lt_or_ge l (24 * lossFrames.length) with hlt | hge
    · have hNone := hNoLock l hlt
      rw [show (Game.initial.run (framed lossFrames) l).atBottom (framed lossFrames l) = true
        from hLocksL] at hNone
      exact absurd hNone (by decide)
    · have hEdge := frameEdge_framed (Game.edge_of_atBottom hLocksL)
      omega
  refine ⟨hLow, spaced_framed lossFrames, ?_, hLocks, by rw [hAt]; exact hUnsafe, ?_⟩
  · intro l hl hLoad
    rcases (loadsAt_iff Game.isReset_initial hLow l).mp hLoad with rfl | ⟨l', rfl, hLock'⟩
    · decide +kernel
    · exact absurd hLock' (hFirstLock l' (by omega))
  · have hOne : Nat.count (locks Game.initial w) (n + 1) = 1 := by
      rw [count_succ_of _ hLocks, Nat.count_iff_forall_not.mpr fun l hl => hFirstLock l hl]
    rw [Balanced, hAfter, hThree, hOne]
    omega

end Ece385.Tetris

import Ece385.Lib.FallingFigures
import Ece385.Tetris.Typing

/-!
# Tetris — the game it plays

Registers, pixels, motions and counters aside, there is a well of 22 rows and 11 columns,
settled cells and at most one piece. `Game.position` says which position of that game a
state of the four modules stands for, and `Game.moves` which moves a clock makes: none,
most of the time, and two where a row is removed on the clock on which the next
piece is loaded or the piece turns.

* `rules` — the game.
* `plays_clock` — one clock.

Main results:

* `plays` — a run of the modules is a play by the rules.
* `Started.plays_by_the_rules` — and so is a run of the complete system.
-/

open Figure RowStack Clocked Falling Set

namespace Ece385.Tetris

/-! ## The rules -/

/-- A piece turns into another orientation of its kind, and falls by a row and moves by
a column at most. -/
def rules : Rules Shape where
  rows := 22
  cols := 11
  cells := Shape.cells
  start := (0, 3)
  turns := fun k k' => k'.kind = k.kind
  steps := {e | (e.1 = 0 ∨ e.1 = 1) ∧ (e.2 = 0 ∨ e.2 = 1 ∨ e.2 = -1)}

namespace Game

/-- The cell the piece is anchored at. -/
def anchor (s : Game) : ℤ × ℤ :=
  ((((s.motion.blockYPos.toNat - 135) / 9 : ℕ) : ℤ),
    (((s.motion.blockXPos.toNat - 270) / 9 : ℕ) : ℤ))

/-- The position a state stands for. Between a lock and the load there is no piece. -/
def position (s : Game) : Position Shape where
  settled := filled s.cells.board
  piece := if s.chooser.newShape then none else some (s.shape, s.anchor)

/-- The moves of one clock. -/
def moves (s : Game) (i : Inputs) : List MoveKind :=
  if s.atBottom i then [.settle]
  else (if s.removesRow then [.clear] else []) ++
    (if s.chooser.newShape then [.spawn]
      else if (s.step i).shape = s.shape ∧ (s.step i).anchor = s.anchor then [] else [.glide])

variable {s : Game} {i : Inputs}

theorem position_of_newShape (h : s.chooser.newShape = true) :
    s.position = ⟨filled s.cells.board, none⟩ := by
  rw [position, if_pos h]

theorem position_of_shown (h : s.chooser.newShape = false) :
    s.position = ⟨filled s.cells.board, some (s.shape, s.anchor)⟩ := by
  rw [position, if_neg (by rw [h]; decide)]

theorem settled_position : s.position.settled = filled s.cells.board := rfl

theorem anchor_eq {a : ℤ × ℤ} (h : AtCell s.motion.blockXPos s.motion.blockYPos a) :
    s.anchor = a := by
  have hX := h.x
  have hY := h.y
  have hCol := h.col
  have hRow := h.row
  refine Prod.ext ?_ ?_
  · show (((s.motion.blockYPos.toNat - 135) / 9 : ℕ) : ℤ) = a.1
    omega
  · show (((s.motion.blockXPos.toNat - 270) / 9 : ℕ) : ℤ) = a.2
    omega

/-- A safe piece is where the rules allow it. -/
theorem Safe.fits_anchor (hInv : GameInv s) (h : s.Safe) :
    Fits (well 22 11) (filled s.cells.board) (place s.shape.cells s.anchor) := by
  obtain ⟨a, hAt, -, hFits⟩ := h.fits hInv
  rwa [anchor_eq hAt]

end Game

/-! ## The board -/

theorem filled_paint {xPos yPos : BitVec 10} {a : ℤ × ℤ} (h : AtCell xPos yPos a) (b : Board)
    (k : Shape) (hIn : Inside (well 22 11) (place k.cells a)) :
    filled (paint b k.only xPos yPos) = filled b ∪ place k.cells a := by
  ext p
  constructor
  · rintro ⟨r, c, rfl, hSet⟩
    rw [paint_inside h b k hIn] at hSet
    by_cases hOn : ((r.val : ℤ), (c.val : ℤ)) ∈ place k.cells a
    · exact Or.inr hOn
    · rw [if_neg hOn] at hSet
      exact Or.inl (mem_filled.mpr hSet)
  · rintro (⟨r, c, rfl, hSet⟩ | hOn)
    · refine mem_filled.mpr ?_
      rw [paint_inside h b k hIn]
      split_ifs
      · exact colour_ne_zero k
      · exact hSet
    · -- a cell of the piece is one of the array, being inside the well
      obtain ⟨h0, hRow, h0', hCol⟩ := mem_well.mp (hIn p hOn)
      have hCell : p = (((⟨p.1.toNat, by omega⟩ : Fin 22).val : ℤ),
          ((⟨p.2.toNat, by omega⟩ : Fin 11).val : ℤ)) :=
        Prod.ext (Int.toNat_of_nonneg h0).symm (Int.toNat_of_nonneg h0').symm
      rw [hCell] at hOn ⊢
      refine mem_filled.mpr ?_
      rw [paint_inside h b k hIn, if_pos (Finset.mem_coe.mp hOn)]
      exact colour_ne_zero k

theorem fullRow_filled {b : Board} {r : Fin 22} (h : Full (b r)) : FullRow 11 r (filled b) := by
  intro c h0 hc
  have hCell : c = ((⟨c.toNat, by omega⟩ : Fin 11).val : ℤ) := (Int.toNat_of_nonneg h0).symm
  rw [hCell]
  exact mem_filled.mpr (h _)

/-- The board after a clock without a lock: one move, if a row is removed. -/
theorem plays_boardNext {s : Game} {i : Inputs} (hReset : i.reset = false)
    {q : Option (Shape × (ℤ × ℤ))}
    (hFree : s.removesRow = true → ∀ k a, q = some (k, a) →
      Free (filled (s.boardNext i)) (place k.cells a)) :
    Play rules ⟨filled s.cells.board, q⟩ (if s.removesRow then [.clear] else [])
      ⟨filled (s.boardNext i), q⟩ := by
  cases hRemoves : s.removesRow with
  | true =>
    obtain ⟨b', hb'⟩ := removesRow_iff.mp hRemoves
    obtain ⟨r, -, hFull, rfl⟩ := lineClear_eq_some hb'
    have hBoard : s.boardNext i = removeRow s.cells.board r := by
      rw [Game.boardNext, hb']
      rfl
    rw [hBoard, filled_removeRow] at hFree ⊢
    have hMove : Move rules ⟨filled s.cells.board, q⟩ .clear
        ⟨collapse (r.val : ℤ) (filled s.cells.board), q⟩ :=
      .clear r.isLt (fullRow_filled hFull) (hFree hRemoves)
    exact hMove.play
  | false =>
    rw [Game.boardNext_of_kept hReset hRemoves]
    exact .nil

/-! ## One clock -/

section Run

variable {s₀ : Game} {w : ℕ → Inputs}

/-- A lock settles the piece. -/
theorem plays_lock {s : Game} {i : Inputs} (hInv : GameInv s) (hSafe : s.Safe)
    (hNew : s.chooser.newShape = false) (hReset : i.reset = false)
    (hNone : s.removesRow = false) (hLock : s.atBottom i = true) :
    Play rules s.position (s.moves i) (s.step i).position := by
  obtain ⟨a, hAt, hSel, hFits⟩ := hSafe.fits hInv
  have hBoard : (s.step i).cells.board =
      paint s.cells.board s.shape.only s.motion.blockXPos s.motion.blockYPos := by
    rw [Game.cells_step_lock (not_removesRow_iff.mp hNone) hReset hLock, hSel]
    rfl
  have hNext : (s.step i).chooser.newShape = true := by
    rw [Game.newShape_step, hLock, Bool.or_true]
  rw [Game.moves, if_pos hLock, Game.position_of_shown hNew, Game.position_of_newShape hNext,
    hBoard, filled_paint hAt _ _ hFits.inside, Game.anchor_eq hAt]
  exact Move.settle.play

/-- The load puts the next piece at the start. -/
theorem plays_load {s : Game} {i : Inputs} (hInv : GameInv s)
    (hNew : s.chooser.newShape = true) (hReset : i.reset = false)
    (hLock : s.atBottom i = false) (hSpawned : (s.step i).Safe) :
    Play rules s.position (s.moves i) (s.step i).position := by
  have hStart := hInv.start hNew
  -- the counters are 0 at the start, so the piece has not moved before the load
  have hPlaced : AtCell (s.step i).motion.blockXPos (s.step i).motion.blockYPos (0, 3) := by
    obtain ⟨hX, hY⟩ := Game.position_step hLock
    have hCol : s.xNext i = s.motion.blockXPos := by
      rw [Game.xNext, hReset, colAfter, AtStart.stepDue_eq_false hStart]
      simp
    have hRow : s.yNext i = s.motion.blockYPos := by
      rw [Game.yNext, hReset, rowAfter, AtStart.dropDue_eq_false hStart]
      simp
    rw [hX, hY, hCol, hRow]
    exact hStart.atCell
  have hNext : (s.step i).chooser.newShape = false := by
    rw [Game.newShape_step, hReset, hLock]
    rfl
  have hFits := hSpawned.fits_anchor (hInv.step i)
  rw [Game.moves, if_neg (by rw [hLock]; decide), if_pos hNew, Game.position_of_newShape hNew,
    Game.position_of_shown hNext, Game.anchor_eq hPlaced, Game.board_step hLock]
  rw [Game.anchor_eq hPlaced, Game.board_step hLock] at hFits
  exact (plays_boardNext hReset fun _ k a hPiece => absurd hPiece (by simp)).trans
    (Move.spawn (R := rules) hFits).play

/-- How far a piece comes in one clock. -/
theorem anchor_step {s : Game} {i : Inputs} (hInv : GameInv s) (hReset : i.reset = false)
    (hLock : s.atBottom i = false) :
    ∃ e ∈ rules.steps, (s.step i).anchor = s.anchor + e := by
  obtain ⟨a, hAt, -, -⟩ := hInv.grid.toOnGrid.atCell
  obtain ⟨hX, hY⟩ := Game.position_step hLock
  rw [Game.xNext, hReset, if_neg Bool.false_ne_true] at hX
  rw [Game.yNext, hReset, if_neg Bool.false_ne_true] at hY
  cases hEdge : s.motion.frameClkRisingEdge with
  | true =>
    rw [hEdge, if_pos rfl] at hX hY
    -- on a frame edge it goes by what the two updates add
    have hTo := atCell_edge hInv.grid hAt hEdge (i := s.motionInputs i) hLock
    rw [← hX, ← hY] at hTo
    refine ⟨_, ⟨?_, ?_⟩, by rw [Game.anchor_eq hTo, Game.anchor_eq hAt]⟩
    · rcases rowStep_mem s.motion (s.motionInputs i) with ⟨-, h0⟩ | ⟨-, h1⟩
      · exact Or.inl h0
      · exact Or.inr h1
    · rcases columnStep_cases (i := s.motionInputs i) hInv.grid hAt with
        ⟨h0, -⟩ | ⟨h1, -⟩ | ⟨h1, -⟩
      · exact Or.inl h0
      · exact Or.inr (Or.inl h1)
      · exact Or.inr (Or.inr h1)
  | false =>
    rw [hEdge, if_neg Bool.false_ne_true] at hX hY
    rw [← hX, ← hY] at hAt
    refine ⟨0, ⟨Or.inl rfl, Or.inl rfl⟩, ?_⟩
    rw [Game.anchor_eq hAt, add_zero, Game.anchor_eq (hX ▸ hY ▸ hAt)]

/-- A piece stays of its kind until the next load. -/
theorem kind_step {s : Game} {i : Inputs} (hSel : s.chooser.blockSel ≠ 7)
    (hNew : s.chooser.newShape = false) : (s.step i).shape.kind = s.shape.kind := by
  have hKept : (s.step i).chooser.blockSel = s.chooser.blockSel := by
    rw [Game.blockSel_step, Game.loads, hNew]
    simp
  rw [Game.shape, Game.shape, hKept, kind_shapeOf _ _ hSel, kind_shapeOf _ _ hSel]

/-- Otherwise a row may go, and then the piece may move or turn; what the rules ask of it is
that it fits. -/
theorem plays_fall {s : Game} {i : Inputs} (hInv : GameInv s) (hSafe : s.Safe)
    (hNew : s.chooser.newShape = false) (hReset : i.reset = false)
    (hLock : s.atBottom i = false) (hNext : (s.step i).Safe)
    (hFree : s.removesRow = true → Free (filled (s.boardNext i)) (place s.shape.cells s.anchor)) :
    Play rules s.position (s.moves i) (s.step i).position := by
  have hKeeps : (s.step i).chooser.newShape = false := by
    rw [Game.newShape_step, hReset, hLock]
    rfl
  have hMoves : s.moves i = (if s.removesRow then [.clear] else []) ++
      if (s.step i).shape = s.shape ∧ (s.step i).anchor = s.anchor then [] else [.glide] := by
    rw [Game.moves, hLock, if_neg Bool.false_ne_true, hNew, if_neg Bool.false_ne_true]
  -- the row goes first, under the piece where it is
  have hBoard := plays_boardNext (s := s) (i := i) hReset (q := some (s.shape, s.anchor))
    fun hRemoves k a hPiece => by
      obtain ⟨rfl, rfl⟩ := Prod.mk.inj (Option.some.inj hPiece)
      exact hFree hRemoves
  rw [hMoves, Game.position_of_shown hNew, Game.position_of_shown hKeeps, Game.board_step hLock]
  refine hBoard.trans ?_
  by_cases hSame : (s.step i).shape = s.shape ∧ (s.step i).anchor = s.anchor
  · rw [if_pos hSame, hSame.1, hSame.2]
    exact .nil
  · obtain ⟨e, hStep, hTo⟩ := anchor_step hInv hReset hLock
    have hFits := hNext.fits_anchor (hInv.step i)
    rw [Game.board_step hLock, hTo] at hFits
    rw [if_neg hSame, hTo]
    exact (Move.glide (R := rules) (kind_step hSafe.blockSel_ne_seven hNew) hStep hFits).play

/-! ## A run -/

/-- The moves of the first `n` clocks. -/
def playedMoves (s₀ : Game) (w : ℕ → Inputs) : ℕ → List MoveKind
  | 0 => []
  | n + 1 => playedMoves s₀ w n ++ (s₀.run w n).moves (w n)

/-- One clock of a run. -/
theorem plays_clock (hReset : s₀.IsReset) (hLow : ∀ n, (w n).reset = false)
    (hSpaced : Spaced 24 (frameEdge s₀ w)) {n : ℕ} (hSpawn : SpawnsSafe s₀ w (n + 1))
    (hOk : StepsOk s₀ w (n + 1)) :
    Play rules (s₀.run w n).position ((s₀.run w n).moves (w n)) (s₀.run w (n + 1)).position := by
  have hInv := gameInv_run hReset w n
  have hSafe : (s₀.run w n).chooser.newShape = false → (s₀.run w n).Safe :=
    piece_safe hReset hLow hSpaced (fun l hl => hSpawn l (by omega)) fun l hl => hOk l (by omega)
  have hNext : (s₀.run w (n + 1)).chooser.newShape = false → (s₀.run w (n + 1)).Safe :=
    piece_safe hReset hLow hSpaced hSpawn hOk
  by_cases hLock : locks s₀ w n
  · have hNew := newShape_eq_false_of_locks hReset hLow hLock
    exact plays_lock hInv (hSafe hNew) hNew (hLow n)
      (not_removesRow_of_edge hReset hLow hSpaced (Game.edge_of_atBottom hLock)) hLock
  have hNoLock : (s₀.run w n).atBottom (w n) = false := by simpa [locks] using hLock
  have hShown : (s₀.run w (n + 1)).chooser.newShape = false := by
    rw [← Bool.not_eq_true]
    exact mt (newShape_succ_iff hLow n).mp hLock
  cases hNew : (s₀.run w n).chooser.newShape with
  | true => exact plays_load hInv hNew (hLow n) hNoLock (hNext hShown)
  | false =>
    refine plays_fall hInv (hSafe hNew) hNew (hLow n) hNoLock (hNext hShown) fun hRemoves => ?_
    -- a removal leaves the piece alone
    have hKept := clear_keeps_safe hReset hLow hSpaced hNew (hSafe hNew) hRemoves
    obtain ⟨a, hAt, hSel, -⟩ := (hSafe hNew).fits hInv
    rw [Game.anchor_eq hAt]
    rw [hSel] at hKept
    exact ((cellsSafe_iff_fits hAt).mp hKept).free

/-- A run of the four modules is a play of the game, under the conditions that keep its
pieces safe. -/
theorem plays (hReset : s₀.IsReset) (hLow : ∀ n, (w n).reset = false)
    (hSpaced : Spaced 24 (frameEdge s₀ w)) (n : ℕ) (hSpawn : SpawnsSafe s₀ w n)
    (hOk : StepsOk s₀ w n) :
    Play rules ⟨∅, none⟩ (playedMoves s₀ w n) (s₀.run w n).position := by
  induction n with
  | zero =>
    rw [Game.run, trace_zero, Game.position_of_newShape hReset.newShape, hReset.board, filled_zero]
    exact .nil
  | succ n ih =>
    exact (ih (fun l hl => hSpawn l (by omega)) fun l hl => hOk l (by omega)).trans
      (plays_clock hReset hLow hSpaced hSpawn hOk)

theorem count_settle (n : ℕ) :
    (playedMoves s₀ w n).count .settle = Nat.count (locks s₀ w) n := by
  induction n with
  | zero => rfl
  | succ n ih =>
    rw [playedMoves, List.count_append, ih, Nat.count_succ, Game.moves]
    by_cases hLock : locks s₀ w n
    · rw [if_pos hLock, if_pos (show (s₀.run w n).atBottom (w n) = true from hLock)]
      rfl
    · rw [if_neg hLock, if_neg (show ¬ (s₀.run w n).atBottom (w n) = true from hLock),
        List.count_append]
      split_ifs <;> rfl

theorem count_clear (hReset : s₀.IsReset) (hLow : ∀ n, (w n).reset = false)
    (hSpaced : Spaced 24 (frameEdge s₀ w)) (n : ℕ) :
    (playedMoves s₀ w n).count .clear =
      Nat.count (fun k => (s₀.run w k).removesRow = true) n := by
  induction n with
  | zero => rfl
  | succ n ih =>
    rw [playedMoves, List.count_append, ih, Nat.count_succ, Game.moves]
    by_cases hLock : locks s₀ w n
    · have hNone := not_removesRow_of_edge hReset hLow hSpaced (Game.edge_of_atBottom hLock)
      rw [if_pos (show (s₀.run w n).atBottom (w n) = true from hLock), hNone]
      rfl
    · rw [if_neg (show ¬ (s₀.run w n).atBottom (w n) = true from hLock), List.count_append]
      split_ifs <;> rfl

end Run

theorem legal_empty : Falling.Legal rules ⟨∅, none⟩ where
  settled := Set.empty_subset _
  fits := fun _ _ hPiece => absurd hPiece (Option.some_ne_none _).symm

namespace TetrisTop

variable {contents : Rom → ℕ → BitVec 4} {s : TetrisTop} {w : ℕ → TopInputs}

/-- The complete system plays by the rules, whatever the PLL and the line do, as long as every
piece appears on free cells and every clock meets `StepOk`: its moves are a play from the
empty well and its position is legal. The moves that settle a piece are its locks and those
that take out a row are what the score counts, so that pieces come and go in turn
and every cell is accounted for. -/
theorem Started.plays_by_the_rules (h : s.Started) (hUp : KeyUp w) (n : ℕ)
    (hSpawn : SpawnsSafe s.game (s.gameWave contents w) n)
    (hOk : StepsOk s.game (s.gameWave contents w) n) :
    let es := playedMoves s.game (s.gameWave contents w) n
    let g := (s.run contents w n).game
    (Play rules ⟨∅, none⟩ es g.position ∧ Falling.Legal rules g.position) ∧
      (es.count .settle = Nat.count (locks s.game (s.gameWave contents w)) n ∧
        g.cells.score = BitVec.ofNat 16 (es.count .clear)) ∧
      es.count .spawn = es.count .settle + (if g.position.piece.isSome then 1 else 0) ∧
      (filled g.cells.board).ncard + 11 * es.count .clear = 4 * es.count .settle := by
  intro es g
  have hLow : ∀ k, (s.gameWave contents w k).reset = false := h.gameLow hUp
  have hSpaced : Spaced 24 (frameEdge s.game (s.gameWave contents w)) := h.spaced hUp
  have hGame : g = s.game.run (s.gameWave contents w) n := game_run n
  have hPlay := plays h.game hLow hSpaced n hSpawn hOk
  rw [hGame]
  refine ⟨⟨hPlay, hPlay.legal legal_empty⟩, ⟨count_settle n, ?_⟩, hPlay.spawns, ?_⟩
  · rw [count_clear h.game hLow hSpaced, score_eq_count h.game hLow]
  · have hBalance := hPlay.balance legal_empty card_cells
    rwa [ncard_empty, Nat.zero_add, Game.settled_position] at hBalance

/-- Nothing touched, the first piece comes down and settles. -/
theorem plays_by_the_rules_settled :
    ∃ n, locks fresh.game (fresh.gameWave (fun _ _ => 0) untouched) n ∧
      let es := playedMoves fresh.game (fresh.gameWave (fun _ _ => 0) untouched) (n + 1)
      let g := (fresh.run (fun _ _ => 0) untouched (n + 1)).game
      (Play rules ⟨∅, none⟩ es g.position ∧ Falling.Legal rules g.position) ∧
        es.count .settle = 1 ∧
        es.count .spawn = es.count .settle + (if g.position.piece.isSome then 1 else 0) ∧
        (filled g.cells.board).ncard + 11 * es.count .clear = 4 := by
  set v := fresh.gameWave (fun _ _ => 0) untouched with hv
  have hLow : ∀ k, (v k).reset = false := started_fresh.gameLow keyUp_untouched
  -- the first lock there is
  obtain ⟨l, -, -, hSome⟩ :=
    started_fresh.exists_lock (fun _ _ => 0) keyUp_untouched halved_untouched 0
  have hExists : ∃ n, locks fresh.game v n := ⟨l, hSome⟩
  refine ⟨Nat.find hExists, Nat.find_spec hExists, ?_⟩
  set n := Nat.find hExists with hn
  have hFirst : ∀ k < n, ¬ locks fresh.game v k := fun k hk => Nat.find_min hExists hk
  have hCount : Nat.count (locks fresh.game v) (n + 1) = 1 := by
    rw [count_succ_of _ (Nat.find_spec hExists), Nat.count_iff_forall_not.mpr hFirst]
  have hSpawn : SpawnsSafe fresh.game v (n + 1) := by
    intro k hk hLoad
    rcases (loadsAt_iff started_fresh.game hLow k).mp hLoad with rfl | ⟨k', rfl, hLock⟩
    · decide +kernel
    · exact absurd hLock (hFirst k' (by omega))
  have hOk : StepsOk fresh.game v (n + 1) := stepsOk_of_released started_fresh.game hLow
    (started_fresh.spaced keyUp_untouched)
    (started_fresh.press_idle keyUp_untouched (fun _ => rfl) rfl) (n + 1)
  obtain ⟨hPlay, ⟨hSettle, -⟩, hSpawns, hCells⟩ :=
    started_fresh.plays_by_the_rules keyUp_untouched (n + 1) hSpawn hOk
  rw [hCount] at hSettle
  rw [hSettle] at hCells
  exact ⟨hPlay, hSettle, hSpawns, hCells⟩

end TetrisTop

end Ece385.Tetris

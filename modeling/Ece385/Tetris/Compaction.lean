import Ece385.Tetris.LineClear

/-!
# Tetris — the line-clear chain as a compaction

One branch of the chain takes one row out. Over the clocks that follow a lock
the branches add up: as long as the lowest full row is one the chain looks at,
it is removed, the kept rows keep their order and one empty row enters on top.
The chain ends with row 6, so a full row further up is removed only if enough
full rows below it bring it down to row 6 first.

* `lineClear_of_lowest` — the sixteen branches are one generic step.
* `Settled` — where a run of `board` stops: no full row from 6 on, the
  compaction unchanged, one point for each row removed.

Main results:

* `clear_chain_generic` — one clock, and the bound on how many act.
* `clears_completely_iff` — when the result is the compaction.
* `row_five_stays` — a full row in row 5 of an empty board stays there.
-/

open RowStack Clocked

namespace Ece385.Tetris

/-! ## The chain removes the lowest full row -/

theorem lineClearTable_sorted : lineClearTable.Pairwise fun e f => f.1 < e.1 := by decide

/-- The branches are tried from row 21 upwards, so the first that is taken is
that of the lowest full row. -/
theorem lineClear_eq_some_lowest {b b' : Board} (h : lineClear b = some b') :
    ∃ i : Fin 22, 6 ≤ i.val ∧ LowestFull b i ∧ b' = removeRow b i := by
  obtain ⟨e, hFind, rfl⟩ := Option.map_eq_some_iff.mp h
  have hMem := List.mem_of_find?_eq_some hFind
  obtain ⟨hFull, before, after, hTable, hBefore⟩ := List.find?_eq_some_iff_append.mp hFind
  refine ⟨e.1, (lineClearTable_spec e hMem).1, ⟨(rowFull_iff b e.1).mp hFull, ?_⟩,
    assignRows_eq_removeRow hMem⟩
  intro j hj hFullJ
  obtain ⟨f, hf, rfl⟩ := mem_lineClearTable j
    ((lineClearTable_spec e hMem).1.trans (Fin.le_def.mp hj.le))
  have hSorted := lineClearTable_sorted
  rw [hTable] at hf hSorted
  rcases List.mem_append.mp hf with hIn | hIn
  -- a branch tried earlier was not taken, a later one is for a row further up
  · have hNot := hBefore f hIn
    rw [(rowFull_iff b f.1).mpr hFullJ] at hNot
    exact absurd hNot (by decide)
  · rcases List.mem_cons.mp hIn with rfl | hIn
    · exact absurd hj (lt_irrefl _)
    · have hLt := (List.pairwise_cons.mp (List.pairwise_append.mp hSorted).2.1).1 f hIn
      exact absurd hj (lt_asymm hLt)

theorem lineClear_of_lowest {b : Board} {i : Fin 22} (hi : 6 ≤ i.val) (h : LowestFull b i) :
    lineClear b = some (removeRow b i) := by
  cases hClear : lineClear b with
  | none => exact absurd h.full (lineClear_eq_none.mp hClear i hi)
  | some b' =>
    obtain ⟨j, -, hj, rfl⟩ := lineClear_eq_some_lowest hClear
    obtain rfl : i = j := by
      rcases lt_trichotomy i j with hij | hij | hij
      · exact absurd hj.full (h.below j hij)
      · exact hij
      · exact absurd h.full (hj.below i hij)
    rfl

/-! ## `board` between two locks -/

/-- The ports of `board` that do not matter while `Reset` and `at_bottom` are low. -/
structure BoardPorts where
  choose : Choose
  xPos : BitVec 10
  yPos : BitVec 10

namespace BoardRegs

variable {s : BoardRegs} {p : BoardPorts}

/-- A clock with `Reset` and `at_bottom` low. -/
def clearStep (s : BoardRegs) (p : BoardPorts) : BoardRegs :=
  s.step false false p.choose p.xPos p.yPos

theorem clearStep_of_lowest {i : Fin 22} (hi : 6 ≤ i.val) (h : LowestFull s.board i) :
    s.clearStep p = { board := removeRow s.board i, score := s.score + 1 } := by
  rw [clearStep, step, lineClear_of_lowest hi h]
  rfl

theorem clearStep_of_none (h : ∀ i : Fin 22, 6 ≤ i.val → ¬ Full (s.board i)) :
    s.clearStep p = s := by
  rw [clearStep, step, lineClear_eq_none.mpr h]
  rfl

/-- A board the chain has nothing to do on stays as it is. -/
theorem trace_of_none (h : ∀ i : Fin 22, 6 ≤ i.val → ¬ Full (s.board i))
    (w : ℕ → BoardPorts) (n : ℕ) : trace clearStep s w n = s := by
  induction n with
  | zero => rfl
  | succ n ih => rw [trace_succ, ih, clearStep_of_none h]

end BoardRegs

/-! ## Where a run stops -/

/-- `t` is what a run from `s` settles in after `n` clocks that all act. -/
structure Settled (s t : BoardRegs) (n : ℕ) : Prop where
  rows : ∀ i : Fin 22, 6 ≤ i.val → ¬ Full (t.board i)
  full : fullRows t.board + n = fullRows s.board
  score : t.score = s.score + BitVec.ofNat 16 n
  compact : compact t.board = compact s.board
  reaches : ReachesRow 6 t.board ↔ ReachesRow 6 s.board

/-- Every run settles, one clock for each row removed. -/
theorem exists_settled (s : BoardRegs) (w : ℕ → BoardPorts) :
    ∃ t n, Settled s t n ∧ ∀ l ≥ n, trace BoardRegs.clearStep s w l = t := by
  -- on the full rows left: each clock that acts takes one of them
  induction hCount : fullRows s.board generalizing s w with
  | zero =>
    have hNone := fullRows_eq_zero_iff.mp hCount
    exact ⟨s, 0, ⟨fun i _ => hNone i, rfl, by simp, rfl, Iff.rfl⟩,
      fun l _ => BoardRegs.trace_of_none (fun i _ => hNone i) w l⟩
  | succ k ih =>
    by_cases hAct : ∃ i : Fin 22, 6 ≤ i.val ∧ LowestFull s.board i
    · obtain ⟨i, hi, hLow⟩ := hAct
      have hStep := BoardRegs.clearStep_of_lowest (p := w 0) hi hLow
      have hLess := fullRows_removeRow hLow.full
      obtain ⟨t, n, hSettled, hRun⟩ :=
        ih (s.clearStep (w 0)) (fun l => w (1 + l)) (by rw [hStep]; dsimp only; omega)
      obtain ⟨hRows, hFull, hScore, hCompact, hReaches⟩ := hSettled
      rw [hStep] at hFull hScore hCompact hReaches
      dsimp only at hFull hScore hCompact hReaches
      refine ⟨t, n + 1, ⟨hRows, by omega, ?_, ?_, ?_⟩, fun l hl => ?_⟩
      · rw [hScore, Nat.add_comm n, BitVec.ofNat_add, ← BitVec.add_assoc]
        rfl
      · rw [hCompact, compact_removeRow hLow.full]
      · rw [hReaches, reachesRow_removeRow hLow hi]
      · obtain ⟨l, rfl⟩ : ∃ l', l = 1 + l' := ⟨l - 1, by omega⟩
        rw [trace_add]
        exact hRun l (by omega)
    · -- full rows may be left above row 6, where no branch looks
      have hNone : ∀ i : Fin 22, 6 ≤ i.val → ¬ Full (s.board i) := by
        rw [← lineClear_eq_none]
        cases hClear : lineClear s.board with
        | none => rfl
        | some b' =>
          obtain ⟨i, hi, hLow, -⟩ := lineClear_eq_some_lowest hClear
          exact absurd ⟨i, hi, hLow⟩ hAct
      exact ⟨s, 0, ⟨hNone, rfl, by simp, rfl, Iff.rfl⟩,
        fun l _ => BoardRegs.trace_of_none hNone w l⟩

/-! ## One clock of the chain -/

/-- The hand-unrolled chain is the generic step. For every board and score, with
`Reset` and `at_bottom` low: if `i` is the lowest full row of 6 to 21, the rows
below it stay, the rows above it come down by one, row 0 is empty and the score
grows by 1, so that the rows kept are the old ones under one more empty row and
one full row has gone; if there is none, nothing changes; and on every run at
most 22 clocks lead to a board with no full row in 6 to 21. -/
theorem clear_chain_generic (s : BoardRegs) (p : BoardPorts) :
    (∀ i : Fin 22, 6 ≤ i.val → Full (s.board i) → (∀ j, i < j → ¬ Full (s.board j)) →
      (∀ j, i < j → (s.clearStep p).board j = s.board j) ∧
      (∀ j j' : Fin 22, j.val = j'.val + 1 → j ≤ i → (s.clearStep p).board j = s.board j') ∧
      (s.clearStep p).board 0 = 0 ∧ (s.clearStep p).score = s.score + 1 ∧
      keptRows (s.clearStep p).board = 0 :: keptRows s.board ∧
      fullRows (s.clearStep p).board + 1 = fullRows s.board) ∧
    ((∀ i : Fin 22, 6 ≤ i.val → ¬ Full (s.board i)) → s.clearStep p = s) ∧
    (∀ w : ℕ → BoardPorts, ∃ n ≤ 22, ∀ i : Fin 22, 6 ≤ i.val →
      ¬ Full ((trace BoardRegs.clearStep s w n).board i)) := by
  refine ⟨fun i hi hFull hBelow => ?_, BoardRegs.clearStep_of_none, fun w => ?_⟩
  · rw [BoardRegs.clearStep_of_lowest hi ⟨hFull, hBelow⟩]
    exact ⟨fun j => removeRow_of_lt s.board, fun j j' => removeRow_of_le s.board, rfl, rfl,
      keptRows_removeRow hFull, fullRows_removeRow hFull⟩
  · obtain ⟨t, n, hSettled, hRun⟩ := exists_settled s w
    have hFull := hSettled.full
    have hLe := fullRows_le s.board
    exact ⟨n, by omega, by rw [hRun n le_rfl]; exact hSettled.rows⟩

/-- Row 21 full, the rest empty: one clock clears the board. -/
theorem clear_chain_generic_bottom (p : BoardPorts) :
    let s : BoardRegs := { board := fun i _ => if i = 21 then 1 else 0, score := 0 }
    (s.clearStep p).board 0 = 0 ∧ (s.clearStep p).score = 1 ∧
      fullRows (s.clearStep p).board + 1 = fullRows s.board := by
  intro s
  have hFull : Full (s.board 21) := fun _ hZero => absurd hZero (by simp [s])
  have hLast : ∀ j : Fin 22, 21 < j → ¬ Full (s.board j) := fun j hj =>
    absurd (Fin.le_last j) (not_le.mpr hj)
  obtain ⟨-, -, hTop, hScore, -, hCount⟩ :=
    (clear_chain_generic s p).1 21 (by decide) hFull hLast
  exact ⟨hTop, hScore, hCount⟩

/-! ## The whole compaction -/

/-- After at most 22 clocks the board is the compaction and stays so, and the
score has counted every full row. -/
def ClearsCompletely (s : BoardRegs) : Prop :=
  ∀ w : ℕ → BoardPorts, ∃ n ≤ 22, ∀ l ≥ n, trace BoardRegs.clearStep s w l =
    { board := compact s.board, score := s.score + BitVec.ofNat 16 (fullRows s.board) }

/-- Line clearing is complete, for every board and score, exactly if the topmost
full row comes down to row 6. -/
theorem clears_completely_iff (s : BoardRegs) : ClearsCompletely s ↔ ReachesRow 6 s.board := by
  constructor
  · intro hClears
    let w : ℕ → BoardPorts := fun _ => ⟨{}, 0, 0⟩
    obtain ⟨n, -, hEnd⟩ := hClears w
    obtain ⟨t, k, hSettled, hRun⟩ := exists_settled s w
    -- both runs have stopped by then, so the compaction is what was settled in
    have hSame := (hRun (max n k) (le_max_right _ _)).symm.trans (hEnd _ (le_max_left _ _))
    rw [← hSettled.reaches, reachesRow_iff_of_none hSettled.rows, hSame]
    exact not_full_compact s.board
  · intro hReaches w
    obtain ⟨t, n, hSettled, hRun⟩ := exists_settled s w
    have hNone := (reachesRow_iff_of_none hSettled.rows).mp (hSettled.reaches.mpr hReaches)
    have hFull := hSettled.full
    rw [fullRows_eq_zero_iff.mpr hNone, Nat.zero_add] at hFull
    refine ⟨n, hFull ▸ fullRows_le s.board, fun l hl => ?_⟩
    rw [hRun l hl, ← hFull, ← hSettled.score, ← hSettled.compact, compact_eq_self hNone]

/-- Row 5 full, every other cell empty. -/
def fiveFull : BoardRegs where
  board := fun i _ => if i.val = 5 then 1 else 0
  score := 0

/-- The chain never looks at row 5. -/
theorem row_five_stays : Full (fiveFull.board 5) ∧ ¬ ClearsCompletely fiveFull := by
  have hFull : Full (fiveFull.board 5) := fun _ hZero => absurd hZero (by simp [fiveFull])
  have hNone : ∀ i : Fin 22, 6 ≤ i.val → ¬ Full (fiveFull.board i) := by
    intro i hi hFullI
    have hNe : i.val ≠ 5 := by omega
    exact hFullI 0 (if_neg hNe)
  refine ⟨hFull, fun hClears => ?_⟩
  obtain ⟨n, -, hEnd⟩ := hClears fun _ => ⟨{}, 0, 0⟩
  have hSame := hEnd n le_rfl
  rw [BoardRegs.trace_of_none hNone] at hSame
  have hBoard : fiveFull.board = compact fiveFull.board := congrArg BoardRegs.board hSame
  exact not_full_compact fiveFull.board 5 (hBoard ▸ hFull)

end Ece385.Tetris

import Ece385.Tetris.Handover

/-!
# Tetris — a lock is never clobbered by a line clear

The paint of a lock and the row shift of a line clear are two statements of
one `always_ff`, and the shift wins. Nothing in the code arbitrates between
them; what keeps them apart is time. A lock can complete rows, they are
removed one a clock, and every removal leaves one more empty row on top: after
22 clocks there is nothing left to remove, while the next lock needs another
frame edge.

* `lineClear_eq_some`, `lineClear_eq_none` — the sixteen-branch chain takes out
  the lowest full row of 6 to 21.
* `cells_step_some`, `cells_step_lock`, `cells_step_same` — the board on a clock
  with a removal, with a lock, and with neither.
* `RowsPending` — the invariant: a full row at clock `n` goes back to a lock
  `t < n`, and `n - t - 1` rows on top have been cleared since.
* `framed`, `Game.run_frames` — runs with one frame edge in 24 clocks, frame by frame.

Main result:

* `lock_not_clobbered` — with frame edges 24 clocks apart, on every run.
-/

open RowStack Clocked

namespace Ece385.Tetris

/-! ## The line-clear chain -/

theorem rowFull_iff (b : Board) (i : Fin 22) : rowFull b i = true ↔ Full (b i) := by
  simp [rowFull, Full, Fin.forall_fin_succ, and_assoc]

/-- Each branch tests a row from 6 on and assigns the rows in order, leaving
the tested one out. -/
theorem lineClearTable_spec : ∀ e ∈ lineClearTable,
    6 ≤ e.1.val ∧ ∀ j : Fin 21, e.2.getD (21 - j.succ.val) 0 = e.1.succAbove j := by
  decide

/-- Every row from 6 on is tested. -/
theorem mem_lineClearTable : ∀ i : Fin 22, 6 ≤ i.val → ∃ e ∈ lineClearTable, e.1 = i := by
  decide

theorem assignRows_eq_removeRow {b : Board} {e : Fin 22 × List (Fin 22)}
    (he : e ∈ lineClearTable) : assignRows b e.2 = removeRow b e.1 := by
  funext i
  cases i using Fin.cases with
  | zero => rfl
  | succ j =>
    rw [assignRows, if_neg (Fin.succ_ne_zero j), (lineClearTable_spec e he).2 j, removeRow_succ]

theorem lineClear_eq_some {b b' : Board} (h : lineClear b = some b') :
    ∃ i : Fin 22, 6 ≤ i.val ∧ Full (b i) ∧ b' = removeRow b i := by
  obtain ⟨e, hFind, rfl⟩ := Option.map_eq_some_iff.mp h
  have hMem := List.mem_of_find?_eq_some hFind
  have hFull := List.find?_some hFind
  exact ⟨e.1, (lineClearTable_spec e hMem).1, (rowFull_iff b e.1).mp hFull,
    assignRows_eq_removeRow hMem⟩

theorem lineClear_eq_none {b : Board} :
    lineClear b = none ↔ ∀ i : Fin 22, 6 ≤ i.val → ¬ Full (b i) := by
  rw [lineClear, Option.map_eq_none_iff, List.find?_eq_none]
  constructor
  · intro hNone i hi
    obtain ⟨e, he, rfl⟩ := mem_lineClearTable i hi
    rw [← rowFull_iff]
    exact hNone e he
  · intro hRows e he
    rw [rowFull_iff]
    exact hRows e.1 (lineClearTable_spec e he).1

theorem lineClear_zero : lineClear 0 = none :=
  lineClear_eq_none.mpr fun _ _ hFull => hFull 0 rfl

/-! ## One clock of `board` -/

namespace Game

variable {s : Game} {i : Inputs}

/-- The line-clear chain takes a row out on this clock. -/
def removesRow (s : Game) : Bool := (lineClear s.cells.board).isSome

theorem cells_step_some {b' : Board} (h : lineClear s.cells.board = some b') :
    (s.step i).cells = { board := b', score := s.cells.score + 1 } := by
  simp only [step, BoardRegs.step, h, BoardRegs.override]

theorem cells_step_lock (h : lineClear s.cells.board = none) (hReset : i.reset = false)
    (hLock : s.atBottom i = true) :
    (s.step i).cells =
      { s.cells with
        board := paint s.cells.board s.select.choose s.motion.blockXPos s.motion.blockYPos } := by
  simp only [step, BoardRegs.step, h, BoardRegs.override, BoardRegs.assign, hReset, hLock]
  rfl

theorem cells_step_same (h : lineClear s.cells.board = none) (hReset : i.reset = false)
    (hLock : s.atBottom i = false) : (s.step i).cells = s.cells := by
  simp only [step, BoardRegs.step, h, BoardRegs.override, BoardRegs.assign, hReset, hLock]
  rfl

end Game

theorem not_removesRow_iff {s : Game} : s.removesRow = false ↔ lineClear s.cells.board = none := by
  rw [Game.removesRow, Option.isSome_eq_false_iff, Option.isNone_iff_eq_none]

theorem removesRow_iff {s : Game} :
    s.removesRow = true ↔ ∃ b', lineClear s.cells.board = some b' := by
  rw [Game.removesRow, Option.isSome_iff_exists]

/-- A removal takes one full row out of the board, whatever else is on the clock. -/
theorem Game.exists_removed {s : Game} (h : s.removesRow = true) :
    ∃ r, Full (s.cells.board r) ∧ ∀ i, (s.step i).cells.board = removeRow s.cells.board r := by
  obtain ⟨b', hb'⟩ := removesRow_iff.mp h
  obtain ⟨r, -, hFull, rfl⟩ := lineClear_eq_some hb'
  exact ⟨r, hFull, fun i => congrArg BoardRegs.board (cells_step_some hb')⟩

/-! ## Full rows between two frame edges -/

section Run

variable {s₀ : Game} {w : ℕ → Inputs}

/-- A row to remove at clock `n` was completed by a lock at `t`, and every clock
since has cleared one row on top. -/
def RowsPending (s₀ : Game) (w : ℕ → Inputs) (n : ℕ) : Prop :=
  (s₀.run w n).removesRow = true →
    ∃ t < n, locks s₀ w t ∧ TopEmpty (n - t - 1) (s₀.run w n).cells.board

/-- One clock: a removal clears one more row, and without one only a lock can
complete a row. -/
theorem RowsPending.succ {n : ℕ} (hLow : (w n).reset = false) (h : RowsPending s₀ w n) :
    RowsPending s₀ w (n + 1) := by
  intro hNext
  cases hNow : (s₀.run w n).removesRow with
  | true =>
    -- the row on top of the removed one is empty, and so is one row more
    obtain ⟨t, hlt, hLock, hTop⟩ := h hNow
    obtain ⟨r, hFull, hBoard⟩ := Game.exists_removed hNow
    refine ⟨t, by omega, hLock, ?_⟩
    rw [Game.run, trace_succ, hBoard, show n + 1 - t - 1 = n - t - 1 + 1 by omega]
    exact hTop.removeRow (hTop.le_of_full hFull)
  | false =>
    have hNone := not_removesRow_iff.mp hNow
    cases hLock : (s₀.run w n).atBottom (w n) with
    | true =>
      -- nothing has been cleared since
      refine ⟨n, by omega, hLock, ?_⟩
      intro i hi
      omega
    | false =>
      have hSame : (s₀.run w (n + 1)).cells = (s₀.run w n).cells :=
        Game.cells_step_same hNone hLow hLock
      rw [Game.removesRow, hSame, hNone] at hNext
      exact absurd hNext (by decide)

theorem rowsPending (hReset : s₀.IsReset) (hLow : ∀ n, (w n).reset = false) (n : ℕ) :
    RowsPending s₀ w n := by
  induction n with
  | zero =>
    intro hNow
    rw [Game.removesRow, Game.run, trace_zero, hReset.board, lineClear_zero] at hNow
    exact absurd hNow (by decide)
  | succ n ih => exact ih.succ (hLow n)

/-- 24 clocks after the last frame edge nothing is left to remove. -/
theorem not_removesRow_of_edge (hReset : s₀.IsReset) (hLow : ∀ n, (w n).reset = false)
    (hSpaced : Spaced 24 (frameEdge s₀ w)) {n : ℕ} (hEdge : frameEdge s₀ w n) :
    (s₀.run w n).removesRow = false := by
  by_contra hNow
  rw [Bool.not_eq_false] at hNow
  obtain ⟨t, hlt, hLock, hTop⟩ := rowsPending hReset hLow n hNow
  obtain ⟨r, hFull, -⟩ := Game.exists_removed hNow
  -- the full row would be below 22 rows that are empty by now
  have hGap := hSpaced t n hlt (Game.edge_of_atBottom hLock) hEdge
  have hRow := hTop.le_of_full hFull
  omega

/-- The score counts the removals, modulo 2^16. -/
theorem score_eq_count (hReset : s₀.IsReset) (hLow : ∀ n, (w n).reset = false) (n : ℕ) :
    (s₀.run w n).cells.score =
      BitVec.ofNat 16 (Nat.count (fun k => (s₀.run w k).removesRow = true) n) := by
  induction n with
  | zero => simpa using hReset.score
  | succ n ih =>
    cases hNow : (s₀.run w n).removesRow with
    | true =>
      obtain ⟨b', hb'⟩ := removesRow_iff.mp hNow
      rw [count_succ_of _ hNow, Game.run, trace_succ, Game.cells_step_some hb', BitVec.ofNat_add]
      exact congrArg (· + 1) ih
    | false =>
      have hNone := not_removesRow_iff.mp hNow
      rw [count_succ_of_not _ (by simp [hNow]), ← ih, Game.run, trace_succ]
      cases hLock : (s₀.run w n).atBottom (w n) with
      | true => rw [Game.cells_step_lock hNone (hLow n) hLock]
      | false => rw [Game.cells_step_same hNone (hLow n) hLock]

end Run

/-! ## Frames of 24 clocks -/

section Frames

variable {s s' : Game} {i : Inputs} {ok : Game → Inputs → Bool} {l : List Inputs}

/-- Each listed input held for 24 clocks, `frame_clk` high on the first of them. -/
def framed (l : List Inputs) (n : ℕ) : Inputs :=
  { listed l (n / 24) with reset := false, frameClk := decide (n % 24 = 0) }

/-- The input `i` on the first clock of a frame, and on the others. -/
def Inputs.first (i : Inputs) : Inputs := { i with reset := false, frameClk := true }
def Inputs.rest (i : Inputs) : Inputs := { i with reset := false, frameClk := false }

/-- Nothing moves while `i` is held with `frame_clk` low. -/
def Game.quiet (s : Game) (i : Inputs) : Bool :=
  !s.motion.frameClkRisingEdge && !s.motion.frameClkDelayed && !s.chooser.newShape &&
    !s.removesRow && decide (rotateNext (s.rotateInputs i) s.currentState = s.currentState)

/-- The state after a frame of input `i`, every clock of it checked. -/
def Game.frame? (ok : Game → Inputs → Bool) (s : Game) (i : Inputs) : Option Game :=
  if ok s i.first then settle Game.step ok Game.quiet i.rest 23 (s.step i.first) else none

theorem sampleFrameClk_false {m : MotionRegs} (hEdge : m.frameClkRisingEdge = false)
    (hDelayed : m.frameClkDelayed = false) : m.sampleFrameClk false = m := by
  cases m
  simp_all [MotionRegs.sampleFrameClk]

theorem Game.step_eq_self_of_quiet (h : s.quiet i.rest = true) : s.step i.rest = s := by
  simp only [quiet, Bool.and_eq_true, Bool.not_eq_true', decide_eq_true_eq] at h
  obtain ⟨⟨⟨⟨hEdge, hDelayed⟩, hNew⟩, hKept⟩, hState⟩ := h
  have hLock : s.atBottom i.rest = false := atBottom_idle hEdge
  refine Game.ext ?_ ?_ ?_ (cells_step_same (not_removesRow_iff.mp hKept) rfl hLock)
  · rw [step, step_idle (i := s.motionInputs i.rest) rfl hEdge]
    exact sampleFrameClk_false hEdge hDelayed
  · rw [step, hNew]
    exact hState
  · rw [step, hLock]
    simp [ChooseRegs.step, hNew, Inputs.rest]

theorem Game.run_frame {w : ℕ → Inputs} (h : s.frame? ok i = some s') (h0 : w 0 = i.first)
    (hRest : ∀ m, 1 ≤ m → m < 24 → w m = i.rest) :
    s.run w 24 = s' ∧ ∀ m < 24, ok (s.run w m) (w m) = true := by
  rw [frame?] at h
  split_ifs at h with hOk
  -- from clock 1 on the input is held
  have hHeld : ∀ m < 24, s.run w (1 + m) = (s.step i.first).run (fun _ => i.rest) m := by
    intro m hm
    rw [run, trace_add, trace_succ, trace_zero, h0]
    exact trace_congr fun k hk => hRest (1 + k) (by omega) (by omega)
  have hSettle := trace_settle (fun _ => step_eq_self_of_quiet) h
  refine ⟨(hHeld 23 (by omega)).trans ((hSettle 23).2 (by omega)), fun m hm => ?_⟩
  cases m with
  | zero => rwa [run, trace_zero, h0]
  | succ m =>
    rw [Nat.add_comm m 1, hHeld m (by omega), hRest (1 + m) (by omega) (by omega)]
    exact (hSettle m).1

theorem framed_cons (l : List Inputs) (m : ℕ) : framed (i :: l) (24 + m) = framed l m := by
  have hDiv : (24 + m) / 24 = m / 24 + 1 := by omega
  have hMod : (24 + m) % 24 = m % 24 := by omega
  rw [framed, framed, hDiv, hMod]
  rfl

/-- Frame by frame, a whole list. -/
theorem Game.run_frames (h : l.foldlM (Game.frame? ok) s = some s') :
    s.run (framed l) (24 * l.length) = s' ∧
      ∀ m < 24 * l.length, ok (s.run (framed l) m) (framed l m) = true := by
  induction l generalizing s with
  | nil =>
    refine ⟨?_, fun m hm => absurd hm (by simp)⟩
    exact Option.some.inj h
  | cons i l ih =>
    rw [List.foldlM_cons] at h
    obtain ⟨s₁, hFrame, hTail⟩ := Option.bind_eq_some_iff.mp h
    have hFirst : ∀ m, 1 ≤ m → m < 24 → framed (i :: l) m = i.rest := by
      intro m hm hlt
      have hDiv : m / 24 = 0 := by omega
      have hMod : m % 24 ≠ 0 := by omega
      rw [framed, hDiv, decide_eq_false hMod]
      rfl
    obtain ⟨hRun, hNow⟩ := run_frame hFrame (w := framed (i :: l)) rfl hFirst
    have hShift : (fun m => framed (i :: l) (24 + m)) = framed l := funext fun m => framed_cons l m
    have hLater : ∀ m, s.run (framed (i :: l)) (24 + m) = s₁.run (framed l) m := by
      intro m
      rw [run, trace_add, hShift, show trace step s (framed (i :: l)) 24 = s₁ from hRun]
    obtain ⟨hEnd, hOk⟩ := ih hTail
    -- the first frame by itself, the others shifted by it
    refine ⟨?_, fun m hm => ?_⟩
    · rw [List.length_cons, show 24 * (l.length + 1) = 24 + 24 * l.length by omega, hLater]
      exact hEnd
    · rcases Nat.lt_or_ge m 24 with hlt | hge
      · exact hNow m hlt
      · obtain ⟨m, rfl⟩ := Nat.exists_eq_add_of_le hge
        rw [List.length_cons] at hm
        rw [hLater, framed_cons]
        exact hOk m (by omega)

/-- After the listed frames nothing is pressed. -/
theorem framed_add (l : List Inputs) (m : ℕ) : framed l (24 * l.length + m) = framed [] m := by
  have hDiv : (24 * l.length + m) / 24 = l.length + m / 24 := by omega
  have hMod : (24 * l.length + m) % 24 = m % 24 := by omega
  have hOver : listed l (l.length + m / 24) = listed [] (m / 24) := by simp [listed]
  rw [framed, framed, hDiv, hMod, hOver]

theorem Game.run_framed_add (h : s.run (framed l) (24 * l.length) = s') (m : ℕ) :
    s.run (framed l) (24 * l.length + m) = s'.run (framed []) m := by
  rw [run, trace_add, show trace step s (framed l) (24 * l.length) = s' from h]
  exact trace_congr fun k _ => framed_add l k

theorem frameEdge_framed {n : ℕ} (h : frameEdge Game.initial (framed l) n) : n % 24 = 1 := by
  cases n with
  | zero => exact absurd h Bool.false_ne_true
  | succ n =>
    rw [frameEdge, Game.run, trace_succ, Game.frameClkRisingEdge_step, Bool.and_eq_true] at h
    have hFirst : n % 24 = 0 := by simpa [framed] using h.1
    omega

theorem spaced_framed (l : List Inputs) : Spaced 24 (frameEdge Game.initial (framed l)) := by
  intro m n hmn hm hn
  have hM := frameEdge_framed hm
  have hN := frameEdge_framed hn
  omega

end Frames

section Run

variable {s₀ : Game} {w : ℕ → Inputs}

/-! ## The board on every clock of a run -/

/-- A lock is never clobbered by a line clear. With frame edges at least 24
clocks apart and `Reset` low, on every run from reset: where `at_bottom` is
high no row of 6 to 21 is full and the next board is the old one with the
painted cells in range set; elsewhere the board is unchanged or loses exactly
one full row; and the score is the number of rows removed, modulo 2^16. -/
theorem lock_not_clobbered (hReset : s₀.IsReset) (hLow : ∀ n, (w n).reset = false)
    (hSpaced : Spaced 24 (frameEdge s₀ w)) (n : ℕ) :
    let s := s₀.run w n
    let board' := (s₀.run w (n + 1)).cells.board
    (s.atBottom (w n) = true →
      (∀ i : Fin 22, 6 ≤ i.val → ¬ Full (s.cells.board i)) ∧
      ∀ r c, board' r c =
        if ∃ p ∈ paintedCells s.select.choose s.motion.blockXPos s.motion.blockYPos,
            p.1.toNat = r ∧ p.2.toNat = c
        then paintColour s.select.choose else s.cells.board r c) ∧
    (s.atBottom (w n) = false →
      (s.removesRow = false ∧ board' = s.cells.board) ∨
      (s.removesRow = true ∧ ∃ i, Full (s.cells.board i) ∧ board' = removeRow s.cells.board i)) ∧
    s.cells.score =
      BitVec.ofNat 16 (Nat.count (fun k => (s₀.run w k).removesRow = true) n) := by
  intro s board'
  refine ⟨?_, ?_, score_eq_count hReset hLow n⟩
  · intro hLock
    have hNone := not_removesRow_iff.mp
      (not_removesRow_of_edge hReset hLow hSpaced (Game.edge_of_atBottom hLock))
    refine ⟨lineClear_eq_none.mp hNone, fun r c => ?_⟩
    have hBoard : board' =
        paint s.cells.board s.select.choose s.motion.blockXPos s.motion.blockYPos :=
      congrArg BoardRegs.board (Game.cells_step_lock hNone (hLow n) hLock)
    rw [hBoard, paint_eq]
  · intro hNoLock
    cases hNow : s.removesRow with
    | false =>
      exact Or.inl ⟨rfl, congrArg BoardRegs.board
        (Game.cells_step_same (not_removesRow_iff.mp hNow) (hLow n) hNoLock)⟩
    | true =>
      obtain ⟨r, hFull, hBoard⟩ := Game.exists_removed hNow
      exact Or.inr ⟨rfl, r, hFull, hBoard (w n)⟩

/-- Frames of key `i`, every fifth one of key DOWN. -/
def dropping (i : Inputs) (n : ℕ) : List Inputs :=
  (List.replicate n [i, i, i, i, keyDown 0x1b false]).flatten

/-- Three pieces fill row 21: a flat I in columns 0 to 3, another in columns 4 to 7, and an L,
turned twice, in columns 8 to 10. The first frame after these locks the third. -/
def clearFrames : List Inputs := List.flatten [
  [{ lfsrOut := 3 }], List.replicate 3 (keyDown 0x1C false), [keyDown 0x1b false],
  dropping (keyDown 0x1C false) 20, [{}, { lfsrOut := 3 }],
  dropping (keyDown 0x23 false) 1, List.replicate 3 (keyDown 0x23 false), [{}, keyDown 0x1b false],
  dropping {} 19, [{}, { lfsrOut := 4 }],
  [keyDown 0x1d false, {}, keyDown 0x1d false, {}, keyDown 0x1b false],
  dropping (keyDown 0x23 false) 19, [{}]]

/-- The frame that follows locks a piece, which completes a row. -/
def completesRow (s : Game) : Bool :=
  (s.run (framed []) 1).atBottom (framed [] 1) && (s.run (framed []) 2).removesRow

/-- The frames up to the lock and the first clocks of the next one meet a condition: so does every
clock up to the removal. -/
theorem exists_lock_of_frames {frames : List Inputs} {ok : Game → Inputs → Bool} {t : Game}
    (hRun : frames.foldlM (Game.frame? ok) Game.initial = some t)
    (hRow : completesRow t = true) (hOk : ∀ m < 3, ok (t.run (framed []) m) (framed [] m) = true) :
    ∃ n, locks Game.initial (framed frames) n ∧
      (Game.initial.run (framed frames) (n + 1)).removesRow = true ∧
      ∀ l < n + 2, ok (Game.initial.run (framed frames) l) (framed frames l) = true := by
  obtain ⟨hState, hChecked⟩ := Game.run_frames hRun
  have hAfter := Game.run_framed_add hState
  rw [completesRow, Bool.and_eq_true, ← hAfter 1, ← hAfter 2, ← framed_add frames 1] at hRow
  refine ⟨24 * frames.length + 1, hRow.1, hRow.2, fun l hl => ?_⟩
  rcases Nat.lt_or_ge l (24 * frames.length) with hlt | hge
  · exact hChecked l hlt
  · obtain ⟨m, rfl⟩ := Nat.exists_eq_add_of_le hge
    rw [hAfter, framed_add]
    exact hOk m (by omega)

theorem clearFrames_run :
    ((clearFrames.foldlM (Game.frame? fun _ _ => true) Game.initial).any completesRow) = true := by
  decide +kernel

theorem exists_completing_lock :
    ∃ n, locks Game.initial (framed clearFrames) n ∧
      (Game.initial.run (framed clearFrames) (n + 1)).removesRow = true := by
  obtain ⟨t, hRun, hRow⟩ := (Option.any_eq_true _ _).mp clearFrames_run
  obtain ⟨n, hLock, hNext, -⟩ := exists_lock_of_frames hRun hRow fun _ _ => rfl
  exact ⟨n, hLock, hNext⟩

/-- The third piece locks without a loss, and the row it completes goes on the clock after. -/
theorem lock_not_clobbered_third :
    let w := framed clearFrames
    let s := Game.initial.run w
    ∃ n, ((s n).atBottom (w n) = true ∧
        (∀ i : Fin 22, 6 ≤ i.val → ¬ Full ((s n).cells.board i)) ∧
        ∀ r c, (s (n + 1)).cells.board r c =
          if ∃ p ∈ paintedCells (s n).select.choose (s n).motion.blockXPos (s n).motion.blockYPos,
              p.1.toNat = r ∧ p.2.toNat = c
          then paintColour (s n).select.choose else (s n).cells.board r c) ∧
      ((s (n + 1)).removesRow = true ∧ ∃ i, Full ((s (n + 1)).cells.board i) ∧
        (s (n + 2)).cells.board = removeRow (s (n + 1)).cells.board i) ∧
      (s (n + 2)).cells.score =
        BitVec.ofNat 16 (Nat.count (fun k => (s k).removesRow = true) (n + 2)) := by
  intro w s
  obtain ⟨n, hLock, hRow⟩ := exists_completing_lock
  have hLow : ∀ m, (w m).reset = false := fun _ => rfl
  have hSpaced : Spaced 24 (frameEdge Game.initial w) := spaced_framed clearFrames
  have hClock := fun m => lock_not_clobbered Game.isReset_initial hLow hSpaced m
  have hNoLock : (s (n + 1)).atBottom (w (n + 1)) = false :=
    Bool.eq_false_iff.mpr (not_locks_succ Game.isReset_initial hLock)
  exact ⟨n, ⟨hLock, (hClock n).1 hLock⟩,
    ((hClock (n + 1)).2.1 hNoLock).resolve_left fun hKept =>
      Bool.false_ne_true (hKept.1.symm.trans hRow), (hClock (n + 2)).2.2⟩

end Run

end Ece385.Tetris

import Ece385.Tetris.Top

/-!
# Tetris — which orientations follow each other

`rotate_block` waits for the release of the rotate key in a state of its own,
and the `rot_sel` decode lists the resting states only. In `Rotate_0_wait` and
`Rotate_3_wait` the default of 0 is the orientation before or after the turn;
in `Rotate_1_wait` and `Rotate_2_wait` it is neither, for as long as the key is
held.

* `RotatePorts`, `rotateClock` — `rotate_block` on its own, from `Rotate_0`.
* `rotation_run` — in the game it runs exactly like that.
* `pending_eq` — the invariant on the presses since the last change: the one
  that is being held and those that `Reset` or `new_shape` withdrew.

Main results:

* `orientation_turns_iff` — on every trace, when a change is one quarter turn
  for one press and the waiting orientation is one of the two.
* `held_turn_shows_zero` — a second press that shows orientation 0.
-/

open Clocked

namespace Ece385.Tetris

/-! ## `rotate_block` on its own -/

/-- What `rotate_block` samples on one clock. -/
structure RotatePorts where
  reset : Bool := false
  newShape : Bool := false
  inputs : RotateInputs

/-- `Reset || new_shape` -/
def RotatePorts.restart (p : RotatePorts) : Bool := p.reset || p.newShape

/-- One clock of `rotate_block`. -/
def rotateClock (s : RotateState) (p : RotatePorts) : RotateState :=
  rotateStep p.reset p.newShape p.inputs s

/-- A press of the rotate key that the boundary test of a resting state lets pass. -/
def RotateInputs.accepted (i : RotateInputs) : RotateState → Bool
  | .rotate0 | .rotate2 => i.rotateKey && !i.beyondFloor
  | .rotate1 | .rotate3 => i.rotateKey && !i.beyondWall
  | _ => false

/-- The orientation a state rests in or is about to leave. -/
def RotateState.quarter : RotateState → BitVec 3
  | .rotate0 | .rotate0Wait => 0
  | .rotate1 | .rotate1Wait => 1
  | .rotate2 | .rotate2Wait => 2
  | .rotate3 | .rotate3Wait => 3

/-- One quarter turn on. -/
def quarterTurn (r : BitVec 3) : BitVec 3 := (r + 1) % 4

section Trace

variable (w : ℕ → RotatePorts)

/-- The state after `n` clocks from reset. -/
abbrev orientation (n : ℕ) : RotateState := trace rotateClock .rotate0 w n

/-- `rot_sel` changes from clock `n` to the next. -/
def Turns (n : ℕ) : Prop := rotSel (orientation w (n + 1)) ≠ rotSel (orientation w n)

/-- A press of the rotate key is accepted at clock `n`. -/
def Presses (n : ℕ) : Prop :=
  (w n).restart = false ∧ (w n).inputs.accepted (orientation w n) = true

/-- `Reset` or `new_shape` withdraws a press that `Rotate_0_wait` was holding. -/
def Withdraws (n : ℕ) : Prop :=
  (w n).restart = true ∧ orientation w n = .rotate0Wait

instance : DecidablePred (Turns w) := fun _ => inferInstanceAs (Decidable (_ ≠ _))

instance : DecidablePred (Presses w) := fun _ => inferInstanceAs (Decidable (_ ∧ _))

instance : DecidablePred (Withdraws w) := fun _ => inferInstanceAs (Decidable (_ ∧ _))

/-- The presses accepted since the previous change, that of clock `n` included. -/
def pressesSince (n : ℕ) : ℕ :=
  countSince (Turns w) (Presses w) n + if Presses w n then 1 else 0

/-- What is shown around clock `n` goes one quarter turn at a time. -/
structure TurnsByQuarter (n : ℕ) : Prop where
  change : Turns w n →
    (rotSel (orientation w (n + 1)) = quarterTurn (rotSel (orientation w n)) ∧
      pressesSince w n = 1) ∨
    ((w n).restart = true ∧ rotSel (orientation w (n + 1)) = 0)
  shown : rotSel (orientation w n) = (orientation w n).quarter ∨
    rotSel (orientation w n) = quarterTurn (orientation w n).quarter

/-- No press is held in or accepted from orientation 1 or 2 onwards, and none
was withdrawn before the turn out of orientation 0. -/
structure QuarterOk (n : ℕ) : Prop where
  held : orientation w n ≠ .rotate1Wait ∧ orientation w n ≠ .rotate2Wait
  press : orientation w n = .rotate1 ∨ orientation w n = .rotate2 → ¬ Presses w n
  withdrawn : orientation w n = .rotate0Wait → (w n).restart = false →
    (w n).inputs.keypress = false → countSince (Turns w) (Withdraws w) n = 0

end Trace

/-! ## The next state -/

section Next

variable {w : ℕ → RotatePorts} {n : ℕ}

theorem orientation_succ (w : ℕ → RotatePorts) (n : ℕ) :
    orientation w (n + 1) = if (w n).restart then .rotate0
      else rotateNext (w n).inputs (orientation w n) := rfl

/-- The waiting state a press leads to, the resting state a release leads to. -/
def RotateState.next : RotateState → RotateState
  | .rotate0 => .rotate0Wait
  | .rotate0Wait => .rotate1
  | .rotate1 => .rotate1Wait
  | .rotate1Wait => .rotate2
  | .rotate2 => .rotate2Wait
  | .rotate2Wait => .rotate3
  | .rotate3 => .rotate3Wait
  | .rotate3Wait => .rotate0

/-- What moves a state on: a press that is accepted, or the release. -/
def RotateInputs.moves (i : RotateInputs) : RotateState → Bool
  | .rotate0Wait | .rotate1Wait | .rotate2Wait | .rotate3Wait => !i.keypress
  | s => i.accepted s

theorem press_eq (i : RotateInputs) (refused : Bool) (rest wait : RotateState) :
    i.press refused rest wait = if i.rotateKey && !refused then wait else rest := by
  unfold RotateInputs.press
  split_ifs <;> simp_all

theorem release_eq (i : RotateInputs) (wait next : RotateState) :
    i.release wait next = if !i.keypress then next else wait := by
  unfold RotateInputs.release
  split_ifs <;> simp_all

theorem rotateNext_eq (i : RotateInputs) (s : RotateState) :
    rotateNext i s = if i.moves s then s.next else s := by
  cases s <;> first | exact press_eq i _ _ _ | exact release_eq i _ _

/-- A state that accepts a press. -/
def RotateState.resting : RotateState → Bool
  | .rotate0 | .rotate1 | .rotate2 | .rotate3 => true
  | _ => false

theorem moves_of_accepted {i : RotateInputs} {s : RotateState} (h : i.accepted s = true) :
    i.moves s = true := by
  cases s <;> first | exact h | exact absurd h Bool.false_ne_true

theorem accepted_of_moves {i : RotateInputs} {s : RotateState} (h : i.moves s = true) :
    i.accepted s = s.resting := by
  cases s <;> first | exact h | rfl

/-- A clock restarts the machine, leaves it alone, or moves it on. -/
theorem clock_cases (w : ℕ → RotatePorts) (n : ℕ) :
    ((w n).restart = true ∧ orientation w (n + 1) = .rotate0 ∧ ¬ Presses w n) ∨
    ((w n).restart = false ∧ orientation w (n + 1) = orientation w n ∧ ¬ Presses w n ∧
      (w n).inputs.moves (orientation w n) = false) ∨
    ((w n).restart = false ∧ orientation w (n + 1) = (orientation w n).next ∧
      (Presses w n ↔ (orientation w n).resting = true) ∧
      (w n).inputs.moves (orientation w n) = true) := by
  rw [orientation_succ, rotateNext_eq, Presses]
  cases hRestart : (w n).restart with
  | true => exact Or.inl ⟨rfl, rfl, fun h => absurd h.1 (by decide)⟩
  | false =>
    refine Or.inr ?_
    cases hMoves : (w n).inputs.moves (orientation w n) with
    | false =>
      refine Or.inl ⟨rfl, rfl, fun h => ?_, rfl⟩
      rw [moves_of_accepted h.2] at hMoves
      exact absurd hMoves (by decide)
    | true =>
      refine Or.inr ⟨rfl, rfl, ?_, rfl⟩
      rw [accepted_of_moves hMoves]
      exact and_iff_right rfl

end Next

/-! ## The presses since the last change -/

section Pending

variable (w : ℕ → RotatePorts)

/-- The presses since the last change of `rot_sel`: the one that is held in
`Rotate_0_wait`, and those withdrawn there. Only orientation 0 has any. -/
theorem pending_eq (n : ℕ) :
    countSince (Turns w) (Presses w) n = countSince (Turns w) (Withdraws w) n +
        (if orientation w n = .rotate0Wait then 1 else 0) ∧
    (orientation w n ≠ .rotate0 → orientation w n ≠ .rotate0Wait →
      countSince (Turns w) (Withdraws w) n = 0) := by
  induction n with
  | zero => exact ⟨rfl, fun _ _ => rfl⟩
  | succ n ih =>
    rw [countSince_succ, countSince_succ]
    rcases clock_cases w n with ⟨hRestart, hNext, hPress⟩ | ⟨hRestart, hNext, hPress, -⟩ |
      ⟨hRestart, hNext, hPress, -⟩
    -- a restart out of `Rotate_0_wait` changes nothing that is shown
    · cases hState : orientation w n <;>
        simp_all [Turns, Withdraws, rotSel]
    · simp_all [Turns, Withdraws]
    -- every change starts the count afresh, and only `Rotate_0` has a press without one
    · cases hState : orientation w n <;>
        simp_all [Turns, Withdraws, RotateState.next, RotateState.resting, rotSel]

end Pending

/-! ## Every trace -/

section Every

variable (w : ℕ → RotatePorts) (n : ℕ)

/-- The default of the decode is one of the two orientations around the turn in
all states but two. -/
theorem shown_iff (s : RotateState) :
    (rotSel s = s.quarter ∨ rotSel s = quarterTurn s.quarter) ↔
      s ≠ .rotate1Wait ∧ s ≠ .rotate2Wait := by
  cases s <;> decide

theorem keypress_of_moves {i : RotateInputs} (h : i.moves .rotate0Wait = true) :
    i.keypress = false := by
  simpa [RotateInputs.moves] using h

/-- The change on a clock that moves the machine on, state by state. -/
theorem change_iff_of_moves (hRestart : (w n).restart = false)
    (hNext : orientation w (n + 1) = (orientation w n).next)
    (hPress : Presses w n ↔ (orientation w n).resting = true)
    (hMoves : (w n).inputs.moves (orientation w n) = true)
    (hHeld : orientation w n ≠ .rotate1Wait ∧ orientation w n ≠ .rotate2Wait) :
    (Turns w n → rotSel (orientation w (n + 1)) = quarterTurn (rotSel (orientation w n)) ∧
      pressesSince w n = 1) ↔
    (orientation w n = .rotate1 ∨ orientation w n = .rotate2 → ¬ Presses w n) ∧
      (orientation w n = .rotate0Wait → (w n).restart = false →
        (w n).inputs.keypress = false → countSince (Turns w) (Withdraws w) n = 0) := by
  obtain ⟨hPending, hOnly⟩ := pending_eq w n
  rw [pressesSince, hPending, Turns, hNext]
  cases hState : orientation w n <;> rw [hState] at hPress hHeld hOnly hMoves
  case rotate0 => simp [rotSel, RotateState.next]
  -- the press that is held and those withdrawn before it
  case rotate0Wait =>
    simp [rotSel, RotateState.next, hRestart, keypress_of_moves hMoves, quarterTurn, hPress,
      RotateState.resting]
  -- the press itself drops `rot_sel` to 0
  case rotate1 => simp [rotSel, RotateState.next, quarterTurn, hPress, RotateState.resting]
  case rotate1Wait => exact absurd rfl hHeld.1
  case rotate2 => simp [rotSel, RotateState.next, quarterTurn, hPress, RotateState.resting]
  case rotate2Wait => exact absurd rfl hHeld.2
  -- from 3 the drop to 0 is the quarter turn
  case rotate3 =>
    simp [rotSel, RotateState.next, quarterTurn, hPress, RotateState.resting,
      hOnly (by decide) (by decide)]
  case rotate3Wait => simp [rotSel, RotateState.next]

/-- On every input trace of `rotate_block` from reset, at every clock: a change
of `rot_sel` is one quarter turn for the one press accepted since the previous
change, or the return to 0 on `Reset` or `new_shape`, and what is shown belongs
to the pending turn, exactly if `QuarterOk` holds at that clock. -/
theorem orientation_turns_iff : TurnsByQuarter w n ↔ QuarterOk w n := by
  have hShown := shown_iff (orientation w n)
  -- a restart, a clock that stays, a clock that moves on
  rcases clock_cases w n with ⟨hRestart, hNext, hPress⟩ | ⟨hRestart, hNext, hPress, hMoves⟩ |
    ⟨hRestart, hNext, hPress, hMoves⟩
  · refine ⟨fun h => ⟨hShown.mp h.shown, fun _ => hPress, fun _ hLow => ?_⟩,
      fun h => ⟨fun _ => Or.inr ⟨hRestart, by rw [hNext]; rfl⟩, hShown.mpr h.held⟩⟩
    rw [hRestart] at hLow
    exact absurd hLow (by decide)
  · refine ⟨fun h => ⟨hShown.mp h.shown, fun _ => hPress, fun hWait _ hKey => ?_⟩,
      fun h => ⟨fun hTurns => absurd (congrArg rotSel hNext) hTurns, hShown.mpr h.held⟩⟩
    rw [hWait, RotateInputs.moves, hKey] at hMoves
    exact absurd hMoves (by decide)
  · constructor
    · intro h
      have hHeld := hShown.mp h.shown
      have hChange := (change_iff_of_moves w n hRestart hNext hPress hMoves hHeld).mp
        fun hTurns => (h.change hTurns).resolve_right fun hNo => by
          rw [hRestart] at hNo
          exact absurd hNo.1 (by decide)
      exact ⟨hHeld, hChange.1, hChange.2⟩
    · intro h
      have hChange := (change_iff_of_moves w n hRestart hNext hPress hMoves h.held).mpr
        ⟨h.press, h.withdrawn⟩
      exact ⟨fun hTurns => Or.inl (hChange hTurns), hShown.mpr h.held⟩

end Every

/-! ## In the game -/

/-- What `rotate_block` samples in the game. -/
def Game.rotatePorts (s : Game) (i : Inputs) : RotatePorts where
  reset := i.reset
  newShape := s.chooser.newShape
  inputs := s.rotateInputs i

/-- The orientation machine of the game is `rotate_block` on the ports it gets. -/
theorem rotation_run {s₀ : Game} (hReset : s₀.IsReset) (w : ℕ → Inputs) (n : ℕ) :
    (s₀.run w n).currentState =
      orientation (fun k => (s₀.run w k).rotatePorts (w k)) n := by
  induction n with
  | zero => exact hReset.state
  | succ n ih =>
    rw [orientation, trace_succ, ← orientation, ← ih]
    rfl

/-! ## A held turn that shows orientation 0 -/

/-- The flat I piece at the start; the rotate key is down on every other clock. -/
def tapping (n : ℕ) : RotatePorts where
  inputs :=
    { keypress := n % 2 == 0
      keycode := 0x1d
      xPos := 297
      yPos := 135
      blockSizeX := 37
      blockSizeY := 10 }

/-- The second press takes `rot_sel` from 1 to 0 and holds it there. -/
theorem held_turn_shows_zero :
    rotSel (orientation tapping 2) = 1 ∧ Presses tapping 2 ∧
      rotSel (orientation tapping 3) = 0 ∧ ¬ TurnsByQuarter tapping 2 ∧
      ¬ TurnsByQuarter tapping 3 := by
  have hTurns : Turns tapping 2 := by decide
  refine ⟨by decide, by decide, by decide, fun h => ?_, fun h => ?_⟩
  · rcases h.change hTurns with ⟨hQuarter, -⟩ | ⟨hRestart, -⟩
    · exact absurd hQuarter (by decide)
    · exact absurd hRestart (by decide)
  · exact absurd h.shown (by decide)

end Ece385.Tetris

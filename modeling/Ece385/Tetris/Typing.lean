import Ece385.Tetris.Released
import Ece385.Tetris.System

/-!
# Tetris — the keyboard of the system

The receiver runs on the line as it is, next to the game, and the decoder changes on
the frames of the line only. What is typed is therefore shown to the game as the
receiver alone would show it, and an idle line shows nothing.

* `Started.keyboard_line` — the receiver of the system on its line.
* `Started.decoder_idle`, `Started.released_idle` — nothing pressed.

Main result:

* `Started.typing_shown` — the game is shown the last event typed.
-/

open Clocked

namespace Ece385.Tetris

namespace TetrisTop

variable {contents : Rom → ℕ → BitVec 4} {s : TetrisTop} {w : ℕ → TopInputs}

/-! ## The keyboard -/

theorem keyboard_run (n : ℕ) :
    (s.run contents w n).keyboard =
      trace Receiver.step s.keyboard
        (fun k => (s.run contents w k).lineSample (w k)) n :=
  trace_component TetrisTop.keyboard lineSample (fun _ _ => rfl) s w n

/-- The samples of the line, one a clock from the start on. -/
def LineIs (w : ℕ → TopInputs) (l : List LineSample) : Prop :=
  ∀ k (hk : k < l.length), (w k).ps2Clk = l[k].psClk ∧ (w k).ps2Dat = l[k].psData

theorem reset_lineSamples {fs : List Frame} {i : LineSample} (hi : i ∈ lineSamples fs) :
    i.reset = false := by
  have hCell : ∀ c : BitCell, ∀ j ∈ c.samples, j.reset = false := by
    intro c j hj
    rcases List.mem_append.mp hj with hLow | hHigh
    · obtain ⟨d, -, rfl⟩ := List.mem_map.mp hLow
      rfl
    · obtain ⟨d, -, rfl⟩ := List.mem_map.mp hHigh
      rfl
  obtain ⟨f, -, hf⟩ := List.mem_flatMap.mp hi
  rcases List.mem_append.mp hf with hBody | hStop
  · obtain ⟨c, -, hc⟩ := List.mem_flatMap.mp hBody
    exact hCell c i hc
  · exact hCell f.stop i hStop

/-- With `Reset_h` low the receiver of the system runs on the line as it is. -/
theorem Started.keyboard_line (h : s.Started) (hUp : KeyUp w) {l : List LineSample}
    (hLine : LineIs w l) (hReset : ∀ i ∈ l, i.reset = false) :
    (s.run contents w l.length).keyboard = s.keyboard.run l := by
  have hList := trace_eq_foldl Receiver.step s.keyboard l {} le_rfl
  rw [List.take_length] at hList
  rw [keyboard_run, Receiver.run, ← hList]
  refine trace_congr fun k hk => ?_
  have hMem := hReset _ (List.getElem_mem hk)
  obtain ⟨hClk, hDat⟩ := hLine k hk
  rw [List.getD_eq_getElem _ _ hk, lineSample, h.low hUp, hClk, hDat]
  cases hSample : l[k] with
  | mk reset psClk psData =>
    rw [hSample] at hMem
    rw [show reset = false from hMem]

/-- Whatever is typed in frames on the line after the start, the game is shown it:
`keycode` and `keypress` are those of the last event, unless a repeat of the
key made last followed a release. -/
theorem Started.typing_shown (h : s.Started) (hUp : KeyUp w)
    (hNoRepeat : s.keyboard.decoder.typematicKeycode = 0) {idle : List Bool} (hIdle : idle ≠ [])
    {es : List KeyEvent} {e : KeyEvent} (hLegal : Legal (es ++ [e]))
    (hNone : ¬ Keyboard.RepeatAfterRelease (es ++ [e])) {fs : List Frame}
    (hCodes : fs.map Frame.code = scanCodes (es ++ [e]))
    (hLine : LineIs w (Receiver.restartSamples [] idle ++ lineSamples fs)) :
    let i := s.gameWave contents w (Receiver.restartSamples [] idle ++ lineSamples fs).length
    match e with
    | .press k => i.keycode = k.code ∧ i.keypress = true
    | .autoRepeat k => i.keycode = k.code ∧ i.keypress = true
    | .release k => i.keycode = k.code ∧ i.keypress = false := by
  intro i
  -- the decoder has seen no byte since the restart
  obtain ⟨hBetween, hView⟩ := h.keyboard.run_idle hIdle
  have hStart : (s.keyboard.run (Receiver.restartSamples [] idle)).keyboard.Idle := by
    rw [Receiver.restartSamples, List.nil_append, hView]
    exact ⟨show (0 : BitVec 8) ≠ 0xF0 by decide, hNoRepeat⟩
  have hRun : (s.run contents w
      (Receiver.restartSamples [] idle ++ lineSamples fs).length).keyboard =
        s.keyboard.run (Receiver.restartSamples [] idle ++ lineSamples fs) :=
    h.keyboard_line hUp hLine fun j hj => by
    rcases List.mem_append.mp hj with hFirst | hLater
    · rw [Receiver.restartSamples, List.nil_append] at hFirst
      obtain ⟨d, -, rfl⟩ := List.mem_map.mp hFirst
      rfl
    · exact reset_lineSamples hLater
  have hShown : (s.run contents w (Receiver.restartSamples [] idle ++
      lineSamples fs).length).keyboard.keyboard.ReportsEvent e := by
    rw [hRun, Receiver.run_append, (Receiver.run_line (by
      rw [Receiver.restartSamples, List.nil_append]
      exact hBetween) fs).2, hCodes]
    exact hStart.reportsEvent hLegal hNone
  cases e with
  | press k => exact ⟨hShown.keyCode, hShown.press⟩
  | autoRepeat k => exact ⟨hShown.keyCode, hShown.press⟩
  | release k => exact ⟨hShown.keyCode, hShown.press⟩

/-- The line as listed, and nothing else pressed. -/
def typed (l : List LineSample) (n : ℕ) : TopInputs where
  ps2Clk := (l.getD n {}).psClk
  ps2Dat := (l.getD n {}).psData

theorem lineIs_typed (l : List LineSample) : LineIs (typed l) l := fun k hk => by
  rw [typed, List.getD_eq_getElem _ _ hk]
  exact ⟨rfl, rfl⟩

/-- The LEFT key is pressed. -/
theorem typing_shown_left :
    Legal ([] ++ [.press Keyboard.leftKey]) ∧
      (fresh.gameWave (fun _ _ => 0)
        (typed (Receiver.restartSamples [] [true] ++ lineSamples [Frame.ofCode 0x1C]))
        (Receiver.restartSamples [] [true] ++
          lineSamples [Frame.ofCode 0x1C]).length).keypress = true := by
  have hLegal : Legal ([] ++ [.press Keyboard.leftKey]) :=
    legal_nil.snoc (Finset.notMem_empty _)
  have hNone : ¬ Keyboard.RepeatAfterRelease ([] ++ [.press Keyboard.leftKey]) := by
    rintro ⟨pre, r, k, hIn, -⟩
    have hLength := hIn.length_le
    simp at hLength
  have hCodes : [Frame.ofCode 0x1C].map Frame.code =
      scanCodes ([] ++ [.press Keyboard.leftKey]) := by
    rw [List.map_singleton, Frame.code_ofCode]
    rfl
  have hUp : KeyUp (typed (Receiver.restartSamples [] [true] ++
      lineSamples [Frame.ofCode 0x1C])) := keyUp_of_key fun _ => rfl
  exact ⟨hLegal, (started_fresh.typing_shown hUp rfl (List.cons_ne_nil _ _) hLegal hNone hCodes
    (lineIs_typed _)).2⟩

/-! ## Nothing pressed -/

/-- A line on which nothing is sent leaves the decoder alone. -/
theorem Started.decoder_idle (h : s.Started) (hUp : KeyUp w) (hLine : ∀ n, (w n).ps2Clk = true)
    (n : ℕ) : (s.run contents w n).keyboard.decoder = s.keyboard.decoder := by
  rcases Nat.eq_zero_or_pos n with rfl | hPos
  · rfl
  -- the run on this line is that of the receiver on a pause
  set idle := (List.range n).map fun k => (w k).ps2Dat with hIdle
  set l := idle.map fun d => ({ psClk := true, psData := d } : LineSample) with hl
  have hLength : l.length = n := by rw [hl, List.length_map, hIdle, List.length_map,
    List.length_range]
  have hIs : LineIs w l := fun k hk => by
    refine ⟨?_, ?_⟩
    · simp only [hl, List.getElem_map]
      exact hLine k
    · simp only [hl, hIdle, List.getElem_map, List.getElem_range]
  have hRun : (s.run contents w l.length).keyboard = s.keyboard.run l :=
    h.keyboard_line hUp hIs fun j hj => by
      obtain ⟨d, -, rfl⟩ := List.mem_map.mp hj
      rfl
  have hSome : idle ≠ [] := fun hNil => by
    rw [hl, hNil, List.map_nil, List.length_nil] at hLength
    omega
  have hView := (h.keyboard.run_idle hSome).2
  rw [hLength] at hRun
  rw [hRun]
  exact congrArg Keyboard.decoder hView

/-- So no key is shown to the game that was not down at the start. -/
theorem Started.press_idle (h : s.Started) (hUp : KeyUp w) (hLine : ∀ n, (w n).ps2Clk = true)
    (hPress : s.keyboard.press = false) (n : ℕ) : (s.gameWave contents w n).keypress = false := by
  show (s.run contents w n).keyboard.press = false
  rw [Receiver.press, h.decoder_idle hUp hLine]
  exact hPress

/-- The system with nothing touched is a game left alone. -/
theorem Started.released_idle (h : s.Started) (contents : Rom → ℕ → BitVec 4) (hUp : KeyUp w)
    (hLine : ∀ n, (w n).ps2Clk = true) (hPress : s.keyboard.press = false) (n : ℕ) :
    Released (s.run contents w n).game := by
  rw [game_run]
  exact released_run h.game (h.gameLow hUp) (h.press_idle hUp hLine hPress) n

end TetrisTop

end Ece385.Tetris

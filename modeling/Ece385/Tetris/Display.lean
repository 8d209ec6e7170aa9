import Ece385.HexDriver
import Ece385.Tetris.ScreenLookup
import Ece385.Tetris.Typing

/-!
# Tetris — the picture on the monitor

What the player should see is a function of the settled cells, the falling piece and
the score: `Scene.color`, written with rectangles and natural numbers. What `tetris_top`
drives the DAC with is the end of a pipeline: the counters of the VGA controller, one
address for thirty-one ROMs that answer a clock late, two priority chains and the
palette. At the clock on which the DAC samples a pixel the two agree.

* `decidedColor_eq_color` — the mapper, if the ROMs have been read at this pixel.
* `rgb_step` — the ROMs have been, on the second clock of a pixel.

Main result:

* `frame_shown` — every frame shows one scene, each of its pixels once.
-/

open Clocked Odometer Raster

namespace Ece385.Tetris

open MapperInputs

/-! ## The palette -/

/-- `VGA_R`, `VGA_G` and `VGA_B` -/
structure Rgb where
  red : BitVec 8
  green : BitVec 8
  blue : BitVec 8
  deriving DecidableEq

/-- `colors`: the palette; colour 8, the background, fades to the right. -/
def colors (decidedColor : BitVec 4) (drawX : BitVec 10) : Rgb :=
  match decidedColor.toNat with
  | 0 => ⟨0x18, 0x18, 0x18⟩
  | 1 => ⟨0x1e, 0xff, 0xff⟩
  | 2 => ⟨0xff, 0xff, 0x38⟩
  | 3 => ⟨0xff, 0x2c, 0x60⟩
  | 4 => ⟨0xff, 0x82, 0x38⟩
  | 5 => ⟨0x60, 0xff, 0x60⟩
  | 6 => ⟨0x3e, 0x80, 0xff⟩
  | 7 => ⟨0xa5, 0x32, 0xa5⟩
  | 8 => ⟨0x5f - (drawX.extractLsb' 3 7).setWidth 8, 0x2f, 0x4f⟩
  | 9 => ⟨0x18, 0x18, 0x18⟩
  | 10 => ⟨0xd3, 0xd3, 0xd3⟩
  | _ => ⟨0xff, 0xff, 0xff⟩

/-! ## The scene -/

/-- What there is to see; `left` and `top` are the corner of the falling piece. -/
structure Scene where
  board : Board
  piece : Option Shape
  left : ℕ
  top : ℕ
  score : ℕ

namespace Scene

/-- The box of the piece. -/
def frame (v : Scene) (k : Shape) : Rect := ⟨v.left, v.top, 9 * k.width + 1, 9 * k.height + 1⟩

/-- The piece, where its box covers the pixel. -/
def covering (v : Scene) (x y : ℕ) : Option Shape :=
  v.piece.filter fun k => decide ((v.frame k).Contains x y)

/-- The sprite of the piece, where its box covers the pixel. -/
def pieceColor (v : Scene) (contents : Rom → ℕ → BitVec 4) (x y : ℕ) : Option (BitVec 4) :=
  (v.covering x y).map fun k => contents (.block k) ((v.frame k).offset x y)

/-- The settled cell at a pixel of the well. -/
def settled (v : Scene) (x y : ℕ) : BitVec 4 :=
  if h : (y - 135) / 9 < 22 ∧ (x - 270) / 9 < 11 then v.board ⟨_, h.1⟩ ⟨_, h.2⟩ else 0

/-- A digit of the score in `t`. -/
def digitColor (contents : Rom → ℕ → BitVec 4) (d : ℕ) (t : Rect) (x y : ℕ) : BitVec 4 :=
  if h : d < 10 then contents (.digit ⟨d, h⟩) (t.offset x y) else 8

/-- In the well the grid is in front of the piece and the piece in front of the
settled cells, which show through where its sprite has colour 0 or 9. -/
def wellColor (v : Scene) (contents : Rom → ℕ → BitVec 4) (x y : ℕ) : BitVec 4 :=
  if x % 9 = 0 ∨ y % 9 = 0 then 10
  else match v.pieceColor contents x y with
    | some c => if c = 0 ∨ c = 9 then v.settled x y else c
    | none => v.settled x y

/-- The colour of a pixel. Outside the well there are the logo, the word and the two
digits of the score, and on the background what of the piece hangs out of the well. -/
def color (v : Scene) (contents : Rom → ℕ → BitVec 4) (x y : ℕ) : BitVec 4 :=
  if (270 ≤ x ∧ x ≤ 369) ∧ 135 ≤ y ∧ y ≤ 333 then v.wellColor contents x y
  else if logoFrame.Contains x y then contents .tetrisLogo (logoFrame.offset x y)
  else if scoreFrame.Contains x y then contents .score (scoreFrame.offset x y)
  -- four bits for the tens: from 100 on they are no digit, from 160 on a wrong one
  else if tensFrame.Contains x y then digitColor contents (v.score / 10 % 16) tensFrame x y
  else if onesFrame.Contains x y then digitColor contents (v.score % 10) onesFrame x y
  else (v.pieceColor contents x y).getD 8

end Scene

/-- What the registers of the game say there is to see. -/
def Game.scene (s : Game) : Scene where
  board := s.cells.board
  piece := if s.chooser.blockSel = 7 then none else some (shapeOf s.chooser.blockSel s.rotation)
  left := s.motion.blockXPos.toNat
  top := s.motion.blockYPos.toNat
  score := s.cells.score.toNat

/-! ## The mapper -/

theorem find_only (k : Shape) : drawOrder.find? k.only.line = some k := by
  cases k <;> rfl

/-- The ports of the mapper carry the scene, and the ROMs have been read at this pixel. -/
structure Depicts (i : MapperInputs) (v : Scene) (contents : Rom → ℕ → BitVec 4) : Prop where
  board : i.board = v.board
  score : i.score.toNat = v.score
  covering : i.drawnBlock = v.covering i.drawX.toNat i.drawY.toNat
  block : ∀ k, i.drawnBlock = some k → i.In (v.frame k) ∧
    i.blockAddress.toNat = (v.frame k).offset i.drawX.toNat i.drawY.toNat
  rom : ∀ r, i.romData r = contents r i.address.toNat

namespace Depicts

variable {i : MapperInputs} {v : Scene} {contents : Rom → ℕ → BitVec 4}

theorem settled (h : Depicts i v contents) {row : Fin 22} {col : Fin 11}
    (hCell : i.InCell row col) : i.boardLookup = v.settled i.drawX.toNat i.drawY.toNat := by
  have hLookup := hCell.boardLookup
  obtain ⟨hLeft, hRight, hTop, hBottom⟩ := hCell
  have hRow : (i.drawY.toNat - 135) / 9 = row := by omega
  have hCol : (i.drawX.toNat - 270) / 9 = col := by omega
  have hIn : (i.drawY.toNat - 135) / 9 < 22 ∧ (i.drawX.toNat - 270) / 9 < 11 := by
    rw [hRow, hCol]
    exact ⟨row.isLt, col.isLt⟩
  rw [hLookup, Scene.settled, dif_pos hIn, h.board]
  exact congrArg₂ v.board (Fin.ext hRow).symm (Fin.ext hCol).symm

theorem value_rom (h : Depicts i v contents) {t : Rect} (hAt : i.Addresses t) (r : Rom) :
    i.value (.rom r) = contents r (t.offset i.drawX.toNat i.drawY.toNat) := by
  rw [value, h.rom, hAt.address]

theorem toNat_tens (h : Depicts i v contents) :
    i.scoreTensDigitValue.toNat = v.score / 10 % 16 := by
  have hTen : (10#32).toNat = 10 := rfl
  rw [scoreTensDigitValue, BitVec.toNat_setWidth, BitVec.toNat_udiv,
    BitVec.toNat_setWidth_of_le (by decide), h.score, hTen]

theorem toNat_ones (h : Depicts i v contents) : i.scoreOnesDigitValue.toNat = v.score % 10 := by
  have hTen : (10#32).toNat = 10 := rfl
  rw [scoreOnesDigitValue, BitVec.toNat_setWidth, BitVec.toNat_umod,
    BitVec.toNat_setWidth_of_le (by decide), h.score, hTen]
  omega

theorem value_digit (h : Depicts i v contents) {t : Rect} (hAt : i.Addresses t)
    (d : BitVec 4) :
    i.value (digitSource d) =
      Scene.digitColor contents d.toNat t i.drawX.toNat i.drawY.toNat := by
  rw [digitSource, Scene.digitColor]
  split_ifs with hDigit
  · exact h.value_rom hAt _
  · rfl

/-- Off the fixed regions the address is that of the block. -/
theorem addresses_block (h : Depicts i v contents) {k : Shape} (hDrawn : i.drawnBlock = some k)
    (hLogo : ¬ i.inLogo = true) (hScore : ¬ i.inScore = true) (hTens : ¬ i.inTensDigit = true)
    (hOnes : ¬ i.inOnesDigit = true) : i.Addresses (v.frame k) where
  inside := (h.block k hDrawn).1
  address := by
    rw [address_eq, if_neg hOnes, if_neg hTens, if_neg hScore, if_neg hLogo, hDrawn]
    exact (h.block k hDrawn).2

theorem pieceColor (h : Depicts i v contents) :
    v.pieceColor contents i.drawX.toNat i.drawY.toNat =
      i.drawnBlock.map fun k => contents (.block k)
        ((v.frame k).offset i.drawX.toNat i.drawY.toNat) := by
  rw [Scene.pieceColor, h.covering]

/-- In the well none of the fixed regions is on. -/
theorem decidedColor_well (h : Depicts i v contents) (hWell : i.inWell = true) :
    i.decidedColor = v.wellColor contents i.drawX.toNat i.drawY.toNat := by
  obtain ⟨⟨-, hRight⟩, hTop, -⟩ := inWell_iff.mp hWell
  -- the regions are told apart by their coordinates
  have hLogo : ¬ i.inLogo = true := fun hOn => by
    have hIn := (inLogo_iff.mp hOn).bottom
    simp only [logoFrame] at hIn
    omega
  have hScore : ¬ i.inScore = true := fun hOn => by
    have hIn := (inScore_iff.mp hOn).left
    simp only [scoreFrame] at hIn
    omega
  have hTens : ¬ i.inTensDigit = true := fun hOn => by
    have hIn := (inTensDigit_iff.mp hOn).left
    simp only [tensFrame] at hIn
    omega
  have hOnes : ¬ i.inOnesDigit = true := fun hOn => by
    have hIn := (inOnesDigit_iff.mp hOn).left
    simp only [onesFrame] at hIn
    omega
  have hSource := spriteSource_eq i
  rw [hWell, Bool.and_true, if_neg hLogo, if_neg hScore, if_neg hTens, if_neg hOnes] at hSource
  cases hLine : i.onLine with
  -- on a grid line both chains show colour 10, whatever is under it
  | true =>
    have hGrid : i.drawX.toNat % 9 = 0 ∨ i.drawY.toNat % 9 = 0 := by
      by_contra hOff
      rw [not_or] at hOff
      exact absurd (hLine.symm.trans (onLine_eq_false_iff.mpr hOff)) (by decide)
    rw [hLine, if_pos rfl] at hSource
    have hTen : i.spriteColor = 10 := by
      rw [spriteColor, hSource]
      rfl
    have hSame : i.decidedSource = i.spriteSource := by
      rw [decidedSource, if_neg]
      exact fun hBoth => absurd (hTen ▸ hBoth.1) (by decide)
    rw [Scene.wellColor, if_pos hGrid, decidedColor, hSame, ← hTen, spriteColor]
  | false =>
    obtain ⟨row, col, hCell⟩ := exists_inCell hWell hLine
    have hOff := not_or.mpr (onLine_eq_false_iff.mp hLine)
    rw [hLine, if_neg Bool.false_ne_true, blockOrBoard] at hSource
    rw [Scene.wellColor, if_neg hOff, h.pieceColor, ← h.settled hCell, decidedColor, decidedSource,
      hWell]
    cases hDrawn : i.drawnBlock with
    | none =>
      -- the board either way
      simp only [hDrawn, hWell, if_true] at hSource
      rw [hSource, ite_self]
      rfl
    | some k =>
      simp only [hDrawn] at hSource
      have hColor : i.spriteColor =
          contents (.block k) ((v.frame k).offset i.drawX.toNat i.drawY.toNat) := by
        rw [spriteColor, hSource,
          h.value_rom (h.addresses_block hDrawn hLogo hScore hTens hOnes)]
      simp only [Option.map_some, ← hColor, and_true]
      split_ifs
      · rfl
      · rfl

theorem decidedColor_outside (h : Depicts i v contents) (hWell : ¬ i.inWell = true) :
    i.decidedColor = v.color contents i.drawX.toNat i.drawY.toNat := by
  have hSource : i.decidedSource = i.spriteSource := by
    rw [decidedSource, if_neg fun hBoth => hWell hBoth.2]
  have hNoGrid : ¬ (i.onLine && i.inWell) = true := fun hBoth =>
    hWell (Bool.and_eq_true_iff.mp hBoth).2
  rw [Scene.color, if_neg (mt inWell_iff.mpr hWell), decidedColor, hSource, spriteSource_eq,
    if_neg hNoGrid]
  -- the regions in the order of the priority chain, each with its own address
  by_cases hLogo : i.inLogo = true
  · rw [if_pos hLogo, if_pos (inLogo_iff.mp hLogo)]
    exact h.value_rom (addresses_logoFrame (inLogo_iff.mp hLogo)) _
  rw [if_neg hLogo, if_neg (mt inLogo_iff.mpr hLogo)]
  by_cases hScore : i.inScore = true
  · rw [if_pos hScore, if_pos (inScore_iff.mp hScore)]
    exact h.value_rom (addresses_scoreFrame (inScore_iff.mp hScore)) _
  rw [if_neg hScore, if_neg (mt inScore_iff.mpr hScore)]
  by_cases hTens : i.inTensDigit = true
  · rw [if_pos hTens, if_pos (inTensDigit_iff.mp hTens),
      h.value_digit (addresses_tensFrame (inTensDigit_iff.mp hTens)), h.toNat_tens]
  rw [if_neg hTens, if_neg (mt inTensDigit_iff.mpr hTens)]
  by_cases hOnes : i.inOnesDigit = true
  · rw [if_pos hOnes, if_pos (inOnesDigit_iff.mp hOnes),
      h.value_digit (addresses_onesFrame (inOnesDigit_iff.mp hOnes)), h.toNat_ones]
  rw [if_neg hOnes, if_neg (mt inOnesDigit_iff.mpr hOnes), blockOrBoard, h.pieceColor]
  cases hDrawn : i.drawnBlock with
  | none =>
    simp only [if_neg hWell]
    rfl
  | some k => exact h.value_rom (h.addresses_block hDrawn hLogo hScore hTens hOnes) _

/-- Through the shared address, the ROMs and both priority chains comes the scene. -/
theorem decidedColor_eq_color (h : Depicts i v contents) :
    i.decidedColor = v.color contents i.drawX.toNat i.drawY.toNat := by
  by_cases hWell : i.inWell = true
  · rw [h.decidedColor_well hWell, Scene.color, if_pos (inWell_iff.mp hWell)]
  · exact h.decidedColor_outside hWell

end Depicts

/-- The block drawn is the piece of the scene. -/
theorem drawnBlock_eq_covering {s : Game} (h : GameInv s) (drawX drawY : BitVec 10)
    (romData : Rom → BitVec 4) (u : UndefinedRead) :
    (s.mapperInputs drawX drawY romData u).drawnBlock =
      s.scene.covering drawX.toNat drawY.toNat := by
  by_cases hSel : s.chooser.blockSel = 7
  · have hNone : s.scene.piece = none := if_pos hSel
    rw [Scene.covering, hNone]
    refine drawnBlock_of_choose_eq_empty ?_
    show s.select.choose = {}
    rw [(h.undrawn hSel).2]
  · have hPiece : s.scene.piece = some (shapeOf s.chooser.blockSel s.rotation) := if_neg hSel
    have hShape := GameInv.select_of_ne_seven hSel
    set k := shapeOf s.chooser.blockSel s.rotation
    -- exactly the line of the piece is high, with its size and place
    have hShows : (s.mapperInputs drawX drawY romData u).Shows k :=
      { choose := congrArg ShapeSelect.choose hShape
        sizeX := (congrArg (fun c => c.blockSizeX.toNat) hShape).trans (toNat_blockSizeX k)
        sizeY := (congrArg (fun c => c.blockSizeY.toNat) hShape).trans (toNat_blockSizeY k)
        xPos := h.grid.xPos_bounds.2
        yPos := h.grid.yPos_bounds.2 }
    rw [drawnBlock, hShows.choose, find_only, Scene.covering, hPiece, Option.filter_some]
    by_cases hIn : (s.scene.frame k).Contains drawX.toNat drawY.toNat
    · rw [if_pos (hShows.inBlock_iff.mpr hIn), if_pos (decide_eq_true hIn)]
    · rw [if_neg (mt hShows.inBlock_iff.mp hIn), if_neg (by simpa using hIn)]

/-- In a reachable state the ports carry the scene; the ROM data is a matter of timing. -/
theorem GameInv.depicts {s : Game} (h : GameInv s) {drawX drawY : BitVec 10}
    {romData : Rom → BitVec 4} {u : UndefinedRead} {contents : Rom → ℕ → BitVec 4}
    (hRom : ∀ r, romData r =
      contents r (s.mapperInputs drawX drawY romData u).address.toNat) :
    Depicts (s.mapperInputs drawX drawY romData u) s.scene contents where
  board := rfl
  score := rfl
  covering := drawnBlock_eq_covering h drawX drawY romData u
  block := fun _ hDrawn => h.blockAddress hDrawn
  rom := hRom

/-! ## The pipeline -/

/-- Board, position, piece and orientation are all the game has to say to the mapper. -/
theorem mapperInputs_congr {g g' : Game} (hPicture : g.picture = g'.picture)
    (hRotation : g.rotation = g'.rotation) (drawX drawY : BitVec 10)
    (romData : Rom → BitVec 4) (u : UndefinedRead) :
    g.mapperInputs drawX drawY romData u = g'.mapperInputs drawX drawY romData u := by
  obtain ⟨hX, hY, hSel, hCells⟩ := (Picture.mk.injEq ..).mp hPicture
  rw [Game.mapperInputs, Game.mapperInputs, Game.select, Game.select, hX, hY, hSel, hCells,
    hRotation]

theorem scene_congr {g g' : Game} (hPicture : g.picture = g'.picture)
    (hRotation : g.rotation = g'.rotation) : g.scene = g'.scene := by
  obtain ⟨hX, hY, hSel, hCells⟩ := (Picture.mk.injEq ..).mp hPicture
  rw [Game.scene, Game.scene, hX, hY, hSel, hCells, hRotation]

/-- The address does not depend on what the ROMs answer. -/
theorem address_mapperInputs (g : Game) (drawX drawY : BitVec 10)
    (romData romData' : Rom → BitVec 4) (u u' : UndefinedRead) :
    (g.mapperInputs drawX drawY romData u).address =
      (g.mapperInputs drawX drawY romData' u').address := by
  rw [address_eq, address_eq]
  rfl

namespace TetrisTop

/-- `VGA_R`, `VGA_G` and `VGA_B` -/
def rgb (s : TetrisTop) (i : TopInputs) : Rgb :=
  colors (s.mapperInputs i).decidedColor s.vga.hCounter

variable {contents : Rom → ℕ → BitVec 4} {s : TetrisTop} {w : ℕ → TopInputs} {phase : ℕ}

/-- On the second clock of a pixel the ROMs have answered to its address. -/
theorem rgb_step {i : TopInputs} (hInv : GameInv (s.step contents i).game)
    (hTick : i.vgaClk = false) (hPicture : (s.step contents i).game.picture = s.game.picture)
    (hRotation : (s.step contents i).game.rotation = s.game.rotation) (j : TopInputs) :
    let t := s.step contents i
    t.rgb j = colors (t.game.scene.color contents t.vga.hCounter.toNat t.vga.vCounter.toNat)
      t.vga.hCounter := by
  intro t
  have hVga : t.vga = s.vga := by
    simp only [t, step, hTick, Bool.false_eq_true, if_false]
  have hRead : ∀ r, t.romData r = contents r (s.mapperInputs i).address.toNat := fun _ => rfl
  change GameInv t.game at hInv
  change t.game.picture = s.game.picture at hPicture
  change t.game.rotation = s.game.rotation at hRotation
  clear_value t
  -- the address of the clock before is still that of the pixel
  have hRom : ∀ r, t.romData r = contents r (t.game.mapperInputs s.vga.hCounter s.vga.vCounter
      t.romData j.undefinedRead).address.toNat := fun r => by
    rw [mapperInputs_congr hPicture hRotation, hRead r]
    exact congrArg (fun a => contents r a.toNat) (address_mapperInputs _ _ _ _ _ _ _)
  have hColor := (hInv.depicts hRom).decidedColor_eq_color
  rw [rgb, mapperInputs, hVga, hColor]
  rfl

/-- The clock on which the counters come to the first pixel of frame `f`. -/
def frameStart (phase f : ℕ) : ℕ := 840000 * f + phase - 1

/-- The DAC takes the pixel `(x, y)` with the edge of `VGA_CLK` at clock `n`. -/
def Samples (contents : Rom → ℕ → BitVec 4) (s : TetrisTop) (w : ℕ → TopInputs) (n x y : ℕ) :
    Prop := (w n).vgaClk = true ∧ (s.run contents w n).vga.Draws x y

/-- When a pixel is sampled. -/
theorem Started.samples_iff (h : s.Started) (hUp : KeyUp w) (hHalved : Halved w phase) {f : ℕ}
    (hf : 0 < f) {n x y : ℕ} (hFrom : frameStart phase f ≤ n)
    (hTo : n < frameStart phase (f + 1)) (hx : x < 640) (hy : y < 480) :
    Samples contents s w n x y ↔ n = frameStart phase f + 2 * (800 * y + x) + 1 := by
  have hPhase := hHalved.phase_lt
  unfold frameStart at *
  rw [Samples, hHalved.vgaClk, decide_eq_true_eq, h.vga_eq hUp, ticks_halved hHalved,
    VgaRegs.run_eq_rasterAt (by omega), draws_rasterAt_iff, reading, Prod.mk.injEq]
  omega

/-- While the pixels of a frame are sent the counters are on its visible lines. -/
theorem Started.line_lt (h : s.Started) (hUp : KeyUp w) (hHalved : Halved w phase) {f : ℕ}
    (hf : 0 < f) {n : ℕ} (hFrom : frameStart phase f ≤ n)
    (hTo : n < frameStart phase f + 768000) :
    (s.run contents w n).vga.vCounter.toNat < 480 := by
  have hPhase := hHalved.phase_lt
  unfold frameStart at *
  have hLine : (rasterAt (ticks w n)).vCounter.toNat = ticks w n / 800 % 525 :=
    congrArg Prod.snd (counters_rasterAt (ticks w n))
  have hTicks := ticks_halved hHalved n
  rw [h.vga_eq hUp, VgaRegs.run_eq_rasterAt (by omega), hLine]
  omega

/-- The DAC takes each visible pixel exactly once a frame. -/
theorem Started.sampled_once (h : s.Started) (contents : Rom → ℕ → BitVec 4) (hUp : KeyUp w)
    (hHalved : Halved w phase) {f : ℕ} (hf : 0 < f) {x y : ℕ} (hx : x < 640) (hy : y < 480) :
    ∃ n, (frameStart phase f ≤ n ∧ n < frameStart phase (f + 1) ∧ Samples contents s w n x y) ∧
      ∀ m, frameStart phase f ≤ m → m < frameStart phase (f + 1) →
        Samples contents s w m x y → m = n := by
  have hNext : frameStart phase (f + 1) = frameStart phase f + 840000 := by
    have hPhase := hHalved.phase_lt
    unfold frameStart
    omega
  obtain ⟨n, hn⟩ : ∃ n, n = frameStart phase f + 2 * (800 * y + x) + 1 := ⟨_, rfl⟩
  have hAt : Samples contents s w n x y :=
    (h.samples_iff hUp hHalved hf (by omega) (by omega) hx hy).mpr hn
  refine ⟨n, ⟨by omega, by omega, hAt⟩, fun m hFrom hTo hSamples => ?_⟩
  rw [hn]
  exact (h.samples_iff hUp hHalved hf hFrom hTo hx hy).mp hSamples

/-- Nothing moves while the visible lines are sent. -/
theorem Started.picture_frame (h : s.Started) (hUp : KeyUp w) (hHalved : Halved w phase) {f : ℕ}
    (hf : 0 < f) {n : ℕ} (hFrom : frameStart phase f ≤ n)
    (hTo : n < frameStart phase f + 768000) :
    (s.run contents w n).game.picture =
      (s.run contents w (frameStart phase f)).game.picture := by
  have hPhase := hHalved.phase_lt
  refine h.picture_stable hUp hFrom ?_ fun k hk hkn => ?_
  · rw [ticks_halved hHalved]
    unfold frameStart
    omega
  · exact (h.line_lt hUp hHalved hf hk (by omega)).trans (by decide)

/-- A pixel the DAC takes has the colour of the scene at the start of its frame. -/
theorem Started.rgb_sampled (h : s.Started) (hUp : KeyUp w) (hHalved : Halved w phase) {f : ℕ}
    (hf : 0 < f)
    (hTurn : ∀ n, frameStart phase f ≤ n → n < frameStart phase f + 768000 →
      (s.run contents w n).game.rotation =
        (s.run contents w (frameStart phase f)).game.rotation)
    {x y n : ℕ} (hx : x < 640) (hy : y < 480) (hFrom : frameStart phase f ≤ n)
    (hTo : n < frameStart phase (f + 1)) (hAt : Samples contents s w n x y) :
    (s.run contents w n).rgb (w n) =
      colors ((s.run contents w (frameStart phase f)).game.scene.color contents x y)
        (BitVec.ofNat 10 x) := by
  -- the pixel is on the counters at clocks `c` and `c + 1`
  obtain ⟨c, hc⟩ : ∃ c, c = frameStart phase f + 2 * (800 * y + x) := ⟨_, rfl⟩
  obtain rfl : n = c + 1 := by
    rw [hc]
    exact (h.samples_iff hUp hHalved hf hFrom hTo hx hy).mp hAt
  have hTick : (w c).vgaClk = false := by
    have hPhase := hHalved.phase_lt
    rw [hHalved.vgaClk, decide_eq_false_iff_not, hc]
    unfold frameStart
    omega
  have hInv : GameInv (s.run contents w (c + 1)).game := by
    rw [game_run]
    exact gameInv_run h.game _ _
  have hStill : ∀ k, frameStart phase f ≤ k → k < frameStart phase f + 768000 →
      (s.run contents w k).game.picture =
        (s.run contents w (frameStart phase f)).game.picture :=
    fun k hk hkTo => h.picture_frame hUp hHalved hf hk hkTo
  have hColor := rgb_step hInv hTick
    ((hStill (c + 1) (by omega) (by omega)).trans (hStill c (by omega) (by omega)).symm)
    ((hTurn (c + 1) (by omega) (by omega)).trans (hTurn c (by omega) (by omega)).symm)
    (w (c + 1))
  obtain ⟨-, -, hX, hY⟩ := hAt
  have hCounter : (s.run contents w (c + 1)).vga.hCounter = BitVec.ofNat 10 x := by
    rw [← hX, BitVec.ofNat_toNat, BitVec.setWidth_eq]
  have hScene := scene_congr (hStill (c + 1) (by omega) (by omega))
    (hTurn (c + 1) (by omega) (by omega))
  rw [← hScene, ← hCounter, ← hX, ← hY]
  exact hColor

/-- Every frame shows one scene: the DAC takes each visible pixel exactly once a frame,
and its colour is that of the scene at the start of the frame, provided no key
turns the piece while the frame is sent. -/
theorem Started.frame_shown (h : s.Started) (hUp : KeyUp w) (hHalved : Halved w phase) {f : ℕ}
    (hf : 0 < f)
    (hTurn : ∀ n, frameStart phase f ≤ n → n < frameStart phase f + 768000 →
      (s.run contents w n).game.rotation =
        (s.run contents w (frameStart phase f)).game.rotation)
    {x y : ℕ} (hx : x < 640) (hy : y < 480) :
    ∃ n, (frameStart phase f ≤ n ∧ n < frameStart phase (f + 1) ∧ Samples contents s w n x y) ∧
      (∀ m, frameStart phase f ≤ m → m < frameStart phase (f + 1) →
        Samples contents s w m x y → m = n) ∧
      (s.run contents w n).rgb (w n) =
        colors ((s.run contents w (frameStart phase f)).game.scene.color contents x y)
          (BitVec.ofNat 10 x) := by
  obtain ⟨n, hAt, hOnce⟩ := h.sampled_once contents hUp hHalved hf hx hy
  exact ⟨n, hAt, hOnce, h.rgb_sampled hUp hHalved hf hTurn hx hy hAt.1 hAt.2.1 hAt.2.2⟩

/-! ## The seven-segment displays -/

/-- HEX0 to HEX3 -/
def hexScore (s : TetrisTop) : Fin 4 → BitVec 7 := hexRow (k := 4) s.game.cells.score

/-- HEX4 -/
def hexBlockSel (s : TetrisTop) : BitVec 7 := hexDriver (s.game.chooser.blockSel.setWidth 4)

/-- HEX5 -/
def hexRotSel (s : TetrisTop) : BitVec 7 := hexDriver (s.game.rotation.setWidth 4)

/-- What HEX3 to HEX0 read is the number of rows removed, modulo 65536. -/
theorem Started.hexScore_eq_iff (h : s.Started) (hUp : KeyUp w) (n m : ℕ) :
    (s.run contents w n).hexScore = hexRow (BitVec.ofNat 16 m) ↔
      m % 65536 = Nat.count (fun k => (s.run contents w k).game.removesRow = true) n % 65536 := by
  have hScore : (s.run contents w n).game.cells.score =
      BitVec.ofNat 16 (Nat.count (fun k => (s.run contents w k).game.removesRow = true) n) := by
    simp only [game_run]
    exact score_eq_count h.game (h.gameLow hUp) n
  rw [hexScore, hexRow_injective.eq_iff, hScore, ← BitVec.toNat_inj, BitVec.toNat_ofNat,
    BitVec.toNat_ofNat]
  exact eq_comm

/-- HEX4 and HEX5 read the piece and its orientation. -/
theorem hex_eq_iff (s t : TetrisTop) :
    (s.hexBlockSel = t.hexBlockSel ↔ s.game.chooser.blockSel = t.game.chooser.blockSel) ∧
      (s.hexRotSel = t.hexRotSel ↔ s.game.rotation = t.game.rotation) := by
  have hWide : ∀ {k : ℕ} {a b : BitVec k}, k ≤ 4 → (a.setWidth 4 = b.setWidth 4 ↔ a = b) :=
    fun hk => by
      rw [← BitVec.toNat_inj, BitVec.toNat_setWidth_of_le hk, BitVec.toNat_setWidth_of_le hk,
        BitVec.toNat_inj]
  rw [hexBlockSel, hexBlockSel, hexRotSel, hexRotSel, hexDriver_injective.eq_iff,
    hexDriver_injective.eq_iff, hWide (by decide), hWide (by decide)]
  exact ⟨Iff.rfl, Iff.rfl⟩

/-- The last pixel of the first full frame, nothing touched. -/
theorem frame_shown_fresh :
    (fresh.Started ∧ KeyUp untouched ∧ Halved untouched 0) ∧
      ∃ n, (frameStart 0 1 ≤ n ∧ n < frameStart 0 2 ∧
          Samples (fun _ _ => 0) fresh untouched n 639 479) ∧
        (∀ m, frameStart 0 1 ≤ m → m < frameStart 0 2 →
          Samples (fun _ _ => 0) fresh untouched m 639 479 → m = n) ∧
        (fresh.run (fun _ _ => 0) untouched n).rgb (untouched n) =
          colors ((fresh.run (fun _ _ => 0) untouched (frameStart 0 1)).game.scene.color
            (fun _ _ => 0) 639 479) (BitVec.ofNat 10 639) := by
  refine ⟨⟨started_fresh, keyUp_untouched, halved_untouched⟩,
    started_fresh.frame_shown keyUp_untouched halved_untouched Nat.one_pos
      (fun n _ _ => ?_) (by decide) (by decide)⟩
  have hIdle := started_fresh.released_idle (fun _ _ => 0) keyUp_untouched (fun _ => rfl) rfl
  rw [Game.rotation, Game.rotation, (hIdle _).state, (hIdle _).state]

end TetrisTop

end Ece385.Tetris

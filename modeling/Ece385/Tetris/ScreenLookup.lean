import Ece385.Tetris.ColorMapper
import Ece385.Tetris.Handover

/-!
# Tetris — every lookup that reaches the screen

Five regions of the screen write one address and two dozen sources are read
with it, in two chains that are ordered independently. They agree because the
regions that overwrite the address do not meet, and because a source is chosen
after the regions that could have overwritten its address. The board is indexed
with pixels up to and including the last grid lines; those are drawn as grid
lines before the index counts.

* `draw_eq` — the flags and the address in closed form.
* `addresses_of_spriteSource` — which region a chosen ROM belongs to.
* `Rom.frames` — where the sprite of a ROM is shown.

Main result:

* `screen_lookups` — in every reachable state and for every pixel, ROM addresses
  and board indices are in range and name the right word.
-/

open Raster Clocked

namespace Ece385.Tetris

namespace MapperInputs

variable {i : MapperInputs} {k : Shape}

/-! ## The first block in closed form -/

/-- The shape whose branch of "draw active block" is taken. -/
def drawnBlock (i : MapperInputs) : Option Shape :=
  if i.inBlock then drawOrder.find? i.choose.line else none

theorem drawBlock_eq (i : MapperInputs) :
    i.drawBlock {} =
      { blockOn := fun j => decide (i.drawnBlock = some j)
        address := if i.drawnBlock.isSome then i.blockAddress else 0 } := by
  rw [drawBlock, drawnBlock]
  cases i.inBlock with
  | false => rfl
  | true =>
    cases drawOrder.find? i.choose.line with
    | none => rfl
    | some k =>
      simp only [if_true, Option.isSome_some, Option.some.injEq, MapperDraw.mk.injEq, and_true]
      funext j
      by_cases hj : k = j
      · simp [hj]
      · simp [Function.update_of_ne (Ne.symm hj), hj]

theorem drawGrid_eq (v : MapperDraw) :
    i.drawGrid v = { v with gridOn := (i.onLine && i.inWell) || v.gridOn } := by
  rw [drawGrid]
  cases i.onLine && i.inWell <;> rfl

theorem drawLogo_eq (v : MapperDraw) :
    i.drawLogo v =
      { v with
        logoOn := i.inLogo || v.logoOn
        address := if i.inLogo then i.fixedAddress 260 70 125 else v.address } := by
  rw [drawLogo]
  cases i.inLogo <;> rfl

theorem drawScore_eq (v : MapperDraw) :
    i.drawScore v =
      { v with
        scoreOn := i.inScore || v.scoreOn
        address := if i.inScore then i.fixedAddress 400 135 40 else v.address } := by
  rw [drawScore]
  cases i.inScore <;> rfl

theorem drawTensDigit_eq (v : MapperDraw) :
    i.drawTensDigit v =
      { v with
        scoreTensDigitOn := i.inTensDigit || v.scoreTensDigitOn
        address := if i.inTensDigit then i.fixedAddress 410 155 8 else v.address } := by
  rw [drawTensDigit]
  cases i.inTensDigit <;> rfl

theorem drawOnesDigit_eq (v : MapperDraw) :
    i.drawOnesDigit v =
      { v with
        scoreOnesDigitOn := i.inOnesDigit || v.scoreOnesDigitOn
        address := if i.inOnesDigit then i.fixedAddress 421 155 8 else v.address } := by
  rw [drawOnesDigit]
  cases i.inOnesDigit <;> rfl

/-- The flags say which regions the pixel is in; the address is that of the last
region that has one. -/
theorem draw_eq (i : MapperInputs) :
    i.draw =
      { blockOn := fun j => decide (i.drawnBlock = some j)
        gridOn := i.onLine && i.inWell
        logoOn := i.inLogo
        scoreOn := i.inScore
        scoreTensDigitOn := i.inTensDigit
        scoreOnesDigitOn := i.inOnesDigit
        address :=
          if i.inOnesDigit then i.fixedAddress 421 155 8
          else if i.inTensDigit then i.fixedAddress 410 155 8
          else if i.inScore then i.fixedAddress 400 135 40
          else if i.inLogo then i.fixedAddress 260 70 125
          else if i.drawnBlock.isSome then i.blockAddress
          else 0 } := by
  rw [draw, drawBlock_eq, drawGrid_eq, drawLogo_eq, drawScore_eq, drawTensDigit_eq,
    drawOnesDigit_eq]
  simp only [Bool.or_false]

/-- The line that was set is the one the second chain finds. -/
theorem find_drawn (d : Option Shape) :
    drawOrder.find? (fun j => decide (d = some j)) = d := by
  cases d with
  | none => rfl
  | some k => cases k <;> rfl

/-- The end of the priority chain, outside the fixed regions. -/
def blockOrBoard (i : MapperInputs) : ColorSource :=
  match i.drawnBlock with
  | some k => .rom (.block k)
  | none => if i.inWell then .board else .constant 8

/-- The priority chain over the regions. -/
theorem spriteSource_eq (i : MapperInputs) :
    i.spriteSource =
      if i.onLine && i.inWell then .constant 10
      else if i.inLogo then .rom .tetrisLogo
      else if i.inScore then .rom .score
      else if i.inTensDigit then digitSource i.scoreTensDigitValue
      else if i.inOnesDigit then digitSource i.scoreOnesDigitValue
      else i.blockOrBoard := by
  rw [spriteSource, draw_eq]
  simp only [find_drawn]
  rfl

theorem drawnBlock_of_blockOrBoard {r : Rom} (h : i.blockOrBoard = .rom r) :
    ∃ j, i.drawnBlock = some j ∧ r = .block j := by
  rw [blockOrBoard] at h
  cases hDrawn : i.drawnBlock with
  | some j =>
    rw [hDrawn] at h
    exact ⟨j, rfl, (ColorSource.rom.inj h).symm⟩
  | none =>
    simp only [hDrawn] at h
    split_ifs at h

/-- The board ends the chain inside the well only. -/
theorem inWell_of_blockOrBoard (h : i.blockOrBoard = .board) : i.inWell = true := by
  rw [blockOrBoard] at h
  cases hDrawn : i.drawnBlock with
  | some j =>
    simp only [hDrawn] at h
    exact absurd h ColorSource.noConfusion
  | none =>
    simp only [hDrawn] at h
    by_contra hOutside
    rw [if_neg hOutside] at h
    exact absurd h ColorSource.noConfusion

/-- A digit of the score is a digit ROM, or nothing where the value is no digit. -/
theorem eq_digit_of_digitSource {value : BitVec 4} {r : Rom} (h : digitSource value = .rom r) :
    ∃ d, r = .digit d := by
  rw [digitSource] at h
  split_ifs at h with hDigit
  exact ⟨_, (ColorSource.rom.inj h).symm⟩

theorem digitSource_ne_board (value : BitVec 4) : digitSource value ≠ .board := by
  rw [digitSource]
  split_ifs <;> exact ColorSource.noConfusion

theorem address_eq (i : MapperInputs) :
    i.address =
      if i.inOnesDigit then i.fixedAddress 421 155 8
      else if i.inTensDigit then i.fixedAddress 410 155 8
      else if i.inScore then i.fixedAddress 400 135 40
      else if i.inLogo then i.fixedAddress 260 70 125
      else if i.drawnBlock.isSome then i.blockAddress
      else 0 := by
  rw [address, draw_eq]

/-! ## Regions as rectangles -/

def logoFrame : Rect := ⟨260, 70, 125, 50⟩
def scoreFrame : Rect := ⟨400, 135, 40, 15⟩
def tensFrame : Rect := ⟨410, 155, 8, 15⟩
def onesFrame : Rect := ⟨421, 155, 8, 15⟩

/-- The box of shape `k` at the position of the active block. -/
def blockFrame (i : MapperInputs) (k : Shape) : Rect :=
  ⟨i.xPos.toNat, i.yPos.toNat, 9 * k.width + 1, 9 * k.height + 1⟩

/-- The pixel being drawn lies in `r`. -/
abbrev In (i : MapperInputs) (r : Rect) : Prop := r.Contains i.drawX.toNat i.drawY.toNat

theorem within_iff {x x' y y' : BitVec 10} {r : Rect} (hLeft : x.toNat = r.x)
    (hRight : x'.toNat = r.x + r.width) (hTop : y.toNat = r.y)
    (hBottom : y'.toNat = r.y + r.height) : i.within x x' y y' = true ↔ i.In r := by
  simp only [within, Bool.and_eq_true, decide_eq_true_eq, ge_iff_le, BitVec.le_def,
    BitVec.lt_def, hLeft, hRight, hTop, hBottom]
  exact ⟨fun ⟨⟨⟨h₁, h₂⟩, h₃⟩, h₄⟩ => ⟨h₁, h₂, h₃, h₄⟩,
    fun h => ⟨⟨⟨h.left, h.right⟩, h.top⟩, h.bottom⟩⟩

theorem inLogo_iff : i.inLogo = true ↔ i.In logoFrame := within_iff rfl rfl rfl rfl

theorem inScore_iff : i.inScore = true ↔ i.In scoreFrame := within_iff rfl rfl rfl rfl

theorem inTensDigit_iff : i.inTensDigit = true ↔ i.In tensFrame := within_iff rfl rfl rfl rfl

theorem inOnesDigit_iff : i.inOnesDigit = true ↔ i.In onesFrame := within_iff rfl rfl rfl rfl

/-- The literals of a fixed region address its sprite. -/
theorem toNat_fixedAddress {x y width : BitVec 32} {r : Rect} (hx : x.toNat = r.x)
    (hy : y.toNat = r.y) (hWidth : width.toNat = r.width) (hArea : r.area ≤ 2 ^ 19)
    (h : i.In r) : (i.fixedAddress x y width).toNat = r.offset i.drawX.toNat i.drawY.toNat := by
  have hOffset := Rect.offset_lt h
  have hX : (i.drawX.setWidth 32).toNat = i.drawX.toNat := BitVec.toNat_setWidth_of_le (by decide)
  have hY : (i.drawY.setWidth 32).toNat = i.drawY.toNat := BitVec.toNat_setWidth_of_le (by decide)
  have hWord : ((i.drawX.setWidth 32).toNat - x.toNat) +
      ((i.drawY.setWidth 32).toNat - y.toNat) * width.toNat =
        r.offset i.drawX.toNat i.drawY.toNat := by
    rw [hX, hY, hx, hy, hWidth]
    rfl
  -- in the rectangle neither difference is negative and the word is below 2 ^ 19
  rw [fixedAddress, BitVec.toNat_setWidth, toNat_rowMajor, hWord, Nat.mod_eq_of_lt (by omega)]
  · rw [BitVec.le_def, hX, hx]
    exact h.left
  · rw [BitVec.le_def, hY, hy]
    exact h.top
  · rw [hWord]
    omega

/-! ## The word a ROM is read at -/

/-- Where on the screen the sprite of a ROM is shown. -/
def frames (i : MapperInputs) : Rom → List Rect
  | .block k => [i.blockFrame k]
  | .tetrisLogo => [logoFrame]
  | .score => [scoreFrame]
  | .digit _ => [tensFrame, onesFrame]

/-- The pixel is in `r` and the address is its offset there, no bit of it cut. -/
structure Addresses (i : MapperInputs) (r : Rect) : Prop where
  inside : i.In r
  address : i.address.toNat = r.offset i.drawX.toNat i.drawY.toNat

/-- A sprite fills its ROM. -/
theorem area_frames {r : Rom} {t : Rect} (h : t ∈ i.frames r) : t.area = r.depth := by
  cases r with
  | block k =>
    obtain rfl := List.mem_singleton.mp h
    cases k <;> rfl
  | tetrisLogo => obtain rfl := List.mem_singleton.mp h; rfl
  | score => obtain rfl := List.mem_singleton.mp h; rfl
  | digit d =>
    rcases List.mem_pair.mp h with rfl | rfl
    · rfl
    · rfl

theorem Addresses.lt_depth {r : Rom} {t : Rect} (h : i.Addresses t) (hFrame : t ∈ i.frames r) :
    i.address.toNat < r.depth := by
  rw [h.address, ← area_frames hFrame]
  exact Rect.offset_lt h.inside

/-- The ones digit is the last region to write the address. -/
theorem addresses_onesFrame (h : i.In onesFrame) : i.Addresses onesFrame where
  inside := h
  address := by
    rw [address_eq, if_pos (inOnesDigit_iff.mpr h)]
    exact toNat_fixedAddress rfl rfl rfl (by decide) h

theorem addresses_tensFrame (h : i.In tensFrame) : i.Addresses tensFrame where
  inside := h
  address := by
    have hOnes := mt inOnesDigit_iff.mp (h.not_right (t := onesFrame) (by decide))
    rw [address_eq, if_neg hOnes, if_pos (inTensDigit_iff.mpr h)]
    exact toNat_fixedAddress rfl rfl rfl (by decide) h

/-- The score text ends five lines above its digits. -/
theorem addresses_scoreFrame (h : i.In scoreFrame) : i.Addresses scoreFrame where
  inside := h
  address := by
    have hOnes := mt inOnesDigit_iff.mp (h.not_below (t := onesFrame) (by decide))
    have hTens := mt inTensDigit_iff.mp (h.not_below (t := tensFrame) (by decide))
    rw [address_eq, if_neg hOnes, if_neg hTens, if_pos (inScore_iff.mpr h)]
    exact toNat_fixedAddress rfl rfl rfl (by decide) h

theorem addresses_logoFrame (h : i.In logoFrame) : i.Addresses logoFrame where
  inside := h
  address := by
    have hOnes := mt inOnesDigit_iff.mp (h.not_below (t := onesFrame) (by decide))
    have hTens := mt inTensDigit_iff.mp (h.not_below (t := tensFrame) (by decide))
    have hScore := mt inScore_iff.mp (h.not_below (t := scoreFrame) (by decide))
    rw [address_eq, if_neg hOnes, if_neg hTens, if_neg hScore, if_pos (inLogo_iff.mpr h)]
    exact toNat_fixedAddress rfl rfl rfl (by decide) h

/-! ## The active block -/

/-- The select lines, the sizes and the position are those of shape `k` on the
grid, or no line is high. -/
structure Shows (i : MapperInputs) (k : Shape) : Prop where
  choose : i.choose = k.only
  sizeX : i.blockSizeX.toNat = 9 * k.width + 1
  sizeY : i.blockSizeY.toNat = 9 * k.height + 1
  xPos : i.xPos.toNat ≤ 360
  yPos : i.yPos.toNat ≤ 324

theorem drawnBlock_of_choose_eq_empty (h : i.choose = {}) : i.drawnBlock = none := by
  rw [drawnBlock, h]
  exact ite_self _

namespace Shows

theorem inBlock_iff (h : i.Shows k) : i.inBlock = true ↔ i.In (i.blockFrame k) := by
  have hWidth := width_le k
  have hHeight := height_le k
  have hX := h.xPos
  have hY := h.yPos
  refine within_iff rfl ?_ rfl ?_
  · rw [BitVec.toNat_add, BitVec.toNat_setWidth, h.sizeX, blockFrame]
    dsimp only
    omega
  · rw [BitVec.toNat_add, BitVec.toNat_setWidth, h.sizeY, blockFrame]
    dsimp only
    omega

/-- Only the shape shown is drawn, and only in its box. -/
theorem drawnBlock_eq_some (h : i.Shows k) {j : Shape} (hDrawn : i.drawnBlock = some j) :
    j = k ∧ i.In (i.blockFrame k) := by
  rw [drawnBlock] at hDrawn
  split_ifs at hDrawn with hIn
  refine ⟨?_, h.inBlock_iff.mp hIn⟩
  have hLine := List.find?_some hDrawn
  rw [h.choose, line_only, decide_eq_true_eq] at hLine
  exact hLine

theorem toNat_blockAddress (h : i.Shows k) (hIn : i.In (i.blockFrame k)) :
    i.blockAddress.toNat = (i.blockFrame k).offset i.drawX.toNat i.drawY.toNat := by
  have hOffset := Rect.offset_lt hIn
  have hArea : (i.blockFrame k).area < 2 ^ 19 := by
    rw [area_frames (i := i) (r := .block k) (List.mem_singleton_self _)]
    cases k <;> decide
  have hSame {x : BitVec 10} : (x.setWidth 19).toNat = x.toNat :=
    BitVec.toNat_setWidth_of_le (by decide)
  have hSize : (i.blockSizeX.setWidth 19).toNat = 9 * k.width + 1 := by
    rw [BitVec.toNat_setWidth_of_le (by decide), h.sizeX]
  have hWord : ((i.drawX.setWidth 19).toNat - (i.xPos.setWidth 19).toNat) +
      ((i.drawY.setWidth 19).toNat - (i.yPos.setWidth 19).toNat) *
        (i.blockSizeX.setWidth 19).toNat =
          (i.blockFrame k).offset i.drawX.toNat i.drawY.toNat := by
    rw [hSame, hSame, hSame, hSame, hSize]
    rfl
  rw [blockAddress, toNat_rowMajor, hWord]
  · rw [BitVec.le_def, hSame, hSame]
    exact hIn.left
  · rw [BitVec.le_def, hSame, hSame]
    exact hIn.top
  · rw [hWord]
    omega

end Shows

/-! ## Which ROM is chosen where -/

/-- A ROM that reaches the screen is read at the pixel's word of its sprite. -/
theorem addresses_of_spriteSource
    (hShown : ∀ j, i.drawnBlock = some j → i.In (i.blockFrame j) ∧
      i.blockAddress.toNat = (i.blockFrame j).offset i.drawX.toNat i.drawY.toNat)
    {r : Rom} (h : i.spriteSource = .rom r) : ∃ t ∈ i.frames r, i.Addresses t := by
  rw [spriteSource_eq] at h
  split_ifs at h with hGrid hLogo hScore hTens hOnes
  · obtain rfl := ColorSource.rom.inj h
    exact ⟨_, List.mem_singleton_self _, addresses_logoFrame (inLogo_iff.mp hLogo)⟩
  · obtain rfl := ColorSource.rom.inj h
    exact ⟨_, List.mem_singleton_self _, addresses_scoreFrame (inScore_iff.mp hScore)⟩
  · obtain ⟨d, rfl⟩ := eq_digit_of_digitSource h
    exact ⟨_, List.mem_cons_self, addresses_tensFrame (inTensDigit_iff.mp hTens)⟩
  · obtain ⟨d, rfl⟩ := eq_digit_of_digitSource h
    exact ⟨_, List.mem_cons_of_mem _ (List.mem_singleton_self _),
      addresses_onesFrame (inOnesDigit_iff.mp hOnes)⟩
  · obtain ⟨j, hDrawn, rfl⟩ := drawnBlock_of_blockOrBoard h
    obtain ⟨hBlock, hAddress⟩ := hShown j hDrawn
    refine ⟨_, List.mem_singleton_self _, hBlock, ?_⟩
    -- the block writes the address first; no other region has overwritten it
    rw [address_eq, if_neg hOnes, if_neg hTens, if_neg hScore, if_neg hLogo, hDrawn]
    exact hAddress

/-! ## The board between the grid lines -/

/-- The pixel lies strictly inside the cell. -/
structure InCell (i : MapperInputs) (row : Fin 22) (col : Fin 11) : Prop where
  left : 270 + 9 * col.val < i.drawX.toNat
  right : i.drawX.toNat < 279 + 9 * col.val
  top : 135 + 9 * row.val < i.drawY.toNat
  bottom : i.drawY.toNat < 144 + 9 * row.val

theorem inWell_iff : i.inWell = true ↔
    (270 ≤ i.drawX.toNat ∧ i.drawX.toNat ≤ 369) ∧ 135 ≤ i.drawY.toNat ∧ i.drawY.toNat ≤ 333 := by
  simp only [inWell, Bool.and_eq_true, decide_eq_true_eq, ge_iff_le, BitVec.le_def, and_assoc]
  rfl

theorem onLine_eq_false_iff :
    i.onLine = false ↔ i.drawX.toNat % 9 ≠ 0 ∧ i.drawY.toNat % 9 ≠ 0 := by
  have hMod {x : BitVec 10} : x.setWidth 32 % 9#32 = 0 ↔ x.toNat % 9 = 0 := by
    rw [← BitVec.toNat_inj, BitVec.toNat_umod, BitVec.toNat_setWidth_of_le (by decide)]
    rfl
  rw [onLine, Bool.or_eq_false_iff, decide_eq_false_iff_not, decide_eq_false_iff_not, hMod, hMod]

/-- The grid lines of the well are multiples of nine, the last ones included, so
a pixel off them is in one of the cells. -/
theorem exists_inCell (hWell : i.inWell = true) (hLine : i.onLine = false) :
    ∃ row col, i.InCell row col := by
  obtain ⟨hX, hY⟩ := inWell_iff.mp hWell
  obtain ⟨hOffX, hOffY⟩ := onLine_eq_false_iff.mp hLine
  refine ⟨⟨(i.drawY.toNat - 135) / 9, by omega⟩, ⟨(i.drawX.toNat - 270) / 9, by omega⟩, ?_⟩
  constructor <;> dsimp only <;> omega

namespace InCell

variable {row : Fin 22} {col : Fin 11}

theorem gridRow (h : i.InCell row col) : (gridRow i.drawY).toNat = row := by
  have hTop := h.top
  have hBottom := h.bottom
  have hLt := i.drawY.isLt
  rw [Tetris.gridRow, BitVec.toNat_udiv, BitVec.toNat_sub, BitVec.toNat_setWidth]
  simp only [BitVec.toNat_ofNat, Nat.reducePow, Nat.reduceMod]
  omega

theorem gridCol (h : i.InCell row col) : (gridCol i.drawX).toNat = col := by
  have hLeft := h.left
  have hRight := h.right
  have hLt := i.drawX.isLt
  rw [Tetris.gridCol, BitVec.toNat_udiv, BitVec.toNat_sub, BitVec.toNat_setWidth]
  simp only [BitVec.toNat_ofNat, Nat.reducePow, Nat.reduceMod]
  omega

theorem boardLookup (h : i.InCell row col) : i.boardLookup = i.board row col := by
  have hRange : (Tetris.gridRow i.drawY).toNat < 22 ∧ (Tetris.gridCol i.drawX).toNat < 11 := by
    rw [h.gridRow, h.gridCol]
    exact ⟨row.isLt, col.isLt⟩
  have hRow : (⟨_, hRange.1⟩ : Fin 22) = row := Fin.ext h.gridRow
  have hCol : (⟨_, hRange.2⟩ : Fin 11) = col := Fin.ext h.gridCol
  rw [MapperInputs.boardLookup, read, dif_pos hRange, hRow, hCol]

end InCell

/-- The board is chosen inside the well only, and not on a grid line. -/
theorem exists_inCell_of_spriteSource (h : i.spriteSource = .board) :
    ∃ row col, i.InCell row col := by
  rw [spriteSource_eq] at h
  split_ifs at h with hGrid hLogo hScore hTens hOnes
  · exact absurd h (digitSource_ne_board _)
  · exact absurd h (digitSource_ne_board _)
  · -- off the grid lines of the well, and in the well
    have hWell := inWell_of_blockOrBoard h
    refine exists_inCell hWell ?_
    simpa [hWell] using hGrid

/-- A transparent pixel of a sprite is no grid line: those have colour 10. -/
theorem exists_inCell_of_transparent (hColor : i.spriteColor = 0 ∨ i.spriteColor = 9)
    (hWell : i.inWell = true) : ∃ row col, i.InCell row col := by
  refine exists_inCell hWell ?_
  by_contra hLine
  rw [Bool.not_eq_false] at hLine
  have hTen : i.spriteColor = 10 := by
    rw [spriteColor, spriteSource_eq, hLine, hWell]
    rfl
  rw [hTen] at hColor
  exact absurd hColor (by decide)

theorem exists_inCell_of_decidedSource (h : i.decidedSource = .board) :
    ∃ row col, i.InCell row col := by
  rw [decidedSource] at h
  split_ifs at h with hThrough
  · exact exists_inCell_of_transparent hThrough.1 hThrough.2
  · exact exists_inCell_of_spriteSource h

theorem spriteSource_of_decidedSource {r : Rom} (h : i.decidedSource = .rom r) :
    i.spriteSource = .rom r := by
  rw [decidedSource] at h
  split_ifs at h
  exact h

end MapperInputs

/-! ## Every reachable state -/

section Reachable

variable {s : Game} {drawX drawY : BitVec 10} {romData : Rom → BitVec 4} {u : UndefinedRead}

open MapperInputs

/-- The decoder and the position registers show a shape on the grid, or none. -/
theorem GameInv.shows (h : GameInv s) :
    (s.mapperInputs drawX drawY romData u).choose = {} ∨
      ∃ k, (s.mapperInputs drawX drawY romData u).Shows k := by
  by_cases hSel : s.chooser.blockSel = 7
  · refine Or.inl ?_
    show s.select.choose = {}
    rw [(h.undrawn hSel).2]
  · have hShape := GameInv.select_of_ne_seven hSel
    refine Or.inr ⟨shapeOf s.chooser.blockSel s.rotation, ?_, ?_, ?_, h.grid.xPos_bounds.2,
      h.grid.yPos_bounds.2⟩
    · show s.select.choose = _
      rw [hShape]
      rfl
    · show s.select.blockSizeX.toNat = _
      rw [hShape, toNat_blockSizeX]
    · show s.select.blockSizeY.toNat = _
      rw [hShape, toNat_blockSizeY]

/-- A drawn block is the shape shown, and its address the pixel's offset. -/
theorem GameInv.blockAddress (h : GameInv s) {j : Shape}
    (hDrawn : (s.mapperInputs drawX drawY romData u).drawnBlock = some j) :
    (s.mapperInputs drawX drawY romData u).In
        ((s.mapperInputs drawX drawY romData u).blockFrame j) ∧
      (s.mapperInputs drawX drawY romData u).blockAddress.toNat =
        ((s.mapperInputs drawX drawY romData u).blockFrame j).offset drawX.toNat drawY.toNat := by
  rcases h.shows with hNone | ⟨k, hShows⟩
  · rw [drawnBlock_of_choose_eq_empty hNone] at hDrawn
    exact absurd hDrawn (Option.some_ne_none j).symm
  · obtain ⟨rfl, hIn⟩ := hShows.drawnBlock_eq_some hDrawn
    exact ⟨hIn, hShows.toNat_blockAddress hIn⟩

/-- Changing what out-of-range reads return changes no colour. -/
theorem decidedColor_undefinedRead (u' : UndefinedRead) :
    (s.mapperInputs drawX drawY romData u').decidedColor =
      (s.mapperInputs drawX drawY romData u).decidedColor := by
  -- the sources agree up to the value of the board, and it is read in a cell
  have hLookup (hCell : ∃ row col, (s.mapperInputs drawX drawY romData u).InCell row col) :
      (s.mapperInputs drawX drawY romData u').boardLookup =
        (s.mapperInputs drawX drawY romData u).boardLookup := by
    obtain ⟨row, col, h⟩ := hCell
    have h' : (s.mapperInputs drawX drawY romData u').InCell row col :=
      ⟨h.left, h.right, h.top, h.bottom⟩
    rw [h.boardLookup, h'.boardLookup]
    rfl
  have hSource : (s.mapperInputs drawX drawY romData u').spriteSource =
      (s.mapperInputs drawX drawY romData u).spriteSource := by
    rw [spriteSource_eq, spriteSource_eq]
    rfl
  have hSprite : (s.mapperInputs drawX drawY romData u').spriteColor =
      (s.mapperInputs drawX drawY romData u).spriteColor := by
    rw [spriteColor, spriteColor, hSource]
    cases h : (s.mapperInputs drawX drawY romData u).spriteSource with
    | constant c => rfl
    | rom r => rfl
    | board => exact hLookup (exists_inCell_of_spriteSource h)
  have hDecided : (s.mapperInputs drawX drawY romData u').decidedSource =
      (s.mapperInputs drawX drawY romData u).decidedSource := by
    rw [decidedSource, decidedSource, hSprite, hSource]
    rfl
  rw [decidedColor, decidedColor, hDecided]
  cases h : (s.mapperInputs drawX drawY romData u).decidedSource with
  | constant c => rfl
  | rom r => rfl
  | board => exact hLookup (exists_inCell_of_decidedSource h)

/-- In every state reached from reset, for every pixel and whatever the ROMs
return:

* where a ROM is chosen, the address is below its depth and is the offset of the
  pixel in a rectangle of the screen where that sprite is shown;
* where the board is chosen, its indices are those of a cell, the pixel lies
  strictly inside it, and its colour is the cell's;
* so the colour does not depend on what reads outside the board return. -/
theorem screen_lookups (h : s.ReachableFromReset) (drawX drawY : BitVec 10)
    (romData : Rom → BitVec 4) (u : UndefinedRead) :
    let i := s.mapperInputs drawX drawY romData u
    (∀ r, i.spriteSource = .rom r ∨ i.decidedSource = .rom r →
      i.address.toNat < r.depth ∧ ∃ t ∈ i.frames r, t.Contains drawX.toNat drawY.toNat ∧
        i.address.toNat = t.offset drawX.toNat drawY.toNat) ∧
    (i.decidedSource = .board → ∃ (row : Fin 22) (col : Fin 11),
      (gridRow drawY).toNat = row ∧ (gridCol drawX).toNat = col ∧
        (270 + 9 * col < drawX.toNat ∧ drawX.toNat < 279 + 9 * col) ∧
        (135 + 9 * row < drawY.toNat ∧ drawY.toNat < 144 + 9 * row) ∧
        i.decidedColor = s.cells.board row col) ∧
    ∀ u', (s.mapperInputs drawX drawY romData u').decidedColor = i.decidedColor := by
  intro i
  have hInv := gameInv_of_reachable h
  refine ⟨fun r hRom => ?_, fun hBoard => ?_, decidedColor_undefinedRead⟩
  · have hSource : i.spriteSource = .rom r := hRom.elim id spriteSource_of_decidedSource
    obtain ⟨t, hFrame, hAddresses⟩ :=
      addresses_of_spriteSource (fun j => hInv.blockAddress) hSource
    exact ⟨hAddresses.lt_depth hFrame, t, hFrame, hAddresses.inside, hAddresses.address⟩
  · obtain ⟨row, col, hCell⟩ := exists_inCell_of_decidedSource hBoard
    refine ⟨row, col, hCell.gridRow, hCell.gridCol, ⟨hCell.left, hCell.right⟩,
      ⟨hCell.top, hCell.bottom⟩, ?_⟩
    rw [decidedColor, hBoard]
    exact hCell.boardLookup

/-- The second piece is shown and the first has settled: a pixel of the one and a pixel of the
other. -/
theorem screen_lookups_settled :
    let s := Game.initial.run (listed standingRun) 188
    let i := s.mapperInputs 301 139 (fun _ => 1) (fun _ _ => 0)
    let j := s.mapperInputs 301 300 (fun _ => 1) (fun _ _ => 0)
    (i.address.toNat < (Rom.block .o).depth ∧ ∃ t ∈ i.frames (.block .o), t.Contains 301 139 ∧
      i.address.toNat = t.offset 301 139) ∧
    (∃ (row : Fin 22) (col : Fin 11), (gridRow 300).toNat = row ∧ (gridCol 301).toNat = col ∧
      (270 + 9 * col.val < 301 ∧ 301 < 279 + 9 * col.val) ∧
      (135 + 9 * row.val < 300 ∧ 300 < 144 + 9 * row.val) ∧
      j.decidedColor = s.cells.board row col) ∧ j.decidedColor = 1 := by
  intro s i j
  have hReach : s.ReachableFromReset :=
    reachable_trace Game.isReset_initial (fun _ => trivial) 188
  have hState : s = ((standingRun.foldl Game.step Game.initial).step {}).step {} := by
    have hEnd : Game.initial.run (listed standingRun) 186 =
        standingRun.foldl Game.step Game.initial := by
      rw [run_listed _ _ length_standingRun.ge, ← length_standingRun, List.take_length]
    rw [show s = Game.initial.run (listed standingRun) (186 + 1 + 1) from rfl, Game.run, trace_succ,
      trace_succ, listed_of_le length_standingRun.le,
      listed_of_le (by rw [length_standingRun]; omega)]
    exact congrArg (fun t => (t.step {}).step {}) hEnd
  have hSources : i.decidedSource = .rom (.block .o) ∧ j.decidedSource = .board ∧
      j.decidedColor = 1 := by
    rw [show i = s.mapperInputs 301 139 _ _ from rfl, show j = s.mapperInputs 301 300 _ _ from rfl,
      hState]
    decide +kernel
  exact ⟨(screen_lookups hReach 301 139 _ _).1 _ (Or.inr hSources.1),
    (screen_lookups hReach 301 300 (fun _ => 1) (fun _ _ => 0)).2.1 hSources.2.1, hSources.2.2⟩

end Reachable

end Ece385.Tetris

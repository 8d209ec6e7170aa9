import Ece385.Tetris.FrameStep

/-!
# Tetris — which cells the collision tests read

Every test of `block_motion` indexes `board` with the cell of the piece plus
an offset of its table. The side tests are guarded by the pixel comparisons
with the walls. The landing test is not guarded: it runs on every frame edge,
also on the one that finds the piece on the floor, and the row it then reads
is row 22 of an array that ends with row 21. A piece that hangs past the right
wall is tested in column 11 likewise.

Main results:

* `motionComb_undefinedRead` — where no read leaves the array, the whole
  `always_comb` block is independent of what such a read would return.
* `probes_inside_iff` — in every reachable state the reads of a frame edge stay
  in the array exactly off the floor and inside the right wall.
* `landing_reads_row_22` — a run to the floor on which one does not.
-/

open Figure Clocked

namespace Ece385.Tetris

/-! ## The index pairs read on a frame edge -/

/-- The index pairs a test of `cells` reads with the piece at `(xPos, yPos)`. -/
def probes (xPos yPos : BitVec 10) (cells : List (ℤ × ℤ)) : List (BitVec 32 × BitVec 32) :=
  cells.map fun d => (offset (gridRow yPos) d.1, offset (gridCol xPos) d.2)

/-- What the landing test of the asserted shape reads. -/
def landingProbes (m : MotionRegs) (i : MotionInputs) : List (BitVec 32 × BitVec 32) :=
  probes m.blockXPos m.blockYPos (landingTable i.select.choose)

/-- What the LEFT or the RIGHT test reads, its key down and its guard holding. -/
def sideProbes (m : MotionRegs) (i : MotionInputs) : List (BitVec 32 × BitVec 32) :=
  if i.left ∧ m.blockXPos > xMin then
    probes m.blockXPos m.blockYPos ((leftTable i.select.choose).getD [])
  else if i.right ∧ rightFree m i then
    probes m.blockXPos m.blockYPos ((rightTable i.select.choose).getD [])
  else []

/-- `0 <= i <= 21` and `0 <= j <= 10` -/
def InArray (p : BitVec 32 × BitVec 32) : Prop := p.1.toNat < 22 ∧ p.2.toNat < 11

instance : DecidablePred InArray := fun _ => inferInstanceAs (Decidable (_ ∧ _))

/-- Every element read on a frame edge is an element of `board`. -/
def ProbesInside (m : MotionRegs) (i : MotionInputs) : Prop :=
  ∀ p ∈ landingProbes m i ++ sideProbes m i, InArray p

/-- Off the floor and not past the right wall. -/
def OffFloorInWall (m : MotionRegs) (i : MotionInputs) : Prop :=
  atFloor m i = false ∧ m.blockXPos + i.select.blockSizeX.setWidth 10 ≤ xMax + 1

/-! ## What an out-of-range read returns -/

section Oracle

variable {m : MotionRegs} {i : MotionInputs}

/-- The same inputs over another oracle. -/
def MotionInputs.withReads (i : MotionInputs) (u : UndefinedRead) : MotionInputs :=
  { i with undefinedRead := u }

theorem read_eq_of_inArray {p : BitVec 32 × BitVec 32} (h : InArray p) (u u' : UndefinedRead)
    (b : Board) : read u b p.1 p.2 = read u' b p.1 p.2 := by
  have hRange : p.1.toNat < 22 ∧ p.2.toNat < 11 := h
  rw [read, read, dif_pos hRange, dif_pos hRange]

theorem hits_withReads {xPos yPos : BitVec 10} {cells : List (ℤ × ℤ)}
    (h : ∀ p ∈ probes xPos yPos cells, InArray p) (u : UndefinedRead) :
    (i.withReads u).hits xPos yPos cells = i.hits xPos yPos cells := by
  rw [Bool.eq_iff_iff]
  simp only [MotionInputs.hits, List.any_eq_true]
  refine exists_congr fun d => and_congr_right fun hd => ?_
  have hCell : InArray (offset (gridRow yPos) d.1, offset (gridCol xPos) d.2) :=
    h _ (List.mem_map_of_mem hd)
  show (read u i.board _ _ != 0) = true ↔ _
  rw [read_eq_of_inArray hCell u i.undefinedRead]

theorem sideMotion_withReads {table : Option (List (ℤ × ℤ))}
    (h : ∀ p ∈ probes m.blockXPos m.blockYPos (table.getD []), InArray p) (u : UndefinedRead)
    (step old : BitVec 10) :
    sideMotion m (i.withReads u) table step old = sideMotion m i table step old := by
  cases table with
  | none => rfl
  | some cells =>
    have hHits := hits_withReads (i := i) (show ∀ p ∈ probes _ _ cells, InArray p from h) u
    rw [sideMotion_some, sideMotion_some, hHits]

theorem checkLanding_withReads (h : ∀ p ∈ landingProbes m i, InArray p) (u : UndefinedRead)
    (v : MotionComb) : checkLanding m (i.withReads u) v = checkLanding m i v := by
  rw [checkLanding_eq, checkLanding_eq]
  congr 2
  exact hits_withReads h u

theorem checkKeys_withReads (h : ∀ p ∈ sideProbes m i, InArray p) (u : UndefinedRead)
    (v : MotionComb) : checkKeys m (i.withReads u) v = checkKeys m i v := by
  have hLeft (hKey : i.left = true) (hGuard : m.blockXPos > xMin) (step old : BitVec 10) :
      sideMotion m (i.withReads u) (leftTable i.select.choose) step old =
        sideMotion m i (leftTable i.select.choose) step old := by
    rw [sideProbes, if_pos ⟨hKey, hGuard⟩] at h
    exact sideMotion_withReads h u step old
  have hRight (hKey : i.right = true) (hGuard : rightFree m i = true) (step old : BitVec 10) :
      sideMotion m (i.withReads u) (rightTable i.select.choose) step old =
        sideMotion m i (rightTable i.select.choose) step old := by
    rw [sideProbes, if_neg (by simp [not_left_of_right hKey]), if_pos ⟨hKey, hGuard⟩] at h
    exact sideMotion_withReads h u step old
  -- only the two direction branches read the board
  unfold checkKeys
  show (if i.keypress = true then if i.keycode = 0x1C then _ else if i.keycode = 0x23 then _
    else _ else v) = _
  refine if_ctx_congr Iff.rfl (fun hPress => if_ctx_congr Iff.rfl (fun hKey => ?_) fun _ =>
    if_ctx_congr Iff.rfl (fun hKey => ?_) fun _ => rfl) fun _ => rfl
  · refine if_ctx_congr Iff.rfl (fun hGuard => ?_) fun _ => rfl
    rw [← hLeft (by simp [MotionInputs.left, hPress, hKey]) hGuard.1]
    rfl
  · refine if_ctx_congr Iff.rfl (fun hGuard => ?_) fun _ => rfl
    rw [← hRight (by simp [MotionInputs.right, hPress, hKey]) hGuard.1]
    rfl

/-- Where every read is inside, `at_bottom` and the chosen motion are defined. -/
theorem motionComb_undefinedRead (h : ProbesInside m i) (u : UndefinedRead) :
    motionComb m (i.withReads u) = motionComb m i := by
  cases hEdge : m.frameClkRisingEdge with
  | false => rw [motionComb_idle hEdge, motionComb_idle hEdge]
  | true =>
    have hLanding : ∀ p ∈ landingProbes m i, InArray p :=
      fun p hp => h p (List.mem_append_left _ hp)
    have hSide : ∀ p ∈ sideProbes m i, InArray p := fun p hp => h p (List.mem_append_right _ hp)
    rw [motionComb_edge hEdge, motionComb_edge hEdge, checkLanding_withReads hLanding,
      checkKeys_withReads hSide]
    rfl

end Oracle

/-! ## The reads of a drawn shape -/

section Drawn

variable {m : MotionRegs} {i : MotionInputs} {k : Shape} {a d : ℤ × ℤ}

/-- The index expressions next to the piece do not wrap where they are not
negative. -/
theorem AtCell.index_toNat {xPos yPos : BitVec 10} (h : AtCell xPos yPos a)
    (hRow : 0 ≤ a.1 + d.1) (hCol : 0 ≤ a.2 + d.2) (hDown : d.1 ≤ 4) (hAcross : d.2 ≤ 4) :
    ((offset (Tetris.gridRow yPos) d.1).toNat : ℤ) = a.1 + d.1 ∧
      ((offset (Tetris.gridCol xPos) d.2).toNat : ℤ) = a.2 + d.2 := by
  have hX := h.x
  have hY := h.y
  have hLtX := xPos.isLt
  have hLtY := yPos.isLt
  rw [← h.gridRow, ← h.gridCol] at *
  exact ⟨toNat_offset (by omega) (by omega), toNat_offset (by omega) (by omega)⟩

theorem AtCell.inArray_iff {xPos yPos : BitVec 10} (h : AtCell xPos yPos a)
    (hRow : 0 ≤ a.1 + d.1) (hCol : 0 ≤ a.2 + d.2) (hDown : d.1 ≤ 4) (hAcross : d.2 ≤ 4) :
    InArray (offset (Tetris.gridRow yPos) d.1, offset (Tetris.gridCol xPos) d.2) ↔
      a.1 + d.1 < 22 ∧ a.2 + d.2 < 11 := by
  have hIndex := h.index_toNat hRow hCol hDown hAcross
  -- not negative, so the one bound of `InArray` is enough
  rw [InArray]
  dsimp only
  omega

/-- A table of cells newly covered by a shift stays within the shifted box. -/
theorem table_bounds {table : List (ℤ × ℤ)} {e : ℤ × ℤ}
    (hTable : table.toFinset = place k.cells e \ k.cells) (hd : d ∈ table) :
    e.1 ≤ d.1 ∧ d.1 < e.1 + k.height ∧ e.2 ≤ d.2 ∧ d.2 < e.2 + k.width := by
  rw [← List.mem_toFinset, hTable] at hd
  obtain ⟨c, hc, rfl⟩ := mem_place.mp (Finset.mem_sdiff.mp hd).1
  have hBounds := cells_bounds hc
  simp only [Prod.fst_add, Prod.snd_add]
  omega

/-- The landing table reaches the row below the box and its last column. -/
theorem landing_reach (k : Shape) : (∃ d ∈ landingTable k.only, d.1 = k.height) ∧
    ∃ d ∈ landingTable k.only, d.2 + 1 = k.width := by
  cases k <;> decide

/-- The pixel bound of the right wall, in cells. -/
theorem inWall_iff (hk : i.select = k.select) (h : AtCell m.blockXPos m.blockYPos a)
    (hCol : a.2 ≤ 10) :
    m.blockXPos + i.select.blockSizeX.setWidth 10 ≤ xMax + 1 ↔ a.2 + k.width ≤ 11 := by
  have hX := h.x
  have hMax : (xMax + 1).toNat = 370 := rfl
  rw [BitVec.le_def, toNat_add_sizeX hk (by omega), hMax]
  omega

/-- Off the floor and inside the wall, in cells. -/
theorem offFloorInWall_iff (hk : i.select = k.select) (h : AtCell m.blockXPos m.blockYPos a)
    (hRow : a.1 ≤ 21) (hCol : a.2 ≤ 10) :
    OffFloorInWall m i ↔ a.1 + k.height < 22 ∧ a.2 + k.width ≤ 11 := by
  have hY := h.y
  rw [OffFloorInWall, ← Bool.not_eq_true, atFloor_iff_toNat hk (by omega), inWall_iff hk h hCol]
  omega

theorem landingProbes_inside_iff (hk : i.select = k.select)
    (h : AtCell m.blockXPos m.blockYPos a) :
    (∀ p ∈ landingProbes m i, InArray p) ↔ a.1 + k.height < 22 ∧ a.2 + k.width ≤ 11 := by
  have hHeight := height_le k
  have hWidth := width_le k
  have hRow := h.row
  have hCol := h.col
  rw [landingProbes, choose_of_select hk, probes, List.forall_mem_map]
  have hCell : ∀ d ∈ landingTable k.only,
      (InArray (offset (gridRow m.blockYPos) d.1, offset (gridCol m.blockXPos) d.2) ↔
        a.1 + d.1 < 22 ∧ a.2 + d.2 < 11) := by
    intro d hd
    have hBounds := table_bounds (landingTable_only k) hd
    exact h.inArray_iff (by omega) (by omega) (by omega) (by omega)
  constructor
  · intro hAll
    -- one entry for each of the two sides of the box
    obtain ⟨⟨d, hd, hDown⟩, e, he, hAcross⟩ := landing_reach k
    have hD := (hCell d hd).mp (hAll d hd)
    have hE := (hCell e he).mp (hAll e he)
    omega
  · intro hBox d hd
    have hBounds := table_bounds (landingTable_only k) hd
    exact (hCell d hd).mpr (by omega)

/-- The pixel guards keep the side tests inside wherever the box is. -/
theorem sideProbes_inside (hk : i.select = k.select) (h : AtCell m.blockXPos m.blockYPos a)
    (hRow : a.1 + k.height ≤ 22) (hCol : a.2 + k.width ≤ 11) :
    ∀ p ∈ sideProbes m i, InArray p := by
  have hHeight := height_le k
  have hWidth := width_le k
  have hPos := width_pos k
  have hX := h.x
  have hRow' := h.row
  have hCol' := h.col
  rw [sideProbes, choose_of_select hk, leftTable_only, rightTable_only]
  split_ifs with hLeft hRight
  -- column 0 is kept by `X_Pos > X_Min`, column 10 by `rightFree`
  · rw [gt_xMin_iff] at hLeft
    refine List.forall_mem_map.mpr fun d hd => ?_
    have hBounds := table_bounds (leftCells_toFinset k) hd
    dsimp only at hBounds
    exact (h.inArray_iff (by omega) (by omega) (by omega) (by omega)).mpr (by omega)
  · rw [rightFree_iff_toNat hk (by omega)] at hRight
    refine List.forall_mem_map.mpr fun d hd => ?_
    have hBounds := table_bounds (rightCells_toFinset k) hd
    dsimp only at hBounds
    exact (h.inArray_iff (by omega) (by omega) (by omega) (by omega)).mpr (by omega)
  · exact fun p hp => absurd hp List.not_mem_nil

theorem probesInside_drawn (hGrid : OnGrid m) (hk : i.select = k.select) :
    ProbesInside m i ↔ OffFloorInWall m i := by
  obtain ⟨a, hAt, hRow, hCol⟩ := hGrid.atCell
  rw [offFloorInWall_iff hk hAt hRow hCol, ← landingProbes_inside_iff hk hAt]
  constructor
  · exact fun hAll p hp => hAll p (List.mem_append_left _ hp)
  · intro hLanding p hp
    have hBox := (landingProbes_inside_iff hk hAt).mp hLanding
    rcases List.mem_append.mp hp with hp | hp
    · exact hLanding p hp
    · exact sideProbes_inside hk hAt (by omega) (by omega) p hp

/-- Before the first load nothing is read and the piece waits at the start. -/
theorem probesInside_undrawn (h : m.AtStart) (hk : i.select = {}) :
    ProbesInside m i ↔ OffFloorInWall m i := by
  refine iff_of_true (fun p hp => ?_) ⟨?_, ?_⟩
  · rw [landingProbes, sideProbes, hk] at hp
    simp [probes, landingTable, leftTable, rightTable] at hp
  · rw [atFloor, hk, h.yPos]
    rfl
  · rw [hk, h.xPos]
    decide

end Drawn

/-! ## Every reachable state -/

/-- The reads of a frame edge, and what depends on them, are defined. -/
structure ProbesDefined (m : MotionRegs) (i : MotionInputs) : Prop where
  inside : ProbesInside m i
  defined : ∀ u, motionComb m (i.withReads u) = motionComb m i

/-- In every state of the game reached from reset and for every input, the tests
of a frame edge read elements of `board` only, so that nothing depends on a
read outside it, exactly if the piece is off the floor and not past the right
wall. -/
theorem probes_inside_iff {s : Game} (h : s.ReachableFromReset) (i : Inputs) :
    ProbesDefined s.motion (s.motionInputs i) ↔ OffFloorInWall s.motion (s.motionInputs i) := by
  have hInv := gameInv_of_reachable h
  have hInside : ProbesInside s.motion (s.motionInputs i) ↔
      OffFloorInWall s.motion (s.motionInputs i) := by
    by_cases hSel : s.chooser.blockSel = 7
    · obtain ⟨hStart, hNone⟩ := hInv.undrawn hSel
      exact probesInside_undrawn hStart hNone
    · exact probesInside_drawn hInv.grid.toOnGrid (GameInv.select_of_ne_seven hSel)
  rw [← hInside]
  exact ⟨fun hAll => hAll.inside, fun hAll => ⟨hAll, motionComb_undefinedRead hAll⟩⟩

/-- The upright piece in mid-air with RIGHT down: five reads of the array. -/
theorem probes_inside_iff_falling :
    let s := Game.initial.run (listed uprightRun) 100
    let i := s.motionInputs (keyDown 0x23 false)
    s.motion.frameClkRisingEdge = true ∧
      (landingProbes s.motion i).length = 1 ∧ (sideProbes s.motion i).length = 4 ∧
      ProbesDefined s.motion i := by
  intro s i
  have hReach : s.ReachableFromReset :=
    reachable_trace Game.isReset_initial (fun _ => trivial) 100
  have hLength : uprightRun.length = 185 := by decide +kernel
  have hState : s = (uprightRun.take 100).foldl Game.step Game.initial :=
    run_listed _ _ (by omega)
  have hNow : s.motion.frameClkRisingEdge = true ∧
      (landingProbes s.motion i).length = 1 ∧ (sideProbes s.motion i).length = 4 ∧
      OffFloorInWall s.motion i := by
    rw [show i = s.motionInputs _ from rfl, hState, OffFloorInWall]
    decide +kernel
  exact ⟨hNow.1, hNow.2.1, hNow.2.2.1, (probes_inside_iff hReach _).mpr hNow.2.2.2⟩

/-! ## A landing test on the floor -/

/-- The last of these frame edges finds the piece in rows 18 to 21, and its
landing test reads `board[22][3]`. -/
theorem landing_reads_row_22 :
    let s := Game.initial.run (listed uprightRun) 184
    let i := listed uprightRun 184
    s.ReachableFromReset ∧ s.motion.frameClkRisingEdge = true ∧
      landingProbes s.motion (s.motionInputs i) = [(22, 3)] ∧
      ¬ ProbesDefined s.motion (s.motionInputs i) := by
  intro s i
  have hReach : s.ReachableFromReset :=
    reachable_trace Game.isReset_initial (fun _ => trivial) 184
  have hLength : uprightRun.length = 185 := by decide +kernel
  have hState : s = (uprightRun.take 184).foldl Game.step Game.initial :=
    run_listed _ _ (by omega)
  have hProbe : landingProbes s.motion (s.motionInputs i) = [(22, 3)] := by
    rw [hState]
    decide +kernel
  refine ⟨hReach, by rw [hState]; decide +kernel, hProbe, fun hDefined => ?_⟩
  have hRead := hDefined.inside (22, 3) (List.mem_append_left _ (by rw [hProbe]; simp))
  exact absurd hRead.1 (by decide)

end Ece385.Tetris

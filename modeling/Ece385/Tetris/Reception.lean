import Ece385.Lib.Components
import Ece385.Tetris.Receiver
import Ece385.Tetris.Typematic

/-!
# Tetris — what is typed arrives

On the ticks of `enable` the two `Dreg`s and the bit counter form a small machine
of their own, the `Sampler`; the rest of the receiver is the shift chain on the
clock of the line and the decoder on the system clock. While `psClk` is held, the
first two ticks after a falling edge count the bit and the third one, after the
eleventh, restarts the count.

* `run_cell` — one bit: the count goes up, and the bit is shifted in.
* `run_lastCell` — the eleventh bit, on which the byte is decoded.
* `run_frame` — a frame is the reception of its scan code.

Main results:

* `receiver_refines` — a line of frames is a stream of scan codes to the decoder.
* `typing_received` — the outputs of the receiver show every event typed.
-/

open Clocked Function

namespace Ece385.Tetris

/-! ## The sampler -/

/-- `Q1`, `Q2`, `Count` and `en`, on the clocks with `enable`. -/
@[ext]
structure Sampler where
  q1 : Bool
  q2 : Bool
  count : BitVec 5
  en : Bool
  deriving DecidableEq

namespace Sampler

def tick (f : Sampler) (psClk : Bool) : Sampler where
  q1 := psClk
  q2 := f.q1
  count := if f.count = 11 then 0 else if !f.q1 && f.q2 then f.count + 1 else f.count
  en := if f.count ≠ 11 ∧ (!f.q1 && f.q2) = true then true else f.en

/-- With the line low for two ticks and the count at 11, the next tick restarts it. -/
theorem tick_full (e : Bool) : tick ⟨false, false, 11, e⟩ false = ⟨false, false, 0, e⟩ := by
  cases e <;> rfl

/-- With the line low for two ticks nothing else happens. -/
theorem tick_low {k : BitVec 5} (hk : k ≠ 11#5) (e : Bool) :
    tick ⟨false, false, k, e⟩ false = ⟨false, false, k, e⟩ := by
  simp [tick, hk]

/-- Two ticks after a falling edge the bit is counted. -/
theorem tick_tick_fall {f : Sampler} (hq1 : f.q1 = true) (hk : f.count ≠ 11#5) :
    (f.tick false).tick false = ⟨false, false, f.count + 1, true⟩ := by
  simp [tick, hq1, hk]

/-- After the falling edge of a bit other than the last the line stays low. -/
theorem iterate_fall {f : Sampler} (hq1 : f.q1 = true) (hk : f.count ≠ 11#5)
    (hNext : f.count + 1 ≠ 11#5) {n : ℕ} (hn : 2 ≤ n) :
    (fun t => tick t false)^[n] f = ⟨false, false, f.count + 1, true⟩ := by
  obtain ⟨n, rfl⟩ := Nat.exists_eq_add_of_le' hn
  rw [iterate_add_apply, iterate_succ_apply, iterate_one, tick_tick_fall hq1 hk]
  exact iterate_fixed (tick_low hNext true) n

/-- After that of the eleventh the third tick restarts the count. -/
theorem iterate_fall_last {f : Sampler} (hq1 : f.q1 = true) (hk : f.count = 10) {n : ℕ}
    (hn : 3 ≤ n) : (fun t => tick t false)^[n] f = ⟨false, false, 0, true⟩ := by
  obtain ⟨n, rfl⟩ := Nat.exists_eq_add_of_le' hn
  have hFull : (f.tick false).tick false = ⟨false, false, 11, true⟩ := by
    rw [tick_tick_fall hq1 (by rw [hk]; decide), hk]
    rfl
  rw [iterate_add_apply, iterate_succ_apply, iterate_succ_apply, iterate_one, hFull, tick_full]
  exact iterate_fixed (tick_low (by decide) true) n

/-- Short of the eleventh bit the count never shows 11. -/
theorem count_iterate_fall {f : Sampler} (hq1 : f.q1 = true) (hk : f.count ≠ 11#5)
    (hNext : f.count + 1 ≠ 11#5) (n : ℕ) : ((fun t => tick t false)^[n] f).count ≠ 11#5 := by
  rcases Nat.lt_or_ge n 2 with hEarly | hLate
  · obtain rfl | rfl : n = 0 ∨ n = 1 := by omega
    · exact hk
    · simp [tick, hq1, hk]
  · rw [iterate_fall hq1 hk hNext hLate]
    exact hNext

/-- A rising edge is sampled and counts nothing. -/
theorem iterate_rise {f : Sampler} (hq1 : f.q1 = false) (hq2 : f.q2 = false) (hk : f.count ≠ 11#5)
    {n : ℕ} (hn : 0 < n) :
    let f' := (fun t => tick t true)^[n] f
    f'.q1 = true ∧ f'.count = f.count ∧ f'.en = f.en := by
  intro f'
  induction n with
  | zero => exact absurd hn (Nat.lt_irrefl 0)
  | succ n ih =>
    have hUnfold : f' = tick ((fun t => tick t true)^[n] f) true := iterate_succ_apply' _ n f
    rcases Nat.eq_zero_or_pos n with rfl | hPos
    · simp [hUnfold, tick, hq1, hq2, hk]
    · obtain ⟨h1, h2, h3⟩ := ih hPos
      generalize (fun t => tick t true)^[n] f = g at hUnfold h1 h2 h3
      simp [hUnfold, tick, h1, h2, h3, hk]

end Sampler

/-! ## One period of `Clk` -/

namespace Receiver

variable {s : Receiver} {i : LineSample}

def sampler (s : Receiver) : Sampler := ⟨s.q1, s.q2, s.count, s.en⟩

theorem count_sampler (s : Receiver) : s.sampler.count = s.count := rfl

theorem sampler_step (hReset : i.reset = false) :
    (s.step i).sampler = if s.enable then s.sampler.tick i.psClk else s.sampler := by
  cases hEnable : s.enable
  · simp [step, sampleLine, clockEdge, sampler, hReset, hEnable]
  · by_cases hFull : s.count = 11
    · simp [step, sampleLine, clockEdge, sampler, Sampler.tick, hReset, hEnable, hFull]
    · simp [step, sampleLine, clockEdge, sampler, Sampler.tick, hReset, hEnable]

/-- `enable` comes with the counter at 0, once in 512 clocks. -/
structure Prescaled (s : Receiver) (c : ℕ) : Prop where
  counter : s.counter.toNat = c % 512
  enable : s.enable = decide (c % 512 = 0)

theorem Prescaled.step {c : ℕ} (h : s.Prescaled c) (hReset : i.reset = false) :
    (s.step i).Prescaled (c + 1) := by
  have hc := h.counter
  have hWrap : (s.counter == 0b0111111111) = decide ((c + 1) % 512 = 0) := by
    rw [Bool.eq_iff_iff, beq_iff_eq, decide_eq_true_eq, ← BitVec.toNat_inj, hc]
    change c % 512 = 511 ↔ _
    omega
  constructor
  · simp only [Receiver.step, sampleLine, clockEdge, hReset, Bool.false_or, hWrap,
      decide_eq_true_eq, Bool.false_eq_true, if_false]
    split_ifs with hTop
    · exact hTop.symm
    · rw [BitVec.toNat_add, hc]
      change (c % 512 + 1) % 1024 = _
      omega
  · simp only [Receiver.step, sampleLine, clockEdge, hReset, Bool.false_or, hWrap,
      Bool.false_eq_true, if_false]

theorem psClkSeen_step (s : Receiver) (i : LineSample) : (s.step i).psClkSeen = i.psClk := by
  unfold step sampleLine
  split_ifs <;> rfl

theorem chain_step (hReset : i.reset = false) :
    (s.step i).chain =
      if i.psClk && !s.psClkSeen && s.en then s.chain.shift i.psData else s.chain := by
  simp [step, sampleLine, clockEdge, hReset]

/-- The decoder reads the chain as the last line edge left it. -/
theorem decoder_step (hReset : i.reset = false) :
    (s.step i).decoder =
      if s.count = 11 then
        s.decoder.step (scanField (s.step i).chain.byte1) (scanField (s.step i).chain.byte2)
      else s.decoder := by
  simp [step, sampleLine, clockEdge, hReset]

/-! ## The line held at one level -/

/-- `n` clocks with `psClk` held at `b`. -/
abbrev runHeld (s : Receiver) (b : Bool) (data : ℕ → Bool) (n : ℕ) : Receiver :=
  trace step s (fun k => { psClk := b, psData := data k }) n

section Held

variable {b : Bool} {data : ℕ → Bool} {c : ℕ}

theorem prescaled_held (h : s.Prescaled c) (n : ℕ) : (s.runHeld b data n).Prescaled (c + n) := by
  induction n with
  | zero => exact h
  | succ n ih => exact ih.step rfl

/-- The sampler has stepped on the ticks so far. -/
theorem sampler_held (b : Bool) (data : ℕ → Bool) (h : s.Prescaled c) (n : ℕ) :
    (s.runHeld b data n).sampler =
      (fun f => f.tick b)^[Nat.count (fun k => (c + k) % 512 = 0) n] s.sampler := by
  have hEnabled : (s.runHeld b data n).sampler =
      trace (enabledStep Sampler.tick) s.sampler
        (fun k => (decide ((c + k) % 512 = 0), b)) n := by
    induction n with
    | zero => rfl
    | succ n ih =>
      rw [trace_succ, ← ih, runHeld, trace_succ, sampler_step rfl,
        (prescaled_held h n).enable, enabledStep]
  rw [hEnabled, trace_enabled, trace_const]
  simp only [decide_eq_true_eq]

theorem psClkSeen_held (hn : 0 < n) : (s.runHeld b data n).psClkSeen = b := by
  obtain ⟨n, rfl⟩ := Nat.exists_eq_succ_of_ne_zero hn.ne'
  exact psClkSeen_step _ _

/-- The chain only moves on a rise. -/
theorem chain_low (n : ℕ) : (s.runHeld false data n).chain = s.chain := by
  induction n with
  | zero => rfl
  | succ n ih => rw [runHeld, trace_succ, chain_step rfl]; exact ih

theorem chain_high (hSeen : s.psClkSeen = false) (hEn : s.en = true) (n : ℕ) :
    (s.runHeld true data (n + 1)).chain = s.chain.shift (data 0) := by
  induction n with
  | zero => rw [runHeld, trace_succ, trace_zero, chain_step rfl, hSeen, hEn]; rfl
  | succ n ih =>
    rw [runHeld, trace_succ, chain_step rfl, psClkSeen_held (Nat.succ_pos n)]
    exact ih

/-- With the chain at rest the decoder runs on the same bytes all the time. -/
theorem decoder_low (n : ℕ) :
    (s.runHeld false data n).decoder =
      (fun d => d.step (scanField s.chain.byte1) (scanField s.chain.byte2))^[
        Nat.count (fun k => (s.runHeld false data k).count = 11) n] s.decoder := by
  induction n with
  | zero => rfl
  | succ n ih =>
    have hChain : ((s.runHeld false data n).step { psClk := false, psData := data n }).chain =
        s.chain := chain_low (n + 1)
    rw [runHeld, trace_succ, decoder_step rfl, hChain, ih]
    by_cases hFull : (s.runHeld false data n).count = 11
    · rw [if_pos hFull, count_succ_of _ hFull, iterate_succ_apply']
    · rw [if_neg hFull, count_succ_of_not _ hFull]

theorem decoder_quiet (n : ℕ) (hQuiet : ∀ k < n, (s.runHeld b data k).count ≠ 11) :
    (s.runHeld b data n).decoder = s.decoder := by
  induction n with
  | zero => rfl
  | succ n ih =>
    rw [runHeld, trace_succ, decoder_step rfl, if_neg (hQuiet n (Nat.lt_succ_self n))]
    exact ih fun k hk => hQuiet k (by omega)

/-- While the line is high nothing is counted, and nothing decoded. -/
theorem decoder_high (h : s.Prescaled c) (hq1 : s.q1 = false) (hq2 : s.q2 = false)
    (hk : s.count ≠ 11#5) (n : ℕ) : (s.runHeld true data n).decoder = s.decoder := by
  refine decoder_quiet n fun j _ => ?_
  have hSame := congrArg Sampler.count (sampler_held true data h j)
  rw [count_sampler] at hSame
  rw [hSame]
  rcases Nat.eq_zero_or_pos (Nat.count (fun k => (c + k) % 512 = 0) j) with hNone | hTick
  · rw [hNone]
    exact hk
  · rw [(Sampler.iterate_rise (f := s.sampler) hq1 hq2 hk hTick).2.1]
    exact hk

end Held

/-! ## One bit -/

/-- Between two bits: the line has been sampled high, and `k` bits are counted. -/
structure Between (s : Receiver) (k : ℕ) : Prop where
  prescaled : ∃ c, s.Prescaled c
  q1 : s.q1 = true
  count : s.count = BitVec.ofNat 5 k

/-- In the middle of a bit: the line has been low for two ticks. -/
structure Inside (s : Receiver) (k : ℕ) : Prop where
  prescaled : ∃ c, s.Prescaled c
  sampler : s.sampler = ⟨false, false, BitVec.ofNat 5 k, true⟩
  psClkSeen : s.psClkSeen = false

theorem ofNat_ne_eleven {k : ℕ} (hk : k < 11) : BitVec.ofNat 5 k ≠ 11#5 := by
  intro h
  have hNat := congrArg BitVec.toNat h
  rw [BitVec.toNat_ofNat, BitVec.toNat_ofNat] at hNat
  omega

/-- In `512 * m` clocks there are `m` ticks. -/
theorem le_count_tick (c m : ℕ) {n : ℕ} (hn : 512 * m ≤ n) :
    m ≤ Nat.count (fun k => (c + k) % 512 = 0) n := by
  have hTicks := count_tick_add (N := 512) (by decide) c n
  omega

theorem count_tick_exact (c : ℕ) : Nat.count (fun k => (c + k) % 512 = 0) 1024 = 2 := by
  have hTicks := count_tick_add (N := 512) (by decide) c 1024
  omega

/-- The low phase of any bit but the eleventh counts the bit. -/
theorem run_low {k : ℕ} (h : s.Between k) (hk : k < 10) (data : ℕ → Bool) {n : ℕ}
    (hn : 1024 ≤ n) :
    (s.runHeld false data n).Inside (k + 1) ∧ (s.runHeld false data n).chain = s.chain ∧
      (s.runHeld false data n).decoder = s.decoder := by
  obtain ⟨c, hPrescaled⟩ := h.prescaled
  have hNow : s.sampler.count ≠ 11#5 := by
    rw [count_sampler, h.count]
    exact ofNat_ne_eleven (by omega)
  have hSum : s.sampler.count + 1 = BitVec.ofNat 5 (k + 1) := by
    rw [count_sampler, h.count, BitVec.ofNat_add]
    rfl
  have hNext : s.sampler.count + 1 ≠ 11#5 := hSum ▸ ofNat_ne_eleven (by omega)
  refine ⟨⟨⟨_, prescaled_held hPrescaled n⟩, ?_, psClkSeen_held (by omega)⟩, chain_low n, ?_⟩
  · rw [sampler_held false data hPrescaled,
      Sampler.iterate_fall h.q1 hNow hNext (le_count_tick c 2 hn), hSum]
  · refine decoder_quiet n fun j _ => ?_
    have hCount := Sampler.count_iterate_fall h.q1 hNow hNext
      (Nat.count (fun k => (c + k) % 512 = 0) j)
    rw [← sampler_held false data hPrescaled] at hCount
    exact hCount

/-- The low phase of the eleventh bit decodes the byte and restarts the count. -/
theorem run_low_last (h : s.Between 10) (data : ℕ → Bool) {n : ℕ} (hn : 1536 ≤ n) :
    (s.runHeld false data n).Inside 0 ∧ (s.runHeld false data n).chain = s.chain ∧
      (s.runHeld false data n).decoder =
        s.decoder.step (scanField s.chain.byte1) (scanField s.chain.byte2) := by
  obtain ⟨c, hPrescaled⟩ := h.prescaled
  have hCount : s.sampler.count = 10 := h.count
  -- three ticks fit into the low phase: two count the bit, the third restarts the count
  refine ⟨⟨⟨_, prescaled_held hPrescaled n⟩, ?_, psClkSeen_held (by omega)⟩, chain_low n, ?_⟩
  · rw [sampler_held false data hPrescaled,
      Sampler.iterate_fall_last h.q1 hCount (le_count_tick c 3 hn)]
    rfl
  · -- the count shows 11 from the second tick on, at clock 1024 at the latest
    have hFull : (s.runHeld false data 1024).count = 11 := by
      have hSampler := sampler_held false data hPrescaled 1024
      rw [count_tick_exact, iterate_succ_apply, iterate_one,
        Sampler.tick_tick_fall h.q1 (by rw [hCount]; decide), hCount] at hSampler
      rw [← count_sampler, hSampler]
      rfl
    have hPos := Nat.count_strict_mono (p := fun k => (s.runHeld false data k).count = 11) hFull
      (show 1024 < n by omega)
    rw [decoder_low]
    exact congrArg Keyboard.decoder (Keyboard.receive_eq ⟨s.decoder, scanField s.chain.byte1⟩
      (scanField s.chain.byte2) (Nat.pos_of_ne_zero (by omega)))

/-- The high phase shifts the bit in. -/
theorem run_high {k : ℕ} (h : s.Inside k) (hk : k < 11) (data : ℕ → Bool) {n : ℕ}
    (hn : 512 ≤ n) :
    (s.runHeld true data n).Between k ∧
      (s.runHeld true data n).chain = s.chain.shift (data 0) ∧
      (s.runHeld true data n).decoder = s.decoder := by
  obtain ⟨c, hPrescaled⟩ := h.prescaled
  have hq1 : s.sampler.q1 = false := by rw [h.sampler]
  have hq2 : s.sampler.q2 = false := by rw [h.sampler]
  have hCount : s.sampler.count = BitVec.ofNat 5 k := by rw [h.sampler]
  have hEn : s.en = true := congrArg Sampler.en h.sampler
  have hNot : s.sampler.count ≠ 11#5 := hCount ▸ ofNat_ne_eleven hk
  have hHeld := sampler_held true data hPrescaled
  -- one tick at least sees the line high, which counts nothing
  obtain ⟨hUp, hKept, -⟩ := Sampler.iterate_rise hq1 hq2 hNot (le_count_tick c 1 hn)
  refine ⟨⟨⟨_, prescaled_held hPrescaled n⟩, ?_, ?_⟩, ?_, ?_⟩
  · exact (congrArg Sampler.q1 (hHeld n)).trans hUp
  · exact (congrArg Sampler.count (hHeld n)).trans (hKept.trans hCount)
  · obtain ⟨n, rfl⟩ := Nat.exists_eq_succ_of_ne_zero (show n ≠ 0 by omega)
    exact chain_high h.psClkSeen hEn n
  · exact decoder_high hPrescaled hq1 hq2 hNot n

theorem run_map_held (s : Receiver) (b : Bool) (l : List Bool) :
    s.run (l.map fun d => { psClk := b, psData := d }) =
      s.runHeld b (fun k => l.getD k false) l.length := by
  have hListed := trace_eq_foldl step s
    (l.map fun d => ({ psClk := b, psData := d } : LineSample)) { psClk := b, psData := false }
    (n := l.length) (by rw [List.length_map])
  rw [← List.length_map, List.take_length] at hListed
  rw [run, ← hListed, List.length_map]
  congr 1
  funext k
  exact List.getD_map l false fun d => ({ psClk := b, psData := d } : LineSample)

theorem run_append (s : Receiver) (l l' : List LineSample) :
    s.run (l ++ l') = (s.run l).run l' := List.foldl_append

/-- One bit: it is counted and shifted in. -/
theorem run_cell {k : ℕ} {c : BitCell} (h : s.Between k) (hk : k < 10)
    (hTime : 1024 ≤ c.lowData.length ∧ 512 ≤ c.highData.length + 1) :
    (s.run c.samples).Between (k + 1) ∧ (s.run c.samples).chain = s.chain.shift c.bit ∧
      (s.run c.samples).decoder = s.decoder := by
  obtain ⟨hInside, hChain, hDecoder⟩ := run_low h hk (fun k => c.lowData.getD k false) hTime.1
  obtain ⟨hBetween, hShift, hKept⟩ := run_high hInside (by omega)
    (fun k => (c.bit :: c.highData).getD k false) hTime.2
  rw [BitCell.samples, run_append, BitCell.lowSamples, BitCell.highSamples, run_map_held,
    run_map_held]
  exact ⟨hBetween, hShift.trans (by rw [hChain]; rfl), hKept.trans hDecoder⟩

/-- The eleventh bit: the byte in the chain is decoded before the bit is shifted in. -/
theorem run_lastCell {c : BitCell} (h : s.Between 10) (hLow : 1536 ≤ c.lowData.length)
    (hHigh : 512 ≤ c.highData.length + 1) :
    (s.run c.samples).Between 0 ∧ (s.run c.samples).chain = s.chain.shift c.bit ∧
      (s.run c.samples).decoder =
        s.decoder.step (scanField s.chain.byte1) (scanField s.chain.byte2) := by
  obtain ⟨hInside, hChain, hDecoder⟩ := run_low_last h (fun k => c.lowData.getD k false) hLow
  obtain ⟨hBetween, hShift, hKept⟩ := run_high hInside (by decide)
    (fun k => (c.bit :: c.highData).getD k false) hHigh
  rw [BitCell.samples, run_append, BitCell.lowSamples, BitCell.highSamples, run_map_held,
    run_map_held]
  exact ⟨hBetween, hShift.trans (by rw [hChain]; rfl), hKept.trans hDecoder⟩

/-! ## A frame -/

theorem run_cells {k : ℕ} (h : s.Between k) {cs : List BitCell} (hk : k + cs.length ≤ 10)
    (hTime : ∀ c ∈ cs, 1024 ≤ c.lowData.length ∧ 512 ≤ c.highData.length + 1) :
    (s.run (cs.flatMap BitCell.samples)).Between (k + cs.length) ∧
      (s.run (cs.flatMap BitCell.samples)).chain =
        (cs.map BitCell.bit).foldl ScanChain.shift s.chain ∧
      (s.run (cs.flatMap BitCell.samples)).decoder = s.decoder := by
  induction cs generalizing s k with
  | nil => exact ⟨h, rfl, rfl⟩
  | cons c cs ih =>
    rw [List.length_cons] at hk
    -- the first bit is counted, and the rest start one count further
    obtain ⟨hNext, hShift, hKept⟩ := run_cell h (by omega) (hTime c List.mem_cons_self)
    obtain ⟨hBetween, hChain, hDecoder⟩ := ih hNext (by omega) fun d hd =>
      hTime d (List.mem_cons_of_mem c hd)
    rw [List.flatMap_cons, run_append, List.length_cons, List.map_cons, List.foldl_cons, ← hShift,
      Nat.add_comm cs.length 1, ← Nat.add_assoc]
    exact ⟨hBetween, hChain, hDecoder.trans hKept⟩

/-- The decoder's view of the receiver between two frames; the scan code of the
last frame is one place further on than where it is decoded. -/
def keyboard (s : Receiver) : Keyboard where
  decoder := s.decoder
  lastByte := s.chain.byte2.extractLsb' 1 8

theorem getLsbD_code (f : Frame) {j : ℕ} (hj : j < 8) :
    f.code.getLsbD j = f.bits.getD (j + 1) false := by
  rw [Frame.code, BitVec.getLsbD_extractLsb', decide_eq_true hj, Bool.true_and,
    BitVec.getLsbD_ofBoolListLE, Nat.add_comm]

/-- What the decoder sees on the eleventh bit. -/
theorem fields_body (c : ScanChain) (f : Frame) :
    scanField (f.bits.foldl ScanChain.shift c).byte2 = f.code ∧
      scanField (f.bits.foldl ScanChain.shift c).byte1 = c.byte2.extractLsb' 1 8 := by
  have hLength : f.bits.length = 10 := by rw [Frame.bits, List.length_map, f.length_body]
  -- after ten shifts each bit of the chain is one of the line or of the chain before
  have hTrace := trace_eq_foldl ScanChain.shift c f.bits false (n := 10) hLength.ge
  rw [← hLength, List.take_length, hLength] at hTrace
  rw [← hTrace]
  refine ⟨BitVec.eq_of_getLsbD_eq fun j hj => ?_, BitVec.eq_of_getLsbD_eq fun j hj => ?_⟩
  · rw [getLsbD_code f hj, scanField, BitVec.getLsbD_extractLsb', decide_eq_true hj,
      Bool.true_and, (ScanChain.getLsbD_trace c _ 10 (by omega)).2, ScanChain.queue,
      if_neg (by omega), if_neg (by omega), show 2 + j + 11 + 10 - 22 = j + 1 by omega]
  · rw [scanField, BitVec.getLsbD_extractLsb', BitVec.getLsbD_extractLsb',
      (ScanChain.getLsbD_trace c _ 10 (by omega)).1, ScanChain.queue, if_neg (by omega),
      if_pos (by omega), show 2 + j + 10 - 11 = 1 + j by omega]

/-- The stop bit moves the code on by one place. -/
theorem lastByte_shift (c : ScanChain) (b : Bool) :
    (c.shift b).byte2.extractLsb' 1 8 = scanField c.byte2 := by
  refine BitVec.eq_of_getLsbD_eq fun j hj => ?_
  rw [scanField, BitVec.getLsbD_extractLsb', BitVec.getLsbD_extractLsb', ScanChain.shift,
    getLsbD_reg11Shift _ _ (by omega), if_neg (by omega), show 1 + j + 1 = 2 + j by omega]

/-- A frame on the line is one scan code to the decoder. -/
theorem run_frame (h : s.Between 0) (f : Frame) :
    (s.run f.samples).Between 0 ∧ (s.run f.samples).keyboard = s.keyboard.receive f.code 1 := by
  obtain ⟨hTen, hChain, hKept⟩ := run_cells h (by rw [f.length_body]) f.bodyInTime
  rw [f.length_body] at hTen
  obtain ⟨hDone, hShift, hDecoder⟩ := run_lastCell hTen f.stopInTime.1 f.stopInTime.2
  obtain ⟨hCode, hBefore⟩ := fields_body s.chain f
  rw [show f.body.map BitCell.bit = f.bits from rfl] at hChain
  rw [Frame.samples, run_append]
  refine ⟨hDone, ?_⟩
  rw [keyboard, hDecoder, hShift, hKept, hChain, lastByte_shift, hCode, hBefore,
    Keyboard.receive, iterate_one]
  rfl

/-- A line of frames is a stream of scan codes to the decoder. -/
theorem run_line (h : s.Between 0) (fs : List Frame) :
    (s.run (lineSamples fs)).Between 0 ∧
      (s.run (lineSamples fs)).keyboard = s.keyboard.decode (fs.map Frame.code) := by
  induction fs generalizing s with
  | nil => exact ⟨h, rfl⟩
  | cons f fs ih =>
    obtain ⟨hNext, hView⟩ := run_frame h f
    obtain ⟨hBetween, hRest⟩ := ih hNext
    rw [lineSamples, List.flatMap_cons, run_append, List.map_cons]
    refine ⟨hBetween, hRest.trans ?_⟩
    rw [hView]
    rfl

/-! ## From a reset -/

/-- What a clock with `reset` leaves: no bit counted, `enable` up, the chain empty. -/
structure Restarted (s : Receiver) : Prop where
  prescaled : s.Prescaled 0
  sampler : s.q1 = false ∧ s.q2 = false ∧ s.count = 0
  chain : s.chain = { byte1 := 0, byte2 := 0 }

theorem restarted_step (s : Receiver) (h : i.reset = true) : (s.step i).Restarted := by
  refine ⟨⟨?_, ?_⟩, ⟨?_, ?_, ?_⟩, ?_⟩ <;> simp [step, sampleLine, clockEdge, clear, h]

/-- A reset in the middle of a decode runs the decoder on two empty bytes, which
changes nothing as long as no key repeats. -/
theorem typematic_step_reset (h : i.reset = true) (hNone : s.decoder.typematicKeycode = 0) :
    (s.step i).decoder = s.decoder := by
  have hEmpty : s.decoder.step (scanField 0) (scanField 0) = s.decoder := by
    rw [show scanField 0 = 0 from rfl, Decoder.step_made (by decide) (by decide) (by decide),
      if_pos hNone.symm]
  simp only [step, sampleLine, clockEdge, h, if_true, clear]
  rw [hEmpty, ite_self]

theorem run_resets (s : Receiver) {resets : List LineSample} (hSome : resets ≠ [])
    (hAll : ∀ i ∈ resets, i.reset = true) :
    (s.run resets).Restarted ∧
      (s.decoder.typematicKeycode = 0 → (s.run resets).decoder = s.decoder) := by
  induction resets generalizing s with
  | nil => exact absurd rfl hSome
  | cons i resets ih =>
    have hFirst := hAll i List.mem_cons_self
    by_cases hMore : resets = []
    · subst hMore
      exact ⟨restarted_step s hFirst, typematic_step_reset hFirst⟩
    · obtain ⟨hRestarted, hKept⟩ :=
        ih (s.step i) hMore fun j hj => hAll j (List.mem_cons_of_mem i hj)
      refine ⟨hRestarted, fun hNone => ?_⟩
      have hSame := typematic_step_reset hFirst hNone
      exact (hKept (by rw [hSame, hNone])).trans hSame

/-- `psClk` idle after a reset, for one system clock or more. -/
theorem Restarted.run_idle (h : s.Restarted) {idle : List Bool} (hSome : idle ≠ []) :
    let s' := s.run (idle.map fun d => { psClk := true, psData := d })
    s'.Between 0 ∧ s'.keyboard = { decoder := s.decoder, lastByte := 0 } := by
  intro s'
  obtain ⟨hq1, hq2, hCount⟩ := h.sampler
  have hNot : s.sampler.count ≠ 11#5 := by rw [count_sampler, hCount]; decide
  have hLength : 0 < idle.length := List.length_pos_iff.mpr hSome
  have hTicks : 0 < Nat.count (fun k => (0 + k) % 512 = 0) idle.length := by
    have hAll := count_tick_add (N := 512) (by decide) 0 idle.length
    omega
  obtain ⟨hUp, hKept, -⟩ := Sampler.iterate_rise hq1 hq2 hNot hTicks
  set data := fun k => idle.getD k false
  have hHeld := sampler_held true data h.prescaled
  have hRun : s' = s.runHeld true data idle.length := run_map_held s true idle
  -- at most one bit has been shifted into the empty chain
  have hChain : ∀ n, ∃ b, (s.runHeld true data n).chain = { byte1 := 0, byte2 := 0 } ∨
      (0 < n ∧ (s.runHeld true data n).chain =
        ScanChain.shift { byte1 := 0, byte2 := 0 } b) := by
    intro n
    induction n with
    | zero => exact ⟨false, Or.inl h.chain⟩
    | succ n ih =>
      rw [runHeld, trace_succ, chain_step rfl]
      rcases Nat.eq_zero_or_pos n with rfl | hn
      · rw [trace_zero, h.chain]
        split_ifs
        · exact ⟨data 0, Or.inr ⟨Nat.one_pos, rfl⟩⟩
        · exact ⟨false, Or.inl rfl⟩
      · rw [psClkSeen_held hn]
        obtain ⟨b, hEmpty | ⟨-, hOne⟩⟩ := ih
        · exact ⟨b, Or.inl hEmpty⟩
        · exact ⟨b, Or.inr ⟨Nat.succ_pos n, hOne⟩⟩
  have hDecoder : (s.runHeld true data idle.length).decoder = s.decoder :=
    decoder_high h.prescaled hq1 hq2 hNot idle.length
  rw [hRun]
  refine ⟨⟨⟨_, prescaled_held h.prescaled _⟩, ?_, ?_⟩, ?_⟩
  · exact (congrArg Sampler.q1 (hHeld _)).trans hUp
  · exact (congrArg Sampler.count (hHeld _)).trans (hKept.trans hCount)
  · rw [keyboard, hDecoder]
    congr 1
    obtain ⟨b, hEmpty | ⟨-, hOne⟩⟩ := hChain idle.length
    · rw [hEmpty]
      rfl
    · rw [hOne, lastByte_shift]
      rfl

/-- `reset` for some clocks, and `psClk` idle for some more. -/
def restartSamples (resets : List LineSample) (idle : List Bool) : List LineSample :=
  resets ++ idle.map fun d => { psClk := true, psData := d }

theorem run_restart (s : Receiver) {resets : List LineSample} {idle : List Bool}
    (hResets : resets ≠ [] ∧ ∀ i ∈ resets, i.reset = true) (hIdle : idle ≠ []) :
    (s.run (restartSamples resets idle)).Between 0 ∧
      (s.run (restartSamples resets idle)).keyboard =
        { decoder := (s.run resets).decoder, lastByte := 0 } := by
  rw [restartSamples, run_append]
  exact (run_resets s hResets.1 hResets.2).1.run_idle hIdle

/-! ## Main results -/

/-- From any register contents, after a reset and an idle line: whatever frames
follow, with whatever timing inside the limits, each of them is decoded, and
nothing else is. -/
theorem receiver_refines (s : Receiver) {resets : List LineSample} {idle : List Bool}
    (hResets : resets ≠ [] ∧ ∀ i ∈ resets, i.reset = true) (hIdle : idle ≠ [])
    (fs : List Frame) :
    ({ decoder := (s.run resets).decoder, lastByte := 0 } : Keyboard).Decodes
      (fs.map Frame.code) (s.run (restartSamples resets idle ++ lineSamples fs)).keyboard := by
  obtain ⟨hBetween, hView⟩ := run_restart s hResets hIdle
  rw [Keyboard.decodes_iff, run_append, (run_line hBetween fs).2, hView]

/-- After power-up and a reset, the outputs show the last event typed, for every
legal typing in which no repeat of the key made last follows a release. -/
theorem typing_received (s : Receiver) (hPowerUp : s.decoder.typematicKeycode = 0)
    {resets : List LineSample} {idle : List Bool}
    (hResets : resets ≠ [] ∧ ∀ i ∈ resets, i.reset = true) (hIdle : idle ≠ [])
    {es : List KeyEvent} {e : KeyEvent} (hLegal : Legal (es ++ [e]))
    (hNone : ¬ Keyboard.RepeatAfterRelease (es ++ [e])) {fs : List Frame}
    (hCodes : fs.map Frame.code = scanCodes (es ++ [e])) :
    (s.run (restartSamples resets idle ++ lineSamples fs)).keyboard.ReportsEvent e := by
  obtain ⟨hBetween, hView⟩ := run_restart s hResets hIdle
  have hKept := (run_resets s hResets.1 hResets.2).2 hPowerUp
  have hStart : (s.run (restartSamples resets idle)).keyboard.Idle := by
    rw [hView, hKept]
    exact ⟨show (0 : BitVec 8) ≠ 0xF0 by decide, hPowerUp⟩
  rw [run_append, (run_line hBetween fs).2, hCodes]
  exact hStart.reportsEvent hLegal hNone

/-- Power-up. -/
def powerUp : Receiver where
  counter := 0
  enable := false
  q1 := false
  q2 := false
  count := 0
  en := false
  chain := { byte1 := 0, byte2 := 0 }
  decoder := { data := 0, press := false, typematicKeycode := 0 }
  psClkSeen := false

theorem receiver_refines_tap :
    ([{ reset := true }] ≠ ([] : List LineSample) ∧
      ∀ i ∈ [({ reset := true } : LineSample)], i.reset = true) ∧ [true] ≠ ([] : List Bool) ∧
    ({ decoder := (powerUp.run [{ reset := true }]).decoder, lastByte := 0 } : Keyboard).Decodes
      ([Frame.ofCode 0x1C, Frame.ofCode 0xF0, Frame.ofCode 0x1C].map Frame.code)
      (powerUp.run (restartSamples [{ reset := true }] [true] ++
        lineSamples [Frame.ofCode 0x1C, Frame.ofCode 0xF0, Frame.ofCode 0x1C])).keyboard :=
  ⟨⟨by simp, by simp⟩, by simp,
    receiver_refines powerUp ⟨by simp, by simp⟩ (by simp) _⟩

theorem typing_received_press :
    powerUp.decoder.typematicKeycode = 0 ∧ Legal ([] ++ [.press Keyboard.leftKey]) ∧
    (powerUp.run (restartSamples [{ reset := true }] [true] ++
      lineSamples [Frame.ofCode 0x1C])).keyboard.ReportsEvent (.press Keyboard.leftKey) := by
  have hLegal : Legal ([] ++ [.press Keyboard.leftKey]) :=
    legal_nil.snoc (Finset.notMem_empty _)
  have hNone : ¬ Keyboard.RepeatAfterRelease ([] ++ [.press Keyboard.leftKey]) := by
    rintro ⟨pre, r, k, hIn, -⟩
    have hLength := hIn.length_le
    simp at hLength
  refine ⟨rfl, hLegal, typing_received powerUp rfl ⟨by simp, by simp⟩ (by simp) hLegal hNone ?_⟩
  rw [List.map_singleton, Frame.code_ofCode]
  rfl

end Receiver

end Ece385.Tetris

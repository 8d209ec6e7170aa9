import Ece385.Tetris.Keyboard

/-!
# Tetris — the clocks of `keyboard.sv`

The whole receiver, register by register, on both of its clocks. A counter
raises `enable` once in 512 system clocks; the two `Dreg`s sample `psClk` on it,
and a falling edge between them counts a bit. The `reg_11`s shift on the rising
edge of `psClk` itself, and while `Count` is 11 the decoder runs on every system
clock. Assignments to registers take effect together, as flip-flops do.
-/

namespace Ece385.Tetris

/-- What `keyboard` sees at one rising edge of `Clk`. -/
structure LineSample where
  reset : Bool := false
  psClk : Bool := true
  psData : Bool := true

/-- The registers of `keyboard`. `psClkSeen` is no register: it is the level of
`psClk` at the last rising edge of `Clk`, which decides whether the clock input
of the `reg_11`s has risen since. -/
structure Receiver where
  counter : BitVec 10
  enable : Bool
  q1 : Bool
  q2 : Bool
  count : BitVec 5
  en : Bool
  chain : ScanChain
  decoder : Decoder
  psClkSeen : Bool

namespace Receiver

/-- What `reset` forces at once: the counter block, the `Dreg`s and the `reg_11`s
have it in their sensitivity lists, the other blocks do not. -/
def clear (s : Receiver) : Receiver :=
  { s with
    counter := 0
    enable := true
    q1 := false
    q2 := false
    chain := { byte1 := 0, byte2 := 0 } }

/-- What happens on the line since the last rising edge of `Clk`. -/
def sampleLine (s : Receiver) (i : LineSample) : Receiver :=
  if i.reset then { s.clear with psClkSeen := i.psClk }
  else
    { s with
      chain := if i.psClk && !s.psClkSeen && s.en then s.chain.shift i.psData else s.chain
      psClkSeen := i.psClk }

/-- One rising edge of `Clk`. -/
def clockEdge (s : Receiver) (i : LineSample) : Receiver :=
  -- "Counter to sync ps2 clock and system clock"
  let wrap := i.reset || s.counter == 0b0111111111
  -- "edge detector of PS2 clock"
  let full := i.reset || s.count == 0b01011
  let falling := !s.q1 && s.q2
  { counter := if wrap then 0 else s.counter + 1
    enable := wrap
    q1 := if i.reset then false else if s.enable then i.psClk else s.q1
    q2 := if i.reset then false else if s.enable then s.q1 else s.q2
    count :=
      if s.enable then
        if full then 0 else if falling then s.count + 1 else s.count
      else s.count
    en := if s.enable && !full && falling then true else s.en
    chain := s.chain
    decoder :=
      if s.count = 11 then s.decoder.step (scanField s.chain.byte1) (scanField s.chain.byte2)
      else s.decoder
    psClkSeen := s.psClkSeen }

/-- One period of `Clk`: first the line, then the edge. -/
def step (s : Receiver) (i : LineSample) : Receiver := (s.sampleLine i).clockEdge i

/-- The registers after a list of samples. -/
def run (s : Receiver) (l : List LineSample) : Receiver := l.foldl step s

/-- `keyCode` and `press` -/
def keyCode (s : Receiver) : BitVec 8 := s.decoder.data

def press (s : Receiver) : Bool := s.decoder.press

end Receiver

/-! ## The line -/

/-- One bit on the line: `psClk` goes low, and comes back up with the bit on
`psData`. The data is free at all other times. -/
structure BitCell where
  lowData : List Bool
  bit : Bool
  highData : List Bool

def BitCell.lowSamples (c : BitCell) : List LineSample :=
  c.lowData.map fun d => { psClk := false, psData := d }

def BitCell.highSamples (c : BitCell) : List LineSample :=
  (c.bit :: c.highData).map fun d => { psClk := true, psData := d }

def BitCell.samples (c : BitCell) : List LineSample := c.lowSamples ++ c.highSamples

/-- The eleven bits of a scan code: the start bit, the code from its lowest bit and
the parity bit are `body`. Nothing checks the start, parity and stop bits. The clock is
low for at least 1024 system clocks in each bit and 1536 in the last one, and
high for at least 512. -/
structure Frame where
  body : List BitCell
  stop : BitCell
  length_body : body.length = 10
  bodyInTime : ∀ c ∈ body, 1024 ≤ c.lowData.length ∧ 512 ≤ c.highData.length + 1
  stopInTime : 1536 ≤ stop.lowData.length ∧ 512 ≤ stop.highData.length + 1

namespace Frame

def bits (f : Frame) : List Bool := f.body.map BitCell.bit

/-- The scan code of a frame. -/
def code (f : Frame) : BitVec 8 := (BitVec.ofBoolListLE f.bits).extractLsb' 1 8

def samples (f : Frame) : List LineSample := f.body.flatMap BitCell.samples ++ f.stop.samples

end Frame

/-- A bit at 12.5 kHz: 2000 system clocks low and 2000 high. -/
def BitCell.standard (bit : Bool) : BitCell where
  lowData := List.replicate 2000 bit
  bit := bit
  highData := List.replicate 1999 bit

theorem BitCell.standard_inTime (bit : Bool) :
    1536 ≤ (standard bit).lowData.length ∧ 512 ≤ (standard bit).highData.length + 1 := by
  show 1536 ≤ (List.replicate 2000 bit).length ∧ 512 ≤ (List.replicate 1999 bit).length + 1
  rw [List.length_replicate, List.length_replicate]
  decide

/-- The bits of a scan code with odd parity, short of the stop bit. -/
def bodyBits (code : BitVec 8) : List Bool :=
  let data := (List.range 8).map fun i => code.getLsbD i
  false :: data ++ [!data.foldl xor false]

/-- The frame a keyboard sends for a scan code. -/
def Frame.ofCode (code : BitVec 8) : Frame where
  body := (bodyBits code).map BitCell.standard
  stop := BitCell.standard true
  length_body := by rw [List.length_map]; rfl
  bodyInTime := by
    intro c hc
    obtain ⟨bit, -, rfl⟩ := List.mem_map.mp hc
    have hTime := BitCell.standard_inTime bit
    exact ⟨by omega, hTime.2⟩
  stopInTime := BitCell.standard_inTime true

theorem Frame.code_ofCode (code : BitVec 8) : (Frame.ofCode code).code = code := by
  have hBits : (Frame.ofCode code).bits = bodyBits code := by
    rw [bits, ofCode, List.map_map]
    exact List.map_id _
  refine BitVec.eq_of_getLsbD_eq fun j hj => ?_
  rw [Frame.code, hBits, BitVec.getLsbD_extractLsb', decide_eq_true hj, Bool.true_and,
    BitVec.getLsbD_ofBoolListLE, Nat.add_comm, bodyBits, List.cons_append, List.getD_cons_succ,
    List.getD_eq_getElem?_getD, List.getElem?_append_left (by simpa using hj)]
  simp [hj]

/-- The line during a list of frames; a pause is a long last bit. -/
def lineSamples (fs : List Frame) : List LineSample := fs.flatMap Frame.samples

end Ece385.Tetris

import Ece385.Aes.Packing
import Ece385.Lib.Clocked

/-!
# AES — the hardware modules

`InvMixColumns.sv`, `InvShiftRows.sv`, `SubBytes.sv` and `KeyExpansion.sv`. A
packed vector is read by its slices from the top: `{a, b, c, d} = in` and
`in[0:7]` of an ascending range both name the topmost slice first. The two
S-box tables are clocked on the falling edge; `subBytes` and `invSubBytes` are
their contents, and the registers they fill are state only inside
`KeyExpansion`.
-/

namespace Ece385.Aes.Hardware

/-! ## `SubBytes.sv` -/

/-- The table of `SubBytes`. -/
def subBytesTable : List Byte := [
  0x63, 0x7c, 0x77, 0x7b, 0xf2, 0x6b, 0x6f, 0xc5, 0x30, 0x01, 0x67, 0x2b, 0xfe, 0xd7, 0xab, 0x76,
  0xca, 0x82, 0xc9, 0x7d, 0xfa, 0x59, 0x47, 0xf0, 0xad, 0xd4, 0xa2, 0xaf, 0x9c, 0xa4, 0x72, 0xc0,
  0xb7, 0xfd, 0x93, 0x26, 0x36, 0x3f, 0xf7, 0xcc, 0x34, 0xa5, 0xe5, 0xf1, 0x71, 0xd8, 0x31, 0x15,
  0x04, 0xc7, 0x23, 0xc3, 0x18, 0x96, 0x05, 0x9a, 0x07, 0x12, 0x80, 0xe2, 0xeb, 0x27, 0xb2, 0x75,
  0x09, 0x83, 0x2c, 0x1a, 0x1b, 0x6e, 0x5a, 0xa0, 0x52, 0x3b, 0xd6, 0xb3, 0x29, 0xe3, 0x2f, 0x84,
  0x53, 0xd1, 0x00, 0xed, 0x20, 0xfc, 0xb1, 0x5b, 0x6a, 0xcb, 0xbe, 0x39, 0x4a, 0x4c, 0x58, 0xcf,
  0xd0, 0xef, 0xaa, 0xfb, 0x43, 0x4d, 0x33, 0x85, 0x45, 0xf9, 0x02, 0x7f, 0x50, 0x3c, 0x9f, 0xa8,
  0x51, 0xa3, 0x40, 0x8f, 0x92, 0x9d, 0x38, 0xf5, 0xbc, 0xb6, 0xda, 0x21, 0x10, 0xff, 0xf3, 0xd2,
  0xcd, 0x0c, 0x13, 0xec, 0x5f, 0x97, 0x44, 0x17, 0xc4, 0xa7, 0x7e, 0x3d, 0x64, 0x5d, 0x19, 0x73,
  0x60, 0x81, 0x4f, 0xdc, 0x22, 0x2a, 0x90, 0x88, 0x46, 0xee, 0xb8, 0x14, 0xde, 0x5e, 0x0b, 0xdb,
  0xe0, 0x32, 0x3a, 0x0a, 0x49, 0x06, 0x24, 0x5c, 0xc2, 0xd3, 0xac, 0x62, 0x91, 0x95, 0xe4, 0x79,
  0xe7, 0xc8, 0x37, 0x6d, 0x8d, 0xd5, 0x4e, 0xa9, 0x6c, 0x56, 0xf4, 0xea, 0x65, 0x7a, 0xae, 0x08,
  0xba, 0x78, 0x25, 0x2e, 0x1c, 0xa6, 0xb4, 0xc6, 0xe8, 0xdd, 0x74, 0x1f, 0x4b, 0xbd, 0x8b, 0x8a,
  0x70, 0x3e, 0xb5, 0x66, 0x48, 0x03, 0xf6, 0x0e, 0x61, 0x35, 0x57, 0xb9, 0x86, 0xc1, 0x1d, 0x9e,
  0xe1, 0xf8, 0x98, 0x11, 0x69, 0xd9, 0x8e, 0x94, 0x9b, 0x1e, 0x87, 0xe9, 0xce, 0x55, 0x28, 0xdf,
  0x8c, 0xa1, 0x89, 0x0d, 0xbf, 0xe6, 0x42, 0x68, 0x41, 0x99, 0x2d, 0x0f, 0xb0, 0x54, 0xbb, 0x16
]

/-- The value `SubBytes` registers for an input byte. -/
def subBytes (input : Byte) : Byte := subBytesTable.getD input.toNat 0

/-- The table of `InvSubBytes`. -/
def invSubBytesTable : List Byte := [
  0x52, 0x09, 0x6a, 0xd5, 0x30, 0x36, 0xa5, 0x38, 0xbf, 0x40, 0xa3, 0x9e, 0x81, 0xf3, 0xd7, 0xfb,
  0x7c, 0xe3, 0x39, 0x82, 0x9b, 0x2f, 0xff, 0x87, 0x34, 0x8e, 0x43, 0x44, 0xc4, 0xde, 0xe9, 0xcb,
  0x54, 0x7b, 0x94, 0x32, 0xa6, 0xc2, 0x23, 0x3d, 0xee, 0x4c, 0x95, 0x0b, 0x42, 0xfa, 0xc3, 0x4e,
  0x08, 0x2e, 0xa1, 0x66, 0x28, 0xd9, 0x24, 0xb2, 0x76, 0x5b, 0xa2, 0x49, 0x6d, 0x8b, 0xd1, 0x25,
  0x72, 0xf8, 0xf6, 0x64, 0x86, 0x68, 0x98, 0x16, 0xd4, 0xa4, 0x5c, 0xcc, 0x5d, 0x65, 0xb6, 0x92,
  0x6c, 0x70, 0x48, 0x50, 0xfd, 0xed, 0xb9, 0xda, 0x5e, 0x15, 0x46, 0x57, 0xa7, 0x8d, 0x9d, 0x84,
  0x90, 0xd8, 0xab, 0x00, 0x8c, 0xbc, 0xd3, 0x0a, 0xf7, 0xe4, 0x58, 0x05, 0xb8, 0xb3, 0x45, 0x06,
  0xd0, 0x2c, 0x1e, 0x8f, 0xca, 0x3f, 0x0f, 0x02, 0xc1, 0xaf, 0xbd, 0x03, 0x01, 0x13, 0x8a, 0x6b,
  0x3a, 0x91, 0x11, 0x41, 0x4f, 0x67, 0xdc, 0xea, 0x97, 0xf2, 0xcf, 0xce, 0xf0, 0xb4, 0xe6, 0x73,
  0x96, 0xac, 0x74, 0x22, 0xe7, 0xad, 0x35, 0x85, 0xe2, 0xf9, 0x37, 0xe8, 0x1c, 0x75, 0xdf, 0x6e,
  0x47, 0xf1, 0x1a, 0x71, 0x1d, 0x29, 0xc5, 0x89, 0x6f, 0xb7, 0x62, 0x0e, 0xaa, 0x18, 0xbe, 0x1b,
  0xfc, 0x56, 0x3e, 0x4b, 0xc6, 0xd2, 0x79, 0x20, 0x9a, 0xdb, 0xc0, 0xfe, 0x78, 0xcd, 0x5a, 0xf4,
  0x1f, 0xdd, 0xa8, 0x33, 0x88, 0x07, 0xc7, 0x31, 0xb1, 0x12, 0x10, 0x59, 0x27, 0x80, 0xec, 0x5f,
  0x60, 0x51, 0x7f, 0xa9, 0x19, 0xb5, 0x4a, 0x0d, 0x2d, 0xe5, 0x7a, 0x9f, 0x93, 0xc9, 0x9c, 0xef,
  0xa0, 0xe0, 0x3b, 0x4d, 0xae, 0x2a, 0xf5, 0xb0, 0xc8, 0xeb, 0xbb, 0x3c, 0x83, 0x53, 0x99, 0x61,
  0x17, 0x2b, 0x04, 0x7e, 0xba, 0x77, 0xd6, 0x26, 0xe1, 0x69, 0x14, 0x63, 0x55, 0x21, 0x0c, 0x7d
]

/-- The value `InvSubBytes` registers for an input byte. -/
def invSubBytes (input : Byte) : Byte := invSubBytesTable.getD input.toNat 0

/-! ## `InvMixColumns.sv` -/

/-- `xtime`: `{in[1:7], 1'b0} ^ (8'h1b & {8{in[0]}})` -/
def xtime (input : Byte) : Byte :=
  (input.extractLsb' 0 7 ++ 0#1) ^^^ (0x1b#8 &&& (input.extractLsb' 7 1).replicate 8)

/-- `GF_Mul_9` -/
def gfMul9 (input : Byte) : Byte :=
  let two := xtime input
  let four := xtime two
  let eight := xtime four
  eight ^^^ input

/-- `GF_Mul_b` -/
def gfMulB (input : Byte) : Byte :=
  let two := xtime input
  let four := xtime two
  let eight := xtime four
  eight ^^^ two ^^^ input

/-- `GF_Mul_d` -/
def gfMulD (input : Byte) : Byte :=
  let two := xtime input
  let four := xtime two
  let eight := xtime four
  eight ^^^ four ^^^ input

/-- `GF_Mul_e` -/
def gfMulE (input : Byte) : Byte :=
  let two := xtime input
  let four := xtime two
  let eight := xtime four
  eight ^^^ four ^^^ two

/-- `InvMixColumns` -/
def invMixColumns (input : BitVec 32) : BitVec 32 :=
  let a0 := wordByte input 0
  let a1 := wordByte input 1
  let a2 := wordByte input 2
  let a3 := wordByte input 3
  ofBytes ![
    gfMulE a0 ^^^ gfMulB a1 ^^^ gfMulD a2 ^^^ gfMul9 a3,
    gfMul9 a0 ^^^ gfMulE a1 ^^^ gfMulB a2 ^^^ gfMulD a3,
    gfMulD a0 ^^^ gfMul9 a1 ^^^ gfMulE a2 ^^^ gfMulB a3,
    gfMulB a0 ^^^ gfMulD a1 ^^^ gfMul9 a2 ^^^ gfMulE a3]

/-! ## `InvShiftRows.sv` -/

/-- `InvShiftRows`; `a0` to `a3` are the rows. -/
def invShiftRows (dataIn : BitVec 128) : BitVec 128 :=
  let input := blockByte dataIn
  let a0 := ![input 0, input 4, input 8, input 12]
  let a1 := ![input 1, input 5, input 9, input 13]
  let a2 := ![input 2, input 6, input 10, input 14]
  let a3 := ![input 3, input 7, input 11, input 15]
  ofBlockBytes ![
    a0 0, a1 3, a2 2, a3 1,
    a0 1, a1 0, a2 3, a3 2,
    a0 2, a1 1, a2 0, a3 3,
    a0 3, a1 2, a2 1, a3 0]

/-! ## `KeyExpansion.sv` -/

/-- What the four S-boxes of `KeyExpansionOne` register on a falling edge, fed the
last word rotated. -/
def subwordNext (oldKey : BitVec 128) : BitVec 32 :=
  let wp3 := blockWord oldKey 3
  ofBytes ![subBytes (wordByte wp3 1), subBytes (wordByte wp3 2), subBytes (wordByte wp3 3),
    subBytes (wordByte wp3 0)]

/-- The combinational output of `KeyExpansionOne`. -/
def newKey (oldKey : BitVec 128) (subword : BitVec 32) (rcon : Byte) : BitVec 128 :=
  let w0 := blockWord oldKey 0 ^^^
    ofBytes ![wordByte subword 0 ^^^ rcon, wordByte subword 1, wordByte subword 2,
      wordByte subword 3]
  let w1 := blockWord oldKey 1 ^^^ w0
  let w2 := blockWord oldKey 2 ^^^ w1
  let w3 := blockWord oldKey 3 ^^^ w2
  ofWords ![w0, w1, w2, w3]

/-- `Rcon` -/
def rconTable : List Byte := [0x01, 0x02, 0x04, 0x08, 0x10, 0x20, 0x40, 0x80, 0x1b, 0x36]

/-- The registered S-box outputs of the ten stages. -/
abbrev Subwords := Vector (BitVec 32) 10

/-- The key fed to stage `i`: `Cipherkey`, and from then on `key0` to `key9`. -/
def stageKey (cipherKey : BitVec 128) (s : Subwords) : ℕ → BitVec 128
  | 0 => cipherKey
  | i + 1 => newKey (stageKey cipherKey s i) (s.getD i 0) (rconTable.getD i 0)

/-- `KeySchedule`: `{Cipherkey, key0, …, key9}` -/
def keySchedule (cipherKey : BitVec 128) (s : Subwords) : BitVec 1408 :=
  @Lanes.join 128 11 fun i => stageKey cipherKey s i

/-- A falling clock edge. -/
def step (s : Subwords) (cipherKey : BitVec 128) : Subwords :=
  Vector.ofFn fun i => subwordNext (stageKey cipherKey s i)

end Ece385.Aes.Hardware

import Ece385.Aes.ByteField
import Ece385.Lib.CountedLoop
import Mathlib.Data.Fin.VecNotation

/-!
# AES — `main.c`

The software cipher of the Nios application, with the tables of `aes.h`:
`char` and `unsigned char` are 8 bits, `int` and `unsigned int` 32 bits, an
operand narrower than `int` is widened before an operation and the result cut
off where it is stored in a byte. An array passed by pointer is a vector that
the callee returns updated; reads and writes at a computed index are `getD` and
`setIfInBounds`.
-/

open CountedLoop

namespace Ece385.Aes.Software

/-! ## Reading hexadecimal text -/

/-- The character code. -/
def ascii (c : Char) : Byte := BitVec.ofNat 8 c.toNat

/-- `charToHex`; `char` is signed. -/
def charToHex (c : Byte) : Byte :=
  if BitVec.sle (ascii '0') c && BitVec.sle c (ascii '9') then c - ascii '0'
  else if BitVec.sle (ascii 'A') c && BitVec.sle c (ascii 'F') then c - ascii 'A' + 10
  else if BitVec.sle (ascii 'a') c && BitVec.sle c (ascii 'f') then c - ascii 'a' + 10
  else c

/-- `charsToHex` -/
def charsToHex (c1 c2 : Byte) : Byte :=
  (((charToHex c1).signExtend 32 <<< 4) + (charToHex c2).signExtend 32).setWidth 8

/-! ## The key schedule -/

/-- `aes_sbox` -/
def aesSboxTable : List Byte := [
  0x63, 0x7c, 0x77, 0x7b, 0xf2, 0x6b, 0x6f, 0xc5, 0x30, 0x01, 0x67, 0x2b, 0xfe, 0xd7, 0xab, 0x76,
  0xca, 0x82, 0xc9, 0x7d, 0xfa, 0x59, 0x47, 0xf0, 0xad, 0xd4, 0xa2, 0xaf, 0x9c, 0xa4, 0x72, 0xc0,
  0xb7, 0xfd, 0x93, 0x26, 0x36, 0x3f, 0xf7, 0xcc, 0x34, 0xa5, 0xe5, 0xf1, 0x71, 0xd8, 0x31, 0x15,
  0x04, 0xc7, 0x23, 0xc3, 0x18, 0x96, 0x05, 0x9a, 0x07, 0x12, 0x80, 0xe2, 0xeb, 0x27, 0xb2, 0x75,
  0x09, 0x83, 0x2c, 0x1a, 0x1b, 0x6e, 0x5a, 0xa0, 0x52, 0x3b, 0xd6, 0xb3, 0x29, 0xe3, 0x2f, 0x84,
  0x53, 0xd1, 0x00, 0xed, 0x20, 0xfc, 0xb1, 0x5b, 0x6a, 0xcb, 0xbe, 0x39, 0x4a, 0x4c, 0x58, 0xcf,
  0xd0, 0xef, 0xaa, 0xfb, 0x43, 0x4d, 0x33, 0x85, 0x45, 0xf9, 0x02, 0x7f, 0x50, 0x3c, 0x9f, 0xa8,
  0x51, 0xa3, 0x40, 0x8f, 0x92, 0x9d, 0x38, 0xf5, 0xbc, 0xb6, 0xda, 0x21, 0x10, 0xff, 0xf3, 0xd2,
  0xcd, 0x0c, 0x13, 0xec, 0x5f, 0x97, 0x44, 0x17, 0xc4, 0xa7, 0x7e, 0x3d, 0x64, 0x5d, 0x19, 0x73,
  0x60, 0x81, 0x4f, 0xdc, 0x22, 0x2a, 0x90, 0x88, 0x46, 0xee, 0xb8, 0x14, 0xde, 0x5e, 0x0b, 0xdb,
  0xe0, 0x32, 0x3a, 0x0a, 0x49, 0x06, 0x24, 0x5c, 0xc2, 0xd3, 0xac, 0x62, 0x91, 0x95, 0xe4, 0x79,
  0xe7, 0xc8, 0x37, 0x6d, 0x8d, 0xd5, 0x4e, 0xa9, 0x6c, 0x56, 0xf4, 0xea, 0x65, 0x7a, 0xae, 0x08,
  0xba, 0x78, 0x25, 0x2e, 0x1c, 0xa6, 0xb4, 0xc6, 0xe8, 0xdd, 0x74, 0x1f, 0x4b, 0xbd, 0x8b, 0x8a,
  0x70, 0x3e, 0xb5, 0x66, 0x48, 0x03, 0xf6, 0x0e, 0x61, 0x35, 0x57, 0xb9, 0x86, 0xc1, 0x1d, 0x9e,
  0xe1, 0xf8, 0x98, 0x11, 0x69, 0xd9, 0x8e, 0x94, 0x9b, 0x1e, 0x87, 0xe9, 0xce, 0x55, 0x28, 0xdf,
  0x8c, 0xa1, 0x89, 0x0d, 0xbf, 0xe6, 0x42, 0x68, 0x41, 0x99, 0x2d, 0x0f, 0xb0, 0x54, 0xbb, 0x16
]

/-- `aes_sbox[i]` -/
def aesSbox (i : ℕ) : Byte := aesSboxTable.getD i 0

/-- `Rcon` -/
def rconTable : List (BitVec 32) := [
  0x00000000, 0x01000000, 0x02000000, 0x04000000, 0x08000000, 0x10000000,
  0x20000000, 0x40000000, 0x80000000, 0x1b000000, 0x36000000, 0x6c000000,
  0xd8000000, 0xab000000, 0x4d000000, 0x9a000000]

/-- `Rcon[i]` -/
def rcon (i : ℕ) : BitVec 32 := rconTable.getD i 0

/-- `RotWord` -/
def rotWord (word : BitVec 32) : BitVec 32 :=
  let bitmask : BitVec 32 := 0x000000FF
  let digit0 := ((bitmask <<< 24) &&& word) >>> 24
  let digit1 := (bitmask &&& word) <<< 8
  let digit2 := ((bitmask <<< 8) &&& word) <<< 8
  let digit3 := ((bitmask <<< 16) &&& word) <<< 8
  digit3 + digit2 + digit1 + digit0

/-- `SubWord` -/
def subWord (word : BitVec 32) : BitVec 32 :=
  let bitmask : BitVec 32 := 0x000000FF
  forLoop 0 4 (fun i output =>
    let aesIndex := if word = 0 then 0 else ((bitmask <<< (i * 8)) &&& word) >>> (i * 8)
    output + ((aesSbox aesIndex.toNat).setWidth 32 <<< (i * 8))) 0

/-- `(b0 << 24) + (b1 << 16) + (b2 << 8) + (b3)` -/
def bigEndian (b0 b1 b2 b3 : Byte) : BitVec 32 :=
  (b0.setWidth 32 <<< 24) + (b1.setWidth 32 <<< 16) + (b2.setWidth 32 <<< 8) + b3.setWidth 32

/-- `hexKey[4*i] … hexKey[4*i+3]` as one word. -/
def wordAt (bytes : Vector Byte 16) (i : Fin 4) : BitVec 32 :=
  bigEndian bytes[4 * i.val] bytes[4 * i.val + 1] bytes[4 * i.val + 2] bytes[4 * i.val + 3]

/-- The word the second loop of `KeyExpansion` stores in `expandedKey[i]`. -/
def nextWord (i : ℕ) (expandedKey : Vector (BitVec 32) 44) : BitVec 32 :=
  let temp := expandedKey.getD (i - 1) 0
  let temp := if i % 4 = 0 then subWord (rotWord temp) ^^^ rcon (i / 4) else temp
  expandedKey.getD (i - 4) 0 ^^^ temp

/-- `KeyExpansion` -/
def keyExpansion (hexKey : Vector Byte 16) (expandedKey : Vector (BitVec 32) 44) :
    Vector (BitVec 32) 44 :=
  let expandedKey := forLoop 0 4
    (fun i e => e.setIfInBounds i (wordAt hexKey (Fin.ofNat 4 i))) expandedKey
  forLoop 4 44 (fun i e => e.setIfInBounds i (nextWord i e)) expandedKey

/-! ## The steps of a round -/

/-- `unsigned char state[16]` -/
abbrev State := Vector Byte 16

/-- `AddRoundKey`; every byte is updated once, from itself. -/
def addRoundKey {n : ℕ} (state : State) (expandedKey : Vector (BitVec 32) n) (offset : ℕ) : State :=
  Vector.ofFn fun j =>
    let word := expandedKey.getD (j / 4 + offset) 0
    let byte := state[j].setWidth 32
    match j.val % 4 with
    | 0 => (byte ^^^ (word >>> 24)).setWidth 8
    | 1 => (byte ^^^ (word >>> 16)).setWidth 8
    | 2 => (byte ^^^ (word >>> 8)).setWidth 8
    | _ => (byte ^^^ word).setWidth 8

/-- `SubBytes` -/
def subBytes (state : State) : State := state.map fun b => aesSbox b.toNat

/-- `ShiftRows` -/
def shiftRows (state : State) : State := #v[
  state[0], state[5], state[10], state[15],
  state[4], state[9], state[14], state[3],
  state[8], state[13], state[2], state[7],
  state[12], state[1], state[6], state[11]]

/-- `xtime` -/
def xtime (x : Byte) : Byte :=
  let flag := (x >>> 7) &&& 1 != 0
  let x : Byte := (x.setWidth 32 <<< 1).setWidth 8
  if flag then (x.setWidth 32 ^^^ 0x11b#32).setWidth 8 else x

/-- `gf_mul2` -/
def gfMul2 (stateByte : Byte) : Byte := xtime stateByte

/-- `gf_mul3` -/
def gfMul3 (stateByte : Byte) : Byte := xtime stateByte ^^^ stateByte

/-- `MixColumns` -/
def mixColumns (state : State) : State := #v[
  gfMul2 state[0] ^^^ gfMul3 state[1] ^^^ state[2] ^^^ state[3],
  state[0] ^^^ gfMul2 state[1] ^^^ gfMul3 state[2] ^^^ state[3],
  state[0] ^^^ state[1] ^^^ gfMul2 state[2] ^^^ gfMul3 state[3],
  gfMul3 state[0] ^^^ state[1] ^^^ state[2] ^^^ gfMul2 state[3],
  gfMul2 state[4] ^^^ gfMul3 state[5] ^^^ state[6] ^^^ state[7],
  state[4] ^^^ gfMul2 state[5] ^^^ gfMul3 state[6] ^^^ state[7],
  state[4] ^^^ state[5] ^^^ gfMul2 state[6] ^^^ gfMul3 state[7],
  gfMul3 state[4] ^^^ state[5] ^^^ state[6] ^^^ gfMul2 state[7],
  gfMul2 state[8] ^^^ gfMul3 state[9] ^^^ state[10] ^^^ state[11],
  state[8] ^^^ gfMul2 state[9] ^^^ gfMul3 state[10] ^^^ state[11],
  state[8] ^^^ state[9] ^^^ gfMul2 state[10] ^^^ gfMul3 state[11],
  gfMul3 state[8] ^^^ state[9] ^^^ state[10] ^^^ gfMul2 state[11],
  gfMul2 state[12] ^^^ gfMul3 state[13] ^^^ state[14] ^^^ state[15],
  state[12] ^^^ gfMul2 state[13] ^^^ gfMul3 state[14] ^^^ state[15],
  state[12] ^^^ state[13] ^^^ gfMul2 state[14] ^^^ gfMul3 state[15],
  gfMul3 state[12] ^^^ state[13] ^^^ state[14] ^^^ gfMul2 state[15]]

/-! ## The cipher -/

/-- One iteration of the round loop, with the round key at `offset`. -/
def round {n : ℕ} (expandedKey : Vector (BitVec 32) n) (offset : ℕ) (state : State) : State :=
  addRoundKey (mixColumns (shiftRows (subBytes state))) expandedKey offset

/-- The last round, without `MixColumns`. -/
def finalRound {n : ℕ} (expandedKey : Vector (BitVec 32) n) (offset : ℕ) (state : State) : State :=
  addRoundKey (shiftRows (subBytes state)) expandedKey offset

/-- The bytes two characters each of a text of 32 stand for. -/
def readBytes (text : Vector Byte 32) : Vector Byte 16 :=
  Vector.ofFn fun i => charsToHex text[i.val * 2] text[i.val * 2 + 1]

/-- `encrypt` up to the array `state` that it packs; `uninit` is what the local array
`expandedKey` holds on entry. -/
def encryptedState (msgAscii keyAscii : Vector Byte 32) (uninit : Vector (BitVec 32) 44) : State :=
  let state := readBytes msgAscii
  let hexKey := readBytes keyAscii
  let expandedKey := keyExpansion hexKey uninit
  let state := addRoundKey state expandedKey 0
  let state := forLoop 0 9 (fun i state => round expandedKey ((i + 1) * 4) state) state
  finalRound expandedKey 40 state

/-- `encrypt`. The result is `msg_enc` and `key`. -/
def encrypt (msgAscii keyAscii : Vector Byte 32) (uninit : Vector (BitVec 32) 44) :
    Vector (BitVec 32) 4 × Vector (BitVec 32) 4 :=
  let state := encryptedState msgAscii keyAscii uninit
  let hexKey := readBytes keyAscii
  (Vector.ofFn (wordAt state), Vector.ofFn (wordAt hexKey))

end Ece385.Aes.Software

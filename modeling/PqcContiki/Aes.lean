import PqcContiki.Platform
import PqcContiki.Library.BitPolynomial

/-!
The AES-256 of `aes.c`: the key schedule, the block cipher and its inverse, and counter mode.
-/
namespace PqcContiki

abbrev aesBlocklen : ℕ := 16

/-- The number of 32-bit words in a key. -/
abbrev aesNk : ℕ := 8

/-- The number of rounds. -/
abbrev aesNr : ℕ := 14

def sbox : List UInt8 :=
  [0x63, 0x7c, 0x77, 0x7b, 0xf2, 0x6b, 0x6f, 0xc5, 0x30, 0x01, 0x67, 0x2b, 0xfe, 0xd7, 0xab, 0x76,
    0xca, 0x82, 0xc9, 0x7d, 0xfa, 0x59, 0x47, 0xf0, 0xad, 0xd4, 0xa2, 0xaf, 0x9c, 0xa4, 0x72, 0xc0,
    0xb7, 0xfd, 0x93, 0x26, 0x36, 0x3f, 0xf7, 0xcc, 0x34, 0xa5, 0xe5, 0xf1, 0x71, 0xd8, 0x31, 0x15,
    0x04, 0xc7, 0x23, 0xc3, 0x18, 0x96, 0x05, 0x9a, 0x07, 0x12, 0x80, 0xe2, 0xeb, 0x27, 0xb2, 0x75,
    0x09, 0x83, 0x2c, 0x1a, 0x1b, 0x6e, 0x5a, 0xa0, 0x52, 0x3b, 0xd6, 0xb3, 0x29, 0xe3, 0x2f, 0x84,
    0x53, 0xd1, 0x00, 0xed, 0x20, 0xfc, 0xb1, 0x5b, 0x6a, 0xcb, 0xbe, 0x39, 0x4a, 0x4c, 0x58, 0xcf,
    0xd0, 0xef, 0xaa, 0xfb, 0x43, 0x4d, 0x33, 0x85, 0x45, 0xf9, 0x02, 0x7f, 0x50, 0x3c, 0x9f, 0xa8,
    0x51, 0xa3, 0x40, 0x8f, 0x92, 0x9d, 0x38, 0xf5, 0xbc, 0xb6, 0xda, 0x21, 0x10, 0xff, 0xf3, 0xd2,
    0xcd, 0x0c, 0x13, 0xec, 0x5f, 0x97, 0x44, 0x17, 0xc4, 0xa7, 0x7e, 0x3d, 0x64, 0x5d, 0x19, 0x73,
    0x60, 0x81, 0x4f, 0xdc, 0x22, 0x2a, 0x90, 0x88, 0x46, 0xee, 0xb8, 0x14, 0xde, 0x5e, 0x0b, 0xdb,
    0xe0, 0x32, 0x3a, 0x0a, 0x49, 0x06, 0x24, 0x5c, 0xc2, 0xd3, 0xac, 0x62, 0x91, 0x95, 0xe4, 0x79,
    0xe7, 0xc8, 0x37, 0x6d, 0x8d, 0xd5, 0x4e, 0xa9, 0x6c, 0x56, 0xf4, 0xea, 0x65, 0x7a, 0xae, 0x08,
    0xba, 0x78, 0x25, 0x2e, 0x1c, 0xa6, 0xb4, 0xc6, 0xe8, 0xdd, 0x74, 0x1f, 0x4b, 0xbd, 0x8b, 0x8a,
    0x70, 0x3e, 0xb5, 0x66, 0x48, 0x03, 0xf6, 0x0e, 0x61, 0x35, 0x57, 0xb9, 0x86, 0xc1, 0x1d, 0x9e,
    0xe1, 0xf8, 0x98, 0x11, 0x69, 0xd9, 0x8e, 0x94, 0x9b, 0x1e, 0x87, 0xe9, 0xce, 0x55, 0x28, 0xdf,
    0x8c, 0xa1, 0x89, 0x0d, 0xbf, 0xe6, 0x42, 0x68, 0x41, 0x99, 0x2d, 0x0f, 0xb0, 0x54, 0xbb, 0x16]

def rsbox : List UInt8 :=
  [0x52, 0x09, 0x6a, 0xd5, 0x30, 0x36, 0xa5, 0x38, 0xbf, 0x40, 0xa3, 0x9e, 0x81, 0xf3, 0xd7, 0xfb,
    0x7c, 0xe3, 0x39, 0x82, 0x9b, 0x2f, 0xff, 0x87, 0x34, 0x8e, 0x43, 0x44, 0xc4, 0xde, 0xe9, 0xcb,
    0x54, 0x7b, 0x94, 0x32, 0xa6, 0xc2, 0x23, 0x3d, 0xee, 0x4c, 0x95, 0x0b, 0x42, 0xfa, 0xc3, 0x4e,
    0x08, 0x2e, 0xa1, 0x66, 0x28, 0xd9, 0x24, 0xb2, 0x76, 0x5b, 0xa2, 0x49, 0x6d, 0x8b, 0xd1, 0x25,
    0x72, 0xf8, 0xf6, 0x64, 0x86, 0x68, 0x98, 0x16, 0xd4, 0xa4, 0x5c, 0xcc, 0x5d, 0x65, 0xb6, 0x92,
    0x6c, 0x70, 0x48, 0x50, 0xfd, 0xed, 0xb9, 0xda, 0x5e, 0x15, 0x46, 0x57, 0xa7, 0x8d, 0x9d, 0x84,
    0x90, 0xd8, 0xab, 0x00, 0x8c, 0xbc, 0xd3, 0x0a, 0xf7, 0xe4, 0x58, 0x05, 0xb8, 0xb3, 0x45, 0x06,
    0xd0, 0x2c, 0x1e, 0x8f, 0xca, 0x3f, 0x0f, 0x02, 0xc1, 0xaf, 0xbd, 0x03, 0x01, 0x13, 0x8a, 0x6b,
    0x3a, 0x91, 0x11, 0x41, 0x4f, 0x67, 0xdc, 0xea, 0x97, 0xf2, 0xcf, 0xce, 0xf0, 0xb4, 0xe6, 0x73,
    0x96, 0xac, 0x74, 0x22, 0xe7, 0xad, 0x35, 0x85, 0xe2, 0xf9, 0x37, 0xe8, 0x1c, 0x75, 0xdf, 0x6e,
    0x47, 0xf1, 0x1a, 0x71, 0x1d, 0x29, 0xc5, 0x89, 0x6f, 0xb7, 0x62, 0x0e, 0xaa, 0x18, 0xbe, 0x1b,
    0xfc, 0x56, 0x3e, 0x4b, 0xc6, 0xd2, 0x79, 0x20, 0x9a, 0xdb, 0xc0, 0xfe, 0x78, 0xcd, 0x5a, 0xf4,
    0x1f, 0xdd, 0xa8, 0x33, 0x88, 0x07, 0xc7, 0x31, 0xb1, 0x12, 0x10, 0x59, 0x27, 0x80, 0xec, 0x5f,
    0x60, 0x51, 0x7f, 0xa9, 0x19, 0xb5, 0x4a, 0x0d, 0x2d, 0xe5, 0x7a, 0x9f, 0x93, 0xc9, 0x9c, 0xef,
    0xa0, 0xe0, 0x3b, 0x4d, 0xae, 0x2a, 0xf5, 0xb0, 0xc8, 0xeb, 0xbb, 0x3c, 0x83, 0x53, 0x99, 0x61,
    0x17, 0x2b, 0x04, 0x7e, 0xba, 0x77, 0xd6, 0x26, 0xe1, 0x69, 0x14, 0x63, 0x55, 0x21, 0x0c, 0x7d]

def rcon : List UInt8 :=
  [0x8d, 0x01, 0x02, 0x04, 0x08, 0x10, 0x20, 0x40, 0x80, 0x1b, 0x36]

def getSBoxValue (num : UInt8) : UInt8 := sbox.getD num.toNat 0

def getSBoxInvert (num : UInt8) : UInt8 := rsbox.getD num.toNat 0

/-- One step of the loop of `KeyExpansion`: the four bytes of word `i`. -/
def keyExpansionStep (roundKey : Bytes) (i : ℕ) : Bytes :=
  let tempa := fun n => byteAt roundKey ((i - 1) * 4 + n)
  let tempa : ℕ → UInt8 :=
    if i % aesNk = 0 then
      -- `RotWord`, `SubWord` and the round constant
      fun n => getSBoxValue (tempa ((n + 1) % 4)) ^^^
        if n = 0 then rcon.getD (i / aesNk) 0 else 0
    else tempa
  let tempa := if i % aesNk = 4 then fun n => getSBoxValue (tempa n) else tempa
  roundKey ++ (List.range 4).map fun n => byteAt roundKey ((i - aesNk) * 4 + n) ^^^ tempa n

def keyExpansion (key : Bytes) : Bytes :=
  (List.range' aesNk (4 * (aesNr + 1) - aesNk)).foldl keyExpansionStep (key.take (4 * aesNk))

/-- `state_t`: the entry `(i, j)` is in column `i` and row `j`. -/
abbrev AesState := Vector (Vector UInt8 4) 4

namespace AesState

def entry (state : AesState) (i j : Fin 4) : UInt8 := state[i][j]

def ofEntries (f : Fin 4 → Fin 4 → UInt8) : AesState := Vector.ofFn fun i => Vector.ofFn (f i)

/-- A block of memory read as a state. -/
def ofBytes (block : Bytes) : AesState := ofEntries fun i j => byteAt block (i * 4 + j)

def toBytes (state : AesState) : Bytes :=
  List.ofFn fun k : Fin aesBlocklen => state.entry (Fin.ofNat 4 (k / 4)) (Fin.ofNat 4 k)

@[simp] theorem entry_ofEntries {f : Fin 4 → Fin 4 → UInt8} {i j : Fin 4} :
    (ofEntries f).entry i j = f i j := by
  simp [entry, ofEntries]

theorem ext_entry {state state' : AesState} (h : ∀ i j, state.entry i j = state'.entry i j) :
    state = state' := by
  apply Vector.ext
  intro i hi
  apply Vector.ext
  intro j hj
  exact h ⟨i, hi⟩ ⟨j, hj⟩

end AesState

open AesState

def addRoundKey (round : ℕ) (roundKey : Bytes) (state : AesState) : AesState :=
  ofEntries fun i j => state.entry i j ^^^ byteAt roundKey (round * 4 * 4 + i * 4 + j)

def subBytes (state : AesState) : AesState := ofEntries fun i j => getSBoxValue (state.entry i j)

/-- Row `j` is rotated `j` columns to the left. -/
def shiftRows (state : AesState) : AesState := ofEntries fun i j => state.entry (i + j) j

def xtime (x : UInt8) : UInt8 :=
  (x <<< (1 : UInt8)) ^^^ (x >>> (7 : UInt8) &&& (1 : UInt8)) * (0x1b : UInt8)

def mixColumns (state : AesState) : AesState := ofEntries fun i j =>
  let tmp := state.entry i 0 ^^^ state.entry i 1 ^^^ state.entry i 2 ^^^ state.entry i 3
  let tm := xtime (state.entry i j ^^^ state.entry i (j + 1))
  state.entry i j ^^^ (tm ^^^ tmp)

def cipher (roundKey : Bytes) (state : AesState) : AesState :=
  let state := addRoundKey 0 roundKey state
  let state := (List.range' 1 (aesNr - 1)).foldl
    (fun state round => addRoundKey round roundKey (mixColumns (shiftRows (subBytes state)))) state
  addRoundKey aesNr roundKey (shiftRows (subBytes state))

/-- `y >> n & 1` -/
def bitAt (y n : UInt8) : UInt8 := y >>> n &&& (1 : UInt8)

def multiply (x y : UInt8) : UInt8 :=
  bitAt y 0 * x ^^^ bitAt y 1 * xtime x ^^^ bitAt y 2 * xtime (xtime x) ^^^
    bitAt y 3 * xtime (xtime (xtime x)) ^^^ bitAt y 4 * xtime (xtime (xtime (xtime x)))

/-- Each row of the matrix is the one above rotated to the right. -/
def invMixColumns (state : AesState) : AesState := ofEntries fun i j =>
  multiply (state.entry i j) 0x0e ^^^ multiply (state.entry i (j + 1)) 0x0b ^^^
    multiply (state.entry i (j + 2)) 0x0d ^^^ multiply (state.entry i (j + 3)) 0x09

def invSubBytes (state : AesState) : AesState :=
  ofEntries fun i j => getSBoxInvert (state.entry i j)

def invShiftRows (state : AesState) : AesState := ofEntries fun i j => state.entry (i - j) j

def invCipher (roundKey : Bytes) (state : AesState) : AesState :=
  let state := addRoundKey aesNr roundKey state
  let state := (List.range' 1 (aesNr - 1)).reverse.foldl
    (fun state round => invMixColumns (addRoundKey round roundKey
      (invSubBytes (invShiftRows state)))) state
  addRoundKey 0 roundKey (invSubBytes (invShiftRows state))

structure AesCtx where
  roundKey : Bytes
  iv : Bytes
deriving DecidableEq

def aesInitCtxIv (key iv : Bytes) : AesCtx := ⟨keyExpansion key, iv.take aesBlocklen⟩

/-- The loop over `bi` that increments the counter block: `bi` counts the bytes still to visit. -/
def incrementIv : ℕ → Bytes → Bytes
  | 0, iv => iv
  | bi + 1, iv =>
    if byteAt iv bi = 255 then incrementIv bi (iv.set bi 0)
    else iv.set bi (byteAt iv bi + 1)

/-- The loop of `AES_CTR_xcrypt_buffer`, over the bytes of `buf` still to do. -/
def aesCtrLoop (ctx : AesCtx) (buffer : Bytes) (bi : ℕ) : Bytes → AesCtx × Bytes
  | [] => (ctx, [])
  | b :: rest =>
    if bi = aesBlocklen then
      let buffer := (cipher ctx.roundKey (ofBytes ctx.iv)).toBytes
      let ctx := { ctx with iv := incrementIv aesBlocklen ctx.iv }
      let (ctx, out) := aesCtrLoop ctx buffer 1 rest
      (ctx, (b ^^^ byteAt buffer 0) :: out)
    else
      let (ctx, out) := aesCtrLoop ctx buffer (bi + 1) rest
      (ctx, (b ^^^ byteAt buffer bi) :: out)

/-- The contents of `buffer` before the first block do not matter. -/
def aesCtrXcryptBuffer (ctx : AesCtx) (buf : Bytes) : AesCtx × Bytes :=
  aesCtrLoop ctx [] aesBlocklen buf

/-- `crypto_worker_aes_ctr_xcrypt` -/
def aesCtrXcrypt (key : AesKey) (iv : AesIv) (buf : Bytes) : Bytes :=
  if buf.length = 0 then buf
  else (aesCtrXcryptBuffer (aesInitCtxIv key.toList iv.toList) buf).2

variable {state : AesState} {roundKey : Bytes} {round : ℕ} {x y : UInt8}

end PqcContiki

import PqcContiki.Gf2x
import PqcContiki.Protocol

/-!
`vector.c`: random vectors, sums and comparisons, over arrays of `uint64_t` that `memcpy` reads and
writes as bytes.
-/
namespace PqcContiki

open BitPolynomial

abbrev vecNSizeBytes : ℕ := 2209
abbrev vecN1N2SizeBytes : ℕ := 2208
abbrev vecN1N2Size64 : ℕ := 276
abbrev paramN1N2 : ℕ := 17664
abbrev paramOmega : ℕ := 66
abbrev paramOmegaE : ℕ := 75
abbrev paramOmegaR : ℕ := 75
abbrev utilsRejectionThreshold : ℕ := 16767881

/-- The first `n` bytes of an array. -/
def bytesOfWords (n : ℕ) (v : List UInt64) : Bytes :=
  (List.range n).map fun i => (v.getD (i / 8) 0 >>> UInt64.ofNat (8 * (i % 8))).toUInt8

def wordOfBytes (b : Bytes) (i : ℕ) : UInt64 :=
  (List.range 8).foldl
    (fun w j => w ||| (byteAt b (8 * i + j)).toUInt64 <<< UInt64.ofNat (8 * j)) 0

/-- `memcpy` of `n` bytes to the beginning of an array. -/
def memcpyWords (o : List UInt64) (b : Bytes) (n : ℕ) : List UInt64 :=
  let bytes := b.take n ++ (bytesOfWords (8 * o.length) o).drop n
  (List.range o.length).map (wordOfBytes bytes)

/-- The SHAKE256 of `fips202.c`: absorbing and finalizing an input, then squeezing. -/
structure Sponge (S : Type) where
  finalized : Bytes → S
  squeeze : S → ℕ → Bytes × S
  length_squeeze : ∀ s n, (squeeze s n).1.length = n

variable {S : Type} (sponge : Sponge S)

/-- `SEEDEXPANDER_DOMAIN` -/
abbrev seedexpanderDomain : UInt8 := 2

def seedexpanderInit (seed : Bytes) : S := sponge.finalized (seed ++ [seedexpanderDomain])

/-- Blocks of 64 bits are squeezed, and what is left over of the last one is lost. -/
def seedexpander (ctx : S) (outlen : ℕ) : Bytes × S :=
  let remainder := outlen % 8
  let (output, ctx) := sponge.squeeze ctx (outlen - remainder)
  if remainder ≠ 0 then
    let (tmp, ctx) := sponge.squeeze ctx 8
    (output ++ tmp.take remainder, ctx)
  else (output, ctx)

/-- The variables of the sampling loop; `support` holds the positions up to `i`. -/
structure Sampler (S : Type) where
  ctx : S
  randBytes : Bytes
  j : ℕ
  support : List ℕ

/-- One draw of three bytes. -/
def Sampler.draw (weight : ℕ) (st : Sampler S) : ℕ × Sampler S :=
  let randomBytesSize := 3 * weight
  let st := if st.j = randomBytesSize then
    let (randBytes, ctx) := seedexpander sponge st.ctx randomBytesSize
    { st with ctx, randBytes, j := 0 } else st
  ((byteAt st.randBytes st.j).toNat <<< 16 ||| (byteAt st.randBytes (st.j + 1)).toNat <<< 8 |||
    (byteAt st.randBytes (st.j + 2)).toNat, { st with j := st.j + 3 })

/-- The sampling loop; `none` when it needs more than `fuel` draws. -/
def Sampler.run (weight : ℕ) : ℕ → Sampler S → Option (Sampler S)
  | 0, _ => none
  | fuel + 1, st =>
    if st.support.length < weight then
      let (x, st) := st.draw sponge weight
      if utilsRejectionThreshold ≤ x ∨ x % paramN ∈ st.support then Sampler.run weight fuel st
      else Sampler.run weight fuel { st with support := st.support ++ [x % paramN] }
    else some st

/-- `-val1`: all ones where the two indices are equal. -/
def indexMask (i index : UInt32) : UInt64 :=
  let tmp := i - index
  let val1 := (1 : UInt32) ^^^ ((tmp ||| -tmp) >>> 31);
  -val1.toUInt64

/-- Word `i` of a vector of the given support. -/
def supportWord (support : List ℕ) (i : ℕ) : UInt64 :=
  support.foldl (fun val position =>
    let bit := (1 : UInt64) <<< UInt64.ofNat (position % 64)
    val ||| bit &&& indexMask (UInt32.ofNat i) (UInt32.ofNat (position / 64))) 0

/-- Every caller passes an array of zeros. -/
def vectSetRandomFixedWeight (fuel : ℕ) (ctx : S) (weight : ℕ) : Option (List UInt64 × S) :=
  (Sampler.run sponge weight fuel ⟨ctx, List.replicate (3 * paramOmegaR) 0, 3 * weight, []⟩).map
    fun st => ((List.range vecNSize64).map (supportWord st.support), st.ctx)

def vectSetRandom (ctx : S) : List UInt64 × S :=
  let (randBytes, ctx) := seedexpander sponge ctx vecNSizeBytes
  let v := memcpyWords (List.replicate vecNSize64 0) randBytes vecNSizeBytes
  (v.modify (vecNSize64 - 1) (· &&& redMask), ctx)

def vectAdd (v1 v2 : List UInt64) : List UInt64 := List.zipWith (· ^^^ ·) v1 v2

/-- The loop of `vect_compare`: the differences of all bytes put together. -/
def differences (v1 v2 : Bytes) (size : ℕ) : UInt64 :=
  (List.range size).foldl (fun r i => r ||| (byteAt v1 i ^^^ byteAt v2 i).toUInt64) 0

/-- 0 if the vectors are equal. -/
def vectCompare (v1 v2 : Bytes) (size : ℕ) : UInt8 :=
  let r := differences v1 v2 size
  ((~~~r + 1) >>> 63).toUInt8

def vectResize (o : List UInt64) (sizeO : ℕ) (v : List UInt64) (sizeV : ℕ) : List UInt64 :=
  if sizeO < sizeV then
    let val := if sizeO % 64 ≠ 0 then 64 - sizeO % 64 else 0
    let o := memcpyWords o (bytesOfWords vecN1N2SizeBytes v) vecN1N2SizeBytes
    (List.range val).foldl (fun o i =>
      o.modify (vecN1N2Size64 - 1) (· &&& (0x7FFFFFFFFFFFFFFF : UInt64) >>> UInt64.ofNat i)) o
  else
    let bytes := (sizeV + 7) / 8
    memcpyWords o (bytesOfWords bytes v) bytes

end PqcContiki

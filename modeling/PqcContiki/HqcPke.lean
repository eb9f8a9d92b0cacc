import PqcContiki.HqcSampling
import PqcContiki.ReedMullerDecoding

/-!
The public-key encryption of `hqc.c` with the strings of `parsing.c` and the concatenated code of
`code.c`: what decryption decodes is the codeword of the message with sparse noise on it.
-/
namespace PqcContiki

open Polynomial BitPolynomial

abbrev seedBytes : ℕ := 40
abbrev publicKeyBytes : ℕ := 2249
abbrev vecKSizeBytes : ℕ := 16
abbrev paramDelta : ℕ := 15

/-- The Reed-Solomon code of `reed_solomon.c`. -/
structure ReedSolomon where
  encode : Bytes → Bytes
  decode : Bytes → Bytes

/-- The decoder finds `m` in a word of which `PARAM_DELTA` bytes are wrong. -/
def ReedSolomon.Corrects (rs : ReedSolomon) (m : Bytes) : Prop :=
  ∀ w : Bytes, w.length = vecN1SizeBytes →
    ((Finset.range vecN1SizeBytes).filter fun i => byteAt w i ≠ byteAt (rs.encode m) i).card ≤
      paramDelta → rs.decode w = m

def codeEncode (rs : ReedSolomon) (m : Bytes) : List UInt64 := reedMullerEncode (rs.encode m)

def codeDecode (rs : ReedSolomon) (em : List UInt64) : Bytes := rs.decode (reedMullerDecode em)

section Scheme

variable {S : Type} (sponge : Sponge S) (rs : ReedSolomon) (fuel : ℕ)

def zeroVector : List UInt64 := List.replicate vecNSize64 0

def hqcPublicKeyToString (pkSeed : Bytes) (s : List UInt64) : Bytes :=
  pkSeed ++ bytesOfWords vecNSizeBytes s

/-- Returns `(h, s)`. -/
def hqcPublicKeyFromString (pk : Bytes) : List UInt64 × List UInt64 :=
  let pkSeedexpander := seedexpanderInit sponge (pk.take seedBytes)
  let h := (vectSetRandom sponge pkSeedexpander).1
  (h, memcpyWords zeroVector (pk.drop seedBytes) vecNSizeBytes)

def hqcSecretKeyToString (skSeed pk : Bytes) : Bytes := skSeed ++ pk

/-- Returns `(x, y, pk)`. -/
def hqcSecretKeyFromString (sk : Bytes) : Option (List UInt64 × List UInt64 × Bytes) := do
  let skSeedexpander := seedexpanderInit sponge (sk.take seedBytes)
  let (x, skSeedexpander) ← vectSetRandomFixedWeight sponge fuel skSeedexpander paramOmega
  let (y, _) ← vectSetRandomFixedWeight sponge fuel skSeedexpander paramOmega
  return (x, y, (sk.drop seedBytes).take publicKeyBytes)

/-- `shake_prng` on the state of the generator. Returns `(pk, sk)` and the new state. -/
def hqcPkeKeygen (prng : S) : Option ((Bytes × Bytes) × S) := do
  let (skSeed, prng) := sponge.squeeze prng seedBytes
  let skSeedexpander := seedexpanderInit sponge skSeed
  let (pkSeed, prng) := sponge.squeeze prng seedBytes
  let pkSeedexpander := seedexpanderInit sponge pkSeed
  let (x, skSeedexpander) ← vectSetRandomFixedWeight sponge fuel skSeedexpander paramOmega
  let (y, _) ← vectSetRandomFixedWeight sponge fuel skSeedexpander paramOmega
  let h := (vectSetRandom sponge pkSeedexpander).1
  let s := vectMul y h
  let s := vectAdd x s
  let pk := hqcPublicKeyToString pkSeed s
  return ((pk, hqcSecretKeyToString skSeed pk), prng)

/-- The vectors `r1`, `r2` and `e` that `theta` stands for. -/
def encryptionVectors (theta : Bytes) : Option (List UInt64 × List UInt64 × List UInt64) := do
  let seedexpander := seedexpanderInit sponge (theta.take seedBytes)
  let (r1, seedexpander) ← vectSetRandomFixedWeight sponge fuel seedexpander paramOmegaR
  let (r2, seedexpander) ← vectSetRandomFixedWeight sponge fuel seedexpander paramOmegaR
  let (e, _) ← vectSetRandomFixedWeight sponge fuel seedexpander paramOmegaE
  return (r1, r2, e)

/-- Returns `(u, v)`. -/
def hqcPkeEncrypt (m theta pk : Bytes) : Option (List UInt64 × List UInt64) := do
  let (h, s) := hqcPublicKeyFromString sponge pk
  let (r1, r2, e) ← encryptionVectors sponge fuel theta
  let u := vectMul r2 h
  let u := vectAdd r1 u
  let v := codeEncode rs m
  let tmp1 := vectResize zeroVector paramN v paramN1N2
  let tmp2 := vectMul r2 s
  let tmp2 := vectAdd e tmp2
  let tmp2 := vectAdd tmp1 tmp2
  let v := vectResize v paramN1N2 tmp2 paramN
  return (u, v)

def hqcPkeDecrypt (u v : List UInt64) (sk : Bytes) : Option Bytes := do
  let (_, y, _) ← hqcSecretKeyFromString sponge fuel sk
  let tmp1 := vectResize zeroVector paramN v paramN1N2
  let tmp2 := vectMul y u
  let tmp2 := vectAdd tmp1 tmp2
  return codeDecode rs tmp2

end Scheme

variable {a b c h x y s r1 r2 e u v : List UInt64} {m w : Bytes} {rs : ReedSolomon}

/-- A vector as a residue modulo `X ^ PARAM_N - 1`. -/
noncomputable def residue (v : List UInt64) : AdjoinRoot (X ^ paramN - 1 : (ZMod 2)[X]) :=
  cyclic paramN (ofWords v)

theorem IsVector.mul (ha : IsVector a) (hb : IsVector b) : IsVector (vectMul a b) := by
  obtain ⟨hlen, hlt, -⟩ := vectMul_spec a b ha.length hb.length ha.lt hb.lt
  exact ⟨hlen, hlt⟩

theorem IsVector.add (ha : IsVector a) (hb : IsVector b) : IsVector (vectAdd a b) where
  length := (length_vectAdd (ha.length.trans hb.length.symm)).trans hb.length
  lt := value_vectAdd_lt (ha.length.trans hb.length.symm) ha.lt hb.lt

theorem residue_vectMul (ha : IsVector a) (hb : IsVector b) :
    residue (vectMul a b) = residue a * residue b := by
  obtain ⟨-, -, hmul⟩ := vectMul_spec a b ha.length hb.length ha.lt hb.lt
  rw [residue, residue, residue, hmul, cyclic_modByMonic, map_mul]

theorem residue_vectAdd (ha : IsVector a) (hb : IsVector b) :
    residue (vectAdd a b) = residue a + residue b := by
  rw [residue, residue, residue, vectAdd, ofWords_zipWith_xor (ha.length.trans hb.length.symm),
    map_add]

theorem residue_injective (ha : IsVector a) (hb : IsVector b) (hsame : residue a = residue b) :
    a = b :=
  value_injective (ha.length.trans hb.length.symm)
    (cyclic_injective (by decide) ha.lt hb.lt hsame)

theorem residue_add_self (a : List UInt64) : residue a + residue a = 0 :=
  cyclic_add_self paramN (ofWords a)

/-- `vect_mul` and `vect_add` are the operations of a ring: the residues of polynomials over two
elements modulo `X ^ PARAM_N - 1`. -/
theorem vectMul_ring (ha : IsVector a) (hb : IsVector b) (hc : IsVector c) :
    IsVector (vectMul a b) ∧ residue (vectMul a b) = residue a * residue b ∧
      vectMul a b = vectMul b a ∧ vectMul a (vectMul b c) = vectMul (vectMul a b) c ∧
      vectMul a (vectAdd b c) = vectAdd (vectMul a b) (vectMul a c) := by
  refine ⟨ha.mul hb, residue_vectMul ha hb, ?_, ?_, ?_⟩
  · apply residue_injective (ha.mul hb) (hb.mul ha)
    rw [residue_vectMul ha hb, residue_vectMul hb ha, mul_comm]
  · apply residue_injective (ha.mul (hb.mul hc)) ((ha.mul hb).mul hc)
    rw [residue_vectMul ha (hb.mul hc), residue_vectMul hb hc, residue_vectMul (ha.mul hb) hc,
      residue_vectMul ha hb, mul_assoc]
  · apply residue_injective (ha.mul (hb.add hc)) ((ha.mul hb).add (ha.mul hc))
    rw [residue_vectMul ha (hb.add hc), residue_vectAdd hb hc,
      residue_vectAdd (ha.mul hb) (ha.mul hc), residue_vectMul ha hb, residue_vectMul ha hc,
      mul_add]

theorem vectMul_ring_low : let x := lowVector 3; let y := lowVector 66; let z := lowVector 75
    IsVector (vectMul x y) ∧ residue (vectMul x y) = residue x * residue y ∧
      vectMul x y = vectMul y x ∧ vectMul x (vectMul y z) = vectMul (vectMul x y) z ∧
      vectMul x (vectAdd y z) = vectAdd (vectMul x y) (vectMul x z) :=
  vectMul_ring (lowVector_isVector (by decide)) (lowVector_isVector (by decide))
    (lowVector_isVector (by decide))

/-- What is left of `v - u * y` beside the codeword. -/
def noise (x y r1 r2 e : List UInt64) : List UInt64 :=
  vectAdd e (vectAdd (vectMul r2 x) (vectMul y r1))

theorem IsVector.noise (hx : IsVector x) (hy : IsVector y) (hr1 : IsVector r1)
    (hr2 : IsVector r2) (he : IsVector e) : IsVector (noise x y r1 r2 e) :=
  he.add ((hr2.mul hx).add (hy.mul hr1))

/-- The two products that hide the message cancel. -/
theorem noise_identity (hx : IsVector x) (hy : IsVector y) (hh : IsVector h) (hr1 : IsVector r1)
    (hr2 : IsVector r2) (he : IsVector e) :
    vectAdd (vectMul y (vectAdd r1 (vectMul r2 h)))
      (vectAdd e (vectMul r2 (vectAdd x (vectMul y h)))) = noise x y r1 r2 e := by
  have hu := hr1.add (hr2.mul hh)
  have hs := hx.add (hy.mul hh)
  apply residue_injective ((hy.mul hu).add (he.add (hr2.mul hs))) (hx.noise hy hr1 hr2 he)
  rw [noise, residue_vectAdd (hy.mul hu) (he.add (hr2.mul hs)), residue_vectMul hy hu,
    residue_vectAdd hr1 (hr2.mul hh), residue_vectMul hr2 hh, residue_vectAdd he (hr2.mul hs),
    residue_vectMul hr2 hs, residue_vectAdd hx (hy.mul hh), residue_vectMul hy hh,
    residue_vectAdd he ((hr2.mul hx).add (hy.mul hr1)),
    residue_vectAdd (hr2.mul hx) (hy.mul hr1), residue_vectMul hr2 hx, residue_vectMul hy hr1]
  -- `r2 * y * h` comes once from `u * y` and once from `r2 * s`
  linear_combination residue r2 * residue h * residue_add_self y

theorem memcpyWords_whole (hv : IsVector v) :
    memcpyWords zeroVector (bytesOfWords vecNSizeBytes v) vecNSizeBytes = v := by
  have hN : paramN = 17669 := rfl
  have hV : vecNSize64 = 277 := rfl
  have hB : vecNSizeBytes = 2209 := rfl
  have hzero : zeroVector.length = vecNSize64 := List.length_replicate
  apply value_injective ((length_memcpyWords _ _ _).trans (hzero.trans hv.length.symm))
  apply Nat.eq_of_testBit_eq
  intro k
  rw [memcpyWords_bytesOfWords_testBit _ _ (by omega)]
  split
  · rfl
  · next hk =>
    have hout : (value v).testBit k = false :=
      Nat.testBit_lt_two_pow (hv.lt.trans_le (Nat.pow_le_pow_right (by omega) (by omega)))
    rw [hout, zeroVector, value_replicate_zero, Nat.zero_testBit]

variable {S : Type} {sponge : Sponge S} {fuel fuel' : ℕ} {prng prng' : S}
  {pk sk pkSeed theta : Bytes}

theorem length_hqcPublicKeyToString (hseed : pkSeed.length = seedBytes) (s : List UInt64) :
    (hqcPublicKeyToString pkSeed s).length = publicKeyBytes := by
  have hsum : seedBytes + vecNSizeBytes = publicKeyBytes := rfl
  rw [hqcPublicKeyToString, List.length_append, hseed, length_bytesOfWords, hsum]

theorem hqcPublicKey_roundTrip (hseed : pkSeed.length = seedBytes) (hs : IsVector s) :
    hqcPublicKeyFromString sponge (hqcPublicKeyToString pkSeed s) =
      ((vectSetRandom sponge (seedexpanderInit sponge pkSeed)).1, s) := by
  rw [hqcPublicKeyFromString, hqcPublicKeyToString, List.take_left' hseed, List.drop_left' hseed,
    memcpyWords_whole hs]

/-- Bytes of a word whose blocks are flipped too much for the inner code. -/
def noisyBlocks (e : List UInt64) : ℕ :=
  ((Finset.range vecN1SizeBytes).filter fun i => 96 ≤ blockWeight (value e).testBit i).card

theorem codeDecode_corrects (hrs : rs.Corrects m) {em : List UInt64}
    (hem : ∀ k < paramN1N2,
      (value em).testBit k = ((value (codeEncode rs m)).testBit k ^^ (value e).testBit k))
    (hnoise : noisyBlocks e ≤ paramDelta) : codeDecode rs em = m := by
  apply hrs (reedMullerDecode em) (by simp [reedMullerDecode])
  apply le_trans (Finset.card_le_card _) hnoise
  intro i hi
  rw [Finset.mem_filter] at hi ⊢
  refine ⟨hi.1, ?_⟩
  by_contra hsmall
  exact hi.2 (reedMullerDecode_corrects (rs.encode m) em _ hem (Finset.mem_range.mp hi.1)
    (Nat.not_le.mp hsmall))

/-- What was encrypted to `s = x + y * h` opens with `y`. -/
theorem decoded_testBit (hx : IsVector x) (hy : IsVector y) (hh : IsVector h) (hr1 : IsVector r1)
    (hr2 : IsVector r2) (he : IsVector e) (c : List UInt64) (hc : c.length = vecN1N2Size64) {k : ℕ}
    (hk : k < paramN1N2) :
    let s := vectAdd x (vectMul y h)
    let u := vectAdd r1 (vectMul r2 h)
    let v := vectResize c paramN1N2
      (vectAdd (vectResize zeroVector paramN c paramN1N2) (vectAdd e (vectMul r2 s))) paramN
    (value (vectAdd (vectResize zeroVector paramN v paramN1N2) (vectMul y u))).testBit k =
      ((value c).testBit k ^^ (value (noise x y r1 r2 e)).testBit k) := by
  intro s u v
  have hzero : zeroVector.length = vecNSize64 := List.length_replicate
  have hs := hx.add (hy.mul hh)
  have hu := hr1.add (hr2.mul hh)
  have hes := he.add (hr2.mul hs)
  have hyu := hy.mul hu
  have hup : ∀ c : List UInt64, (vectResize zeroVector paramN c paramN1N2).length = vecNSize64 :=
    fun c => (length_vectResize _ _ _ _).trans hzero
  have hsum := vectAdd_testBit (hyu.length.trans hes.length.symm) k
  rw [noise_identity hx hy hh hr1 hr2 he] at hsum
  rw [vectAdd_testBit ((hup v).trans hyu.length.symm), vectResize_up_testBit _ _ hzero, if_pos hk,
    vectResize_down_testBit _ _ hc, decide_eq_true hk, Bool.true_and,
    vectAdd_testBit ((hup c).trans hes.length.symm), vectResize_up_testBit _ _ hzero, if_pos hk,
    hsum, Bool.xor_assoc, Bool.xor_comm ((value (vectMul y u)).testBit k)]

/-- The pair of keys of a generation belongs to the vectors `x`, `y` and `h`. -/
structure KeyPair (sponge : Sponge S) (fuel : ℕ) (pk sk : Bytes) (x y h : List UInt64) : Prop where
  secret : hqcSecretKeyFromString sponge fuel sk = some (x, y, pk)
  isVectorX : IsVector x
  isVectorY : IsVector y
  isVectorH : IsVector h
  pk_eq : hqcPublicKeyFromString sponge pk = (h, vectAdd x (vectMul y h))

theorem hqcSecretKeyFromString_mono {r : List UInt64 × List UInt64 × Bytes}
    (hparse : hqcSecretKeyFromString sponge fuel sk = some r) (hle : fuel ≤ fuel') :
    hqcSecretKeyFromString sponge fuel' sk = some r := by
  simp only [hqcSecretKeyFromString, Option.bind_eq_bind, Option.bind_eq_some_iff] at hparse ⊢
  obtain ⟨drawn, hx, drawn', hy, heq⟩ := hparse
  exact ⟨drawn, vectSetRandomFixedWeight_mono hx hle, drawn',
    vectSetRandomFixedWeight_mono hy hle, heq⟩

theorem KeyPair.mono (hkey : KeyPair sponge fuel pk sk x y h) (hle : fuel ≤ fuel') :
    KeyPair sponge fuel' pk sk x y h :=
  ⟨hqcSecretKeyFromString_mono hkey.secret hle, hkey.isVectorX, hkey.isVectorY, hkey.isVectorH,
    hkey.pk_eq⟩

theorem hqcPkeKeygen_keyPair (hgen : hqcPkeKeygen sponge fuel prng = some ((pk, sk), prng')) :
    ∃ x y h, KeyPair sponge fuel pk sk x y h := by
  simp only [hqcPkeKeygen, Option.bind_eq_bind, Option.bind_eq_some_iff] at hgen
  obtain ⟨⟨x, ctx⟩, hx, ⟨y, ctx'⟩, hy, heq⟩ := hgen
  have hxv := (vectSetRandomFixedWeight_spec hx).1
  have hyv := (vectSetRandomFixedWeight_spec hy).1
  have hhv : IsVector (vectSetRandom sponge (seedexpanderInit sponge
      (sponge.squeeze (sponge.squeeze prng seedBytes).2 seedBytes).1)).1 :=
    vectSetRandom_isVector _
  cases heq
  refine ⟨x, y, _, ?_, hxv, hyv, hhv, ?_⟩
  · simp only [hqcSecretKeyFromString, Option.bind_eq_bind, Option.bind_eq_some_iff]
    refine ⟨(x, ctx), ?_, (y, ctx'), hy, ?_⟩
    · rw [hqcSecretKeyToString, List.take_left' (sponge.length_squeeze _ _)]
      exact hx
    · rw [hqcSecretKeyToString, List.drop_left' (sponge.length_squeeze _ _),
        List.take_of_length_le (length_hqcPublicKeyToString (sponge.length_squeeze _ _) _).le]
      rfl
  · exact hqcPublicKey_roundTrip (sponge.length_squeeze _ _) (hxv.add (hyv.mul hhv))

theorem KeyPair.pk_of_sk (hkey : KeyPair sponge fuel pk sk x y h) :
    (sk.drop seedBytes).take publicKeyBytes = pk := by
  have hsecret := hkey.secret
  simp only [hqcSecretKeyFromString, Option.bind_eq_bind, Option.bind_eq_some_iff] at hsecret
  obtain ⟨_, -, _, -, heq⟩ := hsecret
  cases heq
  rfl

theorem hqcPkeKeygen_length (hgen : hqcPkeKeygen sponge fuel prng = some ((pk, sk), prng')) :
    pk.length = publicKeyBytes ∧ sk.length = seedBytes + publicKeyBytes := by
  simp only [hqcPkeKeygen, Option.bind_eq_bind, Option.bind_eq_some_iff] at hgen
  obtain ⟨_, -, _, -, heq⟩ := hgen
  have hpk := length_hqcPublicKeyToString
    (sponge.length_squeeze (sponge.squeeze prng seedBytes).2 seedBytes)
  cases heq
  refine ⟨hpk _, ?_⟩
  rw [hqcSecretKeyToString, List.length_append, hpk, sponge.length_squeeze]

theorem encryptionVectors_mono {r : List UInt64 × List UInt64 × List UInt64}
    (hdraw : encryptionVectors sponge fuel theta = some r) (hle : fuel ≤ fuel') :
    encryptionVectors sponge fuel' theta = some r := by
  simp only [encryptionVectors, Option.bind_eq_bind, Option.bind_eq_some_iff] at hdraw ⊢
  obtain ⟨⟨r1, ctx1⟩, h1, ⟨r2, ctx2⟩, h2, ⟨e, ctx3⟩, h3, heq⟩ := hdraw
  exact ⟨(r1, ctx1), vectSetRandomFixedWeight_mono h1 hle, (r2, ctx2),
    vectSetRandomFixedWeight_mono h2 hle, (e, ctx3), vectSetRandomFixedWeight_mono h3 hle, heq⟩

theorem encryptionVectors_isVector
    (hdraw : encryptionVectors sponge fuel theta = some (r1, r2, e)) :
    IsVector r1 ∧ IsVector r2 ∧ IsVector e := by
  simp only [encryptionVectors, Option.bind_eq_bind, Option.bind_eq_some_iff] at hdraw
  obtain ⟨⟨r1', ctx1⟩, h1, ⟨r2', ctx2⟩, h2, ⟨e', ctx3⟩, h3, heq⟩ := hdraw
  cases heq
  exact ⟨(vectSetRandomFixedWeight_spec h1).1, (vectSetRandomFixedWeight_spec h2).1,
    (vectSetRandomFixedWeight_spec h3).1⟩

theorem hqcPkeEncrypt_mono {r : List UInt64 × List UInt64}
    (henc : hqcPkeEncrypt sponge rs fuel m theta pk = some r) (hle : fuel ≤ fuel') :
    hqcPkeEncrypt sponge rs fuel' m theta pk = some r := by
  simp only [hqcPkeEncrypt, Option.bind_eq_bind, Option.bind_eq_some_iff] at henc ⊢
  obtain ⟨drawn, hdraw, heq⟩ := henc
  exact ⟨drawn, encryptionVectors_mono hdraw hle, heq⟩

theorem hqcPkeDecrypt_mono (hdec : hqcPkeDecrypt sponge rs fuel u v sk = some m)
    (hle : fuel ≤ fuel') : hqcPkeDecrypt sponge rs fuel' u v sk = some m := by
  simp only [hqcPkeDecrypt, Option.bind_eq_bind, Option.bind_eq_some_iff] at hdec ⊢
  obtain ⟨parsed, hparse, heq⟩ := hdec
  exact ⟨parsed, hqcSecretKeyFromString_mono hparse hle, heq⟩

/-- The noise that decryption with `sk` meets in an encryption under `theta`. -/
def pkeNoise (sponge : Sponge S) (fuel : ℕ) (sk theta : Bytes) : Option (List UInt64) := do
  let (x, y, _) ← hqcSecretKeyFromString sponge fuel sk
  let (r1, r2, e) ← encryptionVectors sponge fuel theta
  return noise x y r1 r2 e

theorem pkeNoise_mono (h : pkeNoise sponge fuel sk theta = some e) (hle : fuel ≤ fuel') :
    pkeNoise sponge fuel' sk theta = some e := by
  simp only [pkeNoise, Option.bind_eq_bind, Option.bind_eq_some_iff] at h ⊢
  obtain ⟨parsed, hparse, drawn, hdraw, heq⟩ := h
  exact ⟨parsed, hqcSecretKeyFromString_mono hparse hle, drawn, encryptionVectors_mono hdraw hle,
    heq⟩

/-- Noise on the lowest positions falls on the first block. -/
theorem noisyBlocks_of_short {k : ℕ} (h : value e < 2 ^ k) (hk : k ≤ 384) : noisyBlocks e ≤ 1 := by
  have hsubset : (Finset.range vecN1SizeBytes).filter
      (fun i => 96 ≤ blockWeight (value e).testBit i) ⊆ {0} := by
    intro i hi
    rw [Finset.mem_filter] at hi
    rw [Finset.mem_singleton]
    by_contra hne
    have hzero : blockWeight (value e).testBit i = 0 := by
      rw [blockWeight, Finset.card_eq_zero, Finset.filter_eq_empty_iff]
      intro p _
      rw [Nat.testBit_lt_two_pow (h.trans_le (Nat.pow_le_pow_right (by omega) (by omega)))]
      exact Bool.false_ne_true
    omega
  exact Finset.card_le_card hsubset

theorem noise_short (hx : IsVector x) (hy : IsVector y) (hr1 : IsVector r1) (hr2 : IsVector r2)
    (he : IsVector e) {k : ℕ} (hk : k + k ≤ paramN)
    (hlt : ∀ v ∈ [x, y, r1, r2, e], value v < 2 ^ k) : value (noise x y r1 r2 e) < 2 ^ (k + k) := by
  have hrx := vectMul_short hr2.length hx.length (hlt r2 (by simp)) (hlt x (by simp)) hk
  have hyr := vectMul_short hy.length hr1.length (hlt y (by simp)) (hlt r1 (by simp)) hk
  have hsum := value_vectAdd_lt ((hr2.mul hx).length.trans (hy.mul hr1).length.symm) hrx hyr
  have he' := (hlt e (by simp)).trans_le (Nat.pow_le_pow_right (by omega) (show k ≤ k + k by omega))
  exact value_vectAdd_lt (he.length.trans ((hr2.mul hx).add (hy.mul hr1)).length.symm) he' hsum

/-- Decryption undoes encryption when the code corrects the noise. -/
theorem KeyPair.decrypt_encrypt (hkey : KeyPair sponge fuel pk sk x y h) (hrs : rs.Corrects m)
    (henc : hqcPkeEncrypt sponge rs fuel m theta pk = some (u, v))
    (hnoise : ∀ e ∈ pkeNoise sponge fuel sk theta, noisyBlocks e ≤ paramDelta) :
    hqcPkeDecrypt sponge rs fuel u v sk = some m ∧ IsVector u ∧ v.length = vecN1N2Size64 := by
  simp only [hqcPkeEncrypt, hkey.pk_eq, Option.bind_eq_bind, Option.bind_eq_some_iff] at henc
  obtain ⟨⟨r1, r2, e⟩, hdraw, heq⟩ := henc
  obtain ⟨hr1, hr2, he⟩ := encryptionVectors_isVector hdraw
  have hcorrectable := hnoise (noise x y r1 r2 e) (by
    rw [pkeNoise, hkey.secret, hdraw]
    rfl)
  have hlen : (codeEncode rs m).length = vecN1N2Size64 := length_reedMullerEncode _
  have hbits := fun k (hk : k < paramN1N2) => decoded_testBit hkey.isVectorX hkey.isVectorY
    hkey.isVectorH hr1 hr2 he (codeEncode rs m) hlen hk
  cases heq
  refine ⟨?_, hr1.add (hr2.mul hkey.isVectorH), (length_vectResize _ _ _ _).trans hlen⟩
  rw [hqcPkeDecrypt, hkey.secret]
  exact congrArg some (codeDecode_corrects hrs hbits hcorrectable)

end PqcContiki

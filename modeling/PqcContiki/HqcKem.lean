import PqcContiki.HqcPke
import PqcContiki.KeyDistribution
import PqcContiki.SecretLifetimes

/-! The KEM of `kem.c`, and the bytes of its ciphertexts. -/
namespace PqcContiki

open BitPolynomial

abbrev gFctDomain : UInt8 := 3
abbrev hFctDomain : UInt8 := 4
abbrev kFctDomain : UInt8 := 5
abbrev shake256512Bytes : ℕ := 64

/-- The array that a call writes byte by byte. -/
def Buffer.ofBytes (n : ℕ) (b : Bytes) : Buffer n := ⟨fun i => byteAt b i⟩

/-- The mask of `crypto_kem_dec`: all ones unless the comparisons gave 0. -/
def resultMask (result : UInt8) : UInt8 := ((-result.toUInt32.toInt32) >>> 15).toUInt32.toUInt8

section Scheme

variable {S : Type} (sponge : Sponge S) (rs : ReedSolomon) (fuel : ℕ)

def shake256512Ds (input : Bytes) (domain : UInt8) : Bytes :=
  (sponge.squeeze (sponge.finalized (input ++ [domain])) shake256512Bytes).1

def hqcCiphertextToString (u v : List UInt64) (d : Bytes) : Bytes :=
  bytesOfWords vecNSizeBytes u ++ bytesOfWords vecN1N2SizeBytes v ++ d

/-- Returns `(u, v, d)`. -/
def hqcCiphertextFromString (ct : Bytes) : List UInt64 × List UInt64 × Bytes :=
  (memcpyWords zeroVector (ct.take vecNSizeBytes) vecNSizeBytes,
    memcpyWords (List.replicate vecN1N2Size64 0)
      ((ct.drop vecNSizeBytes).take vecN1N2SizeBytes) vecN1N2SizeBytes,
    (ct.drop (vecNSizeBytes + vecN1N2SizeBytes)).take shake256512Bytes)

def cryptoKemKeypair (prng : S) : Option ((ℤ × PublicKey × SecretKey) × S) := do
  let ((pk, sk), prng) ← hqcPkeKeygen sponge fuel prng
  return ((0, Buffer.ofBytes _ pk, Buffer.ofBytes _ sk), prng)

/-- The shared secret is hashed over the message and the two vectors of the ciphertext. -/
def kemSecret (m : Bytes) (u v : List UInt64) : SharedSecret :=
  let mc := m ++ bytesOfWords vecNSizeBytes u ++ bytesOfWords vecN1N2SizeBytes v
  Buffer.ofBytes _ (shake256512Ds sponge mc kFctDomain)

/-- `crypto_kem_enc` once it has drawn `m`. -/
def encapsulateMessage (m pk : Bytes) : Option (Ciphertext × SharedSecret) := do
  let theta := shake256512Ds sponge m gFctDomain
  let (u, v) ← hqcPkeEncrypt sponge rs fuel m theta pk
  let d := shake256512Ds sponge m hFctDomain
  return (Buffer.ofBytes _ (hqcCiphertextToString u v d), kemSecret sponge m u v)

def cryptoKemEnc (prng : S) (pk : PublicKey) : Option ((ℤ × Ciphertext × SharedSecret) × S) := do
  let (m, prng) := sponge.squeeze prng vecKSizeBytes
  let (ct, ss) ← encapsulateMessage sponge rs fuel m pk.toList
  return ((0, ct, ss), prng)

def cryptoKemDec (sk : SecretKey) (ct : Ciphertext) : Option (ℤ × SharedSecret) := do
  let (u, v, d) := hqcCiphertextFromString ct.toList
  let pk := (sk.toList.drop seedBytes).take publicKeyBytes
  let m ← hqcPkeDecrypt sponge rs fuel u v sk.toList
  let theta := shake256512Ds sponge m gFctDomain
  let (u2, v2) ← hqcPkeEncrypt sponge rs fuel m theta pk
  let d2 := shake256512Ds sponge m hFctDomain
  let ss := kemSecret sponge m u v
  let result := vectCompare (bytesOfWords vecNSizeBytes u) (bytesOfWords vecNSizeBytes u2)
    vecNSizeBytes
  let result := result ||| vectCompare (bytesOfWords vecN1N2SizeBytes v)
    (bytesOfWords vecN1N2SizeBytes v2) vecN1N2SizeBytes
  let result := result ||| vectCompare d d2 shake256512Bytes
  let result := resultMask result
  return (-((result &&& 1).toNat : ℤ), ⟨fun i => ss.get i &&& ~~~result⟩)

end Scheme

variable {b1 b2 b : Bytes} {o u u2 v v2 : List UInt64} {n : ℕ}

theorem bytes_ext_bits (h1 : b1.length = n) (h2 : b2.length = n)
    (h : ∀ k < 8 * n, bitOf b1 k = bitOf b2 k) : b1 = b2 := by
  rw [bytes_ext h1 h2]
  intro i hi
  apply UInt8.toNat_inj.mp
  apply Nat.eq_of_testBit_eq
  intro j
  by_cases hj : j < 8
  · have hdiv : (8 * i + j) / 8 = i := by omega
    have hmod : (8 * i + j) % 8 = j := by omega
    have hbit := h (8 * i + j) (by omega)
    rwa [bitOf, bitOf, hdiv, hmod] at hbit
  · have hout : ∀ x : UInt8, x.toNat.testBit j = false := fun x =>
      Nat.testBit_lt_two_pow (x.toNat_lt.trans_le (Nat.pow_le_pow_right (by omega) (by omega)))
    rw [hout, hout]

/-- What was copied into an array comes out of it. -/
theorem bytesOfWords_memcpyWords (o : List UInt64) (hb : b.length = n) (hn : n ≤ 8 * o.length) :
    bytesOfWords n (memcpyWords o b n) = b := by
  apply bytes_ext_bits (length_bytesOfWords _ _) hb
  intro k hk
  rw [bitOf_bytesOfWords _ hk, memcpyWords_testBit o hb hn, if_pos hk]

theorem memcpyWords_full (hv : v.length = vecN1N2Size64) :
    memcpyWords (List.replicate vecN1N2Size64 0) (bytesOfWords vecN1N2SizeBytes v)
      vecN1N2SizeBytes = v := by
  have hV : vecN1N2Size64 = 276 := rfl
  have hB : vecN1N2SizeBytes = 2208 := rfl
  have hzero : (List.replicate vecN1N2Size64 (0 : UInt64)).length = vecN1N2Size64 :=
    List.length_replicate
  apply value_injective ((length_memcpyWords _ _ _).trans (hzero.trans hv.symm))
  apply Nat.eq_of_testBit_eq
  intro k
  rw [memcpyWords_bytesOfWords_testBit _ _ (by omega)]
  split
  · rfl
  · rw [value_testBit_out (by omega), value_testBit_out (by omega)]

theorem Buffer.toList_ofBytes (hb : b.length = n) : (Buffer.ofBytes n b).toList = b := by
  rw [bytes_ext (Buffer.length_toList _) hb]
  intro i hi
  exact Buffer.getD_toList (Buffer.ofBytes n b) ⟨i, hi⟩

theorem Buffer.ofBytes_injective (h1 : b1.length = n) (h2 : b2.length = n) :
    Buffer.ofBytes n b1 = Buffer.ofBytes n b2 ↔ b1 = b2 := by
  constructor
  · intro h
    rw [← Buffer.toList_ofBytes h1, h, Buffer.toList_ofBytes h2]
  · rintro rfl
    rfl

theorem Buffer.ofBytes_toList (buf : Buffer n) : Buffer.ofBytes n buf.toList = buf := by
  apply Buffer.ext
  funext i
  exact Buffer.getD_toList buf i

variable {S : Type} {sponge : Sponge S} {rs : ReedSolomon} {fuel fuel2 fuel' : ℕ} {d d2 m : Bytes}
  {r : ℤ} {pk : PublicKey} {sk : SecretKey} {ct : Ciphertext} {ss : SharedSecret}
  {prng prng' prng2 prng2' : S} {x y h : List UInt64}

theorem length_hqcCiphertextToString (u v : List UInt64) (hd : d.length = shake256512Bytes) :
    (hqcCiphertextToString u v d).length = cwHqcCiphertextLen := by
  have hsum : vecNSizeBytes + vecN1N2SizeBytes + shake256512Bytes = cwHqcCiphertextLen := rfl
  rw [hqcCiphertextToString, List.length_append, List.length_append, length_bytesOfWords,
    length_bytesOfWords, hd, hsum]

theorem length_shake256512Ds (sponge : Sponge S) (input : Bytes) (domain : UInt8) :
    (shake256512Ds sponge input domain).length = shake256512Bytes :=
  sponge.length_squeeze _ _

theorem hqcCiphertext_roundTrip (hu : IsVector u) (hv : v.length = vecN1N2Size64)
    (hd : d.length = shake256512Bytes) :
    hqcCiphertextFromString (hqcCiphertextToString u v d) = (u, v, d) := by
  have hulen := length_bytesOfWords vecNSizeBytes u
  have hvlen := length_bytesOfWords vecN1N2SizeBytes v
  have huv : (bytesOfWords vecNSizeBytes u ++ bytesOfWords vecN1N2SizeBytes v).length =
      vecNSizeBytes + vecN1N2SizeBytes := by
    rw [List.length_append, hulen, hvlen]
  rw [hqcCiphertextFromString, hqcCiphertextToString, List.drop_left' huv, List.append_assoc,
    List.take_left' hulen, List.drop_left' hulen, List.take_left' hvlen, memcpyWords_whole hu,
    memcpyWords_full hv, List.take_of_length_le hd.le]

/-- The parts of a ciphertext are equal to those of another one when the strings are. -/
theorem hqcCiphertext_parts (ct : Ciphertext) (u2 v2 : List UInt64)
    (hd2 : d2.length = shake256512Bytes) :
    let parts := hqcCiphertextFromString ct.toList
    (bytesOfWords vecNSizeBytes parts.1 = bytesOfWords vecNSizeBytes u2 ∧
      bytesOfWords vecN1N2SizeBytes parts.2.1 = bytesOfWords vecN1N2SizeBytes v2 ∧
        parts.2.2 = d2) ↔ ct = Buffer.ofBytes _ (hqcCiphertextToString u2 v2 d2) := by
  have hlen : ct.toList.length = 4481 := Buffer.length_toList ct
  have hu : (ct.toList.take vecNSizeBytes).length = vecNSizeBytes := by
    rw [List.length_take, hlen]
    rfl
  have hv : ((ct.toList.drop vecNSizeBytes).take vecN1N2SizeBytes).length = vecN1N2SizeBytes := by
    rw [List.length_take, List.length_drop, hlen]
    rfl
  have hd : ((ct.toList.drop (vecNSizeBytes + vecN1N2SizeBytes)).take shake256512Bytes).length =
      shake256512Bytes := by
    rw [List.length_take, List.length_drop, hlen]
    rfl
  have hlast : (ct.toList.drop (vecNSizeBytes + vecN1N2SizeBytes)).take shake256512Bytes =
      ct.toList.drop (vecNSizeBytes + vecN1N2SizeBytes) := by
    apply List.take_of_length_le
    rw [List.length_drop, hlen]
    decide
  have hzero : zeroVector.length = vecNSize64 := List.length_replicate
  have hsplit : ct.toList = ct.toList.take vecNSizeBytes ++
      (ct.toList.drop vecNSizeBytes).take vecN1N2SizeBytes ++
        (ct.toList.drop (vecNSizeBytes + vecN1N2SizeBytes)).take shake256512Bytes := by
    rw [hlast, List.append_assoc, ← List.drop_drop, List.take_append_drop, List.take_append_drop]
  have hwhole : ct = Buffer.ofBytes _ (hqcCiphertextToString u2 v2 d2) ↔
      ct.toList = hqcCiphertextToString u2 v2 d2 := by
    rw [← Buffer.ofBytes_injective (Buffer.length_toList ct) (length_hqcCiphertextToString _ _ hd2),
      Buffer.ofBytes_toList]
  have hu' := bytesOfWords_memcpyWords zeroVector hu (by rw [hzero]; decide)
  have hv' := bytesOfWords_memcpyWords (List.replicate vecN1N2Size64 0) hv
    (by rw [List.length_replicate]; decide)
  simp only [hqcCiphertextFromString]
  rw [hwhole, hu', hv', hqcCiphertextToString]
  constructor
  · rintro ⟨h1, h2, h3⟩
    rw [hsplit, h1, h2]
    exact congrArg _ h3
  · intro h
    rw [hsplit] at h
    obtain ⟨h12, h3⟩ := List.append_inj' h (hd.trans hd2.symm)
    obtain ⟨h1, h2⟩ := List.append_inj' h12 (hv.trans (length_bytesOfWords _ _).symm)
    exact ⟨h1, h2, h3⟩

end PqcContiki

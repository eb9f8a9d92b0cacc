import PqcContiki.AesInverse

/-!
Counter mode: the one buffer and the counter that is incremented in place produce the blocks of
all counters in turn.
-/
namespace PqcContiki

open AesState

variable {state : AesState} {roundKey : Bytes} {round : ℕ} {x y : UInt8}

open BitPolynomial

variable {iv iv' front back buf buffer : Bytes} {n bi : ℕ}

/-- The number a counter block stands for, its first byte the most significant. -/
def blockValue (iv : Bytes) : ℕ := iv.foldl (fun n b => n * 256 + b.toNat) 0

theorem blockValue_concat (b : UInt8) :
    blockValue (iv ++ [b]) = blockValue iv * 256 + b.toNat := by
  simp [blockValue]

theorem blockValue_lt : blockValue iv < 256 ^ iv.length := by
  induction iv using List.reverseRecOn with
  | nil => simp [blockValue]
  | append_singleton iv b ih =>
    rw [blockValue_concat, List.length_append, List.length_singleton, pow_succ]
    have := b.toNat_lt
    omega

theorem incrementIv_append (hn : n ≤ front.length) :
    incrementIv n (front ++ back) = incrementIv n front ++ back := by
  induction n generalizing front with
  | zero => rfl
  | succ n ih =>
    have hbyte : byteAt (front ++ back) n = byteAt front n := by
      simp [byteAt, List.getElem?_append_left (show n < front.length by omega)]
    simp only [incrementIv, hbyte]
    split
    · rw [List.set_append_left n 0 (by omega), ih (by simp; omega)]
    · rw [List.set_append_left n _ (by omega)]

theorem incrementIv_concat (b : UInt8) :
    incrementIv (iv.length + 1) (iv ++ [b]) =
      if b = 255 then incrementIv iv.length iv ++ [0] else iv ++ [b + 1] := by
  have hbyte : byteAt (iv ++ [b]) iv.length = b := by
    simp [byteAt]
  have hset (c : UInt8) : (iv ++ [b]).set iv.length c = iv ++ [c] := by
    simp
  simp only [incrementIv, hbyte, hset]
  rw [incrementIv_append le_rfl]

/-- The carry runs through the whole block, and past the first byte it is lost. -/
theorem blockValue_incrementIv :
    blockValue (incrementIv iv.length iv) = (blockValue iv + 1) % 256 ^ iv.length := by
  induction iv using List.reverseRecOn with
  | nil => simp [incrementIv, blockValue]
  | append_singleton iv b ih =>
    rw [List.length_append, List.length_singleton, incrementIv_concat, blockValue_concat]
    have hlt : blockValue iv < 256 ^ iv.length := blockValue_lt
    split
    next hb =>
      have hbyte : b.toNat = 255 := by rw [hb]; rfl
      have hsum : blockValue iv * 256 + b.toNat + 1 = (blockValue iv + 1) * 256 := by omega
      rw [blockValue_concat, ih, hsum, pow_succ, Nat.mul_mod_mul_right]
      exact Nat.add_zero _
    next hb =>
      have hbyte : (b + 1).toNat = b.toNat + 1 := by
        have hne : b.toNat ≠ 255 := fun h => hb (UInt8.toNat_inj.mp h)
        have := b.toNat_lt
        rw [UInt8.toNat_add, show (1 : UInt8).toNat = 1 from rfl]
        omega
      rw [blockValue_concat, hbyte, Nat.mod_eq_of_lt]
      · omega
      · rw [pow_succ]
        have := (b + 1).toNat_lt
        omega

@[simp] theorem length_incrementIv : (incrementIv n iv).length = iv.length := by
  induction n generalizing iv with
  | zero => rfl
  | succ n ih =>
    simp only [incrementIv]
    split <;> simp [ih]

/-- The counter block after `n` increments. -/
def counterBlock (iv : Bytes) (n : ℕ) : Bytes := (incrementIv aesBlocklen)^[n] iv

@[simp] theorem length_counterBlock : (counterBlock iv n).length = iv.length := by
  induction n generalizing iv with
  | zero => rfl
  | succ n ih =>
    rw [counterBlock, Function.iterate_succ_apply', length_incrementIv]
    exact ih

theorem counterBlock_succ : counterBlock iv (n + 1) = counterBlock (incrementIv aesBlocklen iv) n :=
  Function.iterate_succ_apply _ n iv

theorem blockValue_counterBlock (hiv : iv.length = aesBlocklen) :
    blockValue (counterBlock iv n) = (blockValue iv + n) % 256 ^ aesBlocklen := by
  induction n with
  | zero =>
    have hlt : blockValue iv < 256 ^ iv.length := blockValue_lt
    rw [hiv] at hlt
    exact (Nat.mod_eq_of_lt hlt).symm
  | succ n ih =>
    have hlen : (counterBlock iv n).length = aesBlocklen := by rw [length_counterBlock, hiv]
    have hstep : blockValue (incrementIv (counterBlock iv n).length (counterBlock iv n)) = _ :=
      blockValue_incrementIv
    rw [hlen, ih, Nat.mod_add_mod, Nat.add_assoc] at hstep
    rw [counterBlock, Function.iterate_succ_apply']
    exact hstep

/-- Byte `i` of the key stream when block `k` of it is the encrypted counter block `k`. -/
def counterStream (roundKey iv : Bytes) (i : ℕ) : UInt8 :=
  byteAt (cipher roundKey (ofBytes (counterBlock iv (i / aesBlocklen)))).toBytes (i % aesBlocklen)

theorem counterStream_zero : counterStream roundKey iv 0 =
    byteAt (cipher roundKey (ofBytes iv)).toBytes 0 := rfl

/-- What the loop still has to write from position `bi` of the current block on. -/
theorem aesCtrLoop_eq (ctx : AesCtx) (hbi : bi ≤ aesBlocklen) :
    (aesCtrLoop ctx buffer bi buf).2 = buf.mapIdx fun i b => b ^^^
      if bi + i < aesBlocklen then byteAt buffer (bi + i)
      else counterStream ctx.roundKey ctx.iv (bi + i - aesBlocklen) := by
  induction buf generalizing ctx buffer bi with
  | nil => rfl
  | cons b rest ih =>
    rw [List.mapIdx_cons, aesCtrLoop]
    split
    next hfull =>
      subst hfull
      have hnext (i : ℕ) : (if 1 + i < aesBlocklen then
          byteAt (cipher ctx.roundKey (ofBytes ctx.iv)).toBytes (1 + i)
        else counterStream ctx.roundKey (incrementIv aesBlocklen ctx.iv) (1 + i - aesBlocklen)) =
          counterStream ctx.roundKey ctx.iv (i + 1) := by
        split
        next hi =>
          rw [counterStream, Nat.div_eq_of_lt (by omega), Nat.mod_eq_of_lt (by omega), add_comm]
          rfl
        next hi =>
          obtain ⟨m, hm⟩ := Nat.exists_eq_add_of_le (not_lt.mp hi)
          have hpos : i + 1 = m + aesBlocklen := by omega
          rw [hm, Nat.add_sub_cancel_left, hpos, counterStream, counterStream,
            Nat.add_div_right _ (by decide), Nat.add_mod_right, counterBlock_succ]
      simp [ih, hnext, counterStream_zero]
    next hpart =>
      have hlt : bi < aesBlocklen := by omega
      simp [ih, hlt, show bi + 1 ≤ aesBlocklen by omega, Nat.add_assoc, Nat.add_comm 1]

/-- The stream that `AES_CTR_xcrypt_buffer` XORs onto its input. -/
def aesCtrKeystream (key : AesKey) (iv : AesIv) : ℕ → UInt8 :=
  counterStream (keyExpansion key.toList) iv.toList

/-- A platform whose AES is this one. -/
def Platform.withAes (P : Platform) : Platform :=
  { P with aesCtrKeystream := PqcContiki.aesCtrKeystream }

/-- The byte-by-byte loop with its carry is counter mode: byte `i` of the message meets byte
`i % 16` of the encryption of the block whose big-endian value is the IV's plus `i / 16`. -/
theorem aesCtrXcrypt_stream (P : Platform) (key : AesKey) (iv : AesIv) (buf : Bytes) :
    aesCtrXcrypt key iv buf = P.withAes.cryptoWorkerAesCtrXcrypt key iv buf ∧
      ∀ i, aesCtrKeystream key iv i = byteAt (cipher (keyExpansion key.toList)
          (ofBytes (counterBlock iv.toList (i / aesBlocklen)))).toBytes (i % aesBlocklen) ∧
        (counterBlock iv.toList (i / aesBlocklen)).length = aesBlocklen ∧
        blockValue (counterBlock iv.toList (i / aesBlocklen)) =
          (blockValue iv.toList + i / aesBlocklen) % 2 ^ 128 := by
  have hiv : iv.toList.length = aesBlocklen := iv.length_toList
  refine ⟨?_, fun i => ⟨rfl, by rw [length_counterBlock, hiv], ?_⟩⟩
  · rw [aesCtrXcrypt, Platform.cryptoWorkerAesCtrXcrypt]
    split
    next hempty => simp [List.length_eq_zero_iff.mp hempty]
    next =>
      rw [aesCtrXcryptBuffer, aesCtrLoop_eq _ le_rfl]
      have htake : iv.toList.take aesBlocklen = iv.toList := List.take_of_length_le hiv.le
      have hpos (i : ℕ) : ¬ aesBlocklen + i < aesBlocklen := by omega
      simp only [aesInitCtxIv, Platform.withAes, aesCtrKeystream, htake, if_neg (hpos _),
        Nat.add_sub_cancel_left]
  · rw [blockValue_counterBlock hiv]
    rfl

theorem ofBytes_injective (hlen : iv.length = aesBlocklen) (hlen' : iv'.length = aesBlocklen)
    (hsame : ofBytes iv = ofBytes iv') : iv = iv' := by
  have hB : aesBlocklen = 16 := rfl
  apply List.ext_getElem (hlen.trans hlen'.symm)
  intro k hk hk'
  have hentry := congrArg (fun state => entry state (Fin.ofNat 4 (k / 4)) (Fin.ofNat 4 k)) hsame
  have hpos : k / 4 % 4 * 4 + k % 4 = k := by omega
  simp only [ofBytes, entry_ofEntries, Fin.val_ofNat, hpos] at hentry
  simpa [byteAt, hk, hk'] using hentry

theorem toBytes_injective : Function.Injective toBytes := by
  intro state state' hsame
  apply ext_entry
  intro i j
  have hB : aesBlocklen = 16 := rfl
  have hbyte := congrFun (List.ofFn_injective hsame) ⟨4 * i + j, by omega⟩
  have hcolumn : Fin.ofNat 4 ((4 * i.val + j.val) / 4) = i := by
    apply Fin.ext
    simp only [Fin.val_ofNat]
    omega
  have hrow : Fin.ofNat 4 (4 * i.val + j.val) = j := by
    apply Fin.ext
    simp only [Fin.val_ofNat]
    omega
  rwa [hcolumn, hrow] at hbyte

/-- Two blocks of one message, less than `2 ^ 128` blocks apart, never meet the same 16 bytes of
stream. -/
theorem aesCtrKeystream_blocks (key : AesKey) (iv : AesIv) (m n : ℕ) (hmn : m < n)
    (hnear : n < m + 2 ^ 128) :
    ∃ i < aesBlocklen, aesCtrKeystream key iv (m * aesBlocklen + i) ≠
      aesCtrKeystream key iv (n * aesBlocklen + i) := by
  by_contra hsame
  push Not at hsame
  have hB : aesBlocklen = 16 := rfl
  have hiv : iv.toList.length = aesBlocklen := iv.length_toList
  have hbytes : (cipher (keyExpansion key.toList) (ofBytes (counterBlock iv.toList m))).toBytes =
      (cipher (keyExpansion key.toList) (ofBytes (counterBlock iv.toList n))).toBytes := by
    apply List.ext_getElem (by simp [toBytes])
    intro i hi hi'
    have hlt : i < aesBlocklen := by simpa [toBytes] using hi
    have hbyte := hsame i hlt
    have hdiv (k : ℕ) : (k * aesBlocklen + i) / aesBlocklen = k := by
      rw [hB]
      omega
    have hmod (k : ℕ) : (k * aesBlocklen + i) % aesBlocklen = i := by
      rw [hB]
      omega
    simp only [aesCtrKeystream, counterStream, hdiv, hmod] at hbyte
    simpa [byteAt, hi, hi'] using hbyte
  have hstate := (invCipher_leftInverse _).injective (toBytes_injective hbytes)
  have hblock := congrArg blockValue (ofBytes_injective (by rw [length_counterBlock, hiv])
    (by rw [length_counterBlock, hiv]) hstate)
  rw [blockValue_counterBlock hiv, blockValue_counterBlock hiv] at hblock
  have hpow : 256 ^ aesBlocklen = 2 ^ 128 := by decide
  rw [hpow] at hblock
  omega

theorem aesCtrKeystream_blocks_zero : 0 < 1 ∧ 1 < 0 + 2 ^ 128 ∧ ∃ i < aesBlocklen,
    aesCtrKeystream (Buffer.zero cwAesKeyLen) (Buffer.zero cwAesIvLen) (0 * aesBlocklen + i) ≠
      aesCtrKeystream (Buffer.zero cwAesKeyLen) (Buffer.zero cwAesIvLen) (1 * aesBlocklen + i) :=
  ⟨by decide, by decide, aesCtrKeystream_blocks _ _ 0 1 (by decide) (by decide)⟩

end PqcContiki

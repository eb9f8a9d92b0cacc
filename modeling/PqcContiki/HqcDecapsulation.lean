import PqcContiki.HqcKem

/-!
Decapsulation decrypts, encapsulates the message again and compares, so it returns either the
secret of that encapsulation or zeros.
-/
namespace PqcContiki

open BitPolynomial

variable {b1 b2 b : Bytes} {o u u2 v v2 : List UInt64} {n : ℕ}

variable {S : Type} {sponge : Sponge S} {rs : ReedSolomon} {fuel fuel2 fuel' : ℕ} {d d2 m : Bytes}
  {r : ℤ} {pk : PublicKey} {sk : SecretKey} {ct : Ciphertext} {ss : SharedSecret}
  {prng prng' prng2 prng2' : S} {x y h : List UInt64}

theorem resultMask_eq (p1 p2 p3 : Prop) [Decidable p1] [Decidable p2] [Decidable p3] :
    resultMask ((if p1 then 0 else 1) ||| (if p2 then 0 else 1) ||| (if p3 then 0 else 1)) =
      if p1 ∧ p2 ∧ p3 then 0 else 255 := by
  by_cases h1 : p1 <;> by_cases h2 : p2 <;> by_cases h3 : p3 <;> simp only [h1, h2, h3] <;> rfl

/-- Decapsulation decrypts and encapsulates the message again: it accepts exactly the ciphertext
that comes out, and otherwise returns -1 and zeros. -/
theorem cryptoKemDec_eq (sponge : Sponge S) (rs : ReedSolomon) (fuel : ℕ) (sk : SecretKey)
    (ct : Ciphertext) : cryptoKemDec sponge rs fuel sk ct = (do
      let (u, v, _) := hqcCiphertextFromString ct.toList
      let m ← hqcPkeDecrypt sponge rs fuel u v sk.toList
      let (ct', ss) ← encapsulateMessage sponge rs fuel m
        ((sk.toList.drop seedBytes).take publicKeyBytes)
      return if ct = ct' then (0, ss) else (-1, Buffer.zero _)) := by
  have hparts := fun u2 v2 m =>
    hqcCiphertext_parts ct u2 v2 (length_shake256512Ds sponge m hFctDomain)
  have hd : (hqcCiphertextFromString ct.toList).2.2.length = shake256512Bytes := by
    simp only [hqcCiphertextFromString, List.length_take, List.length_drop, Buffer.length_toList]
    rfl
  rw [cryptoKemDec]
  generalize hqcCiphertextFromString ct.toList = parts at hparts hd ⊢
  obtain ⟨u, v, d⟩ := parts
  dsimp only at hparts hd ⊢
  cases hqcPkeDecrypt sponge rs fuel u v sk.toList with
  | none => rfl
  | some m =>
    simp only [encapsulateMessage, Option.bind_eq_bind, Option.bind_some]
    cases hqcPkeEncrypt sponge rs fuel m (shake256512Ds sponge m gFctDomain)
      ((sk.toList.drop seedBytes).take publicKeyBytes) with
    | none => rfl
    | some r =>
      obtain ⟨u2, v2⟩ := r
      have hmask := resultMask_eq (bytesOfWords vecNSizeBytes u = bytesOfWords vecNSizeBytes u2)
        (bytesOfWords vecN1N2SizeBytes v = bytesOfWords vecN1N2SizeBytes v2)
        (d = shake256512Ds sponge m hFctDomain)
      have hcompare := vectCompare_eq hd (length_shake256512Ds sponge m hFctDomain)
      simp only [Option.bind_some, vectCompare_eq (length_bytesOfWords _ _)
        (length_bytesOfWords _ _), hcompare, hmask, hparts u2 v2 m]
      by_cases h : ct = Buffer.ofBytes cwHqcCiphertextLen
        (hqcCiphertextToString u2 v2 (shake256512Ds sponge m hFctDomain))
      · obtain ⟨hu, hv, -⟩ := (hparts u2 v2 m).mpr h
        have hsecret : kemSecret sponge m u v = kemSecret sponge m u2 v2 := by
          rw [kemSecret, kemSecret, hu, hv]
        have hkeep : ∀ x : UInt8, x &&& ~~~0 = x := by
          intro x
          simp
        simp only [if_pos h, hsecret, hkeep, Option.pure_def, Option.bind_some]
        rfl
      · have hclear : ∀ x : UInt8, x &&& ~~~255 = 0 := by
          intro x
          rw [show (~~~255 : UInt8) = 0 from rfl]
          simp
        simp only [if_neg h, hclear, Option.pure_def, Option.bind_some]
        rfl

/-- A failed decapsulation leaves no secret. -/
theorem cryptoKemDec_result (hdec : cryptoKemDec sponge rs fuel sk ct = some (r, ss)) :
    r = 0 ∨ r = -1 ∧ ss = Buffer.zero _ := by
  rw [cryptoKemDec_eq] at hdec
  simp only [Option.bind_eq_bind, Option.bind_eq_some_iff] at hdec
  obtain ⟨m, -, ⟨ct', ss'⟩, -, heq⟩ := hdec
  dsimp only at heq
  split at heq
  · cases heq
    exact .inl rfl
  · cases heq
    exact .inr ⟨rfl, rfl⟩

/-- `crypto_kem_dec` answers with 0 and the secret of the encapsulation exactly for the ciphertext
that its own message encapsulates to. -/
theorem cryptoKemDec_iff (sponge : Sponge S) (rs : ReedSolomon) (fuel : ℕ) (sk : SecretKey)
    (ct : Ciphertext) (r : ℤ) (ss : SharedSecret) :
    cryptoKemDec sponge rs fuel sk ct = some (r, ss) ↔
      ∃ m ct' ss', hqcPkeDecrypt sponge rs fuel (hqcCiphertextFromString ct.toList).1
          (hqcCiphertextFromString ct.toList).2.1 sk.toList = some m ∧
        encapsulateMessage sponge rs fuel m ((sk.toList.drop seedBytes).take publicKeyBytes) =
          some (ct', ss') ∧
        (ct = ct' ∧ r = 0 ∧ ss = ss' ∨ ct ≠ ct' ∧ r = -1 ∧ ss = Buffer.zero _) := by
  rw [cryptoKemDec_eq]
  simp only [Option.bind_eq_bind, Option.bind_eq_some_iff]
  constructor
  · rintro ⟨m, hm, ⟨ct', ss'⟩, henc, heq⟩
    refine ⟨m, ct', ss', hm, henc, ?_⟩
    dsimp only at heq
    split at heq
    · next hsame =>
      cases heq
      exact .inl ⟨hsame, rfl, rfl⟩
    · next hne =>
      cases heq
      exact .inr ⟨hne, rfl, rfl⟩
  · rintro ⟨m, ct', ss', hm, henc, hanswer⟩
    refine ⟨m, hm, (ct', ss'), henc, ?_⟩
    rcases hanswer with ⟨hsame, rfl, rfl⟩ | ⟨hne, rfl, rfl⟩
    · dsimp only
      rw [if_pos hsame]
      rfl
    · dsimp only
      rw [if_neg hne]
      rfl

theorem cryptoKemKeypair_keyPair
    (hgen : cryptoKemKeypair sponge fuel prng = some ((r, pk, sk), prng')) :
    ∃ x y h, KeyPair sponge fuel pk.toList sk.toList x y h := by
  simp only [cryptoKemKeypair, Option.bind_eq_bind, Option.bind_eq_some_iff] at hgen
  obtain ⟨⟨⟨pk', sk'⟩, prng1⟩, hgen, heq⟩ := hgen
  obtain ⟨hpk, hsk⟩ := hqcPkeKeygen_length hgen
  have hsk : sk'.length = cwHqcSecretKeyLen := hsk
  cases heq
  rw [Buffer.toList_ofBytes hpk, Buffer.toList_ofBytes hsk]
  exact hqcPkeKeygen_keyPair hgen

theorem encapsulateMessage_mono {r : Ciphertext × SharedSecret} {m pk : Bytes}
    (henc : encapsulateMessage sponge rs fuel m pk = some r) (hle : fuel ≤ fuel') :
    encapsulateMessage sponge rs fuel' m pk = some r := by
  simp only [encapsulateMessage, Option.bind_eq_bind, Option.bind_eq_some_iff] at henc ⊢
  obtain ⟨uv, henc, heq⟩ := henc
  exact ⟨uv, hqcPkeEncrypt_mono henc hle, heq⟩

/-- The noise in the ciphertext of `m` as the owner of `sk` meets it. -/
def kemNoise (sponge : Sponge S) (fuel : ℕ) (sk : SecretKey) (m : Bytes) : Option (List UInt64) :=
  pkeNoise sponge fuel sk.toList (shake256512Ds sponge m gFctDomain)

theorem KeyPair.decapsulate (hkey : KeyPair sponge fuel pk.toList sk.toList x y h)
    (henc : encapsulateMessage sponge rs fuel m pk.toList = some (ct, ss)) (hrs : rs.Corrects m)
    (hnoise : ∀ e ∈ kemNoise sponge fuel sk m, noisyBlocks e ≤ paramDelta) :
    cryptoKemDec sponge rs fuel sk ct = some (0, ss) := by
  have hagain := henc
  simp only [encapsulateMessage, Option.bind_eq_bind, Option.bind_eq_some_iff] at henc
  obtain ⟨⟨u, v⟩, hpke, heq⟩ := henc
  obtain ⟨hdecrypt, hu, hv⟩ := hkey.decrypt_encrypt hrs hpke hnoise
  have hd := length_shake256512Ds sponge m hFctDomain
  have hct : hqcCiphertextFromString ct.toList = (u, v, shake256512Ds sponge m hFctDomain) := by
    rw [← (Prod.mk.inj (Option.some.inj heq)).1,
      Buffer.toList_ofBytes (length_hqcCiphertextToString u v hd), hqcCiphertext_roundTrip hu hv hd]
  rw [cryptoKemDec_eq, hct, hkey.pk_of_sk]
  simp only [hdecrypt, hagain, Option.bind_eq_bind, Option.bind_some, if_true]
  rfl

theorem cryptoKemEnc_message
    (henc : cryptoKemEnc sponge rs fuel prng pk = some ((r, ct, ss), prng')) : r = 0 ∧
      encapsulateMessage sponge rs fuel (sponge.squeeze prng vecKSizeBytes).1 pk.toList =
        some (ct, ss) := by
  simp only [cryptoKemEnc, Option.bind_eq_bind, Option.bind_eq_some_iff] at henc
  obtain ⟨⟨ct', ss'⟩, henc, heq⟩ := henc
  cases heq
  exact ⟨rfl, henc⟩

/-- Decapsulation returns the secret of the encapsulation when the code corrects the noise. -/
theorem decapsulate_encapsulate (hle : fuel ≤ fuel') (hle' : fuel2 ≤ fuel')
    (hgen : cryptoKemKeypair sponge fuel prng = some ((0, pk, sk), prng'))
    (henc : cryptoKemEnc sponge rs fuel2 prng2 pk = some ((0, ct, ss), prng2'))
    (hrs : rs.Corrects (sponge.squeeze prng2 vecKSizeBytes).1)
    (hnoise : ∀ e ∈ kemNoise sponge fuel' sk (sponge.squeeze prng2 vecKSizeBytes).1,
      noisyBlocks e ≤ paramDelta) :
    cryptoKemDec sponge rs fuel' sk ct = some (0, ss) := by
  obtain ⟨x, y, h, hkey⟩ := cryptoKemKeypair_keyPair hgen
  obtain ⟨-, henc⟩ := cryptoKemEnc_message henc
  exact (hkey.mono hle).decapsulate (encapsulateMessage_mono henc hle') hrs hnoise

end PqcContiki

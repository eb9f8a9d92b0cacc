import PqcContiki.HqcDecapsulation

/-! The KEM as the platform of the handshake, and a generator on which it can be followed. -/
namespace PqcContiki

open BitPolynomial

variable {b1 b2 b : Bytes} {o u u2 v v2 : List UInt64} {n : ℕ}

variable {S : Type} {sponge : Sponge S} {rs : ReedSolomon} {fuel fuel2 fuel' : ℕ} {d d2 m : Bytes}
  {r : ℤ} {pk : PublicKey} {sk : SecretKey} {ct : Ciphertext} {ss : SharedSecret}
  {prng prng' prng2 prng2' : S} {x y h : List UInt64}

/-- The KEM of the platform is this code, and all its calls return. -/
structure RunsHqc (P : Platform) (sponge : Sponge S) (rs : ReedSolomon) (prngOf : Entropy → S) :
    Prop where
  keypair : ∀ rnd, ∃ fuel prng,
    cryptoKemKeypair sponge fuel (prngOf rnd) = some (P.cryptoKemKeypair rnd, prng)
  enc : ∀ rnd pk, ∃ fuel prng,
    cryptoKemEnc sponge rs fuel (prngOf rnd) pk = some (P.cryptoKemEnc rnd pk, prng)
  dec : ∀ sk ct, ∃ fuel, cryptoKemDec sponge rs fuel sk ct = some (P.cryptoKemDec sk ct)

variable {P : Platform} {prngOf : Entropy → S}

theorem cryptoKemDec_mono {r : ℤ × SharedSecret}
    (hdec : cryptoKemDec sponge rs fuel sk ct = some r) (hle : fuel ≤ fuel') :
    cryptoKemDec sponge rs fuel' sk ct = some r := by
  rw [cryptoKemDec_eq] at hdec ⊢
  simp only [Option.bind_eq_bind, Option.bind_eq_some_iff] at hdec ⊢
  obtain ⟨m, hm, ⟨ct', ss⟩, henc, heq⟩ := hdec
  exact ⟨m, hqcPkeDecrypt_mono hm hle, (ct', ss), encapsulateMessage_mono henc hle, heq⟩

/-- What the program relies on holds of a platform that runs this code: encapsulation never fails,
a decapsulation that fails leaves zeros, and it returns the secret that was encapsulated to its key
wherever the code corrects the noise. -/
theorem hqc_platform (hruns : RunsHqc P sponge rs prngOf) :
    P.Encapsulates ∧ P.MasksFailure ∧ ∀ rnd rnd',
      rs.Corrects (sponge.squeeze (prngOf rnd') vecKSizeBytes).1 →
      (∀ fuel, ∀ e ∈ kemNoise sponge fuel (P.cryptoKemKeypair rnd).2.2
        (sponge.squeeze (prngOf rnd') vecKSizeBytes).1, noisyBlocks e ≤ paramDelta) →
      P.cryptoKemDec (P.cryptoKemKeypair rnd).2.2
          (P.cryptoKemEnc rnd' (P.cryptoKemKeypair rnd).2.1).2.1 =
        (0, (P.cryptoKemEnc rnd' (P.cryptoKemKeypair rnd).2.1).2.2) := by
  refine ⟨?_, ?_, ?_⟩
  · intro rnd pk
    obtain ⟨fuel, prng, henc⟩ := hruns.enc rnd pk
    exact (cryptoKemEnc_message henc).1
  · intro sk ct hfail
    obtain ⟨fuel, hdec⟩ := hruns.dec sk ct
    rcases cryptoKemDec_result hdec with hzero | ⟨-, hzero⟩
    · exact absurd hzero hfail
    · exact hzero
  · intro rnd rnd' hrs hnoise
    obtain ⟨fuel, prng, hgen⟩ := hruns.keypair rnd
    obtain ⟨fuel2, prng2, henc⟩ := hruns.enc rnd' (P.cryptoKemKeypair rnd).2.1
    obtain ⟨fuel3, hdec⟩ := hruns.dec (P.cryptoKemKeypair rnd).2.2
      (P.cryptoKemEnc rnd' (P.cryptoKemKeypair rnd).2.1).2.1
    obtain ⟨x, y, h, hkey⟩ := cryptoKemKeypair_keyPair hgen
    obtain ⟨-, hmessage⟩ := cryptoKemEnc_message henc
    have hopen := (hkey.mono (show fuel ≤ fuel + fuel2 + fuel3 by omega)).decapsulate
      (encapsulateMessage_mono hmessage (by omega)) hrs (hnoise _)
    have hagain := cryptoKemDec_mono hdec (show fuel3 ≤ fuel + fuel2 + fuel3 by omega)
    exact Option.some.inj (hagain.symm.trans hopen)

/-- Every sample is a vector of the lowest positions and leaves the state as it was. -/
structure Repeats (sponge : Sponge S) (fuel : ℕ) (c : S) : Prop where
  init : ∀ seed, seedexpanderInit sponge seed = c
  omega : vectSetRandomFixedWeight sponge fuel c paramOmega = some (lowVector paramOmega, c)
  omegaR : vectSetRandomFixedWeight sponge fuel c paramOmegaR = some (lowVector paramOmegaR, c)

namespace Repeats

variable {c : S}

theorem secretKey (h : Repeats sponge fuel c) (sk : Bytes) :
    hqcSecretKeyFromString sponge fuel sk = some (lowVector paramOmega, lowVector paramOmega,
      (sk.drop seedBytes).take publicKeyBytes) := by
  rw [hqcSecretKeyFromString]
  simp only [h.init, h.omega, Option.bind_eq_bind, Option.bind_some]
  rfl

theorem vectors (h : Repeats sponge fuel c) (theta : Bytes) :
    encryptionVectors sponge fuel theta =
      some (lowVector paramOmegaR, lowVector paramOmegaR, lowVector paramOmegaE) := by
  rw [encryptionVectors]
  simp only [h.init, h.omegaR, Option.bind_eq_bind, Option.bind_some]
  rfl

theorem keypair (h : Repeats sponge fuel c) (prng : S) :
    ∃ pk sk prng', cryptoKemKeypair sponge fuel prng = some ((0, pk, sk), prng') := by
  rw [cryptoKemKeypair, hqcPkeKeygen]
  simp only [h.init, h.omega, Option.bind_eq_bind, Option.bind_some]
  exact ⟨_, _, _, rfl⟩

theorem encapsulate (h : Repeats sponge fuel c) (rs : ReedSolomon) (m pk : Bytes) :
    ∃ ct ss, encapsulateMessage sponge rs fuel m pk = some (ct, ss) := by
  rw [encapsulateMessage, hqcPkeEncrypt]
  simp only [h.vectors, Option.bind_eq_bind, Option.bind_some]
  exact ⟨_, _, rfl⟩

theorem enc (h : Repeats sponge fuel c) (rs : ReedSolomon) (prng : S) (pk : PublicKey) :
    ∃ ct ss prng', cryptoKemEnc sponge rs fuel prng pk = some ((0, ct, ss), prng') := by
  obtain ⟨ct, ss, hmessage⟩ :=
    h.encapsulate rs (sponge.squeeze prng vecKSizeBytes).1 pk.toList
  rw [cryptoKemEnc]
  simp only [hmessage, Option.bind_eq_bind, Option.bind_some]
  exact ⟨ct, ss, _, rfl⟩

theorem dec (h : Repeats sponge fuel c) (rs : ReedSolomon) (sk : SecretKey) (ct : Ciphertext) :
    ∃ r, cryptoKemDec sponge rs fuel sk ct = some r := by
  rw [cryptoKemDec_eq]
  simp only [hqcPkeDecrypt, h.secretKey, Option.bind_eq_bind, Option.bind_some, Option.pure_def]
  obtain ⟨ct', ss, hmessage⟩ := h.encapsulate rs (codeDecode rs (vectAdd
    (vectResize zeroVector paramN (hqcCiphertextFromString ct.toList).2.1 paramN1N2)
    (vectMul (lowVector paramOmega) (hqcCiphertextFromString ct.toList).1)))
      ((sk.toList.drop seedBytes).take publicKeyBytes)
  rw [hmessage]
  exact ⟨_, rfl⟩

theorem noise (h : Repeats sponge fuel c) (sk : SecretKey) (m : Bytes) (fuel2 : ℕ) :
    ∀ e ∈ kemNoise sponge fuel2 sk m, noisyBlocks e ≤ paramDelta := by
  intro e he
  have hbase : kemNoise sponge fuel sk m = some (PqcContiki.noise (lowVector paramOmega)
      (lowVector paramOmega) (lowVector paramOmegaR) (lowVector paramOmegaR)
        (lowVector paramOmegaE)) := by
    rw [kemNoise, pkeNoise, h.secretKey]
    simp only [h.vectors, Option.bind_eq_bind, Option.bind_some]
    rfl
  have hsame := (pkeNoise_mono he (Nat.le_add_right fuel2 fuel)).symm.trans
    (pkeNoise_mono hbase (Nat.le_add_left fuel fuel2))
  obtain rfl := Option.some.inj hsame
  have hx : IsVector (lowVector paramOmega) := lowVector_isVector (by decide)
  have hr : IsVector (lowVector paramOmegaR) := lowVector_isVector (by decide)
  have he : IsVector (lowVector paramOmegaE) := lowVector_isVector (by decide)
  have hshort := noise_short hx hx hr hr he (k := 75) (by decide) (by
    intro v hv
    simp only [List.mem_cons, List.not_mem_nil, or_false] at hv
    rcases hv with rfl | rfl | rfl | rfl | rfl <;> exact lowVector_lt (by decide))
  exact (noisyBlocks_of_short hshort (by decide)).trans (by decide)

end Repeats

/-- The code for the message of zeros. -/
def zeroCode : ReedSolomon := ⟨fun _ => List.replicate vecN1SizeBytes 0,
  fun _ => List.replicate vecKSizeBytes 0⟩

theorem counting_repeats : Repeats countingSponge 80 0 where
  init _ := rfl
  omega := counting_vector paramOmega (by simp)
  omegaR := counting_vector paramOmegaR (by simp)

theorem zeroCode_corrects : zeroCode.Corrects (countingSponge.squeeze 225 vecKSizeBytes).1 := by
  have hm : (countingSponge.squeeze 225 vecKSizeBytes).1 = List.replicate vecKSizeBytes 0 := by
    decide
  rw [hm]
  exact fun _ _ _ => rfl

/-- A key pair and an encapsulation of zeros, on the lowest positions. -/
theorem decapsulate_encapsulate_counting : ∃ pk sk prng ct ss prng2,
    cryptoKemKeypair countingSponge 80 0 = some ((0, pk, sk), prng) ∧
      cryptoKemEnc countingSponge zeroCode 80 225 pk = some ((0, ct, ss), prng2) ∧
      cryptoKemDec countingSponge zeroCode 80 sk ct = some (0, ss) := by
  obtain ⟨pk, sk, prng, hgen⟩ := counting_repeats.keypair 0
  obtain ⟨ct, ss, prng2, henc⟩ := counting_repeats.enc zeroCode 225 pk
  refine ⟨pk, sk, prng, ct, ss, prng2, hgen, henc, ?_⟩
  exact decapsulate_encapsulate le_rfl le_rfl hgen henc zeroCode_corrects
    (counting_repeats.noise sk _ 80)

/-- A platform whose KEM is this code on a given generator. -/
def Platform.withKem (sponge : Sponge S) (rs : ReedSolomon) (fuel : ℕ) (prng : S) : Platform :=
  { Platform.demo with
    cryptoKemKeypair := fun _ => ((PqcContiki.cryptoKemKeypair sponge fuel prng).map
      Prod.fst).getD (0, Buffer.zero _, Buffer.zero _)
    cryptoKemEnc := fun _ pk => ((PqcContiki.cryptoKemEnc sponge rs fuel prng pk).map
      Prod.fst).getD (0, Buffer.zero _, Buffer.zero _)
    cryptoKemDec := fun sk ct =>
      (PqcContiki.cryptoKemDec sponge rs fuel sk ct).getD (0, Buffer.zero _) }

theorem Repeats.runsHqc {c : S} (h : Repeats sponge fuel c) (rs : ReedSolomon) (prng : S) :
    RunsHqc (Platform.withKem sponge rs fuel prng) sponge rs fun _ => prng := by
  refine ⟨?_, ?_, ?_⟩
  · intro rnd
    obtain ⟨pk, sk, prng', hgen⟩ := h.keypair prng
    refine ⟨fuel, prng', ?_⟩
    simp only [Platform.withKem, hgen, Option.map_some, Option.getD_some]
  · intro rnd pk
    obtain ⟨ct, ss, prng', henc⟩ := h.enc rs prng pk
    refine ⟨fuel, prng', ?_⟩
    simp only [Platform.withKem, henc, Option.map_some, Option.getD_some]
  · intro sk ct
    obtain ⟨r, hdec⟩ := h.dec rs sk ct
    refine ⟨fuel, ?_⟩
    simp only [Platform.withKem, hdec, Option.getD_some]

theorem hqc_platform_counting :
    (Platform.withKem countingSponge zeroCode 80 225).Encapsulates ∧
      (Platform.withKem countingSponge zeroCode 80 225).MasksFailure ∧
      ((Platform.withKem countingSponge zeroCode 80 225).cryptoKemDec
        ((Platform.withKem countingSponge zeroCode 80 225).cryptoKemKeypair 0).2.2
        ((Platform.withKem countingSponge zeroCode 80 225).cryptoKemEnc 0
          ((Platform.withKem countingSponge zeroCode 80 225).cryptoKemKeypair 0).2.1).2.1).1 =
      0 := by
  obtain ⟨hencapsulates, hmasks, hopens⟩ :=
    hqc_platform (counting_repeats.runsHqc zeroCode 225)
  have hopen := hopens 0 0 zeroCode_corrects fun fuel => counting_repeats.noise _ _ fuel
  exact ⟨hencapsulates, hmasks, congrArg Prod.fst hopen⟩

end PqcContiki

import PqcContiki.HqcBits
import PqcContiki.ReedMuller

/-!
The decoder finds the message again as long as fewer than half the minimal distance of bits are
wrong.
-/
namespace PqcContiki

open BitPolynomial

variable {msg : Bytes} {cdw : List UInt64} {b c i k n p part bit : ℕ}

theorem sgn_eq (b : Bool) : Walsh.sgn b = 1 - 2 * b.toInt := by
  cases b <;> rfl

theorem expandAndSum_toInt (src : ℕ → ℕ → UInt32) (p : ℕ) : (expandAndSum src p).toInt =
    ∑ copy ∈ Finset.range multiplicity, ((src copy (p / 32)).toNat.testBit (p % 32)).toInt := by
  have hbit : ∀ x : UInt32, ((x >>> UInt32.ofNat (p % 32)) &&& 1).toUInt16.toInt16 =
      if x.toNat.testBit (p % 32) then 1 else 0 := by
    intro x
    have hlow : ((x >>> UInt32.ofNat (p % 32)) &&& 1).toNat = x.toNat / 2 ^ (p % 32) % 2 := by
      rw [UInt32.toNat_and, show (1 : UInt32).toNat = 2 ^ 1 - 1 from rfl,
        Nat.and_two_pow_sub_one_eq_mod, pow_one, UInt32.toNat_shiftRight,
        UInt32.toNat_ofNat_of_lt' (by simp only [UInt32.size]; omega),
        Nat.mod_eq_of_lt (show p % 32 < 32 by omega), Nat.shiftRight_eq_div_pow]
    rw [Nat.testBit_eq_decide_div_mod_eq]
    rcases Nat.mod_two_eq_zero_or_one (x.toNat / 2 ^ (p % 32)) with h | h
    · rw [UInt32.toNat_inj.mp ((hlow.trans h).trans UInt32.toNat_zero.symm), h]
      rfl
    · rw [UInt32.toNat_inj.mp ((hlow.trans h).trans UInt32.toNat_one.symm), h]
      rfl
  have hcopies : List.range' 1 (multiplicity - 1) = [1, 2] := rfl
  simp only [expandAndSum, hbit, hcopies, List.foldl_cons, List.foldl_nil, Finset.sum_range_succ,
    Finset.sum_range_zero, multiplicity]
  generalize (src 0 (p / 32)).toNat.testBit (p % 32) = b0
  generalize (src 1 (p / 32)).toNat.testBit (p % 32) = b1
  generalize (src 2 (p / 32)).toNat.testBit (p % 32) = b2
  cases b0 <;> cases b1 <;> cases b2 <;> rfl

/-- No pass overflows. -/
theorem hadamardPasses_toInt {src : ExpandedCodeword} (hsrc : ∀ i, |(src i).toInt| ≤ 3) (s : ℕ)
    (hs : s ≤ 7) (i : ℕ) : (hadamardPass^[s] src i).toInt =
      (Walsh.pass 64)^[s] (fun j => (src j).toInt) i ∧
      |(hadamardPass^[s] src i).toInt| ≤ 3 * 2 ^ s := by
  induction s generalizing i with
  | zero => exact ⟨rfl, by simpa using hsrc i⟩
  | succ s ih =>
    have hpow : (2 : ℤ) ^ s ≤ 2 ^ 6 := pow_le_pow_right₀ (by omega) (by omega)
    have hstep : ∀ x y : Int16, |x.toInt| ≤ 3 * 2 ^ s → |y.toInt| ≤ 3 * 2 ^ s →
        ((x + y).toInt = x.toInt + y.toInt ∧ |(x + y).toInt| ≤ 3 * 2 ^ (s + 1)) ∧
          (x - y).toInt = x.toInt - y.toInt ∧ |(x - y).toInt| ≤ 3 * 2 ^ (s + 1) := by
      intro x y hx hy
      rw [abs_le] at hx hy
      have hadd : (x + y).toInt = x.toInt + y.toInt := by
        rw [Int16.toInt_add]
        exact Int.bmod_eq_of_le (by omega) (by omega)
      have hsub : (x - y).toInt = x.toInt - y.toInt := by
        rw [Int16.toInt_sub]
        exact Int.bmod_eq_of_le (by omega) (by omega)
      rw [hadd, hsub, abs_le, abs_le, pow_succ]
      omega
    rw [Function.iterate_succ_apply', Function.iterate_succ_apply']
    simp only [hadamardPass, Walsh.pass]
    split
    · next hi =>
      have h := (hstep _ _ (ih (by omega) (2 * i)).2 (ih (by omega) (2 * i + 1)).2).1
      rwa [(ih (by omega) (2 * i)).1, (ih (by omega) (2 * i + 1)).1] at h
    · next hi =>
      have h := (hstep _ _ (ih (by omega) (2 * (i - 64))).2 (ih (by omega) (2 * (i - 64) + 1)).2).2
      rwa [(ih (by omega) (2 * (i - 64))).1, (ih (by omega) (2 * (i - 64) + 1)).1] at h

/-- The additions and subtractions of a pass over `f` are exact. -/
def PassExact (f : ExpandedCodeword) : Prop :=
  ∀ i < 64, (f (2 * i) + f (2 * i + 1)).toInt = (f (2 * i)).toInt + (f (2 * i + 1)).toInt ∧
    (f (2 * i) - f (2 * i + 1)).toInt = (f (2 * i)).toInt - (f (2 * i + 1)).toInt

theorem passExact {src : ExpandedCodeword} (hsrc : ∀ i, |(src i).toInt| ≤ 3) {s : ℕ} (hs : s < 7) :
    PassExact (hadamardPass^[s] src) := by
  have hpow : (2 : ℤ) ^ s ≤ 2 ^ 6 := pow_le_pow_right₀ (by omega) (by omega)
  intro i _
  have hx := (hadamardPasses_toInt hsrc s hs.le (2 * i)).2
  have hy := (hadamardPasses_toInt hsrc s hs.le (2 * i + 1)).2
  rw [abs_le] at hx hy
  rw [Int16.toInt_add, Int16.toInt_sub]
  exact ⟨Int.bmod_eq_of_le (by omega) (by omega), Int.bmod_eq_of_le (by omega) (by omega)⟩

theorem absolute_toInt (x : Int16) :
    let t := x.toInt32
    let posMask : Int32 := -(if t > 0 then 1 else 0)
    ((posMask &&& t) ||| (~~~posMask &&& -t)).toInt = |x.toInt| := by
  have hle := x.le_toInt
  have hlt := x.toInt_lt
  have htoInt : x.toInt32.toInt = x.toInt := Int16.toInt_toInt32 x
  intro t posMask
  by_cases ht : t > 0
  · have hmask : posMask = -1 := by simp only [posMask, if_pos ht]
    have hpos : 0 < x.toInt := by
      rw [← htoInt]
      exact Int32.lt_iff_toInt_lt.mp ht
    have hand : (posMask &&& t) ||| (~~~posMask &&& -t) = t := by
      rw [hmask]
      simp
    rw [hand, htoInt, abs_of_pos hpos]
  · have hmask : posMask = 0 := by
      simp only [posMask, if_neg ht]
      rfl
    have hneg : x.toInt ≤ 0 := by
      rw [← htoInt]
      exact Int.not_lt.mp fun h => ht (Int32.lt_iff_toInt_lt.mpr h)
    have hand : (posMask &&& t) ||| (~~~posMask &&& -t) = -t := by
      rw [hmask]
      simp
    rw [hand, Int32.toInt_neg, htoInt, abs_of_nonpos hneg]
    exact Int.bmod_eq_of_le (by omega) (by omega)

variable {transform : ExpandedCodeword} {peak : Peak} {l : ℕ}

theorem findPeaksStep_eq (transform : ExpandedCodeword) (peak : Peak) (i : ℕ) :
    ∃ absolute : Int32, absolute.toInt = |(transform i).toInt| ∧
      findPeaksStep transform peak i =
        if peak.absValue.toInt < absolute.toInt then ⟨absolute, (transform i).toInt32, i⟩
        else peak := by
  refine ⟨_, absolute_toInt (transform i), ?_⟩
  simp only [← Int32.lt_iff_toInt_lt]
  rfl

/-- The one highest peak wins, wherever it stands. -/
theorem findPeaks_fold (h : ∀ k < 128, k ≠ l → |(transform k).toInt| < |(transform l).toInt|)
    (hl : l < 128) (hpos : 0 < |(transform l).toInt|) (hn : n ≤ 128) :
    let peak := (List.range n).foldl (findPeaksStep transform) ⟨0, 0, 0⟩
    if n ≤ l then peak.absValue.toInt < |(transform l).toInt|
    else peak.absValue.toInt = |(transform l).toInt| ∧
      peak.value = (transform l).toInt32 ∧ peak.pos = l := by
  induction n with
  | zero =>
    intro peak
    rw [if_pos (Nat.zero_le l)]
    exact hpos
  | succ n ih =>
    have ih := ih (by omega)
    simp only [List.range_succ, List.foldl_append, List.foldl_cons, List.foldl_nil] at ih ⊢
    generalize (List.range n).foldl (findPeaksStep transform) ⟨0, 0, 0⟩ = peak at ih ⊢
    obtain ⟨absolute, habs, hstep⟩ := findPeaksStep_eq transform peak n
    rw [hstep]
    by_cases hnl : n = l
    · subst hnl
      rw [if_pos le_rfl] at ih
      rw [if_neg (by omega), habs, if_pos ih]
      exact ⟨habs, rfl, rfl⟩
    · have hother := h n (by omega) hnl
      by_cases hlt : n ≤ l
      · rw [if_pos hlt] at ih
        rw [if_pos (by omega)]
        split
        · exact habs ▸ hother
        · exact ih
      · rw [if_neg hlt] at ih
        rw [if_neg (by omega), if_neg (by omega)]
        exact ih

theorem findPeaks_eq (h : ∀ k < 128, k ≠ l → |(transform k).toInt| < |(transform l).toInt|)
    (hl : l < 128) (hpos : 0 < |(transform l).toInt|) :
    findPeaks transform = l + 128 * if 0 < (transform l).toInt then 1 else 0 := by
  have hfold := findPeaks_fold h hl hpos le_rfl
  simp only [if_neg (Nat.not_le.mpr hl)] at hfold
  obtain ⟨-, hvalue, hposn⟩ := hfold
  have hsign : (transform l).toInt32 > 0 ↔ 0 < (transform l).toInt := by
    rw [gt_iff_lt, Int32.lt_iff_toInt_lt, Int16.toInt_toInt32]
    rfl
  simp only [findPeaks, hvalue, hposn, hsign]
  rw [Nat.or_comm, add_comm]
  exact (Nat.two_pow_add_eq_or_of_lt (i := 7) hl _).symm

variable {e : ℕ → Bool}

/-- How many of the bits that stand for byte `i` are flipped. -/
def blockWeight (e : ℕ → Bool) (i : ℕ) : ℕ :=
  ((Finset.range 384).filter fun p => e (384 * i + p)).card

/-- The flipped bits at position `p` of the three copies. -/
def flipsAt (e : ℕ → Bool) (i p : ℕ) : ℤ :=
  ∑ c ∈ Finset.range multiplicity, (e (128 * (3 * i + c) + p)).toInt

theorem flipsAt_nonneg (e : ℕ → Bool) (i p : ℕ) : 0 ≤ flipsAt e i p := by
  apply Finset.sum_nonneg
  intro c _
  cases e (128 * (3 * i + c) + p) <;> decide

theorem sum_flipsAt (e : ℕ → Bool) (i : ℕ) :
    ∑ p ∈ Finset.range (2 ^ 7), flipsAt e i p = blockWeight e i := by
  have hthree : ∀ f : ℕ → ℤ, ∑ q ∈ Finset.range 384, f q =
      ∑ c ∈ Finset.range multiplicity, ∑ p ∈ Finset.range 128, f (128 * c + p) := by
    intro f
    rw [show 384 = 128 + 128 + 128 from rfl, Finset.sum_range_add, Finset.sum_range_add]
    simp [multiplicity, Finset.sum_range_succ]
  simp only [flipsAt]
  rw [Finset.sum_comm, blockWeight, Finset.card_filter, Nat.cast_sum, hthree]
  apply Finset.sum_congr rfl
  intro c _
  apply Finset.sum_congr rfl
  intro p _
  rw [show 128 * (3 * i + c) + p = 384 * i + (128 * c + p) by ring]
  cases e (384 * i + (128 * c + p)) <;> rfl

/-- How often each position of byte `i` is set in the three copies. -/
abbrev sumsOf (cdw : List UInt64) (i : ℕ) : ExpandedCodeword :=
  expandAndSum fun copy => codewordAt cdw (i * multiplicity + copy)

/-- The transform that the decoder searches, for byte `i`. -/
def peaksOf (cdw : List UInt64) (i : ℕ) : ExpandedCodeword :=
  let transform := hadamard (sumsOf cdw i)
  Function.update transform 0 (transform 0 - 64 * Int16.ofNat multiplicity)

theorem expandAndSum_bounds (src : ℕ → ℕ → UInt32) (p : ℕ) :
    0 ≤ (expandAndSum src p).toInt ∧ (expandAndSum src p).toInt ≤ 3 := by
  rw [expandAndSum_toInt]
  simp only [multiplicity, Finset.sum_range_succ, Finset.sum_range_zero]
  have hbit : ∀ b : Bool, 0 ≤ b.toInt ∧ b.toInt ≤ 1 := by decide
  have h0 := hbit ((src 0 (p / 32)).toNat.testBit (p % 32))
  have h1 := hbit ((src 1 (p / 32)).toNat.testBit (p % 32))
  have h2 := hbit ((src 2 (p / 32)).toNat.testBit (p % 32))
  omega

theorem abs_sumsOf_le (cdw : List UInt64) (i j : ℕ) : |(sumsOf cdw i j).toInt| ≤ 3 := by
  have h : 0 ≤ (sumsOf cdw i j).toInt ∧ (sumsOf cdw i j).toInt ≤ 3 := expandAndSum_bounds _ j
  rw [abs_le]
  omega

/-- The correction of the first entry does not overflow either. -/
theorem peaksOf_zero (cdw : List UInt64) (i : ℕ) :
    (peaksOf cdw i 0).toInt = (hadamard (sumsOf cdw i) 0).toInt - 192 := by
  have hshift : (64 * Int16.ofNat multiplicity).toInt = 192 := rfl
  have hsmall : |(hadamard (sumsOf cdw i) 0).toInt| ≤ 3 * 2 ^ 7 :=
    (hadamardPasses_toInt (abs_sumsOf_le cdw i) 7 le_rfl 0).2
  rw [abs_le] at hsmall
  rw [peaksOf, Function.update_self, Int16.toInt_sub, hshift]
  exact Int.bmod_eq_of_le (by omega) (by omega)

theorem peaksOf_toInt (cdw : List UInt64) (i k : ℕ) (hk : k < 128) :
    (peaksOf cdw i k).toInt = ∑ p ∈ Finset.range (2 ^ 7), Walsh.sign 7 k p *
      (sumsOf cdw i p).toInt - if k = 0 then 192 else 0 := by
  have hpasses := (hadamardPasses_toInt (abs_sumsOf_le cdw i) 7 le_rfl k).1
  have hrow : (hadamard (sumsOf cdw i) k).toInt =
      ∑ p ∈ Finset.range (2 ^ 7), Walsh.sign 7 k p * (sumsOf cdw i p).toInt :=
    hpasses.trans (Walsh.transform_eq (fun j => (sumsOf cdw i j).toInt) 6 hk)
  rw [← hrow]
  by_cases h0 : k = 0
  · subst h0
    rw [if_pos rfl, peaksOf_zero]
  · rw [peaksOf, Function.update_of_ne h0, if_neg h0, sub_zero]

theorem byteAt_reedMullerDecode (cdw : List UInt64) (hi : i < vecN1SizeBytes) :
    byteAt (reedMullerDecode cdw) i = UInt8.ofNat (findPeaks (peaksOf cdw i)) := by
  rw [byteAt, reedMullerDecode, List.getD_eq_getElem _ _ (by simpa using hi)]
  simp [peaksOf]

/-- What the decoder adds up at a position, as a row of the transform read through noise. -/
theorem expandAndSum_noisy (hcdw : ∀ n < 384 * vecN1SizeBytes,
      (value cdw).testBit n = ((value (reedMullerEncode msg)).testBit n ^^ e n))
    (hi : i < vecN1SizeBytes) (hp : p < 128) :
    2 * (expandAndSum (fun copy => codewordAt cdw (i * multiplicity + copy)) p).toInt =
      3 - Walsh.sgn ((byteAt msg i).toNat.testBit 7) *
        Walsh.sign 7 ((byteAt msg i).toNat % 128) p * (3 - 2 * flipsAt e i p) := by
  have hbit : ∀ c < multiplicity,
      2 * ((codewordAt cdw (i * multiplicity + c) (p / 32)).toNat.testBit (p % 32)).toInt =
        1 - Walsh.sgn ((byteAt msg i).toNat.testBit 7) *
          Walsh.sign 7 ((byteAt msg i).toNat % 128) p *
            (1 - 2 * (e (128 * (3 * i + c) + p)).toInt) := by
    intro c hc
    have hm : multiplicity = 3 := rfl
    have hsgn := sgn_eq ((value cdw).testBit (128 * (3 * i + c) + p))
    rw [codewordAt_testBit cdw _ _ (Nat.mod_lt p (by omega)), Nat.div_add_mod, mul_comm i, hm]
    rw [hcdw _ (by omega), reedMullerEncode_testBit msg hi hc hp, Walsh.sgn_xor, sgn_codeBit,
      sgn_eq (e _)] at hsgn
    rw [hcdw _ (by omega), reedMullerEncode_testBit msg hi hc hp]
    linarith
  rw [expandAndSum_toInt, Finset.mul_sum, flipsAt]
  rw [Finset.sum_congr rfl fun c hc => hbit c (Finset.mem_range.mp hc)]
  simp only [multiplicity, Finset.sum_range_succ, Finset.sum_range_zero]
  ring

/-- The entry of the right byte, and how high the others can get. -/
theorem peaksOf_noisy (hcdw : ∀ n < 384 * vecN1SizeBytes,
      (value cdw).testBit n = ((value (reedMullerEncode msg)).testBit n ^^ e n))
    (hi : i < vecN1SizeBytes) :
    (peaksOf cdw i ((byteAt msg i).toNat % 128)).toInt =
        Walsh.sgn ((byteAt msg i).toNat.testBit 7) * (blockWeight e i - 192) ∧
      ∀ k < 128, k ≠ (byteAt msg i).toNat % 128 →
        |(peaksOf cdw i k).toInt| ≤ blockWeight e i := by
  have hl : (byteAt msg i).toNat % 128 < 128 := Nat.mod_lt _ (by omega)
  have hrow : ∀ k < 128, 2 * (peaksOf cdw i k).toInt =
      2 * Walsh.sgn ((byteAt msg i).toNat.testBit 7) * ∑ p ∈ Finset.range (2 ^ 7),
        Walsh.sign 7 k p * Walsh.sign 7 ((byteAt msg i).toNat % 128) p * flipsAt e i p -
        if k = (byteAt msg i).toNat % 128 then
          384 * Walsh.sgn ((byteAt msg i).toNat.testBit 7) else 0 := by
    intro k hk
    have hnoisy := Walsh.sum_sign_noisy (n := 7) hk hl
      fun p hp => expandAndSum_noisy hcdw hi (p := p) hp
    rw [peaksOf_toInt cdw i k hk, mul_sub, hnoisy]
    split <;> split <;> ring
  constructor
  · have h := hrow _ hl
    simp only [Walsh.sign_mul_self, one_mul, sum_flipsAt, if_pos] at h
    linarith
  · intro k hk hne
    have h := hrow k hk
    have hsum := Walsh.abs_sum_sign_le (flipsAt_nonneg e i) 7 k ((byteAt msg i).toNat % 128)
    rw [sum_flipsAt, abs_le] at hsum
    rw [if_neg hne] at h
    rw [abs_le]
    cases hb : (byteAt msg i).toNat.testBit 7 <;> rw [hb] at h <;>
      simp only [Walsh.sgn_true, Walsh.sgn_false] at h <;> omega

/-- With fewer than 96 of its 384 bits flipped, the entry of the right byte is the one highest. -/
theorem peaksOf_strict (hcdw : ∀ n < 384 * vecN1SizeBytes,
      (value cdw).testBit n = ((value (reedMullerEncode msg)).testBit n ^^ e n))
    (hi : i < vecN1SizeBytes) (hweight : blockWeight e i < 96) :
    96 < |(peaksOf cdw i ((byteAt msg i).toNat % 128)).toInt| ∧
      ∀ k < 128, k ≠ (byteAt msg i).toNat % 128 →
        |(peaksOf cdw i k).toInt| < |(peaksOf cdw i ((byteAt msg i).toNat % 128)).toInt| := by
  obtain ⟨hpeak, hothers⟩ := peaksOf_noisy hcdw hi
  have hheight : |(peaksOf cdw i ((byteAt msg i).toNat % 128)).toInt| = 192 - blockWeight e i := by
    rw [hpeak]
    cases (byteAt msg i).toNat.testBit 7 <;> simp only [Walsh.sgn_true, Walsh.sgn_false] <;>
      rw [abs_eq (by omega)] <;> omega
  rw [hheight]
  refine ⟨by omega, fun k hk hne => ?_⟩
  have h := hothers k hk hne
  omega

/-- The decoder reads a byte right when fewer than 96 of its 384 bits are flipped. -/
theorem reedMullerDecode_corrects (msg : Bytes) (cdw : List UInt64) (e : ℕ → Bool)
    (hcdw : ∀ n < 384 * vecN1SizeBytes,
      (value cdw).testBit n = ((value (reedMullerEncode msg)).testBit n ^^ e n))
    (hi : i < vecN1SizeBytes) (hweight : blockWeight e i < 96) :
    byteAt (reedMullerDecode cdw) i = byteAt msg i := by
  have hbyte := (byteAt msg i).toNat_lt
  have hl : (byteAt msg i).toNat % 128 < 128 := Nat.mod_lt _ (by omega)
  obtain ⟨hpeak, -⟩ := peaksOf_noisy hcdw hi
  obtain ⟨hhigh, hstrict⟩ := peaksOf_strict hcdw hi hweight
  have hfound : findPeaks (peaksOf cdw i) = _ := findPeaks_eq hstrict hl (by omega)
  have hsplit := Nat.testBit_eq_decide_div_mod_eq (x := (byteAt msg i).toNat) (i := 7)
  apply UInt8.toNat_inj.mp
  rw [byteAt_reedMullerDecode cdw hi, hfound, hpeak]
  cases hb : (byteAt msg i).toNat.testBit 7 with
  | false =>
    rw [hb] at hsplit
    have hlow : ¬ 0 < Walsh.sgn false * ((blockWeight e i : ℤ) - 192) := by
      rw [Walsh.sgn_false]
      omega
    rw [if_neg hlow, UInt8.toNat_ofNat_of_lt' (by simp only [UInt8.size]; omega)]
    simp at hsplit
    omega
  | true =>
    rw [hb] at hsplit
    have hhigh : 0 < Walsh.sgn true * ((blockWeight e i : ℤ) - 192) := by
      rw [Walsh.sgn_true]
      omega
    rw [if_pos hhigh, UInt8.toNat_ofNat_of_lt' (by simp only [UInt8.size]; omega)]
    simp at hsplit
    omega

/-- A whole message survives up to 95 flipped bits in each of its 46 blocks, and no 16-bit sum on
the way overflows. -/
theorem reedMuller_roundTrip (msg : Bytes) (cdw : List UInt64) (e : ℕ → Bool)
    (hlen : msg.length = vecN1SizeBytes)
    (hcdw : ∀ n < 384 * vecN1SizeBytes,
      (value cdw).testBit n = ((value (reedMullerEncode msg)).testBit n ^^ e n))
    (hweight : ∀ i < vecN1SizeBytes, blockWeight e i < 96) :
    reedMullerDecode cdw = msg ∧ ∀ i < vecN1SizeBytes,
      (∀ s < 7, PassExact (hadamardPass^[s] (sumsOf cdw i))) ∧
      (peaksOf cdw i 0).toInt = (hadamard (sumsOf cdw i) 0).toInt - 192 ∧
      ∀ k < 128, k ≠ (byteAt msg i).toNat % 128 →
        |(peaksOf cdw i k).toInt| < |(peaksOf cdw i ((byteAt msg i).toNat % 128)).toInt| := by
  constructor
  · have hdecode : (reedMullerDecode cdw).length = vecN1SizeBytes := by
      rw [reedMullerDecode, List.length_map, List.length_range]
    apply List.ext_getElem (hdecode.trans hlen.symm)
    intro i hi hi'
    have h := reedMullerDecode_corrects msg cdw e hcdw (by omega) (hweight i (by omega))
    rwa [byteAt, byteAt, List.getD_eq_getElem _ _ hi, List.getD_eq_getElem _ _ hi'] at h
  · intro i hi
    exact ⟨fun s hs => passExact (abs_sumsOf_le cdw i) hs, peaksOf_zero cdw i,
      (peaksOf_strict hcdw hi (hweight i hi)).2⟩

/-- A block with its first 95 bits set. -/
def flippedBlock : List UInt64 := [2 ^ 64 - 1, 2 ^ 31 - 1, 0, 0, 0, 0]

def flippedBits : List UInt64 := (List.range vecN1SizeBytes).flatMap fun _ => flippedBlock

theorem flippedBits_testBit (hn : n < 384 * vecN1SizeBytes) :
    (value flippedBits).testBit n = decide (n % 384 < 95) := by
  have hword : n / 64 = 6 * (n / 384) + n % 384 / 64 := by omega
  have hbit : n % 64 = n % 384 % 64 := by omega
  have hlength : ∀ _ : ℕ, flippedBlock.length = 6 := fun _ => rfl
  have hflat : flippedBits.getD (6 * (n / 384) + n % 384 / 64) 0 =
      flippedBlock.getD (n % 384 / 64) 0 :=
    getD_flatMap_range hlength (by omega) (by omega)
  have hblock : ∀ p < 384,
      (flippedBlock.getD (p / 64) 0).toNat.testBit (p % 64) = decide (p < 95) := by
    decide +kernel
  rw [value_testBit, hword, hbit, hflat]
  exact hblock _ (Nat.mod_lt n (by omega))

def squares : Bytes := (List.range vecN1SizeBytes).map fun i => UInt8.ofNat (i * i)

/-- A message whose codeword has the first 95 bits of every block flipped. -/
theorem reedMuller_roundTrip_flipped :
    let cdw := vectAdd (reedMullerEncode squares) flippedBits
    reedMullerDecode cdw = squares ∧ ∀ i < vecN1SizeBytes,
      (∀ s < 7, PassExact (hadamardPass^[s] (sumsOf cdw i))) ∧
      (peaksOf cdw i 0).toInt = (hadamard (sumsOf cdw i) 0).toInt - 192 ∧
      ∀ k < 128, k ≠ (byteAt squares i).toNat % 128 →
        |(peaksOf cdw i k).toInt| <
          |(peaksOf cdw i ((byteAt squares i).toNat % 128)).toInt| := by
  apply reedMuller_roundTrip squares _ fun n => decide (n % 384 < 95)
  · rfl
  · intro n hn
    have hlength : flippedBits.length = 276 := by
      simp [flippedBits, flippedBlock, List.length_flatMap, vecN1SizeBytes]
    rw [vectAdd_testBit ((length_reedMullerEncode _).trans hlength.symm), flippedBits_testBit hn]
  · intro i _
    have hcard : ((Finset.range 384).filter fun p => p < 95).card = 95 := by decide +kernel
    have hfilter : (Finset.range 384).filter (fun p => decide ((384 * i + p) % 384 < 95)) =
        (Finset.range 384).filter fun p => p < 95 := by
      apply Finset.filter_congr
      intro p hp
      rw [Finset.mem_range] at hp
      rw [decide_eq_true_eq, Nat.mul_add_mod, Nat.mod_eq_of_lt hp]
    rw [blockWeight, hfilter, hcard]
    omega

end PqcContiki

import PqcContiki.Gf2xWords

/-! `base_mul` and `karatsuba` of `gf2x.c` multiply polynomials over `ZMod 2`. -/
namespace PqcContiki

open Polynomial BitPolynomial

variable {x : UInt64} {u a o src low high mixed : List UInt64} {i n sizeL sizeH : ℕ}

/-- The low 60 bits of `b`. -/
theorem low_bits (b : UInt64) :
    Denotes 60 (ofNat (b.toNat % 2 ^ 60)) (b &&& (((1 : UInt64) <<< (64 - 4)) - 1)) := by
  have hnat : (b &&& (((1 : UInt64) <<< (64 - 4)) - 1)).toNat = b.toNat % 2 ^ 60 := by
    rw [UInt64.toNat_and, show (((1 : UInt64) <<< (64 - 4)) - 1).toNat = 2 ^ 60 - 1 from rfl,
      Nat.and_two_pow_sub_one_eq_mod]
  exact ⟨hnat ▸ Nat.mod_lt _ (by positivity), by rw [ofWord, hnat]⟩

/-- Entry `j` of the table is the product of `j` and the low bits of `b`. -/
theorem baseMulTable_spec (b : UInt64) {j : ℕ} (hj : j < 16) :
    ofWord ((baseMulTable b).getD j 0) = ofNat j * ofNat (b.toNat % 2 ^ 60) := by
  have h1 := low_bits b
  have h1' : Denotes 60 (ofNat 1 * ofNat (b.toNat % 2 ^ 60))
      (b &&& (((1 : UInt64) <<< (64 - 4)) - 1)) := by
    rwa [ofNat_one, one_mul]
  have h2 := h1'.times_double (by omega)
  have h3 := h2.times_succ h1 (by omega)
  have h4 := h2.times_double (by omega)
  have h5 := h4.times_succ h1 (by omega)
  have h6 := h3.times_double (by omega)
  have h7 := h6.times_succ h1 (by omega)
  have h8 := h4.times_double (by omega)
  have h9 := h8.times_succ h1 (by omega)
  have h10 := h5.times_double (by omega)
  have h11 := h10.times_succ h1 (by omega)
  have h12 := h6.times_double (by omega)
  have h13 := h12.times_succ h1 (by omega)
  have h14 := h7.times_double (by omega)
  have h15 := h14.times_succ h1 (by omega)
  have h0 : ofWord 0 = ofNat 0 * ofNat (b.toNat % 2 ^ 60) := by simp [ofWord]
  interval_cases j
  exacts [h0, h1'.eq, h2.eq, h3.eq, h4.eq, h5.eq, h6.eq, h7.eq, h8.eq, h9.eq, h10.eq, h11.eq,
    h12.eq, h13.eq, h14.eq, h15.eq]

/-- What the two words of `base_mul` make up. -/
noncomputable abbrev ofPair (lh : UInt64 × UInt64) : (ZMod 2)[X] :=
  ofWord lh.1 + X ^ 64 * ofWord lh.2

theorem nibble (a : UInt64) (hi : i < 64) :
    ((a >>> UInt64.ofNat i) &&& 15).toNat = a.toNat / 2 ^ i % 2 ^ 4 := by
  rw [UInt64.toNat_and, show (15 : UInt64).toNat = 2 ^ 4 - 1 from rfl,
    Nat.and_two_pow_sub_one_eq_mod, UInt64.toNat_shiftRight,
    UInt64.toNat_ofNat_of_lt' (by simp only [UInt64.size]; omega), Nat.mod_eq_of_lt hi,
    Nat.shiftRight_eq_div_pow]

theorem baseMulStep_spec (a b : UInt64) (lh : UInt64 × UInt64) (hi : 0 < i) (hi' : i < 64)
    (h : ofPair lh = ofNat (a.toNat % 2 ^ i) * ofNat (b.toNat % 2 ^ 60)) :
    ofPair (baseMulStep a (baseMulTable b) lh i) =
      ofNat (a.toNat % 2 ^ (i + 4)) * ofNat (b.toNat % 2 ^ 60) := by
  have hword : (UInt64.ofNat i).toNat = i :=
    UInt64.toNat_ofNat_of_lt' (by simp only [UInt64.size]; omega)
  have hlt : ((a >>> UInt64.ofNat i) &&& 15).toNat < 16 := by
    rw [nibble a hi']
    omega
  have hg : ofWord (tableSelect (baseMulTable b) ((a >>> UInt64.ofNat i) &&& 15)) =
      ofNat (a.toNat / 2 ^ i % 2 ^ 4) * ofNat (b.toNat % 2 ^ 60) := by
    rw [tableSelect_eq _ hlt, baseMulTable_spec b hlt, nibble a hi']
  have hspread := ofWord_spread (tableSelect (baseMulTable b) ((a >>> UInt64.ofNat i) &&& 15))
    (UInt64.ofNat i) (by omega) (by omega)
  rw [hword, hg] at hspread
  simp only [ofPair, baseMulStep, ofWord_xor] at h ⊢
  rw [ofNat_mod_add]
  linear_combination h + hspread

theorem baseMulSteps_spec (a b : UInt64) (hn : n ≤ 15) :
    ofPair ((List.range' 4 n 4).foldl (baseMulStep a (baseMulTable b))
      (tableSelect (baseMulTable b) (a &&& 15), 0)) =
      ofNat (a.toNat % 2 ^ (4 + 4 * n)) * ofNat (b.toNat % 2 ^ 60) := by
  induction n with
  | zero =>
    have hnat : (a &&& 15).toNat = a.toNat % 2 ^ 4 := by
      rw [UInt64.toNat_and, show (15 : UInt64).toNat = 2 ^ 4 - 1 from rfl,
        Nat.and_two_pow_sub_one_eq_mod]
    have hlt : (a &&& 15).toNat < 16 := by omega
    simp only [List.range'_zero, List.foldl_nil, ofPair]
    rw [tableSelect_eq _ hlt, baseMulTable_spec b hlt, hnat]
    simp
  | succ n ih =>
    rw [List.range'_concat, List.foldl_append, List.foldl_cons, List.foldl_nil]
    exact baseMulStep_spec a b _ (by omega) (by omega) (ih (by omega))

theorem and_mask (x b : UInt64) (hi : i < 64) :
    x &&& -((b >>> UInt64.ofNat i) &&& 1) = if b.toNat / 2 ^ i % 2 = 1 then x else 0 := by
  have hnat : ((b >>> UInt64.ofNat i) &&& 1).toNat = b.toNat / 2 ^ i % 2 := by
    rw [UInt64.toNat_and, show (1 : UInt64).toNat = 2 ^ 1 - 1 from rfl,
      Nat.and_two_pow_sub_one_eq_mod, UInt64.toNat_shiftRight,
      UInt64.toNat_ofNat_of_lt' (by simp only [UInt64.size]; omega), Nat.mod_eq_of_lt hi,
      Nat.shiftRight_eq_div_pow, pow_one]
  by_cases hbit : b.toNat / 2 ^ i % 2 = 1
  · have hone : (b >>> UInt64.ofNat i) &&& 1 = 1 := UInt64.toNat_inj.mp (hnat.trans hbit)
    rw [if_pos hbit, hone, neg_one_and]
  · have hzero : (b >>> UInt64.ofNat i) &&& 1 = 0 :=
      UInt64.toNat_inj.mp (by rw [hnat, UInt64.toNat_zero]; omega)
    rw [if_neg hbit, hzero]
    simp

theorem baseMulTop_spec (a b : UInt64) (lh : UInt64 × UInt64) (hi : 0 < i) (hi' : i < 64)
    (h : ofPair lh = ofWord a * ofNat (b.toNat % 2 ^ i)) :
    ofPair (baseMulTop a b lh i) = ofWord a * ofNat (b.toNat % 2 ^ (i + 1)) := by
  have hword : (UInt64.ofNat i).toNat = i :=
    UInt64.toNat_ofNat_of_lt' (by simp only [UInt64.size]; omega)
  have hspread := ofWord_spread a (UInt64.ofNat i) (by omega) (by omega)
  have hopp : (64 : UInt64) - UInt64.ofNat i = UInt64.ofNat (64 - i) := by
    rw [UInt64.ofNat_sub hi'.le]
    rfl
  rw [hword, hopp] at hspread
  simp only [ofPair, baseMulTop, ofWord_xor, and_mask _ b hi'] at h ⊢
  rw [ofNat_mod_add, pow_one]
  rcases Nat.mod_two_eq_zero_or_one (b.toNat / 2 ^ i) with hbit | hbit
  · rw [hbit]
    simp only [Nat.zero_ne_one, if_false, ofWord_zero, ofNat_zero]
    linear_combination h
  · rw [hbit]
    simp only [if_true, ofNat_one]
    linear_combination h + hspread

/-- `base_mul` multiplies two words without a carry. -/
theorem baseMul_spec (a b : UInt64) : ofPair (baseMul a b) = ofWord a * ofWord b := by
  have h60 := baseMulSteps_spec a b le_rfl
  rw [show 4 + 4 * 15 = 64 from rfl, Nat.mod_eq_of_lt a.toNat_lt] at h60
  have h61 := baseMulTop_spec a b _ (by omega) (by omega) h60
  have h62 := baseMulTop_spec a b _ (by omega) (by omega) h61
  have h63 := baseMulTop_spec a b _ (by omega) (by omega) h62
  have h64 := baseMulTop_spec a b _ (by omega) (by omega) h63
  rwa [show 60 + 1 + 1 + 1 + 1 = 64 from rfl, Nat.mod_eq_of_lt b.toNat_lt] at h64

theorem length_xorAt (ho : i + n ≤ o.length) (hsrc : n ≤ src.length) :
    (xorAt o i n src).length = o.length := by
  simp only [xorAt, List.length_append, List.length_zipWith, List.length_take, List.length_drop]
  omega

theorem ofWords_xorAt (ho : i + n ≤ o.length) (hsrc : n ≤ src.length) :
    ofWords (xorAt o i n src) = ofWords o + X ^ (64 * i) * ofWords (src.take n) := by
  have hmid : ((o.drop i).take n).length = n := by
    rw [List.length_take, List.length_drop]
    omega
  have hlow : (o.take i).length = i := by
    rw [List.length_take]
    omega
  have hsame : ((o.drop i).take n).length = (src.take n).length := by
    rw [hmid, List.length_take]
    omega
  have hzip : (List.zipWith (· ^^^ ·) ((o.drop i).take n) (src.take n)).length = n := by
    rw [List.length_zipWith, ← hsame, hmid, min_self]
  have hsplit : o = o.take i ++ (o.drop i).take n ++ o.drop (i + n) := by
    rw [List.append_assoc, ← List.drop_drop, List.take_append_drop, List.take_append_drop]
  have ho := congrArg ofWords hsplit
  simp only [ofWords_append, List.length_append, hlow, hmid] at ho
  simp only [xorAt, ofWords_append, List.length_append, hlow, hzip, ofWords_zipWith_xor hsame]
  rw [ho]
  ring

theorem length_karatsubaAdd1 (ha : sizeL + sizeH ≤ a.length)
    (hle : sizeH ≤ sizeL) (hge : sizeL ≤ sizeH + 1) :
    (karatsubaAdd1 a sizeL sizeH).length = sizeL := by
  simp only [karatsubaAdd1, List.length_append, List.length_zipWith, List.length_take,
    List.length_drop]
  split
  · rw [List.length_singleton]
    omega
  · rw [List.length_nil]
    omega

theorem ofWords_karatsubaAdd1 (ha : sizeL + sizeH ≤ a.length)
    (hle : sizeH ≤ sizeL) (hge : sizeL ≤ sizeH + 1) :
    ofWords (karatsubaAdd1 a sizeL sizeH) =
      ofWords (a.take sizeL) + ofWords ((a.drop sizeL).take sizeH) := by
  have hsame : (a.take sizeH).length = ((a.drop sizeL).take sizeH).length := by
    rw [List.length_take, List.length_take, List.length_drop]
    omega
  rw [karatsubaAdd1, ofWords_append, ofWords_zipWith_xor hsame]
  split
  · next hlt =>
    obtain rfl : sizeL = sizeH + 1 := by omega
    have htake : a.take (sizeH + 1) = a.take sizeH ++ [a.getD sizeH 0] := by
      rw [List.take_succ_eq_append_getElem (by omega), List.getD_eq_getElem _ _ (by omega)]
    rw [htake, ofWords_append, List.length_zipWith, ← hsame, min_self]
    ring
  · obtain rfl : sizeL = sizeH := by omega
    rw [ofWords_nil]
    ring

theorem karatsubaAdd2_spec (hlow : low.length = 2 * sizeL) (hhigh : high.length = 2 * sizeH)
    (hmixed : mixed.length = 2 * sizeL) (hle : sizeH ≤ sizeL) (hge : sizeL ≤ 2 * sizeH) :
    (karatsubaAdd2 (low ++ high) mixed high sizeL sizeH).length = 2 * (sizeL + sizeH) ∧
      ofWords (karatsubaAdd2 (low ++ high) mixed high sizeL sizeH) =
        ofWords low + X ^ (2 * (64 * sizeL)) * ofWords high +
          X ^ (64 * sizeL) * (ofWords mixed + ofWords low + ofWords high) := by
  have hlen : (low ++ high).length = 2 * (sizeL + sizeH) := by
    rw [List.length_append]
    omega
  have h1 : (xorAt mixed 0 (2 * sizeL) (low ++ high)).length = mixed.length :=
    length_xorAt (by omega) (by omega)
  have h2 : (xorAt (xorAt mixed 0 (2 * sizeL) (low ++ high)) 0 (2 * sizeH) high).length =
      (xorAt mixed 0 (2 * sizeL) (low ++ high)).length :=
    length_xorAt (by omega) (by omega)
  constructor
  · rw [karatsubaAdd2, length_xorAt (by omega) (by omega), hlen]
  · rw [karatsubaAdd2, ofWords_xorAt (by omega) (by omega), List.take_of_length_le (by omega),
      ofWords_xorAt (by omega) (by omega), List.take_of_length_le (by omega),
      ofWords_xorAt (by omega) (by omega), List.take_left' hlow, ofWords_append, hlow]
    ring

/-- `karatsuba` writes the product of the first `size` words of its arguments. -/
theorem karatsuba_spec (size : ℕ) (a b : List UInt64) (hsize : 0 < size) (ha : size ≤ a.length)
    (hb : size ≤ b.length) :
    (karatsuba size a b).length = 2 * size ∧
      ofWords (karatsuba size a b) = ofWords (a.take size) * ofWords (b.take size) := by
  induction size using Nat.strong_induction_on generalizing a b with
  | h size ih =>
    rw [karatsuba]
    split
    · next hone =>
      obtain rfl : size = 1 := by omega
      have htake : ∀ {xs : List UInt64}, 1 ≤ xs.length → xs.take 1 = [xs.getD 0 0] := by
        intro xs hxs
        cases xs with
        | nil => cases hxs
        | cons x xs => rfl
      rw [htake ha, htake hb, ofWords_cons, ofWords_singleton, ofWords_singleton,
        ofWords_singleton]
      exact ⟨rfl, baseMul_spec _ _⟩
    · next hmany =>
      have hhalves : (size + 1) / 2 + size / 2 = size := by omega
      have hle : size / 2 ≤ (size + 1) / 2 := by omega
      have hge : (size + 1) / 2 ≤ size / 2 + 1 := by omega
      have hpos : 0 < size / 2 := by omega
      generalize (size + 1) / 2 = sizeL at hhalves hle hge ⊢
      generalize size / 2 = sizeH at hhalves hle hge hpos ⊢
      have hdropa : sizeH ≤ (a.drop sizeL).length := by
        rw [List.length_drop]
        omega
      have hdropb : sizeH ≤ (b.drop sizeL).length := by
        rw [List.length_drop]
        omega
      have hadda := length_karatsubaAdd1 (a := a) (by omega) hle hge
      have haddb := length_karatsubaAdd1 (a := b) (by omega) hle hge
      obtain ⟨hlowLen, hlow⟩ := ih sizeL (by omega) a b (by omega) (by omega) (by omega)
      obtain ⟨hhighLen, hhigh⟩ :=
        ih sizeH (by omega) (a.drop sizeL) (b.drop sizeL) hpos hdropa hdropb
      obtain ⟨hmixedLen, hmixed⟩ :=
        ih sizeL (by omega) (karatsubaAdd1 a sizeL sizeH) (karatsubaAdd1 b sizeL sizeH) (by omega)
          hadda.ge haddb.ge
      rw [List.take_of_length_le hadda.le, List.take_of_length_le haddb.le,
        ofWords_karatsubaAdd1 (by omega) hle hge,
        ofWords_karatsubaAdd1 (by omega) hle hge] at hmixed
      obtain ⟨hlen, hsum⟩ := karatsubaAdd2_spec hlowLen hhighLen hmixedLen hle (by omega)
      have htake : ∀ {xs : List UInt64}, size ≤ xs.length → ofWords (xs.take size) =
          ofWords (xs.take sizeL) + X ^ (64 * sizeL) * ofWords ((xs.drop sizeL).take sizeH) := by
        intro xs hxs
        rw [← hhalves, List.take_add, ofWords_append, List.length_take, min_eq_left (by omega)]
      refine ⟨by rw [hlen, hhalves], ?_⟩
      rw [hsum, hlow, hhigh, hmixed, htake ha, htake hb]
      -- the products of the halves come twice, and two times anything is nothing
      linear_combination X ^ (64 * sizeL) *
        (ofWords (a.take sizeL) * ofWords (b.take sizeL) +
          ofWords ((a.drop sizeL).take sizeH) * ofWords ((b.drop sizeL).take sizeH)) * two_eq_zero

end PqcContiki

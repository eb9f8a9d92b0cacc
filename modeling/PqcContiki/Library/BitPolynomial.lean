import Mathlib

/-!
Numbers as polynomials over `ZMod 2`: the exclusive or adds them, a shift multiplies by a power
of `X`, and a list of words is one long number.
-/
namespace BitPolynomial

open Polynomial

variable {a b i k n : ℕ} {x y : UInt64} {xs ys : List UInt64} {p q : (ZMod 2)[X]}

theorem two_eq_zero : (2 : (ZMod 2)[X]) = 0 := by
  exact_mod_cast CharP.cast_eq_zero (ZMod 2)[X] 2

/-- The polynomial whose coefficients are the bits of `n`. -/
noncomputable def ofNat (n : ℕ) : (ZMod 2)[X] :=
  ∑ i ∈ Finset.range n.size, if n.testBit i then X ^ i else 0

theorem coeff_ofNat (n i : ℕ) : (ofNat n).coeff i = if n.testBit i then 1 else 0 := by
  have hsum : (ofNat n).coeff i =
      ∑ j ∈ Finset.range n.size,
        if j = i then (if n.testBit i then (1 : ZMod 2) else 0) else 0 := by
    rw [ofNat, finsetSum_coeff]
    apply Finset.sum_congr rfl
    intro j _
    by_cases hj : j = i
    · subst j
      split <;> simp
    · split <;> simp [coeff_X_pow, Ne.symm hj]
  rw [hsum, Finset.sum_ite_eq']
  by_cases hi : i < n.size
  · rw [if_pos (Finset.mem_range.mpr hi)]
  · have hbit : n.testBit i = false := by
      apply Nat.testBit_lt_two_pow
      exact (Nat.lt_size_self n).trans_le (Nat.pow_le_pow_right (by omega) (by omega))
    simp [hi, hbit]

@[simp] theorem ofNat_zero : ofNat 0 = 0 := rfl

@[simp] theorem ofNat_one : ofNat 1 = 1 := by
  simp [ofNat, Nat.size_one]

theorem ofNat_injective : Function.Injective ofNat := by
  intro a b h
  apply Nat.eq_of_testBit_eq
  intro i
  have hcoeff := congrArg (fun p => p.coeff i) h
  simp only [coeff_ofNat] at hcoeff
  cases ha : a.testBit i <;> cases hb : b.testBit i <;> simp_all

theorem ofNat_xor (a b : ℕ) : ofNat (a ^^^ b) = ofNat a + ofNat b := by
  ext i
  rw [coeff_add, coeff_ofNat, coeff_ofNat, coeff_ofNat, Nat.testBit_xor]
  cases a.testBit i <;> cases b.testBit i <;> decide

theorem ofNat_two_pow_mul (k n : ℕ) : ofNat (2 ^ k * n) = X ^ k * ofNat n := by
  ext i
  rw [coeff_ofNat, coeff_X_pow_mul', Nat.testBit_two_pow_mul]
  by_cases hi : k ≤ i
  · simp [hi, coeff_ofNat]
  · simp [hi]

theorem ofNat_double (n : ℕ) : ofNat (2 * n) = X * ofNat n := by
  have h := ofNat_two_pow_mul 1 n
  rwa [pow_one, pow_one] at h

theorem ofNat_add_mul (ha : a < 2 ^ k) (b : ℕ) :
    ofNat (a + 2 ^ k * b) = ofNat a + X ^ k * ofNat b := by
  have hxor : a + 2 ^ k * b = a ^^^ 2 ^ k * b := by
    apply Nat.eq_of_testBit_eq
    intro i
    rw [add_comm, Nat.testBit_two_pow_mul_add b ha, Nat.testBit_xor, Nat.testBit_two_pow_mul]
    by_cases hi : i < k
    · simp [hi, Nat.not_le.mpr hi]
    · have hbit : a.testBit i = false :=
        Nat.testBit_lt_two_pow (ha.trans_le (Nat.pow_le_pow_right (by omega) (by omega)))
      simp [hi, hbit, Nat.not_lt.mp hi]
  rw [hxor, ofNat_xor, ofNat_two_pow_mul]

theorem ofNat_double_succ (n : ℕ) : ofNat (2 * n + 1) = X * ofNat n + 1 := by
  have h := ofNat_add_mul (show 1 < 2 ^ 1 by omega) n
  rw [pow_one, pow_one, ofNat_one] at h
  rw [add_comm, h, add_comm]

theorem ofNat_split (k n : ℕ) : ofNat n = ofNat (n % 2 ^ k) + X ^ k * ofNat (n / 2 ^ k) := by
  rw [← ofNat_add_mul (Nat.mod_lt n (by positivity)), Nat.mod_add_div]

theorem ofNat_mod_add (i k n : ℕ) :
    ofNat (n % 2 ^ (i + k)) = ofNat (n % 2 ^ i) + X ^ i * ofNat (n / 2 ^ i % 2 ^ k) := by
  have hsplit : n % 2 ^ (i + k) = n % 2 ^ i + 2 ^ i * (n / 2 ^ i % 2 ^ k) := by
    rw [pow_add, Nat.mod_mul]
  rw [hsplit, ofNat_add_mul (Nat.mod_lt n (by positivity))]

theorem degree_ofNat_lt (hn : n < 2 ^ k) : (ofNat n).degree < k := by
  rw [degree_lt_iff_coeff_zero]
  intro i hi
  rw [coeff_ofNat, Nat.testBit_lt_two_pow (hn.trans_le (Nat.pow_le_pow_right (by omega) hi))]
  rfl

theorem lt_two_pow_of_degree (h : (ofNat n).degree < k) : n < 2 ^ k := by
  apply Nat.lt_pow_two_of_testBit
  intro i hi
  have hcoeff := (degree_lt_iff_coeff_zero _ _).mp h i hi
  rw [coeff_ofNat] at hcoeff
  cases hbit : n.testBit i with
  | false => rfl
  | true => simp [hbit] at hcoeff

theorem degree_mul_lt (hp : p.degree < k) (hq : q.degree < n) : (p * q).degree < (k + n : ℕ) := by
  by_cases hp0 : p = 0
  · simp [hp0]
  · by_cases hq0 : q = 0
    · simp [hq0]
    · have hpn := (natDegree_lt_iff_degree_lt hp0).mpr hp
      have hqn := (natDegree_lt_iff_degree_lt hq0).mpr hq
      rw [← natDegree_lt_iff_degree_lt (mul_ne_zero hp0 hq0), natDegree_mul hp0 hq0]
      omega

/-- The high half of a product comes back on the low half. -/
theorem ofNat_fold (hk : 0 < k) (hn : n / 2 ^ k < 2 ^ k) :
    ofNat (n % 2 ^ k ^^^ n / 2 ^ k) = ofNat n %ₘ (X ^ k - 1) := by
  have hmonic : (X ^ k - 1 : (ZMod 2)[X]).Monic := monic_X_pow_sub_C 1 hk.ne'
  have hdegree : (X ^ k - 1 : (ZMod 2)[X]).degree = k := degree_X_pow_sub_C hk 1
  have hlt : n % 2 ^ k ^^^ n / 2 ^ k < 2 ^ k :=
    Nat.xor_lt_two_pow (Nat.mod_lt n (by positivity)) hn
  have hsum : ofNat (n % 2 ^ k ^^^ n / 2 ^ k) + (X ^ k - 1) * ofNat (n / 2 ^ k) = ofNat n := by
    rw [ofNat_xor, ofNat_split k n]
    ring
  exact (div_modByMonic_unique _ _ hmonic ⟨hsum, hdegree ▸ degree_ofNat_lt hlt⟩).2.symm

theorem modByMonic_of_short (hn : 0 < n) (hp : p.degree < n) : p %ₘ (X ^ n - 1) = p := by
  have hmonic : (X ^ n - 1 : (ZMod 2)[X]).Monic := monic_X_pow_sub_C 1 hn.ne'
  have hdegree : (X ^ n - 1 : (ZMod 2)[X]).degree = n := degree_X_pow_sub_C hn 1
  rw [modByMonic_eq_self_iff hmonic, hdegree]
  exact hp

/-- Numbers too short for a reduction are told apart by their residues. -/
theorem eq_of_mk_eq (hp : (n : WithBot ℕ) ≤ p.degree) (ha : a < 2 ^ n) (hb : b < 2 ^ n)
    (h : AdjoinRoot.mk p (ofNat a) = AdjoinRoot.mk p (ofNat b)) : a = b := by
  have hlt : (ofNat a - ofNat b).degree < p.degree :=
    ((degree_sub_le _ _).trans_lt (max_lt (degree_ofNat_lt ha) (degree_ofNat_lt hb))).trans_le hp
  have hzero := eq_zero_of_dvd_of_degree_lt (AdjoinRoot.mk_eq_mk.mp h) hlt
  exact ofNat_injective (sub_eq_zero.mp hzero)

theorem two_eq_zero_mod (p : (ZMod 2)[X]) : (2 : AdjoinRoot p) = 0 := by
  have h := congrArg (AdjoinRoot.mk p) two_eq_zero
  rwa [map_ofNat, map_zero] at h

/-- Polynomials modulo `X ^ n - 1`. -/
noncomputable def cyclic (n : ℕ) : (ZMod 2)[X] →+* AdjoinRoot (X ^ n - 1 : (ZMod 2)[X]) :=
  AdjoinRoot.mk _

theorem cyclic_modByMonic (n : ℕ) (p : (ZMod 2)[X]) : cyclic n (p %ₘ (X ^ n - 1)) = cyclic n p := by
  apply AdjoinRoot.mk_eq_mk.mpr
  refine ⟨-(p /ₘ (X ^ n - 1)), ?_⟩
  linear_combination modByMonic_add_div p (X ^ n - 1)

theorem cyclic_injective (hn : 0 < n) (ha : a < 2 ^ n) (hb : b < 2 ^ n)
    (h : cyclic n (ofNat a) = cyclic n (ofNat b)) : a = b :=
  eq_of_mk_eq (degree_X_pow_sub_C hn 1).ge ha hb h

theorem cyclic_add_self (n : ℕ) (p : (ZMod 2)[X]) : cyclic n p + cyclic n p = 0 := by
  rw [← map_add, ← two_mul, two_eq_zero, zero_mul, map_zero]

noncomputable abbrev ofWord (x : UInt64) : (ZMod 2)[X] := ofNat x.toNat

@[simp] theorem ofWord_zero : ofWord 0 = 0 := ofNat_zero

@[simp] theorem ofWord_xor (x y : UInt64) : ofWord (x ^^^ y) = ofWord x + ofWord y := by
  rw [ofWord, UInt64.toNat_xor, ofNat_xor]

/-- What a shift to the left loses, the opposite shift to the right of it keeps. -/
theorem ofWord_spread (x i : UInt64) (hi : 0 < i.toNat) (hi' : i.toNat < 64) :
    ofWord (x <<< i) + X ^ 64 * ofWord (x >>> (64 - i)) = X ^ i.toNat * ofWord x := by
  have hopp : (64 - i).toNat = 64 - i.toNat := by
    rw [UInt64.toNat_sub_of_le]
    · rfl
    · exact UInt64.le_iff_toNat_le.mpr (by simpa using hi'.le)
  have hsplit := ofNat_split 64 (2 ^ i.toNat * x.toNat)
  have hdiv : 2 ^ i.toNat * x.toNat / 2 ^ 64 = x.toNat / 2 ^ (64 - i.toNat) := by
    have hpow : (2 : ℕ) ^ 64 = 2 ^ i.toNat * 2 ^ (64 - i.toNat) := by
      rw [← pow_add]
      congr 1
      omega
    rw [hpow, Nat.mul_div_mul_left _ _ (by positivity)]
  rw [ofNat_two_pow_mul, hdiv] at hsplit
  rw [hsplit, ofWord, ofWord, UInt64.toNat_shiftLeft, UInt64.toNat_shiftRight, hopp,
    Nat.mod_eq_of_lt hi', Nat.mod_eq_of_lt (show 64 - i.toNat < 64 by omega),
    Nat.shiftLeft_eq, Nat.shiftRight_eq_div_pow, mul_comm x.toNat]

/-- `x` is a polynomial of degree below `k`. -/
structure Denotes (k : ℕ) (p : (ZMod 2)[X]) (x : UInt64) : Prop where
  lt : x.toNat < 2 ^ k
  eq : ofWord x = p

theorem Denotes.xor (h : Denotes k p x) (h' : Denotes n q y) (hn : n ≤ k) :
    Denotes k (p + q) (x ^^^ y) where
  lt := by
    rw [UInt64.toNat_xor]
    exact Nat.xor_lt_two_pow h.lt (h'.lt.trans_le (Nat.pow_le_pow_right (by omega) hn))
  eq := by rw [ofWord_xor, h.eq, h'.eq]

theorem Denotes.double (h : Denotes k p x) (hk : k < 64) : Denotes (k + 1) (X * p) (x <<< 1) := by
  have hlt : 2 * x.toNat < 2 ^ (k + 1) := by
    have hx := h.lt
    rw [pow_succ]
    omega
  have hword : 2 * x.toNat < 2 ^ 64 := hlt.trans_le (Nat.pow_le_pow_right (by omega) (by omega))
  have hnat : (x <<< 1).toNat = 2 * x.toNat := by
    rw [UInt64.toNat_shiftLeft, UInt64.toNat_one, show 1 % 64 = 1 from rfl, Nat.shiftLeft_eq,
      mul_comm, pow_one, Nat.mod_eq_of_lt hword]
  refine ⟨hnat ▸ hlt, ?_⟩
  have hmul := ofNat_two_pow_mul 1 x.toNat
  rw [pow_one, pow_one] at hmul
  rw [ofWord, hnat, hmul, ← h.eq]

theorem Denotes.times_double {j : ℕ} (h : Denotes k (ofNat j * p) x)
    (hk : k < 64) : Denotes (k + 1) (ofNat (2 * j) * p) (x <<< 1) := by
  have hd := h.double hk
  rwa [← mul_assoc, ← ofNat_double] at hd

theorem Denotes.times_succ {j l : ℕ} (h : Denotes k (ofNat (2 * j) * p) x)
    (h' : Denotes l p y) (hl : l ≤ k) : Denotes k (ofNat (2 * j + 1) * p) (x ^^^ y) := by
  have hx := h.xor h' hl
  rwa [show ofNat (2 * j) * p + p = ofNat (2 * j + 1) * p by
    rw [ofNat_double, ofNat_double_succ]; ring] at hx

/-- The number the words make up, the least significant first. -/
def value : List UInt64 → ℕ
  | [] => 0
  | x :: xs => x.toNat + 2 ^ 64 * value xs

noncomputable abbrev ofWords (xs : List UInt64) : (ZMod 2)[X] := ofNat (value xs)

@[simp] theorem ofWords_nil : ofWords [] = 0 := rfl

theorem ofWords_cons (x : UInt64) (xs : List UInt64) :
    ofWords (x :: xs) = ofWord x + X ^ 64 * ofWords xs :=
  ofNat_add_mul x.toNat_lt _

@[simp] theorem ofWords_singleton (x : UInt64) : ofWords [x] = ofWord x := by
  simp [ofWords_cons]

theorem ofWords_append (xs ys : List UInt64) :
    ofWords (xs ++ ys) = ofWords xs + X ^ (64 * xs.length) * ofWords ys := by
  induction xs with
  | nil => simp
  | cons x xs ih =>
    rw [List.cons_append, ofWords_cons, ih, ofWords_cons, List.length_cons]
    ring

theorem value_lt (xs : List UInt64) : value xs < 2 ^ (64 * xs.length) := by
  induction xs with
  | nil => simp [value]
  | cons x xs ih =>
    have hx := x.toNat_lt
    rw [value, List.length_cons, Nat.mul_succ, pow_add, mul_comm (2 ^ (64 * xs.length))]
    omega

theorem value_testBit (xs : List UInt64) (i : ℕ) :
    (value xs).testBit i = (xs.getD (i / 64) 0).toNat.testBit (i % 64) := by
  induction xs generalizing i with
  | nil => simp [value]
  | cons x xs ih =>
    rw [value, add_comm, Nat.testBit_two_pow_mul_add _ x.toNat_lt]
    by_cases hi : i < 64
    · rw [if_pos hi, Nat.div_eq_of_lt hi, Nat.mod_eq_of_lt hi]
      rfl
    · have hdiv : i / 64 = (i - 64) / 64 + 1 := by omega
      have hmod : i % 64 = (i - 64) % 64 := by omega
      rw [if_neg hi, ih, hdiv, hmod, List.getD_cons_succ]

/-- Lists of one length that make up the same number are the same. -/
theorem value_injective (hlen : xs.length = ys.length) (h : value xs = value ys) : xs = ys := by
  induction xs generalizing ys with
  | nil => exact (List.length_eq_zero_iff.mp hlen.symm).symm
  | cons x xs ih =>
    cases ys with
    | nil => cases hlen
    | cons y ys =>
      have hx := x.toNat_lt
      have hy := y.toNat_lt
      rw [value, value] at h
      obtain rfl : x = y := UInt64.toNat_inj.mp (by omega)
      rw [ih (by simpa using hlen) (by omega)]

theorem ofWords_zipWith_xor (h : xs.length = ys.length) :
    ofWords (List.zipWith (· ^^^ ·) xs ys) = ofWords xs + ofWords ys := by
  induction xs generalizing ys with
  | nil => simp [List.length_eq_zero_iff.mp h.symm]
  | cons x xs ih =>
    cases ys with
    | nil => cases h
    | cons y ys =>
      rw [List.zipWith_cons_cons, ofWords_cons, ih (by simpa using h), ofWords_cons, ofWords_cons,
        ofWord_xor]
      ring

end BitPolynomial

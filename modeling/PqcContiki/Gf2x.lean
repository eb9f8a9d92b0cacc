import PqcContiki.Gf2xProducts

/-!
The multiplication of `gf2x.c`: `vect_mul` multiplies polynomials over `ZMod 2` modulo
`X ^ 17669 - 1`.
-/
namespace PqcContiki

open Polynomial BitPolynomial

variable {x : UInt64} {u a o src low high mixed : List UInt64} {i n sizeL sizeH : ℕ}

theorem length_reduce (a : List UInt64) : (reduce a).length = vecNSize64 := by
  simp [reduce]

theorem reduceWord_testBit (a : List UInt64) (i : ℕ) (hn : n < 64) :
    (reduceWord a i).toNat.testBit n =
      ((value a).testBit (64 * i + n) ^^ (value a).testBit (64 * i + n + paramN)) := by
  have hN : paramN = 17669 := rfl
  have hV : vecNSize64 = 277 := rfl
  have hdiv : (64 * i + n) / 64 = i := by omega
  have hmod : (64 * i + n) % 64 = n := by omega
  have hright : (UInt64.ofNat (paramN % 64)).toNat % 64 = 5 := rfl
  have hleft : (UInt64.ofNat (64 - paramN % 64)).toNat % 64 = 59 := rfl
  simp only [reduceWord, value_testBit, hdiv, hmod, UInt64.toNat_xor, UInt64.toNat_shiftRight,
    UInt64.toNat_shiftLeft, Nat.testBit_xor, Nat.testBit_shiftRight, Nat.testBit_mod_two_pow,
    Nat.testBit_shiftLeft, hright, hleft, Bool.xor_assoc]
  congr 1
  by_cases hn59 : n < 59
  · have hdiv' : (64 * i + n + paramN) / 64 = i + vecNSize64 - 1 := by omega
    have hmod' : (64 * i + n + paramN) % 64 = 5 + n := by omega
    rw [hdiv', hmod', decide_eq_false (Nat.not_le.mpr hn59)]
    simp
  · have hdiv' : (64 * i + n + paramN) / 64 = i + vecNSize64 := by omega
    have hmod' : (64 * i + n + paramN) % 64 = n - 59 := by omega
    have hout : (a.getD (i + vecNSize64 - 1) 0).toNat.testBit (5 + n) = false := by
      apply Nat.testBit_lt_two_pow
      exact (UInt64.toNat_lt _).trans_le (Nat.pow_le_pow_right (by omega) (by omega))
    rw [hdiv', hmod', hout]
    simp [hn, Nat.not_lt.mp hn59]

theorem toNat_and_redMask (x : UInt64) : (x &&& redMask).toNat = x.toNat % 2 ^ 5 := by
  rw [UInt64.toNat_and, show redMask.toNat = 2 ^ 5 - 1 from rfl, Nat.and_two_pow_sub_one_eq_mod]

theorem getD_reduce (a : List UInt64) (hi : i < vecNSize64) :
    (reduce a).getD i 0 =
      if i = vecNSize64 - 1 then reduceWord a i &&& redMask else reduceWord a i := by
  rw [List.getD_eq_getElem _ _ (by rwa [length_reduce])]
  simp only [reduce, List.getElem_modify, List.getElem_map, List.getElem_range,
    eq_comm (a := vecNSize64 - 1)]

/-- The bits from `PARAM_N` on come back at the bottom. -/
theorem reduce_testBit (a : List UInt64) (i : ℕ) :
    (value (reduce a)).testBit i =
      (decide (i < paramN) && ((value a).testBit i ^^ (value a).testBit (i + paramN))) := by
  have hN : paramN = 17669 := rfl
  have hV : vecNSize64 = 277 := rfl
  have hlow : i % 64 < 64 := Nat.mod_lt i (by omega)
  have hindex : 64 * (i / 64) + i % 64 = i := Nat.div_add_mod i 64
  rw [value_testBit]
  by_cases hi : i / 64 < vecNSize64
  · rw [getD_reduce a hi]
    split
    · next htop =>
      have hsmall : i % 64 < 5 ↔ i < paramN := by omega
      rw [toNat_and_redMask, Nat.testBit_mod_two_pow, reduceWord_testBit a _ hlow, hindex,
        decide_eq_decide.mpr hsmall]
    · next hbelow =>
      rw [reduceWord_testBit a _ hlow, hindex, decide_eq_true (show i < paramN by omega),
        Bool.true_and]
  · have hout : (reduce a).getD (i / 64) 0 = 0 :=
      List.getD_eq_default _ _ (by rw [length_reduce]; omega)
    rw [hout, decide_eq_false (show ¬ i < paramN by omega)]
    simp

theorem value_reduce (h : value a < 2 ^ (2 * paramN)) :
    value (reduce a) = value a % 2 ^ paramN ^^^ value a / 2 ^ paramN := by
  apply Nat.eq_of_testBit_eq
  intro i
  rw [reduce_testBit, Nat.testBit_xor, Nat.testBit_mod_two_pow, Nat.testBit_div_two_pow]
  by_cases hi : i < paramN
  · simp [hi]
  · have hout : (value a).testBit (i + paramN) = false := by
      apply Nat.testBit_lt_two_pow
      exact h.trans_le (Nat.pow_le_pow_right (by omega) (by omega))
    simp [hi, hout]

/-- `vect_mul` multiplies modulo `X ^ PARAM_N - 1`. -/
theorem vectMul_spec (a1 a2 : List UInt64) (hlen1 : a1.length = vecNSize64)
    (hlen2 : a2.length = vecNSize64) (h1 : value a1 < 2 ^ paramN) (h2 : value a2 < 2 ^ paramN) :
    (vectMul a1 a2).length = vecNSize64 ∧ value (vectMul a1 a2) < 2 ^ paramN ∧
      ofWords (vectMul a1 a2) = ofWords a1 * ofWords a2 %ₘ (X ^ paramN - 1) := by
  obtain ⟨-, hprod⟩ := karatsuba_spec vecNSize64 a1 a2 (by decide) hlen1.ge hlen2.ge
  rw [List.take_of_length_le hlen1.le, List.take_of_length_le hlen2.le] at hprod
  have hdegree : (ofWords (karatsuba vecNSize64 a1 a2)).degree < (2 * paramN : ℕ) := by
    rw [hprod, two_mul]
    exact degree_mul_lt (degree_ofNat_lt h1) (degree_ofNat_lt h2)
  have hlt := lt_two_pow_of_degree hdegree
  have hhigh : value (karatsuba vecNSize64 a1 a2) / 2 ^ paramN < 2 ^ paramN := by
    apply Nat.div_lt_of_lt_mul
    rwa [← Nat.pow_add, ← Nat.two_mul]
  have hred := value_reduce hlt
  refine ⟨length_reduce _, ?_, ?_⟩
  · rw [vectMul, hred]
    exact Nat.xor_lt_two_pow (Nat.mod_lt _ (by positivity)) hhigh
  · rw [vectMul, ofWords, hred, ofNat_fold (by decide) hhigh, ← hprod]

/-- Nothing of a short product comes back at the bottom. -/
theorem vectMul_short {a1 a2 : List UInt64} (hlen1 : a1.length = vecNSize64)
    (hlen2 : a2.length = vecNSize64) {k l : ℕ} (h1 : value a1 < 2 ^ k) (h2 : value a2 < 2 ^ l)
    (hkl : k + l ≤ paramN) : value (vectMul a1 a2) < 2 ^ (k + l) := by
  obtain ⟨-, -, hmul⟩ := vectMul_spec a1 a2 hlen1 hlen2
    (h1.trans_le (Nat.pow_le_pow_right (by omega) (by omega)))
    (h2.trans_le (Nat.pow_le_pow_right (by omega) (by omega)))
  have hshort := degree_mul_lt (degree_ofNat_lt h1) (degree_ofNat_lt h2)
  have hkeep := modByMonic_of_short (n := paramN) (by decide)
    (hshort.trans_le (by exact_mod_cast hkl))
  apply lt_two_pow_of_degree
  change (ofWords (vectMul a1 a2)).degree < (k + l : ℕ)
  rw [hmul, hkeep]
  exact hshort

end PqcContiki

import Mathlib

/-!
The Walsh-Hadamard transform of `2 ^ n` integers: its rows are orthogonal, and `n` butterfly
passes compute it.
-/
namespace Walsh

variable {n k l p s : ℕ} {f : ℕ → ℤ}

def sgn (b : Bool) : ℤ := if b then -1 else 1

@[simp] theorem sgn_true : sgn true = -1 := rfl

@[simp] theorem sgn_false : sgn false = 1 := rfl

theorem sgn_xor (b c : Bool) : sgn (b ^^ c) = sgn b * sgn c := by
  cases b <;> cases c <;> rfl

/-- Entry `(k, p)` of the Hadamard matrix of `2 ^ n` rows. -/
def sign (n k p : ℕ) : ℤ := ∏ j ∈ Finset.range n, sgn (k.testBit j && p.testBit j)

theorem sign_succ (n k p : ℕ) : sign (n + 1) k p = sign n k p * sgn (k.testBit n && p.testBit n) :=
  Finset.prod_range_succ _ n

@[simp] theorem sign_zero (n p : ℕ) : sign n 0 p = 1 := by
  simp [sign]

theorem sign_eq_or (n k p : ℕ) : sign n k p = 1 ∨ sign n k p = -1 := by
  induction n with
  | zero => exact .inl rfl
  | succ n ih =>
    rw [sign_succ]
    cases k.testBit n && p.testBit n <;> simp <;> omega

theorem sign_mul_self (n k p : ℕ) : sign n k p * sign n k p = 1 := by
  rcases sign_eq_or n k p with h | h <;> rw [h] <;> rfl

theorem sign_xor (n k l p : ℕ) : sign n (k ^^^ l) p = sign n k p * sign n l p := by
  rw [sign, sign, sign, ← Finset.prod_mul_distrib]
  apply Finset.prod_congr rfl
  intro j _
  rw [Nat.testBit_xor, ← sgn_xor, Bool.and_xor_distrib_right]

theorem sign_comm (n k p : ℕ) : sign n k p = sign n p k := by
  apply Finset.prod_congr rfl
  intro j _
  rw [Bool.and_comm]

theorem sign_two_pow {j : ℕ} (hj : j < n) (hk : k.testBit j = true) : sign n k (2 ^ j) = -1 := by
  rw [sign, Finset.prod_eq_single j]
  · simp [hk]
  · intro i _ hij
    simp [Ne.symm hij]
  · intro hout
    exact absurd (Finset.mem_range.mpr hj) hout

/-- Only the low `n` bits of either index count. -/
theorem sign_congr {k' p' : ℕ} (hk : ∀ j < n, k.testBit j = k'.testBit j)
    (hp : ∀ j < n, p.testBit j = p'.testBit j) : sign n k p = sign n k' p' := by
  apply Finset.prod_congr rfl
  intro j hj
  rw [hk j (Finset.mem_range.mp hj), hp j (Finset.mem_range.mp hj)]

/-- The signs of a row that is not the first cancel. -/
theorem sum_sign (hk : k < 2 ^ n) (h0 : k ≠ 0) : ∑ p ∈ Finset.range (2 ^ n), sign n k p = 0 := by
  obtain ⟨j, hj⟩ := Nat.exists_testBit_of_ne_zero h0
  have hjn : j < n := by
    by_contra hge
    rw [Nat.testBit_lt_two_pow (hk.trans_le (Nat.pow_le_pow_right (by omega) (by omega)))] at hj
    cases hj
  have hflip : ∀ p, sign n k (p ^^^ 2 ^ j) = -sign n k p := by
    intro p
    rw [sign_comm, sign_xor, sign_comm n p, sign_comm n (2 ^ j), sign_two_pow hjn hj]
    ring
  apply Finset.sum_involution (fun p _ => p ^^^ 2 ^ j)
  · intro p _
    rw [hflip]
    ring
  · intro p _ _ hsame
    have hbit := congrArg (fun q => Nat.testBit q j) hsame
    simp [Nat.testBit_xor] at hbit
  · intro p _
    rw [Nat.xor_assoc, Nat.xor_self, Nat.xor_zero]
  · intro p hp
    exact Finset.mem_range.mpr (Nat.xor_lt_two_pow (Finset.mem_range.mp hp)
      (Nat.pow_lt_pow_right (by omega) hjn))

/-- Two different rows are orthogonal. -/
theorem sum_sign_mul (hk : k < 2 ^ n) (hl : l < 2 ^ n) (hne : k ≠ l) :
    ∑ p ∈ Finset.range (2 ^ n), sign n k p * sign n l p = 0 := by
  simp only [← sign_xor]
  apply sum_sign (Nat.xor_lt_two_pow hk hl)
  intro h0
  exact hne (Nat.xor_eq_zero_iff.mp h0)

theorem sum_sign_eq (hk : k < 2 ^ n) :
    ∑ p ∈ Finset.range (2 ^ n), sign n k p = if k = 0 then 2 ^ n else 0 := by
  split
  · next h0 =>
    subst h0
    simp
  · next h0 => exact sum_sign hk h0

theorem sum_sign_mul_eq (hk : k < 2 ^ n) (hl : l < 2 ^ n) :
    ∑ p ∈ Finset.range (2 ^ n), sign n k p * sign n l p = if k = l then 2 ^ n else 0 := by
  split
  · next hsame =>
    subst hsame
    simp [sign_mul_self]
  · next hne => exact sum_sign_mul hk hl hne

/-- `m` copies of row `l`, its signs changed by `ε`, are read as bits and added up, with `e p` of
the bits at `p` flipped. Row `k` of the transform of the sums. -/
theorem sum_sign_noisy (hk : k < 2 ^ n) (hl : l < 2 ^ n) {m ε : ℤ} {e : ℕ → ℤ}
    (hf : ∀ p < 2 ^ n, 2 * f p = m - ε * sign n l p * (m - 2 * e p)) :
    2 * ∑ p ∈ Finset.range (2 ^ n), sign n k p * f p =
      (if k = 0 then m * 2 ^ n else 0) - (if k = l then ε * m * 2 ^ n else 0) +
        2 * ε * ∑ p ∈ Finset.range (2 ^ n), sign n k p * sign n l p * e p := by
  have hsum : 2 * ∑ p ∈ Finset.range (2 ^ n), sign n k p * f p =
      m * ∑ p ∈ Finset.range (2 ^ n), sign n k p -
        ε * m * ∑ p ∈ Finset.range (2 ^ n), sign n k p * sign n l p +
          2 * ε * ∑ p ∈ Finset.range (2 ^ n), sign n k p * sign n l p * e p := by
    simp only [Finset.mul_sum]
    rw [← Finset.sum_sub_distrib, ← Finset.sum_add_distrib]
    apply Finset.sum_congr rfl
    intro p hp
    linear_combination sign n k p * hf p (Finset.mem_range.mp hp)
  rw [hsum, sum_sign_eq hk, sum_sign_mul_eq hk hl]
  split <;> split <;> ring

theorem abs_sum_sign_le {e : ℕ → ℤ} (he : ∀ p, 0 ≤ e p) (n k l : ℕ) :
    |∑ p ∈ Finset.range (2 ^ n), sign n k p * sign n l p * e p| ≤
      ∑ p ∈ Finset.range (2 ^ n), e p := by
  apply (Finset.abs_sum_le_sum_abs _ _).trans
  apply Finset.sum_le_sum
  intro p _
  rcases sign_eq_or n k p with hk | hk <;> rcases sign_eq_or n l p with hl | hl <;>
    simp [hk, hl, abs_of_nonneg (he p)]

/-- One butterfly pass over `2 * m` entries. -/
def pass (m : ℕ) (f : ℕ → ℤ) (i : ℕ) : ℤ :=
  if i < m then f (2 * i) + f (2 * i + 1) else f (2 * (i - m)) - f (2 * (i - m) + 1)

theorem sum_double (g : ℕ → ℤ) (s : ℕ) : ∑ q ∈ Finset.range (2 ^ (s + 1)), g q =
    ∑ q ∈ Finset.range (2 ^ s), (g q + g (2 ^ s + q)) := by
  rw [pow_succ, mul_two, Finset.sum_range_add, Finset.sum_add_distrib]

theorem sign_low (hq : p < 2 ^ s) : sign (s + 1) k p = sign s (k % 2 ^ s) p := by
  have hbit : p.testBit s = false := Nat.testBit_lt_two_pow hq
  rw [sign_succ, hbit, Bool.and_false, sgn_false, mul_one]
  apply sign_congr
  · intro j hj
    simp [Nat.testBit_mod_two_pow, hj]
  · intro j _
    rfl

theorem sign_high (hq : p < 2 ^ s) : sign (s + 1) k (2 ^ s + p) =
    sign s (k % 2 ^ s) p * sgn (k.testBit s) := by
  have hbit : (2 ^ s + p).testBit s = true := by
    rw [Nat.testBit_two_pow_add_eq, Nat.testBit_lt_two_pow hq]
    rfl
  rw [sign_succ, hbit, Bool.and_true]
  congr 1
  apply sign_congr
  · intro j hj
    simp [Nat.testBit_mod_two_pow, hj]
  · intro j hj
    exact Nat.testBit_two_pow_add_gt hj p

/-- After `s` passes the first `s` bits of an index are transformed and stand at its top. -/
theorem passes_eq (f : ℕ → ℤ) (n : ℕ) (hs : s ≤ n + 1) {j k : ℕ} (hj : j < 2 ^ (n + 1 - s))
    (hk : k < 2 ^ s) : (pass (2 ^ n))^[s] f (j + 2 ^ (n + 1 - s) * k) =
      ∑ q ∈ Finset.range (2 ^ s), sign s k q * f (q + 2 ^ s * j) := by
  induction s generalizing j k with
  | zero =>
    obtain rfl : k = 0 := by simpa using hk
    simp
  | succ s ih =>
    obtain ⟨r, rfl⟩ : ∃ r, n = r + s := ⟨n - s, by omega⟩
    have hr : r + s + 1 - (s + 1) = r := by omega
    have hr' : r + s + 1 - s = r + 1 := by omega
    rw [hr] at hj ⊢
    rw [hr'] at ih
    have hpow : (2 : ℕ) ^ (r + s) = 2 ^ r * 2 ^ s := pow_add 2 r s
    have hinner : ∀ q, q + 2 ^ (s + 1) * j = q + 2 ^ s * (2 * j) := by
      intro q
      ring
    have houter : ∀ q, 2 ^ s + q + 2 ^ (s + 1) * j = q + 2 ^ s * (2 * j + 1) := by
      intro q
      ring
    have hhalves : ∀ k < 2 ^ s,
        (pass (2 ^ (r + s)))^[s] f (2 * (j + 2 ^ r * k)) =
            ∑ q ∈ Finset.range (2 ^ s), sign s k q * f (q + 2 ^ (s + 1) * j) ∧
          (pass (2 ^ (r + s)))^[s] f (2 * (j + 2 ^ r * k) + 1) =
            ∑ q ∈ Finset.range (2 ^ s), sign s k q * f (2 ^ s + q + 2 ^ (s + 1) * j) ∧
          j + 2 ^ r * k < 2 ^ (r + s) := by
      intro k hk
      have heven := ih (by omega) (j := 2 * j) (by rw [pow_succ]; omega) hk
      have hodd := ih (by omega) (j := 2 * j + 1) (by rw [pow_succ]; omega) hk
      refine ⟨?_, ?_, ?_⟩
      · simp only [hinner]
        rw [← heven, show 2 * (j + 2 ^ r * k) = 2 * j + 2 ^ (r + 1) * k by ring]
      · simp only [houter]
        rw [← hodd, show 2 * (j + 2 ^ r * k) + 1 = 2 * j + 1 + 2 ^ (r + 1) * k by ring]
      · rw [hpow]
        nlinarith
    rw [Function.iterate_succ_apply', sum_double, pass]
    by_cases hsmall : k < 2 ^ s
    · obtain ⟨heven, hodd, hlt⟩ := hhalves k hsmall
      rw [if_pos hlt, heven, hodd, ← Finset.sum_add_distrib]
      apply Finset.sum_congr rfl
      intro q hq
      rw [sign_low (Finset.mem_range.mp hq), sign_high (Finset.mem_range.mp hq),
        Nat.mod_eq_of_lt hsmall, Nat.testBit_lt_two_pow hsmall]
      simp
    · obtain ⟨l, rfl⟩ := Nat.exists_eq_add_of_le (Nat.not_lt.mp hsmall)
      have hl : l < 2 ^ s := by
        rw [pow_succ] at hk
        omega
      have hbit : (2 ^ s + l).testBit s = true := by
        rw [Nat.testBit_two_pow_add_eq, Nat.testBit_lt_two_pow hl]
        rfl
      have hmod : (2 ^ s + l) % 2 ^ s = l := by
        rw [Nat.add_mod_left, Nat.mod_eq_of_lt hl]
      obtain ⟨heven, hodd, -⟩ := hhalves l hl
      have hindex : j + 2 ^ r * (2 ^ s + l) = 2 ^ (r + s) + (j + 2 ^ r * l) := by
        rw [hpow]
        ring
      rw [hindex, if_neg (by omega), Nat.add_sub_cancel_left, heven, hodd,
        ← Finset.sum_sub_distrib]
      apply Finset.sum_congr rfl
      intro q hq
      rw [sign_low (Finset.mem_range.mp hq), sign_high (Finset.mem_range.mp hq), hmod, hbit,
        sgn_true]
      ring

/-- All the passes together are the transform. -/
theorem transform_eq (f : ℕ → ℤ) (n : ℕ) {k : ℕ} (hk : k < 2 ^ (n + 1)) :
    (pass (2 ^ n))^[n + 1] f k = ∑ q ∈ Finset.range (2 ^ (n + 1)), sign (n + 1) k q * f q := by
  have h := passes_eq f n le_rfl (j := 0) (by simp) hk
  simpa using h

end Walsh

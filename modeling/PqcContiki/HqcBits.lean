import PqcContiki.HqcVectors

/-! The bits of word arrays, and the operations of `vector.c` on them. -/
namespace PqcContiki

open BitPolynomial

variable {S : Type} (sponge : Sponge S)

variable {v o v1 v2 : List UInt64} {b : Bytes} {i j k n : ℕ}

/-- Bit `k` of a string of bytes. -/
def bitOf (b : Bytes) (k : ℕ) : Bool := (byteAt b (k / 8)).toNat.testBit (k % 8)

theorem byteAt_map_range {f : ℕ → UInt8} (hi : i < n) :
    byteAt ((List.range n).map f) i = f i := by
  rw [byteAt, List.getD_eq_getElem _ _ (by simpa using hi)]
  simp

theorem length_bytesOfWords (n : ℕ) (v : List UInt64) : (bytesOfWords n v).length = n := by
  simp [bytesOfWords]

theorem length_memcpyWords (o : List UInt64) (b : Bytes) (n : ℕ) :
    (memcpyWords o b n).length = o.length := by
  simp [memcpyWords]

theorem bitOf_bytesOfWords (v : List UInt64) (hk : k < 8 * n) :
    bitOf (bytesOfWords n v) k = (value v).testBit k := by
  have hword : k / 8 / 8 = k / 64 := by omega
  have hbit : 8 * (k / 8 % 8) + k % 8 = k % 64 := by omega
  have hshift : (UInt64.ofNat (8 * (k / 8 % 8))).toNat % 64 = 8 * (k / 8 % 8) := by
    rw [UInt64.toNat_ofNat_of_lt' (by simp only [UInt64.size]; omega)]
    omega
  rw [bitOf, bytesOfWords, byteAt_map_range (by omega), UInt64.toNat_toUInt8,
    UInt64.toNat_shiftRight, hshift, Nat.testBit_mod_two_pow, Nat.testBit_shiftRight, hword, hbit,
    decide_eq_true (Nat.mod_lt k (by omega)), Bool.true_and, value_testBit]

theorem wordOfBytes_testBit (b : Bytes) (i : ℕ) (hk : k < 64) :
    (wordOfBytes b i).toNat.testBit k = bitOf b (64 * i + k) := by
  have hfold : ∀ n ≤ 8, ((List.range n).foldl
      (fun w j =>
        w ||| (byteAt b (8 * i + j)).toUInt64 <<< UInt64.ofNat (8 * j)) 0).toNat.testBit k =
        (decide (k < 8 * n) && bitOf b (64 * i + k)) := by
    intro n hn
    induction n with
    | zero => simp
    | succ n ih =>
      have hshift : (UInt64.ofNat (8 * n)).toNat % 64 = 8 * n := by
        rw [UInt64.toNat_ofNat_of_lt' (by simp only [UInt64.size]; omega)]
        omega
      have hbyte : (64 * i + k) / 8 = 8 * i + k / 8 := by omega
      have hbit : (64 * i + k) % 8 = k % 8 := by omega
      rw [List.range_succ, List.foldl_append, List.foldl_cons, List.foldl_nil, UInt64.toNat_or,
        Nat.testBit_or, ih (by omega), UInt64.toNat_shiftLeft, hshift, UInt8.toNat_toUInt64,
        Nat.testBit_mod_two_pow, Nat.testBit_shiftLeft, decide_eq_true hk, Bool.true_and, bitOf,
        hbyte, hbit]
      by_cases hlow : k < 8 * n
      · simp [hlow, Nat.not_le.mpr hlow, show k < 8 * (n + 1) by omega]
      · by_cases hhigh : k < 8 * (n + 1)
        · have hdiv : k / 8 = n := by omega
          have hmod : k - 8 * n = k % 8 := by omega
          simp [hlow, hhigh, Nat.not_lt.mp hlow, hdiv, hmod]
        · have hout : (byteAt b (8 * i + n)).toNat.testBit (k - 8 * n) = false := by
            apply Nat.testBit_lt_two_pow
            exact (UInt8.toNat_lt _).trans_le (Nat.pow_le_pow_right (by omega) (by omega))
          simp [hlow, hhigh, hout]
  rw [wordOfBytes, hfold 8 le_rfl, decide_eq_true (by omega), Bool.true_and]

theorem value_testBit_out (hk : 64 * v.length ≤ k) : (value v).testBit k = false :=
  Nat.testBit_lt_two_pow ((value_lt v).trans_le (Nat.pow_le_pow_right (by omega) hk))

theorem memcpyWords_testBit (o : List UInt64) (hb : b.length = n) (hn : n ≤ 8 * o.length) (k : ℕ) :
    (value (memcpyWords o b n)).testBit k =
      if k < 8 * n then bitOf b k else (value o).testBit k := by
  by_cases hk : k < 64 * o.length
  · have hword : k / 64 < o.length := by omega
    rw [value_testBit, List.getD_eq_getElem _ _ (by rwa [length_memcpyWords])]
    simp only [memcpyWords, List.getElem_map, List.getElem_range]
    rw [wordOfBytes_testBit _ _ (Nat.mod_lt k (by omega)), Nat.div_add_mod, bitOf,
      List.take_of_length_le hb.le]
    split
    · next hlow =>
      rw [byteAt, List.getD_append _ _ _ _ (by omega), bitOf, byteAt]
    · next hhigh =>
      have hlen : n ≤ k / 8 := by omega
      rw [byteAt, List.getD_append_right _ _ _ _ (by omega), List.getD_eq_getElem?_getD,
        List.getElem?_drop, hb, Nat.add_sub_cancel' hlen, ← List.getD_eq_getElem?_getD]
      exact bitOf_bytesOfWords o (by omega)
  · rw [if_neg (by omega), value_testBit_out (Nat.not_lt.mp hk),
      value_testBit_out (by rw [length_memcpyWords]; omega)]

/-- Copying an array byte by byte copies its bits. -/
theorem memcpyWords_bytesOfWords_testBit (o v : List UInt64) (hn : n ≤ 8 * o.length) (k : ℕ) :
    (value (memcpyWords o (bytesOfWords n v) n)).testBit k =
      if k < 8 * n then (value v).testBit k else (value o).testBit k := by
  rw [memcpyWords_testBit o (length_bytesOfWords n v) hn]
  split
  · next hk => exact bitOf_bytesOfWords v hk
  · rfl

theorem value_replicate_zero (n : ℕ) : value (List.replicate n 0) = 0 := by
  induction n with
  | zero => rfl
  | succ n ih => simp [List.replicate_succ, value, ih]

theorem length_vectAdd (h : v1.length = v2.length) : (vectAdd v1 v2).length = v2.length := by
  rw [vectAdd, List.length_zipWith, h, min_self]

theorem vectAdd_testBit (h : v1.length = v2.length) (k : ℕ) :
    (value (vectAdd v1 v2)).testBit k = ((value v1).testBit k ^^ (value v2).testBit k) := by
  have hsum := ofWords_zipWith_xor h
  rw [← ofNat_xor] at hsum
  rw [vectAdd, ofNat_injective hsum, Nat.testBit_xor]

theorem value_vectAdd_lt (h : v1.length = v2.length) (h1 : value v1 < 2 ^ n)
    (h2 : value v2 < 2 ^ n) : value (vectAdd v1 v2) < 2 ^ n := by
  have hsum := ofWords_zipWith_xor h
  rw [← ofNat_xor] at hsum
  rw [vectAdd, ofNat_injective hsum]
  exact Nat.xor_lt_two_pow h1 h2

theorem differences_spec (b1 b2 : Bytes) (n : ℕ) : (differences b1 b2 n).toNat < 2 ^ 8 ∧
    ((differences b1 b2 n).toNat = 0 ↔ ∀ i < n, byteAt b1 i = byteAt b2 i) := by
  induction n with
  | zero => simp [differences]
  | succ n ih =>
    obtain ⟨hlt, hzero⟩ := ih
    have hstep : differences b1 b2 (n + 1) =
        differences b1 b2 n ||| (byteAt b1 n ^^^ byteAt b2 n).toUInt64 := by
      rw [differences, List.range_succ, List.foldl_append]
      rfl
    have hsame : (byteAt b1 n ^^^ byteAt b2 n).toNat = 0 ↔ byteAt b1 n = byteAt b2 n := by
      rw [← UInt8.toNat_zero, UInt8.toNat_inj, UInt8.xor_eq_zero_iff]
    rw [hstep, UInt64.toNat_or, UInt8.toNat_toUInt64, Nat.or_eq_zero_iff, hzero, hsame]
    refine ⟨Nat.or_lt_two_pow hlt (UInt8.toNat_lt _), ?_⟩
    constructor
    · rintro ⟨hall, hlast⟩ i hi
      rcases Nat.lt_succ_iff_lt_or_eq.mp hi with hlt | rfl
      · exact hall i hlt
      · exact hlast
    · intro hall
      exact ⟨fun i hi => hall i (by omega), hall n (by omega)⟩

theorem bytes_ext {b1 b2 : Bytes} (h1 : b1.length = n) (h2 : b2.length = n) :
    b1 = b2 ↔ ∀ i < n, byteAt b1 i = byteAt b2 i := by
  constructor
  · rintro rfl i _
    rfl
  · intro hall
    apply List.ext_getElem (h1.trans h2.symm)
    intro i hi1 hi2
    have hi := hall i (by omega)
    rwa [byteAt, byteAt, List.getD_eq_getElem _ _ hi1, List.getD_eq_getElem _ _ hi2] at hi

theorem vectCompare_eq {b1 b2 : Bytes} (h1 : b1.length = n) (h2 : b2.length = n) :
    vectCompare b1 b2 n = if b1 = b2 then 0 else 1 := by
  obtain ⟨hlt, hzero⟩ := differences_spec b1 b2 n
  rw [← bytes_ext h1 h2] at hzero
  have hneg : ∀ r : UInt64, ~~~r + 1 = -r := by
    intro r
    rw [UInt64.neg_eq_not_add]
  rw [vectCompare]
  simp only [hneg]
  split
  · next h =>
    rw [UInt64.toNat_inj.mp ((hzero.mpr h).trans UInt64.toNat_zero.symm)]
    rfl
  · next h =>
    have hne : (differences b1 b2 n).toNat ≠ 0 := fun h0 => h (hzero.mp h0)
    have htop : (-differences b1 b2 n) >>> 63 = 1 := by
      apply UInt64.toNat_inj.mp
      rw [UInt64.toNat_shiftRight, UInt64.toNat_neg, show (63 : UInt64).toNat % 64 = 63 from rfl,
        Nat.shiftRight_eq_div_pow, UInt64.toNat_one,
        Nat.mod_eq_of_lt (by simp only [UInt64.size]; omega)]
      simp only [UInt64.size]
      omega
    rw [htop]
    rfl

/-- Resizing to more bits copies the vector. -/
theorem vectResize_up_testBit (o v : List UInt64) (ho : o.length = vecNSize64) (k : ℕ) :
    (value (vectResize o paramN v paramN1N2)).testBit k =
      if k < paramN1N2 then (value v).testBit k else (value o).testBit k := by
  have hN : paramN = 17669 := rfl
  have hM : paramN1N2 = 17664 := rfl
  have hV : vecNSize64 = 277 := rfl
  have hbytes : 8 * ((paramN1N2 + 7) / 8) = paramN1N2 := rfl
  have hcopy := memcpyWords_bytesOfWords_testBit o v (n := (paramN1N2 + 7) / 8) (by omega) k
  rw [vectResize, if_neg (by omega)]
  rwa [hbytes] at hcopy

/-- Resizing to whole words cuts the vector off. -/
theorem vectResize_down_testBit (o v : List UInt64) (ho : o.length = vecN1N2Size64) (k : ℕ) :
    (value (vectResize o paramN1N2 v paramN)).testBit k =
      (decide (k < paramN1N2) && (value v).testBit k) := by
  have hN : paramN = 17669 := rfl
  have hM : paramN1N2 = 17664 := rfl
  have hV : vecN1N2Size64 = 276 := rfl
  have hbytes : 8 * vecN1N2SizeBytes = paramN1N2 := rfl
  have hcopy := memcpyWords_bytesOfWords_testBit o v (n := vecN1N2SizeBytes) (by omega) k
  have hwhole : (if paramN1N2 % 64 ≠ 0 then 64 - paramN1N2 % 64 else 0) = 0 := rfl
  rw [vectResize, if_pos (by omega)]
  simp only [hwhole, List.range_zero, List.foldl_nil]
  rw [hcopy, hbytes]
  split
  · next hk => rw [decide_eq_true hk, Bool.true_and]
  · next hk => rw [decide_eq_false hk, Bool.false_and, value_testBit_out (by omega)]

theorem length_vectResize (o v : List UInt64) (sizeO sizeV : ℕ) :
    (vectResize o sizeO v sizeV).length = o.length := by
  have hmasks : ∀ (n : ℕ) (o : List UInt64), ((List.range n).foldl (fun o i =>
      o.modify (vecN1N2Size64 - 1)
        (· &&& (0x7FFFFFFFFFFFFFFF : UInt64) >>> UInt64.ofNat i)) o).length = o.length := by
    intro n o
    induction n with
    | zero => rfl
    | succ n ih => rw [List.range_succ, List.foldl_append, List.foldl_cons, List.foldl_nil,
        List.length_modify, ih]
  rw [vectResize]
  split
  · rw [hmasks, length_memcpyWords]
  · rw [length_memcpyWords]

end PqcContiki

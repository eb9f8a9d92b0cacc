import PqcContiki.Fragmentation
import PqcContiki.Library.BitPolynomial
import PqcContiki.Library.Walsh

/-!
`reed_muller.c`: every byte of a message becomes three copies of a codeword of RM(1,7), and the
decoder takes the highest peak of a Hadamard transform.
-/
namespace PqcContiki

open BitPolynomial

abbrev vecN1SizeBytes : ℕ := 46

/-- `MULTIPLICITY`. -/
abbrev multiplicity : ℕ := 3

/-- `BIT0MASK`: bit 0 copied into all bits. -/
def bit0Mask (x : UInt32) : UInt32 := -(x &&& 1)

/-- The four words `u32` of a codeword. -/
def encode (message : UInt32) : List UInt32 :=
  let firstWord := bit0Mask (message >>> 7)
  let firstWord := firstWord ^^^ bit0Mask (message >>> 0) &&& 0xaaaaaaaa
  let firstWord := firstWord ^^^ bit0Mask (message >>> 1) &&& 0xcccccccc
  let firstWord := firstWord ^^^ bit0Mask (message >>> 2) &&& 0xf0f0f0f0
  let firstWord := firstWord ^^^ bit0Mask (message >>> 3) &&& 0xff00ff00
  let firstWord := firstWord ^^^ bit0Mask (message >>> 4) &&& 0xffff0000
  let u0 := firstWord
  let firstWord := firstWord ^^^ bit0Mask (message >>> 5)
  let u1 := firstWord
  let firstWord := firstWord ^^^ bit0Mask (message >>> 6)
  let u3 := firstWord
  let firstWord := firstWord ^^^ bit0Mask (message >>> 5)
  [u0, u1, firstWord, u3]

/-- A codeword in an array of `uint64_t`. -/
def codewordWords (word : List UInt32) : List UInt64 :=
  [(word.getD 0 0).toUInt64 ||| (word.getD 1 0).toUInt64 <<< 32,
    (word.getD 2 0).toUInt64 ||| (word.getD 3 0).toUInt64 <<< 32]

/-- The message array is read byte by byte. -/
def reedMullerEncode (msg : Bytes) : List UInt64 :=
  (List.range vecN1SizeBytes).flatMap fun i =>
    (List.replicate multiplicity (codewordWords (encode (byteAt msg i).toUInt32))).flatten

/-- `codeArray[c].u32[part]` in an array of `uint64_t`. -/
def codewordAt (cdw : List UInt64) (c part : ℕ) : UInt32 :=
  (cdw.getD (2 * c + part / 2) 0 >>> UInt64.ofNat (32 * (part % 2))).toUInt32

abbrev ExpandedCodeword := ℕ → Int16

/-- `src copy part` is `src[copy].u32[part]`. -/
def expandAndSum (src : ℕ → ℕ → UInt32) : ExpandedCodeword := fun i =>
  let bitAt := fun copy => ((src copy (i / 32) >>> UInt32.ofNat (i % 32)) &&& 1).toUInt16.toInt16
  (List.range' 1 (multiplicity - 1)).foldl (fun dest copy => dest + bitAt copy) (bitAt 0)

def hadamardPass (p1 : ExpandedCodeword) : ExpandedCodeword := fun i =>
  if i < 64 then p1 (2 * i) + p1 (2 * i + 1) else p1 (2 * (i - 64)) - p1 (2 * (i - 64) + 1)

/-- The last pass writes `dst`. -/
def hadamard (src : ExpandedCodeword) : ExpandedCodeword := hadamardPass^[7] src

structure Peak where
  absValue : Int32
  value : Int32
  pos : ℕ

def findPeaksStep (transform : ExpandedCodeword) (peak : Peak) (i : ℕ) : Peak :=
  let t := (transform i).toInt32
  let posMask : Int32 := -(if t > 0 then 1 else 0)
  let absolute := (posMask &&& t) ||| (~~~posMask &&& -t)
  if absolute > peak.absValue then ⟨absolute, t, i⟩ else peak

def findPeaks (transform : ExpandedCodeword) : ℕ :=
  let peak := (List.range 128).foldl (findPeaksStep transform) ⟨0, 0, 0⟩
  peak.pos ||| 128 * if peak.value > 0 then 1 else 0

def reedMullerDecode (cdw : List UInt64) : Bytes :=
  (List.range vecN1SizeBytes).map fun i =>
    let expanded := expandAndSum fun copy => codewordAt cdw (i * multiplicity + copy)
    let transform := hadamard expanded
    -- the first entry is 64 too high for every copy
    let transform := Function.update transform 0 (transform 0 - 64 * Int16.ofNat multiplicity)
    UInt8.ofNat (findPeaks transform)

variable {msg : Bytes} {cdw : List UInt64} {b c i k n p part bit : ℕ}

/-- Bit `p` of the codeword of the byte `b`. -/
def codeBit (b p : ℕ) : Bool :=
  b.testBit 7 ^^ (List.range 7).foldl (fun x j => x ^^ (b.testBit j && p.testBit j)) false

/-- A codeword is a row of the Hadamard matrix, its signs changed by bit 7. -/
theorem sgn_codeBit (b p : ℕ) :
    Walsh.sgn (codeBit b p) = Walsh.sgn (b.testBit 7) * Walsh.sign 7 (b % 128) p := by
  have hsign : Walsh.sign 7 (b % 128) p = Walsh.sign 7 b p := by
    apply Walsh.sign_congr
    · intro j hj
      rw [show 128 = 2 ^ 7 from rfl, Nat.testBit_mod_two_pow, decide_eq_true hj, Bool.true_and]
    · intro j _
      rfl
  rw [hsign, Walsh.sign, codeBit]
  simp only [Walsh.sgn_xor, Finset.prod_range_succ, Finset.prod_range_zero, List.range_succ_eq_map,
    List.range_zero, List.foldl, List.map, Walsh.sgn_false]

theorem testBit_bit0Mask (x : UInt32) (hbit : bit < 32) :
    (bit0Mask x).toNat.testBit bit = x.toNat.testBit 0 := by
  have hlow : (x &&& 1).toNat = x.toNat % 2 := by
    rw [UInt32.toNat_and, show (1 : UInt32).toNat = 2 ^ 1 - 1 from rfl,
      Nat.and_two_pow_sub_one_eq_mod, pow_one]
  rw [bit0Mask, Nat.testBit_zero]
  rcases Nat.mod_two_eq_zero_or_one x.toNat with h | h
  · have hzero : x &&& 1 = 0 := UInt32.toNat_inj.mp (hlow.trans h)
    rw [hzero, h]
    simp
  · have hone : x &&& 1 = 1 := UInt32.toNat_inj.mp (hlow.trans h)
    rw [hone, h, show (-1 : UInt32).toNat = 2 ^ 32 - 1 from rfl, Nat.testBit_two_pow_sub_one]
    simp [hbit]

theorem testBit_shifted (m : UInt8) (hbit : bit < 32) (hn : n < 8) :
    (bit0Mask (m.toUInt32 >>> UInt32.ofNat n)).toNat.testBit bit = m.toNat.testBit n := by
  rw [testBit_bit0Mask _ hbit, UInt32.toNat_shiftRight, UInt8.toNat_toUInt32,
    UInt32.toNat_ofNat_of_lt' (by simp only [UInt32.size]; omega),
    Nat.mod_eq_of_lt (show n < 32 by omega), Nat.testBit_shiftRight, add_zero]

theorem testBit_masks : ∀ bit < 32, ∀ j < 5,
    ([0xaaaaaaaa, 0xcccccccc, 0xf0f0f0f0, 0xff00ff00, 0xffff0000].getD j 0).testBit bit =
      Nat.testBit bit j := by
  decide

theorem testBit_position (part : ℕ) {j : ℕ} (hbit : bit < 32) :
    (32 * part + bit).testBit j = if j < 5 then bit.testBit j else part.testBit (j - 5) :=
  Nat.testBit_two_pow_mul_add (i := 5) part hbit j

theorem encode_testBit (m : UInt8) (hpart : part < 4) (hbit : bit < 32) :
    ((encode m.toUInt32).getD part 0).toNat.testBit bit = codeBit m.toNat (32 * part + bit) := by
  have h0 : (0xaaaaaaaa : UInt32).toNat.testBit bit = _ := testBit_masks bit hbit 0 (by omega)
  have h1 : (0xcccccccc : UInt32).toNat.testBit bit = _ := testBit_masks bit hbit 1 (by omega)
  have h2 : (0xf0f0f0f0 : UInt32).toNat.testBit bit = _ := testBit_masks bit hbit 2 (by omega)
  have h3 : (0xff00ff00 : UInt32).toNat.testBit bit = _ := testBit_masks bit hbit 3 (by omega)
  have h4 : (0xffff0000 : UInt32).toNat.testBit bit = _ := testBit_masks bit hbit 4 (by omega)
  have m0 := testBit_shifted m hbit (show 0 < 8 by omega)
  have m1 := testBit_shifted m hbit (show 1 < 8 by omega)
  have m2 := testBit_shifted m hbit (show 2 < 8 by omega)
  have m3 := testBit_shifted m hbit (show 3 < 8 by omega)
  have m4 := testBit_shifted m hbit (show 4 < 8 by omega)
  have m5 := testBit_shifted m hbit (show 5 < 8 by omega)
  have m6 := testBit_shifted m hbit (show 6 < 8 by omega)
  have m7 := testBit_shifted m hbit (show 7 < 8 by omega)
  simp only [UInt32.reduceOfNat] at m0 m1 m2 m3 m4 m5 m6 m7
  have hpart1 : Nat.testBit 1 1 = false := rfl
  have hpart2 : Nat.testBit 2 1 = true := rfl
  have hpart3 : Nat.testBit 3 1 = true := rfl
  have hrange : List.range 7 = [0, 1, 2, 3, 4, 5, 6] := rfl
  rw [codeBit, hrange]
  simp only [List.foldl_cons, List.foldl_nil, testBit_position part hbit, encode]
  interval_cases part <;>
    simp only [List.getD_cons_zero, List.getD_cons_succ, UInt32.toNat_xor, UInt32.toNat_and,
      Nat.testBit_xor, Nat.testBit_and, h0, h1, h2, h3, h4, m0, m1, m2, m3, m4, m5, m6, m7]
  all_goals
    cases m.toNat.testBit 5 <;> cases m.toNat.testBit 6 <;> 
      simp [hpart1, hpart2, hpart3]

theorem codewordWords_testBit (word : List UInt32) (hp : p < 128) :
    ((codewordWords word).getD (p / 64) 0).toNat.testBit (p % 64) =
      (word.getD (p / 32) 0).toNat.testBit (p % 32) := by
  have hpair : ∀ lo hi : UInt32, ∀ n < 64,
      (lo.toUInt64 ||| hi.toUInt64 <<< 32).toNat.testBit n =
        if n < 32 then lo.toNat.testBit n else hi.toNat.testBit (n - 32) := by
    intro lo hi n hn
    rw [UInt64.toNat_or, UInt64.toNat_shiftLeft, UInt32.toNat_toUInt64, UInt32.toNat_toUInt64,
      show (32 : UInt64).toNat % 64 = 32 from rfl, Nat.testBit_or, Nat.testBit_mod_two_pow,
      Nat.testBit_shiftLeft, decide_eq_true hn, Bool.true_and]
    by_cases hlow : n < 32
    · simp [hlow, Nat.not_le.mpr hlow]
    · have hout : lo.toNat.testBit n = false :=
        Nat.testBit_lt_two_pow (lo.toNat_lt.trans_le (Nat.pow_le_pow_right (by omega) (by omega)))
      simp [hlow, hout, Nat.not_lt.mp hlow]
  have hmod : p % 64 < 64 := Nat.mod_lt p (by omega)
  have hhalf : p / 64 = 0 ∨ p / 64 = 1 := by omega
  rcases hhalf with h | h <;> rw [h] <;>
    simp only [codewordWords, List.getD_cons_zero, List.getD_cons_succ, hpair _ _ _ hmod] <;>
    split
  · rw [show p / 32 = 0 by omega, show p % 64 = p % 32 by omega]
  · rw [show p / 32 = 1 by omega, show p % 64 - 32 = p % 32 by omega]
  · rw [show p / 32 = 2 by omega, show p % 64 = p % 32 by omega]
  · rw [show p / 32 = 3 by omega, show p % 64 - 32 = p % 32 by omega]

theorem getD_flatMap_range {f : ℕ → List UInt64} {m : ℕ} (hlen : ∀ i, (f i).length = m)
    (hi : i < n) {j : ℕ} (hj : j < m) :
    ((List.range n).flatMap f).getD (m * i + j) 0 = (f i).getD j 0 := by
  induction n with
  | zero => omega
  | succ n ih =>
    have hall : ((List.range n).flatMap f).length = m * n := by
      simp [List.length_flatMap, hlen, mul_comm]
    rw [List.range_succ, List.flatMap_append, List.flatMap_cons, List.flatMap_nil, List.append_nil]
    by_cases hin : i = n
    · subst hin
      rw [List.getD_append_right _ _ _ _ (by omega), hall, Nat.add_sub_cancel_left]
    · have hlt : m * i + j < m * n := by
        have hmul : m * (i + 1) ≤ m * n := Nat.mul_le_mul_left m (by omega)
        rw [Nat.mul_succ] at hmul
        omega
      rw [List.getD_append _ _ _ _ (by omega), ih (by omega)]

theorem length_reedMullerEncode (msg : Bytes) : (reedMullerEncode msg).length = 276 := by
  simp [reedMullerEncode, codewordWords, List.length_flatMap, multiplicity, vecN1SizeBytes]

theorem reedMullerEncode_testBit (msg : Bytes) (hi : i < vecN1SizeBytes) (hc : c < multiplicity)
    (hp : p < 128) : (value (reedMullerEncode msg)).testBit (128 * (3 * i + c) + p) =
      codeBit (byteAt msg i).toNat p := by
  have hm : multiplicity = 3 := rfl
  have hword : (128 * (3 * i + c) + p) / 64 = 6 * i + (2 * c + p / 64) := by omega
  have hbit : (128 * (3 * i + c) + p) % 64 = p % 64 := by omega
  have hcopies : ∀ ws : List UInt64, ws.length = 2 →
      ((List.replicate multiplicity ws).flatten).getD (2 * c + p / 64) 0 = ws.getD (p / 64) 0 := by
    intro ws hws
    obtain ⟨x, y, rfl⟩ := List.length_eq_two.mp hws
    have hhalf : p / 64 = 0 ∨ p / 64 = 1 := by omega
    interval_cases c <;> rcases hhalf with h | h <;> rw [h] <;> rfl
  have hencode := encode_testBit (byteAt msg i) (show p / 32 < 4 by omega)
    (show p % 32 < 32 by omega)
  rw [Nat.div_add_mod] at hencode
  rw [value_testBit, hword, hbit, reedMullerEncode, getD_flatMap_range _ hi (by omega),
    hcopies _ rfl, codewordWords_testBit _ hp, hencode]
  intro i
  simp [codewordWords, hm]

theorem codewordAt_testBit (cdw : List UInt64) (c part : ℕ) (hbit : bit < 32) :
    (codewordAt cdw c part).toNat.testBit bit =
      (value cdw).testBit (128 * c + (32 * part + bit)) := by
  have hword : (128 * c + (32 * part + bit)) / 64 = 2 * c + part / 2 := by omega
  have hbit' : (128 * c + (32 * part + bit)) % 64 = 32 * (part % 2) + bit := by omega
  rw [value_testBit, hword, hbit', codewordAt, UInt64.toNat_toUInt32, UInt64.toNat_shiftRight,
    UInt64.toNat_ofNat_of_lt' (by simp only [UInt64.size]; omega),
    Nat.mod_eq_of_lt (show 32 * (part % 2) < 64 by omega), Nat.testBit_mod_two_pow,
    Nat.testBit_shiftRight, decide_eq_true hbit, Bool.true_and]

end PqcContiki

import PqcContiki.Library.BitPolynomial

/-! Words, lists of words and masks as polynomials over `ZMod 2`. -/
namespace PqcContiki

open Polynomial BitPolynomial

def paramN : ℕ := 17669
def vecNSize64 : ℕ := 277

/-- `-(1 - ((tmp2 | -tmp2) >> 63))`: all ones where the two words are equal. -/
def equalMask (x y : UInt64) : UInt64 :=
  let tmp2 := x - y;
  -((1 : UInt64) - ((tmp2 ||| -tmp2) >>> 63))

/-- The table `u` of `base_mul`: the multiples of the low 60 bits of `b`. -/
def baseMulTable (b : UInt64) : List UInt64 :=
  let u1 := b &&& (((1 : UInt64) <<< (64 - 4)) - 1)
  let u2 := u1 <<< 1
  let u3 := u2 ^^^ u1
  let u4 := u2 <<< 1
  let u5 := u4 ^^^ u1
  let u6 := u3 <<< 1
  let u7 := u6 ^^^ u1
  let u8 := u4 <<< 1
  let u9 := u8 ^^^ u1
  let u10 := u5 <<< 1
  let u11 := u10 ^^^ u1
  let u12 := u6 <<< 1
  let u13 := u12 ^^^ u1
  let u14 := u7 <<< 1
  let u15 := u14 ^^^ u1
  [0, u1, u2, u3, u4, u5, u6, u7, u8, u9, u10, u11, u12, u13, u14, u15]

/-- The loop over the whole table, which reads every entry whatever `tmp1` is. -/
def tableSelect (u : List UInt64) (tmp1 : UInt64) : UInt64 :=
  (List.range 16).foldl (fun g i => g ^^^ (u.getD i 0 &&& equalMask tmp1 (UInt64.ofNat i))) 0

/-- Step 2 of `base_mul` at bit `i`, on `(l, h)`. -/
def baseMulStep (a : UInt64) (u : List UInt64) (lh : UInt64 × UInt64) (i : ℕ) : UInt64 × UInt64 :=
  let g := tableSelect u ((a >>> UInt64.ofNat i) &&& 15)
  (lh.1 ^^^ g <<< UInt64.ofNat i, lh.2 ^^^ g >>> (64 - UInt64.ofNat i))

/-- Step 3 of `base_mul` for bit `i` of `b`, which the table left out. -/
def baseMulTop (a b : UInt64) (lh : UInt64 × UInt64) (i : ℕ) : UInt64 × UInt64 :=
  let mask := -((b >>> UInt64.ofNat i) &&& 1)
  (lh.1 ^^^ ((a <<< UInt64.ofNat i) &&& mask), lh.2 ^^^ ((a >>> UInt64.ofNat (64 - i)) &&& mask))

/-- Returns `(c[0], c[1])`. -/
def baseMul (a b : UInt64) : UInt64 × UInt64 :=
  let u := baseMulTable b
  let lh := (List.range' 4 15 4).foldl (baseMulStep a u) (tableSelect u (a &&& 15), 0)
  [60, 61, 62, 63].foldl (baseMulTop a b) lh

/-- The loop `for (i = 0; i < n; i++) o[i + off] ^= src[i]`. -/
def xorAt (o : List UInt64) (off n : ℕ) (src : List UInt64) : List UInt64 :=
  o.take off ++ List.zipWith (· ^^^ ·) ((o.drop off).take n) (src.take n) ++ o.drop (off + n)

/-- One of the two lists of `karatsuba_add1`: the halves of `a` added up. -/
def karatsubaAdd1 (a : List UInt64) (sizeL sizeH : ℕ) : List UInt64 :=
  List.zipWith (· ^^^ ·) (a.take sizeH) ((a.drop sizeL).take sizeH) ++
    if sizeH < sizeL then [a.getD sizeH 0] else []

def karatsubaAdd2 (o tmp1 tmp2 : List UInt64) (sizeL sizeH : ℕ) : List UInt64 :=
  let tmp1 := xorAt tmp1 0 (2 * sizeL) o
  let tmp1 := xorAt tmp1 0 (2 * sizeH) tmp2
  xorAt o sizeL (2 * sizeL) tmp1

/-- The `2 * size` words of the product. No caller passes size 0. -/
def karatsuba (size : ℕ) (a b : List UInt64) : List UInt64 :=
  if size ≤ 1 then
    let c := baseMul (a.getD 0 0) (b.getD 0 0)
    [c.1, c.2]
  else
    let sizeH := size / 2
    let sizeL := (size + 1) / 2
    let o := karatsuba sizeL a b
    let tmp2 := karatsuba sizeH (a.drop sizeL) (b.drop sizeL)
    let tmp1 := karatsuba sizeL (karatsubaAdd1 a sizeL sizeH) (karatsubaAdd1 b sizeL sizeH)
    karatsubaAdd2 (o ++ tmp2) tmp1 tmp2 sizeL sizeH
termination_by size

/-- `BITMASK(PARAM_N, 64)`. -/
def redMask : UInt64 := ((1 : UInt64) <<< UInt64.ofNat (paramN % 64)) - 1

/-- Word `i` of `reduce` before the mask. -/
def reduceWord (a : List UInt64) (i : ℕ) : UInt64 :=
  let r := a.getD (i + vecNSize64 - 1) 0 >>> UInt64.ofNat (paramN % 64)
  let carry := a.getD (i + vecNSize64) 0 <<< UInt64.ofNat (64 - paramN % 64)
  a.getD i 0 ^^^ r ^^^ carry

/-- Reduction modulo `X ^ 17669 - 1`. -/
def reduce (a : List UInt64) : List UInt64 :=
  ((List.range vecNSize64).map (reduceWord a)).modify (vecNSize64 - 1) (· &&& redMask)

def vectMul (a1 a2 : List UInt64) : List UInt64 := reduce (karatsuba vecNSize64 a1 a2)

variable {x : UInt64} {u a o src low high mixed : List UInt64} {i n sizeL sizeH : ℕ}

theorem half_le_or {m n : ℕ} (hn : n < 2 * m) : m ≤ n ||| (2 * m - n) := by
  have hleft : n ≤ n ||| (2 * m - n) := Nat.left_le_or
  have hright : 2 * m - n ≤ n ||| (2 * m - n) := Nat.right_le_or
  omega

theorem top_bit (x : UInt64) : (x ||| -x) >>> 63 = if x = 0 then 0 else 1 := by
  by_cases h : x = 0
  · subst h
    rfl
  · rw [if_neg h]
    have hx := x.toNat_lt
    have hpos : x.toNat ≠ 0 := fun h0 => h (UInt64.toNat_inj.mp h0)
    have hneg : (-x).toNat = 2 * 2 ^ 63 - x.toNat := by
      rw [UInt64.toNat_neg]
      exact Nat.mod_eq_of_lt (by simp only [UInt64.size]; omega)
    have hlow := half_le_or (m := 2 ^ 63) (n := x.toNat) (by omega)
    have hhigh : x.toNat ||| (2 * 2 ^ 63 - x.toNat) < 2 ^ 64 := Nat.or_lt_two_pow hx (by omega)
    apply UInt64.toNat_inj.mp
    rw [UInt64.toNat_shiftRight, UInt64.toNat_or, hneg, show (63 : UInt64).toNat % 64 = 63 from rfl,
      Nat.shiftRight_eq_div_pow, UInt64.toNat_one]
    omega

theorem equalMask_eq (x y : UInt64) : equalMask x y = if x = y then -1 else 0 := by
  simp only [equalMask, top_bit]
  by_cases h : x = y
  · simp [h]
  · have hne : x - y ≠ 0 := fun h0 => h (sub_eq_zero.mp h0)
    rw [if_neg hne, if_neg h]
    rfl

theorem neg_one_and (x : UInt64) : x &&& -1 = x := by
  apply UInt64.eq_of_toBitVec_eq
  simp

theorem foldl_select (u : List UInt64) (x : UInt64) (hn : n ≤ 16) :
    (List.range n).foldl (fun g i => g ^^^ (u.getD i 0 &&& equalMask x (UInt64.ofNat i))) 0 =
      if x.toNat < n then u.getD x.toNat 0 else 0 := by
  induction n with
  | zero => simp
  | succ n ih =>
    have hsame : x = UInt64.ofNat n ↔ x.toNat = n := by
      rw [← UInt64.toNat_inj, UInt64.toNat_ofNat_of_lt' (by simp only [UInt64.size]; omega)]
    rw [List.range_succ, List.foldl_append, ih (by omega), List.foldl_cons, List.foldl_nil,
      equalMask_eq]
    by_cases h : x.toNat = n
    · rw [if_pos (hsame.mpr h), neg_one_and, if_neg (by omega), if_pos (by omega), h]
      simp
    · rw [if_neg fun hn => h (hsame.mp hn)]
      by_cases hlt : x.toNat < n
      · rw [if_pos hlt, if_pos (by omega)]
        simp
      · rw [if_neg hlt, if_neg (by omega)]
        simp

/-- The loop over the table reads the entry that `tmp1` names. -/
theorem tableSelect_eq (u : List UInt64) (hx : x.toNat < 16) :
    tableSelect u x = u.getD x.toNat 0 := by
  rw [tableSelect, foldl_select u x le_rfl, if_pos hx]

end PqcContiki

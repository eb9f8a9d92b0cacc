import PqcContiki.HqcBits

/-! `vect_set_random_fixed_weight` returns vectors of exactly the weight that is asked for. -/
namespace PqcContiki

open BitPolynomial

variable {S : Type} (sponge : Sponge S)

variable {v o v1 v2 : List UInt64} {b : Bytes} {i j k n : ℕ}

variable {st st' : Sampler S} {ctx ctx' : S} {fuel fuel' weight : ℕ} {support : List ℕ}

/-- The positions drawn so far are distinct and below `PARAM_N`. -/
structure Sampler.Sound (weight : ℕ) (st : Sampler S) : Prop where
  nodup : st.support.Nodup
  lt : ∀ p ∈ st.support, p < paramN
  le : st.support.length ≤ weight

theorem Sampler.draw_support (weight : ℕ) (st : Sampler S) :
    (st.draw sponge weight).2.support = st.support := by
  rw [Sampler.draw]
  split <;> rfl

variable {sponge}

theorem Sampler.Sound.run (h : st.Sound weight) (hrun : st.run sponge weight fuel = some st') :
    st'.Sound weight ∧ st'.support.length = weight := by
  induction fuel generalizing st with
  | zero => cases hrun
  | succ fuel ih =>
    rw [Sampler.run] at hrun
    split at hrun
    · next hlt =>
      have hdraw := Sampler.draw_support sponge weight st
      generalize st.draw sponge weight = drawn at hrun hdraw
      obtain ⟨x, st1⟩ := drawn
      have hsupport : st1.support = st.support := hdraw
      have h1 : st1.Sound weight := by
        constructor
        · exact hsupport ▸ h.nodup
        · exact hsupport ▸ h.lt
        · exact hsupport ▸ h.le
      dsimp only at hrun
      split at hrun
      · exact ih h1 hrun
      · next hnew =>
        apply ih _ hrun
        constructor
        · rw [List.nodup_append]
          refine ⟨h1.nodup, List.nodup_singleton _, ?_⟩
          rintro p hp q hq rfl
          exact hnew (.inr (List.mem_singleton.mp hq ▸ hp))
        · intro p hp
          rcases List.mem_append.mp hp with hp | hp
          · exact h1.lt p hp
          · rw [List.mem_singleton.mp hp]
            exact Nat.mod_lt _ (by decide)
        · rw [List.length_append, List.length_singleton, hsupport]
          omega
    · next hge =>
      obtain rfl := Option.some.inj hrun
      have hle := h.le
      exact ⟨h, by omega⟩

theorem Sampler.run_mono (hrun : st.run sponge weight fuel = some st') (hle : fuel ≤ fuel') :
    st.run sponge weight fuel' = some st' := by
  induction fuel generalizing st fuel' with
  | zero => cases hrun
  | succ fuel ih =>
    obtain ⟨fuel', rfl⟩ : ∃ n, fuel' = n + 1 := ⟨fuel' - 1, by omega⟩
    rw [Sampler.run] at hrun ⊢
    split at hrun
    · next hlt =>
      rw [if_pos hlt]
      generalize st.draw sponge weight = drawn at hrun ⊢
      obtain ⟨x, st1⟩ := drawn
      dsimp only at hrun ⊢
      split at hrun
      · next hold =>
        rw [if_pos hold]
        exact ih hrun (by omega)
      · next hnew =>
        rw [if_neg hnew]
        exact ih hrun (by omega)
    · next hge =>
      rw [if_neg hge]
      exact hrun

theorem top_bit32 (x : UInt32) : (x ||| -x) >>> 31 = if x = 0 then 0 else 1 := by
  by_cases h : x = 0
  · subst h
    rfl
  · rw [if_neg h]
    have hx := x.toNat_lt
    have hpos : x.toNat ≠ 0 := fun h0 => h (UInt32.toNat_inj.mp h0)
    have hneg : (-x).toNat = 2 * 2 ^ 31 - x.toNat := by
      rw [UInt32.toNat_neg]
      exact Nat.mod_eq_of_lt (by simp only [UInt32.size]; omega)
    have hlow := half_le_or (m := 2 ^ 31) (n := x.toNat) (by omega)
    have hhigh : x.toNat ||| (2 * 2 ^ 31 - x.toNat) < 2 ^ 32 := Nat.or_lt_two_pow hx (by omega)
    apply UInt32.toNat_inj.mp
    rw [UInt32.toNat_shiftRight, UInt32.toNat_or, hneg, show (31 : UInt32).toNat % 32 = 31 from rfl,
      Nat.shiftRight_eq_div_pow, UInt32.toNat_one]
    omega

theorem indexMask_eq (i index : UInt32) : indexMask i index = if i = index then -1 else 0 := by
  simp only [indexMask, top_bit32]
  by_cases h : i = index
  · simp [h]
  · have hne : i - index ≠ 0 := fun h0 => h (sub_eq_zero.mp h0)
    rw [if_neg hne, if_neg h]
    rfl

theorem positionBit_testBit {p : ℕ} (hp : p < paramN) (hi : i < vecNSize64) (hj : j < 64) :
    ((1 : UInt64) <<< UInt64.ofNat (p % 64) &&&
      indexMask (UInt32.ofNat i) (UInt32.ofNat (p / 64))).toNat.testBit j =
        decide (64 * i + j = p) := by
  have hN : paramN = 17669 := rfl
  have hV : vecNSize64 = 277 := rfl
  have hshift : (UInt64.ofNat (p % 64)).toNat % 64 = p % 64 := by
    rw [UInt64.toNat_ofNat_of_lt' (by simp only [UInt64.size]; omega)]
    omega
  have hsame : UInt32.ofNat i = UInt32.ofNat (p / 64) ↔ i = p / 64 := by
    rw [← UInt32.toNat_inj, UInt32.toNat_ofNat_of_lt' (by simp only [UInt32.size]; omega),
      UInt32.toNat_ofNat_of_lt' (by simp only [UInt32.size]; omega)]
  rw [indexMask_eq]
  by_cases hword : i = p / 64
  · have hbit : p % 64 = j ↔ 64 * i + j = p := by omega
    rw [if_pos (hsame.mpr hword), neg_one_and, UInt64.toNat_shiftLeft, hshift, UInt64.toNat_one,
      Nat.one_shiftLeft, Nat.testBit_mod_two_pow, Nat.testBit_two_pow, decide_eq_true hj,
      Bool.true_and, decide_eq_decide]
    exact hbit
  · rw [if_neg fun h => hword (hsame.mp h), decide_eq_false (by omega)]
    simp

theorem supportWord_testBit (hlt : ∀ p ∈ support, p < paramN) (hi : i < vecNSize64) (hj : j < 64) :
    (supportWord support i).toNat.testBit j = decide (64 * i + j ∈ support) := by
  have hfold : ∀ (support : List ℕ) (acc : UInt64), (∀ p ∈ support, p < paramN) →
      (support.foldl (fun val p => val ||| (1 : UInt64) <<< UInt64.ofNat (p % 64) &&&
        indexMask (UInt32.ofNat i) (UInt32.ofNat (p / 64))) acc).toNat.testBit j =
          (acc.toNat.testBit j || decide (64 * i + j ∈ support)) := by
    intro support
    induction support with
    | nil => simp
    | cons p support ih =>
      intro acc hlt
      rw [List.foldl_cons, ih _ fun q hq => hlt q (List.mem_cons_of_mem p hq), UInt64.toNat_or,
        Nat.testBit_or, positionBit_testBit (hlt p List.mem_cons_self) hi hj, Bool.or_assoc]
      simp [List.mem_cons, Bool.decide_or]
  have h := hfold support 0 hlt
  simpa [supportWord] using h

/-- The vector has exactly the bits of its support. -/
theorem supportVector_testBit (hlt : ∀ p ∈ support, p < paramN) (k : ℕ) :
    (value ((List.range vecNSize64).map (supportWord support))).testBit k =
      decide (k ∈ support) := by
  have hN : paramN = 17669 := rfl
  have hV : vecNSize64 = 277 := rfl
  by_cases hk : k / 64 < vecNSize64
  · rw [value_testBit, List.getD_eq_getElem _ _ (by simpa using hk), List.getElem_map,
      List.getElem_range, supportWord_testBit hlt hk (Nat.mod_lt k (by omega)), Nat.div_add_mod]
  · have hout : k ∉ support := by
      intro hmem
      have h := hlt k hmem
      omega
    rw [value_testBit_out (by simp; omega), decide_eq_false hout]

/-- `v` is a vector of `PARAM_N` bits. -/
structure IsVector (v : List UInt64) : Prop where
  length : v.length = vecNSize64
  lt : value v < 2 ^ paramN

/-- The set bits of a vector. -/
def weightOf (v : List UInt64) : ℕ :=
  ((Finset.range paramN).filter fun k => (value v).testBit k = true).card

theorem vectSetRandomFixedWeight_spec {v : List UInt64}
    (h : vectSetRandomFixedWeight sponge fuel ctx weight = some (v, ctx')) :
    IsVector v ∧ weightOf v = weight := by
  rw [vectSetRandomFixedWeight, Option.map_eq_some_iff] at h
  obtain ⟨st, hrun, heq⟩ := h
  obtain ⟨rfl, -⟩ := Prod.mk.inj heq
  obtain ⟨hsound, hlen⟩ := Sampler.Sound.run ⟨List.nodup_nil, by simp, Nat.zero_le weight⟩ hrun
  have hbits := supportVector_testBit hsound.lt
  refine ⟨⟨by simp, ?_⟩, ?_⟩
  · apply Nat.lt_pow_two_of_testBit
    intro k hk
    rw [hbits, decide_eq_false]
    intro hmem
    have hlt := hsound.lt k hmem
    omega
  · have hset : (Finset.range paramN).filter
        (fun k => (value ((List.range vecNSize64).map (supportWord st.support))).testBit k = true) =
          st.support.toFinset := by
      ext k
      simp only [hbits, Finset.mem_filter, Finset.mem_range, decide_eq_true_eq, List.mem_toFinset]
      exact ⟨fun hk => hk.2, fun hk => ⟨hsound.lt k hk, hk⟩⟩
    rw [weightOf, hset, List.toFinset_card_of_nodup hsound.nodup, hlen]

theorem vectSetRandomFixedWeight_mono {r : List UInt64 × S}
    (h : vectSetRandomFixedWeight sponge fuel ctx weight = some r) (hle : fuel ≤ fuel') :
    vectSetRandomFixedWeight sponge fuel' ctx weight = some r := by
  rw [vectSetRandomFixedWeight, Option.map_eq_some_iff] at h ⊢
  obtain ⟨st, hrun, heq⟩ := h
  exact ⟨st, Sampler.run_mono hrun hle, heq⟩

theorem redMask_testBit (x : UInt64) (hk : 5 ≤ k) : (x &&& redMask).toNat.testBit k = false := by
  rw [toNat_and_redMask, Nat.testBit_mod_two_pow, decide_eq_false (Nat.not_lt.mpr hk),
    Bool.false_and]

theorem vectSetRandom_isVector (ctx : S) : IsVector (vectSetRandom sponge ctx).1 := by
  have hN : paramN = 17669 := rfl
  have hV : vecNSize64 = 277 := rfl
  have hlen : (vectSetRandom sponge ctx).1.length = vecNSize64 := by
    simp [vectSetRandom, length_memcpyWords]
  refine ⟨hlen, ?_⟩
  apply Nat.lt_pow_two_of_testBit
  intro k hk
  by_cases hout : 64 * vecNSize64 ≤ k
  · exact value_testBit_out (by omega)
  · have hword : k / 64 = vecNSize64 - 1 := by omega
    rw [value_testBit, hword, List.getD_eq_getElem _ _ (by omega)]
    simp only [vectSetRandom, List.getElem_modify, if_true]
    exact redMask_testBit _ (by omega)

/-- What `vect_set_random_fixed_weight` returns, if it does, has exactly `weight` bits, at distinct
positions below `PARAM_N`, whatever the generator gives. -/
theorem vectSetRandomFixedWeight_support {v : List UInt64}
    (h : vectSetRandomFixedWeight sponge fuel ctx weight = some (v, ctx')) :
    v.length = vecNSize64 ∧ ∃ support : Finset ℕ, support.card = weight ∧
      (∀ p ∈ support, p < paramN) ∧ ∀ k, (value v).testBit k = true ↔ k ∈ support := by
  obtain ⟨⟨hlen, hlt⟩, hweight⟩ := vectSetRandomFixedWeight_spec h
  refine ⟨hlen, (Finset.range paramN).filter fun k => (value v).testBit k = true, hweight, ?_, ?_⟩
  · intro p hp
    exact Finset.mem_range.mp (Finset.mem_filter.mp hp).1
  · intro k
    rw [Finset.mem_filter, Finset.mem_range]
    refine ⟨fun hk => ⟨?_, hk⟩, fun hk => hk.2⟩
    by_contra hge
    rw [Nat.testBit_lt_two_pow (hlt.trans_le (Nat.pow_le_pow_right (by omega) (by omega)))] at hk
    cases hk

/-- The vector of the lowest positions. -/
def lowVector (weight : ℕ) : List UInt64 :=
  (List.range vecNSize64).map (supportWord (List.range weight))

theorem lowVector_lt {weight : ℕ} (hw : weight ≤ 75) : value (lowVector weight) < 2 ^ 75 := by
  have hN : paramN = 17669 := rfl
  apply Nat.lt_pow_two_of_testBit
  intro k hk
  rw [lowVector, supportVector_testBit, decide_eq_false]
  · rw [List.mem_range]
    omega
  · intro p hp
    rw [List.mem_range] at hp
    omega

theorem lowVector_isVector {weight : ℕ} (hw : weight ≤ 75) : IsVector (lowVector weight) where
  length := by
    rw [lowVector, List.length_map, List.length_range]
  lt := (lowVector_lt hw).trans_le (Nat.pow_le_pow_right (by omega) (by decide))

/-- Three bytes make up the next position; a block of 8 bytes starts over. -/
def countingSponge : Sponge ℕ where
  finalized _ := 0
  squeeze s n := ((List.range n).map fun i =>
    if (s + i) % 3 = 2 ∧ s + i < 225 then UInt8.ofNat ((s + i) / 3) else 0,
      if n = 8 then 0 else s + n)
  length_squeeze s n := by simp

theorem counting_samples : ∀ weight ∈ [paramOmega, paramOmegaR],
    (Sampler.run countingSponge weight 80
      ⟨0, List.replicate (3 * paramOmegaR) 0, 3 * weight, []⟩).map
        (fun st => (st.support, st.ctx)) = some (List.range weight, 0) := by
  decide +kernel

theorem vector_of_samples (h : (Sampler.run sponge weight fuel
      ⟨ctx, List.replicate (3 * paramOmegaR) 0, 3 * weight, []⟩).map
        (fun st => (st.support, st.ctx)) = some (List.range weight, ctx')) :
    vectSetRandomFixedWeight sponge fuel ctx weight = some (lowVector weight, ctx') := by
  rw [Option.map_eq_some_iff] at h
  obtain ⟨st, hrun, heq⟩ := h
  obtain ⟨hsupport, hctx⟩ := Prod.mk.inj heq
  rw [vectSetRandomFixedWeight, hrun, Option.map_some, hsupport, hctx]
  rfl

theorem counting_vector (weight : ℕ) (hw : weight ∈ [paramOmega, paramOmegaR]) :
    vectSetRandomFixedWeight countingSponge 80 0 weight = some (lowVector weight, 0) :=
  vector_of_samples (counting_samples weight hw)

/-- The first draw is out of range and the third gives the position of the second again, so the
last two positions come from the next block. -/
def stutteringSponge : Sponge ℕ where
  finalized _ := 0
  squeeze s n := ((List.range n).map fun i =>
    if s + i < 3 then 255 else if (s + i) % 3 = 2 then UInt8.ofNat ((s + i) / 3 - 2) else 0,
      if n = 8 then s + 1 else s + n)
  length_squeeze s n := by simp

theorem stuttering_samples : (Sampler.run stutteringSponge paramOmegaR 80
      ⟨0, List.replicate (3 * paramOmegaR) 0, 3 * paramOmegaR, []⟩).map
        (fun st => (st.support, st.ctx)) = some (List.range paramOmegaR, 450) := by
  decide +kernel

theorem vectSetRandomFixedWeight_support_stuttering :
    vectSetRandomFixedWeight stutteringSponge 80 0 paramOmegaR =
        some (lowVector paramOmegaR, 450) ∧
      (lowVector paramOmegaR).length = vecNSize64 ∧ ∃ support : Finset ℕ,
        support.card = paramOmegaR ∧ (∀ p ∈ support, p < paramN) ∧
          ∀ k, (value (lowVector paramOmegaR)).testBit k = true ↔ k ∈ support :=
  ⟨vector_of_samples stuttering_samples,
    vectSetRandomFixedWeight_support (vector_of_samples stuttering_samples)⟩

end PqcContiki

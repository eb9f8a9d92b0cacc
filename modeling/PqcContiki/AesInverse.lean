import PqcContiki.Aes

/-!
The inverse cipher undoes the cipher: step by step, with multiplication in the field of 256
elements as multiplication of polynomials.
-/
namespace PqcContiki

open AesState

variable {state : AesState} {roundKey : Bytes} {round : ℕ} {x y : UInt8}

open BitPolynomial

theorem multiply_e : multiply x 0x0e =
    xtime x ^^^ (xtime (xtime x) ^^^ xtime (xtime (xtime x))) := by
  simp [multiply, show bitAt 0x0e 0 = 0 from rfl, show bitAt 0x0e 1 = 1 from rfl,
    show bitAt 0x0e 2 = 1 from rfl, show bitAt 0x0e 3 = 1 from rfl, show bitAt 0x0e 4 = 0 from rfl,
    UInt8.xor_assoc]

theorem multiply_b : multiply x 0x0b =
    x ^^^ (xtime x ^^^ xtime (xtime (xtime x))) := by
  simp [multiply, show bitAt 0x0b 0 = 1 from rfl, show bitAt 0x0b 1 = 1 from rfl,
    show bitAt 0x0b 2 = 0 from rfl, show bitAt 0x0b 3 = 1 from rfl, show bitAt 0x0b 4 = 0 from rfl,
    UInt8.xor_assoc]

theorem multiply_d : multiply x 0x0d =
    x ^^^ (xtime (xtime x) ^^^ xtime (xtime (xtime x))) := by
  simp [multiply, show bitAt 0x0d 0 = 1 from rfl, show bitAt 0x0d 1 = 0 from rfl,
    show bitAt 0x0d 2 = 1 from rfl, show bitAt 0x0d 3 = 1 from rfl, show bitAt 0x0d 4 = 0 from rfl,
    UInt8.xor_assoc]

theorem multiply_9 : multiply x 0x09 = x ^^^ xtime (xtime (xtime x)) := by
  simp [multiply, show bitAt 0x09 0 = 1 from rfl, show bitAt 0x09 1 = 0 from rfl,
    show bitAt 0x09 2 = 0 from rfl, show bitAt 0x09 3 = 1 from rfl, show bitAt 0x09 4 = 0 from rfl]

/-- A byte as an element of the field of 256 elements. -/
noncomputable def fieldElement (x : UInt8) : AdjoinRoot (ofNat 0x11b) :=
  AdjoinRoot.mk (ofNat 0x11b) (ofNat x.toNat)

theorem fieldElement_xor : fieldElement (x ^^^ y) = fieldElement x + fieldElement y := by
  rw [fieldElement, UInt8.toNat_xor, ofNat_xor, map_add, fieldElement, fieldElement]

theorem toNat_xtime : (xtime x).toNat = 2 * x.toNat ^^^ (x.toNat / 128 * 0x11b) := by
  cases x with
  | ofBitVec v => revert v; decide +kernel

theorem fieldElement_xtime :
    fieldElement (xtime x) = AdjoinRoot.root (ofNat 0x11b) * fieldElement x := by
  have hmul : AdjoinRoot.mk (ofNat 0x11b) (ofNat (x.toNat / 128 * 0x11b)) = 0 := by
    have hcarry : x.toNat / 128 = 0 ∨ x.toNat / 128 = 1 := by
      have := x.toNat_lt
      omega
    rcases hcarry with h | h <;> simp [h, AdjoinRoot.mk_self]
  rw [fieldElement, toNat_xtime, ofNat_xor, map_add, hmul, ofNat_double, map_mul, AdjoinRoot.mk_X,
    add_zero, fieldElement]

theorem fieldElement_injective : Function.Injective fieldElement := by
  intro x y hsame
  have hdegree : ((8 : ℕ) : WithBot ℕ) ≤ (ofNat 0x11b).degree := by
    by_contra hshort
    have := lt_two_pow_of_degree (not_le.mp hshort)
    omega
  exact UInt8.toNat_inj.mp (eq_of_mk_eq hdegree x.toNat_lt y.toNat_lt hsame)

/-- The matrices of `MixColumns` and `InvMixColumns` are inverse, on a column read from any row
on. -/
theorem unmix_column (a b c d : UInt8) :
    multiply (a ^^^ (xtime (a ^^^ b) ^^^ (a ^^^ b ^^^ c ^^^ d))) 0x0e ^^^
      multiply (b ^^^ (xtime (b ^^^ c) ^^^ (a ^^^ b ^^^ c ^^^ d))) 0x0b ^^^
      multiply (c ^^^ (xtime (c ^^^ d) ^^^ (a ^^^ b ^^^ c ^^^ d))) 0x0d ^^^
      multiply (d ^^^ (xtime (d ^^^ a) ^^^ (a ^^^ b ^^^ c ^^^ d))) 0x09 = a := by
  apply fieldElement_injective
  simp only [multiply_e, multiply_b, multiply_d, multiply_9, fieldElement_xor, fieldElement_xtime]
  generalize AdjoinRoot.root (ofNat 0x11b) = r
  linear_combination ((r ^ 4 + 3 * r ^ 3 + 2 * r ^ 2 + 2 * r + 1) * fieldElement a +
    (r ^ 4 + 3 * r ^ 3 + 2 * r ^ 2 + 2 * r + 2) *
      (fieldElement b + fieldElement c + fieldElement d) -
    r ^ 2 * fieldElement d) * two_eq_zero_mod (ofNat 0x11b)

theorem sum_rotate (a b c d : UInt8) : a ^^^ b ^^^ c ^^^ d = b ^^^ c ^^^ d ^^^ a := by
  rw [UInt8.xor_comm _ a, UInt8.xor_assoc a, UInt8.xor_assoc a, UInt8.xor_assoc]

theorem invMixColumns_mixColumns : invMixColumns (mixColumns state) = state := by
  apply ext_entry
  intro i j
  have hsum : state.entry i 0 ^^^ state.entry i 1 ^^^ state.entry i 2 ^^^ state.entry i 3 =
      state.entry i j ^^^ state.entry i (j + 1) ^^^ state.entry i (j + 2) ^^^
        state.entry i (j + 3) := by
    fin_cases j
    · rfl
    · exact sum_rotate _ _ _ _
    · exact (sum_rotate _ _ _ _).trans (sum_rotate _ _ _ _)
    · exact (sum_rotate _ _ _ _).symm
  simp only [invMixColumns, mixColumns, entry_ofEntries, hsum]
  have h := unmix_column (state.entry i j) (state.entry i (j + 1)) (state.entry i (j + 2))
    (state.entry i (j + 3))
  have hone : j + 1 + 1 = j + 2 := by omega
  have htwo : j + 2 + 1 = j + 3 := by omega
  have hthree : j + 3 + 1 = j := by omega
  rw [hone, htwo, hthree]
  exact h

theorem getSBoxInvert_getSBoxValue : getSBoxInvert (getSBoxValue x) = x := by
  cases x with
  | ofBitVec v => revert v; decide +kernel

theorem invSubBytes_invShiftRows : invSubBytes (invShiftRows (shiftRows (subBytes state))) =
    state := by
  apply ext_entry
  intro i j
  simp [invSubBytes, invShiftRows, shiftRows, subBytes, getSBoxInvert_getSBoxValue]

theorem addRoundKey_addRoundKey :
    addRoundKey round roundKey (addRoundKey round roundKey state) = state := by
  apply ext_entry
  intro i j
  simp [addRoundKey]

/-- One round of `Cipher` after the first key, and of `InvCipher` before its last. -/
theorem undo_round : invMixColumns (addRoundKey round roundKey (invSubBytes (invShiftRows
    (shiftRows (subBytes (addRoundKey round roundKey
      (mixColumns (shiftRows (subBytes state))))))))) = shiftRows (subBytes state) := by
  rw [invSubBytes_invShiftRows, addRoundKey_addRoundKey, invMixColumns_mixColumns]

/-- The rounds are undone in the opposite order, half a round apart. -/
theorem undo_rounds (rounds : List ℕ) (state : AesState) :
    rounds.reverse.foldl
      (fun state round => invMixColumns (addRoundKey round roundKey
        (invSubBytes (invShiftRows state))))
      (shiftRows (subBytes (rounds.foldl
        (fun state round => addRoundKey round roundKey (mixColumns (shiftRows (subBytes state))))
        state))) = shiftRows (subBytes state) := by
  induction rounds generalizing state with
  | nil => rfl
  | cons round rounds ih =>
    simp only [List.reverse_cons, List.foldl_append, List.foldl_cons, List.foldl_nil, ih,
      undo_round]

theorem invCipher_leftInverse (roundKey : Bytes) :
    Function.LeftInverse (invCipher roundKey) (cipher roundKey) := by
  intro state
  simp only [invCipher, cipher, addRoundKey_addRoundKey]
  rw [undo_rounds, invSubBytes_invShiftRows, addRoundKey_addRoundKey]

instance finite_aesState : Finite AesState := by
  apply Finite.of_injective entry
  intro state state' hsame
  exact ext_entry fun i j => congrFun (congrFun hsame i) j

/-- `Cipher` and `InvCipher` undo each other under every expanded key. -/
theorem cipher_invCipher (roundKey : Bytes) (state : AesState) :
    invCipher roundKey (cipher roundKey state) = state ∧
      cipher roundKey (invCipher roundKey state) = state := by
  have hinjective := (invCipher_leftInverse roundKey).injective
  have hsurjective := Finite.injective_iff_surjective.mp hinjective
  exact ⟨invCipher_leftInverse roundKey state,
    (invCipher_leftInverse roundKey).rightInverse_of_surjective hsurjective state⟩

end PqcContiki

import Mathlib

/-! Decimal numbers as text: an optional minus sign, digits, a point and more digits. -/
namespace Decimal

/-- What stands before the first separator determines both halves. -/
theorem append_separator_inj {α : Type*} {a : α} {xs ys zs ws : List α} (hx : a ∉ xs) (hy : a ∉ ys)
    (h : xs ++ a :: zs = ys ++ a :: ws) : xs = ys ∧ zs = ws := by
  induction xs generalizing ys with
  | nil =>
    cases ys with
    | nil => exact ⟨rfl, (List.cons.inj h).2⟩
    | cons y ys =>
      have hay := (List.cons.inj h).1
      simp [hay] at hy
  | cons x xs ih =>
    cases ys with
    | nil =>
      have hxa := (List.cons.inj h).1
      simp [hxa] at hx
    | cons y ys =>
      obtain ⟨rfl, htail⟩ := List.cons.inj h
      have hboth := ih (fun hm => hx (List.mem_cons_of_mem x hm))
        (fun hm => hy (List.mem_cons_of_mem x hm)) htail
      exact ⟨by rw [hboth.1], hboth.2⟩

def Digits (cs : List Char) : Prop := cs ≠ [] ∧ ∀ c ∈ cs, c.isDigit = true

/-- Digits before and after the point. -/
def magnitude (ip fp : List Char) : ℚ :=
  Nat.ofDigitChars 10 ip 0 + Nat.ofDigitChars 10 fp 0 / 10 ^ fp.length

/-- The text is a decimal numeral with this value. -/
inductive Denotes : List Char → ℚ → Prop
  | plus {ip fp : List Char} (hip : Digits ip) (hfp : Digits fp) :
    Denotes (ip ++ '.' :: fp) (magnitude ip fp)
  | minus {ip fp : List Char} (hip : Digits ip) (hfp : Digits fp) :
    Denotes ('-' :: (ip ++ '.' :: fp)) (-magnitude ip fp)

/-- The text is a whole number, with or without a minus sign. -/
inductive DenotesInt : List Char → ℤ → Prop
  | plus {ds : List Char} (hds : Digits ds) : DenotesInt ds (Nat.ofDigitChars 10 ds 0)
  | minus {ds : List Char} (hds : Digits ds) :
    DenotesInt ('-' :: ds) (-(Nat.ofDigitChars 10 ds 0 : ℤ))

variable {text ip fp ip' fp' : List Char} {v w : ℚ}

theorem Digits.notMem (h : Digits ip) {c : Char} (hc : c.isDigit = false) : c ∉ ip := by
  intro hm
  rw [h.2 c hm] at hc
  cases hc

theorem digits_toDigits (n : ℕ) : Digits (Nat.toDigits 10 n) :=
  ⟨Nat.toDigits_ne_nil, fun _ hc => Nat.isDigit_of_mem_toDigits (by decide) (by decide) hc⟩

theorem point_inj (hip : Digits ip) (hip' : Digits ip') (h : ip ++ '.' :: fp = ip' ++ '.' :: fp') :
    magnitude ip fp = magnitude ip' fp' := by
  obtain ⟨rfl, rfl⟩ := append_separator_inj (hip.notMem rfl) (hip'.notMem rfl) h
  rfl

theorem minus_ne_digits (hip : Digits ip) (rest tail : List Char) :
    ip ++ rest ≠ '-' :: tail := by
  intro h
  cases ip with
  | nil => exact hip.1 rfl
  | cons c cs =>
    obtain ⟨rfl, -⟩ := List.cons.inj h
    exact hip.notMem (by rfl) List.mem_cons_self

/-- A numeral has one value. -/
theorem Denotes.unique (h : Denotes text v) (h' : Denotes text w) : v = w := by
  cases h with
  | plus hip hfp =>
    generalize ht : _ ++ '.' :: _ = t at h'
    cases h' with
    | plus hip' hfp' => exact point_inj hip hip' ht
    | minus hip' hfp' => exact absurd ht (minus_ne_digits hip _ _)
  | minus hip hfp =>
    generalize ht : '-' :: _ = t at h'
    cases h' with
    | plus hip' hfp' => exact absurd ht.symm (minus_ne_digits hip' _ _)
    | minus hip' hfp' => rw [point_inj hip hip' (List.cons.inj ht).2]

theorem Denotes.notMem (h : Denotes text v) {c : Char} (hdigit : c.isDigit = false)
    (hpoint : c ≠ '.') (hminus : c ≠ '-') : c ∉ text := by
  cases h with
  | plus hip hfp => simp [hip.notMem hdigit, hfp.notMem hdigit, hpoint]
  | minus hip hfp => simp [hip.notMem hdigit, hfp.notMem hdigit, hpoint, hminus]

theorem Denotes.noBlank (h : Denotes text v) : ' ' ∉ text :=
  h.notMem rfl (by decide) (by decide)

end Decimal

import Mathlib

/-!
A ring of slots against the history of what was put into it. Positions run on
without end and are taken modulo the number of slots, so that a lap is never
confused with the next.
-/
namespace Ring

variable {α : Type*} {n : ℕ} [NeZero n] {slots : Fin n → Option α} {history : List α}
  {freed k k' : ℕ} {a : α}

theorem ofNat_succ (k : ℕ) : Fin.ofNat n k + 1 = Fin.ofNat n (k + 1) := by
  apply Fin.ext
  simp [Fin.val_add]

/-- Two positions less than a lap apart are two slots. -/
theorem ofNat_ne (hlt : k < k') (hlap : k' < k + n) : Fin.ofNat n k ≠ Fin.ofNat n k' := by
  intro h
  have hmod : k % n = k' % n := by simpa [Fin.ext_iff] using h
  have hdvd : n ∣ k' - k := (Nat.modEq_iff_dvd' hlt.le).mp hmod
  have hle := Nat.le_of_dvd (by omega) hdvd
  omega

/-- The ring holds what was put and not yet freed, at most a lap of it. -/
structure Follows (slots : Fin n → Option α) (history : List α) (freed : ℕ) : Prop where
  freed_le : freed ≤ history.length
  lap : history.length ≤ freed + n
  occupied : ∀ k (h : k < history.length), freed ≤ k →
    slots (Fin.ofNat n k) = some history[k]
  vacant : ∀ k, history.length ≤ k → k < freed + n → slots (Fin.ofNat n k) = none

theorem Follows.empty (h : ∀ i, slots i = none) : Follows slots [] 0 where
  freed_le := le_rfl
  lap := Nat.zero_le _
  occupied k hk := by simp at hk
  vacant k _ _ := h _

/-- Within the lap, a slot is occupied exactly when its entry has been put. -/
theorem Follows.isSome_iff (h : Follows slots history freed) (hlo : freed ≤ k)
    (hhi : k < freed + n) : (slots (Fin.ofNat n k)).isSome = true ↔ k < history.length := by
  constructor
  · intro hsome
    by_contra hk
    rw [h.vacant k (by omega) hhi] at hsome
    simp at hsome
  · intro hk
    rw [h.occupied k hk hlo]
    rfl

/-- The slot at the end of the history is free exactly when less than a lap is held. -/
theorem Follows.room_iff (h : Follows slots history freed) :
    slots (Fin.ofNat n history.length) = none ↔ history.length < freed + n := by
  constructor
  · intro hnone
    by_contra hfull
    have hn : 0 < n := Nat.pos_of_ne_zero (NeZero.ne n)
    have hlen : history.length = freed + n := by have := h.lap; omega
    have hslot : Fin.ofNat n history.length = Fin.ofNat n freed := by
      apply Fin.ext
      simp [hlen]
    rw [hslot, h.occupied freed (by omega) le_rfl] at hnone
    simp at hnone
  · exact h.vacant _ le_rfl

theorem Follows.put (h : Follows slots history freed) (hroom : history.length < freed + n) :
    Follows (Function.update slots (Fin.ofNat n history.length) (some a)) (history ++ [a])
      freed where
  freed_le := by have := h.freed_le; simp; omega
  lap := by simp; omega
  occupied k hk hlo := by
    by_cases hold : k < history.length
    · have hne : Fin.ofNat n k ≠ Fin.ofNat n history.length := ofNat_ne hold (by omega)
      rw [Function.update_of_ne hne, h.occupied k hold hlo, List.getElem_append_left hold]
    · have heq : k = history.length := by simp at hk; omega
      subst heq
      simp
  vacant k hlo hhi := by
    have hlt : history.length < k := by simpa using hlo
    have hfreed := h.freed_le
    have hne : Fin.ofNat n k ≠ Fin.ofNat n history.length := (ofNat_ne hlt (by omega)).symm
    rw [Function.update_of_ne hne, h.vacant k hlt.le hhi]

theorem Follows.free (h : Follows slots history freed) (hlt : freed < history.length) :
    Follows (Function.update slots (Fin.ofNat n freed) none) history (freed + 1) where
  freed_le := hlt
  lap := by have := h.lap; omega
  occupied k hk hlo := by
    have hlap := h.lap
    have hne : Fin.ofNat n k ≠ Fin.ofNat n freed :=
      (ofNat_ne (Nat.lt_of_succ_le hlo) (by omega)).symm
    rw [Function.update_of_ne hne, h.occupied k hk (by omega)]
  vacant k hlo hhi := by
    by_cases hlast : k = freed + n
    · have hslot : Fin.ofNat n k = Fin.ofNat n freed := by
        apply Fin.ext
        simp [hlast]
      rw [hslot, Function.update_self]
    · have hne : Fin.ofNat n k ≠ Fin.ofNat n freed := (ofNat_ne (by omega) (by omega)).symm
      rw [Function.update_of_ne hne, h.vacant k hlo (by omega)]

end Ring

import Mathlib

/-!
Byte-addressed memory and bitmaps, as functions from addresses. Nothing bounds
the addresses, so that staying inside an array is a fact to prove and not a
convention of the model.
-/
namespace Memory

variable {α : Type*} {mem : ℕ → α} {off k : ℕ} {xs : List α}

/-- `memcpy(&mem[off], xs, length xs)`. -/
def blit (mem : ℕ → α) (off : ℕ) (xs : List α) : ℕ → α := fun k =>
  if h : off ≤ k ∧ k - off < xs.length then xs[k - off] else mem k

theorem blit_inside (hlo : off ≤ k) (hhi : k < off + xs.length) :
    blit mem off xs k = xs[k - off] := by
  simp [blit, hlo, show k - off < xs.length by omega]

theorem blit_outside (h : k < off ∨ off + xs.length ≤ k) : blit mem off xs k = mem k := by
  have hn : ¬ (off ≤ k ∧ k - off < xs.length) := by omega
  simp [blit, hn]

/-- The number of set entries among the first `n`. -/
def population (bits : ℕ → Bool) (n : ℕ) : ℕ :=
  ((Finset.range n).filter (fun i => bits i = true)).card

variable {bits : ℕ → Bool} {n i : ℕ}

theorem filter_update_true (hin : i < n) :
    (Finset.range n).filter (fun j => Function.update bits i true j = true) =
      insert i ((Finset.range n).filter (fun j => bits j = true)) := by
  ext j
  by_cases hj : j = i
  · subst j
    simp [hin]
  · simp [hj]

theorem population_update (hin : i < n) (hi : bits i = false) :
    population (Function.update bits i true) n = population bits n + 1 := by
  rw [population, filter_update_true hin, Finset.card_insert_of_notMem (by simp [hi])]
  rfl

theorem population_le (bits : ℕ → Bool) (n : ℕ) : population bits n ≤ n := by
  simpa [population] using Finset.card_filter_le (Finset.range n) (fun i => bits i = true)

theorem population_false (n : ℕ) : population (fun _ => false) n = 0 := by
  simp [population]

/-- A population as large as the range leaves no entry clear. -/
theorem population_eq_iff : population bits n = n ↔ ∀ i < n, bits i = true := by
  have hcard : (Finset.range n).card = n := Finset.card_range n
  constructor
  · intro h
    have heq := (Finset.card_filter_eq_iff (s := Finset.range n)
      (p := fun i => bits i = true)).mp (by rw [hcard]; exact h)
    intro i hi
    exact heq i (Finset.mem_range.mpr hi)
  · intro h
    rw [population, Finset.filter_true_of_mem (fun i hi => h i (Finset.mem_range.mp hi)), hcard]

end Memory

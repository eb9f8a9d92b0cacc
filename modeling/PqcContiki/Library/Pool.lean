import Mathlib

/-! A fixed array of slots seen as the multiset of what its occupied slots hold. -/
namespace Pool

variable {ι α : Type*} [Fintype ι] {slots : ι → Option α} {i : ι} {a : α}

/-- What one slot adds to the pool. -/
def held : Option α → Multiset α
  | none => 0
  | some a => {a}

def contents (slots : ι → Option α) : Multiset α := ∑ i, held (slots i)

theorem contents_empty (h : ∀ i, slots i = none) : contents slots = 0 := by
  simp [contents, h, held]

theorem card_contents (slots : ι → Option α) :
    (contents slots).card = (Finset.univ.filter (fun i => (slots i).isSome = true)).card := by
  rw [contents, Multiset.card_sum, Finset.card_filter]
  apply Finset.sum_congr rfl
  intro i _
  cases slots i <;> simp [held]

theorem mem_contents : a ∈ contents slots ↔ ∃ i, slots i = some a := by
  rw [contents, Multiset.mem_sum]
  constructor
  · rintro ⟨i, -, hi⟩
    refine ⟨i, ?_⟩
    cases h : slots i with
    | none => simp [h, held] at hi
    | some b => simp [h, held] at hi; rw [hi]
  · rintro ⟨i, hi⟩
    exact ⟨i, Finset.mem_univ i, by simp [hi, held]⟩

/-- There is room exactly when some slot is free. -/
theorem card_contents_lt_iff :
    (contents slots).card < Fintype.card ι ↔ ∃ i, slots i = none := by
  rw [card_contents, ← Finset.card_univ]
  constructor
  · intro h
    by_contra hn
    push Not at hn
    rw [Finset.filter_true_of_mem (fun i _ => Option.isSome_iff_ne_none.mpr (hn i))] at h
    exact lt_irrefl _ h
  · rintro ⟨i, hi⟩
    apply Finset.card_lt_card
    refine Finset.filter_ssubset.mpr ⟨i, Finset.mem_univ i, by simp [hi]⟩

section Update

variable [DecidableEq ι]

theorem contents_eq_erase (slots : ι → Option α) (i : ι) :
    contents slots = held (slots i) + ∑ j ∈ Finset.univ.erase i, held (slots j) :=
  (Finset.add_sum_erase _ _ (Finset.mem_univ i)).symm

theorem sum_erase_update (slots : ι → Option α) (i : ι) (o : Option α) :
    ∑ j ∈ Finset.univ.erase i, held (Function.update slots i o j) =
      ∑ j ∈ Finset.univ.erase i, held (slots j) := by
  apply Finset.sum_congr rfl
  intro j hj
  rw [Function.update_of_ne (Finset.ne_of_mem_erase hj)]

/-- Filling a free slot adds its value. -/
theorem contents_fill (h : slots i = none) :
    contents (Function.update slots i (some a)) = a ::ₘ contents slots := by
  rw [contents_eq_erase _ i, sum_erase_update, contents_eq_erase slots i, h]
  simp [held]

/-- Clearing an occupied slot takes its value away. -/
theorem contents_clear (h : slots i = some a) :
    contents slots = a ::ₘ contents (Function.update slots i none) := by
  rw [contents_eq_erase (Function.update slots i none) i, sum_erase_update,
    contents_eq_erase slots i, h]
  simp [held]

/-- Clearing every slot that satisfies `p` splits the pool along `p`. -/
theorem contents_clear_where (slots : ι → Option α) (p : α → Bool) :
    contents slots = (contents slots).filter (fun a => p a = true) +
      contents (fun i => (slots i).filter (fun a => !p a)) := by
  have hslot : ∀ i, held ((slots i).filter (fun a => !p a)) =
      (held (slots i)).filter (fun a => ¬ p a = true) := by
    intro i
    cases slots i with
    | none => rfl
    | some a =>
      by_cases hp : p a = true <;> simp [held, hp, Option.filter, Multiset.filter_singleton]
  have hsum : contents (fun i => (slots i).filter (fun a => !p a)) =
      (contents slots).filter (fun a => ¬ p a = true) := by
    unfold contents
    induction (Finset.univ : Finset ι) using Finset.induction_on with
    | empty => rfl
    | insert i s hi ih =>
      rw [Finset.sum_insert hi, Finset.sum_insert hi, Multiset.filter_add, ih, hslot]
  rw [hsum, Multiset.filter_add_not]

end Update

attribute [irreducible] contents

end Pool

import Mathlib
import AgentC.Library.Lists

/-! Lists that take one element of each list, in lexicographic order. -/

namespace AgentC

universe u v

variable {α : Type u} {β : Type v}

def combinations : List (List α) → List (List α)
  | [] => [[]]
  | xs :: rest => xs.flatMap fun x => (combinations rest).map (x :: ·)

theorem length_combinations (choices : List (List α)) :
    (combinations choices).length = (choices.map List.length).prod := by
  induction choices with
  | nil => rfl
  | cons xs rest ih =>
    rw [combinations, List.map_cons, List.prod_cons, ← ih]
    exact length_flatMap_const (fun x => List.length_map _) xs

theorem combinations_of_nil {choices : List (List α)} (member : [] ∈ choices) :
    combinations choices = [] := by
  rw [← List.length_eq_zero_iff, length_combinations, List.prod_eq_zero_iff_exists_zero_nat]
  exact ⟨0, List.mem_map.mpr ⟨[], member, rfl⟩, rfl⟩

theorem prod_map_le {small large : β → Nat} (le : ∀ b, small b ≤ large b) (items : List β) :
    (items.map small).prod ≤ (items.map large).prod := by
  induction items with
  | nil => exact Nat.le_refl _
  | cons item items ih => exact Nat.mul_le_mul (le item) ih

/-- Smaller factors give the same product only if they are the same, or a factor is zero. -/
theorem prod_map_eq_iff {small large : β → Nat} (le : ∀ b, small b ≤ large b) (items : List β) :
    (items.map small).prod = (items.map large).prod ↔
      (∀ item ∈ items, small item = large item) ∨ ∃ item ∈ items, large item = 0 := by
  induction items with
  | nil => simp
  | cons item items ih =>
    have smaller := prod_map_le le items
    rw [List.map_cons, List.map_cons, List.prod_cons, List.prod_cons, List.forall_mem_cons]
    simp only [List.mem_cons, exists_eq_or_imp]
    have first := le item
    by_cases zero : large item = 0
    · have none_ : small item = 0 := by omega
      simp [zero, none_]
    · by_cases nothing : (items.map large).prod = 0
      · obtain ⟨length, factor, rfl⟩ := List.prod_eq_zero_iff_exists_zero_nat.mp nothing
        obtain ⟨other, member, isZero⟩ := List.mem_map.mp factor
        have nothing' : (items.map small).prod = 0 := by omega
        rw [nothing, nothing', Nat.mul_zero, Nat.mul_zero]
        exact iff_of_true rfl (Or.inr (Or.inr ⟨other, member, isZero⟩))
      · -- Both factors are at most those of the other product, which is positive.
        have none_ : ¬ ∃ item ∈ items, large item = 0 := by
          rintro ⟨other, member, isZero⟩
          exact nothing (List.prod_eq_zero_iff_exists_zero_nat.mpr
            ⟨0, List.mem_map.mpr ⟨other, member, isZero⟩, rfl⟩)
        simp only [none_, or_false] at ih
        simp only [zero, none_, or_false]
        rw [← ih]
        constructor
        · intro same
          have factor : small item = large item := by
            by_contra different
            have less : small item < large item := by omega
            have product := Nat.mul_lt_mul_of_lt_of_le less smaller (Nat.pos_of_ne_zero nothing)
            omega
          refine ⟨factor, ?_⟩
          rw [factor] at same
          exact Nat.eq_of_mul_eq_mul_left (Nat.pos_of_ne_zero zero) same
        · rintro ⟨factor, rest⟩
          rw [factor, rest]

end AgentC

import Mathlib.Data.Nat.Count

/-! Counting the positions of a table that hold something, and how a single write changes the count. -/

namespace AgentC

variable {p q : Nat → Prop} {bound at_ mark : Nat}

theorem count_fill [DecidablePred p] [DecidablePred q] (inside : at_ < bound) (empty : ¬ p at_)
    (filled : q at_) (rest : ∀ k, k ≠ at_ → (q k ↔ p k)) :
    Nat.count q bound = Nat.count p bound + 1 := by
  -- The filled position is the last one counted at some prefix, and every other prefix step agrees.
  induction bound with
  | zero => omega
  | succ bound ih =>
    rw [Nat.count_succ, Nat.count_succ]
    by_cases last : at_ = bound
    · subst last
      have before : Nat.count q at_ = Nat.count p at_ := by
        rw [Nat.count_eq_card_filter_range, Nat.count_eq_card_filter_range]
        congr 1
        ext k
        simp only [Finset.mem_filter, Finset.mem_range]
        exact and_congr_right fun below => rest k (by omega)
      simp [before, empty, filled]
    · have earlier := ih (by omega)
      have same : q bound ↔ p bound := rest bound (fun h => last h.symm)
      by_cases held : p bound <;> simp [held, same, earlier]

theorem count_congr_below [DecidablePred p] [DecidablePred q] (same : ∀ k, k < bound → (p k ↔ q k)) :
    Nat.count p bound = Nat.count q bound := by
  -- The two filtered ranges have the same members.
  rw [Nat.count_eq_card_filter_range, Nat.count_eq_card_filter_range]
  congr 1
  ext k
  simp only [Finset.mem_filter, Finset.mem_range]
  exact and_congr_right fun below => same k below

theorem count_pos_of_held [DecidablePred p] (inside : at_ < bound) (held : p at_) :
    0 < Nat.count p bound := by
  -- A zero count would deny the position its contents.
  refine Nat.pos_of_ne_zero fun none => ?_
  exact Nat.count_iff_forall_not.mp none at_ inside held

theorem exists_empty_of_count_lt [DecidablePred p] (short : Nat.count p bound < bound) :
    ∃ at_, at_ < bound ∧ ¬ p at_ := by
  -- Were every position held, the count would be the bound.
  by_contra full
  have every : ∀ k < bound, p k := by
    intro k below
    by_contra missing
    exact full ⟨k, below, missing⟩
  have := Nat.count_iff_forall.mpr every
  omega

theorem count_le_of_below [DecidablePred p] (below : ∀ k, k < bound → p k → k < mark) :
    Nat.count p bound ≤ mark := by
  -- The held positions form a subset of the positions below the mark.
  rw [Nat.count_eq_card_filter_range]
  calc ((Finset.range bound).filter p).card
      ≤ (Finset.range mark).card := Finset.card_le_card fun k member => by
        obtain ⟨inside, held⟩ := Finset.mem_filter.mp member
        exact Finset.mem_range.mpr (below k (Finset.mem_range.mp inside) held)
    _ = mark := Finset.card_range mark

theorem count_initial [DecidablePred p] (inside : mark ≤ bound)
    (initial : ∀ k, k < bound → (p k ↔ k < mark)) : Nat.count p bound = mark := by
  -- The held positions are the positions below the mark.
  rw [Nat.count_eq_card_filter_range]
  have same : (Finset.range bound).filter p = Finset.range mark := by
    ext k
    simp only [Finset.mem_filter, Finset.mem_range]
    constructor
    · exact fun ⟨within, held⟩ => (initial k within).mp held
    · exact fun below => ⟨by omega, (initial k (by omega)).mpr below⟩
  rw [same, Finset.card_range]

theorem count_swap [DecidablePred p] [DecidablePred q] (inside : at_ < bound)
    (rest : ∀ k, k ≠ at_ → (q k ↔ p k)) :
    Nat.count q bound + (if p at_ then 1 else 0) = Nat.count p bound + (if q at_ then 1 else 0) := by
  by_cases before : p at_
  · by_cases after : q at_
    · -- Held before and after, so the predicates agree everywhere.
      have same : Nat.count q bound = Nat.count p bound := by
        refine count_congr_below fun k _ => ?_
        by_cases here : k = at_
        · subst here
          exact iff_of_true after before
        · exact rest k here
      rw [if_pos before, if_pos after, same]
    · have emptied := count_fill inside after before fun k other => (rest k other).symm
      rw [if_pos before, if_neg after, emptied]
  · by_cases after : q at_
    · have filled := count_fill inside before after rest
      rw [if_neg before, if_pos after, filled]
    · have same : Nat.count q bound = Nat.count p bound := by
        refine count_congr_below fun k _ => ?_
        by_cases here : k = at_
        · subst here
          exact iff_of_false after before
        · exact rest k here
      rw [if_neg before, if_neg after, same]

end AgentC

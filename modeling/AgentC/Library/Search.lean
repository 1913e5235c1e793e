import Mathlib.Order.Defs.Unbundled

/-! Searching among natural numbers: an initial segment from its end, and a range by halving it. -/

namespace AgentC

universe u

def lastBelow (test : Nat → Bool) : Nat → Option Nat
  | 0 => none
  | bound + 1 => if test bound then some bound else lastBelow test bound

theorem lastBelow_eq_some {test : Nat → Bool} {bound found : Nat}
    (result : lastBelow test bound = some found) :
    found < bound ∧ test found = true ∧ ∀ k, found < k → k < bound → test k = false := by
  -- The search either stops at the top candidate or has just rejected it.
  induction bound with
  | zero => simp [lastBelow] at result
  | succ bound ih =>
    simp only [lastBelow] at result
    split at result
    · rename_i passes
      cases result
      exact ⟨by omega, passes, fun k above below => by omega⟩
    · rename_i rejected
      obtain ⟨below, passes, rest⟩ := ih result
      refine ⟨by omega, passes, fun k above within => ?_⟩
      by_cases top : k = bound
      · subst top; simpa using rejected
      · exact rest k above (by omega)

theorem lastBelow_eq_none {test : Nat → Bool} {bound : Nat}
    (result : lastBelow test bound = none) : ∀ k, k < bound → test k = false := by
  -- Every candidate down to zero was rejected in turn.
  induction bound with
  | zero => intro k below; omega
  | succ bound ih =>
    simp only [lastBelow] at result
    split at result
    · simp at result
    · rename_i rejected
      intro k within
      by_cases top : k = bound
      · subst top; simpa using rejected
      · exact ih result k (by omega)

section Halving

variable {κ : Type u} [DecidableEq κ] (before : κ → κ → Prop) [DecidableRel before] (key : Nat → κ)

/-- Halving a range until the key of its middle is the wanted one, in so many turns at most. -/
def bisect (target : κ) : Nat → Nat → Nat → Option Nat
  | 0, _, _ => none
  | turns + 1, low, high =>
    if low < high then
      if key (low + (high - low) / 2) = target then some (low + (high - low) / 2)
      else if before (key (low + (high - low) / 2)) target then
        bisect target turns (low + (high - low) / 2 + 1) high
      else bisect target turns low (low + (high - low) / 2)
    else none

def Rises (low high : Nat) : Prop :=
  ∀ i j, low ≤ i → i < j → j < high → before (key i) (key j)

variable {before key} {target : κ} {turns low high found : Nat}

theorem bisect_eq_some (result : bisect before key target turns low high = some found) :
    low ≤ found ∧ found < high ∧ key found = target := by
  induction turns generalizing low high with
  | zero => cases result
  | succ turns ih =>
    unfold bisect at result
    by_cases more : low < high
    · rw [if_pos more] at result
      split at result
      case isTrue here =>
        cases result
        exact ⟨by omega, by omega, here⟩
      case isFalse =>
        split at result
        case isTrue =>
          obtain ⟨above, below, same⟩ := ih result
          exact ⟨by omega, below, same⟩
        case isFalse =>
          obtain ⟨above, below, same⟩ := ih result
          exact ⟨above, by omega, same⟩
    · rw [if_neg more] at result
      cases result

variable [IsStrictTotalOrder κ before]

theorem bisect_of_rises {place : Nat} (rises : Rises before key low high) (above : low ≤ place)
    (below : place < high) (enough : high - low ≤ turns) :
    bisect before key (key place) turns low high = some place := by
  -- The place stays in the range, which becomes smaller with every turn.
  induction turns generalizing low high with
  | zero => omega
  | succ turns ih =>
    unfold bisect
    rw [if_pos (by omega)]
    rcases Nat.lt_trichotomy (low + (high - low) / 2) place with less | same | more
    · have order := rises _ place (by omega) less below
      have apart : key (low + (high - low) / 2) ≠ key place := fun same =>
        irrefl (key place) (same ▸ order)
      rw [if_neg apart, if_pos order]
      exact ih (fun i j first less second => rises i j (by omega) less second) (by omega) below
        (by omega)
    · rw [same, if_pos rfl]
    · have order := rises place _ above more (by omega)
      have apart : key (low + (high - low) / 2) ≠ key place := fun same =>
        irrefl (key place) (same ▸ order)
      rw [if_neg apart, if_neg (asymm order)]
      exact ih (fun i j first less second => rises i j first less (by omega)) above more (by omega)

/-- Only where the keys rise is every place of the range found by its key. -/
theorem rises_of_bisect (finds : ∀ place, low ≤ place → place < high →
    bisect before key (key place) turns low high = some place) : Rises before key low high := by
  -- The middle of the range separates the keys before it from those behind it.
  induction turns generalizing low high with
  | zero =>
    intro i j first less second
    have none_ := finds j (by omega) second
    cases none_
  | succ turns ih =>
    intro i j first less second
    have more : low < high := by omega
    generalize middle : low + (high - low) / 2 = mid at *
    have unfolded (place : Nat) (above : low ≤ place) (below : place < high) :=
      finds place above below
    simp only [bisect, if_pos more, middle] at unfolded
    have behind (place : Nat) (above : mid < place) (below : place < high) :
        before (key mid) (key place) ∧
          bisect before key (key place) turns (mid + 1) high = some place := by
      have result := unfolded place (by omega) below
      split at result
      case isTrue => exact absurd (Option.some.inj result) (by omega)
      case isFalse =>
        split at result
        case isTrue order => exact ⟨order, result⟩
        case isFalse =>
          obtain ⟨_, inside, _⟩ := bisect_eq_some result
          omega
    have ahead (place : Nat) (above : low ≤ place) (below : place < mid) :
        before (key place) (key mid) ∧
          bisect before key (key place) turns low mid = some place := by
      have result := unfolded place above (by omega)
      split at result
      case isTrue => exact absurd (Option.some.inj result) (by omega)
      case isFalse apart =>
        split at result
        case isTrue =>
          obtain ⟨inside, _, _⟩ := bisect_eq_some result
          omega
        case isFalse later =>
          rcases trichotomous_of before (key mid) (key place) with order | same | order
          · exact absurd order later
          · exact absurd same apart
          · exact ⟨order, result⟩
    rcases Nat.lt_or_ge j mid with low_half | reaches
    · exact ih (fun place above below => (ahead place above below).2) i j first less low_half
    rcases Nat.lt_or_ge mid i with high_half | starts
    · exact ih (fun place above below => (behind place above below).2) i j high_half less second
    · rcases Nat.eq_or_lt_of_le reaches with rfl | beyond
      · exact (ahead i first less).1
      · rcases Nat.eq_or_lt_of_le starts with rfl | earlier
        · exact (behind j beyond second).1
        · exact IsTrans.trans _ _ _ (ahead i first earlier).1 (behind j beyond second).1

theorem bisect_iff (enough : high - low ≤ turns) :
    (∀ place, low ≤ place → place < high →
      bisect before key (key place) turns low high = some place) ↔ Rises before key low high :=
  ⟨rises_of_bisect, fun rises _ above below => bisect_of_rises rises above below enough⟩

end Halving

end AgentC

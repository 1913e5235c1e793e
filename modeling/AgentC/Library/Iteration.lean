import Mathlib.Logic.Relation

/-! Iterating a partial step: the states that it reaches, and when it comes to an end. -/

namespace AgentC

universe u v

variable {σ : Type u} (step : σ → Option σ)

def Reaches : σ → σ → Prop :=
  Relation.ReflTransGen fun s t => step s = some t

def EndsIn (s t : σ) : Prop :=
  Reaches step s t ∧ step t = none

/-- Every way of going on from a state comes to a state without a step. -/
inductive Halts : σ → Prop where
  | intro {s : σ} (rest : ∀ t, step s = some t → Halts t) : Halts s

variable {step}

variable {s t u : σ}

theorem EndsIn.of_reaches (ends : EndsIn step s u) (reaches : Reaches step s t) :
    EndsIn step t u := by
  induction reaches with
  | refl => exact ends
  | tail _ stepped ih =>
    obtain ⟨way, last⟩ := ih
    refine ⟨?_, last⟩
    -- The end is not the state that steps on, and there is only one way to go.
    rcases way.cases_head with rfl | ⟨next, first, rest⟩
    · rw [stepped] at last
      cases last
    · rw [stepped] at first
      exact Option.some.inj first ▸ rest

theorem EndsIn.unique (one : EndsIn step s t) (other : EndsIn step s u) : t = u := by
  obtain ⟨way, last⟩ := one
  rcases (other.of_reaches way).1.cases_head with rfl | ⟨next, first, _⟩
  · rfl
  · rw [last] at first
    cases first

theorem EndsIn.head (ends : EndsIn step t u) (stepped : step s = some t) :
    EndsIn step s u :=
  ⟨.head stepped ends.1, ends.2⟩

theorem Reaches.cases_step (reaches : Reaches step s u) (stepped : step s = some t) :
    u = s ∨ Reaches step t u := by
  rcases reaches.cases_head with rfl | ⟨next, first, rest⟩
  · exact Or.inl rfl
  · rw [stepped] at first
    exact Or.inr (Option.some.inj first ▸ rest)

theorem EndsIn.not_loop (ends : EndsIn step s u) (reaches : Reaches step s t) :
    step t ≠ some t := by
  intro loop
  obtain ⟨way, last⟩ := ends.of_reaches reaches
  -- Whatever the looping state reaches is that state.
  have stays : u = t := by
    clear last ends
    induction way with
    | refl => rfl
    | tail _ stepped ih =>
      rw [ih, loop] at stepped
      exact (Option.some.inj stepped).symm
  rw [stays, loop] at last
  cases last

theorem Halts.next (halts : Halts step s) (stepped : step s = some t) : Halts step t := by
  cases halts with
  | intro rest => exact rest t stepped

theorem Halts.of_reaches (halts : Halts step s) (reaches : Reaches step s t) :
    Halts step t := by
  induction reaches with
  | refl => exact halts
  | tail _ stepped ih => exact ih.next stepped

theorem not_halts_of_loop (loop : step s = some s) : ¬Halts step s := by
  intro halts
  -- The induction is on why the state halts, and the loop leads back to it each time.
  induction halts with
  | intro _ ih => exact ih _ loop loop

theorem halts_of_falls (measure : σ → Nat)
    (falls : ∀ t, Reaches step s t → ∀ u, step t = some u → measure u < measure t) :
    Halts step s := by
  -- The induction is on the measure of the state that the iteration has come to.
  generalize height : measure s = bound
  induction bound using Nat.strongRecOn generalizing s with
  | _ bound ih =>
    refine .intro fun t stepped => ?_
    have lower := falls s .refl t stepped
    refine ih (measure t) (height ▸ lower) (fun u reaches => ?_) rfl
    exact falls u (.head stepped reaches)

section Related

variable {τ : Type v} {stepped : τ → Option τ} {related : σ → τ → Prop}
  (together : ∀ s t, related s t → Option.Rel related (step s) (stepped t))

include together

end Related

section Map

variable {τ : Type v} {stepped : τ → Option τ} {f : σ → τ}
  (commutes : ∀ s, stepped (f s) = (step s).map f)

include commutes

theorem reaches_map_iff {s : σ} {t : τ} :
    Reaches stepped (f s) t ↔ ∃ s', Reaches step s s' ∧ t = f s' := by
  constructor
  · intro reaches
    induction reaches with
    | refl => exact ⟨s, .refl, rfl⟩
    | tail _ next ih =>
      obtain ⟨s', before, rfl⟩ := ih
      rw [commutes] at next
      obtain ⟨s'', last, rfl⟩ := Option.map_eq_some_iff.mp next
      exact ⟨s'', before.tail last, rfl⟩
  · rintro ⟨s', reaches, rfl⟩
    induction reaches with
    | refl => exact .refl
    | tail _ next ih => exact ih.tail (by rw [commutes, next, Option.map_some])

theorem endsIn_map {s t : σ} (ends : EndsIn step s t) : EndsIn stepped (f s) (f t) :=
  ⟨(reaches_map_iff commutes).mpr ⟨t, ends.1, rfl⟩, by rw [commutes, ends.2, Option.map_none]⟩

end Map

end AgentC

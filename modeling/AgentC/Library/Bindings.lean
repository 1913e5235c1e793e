import Mathlib.Data.Finset.Card
import Mathlib.Logic.Function.Iterate
import Mathlib.Logic.Relation
import AgentC.Library.Terms

/-! Bindings of variables to terms that mention further variables, and what they say together. -/

namespace AgentC

universe u v

abbrev Bindings (V : Type u) (F : Type v) := List (V × Tm V F)

namespace Bindings

variable {V : Type u} {F : Type v} [DecidableEq V] {σ : Bindings V F} {θ : V → Tm V F}

def Solves (θ : V → Tm V F) (σ : Bindings V F) : Prop :=
  ∀ x t, σ.lookup x = some t → θ x = t.apply θ

def Depends (σ : Bindings V F) (x y : V) : Prop :=
  ∃ t, σ.lookup x = some t ∧ t.Occurs y

def Acyclic (σ : Bindings V F) : Prop :=
  ∀ x, ¬ Relation.TransGen σ.Depends x x

def once (σ : Bindings V F) (x : V) : Tm V F :=
  (σ.lookup x).getD (.var x)

def full (σ : Bindings V F) (t : Tm V F) : Tm V F :=
  (Tm.apply σ.once)^[σ.length] t

def Settles (σ : Bindings V F) (t : Tm V F) : Prop :=
  ∀ x, t.Occurs x → σ.lookup x = none

/-- A height for every variable that falls along dependencies. -/
structure Ranks (σ : Bindings V F) (rank : V → Nat) : Prop where
  falls : ∀ x y, σ.Depends x y → rank y < rank x
  bound : ∀ x, σ.lookup x ≠ none → 0 < rank x
  free : ∀ x, σ.lookup x = none → rank x = 0
  limited : ∀ x, rank x ≤ σ.length

theorem acyclic_of_falls (rank : V → Nat) (falls : ∀ x y, σ.Depends x y → rank y < rank x) :
    σ.Acyclic := by
  have descends : ∀ x y, Relation.TransGen σ.Depends x y → rank y < rank x := by
    intro x y path
    induction path with
    | single step => exact falls _ _ step
    | tail _ step ih => exact (falls _ _ step).trans ih
  exact fun x cycle => lt_irrefl _ (descends x x cycle)

variable {x : V} {t : Tm V F}

theorem mem_keys_of_lookup (bound : σ.lookup x ≠ none) : x ∈ σ.map Prod.fst := by
  induction σ with
  | nil => simp at bound
  | cons entry rest ih =>
    rcases entry with ⟨y, t⟩
    by_cases here : x = y
    · exact List.mem_cons.mpr (Or.inl here)
    · rw [List.lookup_cons, beq_false_of_ne here] at bound
      exact List.mem_cons_of_mem _ (ih bound)

/-- Without cycles, counting the bound variables below each variable ranks them. -/
theorem Acyclic.exists_ranks (acyclic : σ.Acyclic) : ∃ rank, σ.Ranks rank := by
  classical
  let below (x : V) : Finset V :=
    (σ.map Prod.fst).toFinset.filter fun y =>
      σ.lookup y ≠ none ∧ Relation.ReflTransGen σ.Depends x y
  have own : ∀ x, σ.lookup x ≠ none → x ∈ below x := fun x bound =>
    Finset.mem_filter.mpr ⟨List.mem_toFinset.mpr (mem_keys_of_lookup bound), bound, .refl⟩
  refine ⟨fun x => (below x).card, ?_, ?_, ?_, ?_⟩
  · intro x y step
    -- What is below the dependent variable is below the other, which is not below it in turn.
    have bound : σ.lookup x ≠ none := by
      obtain ⟨t, found, _⟩ := step
      simp [found]
    refine Finset.card_lt_card (Finset.ssubset_iff_subset_ne.mpr ⟨?_, ?_⟩)
    · intro z member
      obtain ⟨listed, boundZ, path⟩ := Finset.mem_filter.mp member
      exact Finset.mem_filter.mpr ⟨listed, boundZ, .head step path⟩
    · intro same
      have back : x ∈ below y := same ▸ own x bound
      have path := (Finset.mem_filter.mp back).2.2
      exact acyclic x (Relation.TransGen.head' step path)
  · intro x bound
    exact Finset.card_pos.mpr ⟨x, own x bound⟩
  · intro x unbound
    -- An unbound variable depends on nothing, and is not counted itself.
    refine Finset.card_eq_zero.mpr (Finset.eq_empty_of_forall_notMem fun y member => ?_)
    obtain ⟨_, bound, path⟩ := Finset.mem_filter.mp member
    rcases Relation.ReflTransGen.cases_head path with same | ⟨z, ⟨t, found, _⟩, _⟩
    · exact bound (same ▸ unbound)
    · rw [unbound] at found
      simp at found
  · intro x
    calc (below x).card ≤ (σ.map Prod.fst).toFinset.card := Finset.card_filter_le _ _
      _ ≤ (σ.map Prod.fst).length := List.toFinset_card_le _
      _ = σ.length := List.length_map _

theorem Settles.apply_once (settled : σ.Settles t) : t.apply σ.once = t :=
  t.apply_eq_self fun x inside => by rw [once, settled x inside, Option.getD_none]

theorem settles_iterate {rank : V → Nat} (ranks : σ.Ranks rank) (height : Nat) : ∀ t : Tm V F,
    (∀ x, t.Occurs x → rank x ≤ height) → σ.Settles ((Tm.apply σ.once)^[height] t) := by
  -- Every round of replacement lowers the greatest height by one.
  induction height with
  | zero =>
    intro t low x inside
    by_contra bound
    have positive := ranks.bound x bound
    have zero := low x inside
    omega
  | succ height ih =>
    intro t low
    rw [Function.iterate_succ_apply]
    refine ih _ fun y inside => ?_
    obtain ⟨x, within, reached⟩ := Tm.occurs_apply.mp inside
    have lowX := low x within
    cases found : σ.lookup x with
    | none =>
      rw [once, found, Option.getD_none, Tm.occurs_var] at reached
      subst reached
      have zero := ranks.free y found
      omega
    | some s =>
      rw [once, found, Option.getD_some] at reached
      have lower := ranks.falls x y ⟨s, found, reached⟩
      omega

theorem Acyclic.settles_full (acyclic : σ.Acyclic) (t : Tm V F) : σ.Settles (σ.full t) := by
  obtain ⟨rank, ranks⟩ := acyclic.exists_ranks
  exact settles_iterate ranks σ.length t fun x _ => ranks.limited x

theorem Acyclic.full_once (acyclic : σ.Acyclic) (t : Tm V F) :
    σ.full (t.apply σ.once) = σ.full t := by
  calc σ.full (t.apply σ.once) = (σ.full t).apply σ.once :=
        (Function.iterate_succ_apply _ _ t).symm.trans (Function.iterate_succ_apply' _ _ t)
    _ = σ.full t := (acyclic.settles_full t).apply_once

theorem Acyclic.full_of_lookup (acyclic : σ.Acyclic) (found : σ.lookup x = some t) :
    σ.full (.var x) = σ.full t := by
  rw [← acyclic.full_once (.var x), Tm.apply_var, once, found, Option.getD_some]

theorem full_of_unbound (unbound : σ.lookup x = none) : σ.full (.var x) = .var x := by
  have stays : (Tm.var x : Tm V F).apply σ.once = .var x := by
    rw [Tm.apply_var, once, unbound, Option.getD_none]
  exact Function.iterate_fixed stays σ.length

@[simp] theorem full_app (f : F) (args : List (Tm V F)) :
    σ.full (.app f args) = .app f (args.map σ.full) := by
  -- Each round replaces in all arguments at once.
  have rounds : ∀ (count : Nat) (args : List (Tm V F)),
      (Tm.apply σ.once)^[count] (.app f args) = .app f (args.map (Tm.apply σ.once)^[count]) := by
    intro count
    induction count with
    | zero => intro args; simp
    | succ count ih =>
      intro args
      rw [Function.iterate_succ_apply, Tm.apply_app, ih, List.map_map]
      rfl
  exact rounds σ.length args

theorem full_eq_apply (t : Tm V F) : σ.full t = t.apply fun x => σ.full (.var x) := by
  induction t using Tm.induct with
  | var x => simp
  | app f args ih =>
    rw [full_app, Tm.apply_app]
    exact congrArg (Tm.app f) (List.map_congr_left ih)

theorem Acyclic.solves_full (acyclic : σ.Acyclic) : Solves (fun x => σ.full (.var x)) σ := by
  intro x t found
  rw [← full_eq_apply]
  exact acyclic.full_of_lookup found

theorem Solves.apply_full (solves : Solves θ σ) (t : Tm V F) : (σ.full t).apply θ = t.apply θ := by
  -- One round replaces variables by terms that the solution makes equal to them.
  have round : ∀ t : Tm V F, (t.apply σ.once).apply θ = t.apply θ := by
    intro t
    rw [Tm.apply_apply]
    refine t.apply_congr fun x _ => ?_
    cases found : σ.lookup x with
    | none => simp [once, found]
    | some s => simp [once, found, solves x s found]
  have rounds : ∀ (count : Nat) (t : Tm V F),
      ((Tm.apply σ.once)^[count] t).apply θ = t.apply θ := by
    intro count
    induction count with
    | zero => exact fun t => rfl
    | succ count ih => exact fun t => (ih _).trans (round t)
  exact rounds σ.length t

theorem solves_cons (unbound : σ.lookup x = none) :
    Solves θ ((x, t) :: σ) ↔ Solves θ σ ∧ θ x = t.apply θ := by
  constructor
  · intro solves
    refine ⟨fun y s found => solves y s ?_, solves x t (by simp)⟩
    have different : y ≠ x := fun here => by simp [here, unbound] at found
    rw [List.lookup_cons, beq_false_of_ne different]
    exact found
  · rintro ⟨solves, equation⟩ y s found
    by_cases here : y = x
    · subst here
      simp only [List.lookup_cons, beq_self_eq_true, Option.some.injEq] at found
      exact found ▸ equation
    · rw [List.lookup_cons, beq_false_of_ne here] at found
      exact solves y s found

/-- Binding a variable to a term it does not occur in, once replaced, makes no cycle. -/
theorem Acyclic.cons (acyclic : σ.Acyclic) (unbound : σ.lookup x = none)
    (absent : ¬ (σ.full t).Occurs x) : Acyclic ((x, t) :: σ) := by
  classical
  obtain ⟨rank, ranks⟩ := acyclic.exists_ranks
  -- Variables that lead to the new one are lifted above every variable that does not.
  let leads (y : V) : Prop := (σ.full (.var y)).Occurs x
  let lifted (y : V) : Nat := rank y + if leads y then σ.length + 1 else 0
  have inside : ∀ (s : Tm V F) (y : V), s.Occurs y → leads y → (σ.full s).Occurs x := by
    intro s y within lead
    rw [full_eq_apply, Tm.occurs_apply]
    exact ⟨y, within, lead⟩
  refine acyclic_of_falls lifted ?_
  rintro y z ⟨s, found, within⟩
  by_cases here : y = x
  · subst here
    simp only [List.lookup_cons, beq_self_eq_true, Option.some.injEq] at found
    subst found
    -- The new variable leads to itself, and no variable of its term does.
    have own : leads y := by
      show (σ.full (.var y)).Occurs y
      rw [full_of_unbound unbound]
      exact .var
    have other : ¬ leads z := fun lead => absent (inside _ z within lead)
    have limited := ranks.limited z
    simp only [lifted, own, other, if_true, if_false]
    omega
  · rw [List.lookup_cons, beq_false_of_ne here] at found
    have lower := ranks.falls y z ⟨s, found, within⟩
    have carried : leads z → leads y := by
      intro lead
      show (σ.full (.var y)).Occurs x
      rw [acyclic.full_of_lookup found]
      exact inside s z within lead
    simp only [lifted]
    split
    · rename_i lead
      rw [if_pos (carried lead)]
      omega
    · split <;> omega

theorem Acyclic.full_cons (acyclic : σ.Acyclic) (unbound : σ.lookup x = none)
    (absent : ¬ (σ.full t).Occurs x) (u : Tm V F) :
    full ((x, t) :: σ) u = (σ.full u).apply fun y => if y = x then σ.full t else .var y := by
  have extended : Acyclic ((x, t) :: σ) := acyclic.cons unbound absent
  have solves := ((solves_cons unbound).mp extended.solves_full).1
  have replaced : ∀ u, full ((x, t) :: σ) u = (σ.full u).apply fun y => full ((x, t) :: σ) (.var y) :=
    fun u => by rw [solves.apply_full, ← full_eq_apply]
  -- What is left after full replacement is unbound, but for the new variable.
  have free : ∀ u y, (σ.full u).Occurs y → y ≠ x → full ((x, t) :: σ) (.var y) = .var y := by
    intro u y inside apart
    refine full_of_unbound ?_
    rw [List.lookup_cons, beq_false_of_ne apart]
    exact acyclic.settles_full u y inside
  have own : full ((x, t) :: σ) (.var x) = σ.full t := by
    have found : ((x, t) :: σ).lookup x = some t := by simp
    rw [extended.full_of_lookup found, replaced t]
    exact (σ.full t).apply_eq_self fun y inside => free t y inside fun same => absent (same ▸ inside)
  rw [replaced u]
  refine (σ.full u).apply_congr fun y inside => ?_
  by_cases same : y = x
  · rw [if_pos same, same, own]
  · rw [if_neg same, free u y inside same]

end Bindings

end AgentC

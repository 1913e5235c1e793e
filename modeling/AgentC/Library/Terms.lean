import Mathlib.Algebra.GroupWithZero.Nat
import Mathlib.Algebra.Order.BigOperators.Group.List
import Mathlib.Algebra.Order.Group.Nat
import Mathlib.Data.List.Basic
import Mathlib.Data.Set.Finite.Lattice
import Mathlib.Data.Set.Finite.List

/-! First-order terms over variables and symbols, and the substitutions that act on them. -/

namespace AgentC

universe u v

/-- A term is a variable, or a symbol applied to terms. -/
inductive Tm (V : Type u) (F : Type v) where
  | var (x : V)
  | app (f : F) (args : List (Tm V F))

namespace Tm

variable {V : Type u} {F : Type v}

theorem induct {property : Tm V F → Prop} (var : ∀ x, property (.var x))
    (app : ∀ f args, (∀ t ∈ args, property t) → property (.app f args)) : ∀ t, property t
  | .var x => var x
  | .app f args => app f args fun t _ => induct var app t

/-- A variable that stands somewhere in a term. -/
inductive Occurs (x : V) : Tm V F → Prop where
  | var : Occurs x (.var x)
  | app {f : F} {args : List (Tm V F)} {t : Tm V F} (member : t ∈ args) (inside : Occurs x t) :
      Occurs x (.app f args)

variable {x : V} {θ : V → Tm V F} {t : Tm V F}

@[simp] theorem occurs_var {y : V} : Occurs x (.var y : Tm V F) ↔ x = y :=
  ⟨fun inside => by cases inside; rfl, fun same => same ▸ .var⟩

@[simp] theorem occurs_app {f : F} {args : List (Tm V F)} :
    Occurs x (.app f args) ↔ ∃ t ∈ args, Occurs x t :=
  ⟨fun inside => by cases inside with | app member inside => exact ⟨_, member, inside⟩,
    fun ⟨_, member, inside⟩ => .app member inside⟩

theorem finite_occurs (t : Tm V F) : {x | t.Occurs x}.Finite := by
  induction t using induct with
  | var x => simp
  | app f args ih =>
    -- The variables of an application are those of its finitely many arguments.
    have union : {x | (app f args).Occurs x} = ⋃ t ∈ {t | t ∈ args}, {x | t.Occurs x} := by
      ext x
      simp
    rw [union]
    exact args.finite_toSet.biUnion ih

def apply (θ : V → Tm V F) : Tm V F → Tm V F
  | .var x => θ x
  | .app f args => .app f (args.map fun t => apply θ t)

@[simp] theorem apply_var (θ : V → Tm V F) (x : V) : (var x).apply θ = θ x := by
  rw [apply]

@[simp] theorem apply_app (θ : V → Tm V F) (f : F) (args : List (Tm V F)) :
    (app f args).apply θ = app f (args.map (apply θ)) := by
  rw [apply]

theorem apply_congr {ψ : V → Tm V F} (t : Tm V F) (same : ∀ x, t.Occurs x → θ x = ψ x) :
    t.apply θ = t.apply ψ := by
  induction t using induct with
  | var x => simpa using same x .var
  | app f args ih =>
    -- Each argument has only variables of the whole term.
    simp only [apply_app, app.injEq, true_and]
    exact List.map_congr_left fun t member => ih t member fun x inside => same x (.app member inside)

theorem apply_eq_self (t : Tm V F) (same : ∀ x, t.Occurs x → θ x = .var x) :
    t.apply θ = t := by
  induction t using induct with
  | var x => simpa using same x .var
  | app f args ih =>
    simp only [apply_app, app.injEq, true_and]
    exact (List.map_congr_left fun t member =>
      ih t member fun x inside => same x (.app member inside)).trans args.map_id

theorem apply_apply (θ ψ : V → Tm V F) (t : Tm V F) :
    (t.apply θ).apply ψ = t.apply fun x => (θ x).apply ψ := by
  induction t using induct with
  | var x => simp
  | app f args ih => simpa using ih

theorem occurs_apply {y : V} :
    (t.apply θ).Occurs y ↔ ∃ x, t.Occurs x ∧ (θ x).Occurs y := by
  induction t using induct with
  | var x => simp
  | app f args ih =>
    simp only [apply_app, occurs_app, List.mem_map, exists_exists_and_eq_and]
    constructor
    · rintro ⟨t, member, inside⟩
      obtain ⟨x, within, reached⟩ := (ih t member).mp inside
      exact ⟨x, ⟨t, member, within⟩, reached⟩
    · rintro ⟨x, ⟨t, member, within⟩, reached⟩
      exact ⟨t, member, (ih t member).mpr ⟨x, within, reached⟩⟩

def size : Tm V F → Nat
  | .var _ => 1
  | .app _ args => 1 + (args.map size).sum

theorem size_lt_of_mem {f : F} {args : List (Tm V F)} (member : t ∈ args) :
    t.size < (app f args).size := by
  rw [size]
  have below : t.size ≤ (args.map size).sum := List.single_le_sum (by simp) _ (List.mem_map_of_mem member)
  omega

end Tm

end AgentC

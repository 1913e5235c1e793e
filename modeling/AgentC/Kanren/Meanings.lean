import AgentC.Kanren.MostGeneral

/-! Unification of terms whose meaning is known: variables, null and pairs. -/

namespace AgentC.Kanren

open Bindings

def Old (s : State) (t : LogicTerm) : Prop :=
  ∀ x, t.Occurs x → x < s.count

/-- A state without cycles in which the variables that are still to come are new. -/
structure State.Counted (s : State) : Prop where
  acyclic : s.bindings.Acyclic
  unbound : ∀ x, s.count ≤ x → s.bindings.lookup x = none
  within : ∀ x, x < s.count → Old s (s.bindings.full (.var x))

def assign (x : Int) (l : LogicTerm) (y : Int) : LogicTerm :=
  if y = x then l else .var y

section Assign

variable {x y : Int} {l t : LogicTerm}

@[simp] theorem assign_self : assign x l x = l :=
  if_pos rfl

theorem assign_ne (apart : y ≠ x) : assign x l y = .var y :=
  if_neg apart

end Assign

section Counted

variable {s t : State} {x : Int} {l : LogicTerm} {u : LogicTerm}

theorem State.Counted.full_new (counted : s.Counted) (new : s.count ≤ x) :
    s.bindings.full (.var x) = .var x :=
  full_of_unbound (counted.unbound x new)

theorem State.Counted.later (counted : s.Counted) (sub : t.sub = s.sub) (count : s.count ≤ t.count) :
    t.Counted := by
  have same : t.bindings = s.bindings := congrArg eraseSub sub
  refine ⟨same ▸ counted.acyclic, fun x new => ?_, fun x old y inside => ?_⟩
  · rw [same]
    exact counted.unbound x (by omega)
  · rw [same] at inside
    by_cases before : x < s.count
    · have below := counted.within x before y inside
      omega
    · -- A variable taken since then stands for itself.
      rw [counted.full_new (by omega), Tm.occurs_var] at inside
      omega

/-- A state that means the same as before but for one variable, which has got a meaning. -/
structure Assigned (s t : State) (x : Int) (l : LogicTerm) : Prop where
  counted : t.Counted
  count : t.count = s.count
  full : ∀ u, t.bindings.full u = (s.bindings.full u).apply (assign x l)

theorem State.Counted.extend (counted : s.Counted) {w : Term} (unbound : s.bindings.lookup x = none)
    (before : x < s.count) (old : Old s (s.bindings.full w.erase))
    (absent : ¬(s.bindings.full w.erase).Occurs x) :
    Assigned s (s.extend x w) x (s.bindings.full w.erase) := by
  have full (u : LogicTerm) : (s.extend x w).bindings.full u =
      (s.bindings.full u).apply (assign x (s.bindings.full w.erase)) := by
    rw [extend_bindings]
    exact counted.acyclic.full_cons unbound absent u
  refine ⟨⟨?_, fun y new => ?_, fun y early z inside => ?_⟩, rfl, full⟩
  · rw [extend_bindings]
    exact counted.acyclic.cons unbound absent
  · have apart : y ≠ x := by
      have new : s.count ≤ y := new
      omega
    rw [extend_bindings, List.lookup_cons, beq_false_of_ne apart]
    exact counted.unbound y new
  · -- The meaning of an old variable has old variables, which are kept or replaced by old terms.
    rw [full, Tm.occurs_apply] at inside
    obtain ⟨y', within, reached⟩ := inside
    by_cases same : y' = x
    · rw [same, assign_self] at reached
      exact old z reached
    · rw [assign_ne same, Tm.occurs_var] at reached
      exact reached ▸ counted.within y early y' within

end Counted

section Returns

variable {s : State} {u v : Term} {x : Int}

theorem State.Counted.walks (counted : s.Counted) (u v : Term) : ∃ fuel u' v',
    walk fuel s.sub u = some u' ∧ walk fuel s.sub v = some v' ∧
      s.bindings.full u'.erase = s.bindings.full u.erase ∧
      s.bindings.full v'.erase = s.bindings.full v.erase := by
  obtain ⟨u', walkedU⟩ := walk_terminates counted.acyclic u
  obtain ⟨v', walkedV⟩ := walk_terminates counted.acyclic v
  exact ⟨_, u', v', walkedU, walkedV, walk_full counted.acyclic walkedU, walk_full counted.acyclic walkedV⟩

variable {fuel : Nat} {w : Term} {head tail : LogicTerm}

def nullTerm : LogicTerm :=
  .app (.dict []) []

def pairTerm (head tail : LogicTerm) : LogicTerm :=
  .app .list [tail, head]

end Returns

end AgentC.Kanren

import AgentC.Kanren.UnifyEnds

/-! Unification is most general, and the answers of goals can be walked and reified. -/

namespace AgentC.Kanren

open Bindings

def Returns (s : State) (u v : Term) (r : Option State) : Prop :=
  ∃ fuel, unify fuel s u v = some r

def NeverOccurs (s : State) (u v : Term) : Prop :=
  ∀ fuel, ∀ m ∈ met fuel s u v, OccursFree m

variable {s : State} {u v : Term}

theorem Returns.unique {r r' : Option State} (first : Returns s u v r) (second : Returns s u v r') :
    r = r' := by
  obtain ⟨fuel, ran⟩ := first
  obtain ⟨fuel', ran'⟩ := second
  have left := unify_mono (le_max_left fuel fuel') ran
  have right := unify_mono (le_max_right fuel fuel') ran'
  exact Option.some.inj (left.symm.trans right)

theorem Grows.solves {r : State} (grows : Grows s r) (acyclic : r.bindings.Acyclic) :
    Solves (fun x => r.bindings.full (.var x)) s.bindings :=
  fun x t found => acyclic.solves_full x t (grows x t found)

/-- Finitely many variables occur in a unification problem. -/
theorem exists_scope (s : State) (u v : Term) :
    ∃ scope, s.Within scope ∧ Within scope u.erase ∧ Within scope v.erase := by
  -- Those of the substitution are collected along its list.
  have listed : ∀ σ : Bindings Int Symbol, ∃ scope : Finset Int, ∀ entry ∈ σ, Within scope entry.2 := by
    intro σ
    induction σ with
    | nil => exact ⟨∅, fun _ member => absurd member List.not_mem_nil⟩
    | cons entry rest ih =>
      obtain ⟨scope, covers⟩ := ih
      refine ⟨scope ∪ (Tm.finite_occurs entry.2).toFinset, fun other member x inside => ?_⟩
      rcases List.mem_cons.mp member with rfl | deeper
      · exact Finset.mem_union_right _ ((Tm.finite_occurs other.2).mem_toFinset.mpr inside)
      · exact Finset.mem_union_left _ (covers other deeper x inside)
  obtain ⟨scope, covers⟩ := listed s.bindings
  refine ⟨scope ∪ (Tm.finite_occurs u.erase).toFinset ∪ (Tm.finite_occurs v.erase).toFinset,
    fun x l found y inside => ?_, fun x inside => ?_, fun x inside => ?_⟩
  · obtain ⟨before, after, split, _⟩ := List.lookup_eq_some_iff.mp found
    have member : (x, l) ∈ s.bindings := by
      rw [split]
      exact List.mem_append_right _ List.mem_cons_self
    exact Finset.mem_union_left _ (Finset.mem_union_left _ (covers _ member y inside))
  · exact Finset.mem_union_left _ (Finset.mem_union_right _
      ((Tm.finite_occurs u.erase).mem_toFinset.mpr inside))
  · exact Finset.mem_union_right _ ((Tm.finite_occurs v.erase).mem_toFinset.mpr inside)

theorem NeverOccurs.returns (free : NeverOccurs s u v) (acyclic : s.bindings.Acyclic) :
    ∃ r, Returns s u v r := by
  obtain ⟨scope, inState, left, right⟩ := exists_scope s u v
  obtain ⟨fuel, r, ran⟩ := Tame.ends _ _ s u v rfl rfl ⟨inState, left, right, acyclic, free⟩
  exact ⟨r, fuel, ran⟩

end AgentC.Kanren

namespace AgentC.Kanren

open Bindings

variable {ι : Type} {relations : ι → List Term → Goal ι}

theorem Goal.Answers.acyclic {goal : Goal ι} {s t : State} {calls : List UnifyCall}
    (answer : goal.Answers relations s calls t) (acyclic : s.bindings.Acyclic)
    (free : ∀ call ∈ calls, NeverOccurs call.state call.u call.v) : t.bindings.Acyclic := by
  -- Only unification changes the substitution, and each of its calls keeps it acyclic.
  induction answer with
  | @equal u v s t fuel unified =>
    exact unify_acyclic unified acyclic (free _ List.mem_cons_self fuel)
  | succeed => exact acyclic
  | conj _ _ ihFirst ihSecond =>
    have between := ihFirst acyclic fun call member => free call (List.mem_append_left _ member)
    exact ihSecond between fun call member => free call (List.mem_append_right _ member)
  | left _ ih => exact ih acyclic free
  | right _ ih => exact ih acyclic free
  | callFresh _ ih => exact ih acyclic free
  | call _ ih => exact ih acyclic free

end AgentC.Kanren

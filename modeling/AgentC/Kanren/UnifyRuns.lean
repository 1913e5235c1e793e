import AgentC.Kanren.UnifyLaws

/-! What whole runs of unification keep: the solutions, the bindings already made, acyclicity. -/

namespace AgentC.Kanren

open Bindings

/--
What holds of every single verdict, and is carried through the loop over children, holds of every run.

`one` is about runs of `unify`, and `each` about runs of its loop.
-/
theorem unify_induct (one : State → Term → Term → List Met → Option State → Prop)
    (each : State → List (String × Term) → List (String × Term) → List Met → Option State → Prop)
    (done : ∀ {fuel s u v u' v'}, walk fuel s.sub u = some u' → walk fuel s.sub v = some v' →
      judge u' v' = .done → one s u v [⟨s, u', v'⟩] (some s))
    (bind : ∀ {fuel s u v u' v' id value}, walk fuel s.sub u = some u' → walk fuel s.sub v = some v' →
      judge u' v' = .bind id value → one s u v [⟨s, u', v'⟩] (some (s.extend id value)))
    (descend : ∀ {fuel s u v u' v' lhs rhs ms r}, walk fuel s.sub u = some u' →
      walk fuel s.sub v = some v' → judge u' v' = .descend lhs rhs → each s lhs rhs ms r →
      one s u v (⟨s, u', v'⟩ :: ms) r)
    (fail : ∀ {fuel s u v u' v'}, walk fuel s.sub u = some u' → walk fuel s.sub v = some v' →
      judge u' v' = .fail → one s u v [⟨s, u', v'⟩] none)
    (finish : ∀ {s lhs rhs}, lhs = [] ∨ rhs = [] → each s lhs rhs [] (some s))
    (mismatch : ∀ {s name name' c c' lhs rhs}, name ≠ name' →
      each s ((name, c) :: lhs) ((name', c') :: rhs) [] none)
    (stuck : ∀ {s name c c' lhs rhs ms}, one s c c' ms none →
      each s ((name, c) :: lhs) ((name, c') :: rhs) ms none)
    (next : ∀ {s t name c c' lhs rhs ms ms' r}, one s c c' ms (some t) → each t lhs rhs ms' r →
      each s ((name, c) :: lhs) ((name, c') :: rhs) (ms ++ ms') r) :
    ∀ (fuel : Nat) (s : State) (u v : Term) (r : Option State),
      unify fuel s u v = some r → one s u v (met fuel s u v) r := by
  -- The induction is on the fuel, and inside it on the children still to be compared.
  intro fuel
  induction fuel with
  | zero => intro s u v r ran; simp [unify] at ran
  | succ fuel ih =>
    have loop : ∀ (lhs rhs : List (String × Term)) (s : State) (r : Option State),
        unifyEach (unify fuel) s lhs rhs = some r →
          each s lhs rhs (metEach (unify fuel) (met fuel) s lhs rhs) r := by
      intro lhs
      induction lhs with
      | nil =>
        intro rhs s r ran
        simp only [unifyEach, Option.some.injEq] at ran
        subst ran
        exact finish (Or.inl rfl)
      | cons field lhs ihLoop =>
        intro rhs s r ran
        rcases field with ⟨name, c⟩
        cases rhs with
        | nil =>
          simp only [unifyEach, Option.some.injEq] at ran
          subst ran
          exact finish (Or.inr rfl)
        | cons field' rhs =>
          rcases field' with ⟨name', c'⟩
          by_cases names : name = name'
          · subst names
            simp only [unifyEach, metEach, ne_eq, not_true_eq_false, if_false] at ran ⊢
            cases first : unify fuel s c c' with
            | none => simp [first] at ran
            | some result =>
              cases result with
              | none =>
                simp only [first, Option.some.injEq] at ran
                subst ran
                simp only [List.append_nil]
                exact stuck (ih s c c' none first)
              | some t =>
                simp only [first] at ran ⊢
                exact next (ih s c c' (some t) first) (ihLoop rhs t r ran)
          · simp only [unifyEach, metEach, ne_eq, names, not_false_eq_true, if_true,
              Option.some.injEq] at ran ⊢
            subst ran
            exact mismatch names
    intro s u v r ran
    cases walkedU : walk fuel s.sub u with
    | none => simp [unify, walkedU] at ran
    | some u' =>
      cases walkedV : walk fuel s.sub v with
      | none => simp [unify, walkedU, walkedV] at ran
      | some v' =>
        simp only [unify, met, walkedU, walkedV] at ran ⊢
        cases verdict : judge u' v' with
        | done =>
          simp only [verdict, Option.some.injEq] at ran ⊢
          subst ran
          exact done walkedU walkedV verdict
        | bind id value =>
          simp only [verdict, Option.some.injEq] at ran ⊢
          subst ran
          exact bind walkedU walkedV verdict
        | descend lhs rhs =>
          simp only [verdict] at ran ⊢
          exact descend walkedU walkedV verdict (loop lhs rhs s r ran)
        | fail =>
          simp only [verdict, Option.some.injEq] at ran ⊢
          subst ran
          exact fail walkedU walkedV verdict

variable {fuel : Nat} {s : State} {u v : Term}

theorem bind_spec {u' v' value : Term} {id : Int} (walkedU : walk fuel s.sub u = some u')
    (walkedV : walk fuel s.sub v = some v') (verdict : judge u' v' = .bind id value) :
    s.bindings.lookup id = none ∧
      ((u'.erase = .var id ∧ value = v') ∨ (v'.erase = .var id ∧ value = u')) := by
  have cases_ := judged u' v'
  rw [verdict] at cases_
  cases cases_ with
  | left isVar _ =>
    subst isVar
    exact ⟨walk_unbound walkedU, Or.inl ⟨by rw [Term.erase], rfl⟩⟩
  | right isVar _ =>
    subst isVar
    exact ⟨walk_unbound walkedV, Or.inr ⟨by rw [Term.erase], rfl⟩⟩

def Grows (s t : State) : Prop :=
  ∀ x l, s.bindings.lookup x = some l → t.bindings.lookup x = some l

theorem Grows.extend {id : Int} (value : Term) (unbound : s.bindings.lookup id = none) :
    Grows s (s.extend id value) := by
  intro x l found
  have different : x ≠ id := fun here => by simp [here, unbound] at found
  rw [extend_bindings, List.lookup_cons, beq_false_of_ne different]
  exact found

def OccursFree (m : Met) : Prop :=
  ∀ id value, judge m.lhs m.rhs = .bind id value →
    ¬ (m.state.bindings.full value.erase).Occurs id

theorem unify_acyclic {t : State} (ran : unify fuel s u v = some (some t))
    (acyclic : s.bindings.Acyclic) (free : ∀ m ∈ met fuel s u v, OccursFree m) :
    t.bindings.Acyclic := by
  have kept : s.bindings.Acyclic → (∀ m ∈ met fuel s u v, OccursFree m) →
      ∀ r, some t = some r → r.bindings.Acyclic := by
    refine unify_induct
      (fun s _ _ ms r => s.bindings.Acyclic → (∀ m ∈ ms, OccursFree m) →
        ∀ t, r = some t → t.bindings.Acyclic)
      (fun s _ _ ms r => s.bindings.Acyclic → (∀ m ∈ ms, OccursFree m) →
        ∀ t, r = some t → t.bindings.Acyclic)
      ?_ ?_ ?_ ?_ ?_ ?_ ?_ ?_ fuel s u v (some t) ran
    · rintro fuel s u v u' v' _ _ _ acyclic _ t ⟨rfl⟩
      exact acyclic
    · rintro fuel s u v u' v' id value walkedU walkedV verdict acyclic free t ⟨rfl⟩
      rw [extend_bindings]
      exact acyclic.cons (bind_spec walkedU walkedV verdict).1
        (free _ List.mem_cons_self id value verdict)
    · intro fuel s u v u' v' lhs rhs ms r _ _ _ loop acyclic free
      exact loop acyclic fun m member => free m (List.mem_cons_of_mem _ member)
    · rintro fuel s u v u' v' _ _ _ _ _ t wrong
      simp at wrong
    · rintro s lhs rhs _ acyclic _ t ⟨rfl⟩
      exact acyclic
    · rintro s name name' c c' lhs rhs _ _ _ t wrong
      simp at wrong
    · rintro s name c c' lhs rhs ms _ _ _ t wrong
      simp at wrong
    · intro s t name c c' lhs rhs ms ms' r first rest acyclic free
      have between := first acyclic (fun m member => free m (List.mem_append_left _ member)) t rfl
      exact rest between fun m member => free m (List.mem_append_right _ member)
  exact kept acyclic free t rfl

theorem unifyEach_mono {one more : State → Term → Term → Option (Option State)}
    {met met' : State → Term → Term → List Met}
    (same : ∀ s u v r, one s u v = some r → more s u v = some r)
    (grow : ∀ s u v, met s u v ⊆ met' s u v) :
    ∀ (lhs rhs : List (String × Term)) (s : State),
      (∀ r, unifyEach one s lhs rhs = some r → unifyEach more s lhs rhs = some r) ∧
        metEach one met s lhs rhs ⊆ metEach more met' s lhs rhs := by
  intro lhs
  induction lhs with
  | nil => exact fun rhs s => ⟨fun r ran => ran, List.Subset.refl _⟩
  | cons field lhs ih =>
    intro rhs s
    rcases field with ⟨name, c⟩
    cases rhs with
    | nil => exact ⟨fun r ran => ran, List.Subset.refl _⟩
    | cons field' rhs =>
      rcases field' with ⟨name', c'⟩
      by_cases names : name = name'
      · subst names
        simp only [unifyEach, metEach, ne_eq, not_true_eq_false, if_false]
        cases first : one s c c' with
        | none => exact ⟨fun r ran => by simp at ran, by simp [grow s c c', List.subset_append_of_subset_left]⟩
        | some result =>
          rw [same s c c' result first]
          cases result with
          | none => exact ⟨fun r ran => ran, by simpa using grow s c c'⟩
          | some t =>
            obtain ⟨rest, compared⟩ := ih rhs t
            exact ⟨rest, List.append_subset.mpr
              ⟨List.subset_append_of_subset_left _ (grow s c c'),
                List.subset_append_of_subset_right _ compared⟩⟩
      · simp [unifyEach, metEach, names]

theorem unify_mono_succ (fuel : Nat) : ∀ (s : State) (u v : Term),
    (∀ r, unify fuel s u v = some r → unify (fuel + 1) s u v = some r) ∧
      met fuel s u v ⊆ met (fuel + 1) s u v := by
  induction fuel with
  | zero => exact fun s u v => ⟨fun r ran => by simp [unify] at ran, by simp [met]⟩
  | succ fuel ih =>
    intro s u v
    cases walkedU : walk fuel s.sub u with
    | none => exact ⟨fun r ran => by simp [unify, walkedU] at ran, by simp [met, walkedU]⟩
    | some u' =>
      cases walkedV : walk fuel s.sub v with
      | none => exact ⟨fun r ran => by simp [unify, walkedU, walkedV] at ran, by simp [met, walkedU, walkedV]⟩
      | some v' =>
        have longU := walk_mono (Nat.le_succ fuel) walkedU
        have longV := walk_mono (Nat.le_succ fuel) walkedV
        rw [unify, unify, met, met, walkedU, walkedV, longU, longV]
        cases verdict : judge u' v' with
        | descend lhs rhs =>
          obtain ⟨result, compared⟩ := unifyEach_mono (fun s u v r => (ih s u v).1 r)
            (fun s u v => (ih s u v).2) lhs rhs s
          simp only [verdict]
          exact ⟨result, List.cons_subset_cons _ compared⟩
        | done => simp only [verdict]; exact ⟨fun r ran => ran, List.Subset.refl _⟩
        | bind id value => simp only [verdict]; exact ⟨fun r ran => ran, List.Subset.refl _⟩
        | fail => simp only [verdict]; exact ⟨fun r ran => ran, List.Subset.refl _⟩

theorem unify_mono {more : Nat} (le : fuel ≤ more) {r : Option State}
    (ran : unify fuel s u v = some r) : unify more s u v = some r := by
  induction le with
  | refl => exact ran
  | step _ ih => exact (unify_mono_succ _ s u v).1 r ih

theorem met_mono {more : Nat} (le : fuel ≤ more) (s : State) (u v : Term) :
    met fuel s u v ⊆ met more s u v := by
  induction le with
  | refl => exact List.Subset.refl _
  | step _ ih => exact fun m member => (unify_mono_succ _ s u v).2 (ih member)

end AgentC.Kanren

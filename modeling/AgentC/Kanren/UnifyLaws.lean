import AgentC.Kanren.Unify
import AgentC.Library.Bindings

/-! What walking, judging and unifying do to the equations that a state stands for. -/

namespace AgentC.Kanren

open Bindings

def eraseSub (sub : List (Int × Term)) : Bindings Int Symbol :=
  sub.map fun entry => (entry.1, entry.2.erase)

def State.bindings (s : State) : Bindings Int Symbol :=
  eraseSub s.sub

theorem lookup_eraseSub (sub : List (Int × Term)) (id : Int) :
    (eraseSub sub).lookup id = (sub.lookup id).map Term.erase := by
  induction sub with
  | nil => rfl
  | cons entry rest ih =>
    rcases entry with ⟨x, t⟩
    by_cases here : id = x
    · simp [eraseSub, here]
    · have rest_ : (eraseSub rest).lookup id = (rest.lookup id).map Term.erase := ih
      simp only [eraseSub, List.map_cons, List.lookup_cons, beq_false_of_ne here]
      exact rest_

theorem copySub_erase (sub : List (Int × Term)) : ∀ next : Nat,
    eraseSub (copySub sub next).1 = eraseSub sub := by
  induction sub with
  | nil => exact fun _ => rfl
  | cons entry rest ih =>
    intro next
    have head := Term.copy_erase entry.2 next
    have tail := ih (entry.2.copy next).2
    simp only [eraseSub] at tail
    simp only [eraseSub, copySub, List.map_cons, head, tail]

@[simp] theorem extend_bindings (s : State) (id : Int) (value : Term) :
    (s.extend id value).bindings = (id, value.erase) :: s.bindings := by
  have copied := copySub_erase s.sub s.next
  simp only [eraseSub] at copied
  simp only [State.extend, State.bindings, eraseSub, List.map_cons, copied]

variable {fuel : Nat} {sub : List (Int × Term)} {t w : Term}

theorem walk_mono {more : Nat} (le : fuel ≤ more) (walked : walk fuel sub t = some w) :
    walk more sub t = some w := by
  induction fuel generalizing more t with
  | zero => simp [walk] at walked
  | succ fuel ih =>
    obtain ⟨more, rfl⟩ : ∃ k, more = k + 1 := ⟨more - 1, by omega⟩
    cases t with
    | var node id =>
      simp only [walk] at walked ⊢
      split at walked
      · exact ih (by omega) walked
      · exact walked
    | text | list | dict => exact walked

theorem walk_unbound {node : Node} {id : Int} (walked : walk fuel sub t = some (.var node id)) :
    (eraseSub sub).lookup id = none := by
  induction fuel generalizing t with
  | zero => simp [walk] at walked
  | succ fuel ih =>
    cases t with
    | var node' id' =>
      simp only [walk] at walked
      split at walked
      · exact ih walked
      · rename_i unbound
        simp only [Option.some.injEq, Term.var.injEq] at walked
        rw [← walked.2, lookup_eraseSub, unbound]
        rfl
    | text | list | dict => simp [walk] at walked

theorem walk_solves {θ : Int → LogicTerm} (solves : Solves θ (eraseSub sub))
    (walked : walk fuel sub t = some w) :
    w.erase.apply θ = t.erase.apply θ := by
  induction fuel generalizing t with
  | zero => simp [walk] at walked
  | succ fuel ih =>
    cases t with
    | var node id =>
      simp only [walk] at walked
      split at walked
      · rename_i value found
        -- The binding is one of the equations that the assignment solves.
        have equation := solves id value.erase (by rw [lookup_eraseSub, found]; rfl)
        rw [ih walked, Term.erase, Tm.apply_var]
        exact equation.symm
      · cases walked
        rfl
    | text | list | dict => cases walked; rfl

theorem walk_full (acyclic : (eraseSub sub).Acyclic) (walked : walk fuel sub t = some w) :
    (eraseSub sub).full w.erase = (eraseSub sub).full t.erase := by
  have same := walk_solves acyclic.solves_full walked
  rwa [← full_eq_apply, ← full_eq_apply] at same

theorem walk_terminates (acyclic : (eraseSub sub).Acyclic) (t : Term) :
    ∃ w, walk (sub.length + 2) sub t = some w := by
  obtain ⟨rank, ranks⟩ := acyclic.exists_ranks
  -- Following a binding to another variable lowers the height.
  have fromVar : ∀ (height : Nat) (node : Node) (id : Int), rank id ≤ height →
      ∃ w, walk (height + 2) sub (.var node id) = some w := by
    intro height
    induction height with
    | zero =>
      intro node id low
      have unbound : (eraseSub sub).lookup id = none := by
        by_contra bound
        have positive := ranks.bound id bound
        omega
      rw [lookup_eraseSub, Option.map_eq_none_iff] at unbound
      exact ⟨.var node id, by simp only [walk, unbound]⟩
    | succ height ih =>
      intro node id low
      cases found : sub.lookup id with
      | none => exact ⟨.var node id, by simp only [walk, found]⟩
      | some value =>
        have bound : (eraseSub sub).lookup id = some value.erase := by
          rw [lookup_eraseSub, found]
          rfl
        cases value with
        | var node' id' =>
          have lower := ranks.falls id id' ⟨_, bound, by rw [Term.erase]; exact .var⟩
          obtain ⟨w, walked⟩ := ih node' id' (by omega)
          exact ⟨w, by rw [walk, found]; exact walked⟩
        | text node' bytes => exact ⟨.text node' bytes, by simp only [walk, found]⟩
        | list node' children => exact ⟨.list node' children, by simp only [walk, found]⟩
        | dict node' fields => exact ⟨.dict node' fields, by simp only [walk, found]⟩
  cases t with
  | var node id =>
    have limited := ranks.limited id
    rw [eraseSub, List.length_map] at limited
    exact fromVar sub.length node id limited
  | text node bytes => exact ⟨.text node bytes, rfl⟩
  | list node children => exact ⟨.list node children, rfl⟩
  | dict node fields => exact ⟨.dict node fields, rfl⟩

def EmptyAndNull (u v : Term) : Prop :=
  ∃ node node', u = .text node [] ∧ v = .dict node' [] ∨ u = .dict node [] ∧ v = .text node' []

def Agree (θ : Int → LogicTerm) (lhs rhs : List (String × Term)) : Prop :=
  lhs.map (fun field => (field.1, field.2.erase.apply θ)) =
    rhs.map fun field => (field.1, field.2.erase.apply θ)

def Branches (u : Term) (children : List (String × Term)) : Prop :=
  ∃ symbol, u.erase = .app symbol (children.map fun field => field.2.erase)

theorem pairs_eq_iff {α β : Type} : ∀ left right : List (α × β),
    left = right ↔ left.map Prod.fst = right.map Prod.fst ∧ left.map Prod.snd = right.map Prod.snd
  | [], right => by cases right <;> simp
  | _ :: _, [] => by simp
  | (a, b) :: left, (c, d) :: right => by
    have rest := pairs_eq_iff left right
    simp only [List.map_cons, List.cons.injEq, Prod.mk.injEq]
    rw [rest]
    tauto

theorem erase_list_iff (θ : Int → LogicTerm) (node node' : Node) (us vs : List Term) :
    (Term.list node us).erase.apply θ = (Term.list node' vs).erase.apply θ ↔
      Agree θ (us.map fun child => ("", child)) (vs.map fun child => ("", child)) := by
  simp only [Agree, pairs_eq_iff, Term.erase, Term.eraseChildren_eq, Tm.apply_app, Tm.app.injEq,
    true_and, List.map_map, Function.comp_def]
  -- The names are all empty, so only their number matters.
  constructor
  · intro children
    refine ⟨?_, children⟩
    have lengths := congrArg List.length children
    simp only [List.length_map] at lengths
    simp [lengths]
  · exact And.right

theorem erase_dict_iff (θ : Int → LogicTerm) (node node' : Node) (us vs : List (String × Term)) :
    (Term.dict node us).erase.apply θ = (Term.dict node' vs).erase.apply θ ↔ Agree θ us vs := by
  simp only [Agree, pairs_eq_iff, Term.erase, Term.eraseFields_eq, Tm.apply_app, Tm.app.injEq,
    Symbol.dict.injEq, List.map_map, Function.comp_def]

theorem not_agree_of_length {θ : Int → LogicTerm} {lhs rhs : List (String × Term)}
    (lengths : lhs.length ≠ rhs.length) : ¬ Agree θ lhs rhs := by
  intro agree
  have same := congrArg List.length agree
  simp only [List.length_map] at same
  exact lengths same

theorem atomicEqual_text (node node' : Node) (bytes bytes' : List UInt8) :
    atomicEqual (.text node bytes) (.text node' bytes') = true ↔ bytes = bytes' := by
  by_cases lengths : bytes.length = bytes'.length
  · by_cases empty : bytes = []
    · -- Two empty strings are equal without being compared.
      subst empty
      have right := List.length_eq_zero_iff.mp lengths.symm
      simp [atomicEqual, Term.isListMode, Term.data, right]
    · have some_ : bytes' ≠ [] := fun none => empty (List.length_eq_zero_iff.mp (by simp [lengths, none]))
      simp [atomicEqual, Term.isListMode, Term.data, lengths, some_]
  · have apart : bytes ≠ bytes' := fun same => lengths (by rw [same])
    simp [atomicEqual, Term.isListMode, Term.data, lengths, apart]

theorem atomicEqual_null (node node' : Node) (bytes : List UInt8) :
    (atomicEqual (.text node bytes) (.dict node' []) = true ↔ bytes = []) ∧
      (atomicEqual (.dict node' []) (.text node bytes) = true ↔ bytes = []) := by
  cases bytes <;> simp [atomicEqual, Term.isListMode, Term.data]

/-- The cases of `judge`, with what each verdict says about the terms. -/
inductive Judged (u v : Term) : Verdict → Prop where
  | done (equal : u.erase = v.erase ∨ EmptyAndNull u v) : Judged u v .done
  | left {node : Node} {id : Int} (isVar : u = .var node id) (different : u.same v = false) :
      Judged u v (.bind id v)
  | right {node : Node} {id : Int} (isVar : v = .var node id) (notVar : u.isLogicVar = false) :
      Judged u v (.bind id u)
  | descend {lhs rhs : List (String × Term)} (lengths : lhs.length = rhs.length)
      (left : Branches u lhs) (right : Branches v rhs)
      (agree : ∀ θ : Int → LogicTerm, u.erase.apply θ = v.erase.apply θ ↔ Agree θ lhs rhs) :
      Judged u v (.descend lhs rhs)
  | fail (apart : ∀ θ : Int → LogicTerm, u.erase.apply θ ≠ v.erase.apply θ) : Judged u v .fail

theorem judged_lists (node node' : Node) (us vs : List Term)
    (different : (Term.list node us).same (.list node' vs) = false) :
    Judged (.list node us) (.list node' vs) (judge (.list node us) (.list node' vs)) := by
  have branches (node : Node) (ws : List Term) :
      Branches (.list node ws) (ws.map fun child => ("", child)) :=
    ⟨.list, by simp [Term.erase, Function.comp_def]⟩
  by_cases lengths : us.length = vs.length
  · have verdict : judge (.list node us) (.list node' vs) =
        .descend (us.map fun child => ("", child)) (vs.map fun child => ("", child)) := by
      simp [judge, different, Term.isListMode, Term.listChildren, lengths]
    rw [verdict]
    exact .descend (by simp [lengths]) (branches node us) (branches node' vs)
      fun θ => erase_list_iff θ node node' us vs
  · have verdict : judge (.list node us) (.list node' vs) = .fail := by
      simp [judge, different, Term.isListMode, Term.listChildren, lengths]
    rw [verdict]
    exact .fail fun θ equal => not_agree_of_length (by simpa using lengths)
      ((erase_list_iff θ node node' us vs).mp equal)

theorem judged_dicts (node node' : Node) (us vs : List (String × Term))
    (different : (Term.dict node us).same (.dict node' vs) = false) :
    Judged (.dict node us) (.dict node' vs) (judge (.dict node us) (.dict node' vs)) := by
  have branches (node : Node) (ws : List (String × Term)) : Branches (.dict node ws) ws :=
    ⟨.dict (ws.map Prod.fst), by simp [Term.erase]⟩
  by_cases lengths : us.length = vs.length
  · by_cases empty : us = []
    · -- Two dictionaries without fields are both null.
      subst empty
      obtain rfl := List.length_eq_zero_iff.mp lengths.symm
      have verdict : judge (.dict node []) (.dict node' []) = .done := by
        simp [judge, different, Term.isListMode, Term.treeChildren, atomicEqual, Term.data]
      rw [verdict]
      exact .done (Or.inl (by simp [Term.erase]))
    · have verdict : judge (.dict node us) (.dict node' vs) = .descend us vs := by
        simp [judge, different, Term.isListMode, Term.treeChildren, lengths, empty]
      rw [verdict]
      exact .descend lengths (branches node us) (branches node' vs)
        fun θ => erase_dict_iff θ node node' us vs
  · have some_ : us ≠ [] ∨ vs ≠ [] := by
      by_contra none
      obtain ⟨rfl, rfl⟩ := not_or.mp none |>.imp not_not.mp not_not.mp
      exact lengths rfl
    have verdict : judge (.dict node us) (.dict node' vs) = .fail := by
      simp [judge, different, Term.isListMode, Term.treeChildren, lengths, some_]
    rw [verdict]
    exact .fail fun θ equal => not_agree_of_length lengths
      ((erase_dict_iff θ node node' us vs).mp equal)

theorem judged_text_dict (node node' : Node) (bytes : List UInt8) (vs : List (String × Term)) :
    Judged (.text node bytes) (.dict node' vs) (judge (.text node bytes) (.dict node' vs)) ∧
      Judged (.dict node' vs) (.text node bytes) (judge (.dict node' vs) (.text node bytes)) := by
  obtain ⟨textNull, nullText⟩ := atomicEqual_null node node' bytes
  by_cases null : vs = []
  · subst null
    by_cases empty : bytes = []
    · subst empty
      constructor
      · have verdict : judge (.text node []) (.dict node' []) = .done := by
          simp [judge, Term.same, Term.isListMode, Term.treeChildren, textNull]
        rw [verdict]
        exact .done (Or.inr ⟨node, node', Or.inl ⟨rfl, rfl⟩⟩)
      · have verdict : judge (.dict node' []) (.text node []) = .done := by
          simp [judge, Term.same, Term.isListMode, Term.treeChildren, nullText]
        rw [verdict]
        exact .done (Or.inr ⟨node', node, Or.inr ⟨rfl, rfl⟩⟩)
    · constructor
      · have verdict : judge (.text node bytes) (.dict node' []) = .fail := by
          simp [judge, Term.same, Term.isListMode, Term.treeChildren, textNull, empty]
        rw [verdict]
        exact .fail fun θ equal => by simp [Term.erase] at equal
      · have verdict : judge (.dict node' []) (.text node bytes) = .fail := by
          simp [judge, Term.same, Term.isListMode, Term.treeChildren, nullText, empty]
        rw [verdict]
        exact .fail fun θ equal => by simp [Term.erase] at equal
  · -- The string has no children to set against the dictionary's.
    have counted : ¬ 0 = vs.length := fun zero => null (List.length_eq_zero_iff.mp zero.symm)
    constructor
    · have verdict : judge (.text node bytes) (.dict node' vs) = .fail := by
        simp [judge, Term.same, Term.isListMode, Term.treeChildren, null, counted]
      rw [verdict]
      exact .fail fun θ equal => by simp [Term.erase] at equal
    · have verdict : judge (.dict node' vs) (.text node bytes) = .fail := by
        simp [judge, Term.same, Term.isListMode, Term.treeChildren, null]
      rw [verdict]
      exact .fail fun θ equal => by simp [Term.erase] at equal

theorem judged_list_other {u v : Term} (other : u.isListMode ≠ v.isListMode)
    (notVars : u.isLogicVar = false ∧ v.isLogicVar = false) : Judged u v (judge u v) := by
  have verdict : judge u v = .fail := by
    cases u <;> cases v <;>
      simp_all [judge, Term.same, Term.isListMode, Term.isLogicVar, atomicEqual]
  rw [verdict]
  refine .fail fun θ equal => ?_
  cases u <;> cases v <;> simp_all [Term.erase, Term.isListMode, Term.isLogicVar]

theorem judged (u v : Term) : Judged u v (judge u v) := by
  cases same : u.same v with
  | true =>
    have verdict : judge u v = .done := by simp [judge, same]
    rw [verdict]
    exact .done (Or.inl (congrArg Term.erase (Term.eq_of_same same)))
  | false =>
    cases u with
    | var node id =>
      have verdict : judge (.var node id) v = .bind id v := by simp [judge, same]
      rw [verdict]
      exact .left rfl same
    | text node bytes =>
      cases v with
      | var node' id =>
        have verdict : judge (.text node bytes) (.var node' id) = .bind id (.text node bytes) := by
          simp [judge, same]
        rw [verdict]
        exact .right rfl rfl
      | text node' bytes' =>
        have compared := atomicEqual_text node node' bytes bytes'
        by_cases equal : bytes = bytes'
        · subst equal
          have verdict : judge (.text node bytes) (.text node' bytes) = .done := by
            simp [judge, same, Term.isListMode, Term.treeChildren, compared.mpr rfl]
          rw [verdict]
          exact .done (Or.inl (by simp [Term.erase]))
        · have verdict : judge (.text node bytes) (.text node' bytes') = .fail := by
            simp [judge, same, Term.isListMode, Term.treeChildren, compared, equal]
          rw [verdict]
          exact .fail fun θ agree => equal (by simpa [Term.erase] using agree)
      | list node' vs => exact judged_list_other (by simp [Term.isListMode]) ⟨rfl, rfl⟩
      | dict node' vs => exact (judged_text_dict node node' bytes vs).1
    | list node us =>
      cases v with
      | var node' id =>
        have verdict : judge (.list node us) (.var node' id) = .bind id (.list node us) := by
          simp [judge, same]
        rw [verdict]
        exact .right rfl rfl
      | text node' bytes => exact judged_list_other (by simp [Term.isListMode]) ⟨rfl, rfl⟩
      | list node' vs => exact judged_lists node node' us vs same
      | dict node' vs => exact judged_list_other (by simp [Term.isListMode]) ⟨rfl, rfl⟩
    | dict node us =>
      cases v with
      | var node' id =>
        have verdict : judge (.dict node us) (.var node' id) = .bind id (.dict node us) := by
          simp [judge, same]
        rw [verdict]
        exact .right rfl rfl
      | text node' bytes => exact (judged_text_dict node' node bytes us).2
      | list node' vs => exact judged_list_other (by simp [Term.isListMode]) ⟨rfl, rfl⟩
      | dict node' vs => exact judged_dicts node node' us vs same

end AgentC.Kanren

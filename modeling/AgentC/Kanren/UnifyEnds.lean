import AgentC.Kanren.UnifyRuns

/-! Without cyclic bindings every unification and every reification ends. -/

namespace AgentC.Kanren

open Bindings

def Within (scope : Finset Int) (t : LogicTerm) : Prop :=
  ∀ x, t.Occurs x → x ∈ scope

def State.Within (scope : Finset Int) (s : State) : Prop :=
  ∀ x l, s.bindings.lookup x = some l → Kanren.Within scope l

def State.unbound (scope : Finset Int) (s : State) : Nat :=
  (scope.filter fun x => s.bindings.lookup x = none).card

variable {scope : Finset Int} {fuel : Nat} {s : State} {u : Term}

theorem walk_within {t w : Term} (inState : s.Within scope) (inTerm : Within scope t.erase)
    (walked : walk fuel s.sub t = some w) :
    Within scope w.erase := by
  induction fuel generalizing t with
  | zero => simp [walk] at walked
  | succ fuel ih =>
    cases t with
    | var node id =>
      simp only [walk] at walked
      split at walked
      · rename_i value found
        refine ih (inState id value.erase ?_) walked
        rw [State.bindings, lookup_eraseSub, found]
        rfl
      · cases walked
        exact inTerm
    | text | list | dict => cases walked; exact inTerm

theorem unbound_extend {id : Int} {value : Term} (unbound : s.bindings.lookup id = none)
    (member : id ∈ scope) :
    (s.extend id value).unbound scope < s.unbound scope := by
  refine Finset.card_lt_card (Finset.ssubset_iff_subset_ne.mpr ⟨?_, ?_⟩)
  · intro x free
    obtain ⟨inScope, none_⟩ := Finset.mem_filter.mp free
    refine Finset.mem_filter.mpr ⟨inScope, ?_⟩
    by_contra bound
    obtain ⟨l, found⟩ := Option.ne_none_iff_exists'.mp bound
    rw [Grows.extend value unbound x l found] at none_
    simp at none_
  · intro same
    -- The variable itself is unbound before and bound after.
    have before : id ∈ scope.filter fun x => s.bindings.lookup x = none :=
      Finset.mem_filter.mpr ⟨member, unbound⟩
    rw [← same] at before
    have after := (Finset.mem_filter.mp before).2
    simp at after

theorem bind_within {v u' v' value : Term} {id : Int} (inState : s.Within scope)
    (left : Within scope u.erase) (right : Within scope v.erase)
    (walkedU : walk fuel s.sub u = some u') (walkedV : walk fuel s.sub v = some v')
    (verdict : judge u' v' = .bind id value) : id ∈ scope ∧ Within scope value.erase := by
  have left' := walk_within inState left walkedU
  have right' := walk_within inState right walkedV
  rcases (bind_spec walkedU walkedV verdict).2 with ⟨isVar, rfl⟩ | ⟨isVar, rfl⟩
  · exact ⟨left' id (by rw [isVar]; exact .var), right'⟩
  · exact ⟨right' id (by rw [isVar]; exact .var), left'⟩

theorem Branches.within {children : List (String × Term)} (branches : Branches u children)
    (inTerm : Within scope u.erase) :
    ∀ field ∈ children, Within scope field.2.erase := by
  obtain ⟨symbol, shape⟩ := branches
  intro field member x inside
  refine inTerm x ?_
  rw [shape]
  exact .app (List.mem_map_of_mem member) inside

theorem Branches.size_lt {σ : Bindings Int Symbol} {children : List (String × Term)}
    (branches : Branches u children) :
    ∀ field ∈ children, (σ.full field.2.erase).size < (σ.full u.erase).size := by
  obtain ⟨symbol, shape⟩ := branches
  intro field member
  rw [shape, full_app]
  exact Tm.size_lt_of_mem (List.mem_map_of_mem (List.mem_map_of_mem member))

theorem unify_unbound {t : State} {v : Term} (ran : unify fuel s u v = some (some t))
    (inState : s.Within scope) (left : Within scope u.erase) (right : Within scope v.erase) :
    t.Within scope ∧ (t = s ∨ t.unbound scope < s.unbound scope) := by
  have kept : s.Within scope → Within scope u.erase → Within scope v.erase →
      ∀ r, some t = some r → r.Within scope ∧ (r = s ∨ r.unbound scope < s.unbound scope) := by
    refine unify_induct
      (fun s u v _ r => s.Within scope → Within scope u.erase → Within scope v.erase →
        ∀ t, r = some t → t.Within scope ∧ (t = s ∨ t.unbound scope < s.unbound scope))
      (fun s lhs rhs _ r => s.Within scope → (∀ field ∈ lhs, Within scope field.2.erase) →
        (∀ field ∈ rhs, Within scope field.2.erase) →
        ∀ t, r = some t → t.Within scope ∧ (t = s ∨ t.unbound scope < s.unbound scope))
      ?_ ?_ ?_ ?_ ?_ ?_ ?_ ?_ fuel s u v (some t) ran
    · rintro fuel s u v u' v' _ _ _ inState _ _ t ⟨rfl⟩
      exact ⟨inState, Or.inl rfl⟩
    · rintro fuel s u v u' v' id value walkedU walkedV verdict inState left right t ⟨rfl⟩
      obtain ⟨member, inValue⟩ := bind_within inState left right walkedU walkedV verdict
      refine ⟨fun x l found => ?_, Or.inr (unbound_extend (bind_spec walkedU walkedV verdict).1 member)⟩
      rw [extend_bindings] at found
      by_cases here : x = id
      · subst here
        simp only [List.lookup_cons, beq_self_eq_true, Option.some.injEq] at found
        exact found ▸ inValue
      · rw [List.lookup_cons, beq_false_of_ne here] at found
        exact inState x l found
    · intro fuel s u v u' v' lhs rhs ms r walkedU walkedV verdict loop inState left right
      have cases_ := judged u' v'
      rw [verdict] at cases_
      cases cases_ with
      | descend _ branchesU branchesV _ =>
        exact loop inState (branchesU.within (walk_within inState left walkedU))
          (branchesV.within (walk_within inState right walkedV))
    · rintro fuel s u v u' v' _ _ _ _ _ _ t wrong
      simp at wrong
    · rintro s lhs rhs _ inState _ _ t ⟨rfl⟩
      exact ⟨inState, Or.inl rfl⟩
    · rintro s name name' c c' lhs rhs _ _ _ _ t wrong
      simp at wrong
    · rintro s name c c' lhs rhs ms _ _ _ _ t wrong
      simp at wrong
    · intro s t name c c' lhs rhs ms ms' r first rest inState left right t' same
      obtain ⟨headL, tailL⟩ := List.forall_mem_cons.mp left
      obtain ⟨headR, tailR⟩ := List.forall_mem_cons.mp right
      obtain ⟨between, moved⟩ := first inState headL headR t rfl
      obtain ⟨after, moved'⟩ := rest between tailL tailR t' same
      refine ⟨after, ?_⟩
      rcases moved with rfl | fewer
      · exact moved'
      · rcases moved' with rfl | fewer'
        · exact Or.inr fewer
        · exact Or.inr (fewer'.trans fewer)
  exact kept inState left right t rfl

/-- A unification among the given variables whose bindings make no cycle. -/
structure Tame (scope : Finset Int) (s : State) (u v : Term) : Prop where
  inState : s.Within scope
  left : Within scope u.erase
  right : Within scope v.erase
  acyclic : s.bindings.Acyclic
  free : ∀ fuel, ∀ m ∈ met fuel s u v, OccursFree m

theorem unifyEach_ends (scope : Finset Int) (smaller : State → Term → Prop)
    (child : ∀ s c c', smaller s c → Tame scope s c c' → ∃ fuel r, unify fuel s c c' = some r)
    (fewer : ∀ s t c, t.unbound scope < s.unbound scope → (∃ c, smaller s c) → smaller t c) :
    ∀ (lhs rhs : List (String × Term)) (s : State), s.Within scope → s.bindings.Acyclic →
      (∀ field ∈ lhs, Within scope field.2.erase ∧ smaller s field.2) →
      (∀ field ∈ rhs, Within scope field.2.erase) →
      (∀ fuel, ∀ m ∈ metEach (unify fuel) (met fuel) s lhs rhs, OccursFree m) →
      ∃ fuel r, unifyEach (unify fuel) s lhs rhs = some r := by
  intro lhs
  induction lhs with
  | nil => exact fun rhs s _ _ _ _ _ => ⟨0, some s, by simp [unifyEach]⟩
  | cons field lhs ih =>
    intro rhs s inState acyclic left right free
    rcases field with ⟨name, c⟩
    cases rhs with
    | nil => exact ⟨0, some s, by simp [unifyEach]⟩
    | cons field' rhs =>
      rcases field' with ⟨name', c'⟩
      by_cases names : name = name'
      · subst names
        obtain ⟨⟨inHead, small⟩, tailL⟩ := List.forall_mem_cons.mp left
        obtain ⟨headR, tailR⟩ := List.forall_mem_cons.mp right
        simp only [metEach, ne_eq, not_true_eq_false, if_false] at free
        have freeHead : ∀ fuel, ∀ m ∈ met fuel s c c', OccursFree m :=
          fun fuel m member => free fuel m (List.mem_append_left _ member)
        obtain ⟨first, result, ran⟩ := child s c c' small ⟨inState, inHead, headR, acyclic, freeHead⟩
        cases result with
        | none => exact ⟨first, none, by simp [unifyEach, ran]⟩
        | some t =>
          obtain ⟨inNext, moved⟩ := unify_unbound ran inState inHead headR
          -- The rest of the loop runs in the state that the first child left.
          have freeRest : ∀ fuel, ∀ m ∈ metEach (unify fuel) (met fuel) t lhs rhs, OccursFree m := by
            intro fuel m member
            have long := unify_mono (le_max_right fuel first) ran
            refine free (max fuel first) m (List.mem_append_right _ ?_)
            simp only [long]
            exact (unifyEach_mono (fun s u v r => unify_mono (le_max_left fuel first))
              (met_mono (le_max_left fuel first)) lhs rhs t).2 member
          have smallRest : ∀ field ∈ lhs, Within scope field.2.erase ∧ smaller t field.2 := by
            intro field member
            obtain ⟨inField, smallField⟩ := tailL field member
            refine ⟨inField, ?_⟩
            rcases moved with rfl | fewer_
            · exact smallField
            · exact fewer s t field.2 fewer_ ⟨c, small⟩
          obtain ⟨last, r, ranRest⟩ := ih rhs t inNext (unify_acyclic ran acyclic (freeHead first))
            smallRest tailR freeRest
          refine ⟨max first last, r, ?_⟩
          simp only [unifyEach, ne_eq, not_true_eq_false, if_false,
            unify_mono (le_max_left first last) ran]
          exact (unifyEach_mono (fun s u v r => unify_mono (le_max_right first last))
            (met_mono (le_max_right first last)) lhs rhs t).1 r ranRest
      · exact ⟨0, none, by simp [unifyEach, names]⟩

theorem Tame.ends (unbound size : Nat) : ∀ (s : State) (u v : Term),
    s.unbound scope = unbound → (s.bindings.full u.erase).size = size → Tame scope s u v →
    ∃ fuel r, unify fuel s u v = some r := by
  -- Each child either meets fewer unbound variables, or means something smaller.
  induction unbound using Nat.strong_induction_on generalizing size with
  | _ unbound ihUnbound =>
    induction size using Nat.strong_induction_on with
    | _ size ihSize =>
      intro s u v counted measured tame
      obtain ⟨u', walkedU⟩ := walk_terminates tame.acyclic u
      obtain ⟨v', walkedV⟩ := walk_terminates tame.acyclic v
      cases verdict : judge u' v' with
      | done => exact ⟨s.sub.length + 3, some s, by simp [unify, walkedU, walkedV, verdict]⟩
      | bind id value =>
        exact ⟨s.sub.length + 3, some (s.extend id value), by
          simp [unify, walkedU, walkedV, verdict]⟩
      | fail => exact ⟨s.sub.length + 3, none, by simp [unify, walkedU, walkedV, verdict]⟩
      | descend lhs rhs =>
        have cases_ := judged u' v'
        rw [verdict] at cases_
        cases cases_ with
        | descend _ branchesU branchesV _ =>
          have inU := branchesU.within (walk_within tame.inState tame.left walkedU)
          have inV := branchesV.within (walk_within tame.inState tame.right walkedV)
          have free : ∀ fuel, ∀ m ∈ metEach (unify fuel) (met fuel) s lhs rhs, OccursFree m := by
            intro fuel m member
            have le := le_max_left fuel (s.sub.length + 2)
            have ge := le_max_right fuel (s.sub.length + 2)
            refine tame.free (max fuel (s.sub.length + 2) + 1) m ?_
            simp only [met, walk_mono ge walkedU, walk_mono ge walkedV, verdict]
            exact List.mem_cons_of_mem _ ((unifyEach_mono (fun s u v r => unify_mono le)
              (met_mono le) lhs rhs s).2 member)
          obtain ⟨fuel, r, ran⟩ := unifyEach_ends scope
            (fun t c => t.unbound scope < unbound ∨
              t.unbound scope = unbound ∧ (t.bindings.full c.erase).size < size)
            (fun t c c' small child => by
              rcases small with fewer | ⟨same, less⟩
              · exact ihUnbound _ fewer _ t c c' rfl rfl child
              · exact ihSize _ less t c c' same rfl child)
            (fun s t c fewer some_ => by
              obtain ⟨_, less | ⟨same, _⟩⟩ := some_
              · exact Or.inl (fewer.trans less)
              · exact Or.inl (same ▸ fewer))
            lhs rhs s tame.inState tame.acyclic
            (fun field member => ⟨inU field member, Or.inr ⟨counted, by
              have meaning : s.bindings.full u'.erase = s.bindings.full u.erase :=
                walk_full tame.acyclic walkedU
              rw [← measured, ← meaning]
              exact branchesU.size_lt field member⟩⟩)
            inV free
          have le := le_max_left fuel (s.sub.length + 2)
          have ge := le_max_right fuel (s.sub.length + 2)
          refine ⟨max fuel (s.sub.length + 2) + 1, r, ?_⟩
          simp only [unify, walk_mono ge walkedU, walk_mono ge walkedV, verdict]
          exact (unifyEach_mono (fun s u v r => unify_mono le) (met_mono le) lhs rhs s).1 r ran

end AgentC.Kanren

import AgentC.Kanren.Streams
import AgentC.Library.Related

/-! Which variables goals introduce, and goals that introduce none and do not read the counter. -/

namespace AgentC.Kanren

variable {ι : Type} {relations : ι → List Term → StreamGoal ι}

/-- The states that a goal may succeed with when it is applied to a state. -/
inductive StreamGoal.Yields (relations : ι → List Term → StreamGoal ι) :
    StreamGoal ι → State → State → Prop where
  | equal {u v : Term} {s t : State} {fuel : Nat} (unified : unify fuel s u v = some (some t)) :
      Yields relations (.equal u v) s t
  | succeed {s : State} : Yields relations .succeed s s
  | conj {lhs rhs : StreamGoal ι} {s t r : State} (first : Yields relations lhs s t)
      (second : Yields relations rhs t r) : Yields relations (.conj lhs rhs) s r
  | left {lhs rhs : StreamGoal ι} {s t : State} (chosen : Yields relations lhs s t) :
      Yields relations (.disj lhs rhs) s t
  | right {lhs rhs : StreamGoal ι} {s t : State} (chosen : Yields relations rhs s t) :
      Yields relations (.disj lhs rhs) s t
  | clause {fair : Bool} {goals : List (StreamGoal ι)} {goal : StreamGoal ι} {s t : State}
      (member : goal ∈ goals) (chosen : Yields relations goal s t) :
      Yields relations (.clauses fair goals) s t
  | callFresh {body : Term → StreamGoal ι} {s t : State}
      (rest : Yields relations (body s.fresh.1) s.fresh.2 t) :
      Yields relations (.callFresh body) s t
  | create {body : Node → StreamGoal ι} {s t : State}
      (rest : Yields relations (body s.create.1) s.create.2 t) : Yields relations (.create body) s t
  | snooze {relation : ι} {args : List Term} {s t : State}
      (rest : Yields relations (relations relation args) s t) :
      Yields relations (.snooze relation args) s t

/-- The numbers of the variables that `call_fresh` introduces when a goal is applied to a state. -/
inductive StreamGoal.Introduces (relations : ι → List Term → StreamGoal ι) :
    StreamGoal ι → State → Int → Prop where
  | here {body : Term → StreamGoal ι} {s : State} : Introduces relations (.callFresh body) s s.count
  | callFresh {body : Term → StreamGoal ι} {s : State} {id : Int}
      (rest : Introduces relations (body s.fresh.1) s.fresh.2 id) :
      Introduces relations (.callFresh body) s id
  | create {body : Node → StreamGoal ι} {s : State} {id : Int}
      (rest : Introduces relations (body s.create.1) s.create.2 id) :
      Introduces relations (.create body) s id
  | first {lhs rhs : StreamGoal ι} {s : State} {id : Int} (within : Introduces relations lhs s id) :
      Introduces relations (.conj lhs rhs) s id
  | second {lhs rhs : StreamGoal ι} {s t : State} {id : Int} (first : lhs.Yields relations s t)
      (within : Introduces relations rhs t id) : Introduces relations (.conj lhs rhs) s id
  | left {lhs rhs : StreamGoal ι} {s : State} {id : Int} (within : Introduces relations lhs s id) :
      Introduces relations (.disj lhs rhs) s id
  | right {lhs rhs : StreamGoal ι} {s : State} {id : Int} (within : Introduces relations rhs s id) :
      Introduces relations (.disj lhs rhs) s id
  | clause {fair : Bool} {goals : List (StreamGoal ι)} {goal : StreamGoal ι} {s : State} {id : Int}
      (member : goal ∈ goals) (within : Introduces relations goal s id) :
      Introduces relations (.clauses fair goals) s id
  | snooze {relation : ι} {args : List Term} {s : State} {id : Int}
      (rest : Introduces relations (relations relation args) s id) :
      Introduces relations (.snooze relation args) s id

def State.recount (c : Int) (s : State) : State :=
  { s with count := c }

theorem unifyEach_recount {one : State → Term → Term → Option (Option State)} {c : Int}
    (same : ∀ s u v, one (s.recount c) u v = (one s u v).map (·.map (State.recount c))) :
    ∀ (lhs rhs : List (String × Term)) (s : State),
      unifyEach one (s.recount c) lhs rhs =
        (unifyEach one s lhs rhs).map (·.map (State.recount c)) := by
  intro lhs
  induction lhs with
  | nil => exact fun _ _ => rfl
  | cons field lhs ih =>
    intro rhs s
    cases rhs with
    | nil => rfl
    | cons field' rhs =>
      simp only [unifyEach]
      split
      · rfl
      · rw [same]
        cases one s field.2 field'.2 with
        | none => rfl
        | some result =>
          cases result with
          | none => rfl
          | some t => exact ih rhs t

theorem unify_recount (fuel : Nat) (c : Int) : ∀ (s : State) (u v : Term),
    unify fuel (s.recount c) u v = (unify fuel s u v).map (·.map (State.recount c)) := by
  induction fuel with
  | zero => exact fun _ _ _ => rfl
  | succ fuel ih =>
    intro s u v
    have sub : (s.recount c).sub = s.sub := rfl
    unfold unify
    rw [sub]
    cases walk fuel s.sub u with
    | none => rfl
    | some u' =>
      cases walk fuel s.sub v with
      | none => rfl
      | some v' =>
        simp only
        cases judge u' v' with
        | done => rfl
        | bind id value => rfl
        | descend lhs rhs => exact unifyEach_recount ih lhs rhs s
        | fail => rfl

theorem unify_count {fuel : Nat} {s t : State} {u v : Term}
    (unified : unify fuel s u v = some (some t)) : t.count = s.count := by
  -- Setting the counter to what it is anyway changes neither the start nor the result.
  have same := unify_recount fuel s.count s u v
  have start : s.recount s.count = s := rfl
  rw [start, unified] at same
  have result : t = t.recount s.count := Option.some.inj (Option.some.inj same)
  rw [result]
  rfl

theorem StreamGoal.Yields.count_le {goal : StreamGoal ι} {s t : State}
    (yields : goal.Yields relations s t) : s.count ≤ t.count := by
  induction yields with
  | equal unified => exact (unify_count unified).ge
  | succeed => exact le_rfl
  | conj _ _ first second => exact first.trans second
  | left _ ih => exact ih
  | right _ ih => exact ih
  | clause _ _ ih => exact ih
  | @callFresh body s t _ ih =>
    have counted : s.fresh.2.count = s.count + 1 := rfl
    omega
  | create _ ih => exact ih
  | snooze _ ih => exact ih

theorem StreamGoal.Introduces.count_le {goal : StreamGoal ι} {s : State} {id : Int}
    (introduces : goal.Introduces relations s id) : s.count ≤ id := by
  induction introduces with
  | here => exact le_rfl
  | @callFresh body s id _ ih =>
    have counted : s.fresh.2.count = s.count + 1 := rfl
    omega
  | create _ ih => exact ih
  | first _ ih => exact ih
  | second yields _ ih => exact yields.count_le.trans ih
  | left _ ih => exact ih
  | right _ ih => exact ih
  | clause _ _ ih => exact ih
  | snooze _ ih => exact ih

/-- A goal that is built without `call_fresh`, and not lazily. -/
inductive StreamGoal.Closed : StreamGoal ι → Prop where
  | equal (u v : Term) : Closed (.equal u v)
  | succeed : Closed .succeed
  | fail : Closed .fail
  | conj {lhs rhs : StreamGoal ι} (first : Closed lhs) (second : Closed rhs) :
      Closed (.conj lhs rhs)
  | disj {lhs rhs : StreamGoal ι} (left : Closed lhs) (right : Closed rhs) : Closed (.disj lhs rhs)
  | clauses (fair : Bool) {goals : List (StreamGoal ι)} (each : ∀ goal ∈ goals, Closed goal) :
      Closed (.clauses fair goals)

theorem StreamGoal.Closed.introduces {goal : StreamGoal ι} (closed : goal.Closed) (s : State)
    (id : Int) : ¬ goal.Introduces relations s id := by
  induction closed generalizing s with
  | equal _ _ => exact fun introduces => by cases introduces
  | succeed => exact fun introduces => by cases introduces
  | fail => exact fun introduces => by cases introduces
  | conj _ _ first second =>
    intro introduces
    cases introduces with
    | first within => exact first s within
    | second _ within => exact second _ within
  | disj _ _ left right =>
    intro introduces
    cases introduces with
    | left within => exact left s within
    | right within => exact right s within
  | clauses fair _ ih =>
    intro introduces
    cases introduces with
    | clause member within => exact ih _ member s within

def State.Alike (s t : State) : Prop :=
  t = s.recount t.count

/-- Streams of closed goals, whose states differ in their counters alone. -/
inductive Stream.Alike : Stream ι → Stream ι → Prop where
  | ready {states states' : List State} (each : List.Forall₂ State.Alike states states') :
      Alike (.ready states) (.ready states')
  | delayed {goal : StreamGoal ι} {s t : State} (closed : goal.Closed) (alike : s.Alike t) :
      Alike (.delayed goal s) (.delayed goal t)
  | disj {left left' right right' : Stream ι} (usingLeft : Bool) (first : Alike left left')
      (second : Alike right right') : Alike (.disj left right usingLeft) (.disj left' right' usingLeft)
  | conj {left left' : Stream ι} {rhs : StreamGoal ι} (first : Alike left left')
      (closed : rhs.Closed) : Alike (.conj left rhs) (.conj left' rhs)
  | conjOn {left left' current current' : Stream ι} {rhs : StreamGoal ι} (first : Alike left left')
      (closed : rhs.Closed) (second : Alike current current') :
      Alike (.conjOn left rhs current) (.conjOn left' rhs current')
  | clauses (fair : Bool) {streams streams' : List (Stream ι)} (index : Nat)
      (each : List.Forall₂ Alike streams streams') :
      Alike (.clauses fair streams index) (.clauses fair streams' index)

namespace Stream

def AlikeAnswers (x y : Option State × Stream ι) : Prop :=
  Option.Rel State.Alike x.1 y.1 ∧ Alike x.2 y.2

theorem start_alike {fuel : Nat} {goal : StreamGoal ι} (closed : goal.Closed) {s t : State}
    (alike : s.Alike t) :
    Option.Rel Alike (start relations fuel goal s) (start relations fuel goal t) := by
  induction closed generalizing s t with
  | equal u v =>
    have same := unify_recount fuel t.count s u v
    rw [← alike] at same
    unfold start
    rw [same]
    cases unified : unify fuel s u v with
    | none => exact .none
    | some result =>
      refine .some (.ready ?_)
      cases result with
      | none => exact .nil
      | some r => exact .cons rfl .nil
  | succeed => exact .some (.ready (.cons alike .nil))
  | fail => exact .some (.ready .nil)
  | conj _ second first _ => exact rel_map (first alike) fun _ _ left => .conj left second
  | disj _ _ first second =>
    refine rel_bind (first alike) fun _ _ left => ?_
    exact rel_map (second alike) fun _ _ right => .disj true left right
  | clauses fair each _ =>
    refine .some (.clauses fair 0 (List.forall₂_map_left_iff.mpr (List.forall₂_map_right_iff.mpr ?_)))
    exact List.forall₂_same.mpr fun goal member => .delayed (each goal member) alike

theorem poll_alike {one : Stream ι → Option (Option State × Stream ι)}
    (same : ∀ x y, Alike x y → Option.Rel AlikeAnswers (one x) (one y)) :
    ∀ (left : Nat) (streams streams' : List (Stream ι)) (index : Nat),
      List.Forall₂ Alike streams streams' →
      Option.Rel (fun x y => Option.Rel State.Alike x.1 y.1 ∧ List.Forall₂ Alike x.2.1 y.2.1 ∧
        x.2.2 = y.2.2) (poll one left streams index) (poll one left streams' index) := by
  intro left
  induction left with
  | zero => exact fun _ _ _ each => .some ⟨.none, each, rfl⟩
  | succ left ih =>
    intro streams streams' index each
    unfold poll
    rw [← each.length_eq]
    have here := rel_getElem? each (index % streams.length)
    generalize streams[index % streams.length]? = stream at here
    generalize streams'[index % streams.length]? = stream' at here
    cases here with
    | none => exact .some ⟨.none, each, rfl⟩
    | some alike =>
      refine rel_bind (same _ _ alike) fun x y both => ?_
      obtain ⟨answers, rest⟩ := both
      rcases x with ⟨answer, left'⟩
      rcases y with ⟨answer', right'⟩
      have written := forall₂_set each rest (index % streams.length)
      cases answers with
      | none => exact ih _ _ _ written
      | some found => exact .some ⟨.some found, written, rfl⟩

theorem next_alike (fuel : Nat) : ∀ x y : Stream ι, Alike x y →
    Option.Rel AlikeAnswers (next relations fuel x) (next relations fuel y) := by
  induction fuel with
  | zero => exact fun _ _ _ => .none
  | succ fuel ih =>
    intro x y alike
    cases alike with
    | ready each =>
      cases each with
      | nil => exact .some ⟨.none, .ready .nil⟩
      | cons first rest => exact .some ⟨.some first, .ready rest⟩
    | delayed closed same => exact rel_bind (start_alike closed same) fun _ _ => ih _ _
    | disj usingLeft left right =>
      cases usingLeft with
      | false =>
        refine rel_map (ih _ _ right) fun x y ⟨answers, rest⟩ => ⟨answers, .disj false left rest⟩
      | true =>
        refine rel_bind (ih _ _ left) fun x y ⟨answers, rest⟩ => ?_
        rcases x with ⟨answer, _⟩
        rcases y with ⟨answer', _⟩
        cases answers with
        | none => exact ih _ _ (.disj false rest right)
        | some found => exact .some ⟨.some found, .disj true rest right⟩
    | conj left closed =>
      refine rel_bind (ih _ _ left) fun x y ⟨answers, rest⟩ => ?_
      rcases x with ⟨answer, _⟩
      rcases y with ⟨answer', _⟩
      cases answers with
      | none => exact .some ⟨.none, .conj rest closed⟩
      | some found =>
        refine rel_bind (start_alike closed found) fun current current' started => ?_
        exact ih _ _ (.conjOn rest closed started)
    | conjOn left closed current =>
      refine rel_bind (ih _ _ current) fun x y ⟨answers, rest⟩ => ?_
      rcases x with ⟨answer, _⟩
      rcases y with ⟨answer', _⟩
      cases answers with
      | none => exact ih _ _ (.conj left closed)
      | some found => exact .some ⟨.some found, .conjOn left closed rest⟩
    | @clauses fair streams streams' index each =>
      cases fair with
      | false =>
        unfold next
        have here := rel_getElem? each index
        generalize streams[index]? = stream at here
        generalize streams'[index]? = stream' at here
        cases here with
        | none => exact .some ⟨.none, .clauses false index each⟩
        | some alike =>
          refine rel_bind (ih _ _ alike) fun x y ⟨answers, rest⟩ => ?_
          rcases x with ⟨answer, _⟩
          rcases y with ⟨answer', _⟩
          have written := forall₂_set each rest index
          cases answers with
          | none => exact ih _ _ (.clauses false (index + 1) written)
          | some found => exact .some ⟨.some found, .clauses false index written⟩
      | true =>
        unfold next
        rw [← each.length_eq]
        refine rel_map (poll_alike ih streams.length streams streams' index each) ?_
        rintro ⟨_, _, _⟩ ⟨_, _, _⟩ ⟨answers, rest, rfl⟩
        exact ⟨answers, .clauses true _ rest⟩

theorem pull_alike (limit fuel : Nat) : ∀ (taken : Nat) (x y : Stream ι), Alike x y →
    Option.Rel (List.Forall₂ State.Alike) (pull relations limit fuel taken x)
      (pull relations limit fuel taken y) := by
  induction fuel with
  | zero => exact fun _ _ _ _ => .none
  | succ fuel ih =>
    intro taken x y alike
    refine rel_bind (next_alike fuel x y alike) fun x y ⟨answers, rest⟩ => ?_
    rcases x with ⟨answer, _⟩
    rcases y with ⟨answer', _⟩
    cases answers with
    | none => exact .some .nil
    | some found =>
      show Option.Rel _ (if _ then _ else _) (if _ then _ else _)
      split
      · exact .some (.cons found .nil)
      · exact rel_map (ih _ _ _ rest) fun _ _ others => .cons found others

end Stream

end AgentC.Kanren

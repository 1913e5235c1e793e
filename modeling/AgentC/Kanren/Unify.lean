import AgentC.Kanren.Terms

/-! States, walking, unification, reification and the goals built from them. -/

namespace AgentC.Kanren

/--
A state of the search: the substitution, and the number of the next fresh variable.

`sub` lists the substitution's items with the value `getValue` returns. `next` numbers new nodes,
and has no counterpart in the source.
-/
structure State where
  sub : List (Int × Term) := []
  count : Int := 0
  next : Nat := 0
  deriving Repr

/--
Following bindings from a variable to an unbound variable or to another term.

The first argument bounds the recursion. Nothing is returned when it is used up.
-/
def walk : Nat → List (Int × Term) → Term → Option Term
  | 0, _, _ => none
  | fuel + 1, sub, .var node id =>
    match sub.lookup id with
    | some value => walk fuel sub value
    | none => some (.var node id)
  | _ + 1, _, value => some value

/-- The deep copy of a substitution. -/
def copySub : List (Int × Term) → Nat → List (Int × Term) × Nat
  | [], next => ([], next)
  | (id, value) :: rest, next =>
    let (value, next) := value.copy next
    let (rest, next) := copySub rest next
    ((id, value) :: rest, next)

def State.extend (s : State) (id : Int) (value : Term) : State :=
  let (sub, next) := copySub s.sub s.next
  { s with sub := (id, value) :: sub, next := next }

/-- Comparing two values without children by their payloads. -/
def atomicEqual (lhs rhs : Term) : Bool :=
  if lhs.isListMode != rhs.isListMode then false
  else if lhs.data.length ≠ rhs.data.length then false
  else if lhs.data.length = 0 then true
  else lhs.data == rhs.data

/-- What `unify` does about two walked values. -/
inductive Verdict where
  | done
  | bind (id : Int) (value : Term)
  | descend (lhs rhs : List (String × Term))
  | fail

/-- The cases of `unify`, in the order the source tests them. -/
def judge (u v : Term) : Verdict :=
  if u.same v then .done
  else match u, v with
    | .var _ id, v => .bind id v
    | u, .var _ id => .bind id u
    | u, v =>
      if u.isListMode && v.isListMode then
        if u.listChildren.length ≠ v.listChildren.length then .fail
        else .descend u.listChildren v.listChildren
      else if !u.isListMode && !v.isListMode &&
          (!u.treeChildren.isEmpty || !v.treeChildren.isEmpty) then
        if u.treeChildren.length ≠ v.treeChildren.length then .fail
        else .descend u.treeChildren v.treeChildren
      else if atomicEqual u v then .done
      else .fail

/-- The loop over the children of two values, which stops at the first failure. -/
def unifyEach (unify : State → Term → Term → Option (Option State)) :
    State → List (String × Term) → List (String × Term) → Option (Option State)
  | s, (name, child) :: lhs, (name', child') :: rhs =>
    if name ≠ name' then some none
    else match unify s child child' with
      | some (some s) => unifyEach unify s lhs rhs
      | result => result
  | s, _, _ => some (some s)

/--
Unification: the extended state, or `some none` when the two terms do not unify.

The first argument bounds the recursion, as for `walk`.
-/
def unify : Nat → State → Term → Term → Option (Option State)
  | 0, _, _, _ => none
  | fuel + 1, s, u, v =>
    match walk fuel s.sub u, walk fuel s.sub v with
    | some u, some v =>
      match judge u v with
      | .done => some (some s)
      | .bind id value => some (some (s.extend id value))
      | .descend lhs rhs => unifyEach (unify fuel) s lhs rhs
      | .fail => some none
    | _, _ => none

/-- Two walked values that a run of `unify` compares, with the state it compares them in. -/
structure Met where
  state : State
  lhs : Term
  rhs : Term

/-- What the loop over children compares. -/
def metEach (unify : State → Term → Term → Option (Option State))
    (met : State → Term → Term → List Met) :
    State → List (String × Term) → List (String × Term) → List Met
  | s, (name, child) :: lhs, (name', child') :: rhs =>
    if name ≠ name' then []
    else met s child child' ++
      match unify s child child' with
      | some (some s) => metEach unify met s lhs rhs
      | _ => []
  | _, _, _ => []

/-- Everything that a run of `unify` compares, in order. -/
def met : Nat → State → Term → Term → List Met
  | 0, _, _, _ => []
  | fuel + 1, s, u, v =>
    match walk fuel s.sub u, walk fuel s.sub v with
    | some u, some v =>
      ⟨s, u, v⟩ :: match judge u v with
        | .descend lhs rhs => metEach (unify fuel) (met fuel) s lhs rhs
        | _ => []
    | _, _ => []

/-- What reification carries along: the labels given so far, and the number of the next node. -/
structure Labels where
  names : List (Int × String) := []
  next : Nat := 0

def Labels.createStringValue (labels : Labels) (str : String) : Term × Labels :=
  (.text ⟨labels.next, false⟩ str.toUTF8.toList, { labels with next := labels.next + 1 })

/-- The loop over children of `reifyTerm`. -/
def reifyEach (reify : Term → Labels → Option (Term × Labels)) :
    List (String × Term) → Labels → Option (List (String × Term) × Labels)
  | [], labels => some ([], labels)
  | (name, child) :: rest, labels =>
    match reify child labels with
    | some (child, labels) =>
      match reifyEach reify rest labels with
      | some (rest, labels) => some ((name, child) :: rest, labels)
      | none => none
    | none => none

/-- Replacing variables by what they are bound to, and the unbound ones by labels. -/
def reifyTerm : Nat → List (Int × Term) → Term → Labels → Option (Term × Labels)
  | 0, _, _, _ => none
  | fuel + 1, sub, value, labels =>
    match walk fuel sub value with
    | none => none
    | some (.var _ id) =>
      match labels.names.lookup id with
      | some label => some (labels.createStringValue label)
      | none =>
        let label := "_" ++ toString labels.names.length
        some ({ labels with names := (id, label) :: labels.names }.createStringValue label)
    | some (.list node children) =>
      match reifyEach (reifyTerm fuel sub) (Term.list node children).listChildren
          { labels with next := labels.next + 1 } with
      -- `addListItem` puts each new child in front of the others.
      | some (out, last) => some (.list ⟨labels.next, false⟩ (out.map Prod.snd).reverse, last)
      | none => none
    | some (.dict node fields) =>
      if fields.isEmpty then some (.dict node fields, labels)
      else
        match reifyEach (reifyTerm fuel sub) fields { labels with next := labels.next + 1 } with
        | some (out, last) =>
          -- The empty name comes first, and finds the nameless node of the new tree.
          some (.dict ⟨labels.next, false⟩ (out.filter fun field => field.1 ≠ ""), last)
        | none => none
    | some (.text node bytes) => some (.text node bytes, labels)

/-- An answer as the caller of `run` sees it. -/
def reify (fuel : Nat) (value : Term) (s : State) : Option Term :=
  (reifyTerm fuel s.sub value { next := s.next }).map Prod.fst

/--
A goal. The order in which its answers are found is not modelled.

`disj` also stands for `disj_fair`, `conde` and `conde_fair`, which differ in that order only.
`call` stands for a goal that is built lazily, as `snooze` does for a recursive relation.
-/
inductive Goal (ι : Type) where
  | equal (u v : Term)
  | succeed
  | fail
  | conj (lhs rhs : Goal ι)
  | disj (lhs rhs : Goal ι)
  | callFresh (body : Term → Goal ι)
  | call (relation : ι) (args : List Term)

/-- A call of `unify` that a goal makes. -/
structure UnifyCall where
  state : State
  u : Term
  v : Term

/-- The states in which a goal may succeed, with the calls of `unify` on the way there. -/
inductive Goal.Answers {ι : Type} (relations : ι → List Term → Goal ι) :
    Goal ι → State → List UnifyCall → State → Prop where
  | equal {u v : Term} {s t : State} {fuel : Nat} (unified : unify fuel s u v = some (some t)) :
      Answers relations (.equal u v) s [⟨s, u, v⟩] t
  | succeed {s : State} : Answers relations .succeed s [] s
  | conj {lhs rhs : Goal ι} {s t r : State} {before after : List UnifyCall}
      (first : Answers relations lhs s before t) (second : Answers relations rhs t after r) :
      Answers relations (.conj lhs rhs) s (before ++ after) r
  | left {lhs rhs : Goal ι} {s t : State} {calls : List UnifyCall}
      (chosen : Answers relations lhs s calls t) : Answers relations (.disj lhs rhs) s calls t
  | right {lhs rhs : Goal ι} {s t : State} {calls : List UnifyCall}
      (chosen : Answers relations rhs s calls t) : Answers relations (.disj lhs rhs) s calls t
  | callFresh {body : Term → Goal ι} {s t : State} {calls : List UnifyCall}
      (answer : Answers relations (body (.var ⟨s.next, false⟩ s.count))
        { s with count := s.count + 1, next := s.next + 1 } calls t) :
      Answers relations (.callFresh body) s calls t
  | call {relation : ι} {args : List Term} {s t : State} {calls : List UnifyCall}
      (answer : Answers relations (relations relation args) s calls t) :
      Answers relations (.call relation args) s calls t

end AgentC.Kanren

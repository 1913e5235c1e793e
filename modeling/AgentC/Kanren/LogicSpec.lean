import AgentC.Kanren.Streams
import AgentC.Listree.Tree

/-! Logic queries given as values: how they are read, and how they are run. -/

namespace AgentC.Kanren

/--
The value of a logic query, without shared parts.

`list` has its children in insertion order. `value` has the text that `getData` gives access to,
unless it is binary, and what `forEachTree` visits with the latest value of each item.
-/
inductive SpecValue where
  | list (children : List SpecValue)
  | value (text : Option (List UInt8)) (fields : List (String × SpecValue))
  deriving Repr

namespace SpecValue

def valueToString : SpecValue → Option (List UInt8)
  | .value (some text) _ => if text.isEmpty then none else some text
  | _ => none

def listValues : Option SpecValue → List SpecValue
  | some (.list children) => children
  | _ => []

def namedValue (fields : List (String × SpecValue)) (name : String) : Option SpecValue :=
  fields.lookup name

end SpecValue

abbrev LogicVars := List (List UInt8 × Term)

mutual

def logicTermFromSpec (vars : LogicVars) : SpecValue → Nat → Term × Nat
  | .list children, next => pairListFromJsonArray vars children next
  | .value text fields, next =>
    match SpecValue.valueToString (.value text fields) with
    | some text =>
      match vars.lookup text with
      | some var => (var, next)
      | none => (.text ⟨next, false⟩ text, next + 1)
    | none =>
      let (out, last) := dictFromSpec vars fields (next + 1)
      (.dict ⟨next, false⟩ out, last)

/-- The pairs of a list, which are built from its end. A pair has its head added first. -/
def pairListFromJsonArray (vars : LogicVars) : List SpecValue → Nat → Term × Nat
  | [], next => (.dict ⟨next, false⟩ [], next + 1)
  | child :: rest, next =>
    let (tail, node) := pairListFromJsonArray vars rest next
    let (head, last) := logicTermFromSpec vars child (node + 1)
    (.list ⟨node, false⟩ [tail, head], last)

/-- The loop over the items of a dictionary. The nameless item of a new tree takes no value. -/
def dictFromSpec (vars : LogicVars) : List (String × SpecValue) → Nat → List (String × Term) × Nat
  | [], next => ([], next)
  | (name, child) :: rest, next =>
    let (term, next) := logicTermFromSpec vars child next
    let (rest, last) := dictFromSpec vars rest next
    (if name.isEmpty then rest else (name, term) :: rest, last)

end

def logicTermsFromSpec (vars : LogicVars) : List SpecValue → Nat → List Term × Nat
  | [], next => ([], next)
  | value :: rest, next =>
    let (term, next) := logicTermFromSpec vars value next
    let (rest, last) := logicTermsFromSpec vars rest next
    (term :: rest, last)

/-- The relations that a `snooze` stands for. -/
inductive Relation where
  | membero
  | appendo
  deriving DecidableEq, Repr

abbrev LogicGoal := StreamGoal Relation

def conso (node : Node) (head tail pair : Term) : LogicGoal :=
  .equal (.list node [tail, head]) pair

def heado (pair head : Term) : LogicGoal :=
  .callFresh fun tail => .create fun node => conso node head tail pair

def tailo (pair tail : Term) : LogicGoal :=
  .callFresh fun head => .create fun node => conso node head tail pair

def pairo (pair : Term) : LogicGoal :=
  .callFresh fun head => .callFresh fun tail => .create fun node => conso node head tail pair

def membero (needle list : Term) : LogicGoal :=
  .callFresh fun head => .callFresh fun tail => .create fun node =>
    .conj (conso node head tail list)
      (.condeFair [[.equal needle head], [.snooze .membero [needle, tail]]])

/-- A list of pairs and one that is appended to it. -/
def appendo (lhs rhs out : Term) : LogicGoal :=
  .create fun null => .condeFair
    [[.equal lhs (.dict null []), .equal rhs out],
      [.callFresh fun head => .callFresh fun tail => .callFresh fun rest =>
        .create fun node => .create fun node' => .conjAll
          [conso node head tail lhs, conso node' head rest out, .snooze .appendo [tail, rhs, rest]]]]

/-- What the thunks of `membero` and `appendo` build. -/
def relations : Relation → List Term → LogicGoal
  | .membero, [needle, list] => membero needle list
  | .appendo, [lhs, rhs, out] => appendo lhs rhs out
  -- The thunks capture no other numbers of terms.
  | _, _ => .fail

def appendAtomGoal (vars : LogicVars) (atom : List SpecValue) (next : Nat) :
    Except String (LogicGoal × Nat) :=
  match atom with
  | [] => .error "Empty logic atom"
  | first :: operands =>
    match first.valueToString with
    | none => .error "Logic atom opcode must be a string"
    | some op =>
      let (terms, last) := logicTermsFromSpec vars operands next
      if op = ascii "==" then
        match terms with
        | [u, v] => .ok (.equal u v, last)
        | _ => .error "== expects two operands"
      else if op = ascii "membero" then
        match terms with
        | [needle, list] => .ok (membero needle list, last)
        | _ => .error "membero expects two operands"
      else if op = ascii "appendo" then
        match terms with
        | [lhs, rhs, out] => .ok (appendo lhs rhs out, last)
        | _ => .error "appendo expects three operands"
      else if op = ascii "conso" then
        match terms with
        | [head, tail, pair] => .ok (conso ⟨last, false⟩ head tail pair, last + 1)
        | _ => .error "conso expects three operands"
      else if op = ascii "heado" then
        match terms with
        | [pair, head] => .ok (heado pair head, last)
        | _ => .error "heado expects two operands"
      else if op = ascii "tailo" then
        match terms with
        | [pair, tail] => .ok (tailo pair tail, last)
        | _ => .error "tailo expects two operands"
      else if op = ascii "pairo" then
        match terms with
        | [pair] => .ok (pairo pair, last)
        | _ => .error "pairo expects one operand"
      else
        -- An opcode that is not UTF-8 has no `String`, and is left out.
        .error ("Unknown logic atom: " ++ (String.fromUTF8? ⟨op.toArray⟩).getD "")

def clauseGoals (vars : LogicVars) : List SpecValue → Nat → Except String (List LogicGoal × Nat)
  | [], next => .ok ([], next)
  | atomSpec :: rest, next =>
    match appendAtomGoal vars (SpecValue.listValues (some atomSpec)) next with
    | .error error => .error error
    | .ok (goal, next) =>
      match clauseGoals vars rest next with
      | .error error => .error error
      | .ok (goals, last) => .ok (goal :: goals, last)

def clausesGoals (vars : LogicVars) :
    List SpecValue → Nat → Except String (List (List LogicGoal) × Nat)
  | [], next => .ok ([], next)
  | clauseSpec :: rest, next =>
    match clauseGoals vars (SpecValue.listValues (some clauseSpec)) next with
    | .error error => .error error
    | .ok (goals, next) =>
      match clausesGoals vars rest next with
      | .error error => .error error
      | .ok (clauses, last) => .ok (goals :: clauses, last)

/-- The message about a query without clauses. -/
def missingClauses (fields : List (String × SpecValue)) : String :=
  let keys := fields.foldl
    (fun keys field => if keys.isEmpty then field.1 else keys ++ "," ++ field.1) ""
  "Logic query requires 'conde' or 'where'" ++
    if keys.isEmpty then "" else " (available keys: " ++ keys ++ ")"

/-- The clauses of a query: its `conde`, or else its `where` as the only one. -/
def querySource (fields : List (String × SpecValue)) : List SpecValue :=
  match SpecValue.namedValue fields "conde", SpecValue.namedValue fields "where" with
  | some conde, _ => SpecValue.listValues (some conde)
  | none, some clause => [clause]
  | none, none => []

/-- The goal of a query's clauses. -/
def buildLogicGoal (vars : LogicVars) (fields : List (String × SpecValue)) (next : Nat) :
    Except String (LogicGoal × Nat) :=
  let source := querySource fields
  if source.isEmpty then .error (missingClauses fields)
  else (clausesGoals vars source next).map fun (clauses, last) => (.conde clauses, last)

def decimalPrefix : List UInt8 → Nat → Nat
  | [], value => value
  | c :: rest, value =>
    if 0x30 ≤ c ∧ c ≤ 0x39 then decimalPrefix rest (10 * value + (c.toNat - 0x30)) else value

/-- The function `strtoul` in base ten, with 64 bits. -/
def strtoul (text : List UInt8) : Nat :=
  let trimmed := text.dropWhile fun c => c == 0x20 || (0x09 ≤ c && c ≤ 0x0D)
  let magnitude (digits : List UInt8) : Nat := decimalPrefix digits 0
  match trimmed with
  | 0x2D :: digits =>
    -- A sign is applied to the number in its 64 bits.
    if 2 ^ 64 ≤ magnitude digits then 2 ^ 64 - 1 else (2 ^ 64 - magnitude digits) % 2 ^ 64
  | 0x2B :: digits => min (magnitude digits) (2 ^ 64 - 1)
  | digits => min (magnitude digits) (2 ^ 64 - 1)

/-- The variables of the entries of `fresh`, numbered in order. -/
def freshVars : List SpecValue → Nat → Except String LogicVars
  | [], _ => .ok []
  | entry :: rest, i =>
    match entry.valueToString with
    | none => .error "fresh entries must be strings"
    | some name => (freshVars rest (i + 1)).map fun vars => (name, .var ⟨i, false⟩ i) :: vars

/-- A query that is ready to run. `next` is the number of the first node that its goal creates. -/
structure LogicQuery where
  vars : LogicVars
  goal : LogicGoal
  queries : List Term
  limit : Nat
  next : Nat

def queryLimit (fields : List (String × SpecValue)) : Nat :=
  match (SpecValue.namedValue fields "limit").bind SpecValue.valueToString with
  | some text => strtoul text
  | none => 0

/-- What `evaluateLogicSpec` does before it runs the query. -/
def readQuery : SpecValue → Except String LogicQuery
  | .list _ => .error "LOGIC_RUN expects query object"
  | .value _ fields =>
    let fresh := SpecValue.listValues (SpecValue.namedValue fields "fresh")
    match freshVars fresh 0 with
    | .error error => .error error
    | .ok vars =>
      match buildLogicGoal vars fields fresh.length with
      | .error error => .error error
      | .ok (goal, next) =>
        let resultTerms := SpecValue.listValues (SpecValue.namedValue fields "results")
        if resultTerms.isEmpty then .error "Logic query requires 'results'"
        else .ok
          { vars, goal, next
            queries := (logicTermsFromSpec vars resultTerms next).1
            limit := queryLimit fields }

def LogicQuery.answers (fuel : Nat) (query : LogicQuery) : Option (List (List Term)) :=
  run relations fuel query.limit query.next query.queries query.goal

/--
The answers to a query's value, or the message why there are none.

An answer is the list of its terms, which the source wraps in a value unless it is a single term.
The first argument bounds the search. Nothing is returned when it is used up.
-/
def evaluateLogicSpec (fuel : Nat) (spec : SpecValue) : Option (Except String (List (List Term))) :=
  match readQuery spec with
  | .error error => some (.error error)
  | .ok query => (query.answers fuel).map .ok

end AgentC.Kanren

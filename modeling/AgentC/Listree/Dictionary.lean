import Mathlib.Logic.Function.Basic
import AgentC.Library.Runs
import AgentC.Listree.TreeOrder

/-! A value's dictionary: finding, inserting and removing items in its search tree. -/

namespace AgentC

universe u

namespace AATree

variable {α : Type u}

def isNull : AATree α → Bool
  | .leaf => true
  | .node _ _ _ _ => false

def succ (name : Name) (data : Option α) : AATree α → Name × Option α
  | .leaf => (name, data)
  | .node left n d _ => succ n d left

/-- `removeRecursive`. A node with two children takes what its successor holds. -/
def remove : AATree α → Name → AATree α
  | .leaf, _ => .leaf
  | .node left name data right, nodeName =>
    if nodeName < name then .node (left.remove nodeName) name data right
    else if name < nodeName then .node left name data (right.remove nodeName)
    else if left.isNull && right.isNull then .leaf
    else if left.isNull then right
    else if right.isNull then left
    else
      .node left (succ name data right).1 (succ name data right).2
        (right.remove (succ name data right).1)

def orNew : AATree α → AATree α
  | .leaf => new_
  | .node left name data right => .node left name data right

end AATree

abbrev ItemId := Nat

/-- A tree-mode value, as far as its dictionary goes. A tree that is null is `leaf`. -/
structure Dictionary where
  tree : AATree ItemId
  readOnly : Bool
  pinned : ItemId → Bool
  fresh : ItemId
  /-- A null item has been dereferenced. -/
  crashed : Bool

/-- What a value is asked. Pinning is what others do to the values of an item. -/
inductive Lookup where
  | find (name : Name) (insert : Bool)
  | remove (name : Name)
  | pin (item : ItemId) (on : Bool)
deriving DecidableEq, Repr

namespace Dictionary

def new (readOnly : Bool) : Dictionary where
  tree := .new_
  readOnly := readOnly
  pinned := fun _ => false
  fresh := 0
  crashed := false

variable (d : Dictionary)

/-- `ListreeValue::find`, with the item that is found. -/
def find (name : Name) (insert : Bool) : Option ItemId × Dictionary :=
  if insert = true ∧ d.readOnly = true then (none, d)
  else if insert = false ∧ d.tree.isNull = true then (none, d)
  else
    let tree := d.tree.orNew
    match tree.find name with
    | some data => (data, { d with tree })
    | none =>
      if insert = true then
        let tree := tree.add name d.fresh
        ((tree.find name).join, { d with tree, fresh := d.fresh + 1 })
      else (none, { d with tree })

/-- `ListreeValue::remove`, with the item that is removed. -/
def remove (name : Name) : Option ItemId × Dictionary :=
  if d.readOnly then (none, d)
  else
    match d.tree.find name with
    | none => (none, d)
    -- The item is used without asking whether there is one.
    | some none => (none, { d with crashed := true })
    | some (some item) =>
      if d.pinned item then (none, d)
      else (some item, { d with tree := d.tree.remove name })

def answer : Lookup → Option ItemId × Dictionary
  | .find name insert => d.find name insert
  | .remove name => d.remove name
  | .pin item on => (none, { d with pinned := Function.update d.pinned item on })

/-- What `forEach` visits in order. -/
def visited : List (Name × ItemId) :=
  d.tree.entries

end Dictionary

/-- What a dictionary is for: the items under their names. -/
structure Held where
  items : Name → Option ItemId
  readOnly : Bool
  pinned : ItemId → Bool
  fresh : ItemId

namespace Held

def new (readOnly : Bool) : Held where
  items := fun _ => none
  readOnly := readOnly
  pinned := fun _ => false
  fresh := 0

variable (held : Held)

/--
What is held under a name is found. An insertion adds an item where there is none, and a removal
takes it away, unless it is pinned. A read-only value refuses both.
-/
def answer : Lookup → Option ItemId × Held
  | .find name insert =>
    if insert = true ∧ held.readOnly = true then (none, held)
    else
      match held.items name, insert with
      | some item, _ => (some item, held)
      | none, false => (none, held)
      | none, true =>
        (some held.fresh,
          { held with
            items := Function.update held.items name (some held.fresh)
            fresh := held.fresh + 1 })
  | .remove name =>
    if held.readOnly then (none, held)
    else
      match held.items name with
      | none => (none, held)
      | some item =>
        if held.pinned item then (none, held)
        else (some item, { held with items := Function.update held.items name none })
  | .pin item on => (none, { held with pinned := Function.update held.pinned item on })

end Held

/-- A dictionary beside what it should hold, with all answers so far beside those it should give. -/
structure DictionaryRun where
  dictionary : Dictionary
  held : Held
  answers : List (Option ItemId × Option ItemId)

namespace DictionaryRun

def start (readOnly : Bool) : DictionaryRun where
  dictionary := .new readOnly
  held := .new readOnly
  answers := []

variable (run : DictionaryRun)

def step (call : Lookup) : Option DictionaryRun :=
  some
    { dictionary := (run.dictionary.answer call).2
      held := (run.held.answer call).2
      answers := run.answers ++ [((run.dictionary.answer call).1, (run.held.answer call).1)] }

/--
Every answer was the right one, and going through the dictionary visits exactly what it should
hold, by strictly ascending names.
-/
structure Sorted : Prop where
  alive : run.dictionary.crashed = false
  right : ∀ pair ∈ run.answers, pair.1 = pair.2
  ascending : run.dictionary.visited.Pairwise fun entry later => entry.1 < later.1
  holds : ∀ name item, (name, item) ∈ run.dictionary.visited ↔ run.held.items name = some item

/--
The empty name is not inserted into a dictionary without a node that was taken, nor removed as long
as the first node is as it was made.
-/
def Reached (call : Lookup) : Prop :=
  run.dictionary.readOnly = true ∨
    (call = .find [] true → run.dictionary.tree.Taken) ∧
      (call = .remove [] → run.dictionary.tree ≠ .new_)

end DictionaryRun

end AgentC

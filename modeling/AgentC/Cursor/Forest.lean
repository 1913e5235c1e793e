import Mathlib.Logic.Function.Basic
import AgentC.Listree.Dictionary

/-! Dictionaries of values, each value with a dictionary of its own, as a cursor walks over them. -/

namespace AgentC

abbrev ValueId := Nat

/-- A `ListreeItem`: a name with its values, the one at the head first. -/
structure Item where
  name : Name
  values : List ValueId
deriving DecidableEq, Repr

/-- All tree-mode values, and the items in their dictionaries. -/
structure Forest where
  tree : ValueId → AATree ItemId
  readOnly : ValueId → Bool
  /-- `isEmpty`: the value is null or its data has no bytes. -/
  isEmpty : ValueId → Bool
  pinnedCount : ValueId → Nat
  item : ItemId → Item
  /-- The numbers of the next value and of the next item. -/
  freshValue : ValueId
  freshItem : ItemId
  /-- A null item has been dereferenced. -/
  crashed : Bool

namespace Forest

variable (forest : Forest)

def dictionary (value : ValueId) : Dictionary where
  tree := forest.tree value
  readOnly := forest.readOnly value
  pinned := fun item => (forest.item item).values.any fun held => 0 < forest.pinnedCount held
  fresh := forest.freshItem
  crashed := forest.crashed

def keep (value : ValueId) (dictionary : Dictionary) : Forest :=
  { forest with
    tree := Function.update forest.tree value dictionary.tree
    freshItem := dictionary.fresh
    crashed := dictionary.crashed }

/-- `ListreeValue::find`. An item that is added has no values yet. -/
def find (value : ValueId) (name : Name) (insert : Bool) : Option ItemId × Forest :=
  let found := (forest.dictionary value).find name insert
  let forest' := forest.keep value found.2
  if found.2.fresh = forest.freshItem then (found.1, forest')
  else (found.1, { forest' with item := Function.update forest.item forest.freshItem ⟨name, []⟩ })

/-- `ListreeValue::remove`, which also takes all values from the item. -/
def remove (value : ValueId) (name : Name) : Forest :=
  let removed := (forest.dictionary value).remove name
  let forest' := forest.keep value removed.2
  match removed.1 with
  | none => forest'
  | some item =>
    { forest' with
      item := Function.update forest.item item { forest.item item with values := [] } }

/-- `ListreeItem::getValue` without popping. -/
def getValue (item : ItemId) (fromEnd : Bool) : Option ValueId :=
  if fromEnd then (forest.item item).values.getLast? else (forest.item item).values.head?

def setValues (item : ItemId) (values : List ValueId) : Forest :=
  { forest with item := Function.update forest.item item { forest.item item with values } }

/-- `ListreeValue::popItemValue`. -/
def popItemValue (owner : ValueId) (item : ItemId) (fromEnd : Bool) : Option ValueId × Forest :=
  if forest.readOnly owner then (none, forest)
  else
    let values := (forest.item item).values
    (forest.getValue item fromEnd,
      forest.setValues item (if fromEnd then values.dropLast else values.tail))

/-- `ListreeValue::addItemValue`. -/
def addItemValue (owner : ValueId) (item : ItemId) (value : ValueId) (atEnd : Bool) : Forest :=
  if forest.readOnly owner then forest
  else
    let values := (forest.item item).values
    forest.setValues item (if atEnd then values ++ [value] else value :: values)

/-- A value made by a create function, with a new tree. -/
def create (isEmpty : Bool) : ValueId × Forest :=
  (forest.freshValue,
    { forest with
      tree := Function.update forest.tree forest.freshValue .new_
      readOnly := Function.update forest.readOnly forest.freshValue false
      isEmpty := Function.update forest.isEmpty forest.freshValue isEmpty
      pinnedCount := Function.update forest.pinnedCount forest.freshValue 0
      freshValue := forest.freshValue + 1 })

/-- `ListreeValue::pin`. -/
def pin (value : ValueId) : Forest :=
  { forest with
    pinnedCount := Function.update forest.pinnedCount value (forest.pinnedCount value + 1) }

/-- `ListreeValue::unpin`, which stops at zero. -/
def unpin (value : ValueId) : Forest :=
  { forest with
    pinnedCount := Function.update forest.pinnedCount value (forest.pinnedCount value - 1) }

/-- What `forEachTree` visits, each name with whether its item has a value. -/
def visits (value : ValueId) (forward : Bool) : List (Name × ItemId) :=
  if forward then (forest.tree value).entries else (forest.tree value).entries.reverse

end Forest

end AgentC

import AgentC.Cursor.Following

/-! Removing the value a cursor is at, and what a removal should take away. -/

namespace AgentC

namespace Cursor

variable (cursor : Cursor)

/-- `mutationTouchesReadOnlyBranch`. -/
def mutationTouchesReadOnlyBranch : Bool :=
  cursor.forest.readOnly cursor.current || cursor.currentParent.any cursor.forest.readOnly

def removeName (name : Name) : Cursor :=
  { cursor with forest := cursor.forest.remove cursor.current name }

/--
Whether the cleanup goes on with the current value: it has an item, no data and no children, and
nothing is read-only.
-/
def goesOn : Bool :=
  let hasChildren := !(cursor.forest.tree cursor.current).entries.isEmpty
  cursor.currentItem.isSome && !(!cursor.forest.isEmpty cursor.current || hasChildren) &&
    cursor.currentParent.isSome && !cursor.mutationTouchesReadOnlyBranch

def popCurrent : Option ValueId × Cursor :=
  match cursor.currentParent, cursor.currentItem with
  | some owner, some item =>
    let popped := cursor.forest.popItemValue owner item cursor.currentItemFromEnd
    (popped.1, { cursor with forest := popped.2 })
  | _, _ => (none, cursor)

/--
The loop of `remove`, which goes on as long as the current item has no values.

Each round takes a component off the path, and at the root there is no item.
-/
def cleanup : Nat → Cursor → Cursor
  | 0, cursor => cursor
  | rounds + 1, cursor =>
    match cursor.currentItem with
    | none => cursor
    | some item =>
      if (cursor.forest.getValue item false).isSome then cursor
      else
        let parent := cursor.up
        -- The name is removed whether or not the cursor got up.
        let removed := parent.2.removeName (cursor.forest.item item).name
        if parent.1 && removed.goesOn then cleanup rounds removed.popCurrent.2 else removed

/-- `remove`. -/
def remove : Bool × Cursor :=
  if cursor.currentParent.isNone || cursor.currentItem.isNone || cursor.pathComponents.isEmpty then
    (false, cursor)
  else if cursor.mutationTouchesReadOnlyBranch then (false, cursor)
  else
    let popped := cursor.popCurrent
    if popped.1.isNone then (false, popped.2)
    else (true, (cleanup cursor.pathComponents.length popped.2).pinPath)

end Cursor

/-- One step of a path: the value whose dictionary it goes through, the item, and the end. -/
structure Level where
  owner : ValueId
  item : ItemId
  fromEnd : Bool
deriving DecidableEq, Repr

namespace Forest

variable (forest : Forest)

/-- The steps of a path, the last one first, when it leads to a value. -/
def levels (root : ValueId) (components : List Name) : List Level :=
  let rec climb : ValueId → List Name → List Level → List Level
    | _, [], above => above
    | owner, component :: rest, above =>
      match forest.holds owner (Component.parse component).name, forest.child owner component with
      | some item, some value =>
        climb value rest (⟨owner, item, (Component.parse component).tailDeref⟩ :: above)
      | _, _ => []
  climb root components []

def take (level : Level) : Forest :=
  let values := (forest.item level.item).values
  forest.setValues level.item (if level.fromEnd then values.dropLast else values.tail)

def erase (owner : ValueId) (name : Name) : Forest :=
  { forest with tree := Function.update forest.tree owner ((forest.tree owner).remove name) }

def useless (value : ValueId) : Bool :=
  forest.isEmpty value && (forest.tree value).entries.isEmpty

/--
After a value has been taken from the item of a step, the item goes when it is empty. Then the value
whose dictionary it was in goes in the same way when it is nothing any more, unless that is
refused because something is read-only.
-/
def tidy (forest : Forest) (level : Level) : List Level → Forest
  | [] =>
    if (forest.item level.item).values.isEmpty then
      forest.erase level.owner (forest.item level.item).name
    else forest
  | next :: above =>
    if (forest.item level.item).values.isEmpty then
      let erased := forest.erase level.owner (forest.item level.item).name
      if erased.useless level.owner && !erased.readOnly level.owner && !erased.readOnly next.owner then
        tidy (erased.take next) next above
      else erased
    else forest

def without (value : ValueId) : List Level → Forest
  | [] => forest
  | level :: above =>
    if forest.readOnly value || forest.readOnly level.owner then forest
    else (forest.take level).tidy level above

/--
A tree of dictionaries: each item is in one dictionary under its name, each value is in one item, and
values are one level below those whose dictionaries they are in.
-/
structure IsTree (forest : Forest) (depth : ValueId → Nat) : Prop where
  sound : forest.Sound
  named : ∀ {value name item}, forest.holds value name = some item → (forest.item item).name = name
  itemOnce : ∀ {value other name otherName item}, forest.holds value name = some item →
    forest.holds other otherName = some item → value = other
  valueOnce : ∀ {value other name otherName item otherItem held},
    forest.holds value name = some item → forest.holds other otherName = some otherItem →
      held ∈ (forest.item item).values → held ∈ (forest.item otherItem).values → item = otherItem
  nodup : ∀ {value name item}, forest.holds value name = some item → (forest.item item).values.Nodup
  deeper : ∀ {value name item held}, forest.holds value name = some item →
    held ∈ (forest.item item).values → depth held = depth value + 1

def Taken (forest next : Forest) (value : ValueId) : Prop :=
  ∃ item, value ∈ (forest.item item).values ∧ value ∉ (next.item item).values

/--
Whenever a removal empties an item, the path without its first component leads to the value whose
dictionary the item is in; and with one component less again where that value goes as well.
-/
def Aligned (forest : Forest) (root : ValueId) : List Name → List Level → Prop
  | _, [] => True
  | components, level :: above =>
    (forest.item level.item).values.length = 1 →
      forest.follow root components.tail = some level.owner ∧
        ((forest.isEmpty level.owner = true ∧ (forest.tree level.owner).entries.length = 1 ∧
            forest.readOnly level.owner = false ∧
            ∀ next ∈ above.head?, forest.readOnly next.owner = false) →
          Aligned forest root components.tail above)

end Forest

namespace Cursor

variable (cursor : Cursor)

def levels : List Level :=
  cursor.forest.levels cursor.root cursor.pathComponents

/--
Removing takes away one value and then the ancestors that became empty, and where no value was taken
away on the way, every path leads where it led.
-/
structure Removes : Prop where
  left : (cursor.forest.without cursor.current cursor.levels).Alike cursor.remove.2.forest
  others : ∀ components : List Name,
    (∀ front value, front <+: components → cursor.forest.follow cursor.root front = some value →
      ¬cursor.forest.Taken cursor.remove.2.forest value) →
    cursor.remove.2.forest.follow cursor.root components =
      cursor.forest.follow cursor.root components

/-- Either the value is not to be removed, or each ancestor that empties is found on the way up. -/
def Removable : Prop :=
  (∀ level ∈ cursor.levels.head?,
      cursor.forest.readOnly cursor.current = false →
        cursor.forest.readOnly level.owner = false →
          cursor.forest.Aligned cursor.root cursor.pathComponents cursor.levels)

end Cursor

end AgentC

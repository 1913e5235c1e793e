import AgentC.Library.Runs
import AgentC.Cursor.Following

/-!
Cursors over one Listree that they share: what each method does to the values, to their pins and to the cursor.

Values are dictionaries or lists, and a cursor may stand at no value.
-/

namespace AgentC.Pinning

/-- All values that cursors walk over. -/
structure Grove extends Forest where
  /-- The elements of a value in list mode, in the order in which `forEachList` visits them. -/
  list : ValueId → Option (List ValueId)
  /-- Values in static mounts, whose pins are not counted. -/
  immortal : ValueId → Bool
  /-- The value is null and has no data at all. -/
  hollow : ValueId → Bool

namespace Grove

variable (grove : Grove)

def isListMode (value : ValueId) : Bool :=
  (grove.list value).isSome

/-- `ListreeValue::find`. -/
def find (value : ValueId) (name : Name) (insert : Bool) : Option ItemId × Grove :=
  if grove.isListMode value then (none, grove)
  else
    let found := grove.toForest.find value name insert
    (found.1, { grove with toForest := found.2 })

/-- `ListreeValue::remove`. -/
def remove (value : ValueId) (name : Name) : Grove :=
  if grove.isListMode value then grove
  else { grove with toForest := grove.toForest.remove value name }

/-- `ListreeValue::addItemValue`, with whether a value was added. -/
def addItemValue (owner : ValueId) (item : ItemId) (value : ValueId) (atEnd : Bool) : Bool × Grove :=
  if grove.isListMode owner || grove.readOnly owner then (false, grove)
  else (true, { grove with toForest := grove.toForest.addItemValue owner item value atEnd })

/-- `ListreeValue::popItemValue`. -/
def popItemValue (owner : ValueId) (item : ItemId) (fromEnd : Bool) : Option ValueId × Grove :=
  if grove.isListMode owner then (none, grove)
  else
    let popped := grove.toForest.popItemValue owner item fromEnd
    (popped.1, { grove with toForest := popped.2 })

/-- A new dictionary, which is a null value or wraps an iterator. -/
def create (null : Bool) : ValueId × Grove :=
  let created := grove.toForest.create null
  (created.1,
    { grove with
      toForest := created.2
      list := Function.update grove.list created.1 none
      immortal := Function.update grove.immortal created.1 false
      hollow := Function.update grove.hollow created.1 null })

/-- `ListreeValue::pin`. -/
def pin (value : ValueId) : Grove :=
  if grove.immortal value then grove else { grove with toForest := grove.toForest.pin value }

/-- `ListreeValue::unpin`. -/
def unpin (value : ValueId) : Grove :=
  if grove.immortal value then grove else { grove with toForest := grove.toForest.unpin value }

def hasChildren (value : ValueId) : Bool :=
  !grove.isListMode value && !(grove.tree value).entries.isEmpty

def named (value : ValueId) (name : Name) : Option (ItemId × ValueId) :=
  (grove.find value name false).1.bind fun item => (grove.getValue item false).map (item, ·)

def target (item : ItemId) (component : Name) : Option ValueId :=
  (grove.getValue item (Component.parse component).tailDeref).bind fun next =>
    if (Component.parse component).valueTailDeref then (grove.list next).bind List.head? else some next

/-- A path can be followed from a value. An iterator can only be its end. -/
def Leads (grove : Grove) : ValueId → List Name → Prop
  | _, [] => True
  | value, component :: rest =>
    grove.list value = none ∧
      ∃ item, grove.holds value (Component.parse component).name = some item ∧
        if (Component.parse component).iteratorMode then rest = []
        else ∃ next, grove.target item component = some next ∧ grove.Leads next rest

end Grove

/-- An iterator over the values of an item: the item, and how far it has come. -/
structure History where
  item : ItemId
  place : Nat
  deriving DecidableEq, Repr

/-- A `Cursor`. Nothing turns a cursor round, so that there is no `reverse`. -/
structure Cursor where
  root : Option ValueId := none
  current : Option ValueId := none
  currentParent : Option ValueId := none
  currentItem : Option ItemId := none
  currentItemFromEnd : Bool := false
  /-- The components of the path, in the order in which `forEachList` visits them. -/
  pathComponents : List Name := []
  lastError : PathText := []
  /-- What an iterator goes through. -/
  history : Option History := none
  deriving DecidableEq, Repr

namespace Cursor

variable (cursor : Cursor)

/-- `getPath`. -/
def getPath : PathText :=
  46 :: [46].intercalate cursor.pathComponents

def atValue (value : ValueId) (parent : Option ValueId) (item : Option ItemId) (fromEnd : Bool) : Cursor :=
  { cursor with
    current := some value
    currentParent := parent
    currentItem := item
    currentItemFromEnd := fromEnd }

/-- The cursor where another one is, as `next` and its siblings put it back. -/
def backTo (saved : Cursor) : Cursor :=
  { cursor with
    current := saved.current
    currentParent := saved.currentParent
    currentItem := saved.currentItem
    pathComponents := saved.pathComponents }

/-- The cursor without the component of its path where `forEachList` starts. -/
def shortened : Cursor :=
  { cursor with pathComponents := cursor.pathComponents.tail }

def Lone : Prop :=
  cursor.current = none ∨ cursor.currentItem = none ∨ cursor.pathComponents = []

end Cursor

/-- A cursor that is being moved, and the iterators that have been made on the way. -/
structure Walk where
  grove : Grove
  cursor : Cursor
  born : List Cursor := []

namespace Walk

variable (walk : Walk)

/-- `pinPath`. -/
def pinPath : Walk :=
  match walk.cursor.current with
  | none => walk
  | some value => { walk with grove := walk.grove.pin value }

/-- `unpinPath`. -/
def unpinPath : Walk :=
  match walk.cursor.current with
  | none => walk
  | some value => { walk with grove := walk.grove.unpin value }

def crash : Walk :=
  { walk with grove := { walk.grove with crashed := true } }

/-- The end of `resolve` for one component, with the value that the component leads to. -/
def goOn (current : ValueId) (item : ItemId) (fromEnd insert : Bool) : Option ValueId → Bool × Walk
  | some next => (true, { walk with cursor := walk.cursor.atValue next (some current) (some item) fromEnd })
  | none =>
    if insert then
      let next := walk.grove.create true
      (true,
        { walk with
          grove := (next.2.addItemValue current item next.1 false).2
          cursor := walk.cursor.atValue next.1 (some current) (some item) fromEnd })
    else (false, walk)

/--
`resolve` for one component.

No component has a dot in it, so none is `..`.
-/
def enter (component : Name) (insert : Bool) : Bool × Walk :=
  match walk.cursor.current with
  | none => (false, walk.crash)
  | some current =>
    if walk.grove.isListMode current then (false, walk)
    else
      let parts := Component.parse component
      let found := walk.grove.find current parts.name insert
      let walk := { walk with grove := found.2 }
      match found.1 with
      | none => (false, walk)
      | some item =>
        if parts.iteratorMode then
          -- The iterator stands at no value. The value that wraps it is a new one.
          let wrapper := walk.grove.create false
          (true,
            { grove := wrapper.2
              cursor := walk.cursor.atValue wrapper.1 none none false
              born := walk.born ++ [{ root := walk.cursor.root, history := some ⟨item, 0⟩ }] })
        else
          match walk.grove.getValue item parts.tailDeref, parts.valueTailDeref with
          | some next, true =>
            match walk.grove.list next with
            | none =>
              (false,
                { walk with
                  cursor.lastError :=
                    ascii "Invalid list-tail dereference for '" ++ component ++ ascii "'" })
            | some elements => walk.goOn current item parts.tailDeref insert elements.head?
          | next, _ => walk.goOn current item parts.tailDeref insert next

/-- `resolve` for one component after the other, up to the first that is not resolved. -/
def enterAll (insert : Bool) : Walk → List Name → Bool × Walk
  | walk, [] => (true, walk)
  | walk, component :: rest =>
    let entered := walk.enter component insert
    if entered.1 then enterAll insert entered.2 rest else entered

/-- Where `resolve` starts: at the root, or for a relative path behind a path at the value there. -/
def startOf (root : ValueId) (path : PathText) : Walk :=
  let components := AgentC.Cursor.parsePathString path
  if path.head? == some 46 || walk.cursor.pathComponents.isEmpty then
    { walk with cursor := { walk.cursor.atValue root none none false with pathComponents := components } }
  else { walk with cursor.pathComponents := walk.cursor.pathComponents ++ components }

/-- `resolve`. -/
def resolve (path : PathText) (insert : Bool) : Bool × Walk :=
  let walk := { walk with cursor.lastError := [] }
  match walk.cursor.root with
  | none => (false, walk)
  | some root =>
    let entered := enterAll insert (walk.unpinPath.startOf root path) (AgentC.Cursor.parsePathString path)
    (entered.1, entered.2.pinPath)

/-- `up`, which takes the component off the path where `forEachList` starts. -/
def up : Bool × Walk :=
  if walk.cursor.pathComponents.isEmpty then (false, walk)
  else
    let popped := { walk.unpinPath with cursor := walk.cursor.shortened }
    let resolved := popped.resolve popped.cursor.getPath false
    if resolved.1 then resolved else (false, resolved.2.pinPath)

/-- `down`, to the last element of a list or to the first child that has a value. -/
def down : Bool × Walk :=
  match walk.cursor.current with
  | none => (false, walk)
  | some current =>
    let unpinned := walk.unpinPath
    let child :=
      match unpinned.grove.list current with
      | some elements => elements.getLast?.map fun child => (ascii "0", (none : Option ItemId), child)
      | none =>
        (unpinned.grove.visits current true).findSome? fun child =>
          (unpinned.grove.getValue child.2 false).map fun value => (child.1, some child.2, value)
    match child with
    | none => (false, unpinned.pinPath)
    | some (name, item, value) =>
      (true,
        { unpinned with
          cursor :=
            { walk.cursor.atValue value (some current) item false with
              pathComponents := walk.cursor.pathComponents ++ [name] } }.pinPath)

/-- `next` when going forward, and else `prev`, in a dictionary. -/
def toSibling (forward : Bool) : Bool × Walk :=
  match walk.cursor.current, walk.cursor.currentItem, walk.cursor.pathComponents.getLast? with
  | some _, some _, some currentName =>
    let resolved := walk.unpinPath.resolve (AgentC.Cursor.parentPath walk.cursor.getPath) false
    let there := resolved.2
    let back := { there with cursor := there.cursor.backTo walk.cursor }.pinPath
    match resolved.1, there.cursor.current with
    | true, some parent =>
      if there.grove.isListMode parent then (false, back)
      else
        let visits := there.grove.visits parent forward
        match (AgentC.Cursor.scan there.grove.toForest currentName false visits).bind fun name =>
          (there.grove.named parent name).map (name, ·) with
        | none => (false, back)
        | some (name, item, value) =>
          -- The pin that `resolve` has put on the parent stays.
          (true,
            { there with
              cursor :=
                { there.cursor.atValue value (some parent) (some item) false with
                  pathComponents := walk.cursor.pathComponents.dropLast ++ [name] } }.pinPath)
    | _, _ => (false, back)
  | _, _, _ => (false, walk)

/-- `next`. An iterator goes on to the next value of its item. -/
def next : Bool × Walk :=
  match walk.cursor.history with
  | some history =>
    if history.place + 1 < (walk.grove.item history.item).values.length then
      (true, { walk with cursor.history := some { history with place := history.place + 1 } })
    else (false, walk)
  | none => walk.toSibling true

/-- `prev`. -/
def prev : Bool × Walk :=
  walk.toSibling false

/-- The names that `find` and `filter` look for. -/
def lookupNames : List Name :=
  ["first", "0", "a", "start", "begin", "name", "id", "key", "value"].map ascii

/-- `find`, with what `fnmatch` says of each name. -/
def find (pattern : Name → Bool) : Bool × Walk :=
  match walk.cursor.current with
  | none => (false, walk)
  | some current =>
    if walk.grove.isListMode current then (false, walk)
    else
      let unpinned := walk.unpinPath
      let found := lookupNames.findSome? fun name =>
        if pattern name then (unpinned.grove.named current name).map (name, ·) else none
      match found with
      | none => (false, unpinned.pinPath)
      | some (name, item, value) =>
        (true,
          { unpinned with
            cursor :=
              { walk.cursor.atValue value (some current) (some item) false with
                pathComponents := walk.cursor.pathComponents ++ [name] } }.pinPath)

/-- The turns of `filter`, with what the predicate says of the child with each name. -/
def filterFrom (predicate : Name → Bool) (current : ValueId) : Walk → List Name → Bool × Walk
  | walk, [] => (false, walk)
  | walk, name :: rest =>
    match walk.grove.named current name with
    | none => filterFrom predicate current walk rest
    | some (item, value) =>
      -- The copy pins the current value, is unpinned, and goes to the child without pinning it.
      let copied := walk.pinPath.unpinPath
      if predicate name then
        let moved :=
          { copied with
            cursor :=
              { walk.cursor.atValue value (some current) (some item) walk.cursor.currentItemFromEnd with
                pathComponents := walk.cursor.pathComponents ++ [name] } }.pinPath
        (true, { moved with grove := moved.grove.unpin value })
      else filterFrom predicate current { copied with grove := copied.grove.unpin value } rest

/-- `filter`. -/
def filter (predicate : Name → Bool) : Bool × Walk :=
  match walk.cursor.current with
  | none => (false, walk)
  | some current =>
    if walk.grove.isListMode current then (false, walk)
    else
      let filtered := filterFrom predicate current walk.unpinPath lookupNames
      if filtered.1 then filtered else (false, filtered.2.pinPath)

/-- `mutationTouchesReadOnlyBranch`. -/
def mutationTouchesReadOnlyBranch : Bool :=
  walk.cursor.current.any walk.grove.readOnly || walk.cursor.currentParent.any walk.grove.readOnly

def isPlaceholder (item : ItemId) : Bool :=
  (walk.grove.getValue item walk.cursor.currentItemFromEnd).any fun head =>
    walk.grove.hollow head && !walk.grove.hasChildren head

/-- `assign`. The value is not null. -/
def assign (value : ValueId) : Bool × Walk :=
  match walk.cursor.current, walk.cursor.currentParent, walk.cursor.currentItem with
  | some _, some parent, some item =>
    if walk.mutationTouchesReadOnlyBranch then (false, walk)
    else
      let popped :=
        if walk.isPlaceholder item then (walk.grove.popItemValue parent item walk.cursor.currentItemFromEnd).2
        else walk.grove
      let added := popped.addItemValue parent item value walk.cursor.currentItemFromEnd
      if added.1 then (true, { walk with grove := added.2, cursor.current := some value }.pinPath)
      else (false, { walk with grove := added.2 })
  | _, _, _ => (false, walk)

/-- What an assignment needs: an item in a dictionary, and nothing that is read-only. -/
def Assignable : Prop :=
  walk.cursor.current ≠ none ∧ walk.mutationTouchesReadOnlyBranch = false ∧
    ∃ parent item, walk.cursor.currentParent = some parent ∧ walk.cursor.currentItem = some item ∧
      walk.grove.list parent = none

/-- What a removal needs, which is a path and a value of the item besides. -/
def Removable : Prop :=
  walk.cursor.current ≠ none ∧ walk.mutationTouchesReadOnlyBranch = false ∧ walk.cursor.pathComponents ≠ [] ∧
    ∃ parent item, walk.cursor.currentParent = some parent ∧ walk.cursor.currentItem = some item ∧
      walk.grove.list parent = none ∧ walk.grove.getValue item walk.cursor.currentItemFromEnd ≠ none

def removeName (name : Name) : Walk :=
  match walk.cursor.current with
  | none => walk
  | some current => { walk with grove := walk.grove.remove current name }

def popCurrent : Option ValueId × Walk :=
  match walk.cursor.currentParent, walk.cursor.currentItem with
  | some parent, some item =>
    let popped := walk.grove.popItemValue parent item walk.cursor.currentItemFromEnd
    (popped.1, { walk with grove := popped.2 })
  | _, _ => (none, walk)

/-- Whether the cleanup goes on with the current value. -/
def goesOn : Bool :=
  walk.cursor.currentItem.isSome &&
    walk.cursor.current.all (fun current => walk.grove.isEmpty current && !walk.grove.hasChildren current) &&
    walk.cursor.currentParent.isSome && !walk.mutationTouchesReadOnlyBranch

/-- The loop of `remove`. Each round takes a component off the path. -/
def cleanup : Nat → Walk → Walk
  | 0, walk => walk
  | rounds + 1, walk =>
    match walk.cursor.currentItem with
    | none => walk
    | some item =>
      if (walk.grove.getValue item false).isSome then walk
      else
        let parent := walk.up
        let removed := parent.2.removeName (walk.grove.item item).name
        if parent.1 && removed.goesOn then cleanup rounds removed.popCurrent.2 else removed

/-- `remove`. -/
def remove : Bool × Walk :=
  if walk.cursor.current.isNone || walk.cursor.currentParent.isNone || walk.cursor.currentItem.isNone ||
      walk.mutationTouchesReadOnlyBranch || walk.cursor.pathComponents.isEmpty then (false, walk)
  else
    let popped := walk.popCurrent
    if popped.1.isNone then (false, popped.2)
    else (true, (cleanup (walk.cursor.pathComponents.length + 1) popped.2).pinPath)

/-- `removeHeadOnly`. -/
def removeHeadOnly : Bool × Walk :=
  match walk.cursor.currentParent, walk.cursor.currentItem with
  | some _, some item =>
    if walk.mutationTouchesReadOnlyBranch then (false, walk)
    else
      let popped := walk.unpinPath.popCurrent
      if popped.1.isNone then
        (false, { popped.2 with cursor := { popped.2.cursor with current := none, currentParent := none } }.pinPath)
      else
        let head := popped.2.grove.getValue item walk.cursor.currentItemFromEnd
        (true, { popped.2 with cursor.current := head }.pinPath)
  | _, _ => (false, walk)

end Walk

/-- What is done with the live cursors, which are known by their places. -/
inductive Call where
  /-- `Cursor()` or `Cursor(rootValue)`. -/
  | construct (root : Option ValueId)
  | copy (source : Nat)
  /-- `operator=`. -/
  | copyAssign (target source : Nat)
  | destroy (cursor : Nat)
  | resolve (cursor : Nat) (path : PathText) (insert : Bool)
  | up (cursor : Nat)
  | down (cursor : Nat)
  | next (cursor : Nat)
  | prev (cursor : Nat)
  | find (cursor : Nat) (pattern : Name → Bool)
  | filter (cursor : Nat) (predicate : Name → Bool)
  | assign (cursor : Nat) (value : ValueId)
  | remove (cursor : Nat)
  | removeHeadOnly (cursor : Nat)

def standing (cursors : List Cursor) (value : ValueId) : Nat :=
  cursors.countP (·.current = some value)

/-- All live cursors, and the values they share. -/
structure Session where
  grove : Grove
  cursors : List Cursor

namespace Session

variable (session : Session)

def isValue (value : ValueId) : Bool :=
  value < session.grove.freshValue

def add (cursor : Cursor) : Session :=
  { grove := (Walk.pinPath { grove := session.grove, cursor }).grove
    cursors := session.cursors ++ [cursor] }

/-- A method of the cursor at a place. The iterators that it makes are live cursors, too. -/
def act (place : Nat) (method : Walk → Bool × Walk) : Option Session :=
  (session.cursors[place]?).map fun cursor =>
    let walk := (method { grove := session.grove, cursor }).2
    { grove := walk.grove, cursors := session.cursors.set place walk.cursor ++ walk.born }

def perform : Call → Option Session
  | .construct root =>
    if root.all session.isValue then some (session.add { root, current := root }) else none
  | .copy source => (session.cursors[source]?).map session.add
  | .copyAssign target source =>
    if target = source then (session.cursors[target]?).map fun _ => session
    else
      (session.cursors[source]?).bind fun other =>
        session.act target fun walk => (true, { walk.unpinPath with cursor := other }.pinPath)
  | .destroy place =>
    (session.cursors[place]?).map fun cursor =>
      { grove := (Walk.unpinPath { grove := session.grove, cursor }).grove
        cursors := session.cursors.eraseIdx place }
  | .resolve place path insert => session.act place (·.resolve path insert)
  | .up place => session.act place Walk.up
  | .down place => session.act place Walk.down
  | .next place => session.act place Walk.next
  | .prev place => session.act place Walk.prev
  | .find place pattern => session.act place (·.find pattern)
  | .filter place predicate => session.act place (·.filter predicate)
  | .assign place value => if session.isValue value then session.act place (·.assign value) else none
  | .remove place => session.act place Walk.remove
  | .removeHeadOnly place => session.act place Walk.removeHeadOnly

def step (call : Call) : Option Session :=
  (session.perform call).filter fun after => !after.grove.crashed

def Balanced : Prop :=
  ∀ value, session.grove.immortal value = false →
    session.grove.pinnedCount value = standing session.cursors value

def Alone (place : Nat) (value : ValueId) : Prop :=
  session.grove.immortal value = false →
    ∀ other ∈ session.cursors.eraseIdx place, other.current ≠ some value

/--
A call that does not lose or leave a pin.

Going up unpins twice, so that it is right where no other cursor stands and the rest of the path leads somewhere.
Going to a sibling leaves the pin of the parent, assigning leaves that of the old value, and removing pins once
more. Filtering unpins the children that it asks about.
-/
def Proper : Call → Prop
  | .up place => ∀ cursor ∈ session.cursors[place]?, cursor.pathComponents = [] ∨
    ∀ root, cursor.root = some root →
      (∀ value, cursor.current = some value → session.Alone place value) ∧
        session.grove.Leads root (AgentC.Cursor.parsePathString cursor.shortened.getPath)
  | .next place => ∀ cursor ∈ session.cursors[place]?, cursor.history.isSome ∨ cursor.Lone
  | .prev place => ∀ cursor ∈ session.cursors[place]?, cursor.Lone
  | .filter place predicate => ∀ cursor ∈ session.cursors[place]?, ∀ current, cursor.current = some current →
    ∀ name ∈ Walk.lookupNames, ∀ item value, session.grove.named current name = some (item, value) →
      predicate name = false ∧ session.Alone place value
  | .assign place _ => ∀ cursor ∈ session.cursors[place]?, ¬Walk.Assignable { grove := session.grove, cursor }
  | .remove place => ∀ cursor ∈ session.cursors[place]?, ¬Walk.Removable { grove := session.grove, cursor }
  | _ => True

end Session

end AgentC.Pinning

import AgentC.Library.Runs
import AgentC.Cursor.Following

/-! What the moves of a cursor should do, beside what they do in a run. -/

namespace AgentC

/-- A component under which `resolve` may insert: it has no mark that dictionaries do not know. -/
structure Component.Insertable (component : Name) : Prop where
  iteratorMode : (Component.parse component).iteratorMode = false
  valueTailDeref : (Component.parse component).valueTailDeref = false
  plain : Name.Plain (Component.parse component).name

namespace Forest

def children (forest : Forest) (value : ValueId) : List Name :=
  ((forest.tree value).entries.filter fun child => (forest.getValue child.2 false).isSome).map
    Prod.fst

/-- A path can be taken from a value: all of it is there, or `resolve` may insert what is missing. -/
def Passes (forest : Forest) (insert : Bool) : ValueId → List Name → Prop
  | _, [] => True
  | value, component :: rest =>
    (insert = true → forest.readOnly value = false) ∧
      match forest.child value component with
      | some target => forest.Passes insert target rest
      | none => insert = true ∧ ∀ missing ∈ component :: rest, Component.Insertable missing

end Forest

def Beyond (forward : Bool) (name other : Name) : Prop :=
  if forward then name < other else other < name

structure Nearest (forward : Bool) (names : List Name) (name next : Name) : Prop where
  member : next ∈ names
  beyond : Beyond forward name next
  first : ∀ other ∈ names, Beyond forward name other → other = next ∨ Beyond forward next other

namespace Cursor

inductive Call where
  | resolve (path : PathText) (insert : Bool)
  | up
  | down
  | next
  | prev
deriving DecidableEq, Repr

variable (cursor : Cursor)

def call : Call → Bool × Cursor
  | .resolve path insert => cursor.resolve path insert
  | .up => cursor.up
  | .down => cursor.down
  | .next => cursor.next
  | .prev => cursor.prev

/-- A fresh cursor that resolves the path of this one from the root gets to the same value. -/
structure Coherent : Prop where
  resolves : ((new cursor.forest cursor.root).resolve cursor.getPath false).1 = true
  current : ((new cursor.forest cursor.root).resolve cursor.getPath false).2.current = cursor.current

/-- The names beside the current one, which is the first part of the answer. -/
def siblings : Option (Name × List Name) :=
  cursor.pathComponents.getLast?.bind fun last =>
    (cursor.forest.follow cursor.root cursor.pathComponents.dropLast).map fun parent =>
      ((Component.parse last).name, cursor.forest.children parent)

def Alone (forward : Bool) : Prop :=
  ∀ around ∈ cursor.siblings, ∀ other ∈ around.2, ¬Beyond forward around.1 other

/-- Where a call that succeeds gets to. -/
def Lands (after : Cursor) : Call → Prop
  | .resolve _ _ | .down => True
  | .up =>
    cursor.pathComponents ≠ [] ∧ after.pathComponents = cursor.pathComponents.dropLast
  | .next => ToNearest true
  | .prev => ToNearest false
where
  /-- The last component is now the name of the nearest sibling. -/
  ToNearest (forward : Bool) : Prop :=
    ∃ around ∈ cursor.siblings, ∃ name, Nearest forward around.2 around.1 name ∧
      after.pathComponents = cursor.pathComponents.dropLast ++ [name]

def Stuck : Call → Prop
  | .resolve _ _ | .down => True
  | .up => cursor.pathComponents = []
  | .next => cursor.Alone true
  | .prev => cursor.Alone false

/--
A call that does not meet a defect: a path that can be taken, going up when the first component of
the path is as good as the last, and going to a sibling below the first level.
-/
def Proper : Call → Prop
  | .resolve path insert =>
    cursor.forest.Passes insert (cursor.startOf path).current (parsePathString path)
  | .up => cursor.pathComponents.tail = cursor.pathComponents.dropLast
  | .down => True
  | .next => Reached true
  | .prev => Reached false
where
  /--
  On the first level `next` and `prev` look among the current value's own children, and they do not
  know a component with a mark, so that neither may have somewhere to go.
  -/
  Reached (forward : Bool) : Prop :=
    ∀ last ∈ cursor.pathComponents.getLast?,
      if cursor.pathComponents.length = 1 then
        cursor.Alone forward ∧
          scan cursor.forest last false (cursor.forest.visits cursor.current forward) = none
      else (Component.parse last).tailDeref = false ∨ cursor.Alone forward

end Cursor

structure Move where
  before : Cursor
  call : Cursor.Call
  succeeded : Bool
  after : Cursor

/--
A call that succeeds leaves the cursor coherent and gets to the right place; a call that fails has
nowhere to go and leaves the cursor where it was.
-/
structure Move.Right (move : Move) : Prop where
  succeeds : move.succeeded = true → move.after.Coherent ∧ move.before.Lands move.after move.call
  fails : move.succeeded = false →
    move.after.current = move.before.current ∧
      move.after.getPath = move.before.getPath ∧ move.before.Stuck move.call

structure CursorRun where
  cursor : Cursor
  moves : List Move

namespace CursorRun

def start (forest : Forest) (root : ValueId) : CursorRun where
  cursor := .new forest root
  moves := []

variable (run : CursorRun)

def step (call : Cursor.Call) : Option CursorRun :=
  let called := run.cursor.call call
  some
    { cursor := called.2
      moves := run.moves ++ [⟨run.cursor, call, called.1, called.2⟩] }

def Right : Prop :=
  ∀ move ∈ run.moves, move.Right

def Proper (call : Cursor.Call) : Prop :=
  run.cursor.Proper call

end CursorRun

end AgentC

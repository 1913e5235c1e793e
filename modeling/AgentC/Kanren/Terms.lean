import AgentC.Library.Terms

/-! The values a logic program is about, as the unifier sees them. -/

namespace AgentC.Kanren

/--
The identity of a `ListreeValue`, with its read-only flag.

Two pointers are equal exactly when they have the same identity, and a node has one content.
-/
structure Node where
  id : Nat
  readOnly : Bool := false
  deriving DecidableEq, Repr

/--
A non-null pointer to a value built from logic variables, strings, nulls, lists and dictionaries.

A list has its children in the order of `forEachList`, the last one added first.
A dictionary lists its fields in the order of the tree, which is by name. Null has no fields.
-/
inductive Term where
  | var (node : Node) (id : Int)
  | text (node : Node) (bytes : List UInt8)
  | list (node : Node) (children : List Term)
  | dict (node : Node) (fields : List (String × Term))
  deriving Repr

namespace Term

/-- Whether a value carries the flag `LogicVar`. -/
def isLogicVar : Term → Bool
  | .var _ _ => true
  | _ => false

def isListMode : Term → Bool
  | .list _ _ => true
  | _ => false

def data : Term → List UInt8
  | .var _ id => (toString id).toUTF8.toList
  | .text _ bytes => bytes
  | _ => []

def listChildren : Term → List (String × Term)
  | .list _ children => children.map fun child => ("", child)
  | _ => []

def treeChildren : Term → List (String × Term)
  | .dict _ fields => fields
  | _ => []

mutual

/-- The deep copy of a value, with new nodes numbered from `next` on. A read-only node is shared. -/
def copy : Term → Nat → Term × Nat
  | .var node id, next =>
    if node.readOnly then (.var node id, next) else (.var ⟨next, false⟩ id, next + 1)
  | .text node bytes, next =>
    if node.readOnly then (.text node bytes, next) else (.text ⟨next, false⟩ bytes, next + 1)
  | .list node children, next =>
    if node.readOnly then (.list node children, next)
    else
      let (children, last) := copyChildren children (next + 1)
      (.list ⟨next, false⟩ children, last)
  | .dict node fields, next =>
    if node.readOnly then (.dict node fields, next)
    else
      let (fields, last) := copyFields fields (next + 1)
      (.dict ⟨next, false⟩ fields, last)

def copyChildren : List Term → Nat → List Term × Nat
  | [], next => ([], next)
  | child :: rest, next =>
    let (child, next) := copy child next
    let (rest, next) := copyChildren rest next
    (child :: rest, next)

def copyFields : List (String × Term) → Nat → List (String × Term) × Nat
  | [], next => ([], next)
  | (name, child) :: rest, next =>
    let (child, next) := copy child next
    let (rest, next) := copyFields rest next
    ((name, child) :: rest, next)

/-- Whether two pointers point to one node, and so to one content. -/
def same : Term → Term → Bool
  | .var node id, .var node' id' => node == node' && id == id'
  | .text node bytes, .text node' bytes' => node == node' && bytes == bytes'
  | .list node children, .list node' children' => node == node' && sameChildren children children'
  | .dict node fields, .dict node' fields' => node == node' && sameFields fields fields'
  | _, _ => false

def sameChildren : List Term → List Term → Bool
  | [], [] => true
  | child :: rest, child' :: rest' => same child child' && sameChildren rest rest'
  | _, _ => false

/-- Whether two dictionaries point to the same nodes under the same names. -/
def sameFields : List (String × Term) → List (String × Term) → Bool
  | [], [] => true
  | (name, child) :: rest, (name', child') :: rest' =>
    name == name' && same child child' && sameFields rest rest'
  | _, _ => false

end

end Term

/-- What a value has at its root when its identity is forgotten. -/
inductive Symbol where
  | text (bytes : List UInt8)
  | list
  | dict (names : List String)
  deriving DecidableEq, Repr

abbrev LogicTerm := Tm Int Symbol

namespace Term

mutual

def erase : Term → LogicTerm
  | .var _ id => .var id
  | .text _ bytes => .app (.text bytes) []
  | .list _ children => .app .list (eraseChildren children)
  | .dict _ fields => .app (.dict (fields.map Prod.fst)) (eraseFields fields)

def eraseChildren : List Term → List LogicTerm
  | [] => []
  | child :: rest => erase child :: eraseChildren rest

def eraseFields : List (String × Term) → List LogicTerm
  | [] => []
  | (_, child) :: rest => erase child :: eraseFields rest

end

@[simp] theorem eraseChildren_eq (children : List Term) :
    eraseChildren children = children.map erase := by
  induction children with
  | nil => rfl
  | cons child rest ih => rw [eraseChildren, ih, List.map_cons]

@[simp] theorem eraseFields_eq (fields : List (String × Term)) :
    eraseFields fields = fields.map fun field => field.2.erase := by
  induction fields with
  | nil => rfl
  | cons field rest ih => rw [eraseFields, ih, List.map_cons]

mutual

theorem copy_erase : ∀ (t : Term) (next : Nat), (t.copy next).1.erase = t.erase
  | .var node id, next => by
    rw [copy]
    split <;> rfl
  | .text node bytes, next => by
    rw [copy]
    split <;> rfl
  | .list node children, next => by
    rw [copy]
    split
    · rfl
    · exact congrArg (Tm.app .list) (copyChildren_erase children (next + 1))
  | .dict node fields, next => by
    rw [copy]
    split
    · rfl
    · -- Names are kept, and so is what stands under them.
      obtain ⟨names, children⟩ := copyFields_erase fields (next + 1)
      simp only [erase, names, children]

theorem copyChildren_erase : ∀ (children : List Term) (next : Nat),
    eraseChildren (copyChildren children next).1 = eraseChildren children
  | [], _ => rfl
  | child :: rest, next => by
    simp only [copyChildren, eraseChildren, List.cons.injEq]
    exact ⟨copy_erase child next, copyChildren_erase rest _⟩

theorem copyFields_erase : ∀ (fields : List (String × Term)) (next : Nat),
    (copyFields fields next).1.map Prod.fst = fields.map Prod.fst ∧
      eraseFields (copyFields fields next).1 = eraseFields fields
  | [], _ => ⟨rfl, rfl⟩
  | (name, child) :: rest, next => by
    obtain ⟨names, children⟩ := copyFields_erase rest (copy child next).2
    have head := copy_erase child next
    simp only [copyFields, eraseFields, List.map_cons, names, children, head, and_self]

end

mutual

theorem eq_of_same : ∀ {t u : Term}, same t u = true → t = u
  | .var _ _, .var _ _, equal => by
    simp only [same, Bool.and_eq_true, beq_iff_eq] at equal
    rw [equal.1, equal.2]
  | .text _ _, .text _ _, equal => by
    simp only [same, Bool.and_eq_true, beq_iff_eq] at equal
    rw [equal.1, equal.2]
  | .list _ _, .list _ _, equal => by
    simp only [same, Bool.and_eq_true, beq_iff_eq] at equal
    rw [equal.1, eq_of_sameChildren equal.2]
  | .dict _ _, .dict _ _, equal => by
    simp only [same, Bool.and_eq_true, beq_iff_eq] at equal
    rw [equal.1, eq_of_sameFields equal.2]
  | .var _ _, .text _ _, equal | .var _ _, .list _ _, equal | .var _ _, .dict _ _, equal
  | .text _ _, .var _ _, equal | .text _ _, .list _ _, equal | .text _ _, .dict _ _, equal
  | .list _ _, .var _ _, equal | .list _ _, .text _ _, equal | .list _ _, .dict _ _, equal
  | .dict _ _, .var _ _, equal | .dict _ _, .text _ _, equal | .dict _ _, .list _ _, equal => by
    simp [same] at equal

theorem eq_of_sameChildren : ∀ {left right : List Term}, sameChildren left right = true → left = right
  | [], [], _ => rfl
  | _ :: _, _ :: _, equal => by
    simp only [sameChildren, Bool.and_eq_true] at equal
    rw [eq_of_same equal.1, eq_of_sameChildren equal.2]
  | [], _ :: _, equal | _ :: _, [], equal => by
    simp [sameChildren] at equal

theorem eq_of_sameFields : ∀ {left right : List (String × Term)},
    sameFields left right = true → left = right
  | [], [], _ => rfl
  | (_, _) :: _, (_, _) :: _, equal => by
    simp only [sameFields, Bool.and_eq_true, beq_iff_eq] at equal
    rw [equal.1.1, eq_of_same equal.1.2, eq_of_sameFields equal.2]
  | [], _ :: _, equal | _ :: _, [], equal => by
    simp [sameFields] at equal

end

end Term

end AgentC.Kanren

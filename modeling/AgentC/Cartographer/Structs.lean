import AgentC.Cartographer.BoxingLaws

/-! Structs with values in their fields, as type definitions, dictionaries and blocks of memory have them. -/

namespace AgentC.Cartographer

section Walks

variable (floats : Floats)

/-- The fields among the children of a type definition, with the nodes that define them. -/
def fieldEntries (typeDef : Node) : List (Name × Node × FieldDef) :=
  match typeDef.getValue (ascii "children") with
  | none => []
  | some children => children.items.entries.filterMap fun entry =>
    entry.2.head?.bind fun fieldDef => (fieldDef? fieldDef).map fun field => (entry.1, fieldDef, field)

def packField (source : Option Node) (base : Nat) (buffer : List UInt8)
    (entry : Name × Node × FieldDef) : Except Fault (List UInt8) :=
  let srcVal := source.bind fun source => source.getValue entry.1
  let dest := base + entry.2.2.byteOffset
  if 0 < scalarSize entry.2.2.fieldType then
    (packScalar floats entry.2.2.fieldType srcVal).bind (store buffer dest)
  else
    match entry.2.1.getValue (ascii "type_def") with
    | none => .ok buffer
    | some nestedTypeDef => packStruct floats srcVal nestedTypeDef dest buffer

/-- The value that unpacking gives a field, unless it leaves the field out. -/
def unpackField (base : Nat) (buffer : List UInt8) (entry : Name × Node × FieldDef) :
    Except Fault (Option Node) :=
  let src := base + entry.2.2.byteOffset
  if 0 < scalarSize entry.2.2.fieldType then
    (unpackScalar floats entry.2.2.fieldType buffer src).map some
  else
    match entry.2.1.getValue (ascii "type_def") with
    | none => .ok none
    | some nestedTypeDef => (unpackStruct floats nestedTypeDef src buffer).map some

theorem foldlM_picked {α β σ ε : Type} (pick : α → Option β) (act : σ → β → Except ε σ)
    (list : List α) (s : σ) : (list.filterMap pick).foldlM act s =
      list.foldlM (fun s a => (pick a).elim (.ok s) (act s)) s := by
  induction list generalizing s with
  | nil => rfl
  | cons a list ih =>
    rw [List.filterMap_cons, List.foldlM_cons]
    cases pick a with
    | none => exact ih s
    | some b =>
      rw [List.foldlM_cons]
      exact bind_congr ih

theorem packStruct_eq (source : Option Node) (typeDef : Node) (base : Nat) (buffer : List UInt8) :
    packStruct floats source typeDef base buffer =
      (fieldEntries typeDef).foldlM (packField floats source base) buffer := by
  rw [packStruct]
  split
  next none_ => simp only [fieldEntries, none_, List.foldlM_nil, pure, Except.pure]
  next children typed =>
    simp only [fieldEntries, typed]
    rw [foldlM_picked]
    refine (List.foldlM_subtype ?_).trans (by rw [List.unattach_attach])
    · rintro buffer ⟨name, item⟩ member
      dsimp only
      cases item.head? with
      | none => rfl
      | some fieldDef =>
        dsimp only [Option.bind_some]
        cases fieldDef? fieldDef with
        | none => rfl
        | some field =>
          simp only [Option.map_some, Option.elim_some, packField]
          by_cases scalar : 0 < scalarSize field.fieldType
          · simp only [scalar, if_true]
            rfl
          · simp only [scalar, if_false]
            split
            next none_ => rw [none_]
            next nested => rw [nested]

theorem unpackStruct_eq (typeDef : Node) (base : Nat) (buffer : List UInt8) :
    unpackStruct floats typeDef base buffer =
      (fieldEntries typeDef).foldlM (fun result entry =>
        (unpackField floats base buffer entry).map fun value =>
          value.elim result (result.addNamedItem entry.1)) createNullValue := by
  rw [unpackStruct]
  split
  next none_ => simp only [fieldEntries, none_, List.foldlM_nil, pure, Except.pure]
  next children typed =>
    simp only [fieldEntries, typed]
    rw [foldlM_picked]
    refine (List.foldlM_subtype ?_).trans (by rw [List.unattach_attach])
    · rintro result ⟨name, item⟩ member
      dsimp only
      cases item.head? with
      | none => rfl
      | some fieldDef =>
        dsimp only [Option.bind_some]
        cases fieldDef? fieldDef with
        | none => rfl
        | some field =>
          simp only [Option.map_some, Option.elim_some, unpackField]
          by_cases scalar : 0 < scalarSize field.fieldType
          · simp only [scalar, if_true]
            cases unpackScalar floats field.fieldType buffer (base + field.byteOffset) <;> rfl
          · simp only [scalar, if_false]
            split
            next none_ =>
              rw [none_]
              rfl
            next nestedTypeDef nested =>
              rw [nested]
              dsimp only
              cases unpackStruct floats nestedTypeDef (base + field.byteOffset) buffer <;> rfl

end Walks

mutual

/-- What a field holds: a number, a pointer or a struct, with the name of the field's type. -/
inductive Content where
  | int (type : List UInt8) (n : Int)
  | pointer (type : List UInt8) (bytes : List UInt8)
  | struct (type : List UInt8) (size : Nat) (fields : Fields)

/-- The fields of a struct in the order of their names, with their offsets and what they hold. -/
inductive Fields where
  | nil
  | cons (name : Name) (offset : Nat) (content : Content) (rest : Fields)

end

mutual

def Fields.Defined : List (Name × Node × FieldDef) → Fields → Prop
  | [], .nil => True
  | (name, fieldDef, field) :: entries, .cons name' offset content rest =>
    name = name' ∧ field.byteOffset = offset ∧ Content.Defined fieldDef field.fieldType content ∧
      Fields.Defined entries rest
  | _, _ => False

/-- A field's definition is that of the content: a struct's is bound under `type_def`. -/
def Content.Defined (fieldDef : Node) (fieldType : List UInt8) : Content → Prop
  | .int type _ => fieldType = type
  | .pointer type _ => fieldType = type
  | .struct type size fields =>
    fieldType = type ∧ ∃ typeDef, fieldDef.getValue (ascii "type_def") = some typeDef ∧
      (ltvBinaryInt (typeDef.getValue (ascii "size"))).toInt = size ∧
      Fields.Defined (fieldEntries typeDef) fields

end

mutual

def Fields.HeldBy (source : Node) : Fields → Prop
  | .nil => True
  | .cons name _ content rest =>
    (∃ value, source.getValue name = some value ∧ content.HeldBy value) ∧ rest.HeldBy source

def Content.HeldBy (value : Node) : Content → Prop
  | .int _ n => value = .string (some (decimal n))
  | .pointer _ bytes => value = .binary bytes
  | .struct _ _ fields => fields.HeldBy value

end

def Fields.names : Fields → List Name
  | .nil => []
  | .cons name _ _ rest => name :: rest.names

def Content.size : Content → Nat
  | .int type _ => ((lp64Int type).map IntType.size).getD 0
  | .pointer _ _ => 8
  | .struct _ size _ => size

def Fields.ranges : Fields → List (Nat × Nat)
  | .nil => []
  | .cons _ offset content rest => (offset, content.size) :: rest.ranges

mutual

/--
The fields are laid out as C does it in a struct of some size.

They have different names, and they lie apart from each other inside the struct.
-/
def Fields.LaidOut (size : Nat) : Fields → Prop
  | .nil => True
  | .cons name offset content rest =>
    (name ≠ [] ∧ name ∉ rest.names) ∧ content.LaidOut ∧ offset + content.size ≤ size ∧
      (∀ range ∈ rest.ranges, offset + content.size ≤ range.1 ∨ range.1 + range.2 ≤ offset) ∧
      rest.LaidOut size

def Content.LaidOut : Content → Prop
  | .int type n => ∃ own, lp64Int type = some own ∧ InRange own.size own.signed n
  | .pointer type bytes => Listree.byte '*' ∈ type ∧ bytes.length = 8
  -- The name of a struct is not that of a scalar, and a struct has a field.
  | .struct type size fields =>
    scalarSize type = 0 ∧ (0 < size ∧ fields.names ≠ []) ∧ fields.LaidOut size

end

mutual

def Fields.blocks (base : Nat) : Fields → List Block
  | .nil => []
  | .cons _ offset content rest => content.blocks (base + offset) ++ rest.blocks base

/-- The blocks that a content is packed into. A number gets as many bytes as the code thinks. -/
def Content.blocks (place : Nat) : Content → List Block
  | .int type n => [⟨place, leBytes (scalarSize type) n⟩]
  | .pointer _ bytes => [⟨place, bytes⟩]
  | .struct _ _ fields => fields.blocks place

end

mutual

def Fields.ints (base : Nat) : Fields → List (Nat × List UInt8 × Int)
  | .nil => []
  | .cons _ offset content rest => content.ints (base + offset) ++ rest.ints base

def Content.ints (place : Nat) : Content → List (Nat × List UInt8 × Int)
  | .int type n => [(place, type, n)]
  | .pointer _ _ => []
  | .struct _ _ fields => fields.ints place

end

def Readable (type : List UInt8) (n : Int) : Prop :=
  ∀ taken, takenInt type = some taken → InRange taken.size taken.signed n

end AgentC.Cartographer

import AgentC.StaticImage.SlotTable

/-! Images of declarations as Listree values, and how they are written as slot-table images. -/

namespace AgentC.StaticImage

section Values

/--
A Listree value as far as images look at it. A null pointer is `none`.

A list has its children in the order of `forEachList`. A value that is no list has its items by name, each with
its latest value.
-/
inductive ImageValue where
  | list (data : List UInt8) (binary : Bool) (children : List (Option ImageValue))
  | tree (data : List UInt8) (binary : Bool) (items : List (Name × Option ImageValue))

def namedValue (value : Option ImageValue) (name : Name) : Option ImageValue :=
  match value with
  | some (.tree _ _ items) => (items.lookup name).join
  | _ => none

/-- The text that a value holds itself. -/
def stringValue (value : Option ImageValue) : List UInt8 :=
  match value with
  | some (.list data binary _) => if binary then [] else data
  | some (.tree data binary _) => if binary then [] else data
  | none => []

def namedString (value : Option ImageValue) (name : String) : List UInt8 :=
  stringValue (namedValue value (ascii name))

def children (value : Option ImageValue) : Option (List (Option ImageValue)) :=
  match value with
  | some (.list _ _ children) => some children
  | _ => none

end Values

section Validation

def valid : ValidationResult :=
  ⟨true, ascii "ok", ascii "static declaration image is valid"⟩

end Validation

section Writing

/-- The tables that are filled while an image is written. -/
structure Writer where
  strings : List (List UInt8) := []
  declarations : List StaticSlotTableDeclaration := []
  values : List StaticSlotTableValueRecord := []
  trees : List StaticSlotTableTreeRecord := []
  items : List StaticSlotTableItemRecord := []
  listEntries : List Nat := []
  deriving DecidableEq, Repr

def uint32 (size : Nat) : Nat :=
  size % 2 ^ 32

theorem uint32_of_lt {size : Nat} (fits : size < 2 ^ 32) : uint32 size = size :=
  Nat.mod_eq_of_lt fits

/-- The number of a string, which is added to the strings when it is new. -/
def intern (writer : Writer) (text : List UInt8) : Nat × Writer :=
  match writer.strings.idxOf? text with
  | some place => (uint32 place, writer)
  | none => (uint32 writer.strings.length, { writer with strings := writer.strings ++ [text] })

/-- The numbers of strings, each of which is added when it is new. -/
def internAll (writer : Writer) : List (List UInt8) → List Nat × Writer
  | [] => ([], writer)
  | text :: rest =>
    let (id, writer) := intern writer text
    let (ids, writer) := internAll writer rest
    (id :: ids, writer)

def makeStringValue (writer : Writer) (text : List UInt8) : Nat × Writer :=
  let id := uint32 writer.values.length
  let (stringId, writer) := intern writer text
  (id, { writer with values := writer.values ++ [⟨.String, stringId, 0, 0⟩] })

def makeStringFields (writer : Writer) : List (Nat × List UInt8) → List StaticSlotTableItemRecord × Writer
  | [] => ([], writer)
  | (nameId, text) :: rest =>
    let (value, writer) := makeStringValue writer text
    let (items, writer) := makeStringFields writer rest
    (⟨nameId, value⟩ :: items, writer)

/-- The names of a declaration's fields, in the order in which they are written. -/
def fieldNames : List String :=
  ["word", "native_symbol", "stack_signature", "category", "binding", "stores_native_handle", "worker_allowed",
    "thread_safe", "process_safe", "reentrant", "pure", "side_effects", "credential_bearing",
    "static_shareable_declaration", "requires_process_local_binding", "notes"]

def nameTexts : List (List UInt8) :=
  fieldNames.map ascii

def fieldTexts (symbol : Option ImageValue) : List (List UInt8) :=
  fieldNames.map (namedString symbol)

/-- The record of a declaration, from the numbers of its texts in the order of the names. -/
def declarationRecord (ids : List Nat) : StaticSlotTableDeclaration where
  word := ids.getD 0 0
  nativeSymbol := ids.getD 1 0
  stackSignature := ids.getD 2 0
  category := ids.getD 3 0
  binding := ids.getD 4 0
  storesNativeHandle := ids.getD 5 0
  workerAllowed := ids.getD 6 0
  notes := ids.getD 15 0

section Fields

variable (number : List UInt8 → Nat) (symbol : Option ImageValue)

theorem word_declarationRecord : (declarationRecord ((fieldTexts symbol).map number)).word =
    number (namedString symbol "word") := rfl

theorem nativeSymbol_declarationRecord : (declarationRecord ((fieldTexts symbol).map number)).nativeSymbol =
    number (namedString symbol "native_symbol") := rfl

theorem stackSignature_declarationRecord :
    (declarationRecord ((fieldTexts symbol).map number)).stackSignature =
    number (namedString symbol "stack_signature") := rfl

theorem category_declarationRecord : (declarationRecord ((fieldTexts symbol).map number)).category =
    number (namedString symbol "category") := rfl

end Fields

/-- The items of an object in the order of their names. -/
def sortItems (strings : List (List UInt8)) (items : List StaticSlotTableItemRecord) :
    List StaticSlotTableItemRecord :=
  items.mergeSort fun lhs rhs => decide (strings.getD lhs.name [] ≤ strings.getD rhs.name [])

def writeSymbol (nameIds : List Nat) (writer : Writer) (symbol : Option ImageValue) : Writer :=
  -- A null child is passed over.
  if symbol.isNone then writer
  else
    let (ids, writer) := internAll writer (fieldTexts symbol)
    let writer := { writer with declarations := writer.declarations ++ [declarationRecord ids] }
    let (objectItems, writer) := makeStringFields writer (nameIds.zip (fieldTexts symbol))
    let objectItems := sortItems writer.strings objectItems
    let firstItem := uint32 writer.items.length
    let treeId := uint32 writer.trees.length
    let objectId := uint32 writer.values.length
    { writer with
      items := writer.items ++ objectItems
      trees := writer.trees ++ [⟨firstItem, uint32 objectItems.length⟩]
      values := writer.values ++ [⟨.Object, 0, treeId, 1⟩]
      listEntries := writer.listEntries ++ [objectId] }

def stringRecordsFrom : Nat → List (List UInt8) → List UInt8
  | _, [] => []
  | offset, text :: rest =>
    wordBytes 8 offset ++ (wordBytes 8 text.length ++ stringRecordsFrom (offset + text.length) rest)

def appendDeclarationRecord (declaration : StaticSlotTableDeclaration) : List UInt8 :=
  wordsBytes 4 [declaration.word, declaration.nativeSymbol, declaration.stackSignature, declaration.category,
    declaration.binding, declaration.storesNativeHandle, declaration.workerAllowed, declaration.notes]

def appendValueRecord (value : StaticSlotTableValueRecord) : List UInt8 :=
  wordsBytes 4 [value.kind.word, value.stringId, value.first, value.count]

def appendTreeRecord (tree : StaticSlotTableTreeRecord) : List UInt8 :=
  wordsBytes 4 [tree.firstItem, tree.itemCount]

def appendItemRecord (item : StaticSlotTableItemRecord) : List UInt8 :=
  wordsBytes 4 [item.name, item.value]

namespace Writer

variable (writer : Writer)

/-- The sections of an image in their order. -/
def sections : List (List UInt8) :=
  [stringRecordsFrom 0 writer.strings,
   writer.declarations.flatMap appendDeclarationRecord,
   writer.values.flatMap appendValueRecord,
   writer.trees.flatMap appendTreeRecord,
   writer.items.flatMap appendItemRecord,
   wordsBytes 4 writer.listEntries,
   writer.strings.flatten]

/-- The bytes of an image. -/
def bytes (moduleName rootValue : Nat) : List UInt8 :=
  kMagic ++
    (wordsBytes 4 [kVersion, moduleName, rootValue, uint32 writer.strings.length, uint32 writer.declarations.length,
      uint32 writer.values.length, uint32 writer.trees.length, uint32 writer.items.length,
      uint32 writer.listEntries.length] ++
    (wordsBytes 8 (writer.sections.map List.length) ++
    (fnv1a64 writer.sections.flatten ++ writer.sections.flatten)))

end Writer

/-- The tables of an image with the number of its module's name. -/
def writeTables (manifest : Option ImageValue) (symbols : List (Option ImageValue)) : Nat × Writer :=
  let (moduleName, writer) := intern {} (namedString manifest "module")
  let (nameIds, writer) := internAll writer nameTexts
  (moduleName, symbols.foldl (writeSymbol nameIds) writer)

/-- The bytes that are written to the file, with the list of all objects as the last value. -/
def writtenBytes (manifest : Option ImageValue) (symbols : List (Option ImageValue)) : List UInt8 :=
  let (moduleName, writer) := writeTables manifest symbols
  let rootValue := uint32 writer.values.length
  let writer : Writer :=
    { writer with values := writer.values ++ [⟨.List, 0, 0, uint32 writer.listEntries.length⟩] }
  writer.bytes moduleName rootValue

end Writing

end AgentC.StaticImage

import AgentC.Library.Decoding
import AgentC.Listree.Tree

/-!
Slot-table images of declarations: the bytes of a mapped file, and how they are opened and looked at.

Reads of the file and of the tables that were made from it say whether they stay inside.
-/

namespace AgentC.StaticImage

/-- Whether an image is accepted, and what is wrong with it otherwise. -/
structure ValidationResult where
  ok : Bool
  code : List UInt8
  message : List UInt8
  deriving DecidableEq, Repr

def fail (code message : String) : ValidationResult :=
  ⟨false, ascii code, ascii message⟩

inductive StaticSlotValueKind where
  | Invalid
  | String
  | Object
  | List
  deriving DecidableEq, Repr

namespace StaticSlotValueKind

def word : StaticSlotValueKind → Nat
  | Invalid => 0
  | String => 1
  | Object => 2
  | List => 3

def ofWord : Nat → StaticSlotValueKind
  | 1 => String
  | 2 => Object
  | 3 => List
  | _ => Invalid

@[simp] theorem ofWord_word (kind : StaticSlotValueKind) : ofWord kind.word = kind := by
  cases kind <;> rfl

theorem word_lt (kind : StaticSlotValueKind) : kind.word < 2 ^ 32 := by
  cases kind <;> decide

end StaticSlotValueKind

/-- The strings of a declaration that a record of the file holds, by their numbers. -/
structure StaticSlotTableDeclaration where
  word : Nat
  nativeSymbol : Nat
  stackSignature : Nat
  category : Nat
  binding : Nat
  storesNativeHandle : Nat
  workerAllowed : Nat
  notes : Nat
  deriving DecidableEq, Repr

structure StaticSlotTableValueRecord where
  kind : StaticSlotValueKind
  stringId : Nat
  first : Nat
  count : Nat
  deriving DecidableEq, Repr

structure StaticSlotTableItemRecord where
  name : Nat
  value : Nat
  deriving DecidableEq, Repr

structure StaticSlotTableTreeRecord where
  firstItem : Nat
  itemCount : Nat
  deriving DecidableEq, Repr

structure StaticSlotTableSectionDescriptor where
  sectionId : List UInt8
  byteOffset : Nat
  byteSize : Nat
  hash : List UInt8
  deriving DecidableEq, Repr

structure StringRecord where
  offset : Nat
  length : Nat
  deriving DecidableEq, Repr

/-- An image that has been opened, with the tables that were read from the file. -/
structure StaticSlotTableView where
  region : List UInt8
  /-- Where the bytes of the strings begin in the file and how many they are; nothing before that is known. -/
  stringBytes : Option (Nat × Nat) := none
  moduleName : Nat := 0
  rootValueId : Nat := 0
  payloadHash : List UInt8 := []
  strings : List StringRecord := []
  declarations : List StaticSlotTableDeclaration := []
  declarationValueIds : List Nat := []
  declarationWordIndex : List Nat := []
  values : List StaticSlotTableValueRecord := []
  trees : List StaticSlotTableTreeRecord := []
  items : List StaticSlotTableItemRecord := []
  listEntries : List Nat := []
  sections : List StaticSlotTableSectionDescriptor := []
  deriving DecidableEq, Repr

section Hashing

def hexDigit (n : Nat) : UInt8 :=
  if n < 10 then UInt8.ofNat (0x30 + n) else UInt8.ofNat (0x57 + n)

def hex16 (n : Nat) : List UInt8 :=
  (List.range 16).map fun k => hexDigit (n / 16 ^ (15 - k) % 16)

def fnv1a64 (bytes : List UInt8) : List UInt8 :=
  hex16 (bytes.foldl (fun hash byte => (hash ^^^ byte.toUInt64) * 1099511628211)
    (14695981039346656037 : UInt64)).toNat

@[simp] theorem length_fnv1a64 (bytes : List UInt8) : (fnv1a64 bytes).length = 16 := by
  rw [fnv1a64, hex16, List.length_map, List.length_range]

end Hashing

namespace StaticSlotTableView

variable (view : StaticSlotTableView)

/-- The string of a number, empty where there is none. -/
def stringAt (id : Nat) : Decoding (List UInt8) :=
  match view.strings[id]?, view.stringBytes with
  | some record, some (start, size) =>
    if size < record.offset ∨ size < record.length then pure []
    else do
      let last ← Decoding.sizeT (record.offset + record.length)
      if size < last then pure []
      else Decoding.copy view.region (start + record.offset) record.length
  | _, _ => pure []

def valueKind (valueId : Nat) : StaticSlotValueKind :=
  match view.values[valueId]? with
  | some value => value.kind
  | none => .Invalid

def listValueCount (valueId : Nat) : Nat :=
  match view.values[valueId]? with
  | some value => if value.kind = .List then value.count else 0
  | none => 0

def listValueAt (valueId index : Nat) : Decoding Nat :=
  match view.values[valueId]? with
  | none => pure 0
  | some value =>
    if value.kind ≠ .List ∨ value.count ≤ index then pure 0
    else do
      let place ← Decoding.sizeT (value.first + index)
      pure ((view.listEntries[place]?).getD 0)

def itemAt (index : Nat) : Decoding StaticSlotTableItemRecord :=
  match view.items[index]? with
  | some item => pure item
  | none => Decoding.stop .outside

def fieldValue (item : StaticSlotTableItemRecord) : Decoding (List UInt8) :=
  match view.values[item.value]? with
  | some value => if value.kind = .String then view.stringAt value.stringId else pure []
  | none => pure []

/--
The search for a field among the items of an object that are sorted by name.

The first number bounds the turns. Every turn makes the range smaller, so the number of items is enough.
-/
def searchField (firstItem : Nat) (fieldName : List UInt8) : Nat → Nat → Nat → Decoding (List UInt8)
  | 0, _, _ => pure []
  | turns + 1, low, high =>
    if low < high then do
      let mid := low + (high - low) / 2
      let place ← Decoding.sizeT (firstItem + mid)
      match view.items[place]? with
      | none => pure []
      | some item =>
        let name ← view.stringAt item.name
        if name = fieldName then view.fieldValue item
        else if name < fieldName then searchField firstItem fieldName turns (mid + 1) high
        else searchField firstItem fieldName turns low mid
    else pure []

def objectStringField (valueId : Nat) (fieldName : List UInt8) : Decoding (List UInt8) :=
  match view.values[valueId]? with
  | none => pure []
  | some value =>
    if value.kind ≠ .Object then pure []
    else
      match view.trees[value.first]? with
      | none => pure []
      | some tree => view.searchField tree.firstItem fieldName tree.itemCount 0 tree.itemCount

def declarationValueId (index : Nat) : Nat :=
  (view.declarationValueIds[index]?).getD 0

def declarationString (string : StaticSlotTableDeclaration → Nat) (index : Nat) : Decoding (List UInt8) :=
  match view.declarations[index]? with
  | some declaration => view.stringAt (string declaration)
  | none => pure []

def declarationWord : Nat → Decoding (List UInt8) :=
  view.declarationString StaticSlotTableDeclaration.word

def declarationNativeSymbol : Nat → Decoding (List UInt8) :=
  view.declarationString StaticSlotTableDeclaration.nativeSymbol

def declarationStackSignature : Nat → Decoding (List UInt8) :=
  view.declarationString StaticSlotTableDeclaration.stackSignature

def declarationCategory : Nat → Decoding (List UInt8) :=
  view.declarationString StaticSlotTableDeclaration.category

/-- The search for a declaration among the words in their order. -/
def searchWord (word : List UInt8) : Nat → Nat → Nat → Decoding (Option Nat)
  | 0, _, _ => pure none
  | turns + 1, low, high =>
    if low < high then do
      let mid := low + (high - low) / 2
      match view.declarationWordIndex[mid]? with
      | none => Decoding.stop .outside
      | some declarationIndex =>
        let current ← view.declarationWord declarationIndex
        if current = word then pure (some declarationIndex)
        else if current < word then searchWord word turns (mid + 1) high
        else searchWord word turns low mid
    else pure none

def findDeclarationByWord (word : List UInt8) : Decoding (Option Nat) :=
  view.searchWord word view.declarationWordIndex.length 0 view.declarationWordIndex.length

def moduleNameString : Decoding (List UInt8) :=
  view.stringAt view.moduleName

end StaticSlotTableView

section Header

abbrev Opening (α : Type) := Screening ValidationResult α

def kMagic : List UInt8 := ascii "ACSTBL01"

def kVersion : Nat := 2

structure Header where
  version : Nat
  moduleName : Nat
  rootValue : Nat
  stringCount : Nat
  declarationCount : Nat
  valueCount : Nat
  treeCount : Nat
  itemCount : Nat
  listEntryCount : Nat
  stringRecordBytes : Nat
  declarationRecordBytes : Nat
  valueRecordBytes : Nat
  treeRecordBytes : Nat
  itemRecordBytes : Nat
  listEntryBytes : Nat
  stringBytes : Nat
  payloadHash : List UInt8
  deriving DecidableEq, Repr

def invalidMagic : ValidationResult :=
  fail "invalid_magic" "static slot table image magic mismatch"

def truncatedHeader : ValidationResult :=
  fail "truncated_header" "static slot table image header is truncated"

def truncatedHash : ValidationResult :=
  fail "truncated_hash" "static slot table image hash is truncated"

def unsupportedVersion : ValidationResult :=
  fail "unsupported_version" "static slot table image version is unsupported"

def invalidLengths : ValidationResult :=
  fail "invalid_lengths" "static slot table image section lengths are invalid"

def payloadHashMismatch : ValidationResult :=
  fail "payload_hash_mismatch" "static slot table image payload hash mismatch"

/-- The header, and the cursor behind it. -/
def readHeader (text : List UInt8) : Opening (Header × Nat) := do
  Screening.require (8 ≤ text.length ∧ text.take 8 = kMagic) invalidMagic
  let (version, cursor) ← Screening.readWord 4 truncatedHeader text 8
  let (moduleName, cursor) ← Screening.readWord 4 truncatedHeader text cursor
  let (rootValue, cursor) ← Screening.readWord 4 truncatedHeader text cursor
  let (stringCount, cursor) ← Screening.readWord 4 truncatedHeader text cursor
  let (declarationCount, cursor) ← Screening.readWord 4 truncatedHeader text cursor
  let (valueCount, cursor) ← Screening.readWord 4 truncatedHeader text cursor
  let (treeCount, cursor) ← Screening.readWord 4 truncatedHeader text cursor
  let (itemCount, cursor) ← Screening.readWord 4 truncatedHeader text cursor
  let (listEntryCount, cursor) ← Screening.readWord 4 truncatedHeader text cursor
  let (stringRecordBytes, cursor) ← Screening.readWord 8 truncatedHeader text cursor
  let (declarationRecordBytes, cursor) ← Screening.readWord 8 truncatedHeader text cursor
  let (valueRecordBytes, cursor) ← Screening.readWord 8 truncatedHeader text cursor
  let (treeRecordBytes, cursor) ← Screening.readWord 8 truncatedHeader text cursor
  let (itemRecordBytes, cursor) ← Screening.readWord 8 truncatedHeader text cursor
  let (listEntryBytes, cursor) ← Screening.readWord 8 truncatedHeader text cursor
  let (stringBytes, cursor) ← Screening.readWord 8 truncatedHeader text cursor
  let behind ← Decoding.sizeT (cursor + 16)
  Screening.require (behind ≤ text.length) truncatedHash
  let payloadHash ← Decoding.copy text cursor 16
  Screening.require (version = kVersion) unsupportedVersion
  return ({ version, moduleName, rootValue, stringCount, declarationCount, valueCount, treeCount, itemCount
            listEntryCount, stringRecordBytes, declarationRecordBytes, valueRecordBytes, treeRecordBytes
            itemRecordBytes, listEntryBytes, stringBytes
            -- As a C string the hash ends at its first zero byte.
            payloadHash := payloadHash.takeWhile (· ≠ 0) }, behind)

def checkSection (count width bytes : Nat) : Opening Unit := do
  let length ← Decoding.sizeT (count * width)
  Screening.require (bytes = length) invalidLengths

def sumSizes : Nat → List Nat → Decoding Nat
  | total, [] => pure total
  | total, size :: rest => do
    let total ← Decoding.sizeT (total + size)
    sumSizes total rest

namespace Header

variable (header : Header)

/-- The lengths of the sections in their order, with their names. -/
def sectionLengths : List (List UInt8 × Nat) :=
  [(ascii "string_records", header.stringRecordBytes),
   (ascii "declaration_records", header.declarationRecordBytes),
   (ascii "value_records", header.valueRecordBytes),
   (ascii "tree_records", header.treeRecordBytes),
   (ascii "item_records", header.itemRecordBytes),
   (ascii "list_entries", header.listEntryBytes),
   (ascii "string_bytes", header.stringBytes)]

/-- The lengths that the header gives are those of its counts and of the file. -/
def checkLengths (cursor size : Nat) : Opening Unit := do
  checkSection header.stringCount 16 header.stringRecordBytes
  checkSection header.declarationCount 32 header.declarationRecordBytes
  checkSection header.valueCount 16 header.valueRecordBytes
  checkSection header.treeCount 8 header.treeRecordBytes
  checkSection header.itemCount 8 header.itemRecordBytes
  checkSection header.listEntryCount 4 header.listEntryBytes
  let total ← sumSizes cursor (header.sectionLengths.map Prod.snd)
  Screening.require (total = size) invalidLengths

end Header

def addSections (text : List UInt8) : Nat → List (List UInt8 × Nat) →
    Decoding (List StaticSlotTableSectionDescriptor)
  | _, [] => pure []
  | sectionOffset, (sectionId, byteSize) :: rest => do
    let bytes ← Decoding.copy text sectionOffset byteSize
    let next ← Decoding.sizeT (sectionOffset + byteSize)
    let others ← addSections text next rest
    return ⟨sectionId, sectionOffset, byteSize, fnv1a64 bytes⟩ :: others

end Header

section Records

def invalidStringRecord : ValidationResult :=
  fail "invalid_string_record" "static slot table image string record is invalid"

def invalidDeclarationRecord : ValidationResult :=
  fail "invalid_declaration_record" "static slot table image declaration record is truncated"

def invalidDeclarationReference : ValidationResult :=
  fail "invalid_declaration_reference" "static slot table image declaration references an invalid string id"

def invalidValueRecord : ValidationResult :=
  fail "invalid_value_record" "static slot table image value record is truncated"

def invalidStringValue : ValidationResult :=
  fail "invalid_value_reference" "static slot table string value references an invalid string id"

def invalidObjectValue : ValidationResult :=
  fail "invalid_value_reference" "static slot table object value references invalid tree id"

def invalidListValue : ValidationResult :=
  fail "invalid_value_reference" "static slot table list value references invalid entry range"

def invalidValueKind : ValidationResult :=
  fail "invalid_value_kind" "static slot table value kind is unsupported"

def invalidTreeRecord : ValidationResult :=
  fail "invalid_tree_record" "static slot table tree record is invalid"

def invalidItemRecord : ValidationResult :=
  fail "invalid_item_record" "static slot table item record is invalid"

def invalidListEntry : ValidationResult :=
  fail "invalid_list_entry" "static slot table list entry is invalid"

def sum32 (a b : Nat) : Nat :=
  (a + b) % 2 ^ 32

def readStringRecord (header : Header) (text : List UInt8) (cursor : Nat) :
    Opening (StringRecord × Nat) := do
  let (offset, cursor) ← Screening.readWord 8 invalidStringRecord text cursor
  let (length, cursor) ← Screening.readWord 8 invalidStringRecord text cursor
  Screening.require (offset ≤ header.stringBytes ∧ length ≤ header.stringBytes) invalidStringRecord
  let last ← Decoding.sizeT (offset + length)
  Screening.require (last ≤ header.stringBytes) invalidStringRecord
  return (⟨offset, length⟩, cursor)

def readDeclarationRecord (header : Header) (text : List UInt8) (cursor : Nat) :
    Opening (StaticSlotTableDeclaration × Nat) := do
  let (word, cursor) ← Screening.readWord 4 invalidDeclarationRecord text cursor
  let (nativeSymbol, cursor) ← Screening.readWord 4 invalidDeclarationRecord text cursor
  let (stackSignature, cursor) ← Screening.readWord 4 invalidDeclarationRecord text cursor
  let (category, cursor) ← Screening.readWord 4 invalidDeclarationRecord text cursor
  let (binding, cursor) ← Screening.readWord 4 invalidDeclarationRecord text cursor
  let (storesNativeHandle, cursor) ← Screening.readWord 4 invalidDeclarationRecord text cursor
  let (workerAllowed, cursor) ← Screening.readWord 4 invalidDeclarationRecord text cursor
  let (notes, cursor) ← Screening.readWord 4 invalidDeclarationRecord text cursor
  let ids := [word, nativeSymbol, stackSignature, category, binding, storesNativeHandle, workerAllowed, notes]
  Screening.require (∀ id ∈ ids, id < header.stringCount) invalidDeclarationReference
  return ({ word, nativeSymbol, stackSignature, category, binding, storesNativeHandle, workerAllowed
            notes }, cursor)

/-- What has to hold of a value of each kind. -/
def checkValue (header : Header) (value : StaticSlotTableValueRecord) : Opening Unit :=
  match value.kind with
  | .String => Screening.require (value.stringId < header.stringCount) invalidStringValue
  | .Object => Screening.require (value.first < header.treeCount ∧ value.count = 1) invalidObjectValue
  | .List =>
    Screening.require (value.first ≤ header.listEntryCount ∧ value.count ≤ header.listEntryCount ∧
      sum32 value.first value.count ≤ header.listEntryCount) invalidListValue
  | .Invalid => throw invalidValueKind

def readValueRecord (header : Header) (text : List UInt8) (cursor : Nat) :
    Opening (StaticSlotTableValueRecord × Nat) := do
  let (kind, cursor) ← Screening.readWord 4 invalidValueRecord text cursor
  let (stringId, cursor) ← Screening.readWord 4 invalidValueRecord text cursor
  let (first, cursor) ← Screening.readWord 4 invalidValueRecord text cursor
  let (count, cursor) ← Screening.readWord 4 invalidValueRecord text cursor
  let value : StaticSlotTableValueRecord := ⟨.ofWord kind, stringId, first, count⟩
  checkValue header value
  return (value, cursor)

def readTreeRecord (header : Header) (text : List UInt8) (cursor : Nat) :
    Opening (StaticSlotTableTreeRecord × Nat) := do
  let (firstItem, cursor) ← Screening.readWord 4 invalidTreeRecord text cursor
  let (itemCount, cursor) ← Screening.readWord 4 invalidTreeRecord text cursor
  Screening.require (firstItem ≤ header.itemCount ∧ itemCount ≤ header.itemCount ∧
    sum32 firstItem itemCount ≤ header.itemCount) invalidTreeRecord
  return (⟨firstItem, itemCount⟩, cursor)

def readItemRecord (header : Header) (text : List UInt8) (cursor : Nat) :
    Opening (StaticSlotTableItemRecord × Nat) := do
  let (name, cursor) ← Screening.readWord 4 invalidItemRecord text cursor
  let (value, cursor) ← Screening.readWord 4 invalidItemRecord text cursor
  Screening.require (name < header.stringCount ∧ value < header.valueCount) invalidItemRecord
  return (⟨name, value⟩, cursor)

def readListEntry (header : Header) (text : List UInt8) (cursor : Nat) : Opening (Nat × Nat) := do
  let (entry, cursor) ← Screening.readWord 4 invalidListEntry text cursor
  Screening.require (entry < header.valueCount) invalidListEntry
  return (entry, cursor)

end Records

section Reading

def unsortedTreeItems : ValidationResult :=
  fail "unsorted_tree_items" "static slot table tree items must be sorted by field name"

def invalidRootReference : ValidationResult :=
  fail "invalid_root_reference" "static slot table root value is invalid"

def invalidRootCount : ValidationResult :=
  fail "invalid_root_list" "static slot table root list does not match declaration count"

def invalidRootEntry : ValidationResult :=
  fail "invalid_root_list" "static slot table root list entry is not an object"

def invalidModuleReference : ValidationResult :=
  fail "invalid_module_reference" "static slot table image module name references an invalid string id"

def nativeHandlesForbidden : ValidationResult :=
  fail "native_handles_forbidden" "static slot table declaration stores a native handle"

def duplicateDeclarationWord : ValidationResult :=
  fail "duplicate_declaration_word" "static slot table declaration words must be unique"

structure Tables where
  header : Header
  view : StaticSlotTableView
  cursor : Nat

/-- Reading the header, the sections and the tables up to the items. -/
def readTables (text : List UInt8) : Opening Tables := do
  let (header, cursor) ← readHeader text
  header.checkLengths cursor text.length
  let bodySize ← sumSizes 0 (header.sectionLengths.map Prod.snd)
  let body ← Decoding.copy text cursor bodySize
  Screening.require (fnv1a64 body = header.payloadHash) payloadHashMismatch
  let sections ← addSections text cursor header.sectionLengths
  let (strings, cursor) ← Screening.many (readStringRecord header text) header.stringCount cursor
  let (declarations, cursor) ← Screening.many (readDeclarationRecord header text) header.declarationCount cursor
  let (values, cursor) ← Screening.many (readValueRecord header text) header.valueCount cursor
  let (trees, cursor) ← Screening.many (readTreeRecord header text) header.treeCount cursor
  let (items, cursor) ← Screening.many (readItemRecord header text) header.itemCount cursor
  return ⟨header, { region := text, strings, declarations, values, trees, items, sections }, cursor⟩

def checkItems (view : StaticSlotTableView) (firstItem : Nat) : Nat → Nat → Opening Unit
  | 0, _ => pure ()
  | left + 1, i => do
    -- The indices are computed in words of 32 bits, and nothing is checked against the table.
    let previous ← view.itemAt (sum32 firstItem (i - 1))
    let current ← view.itemAt (sum32 firstItem i)
    -- The strings are not known yet, so that every name is read as the empty one.
    let before ← view.stringAt previous.name
    let behind ← view.stringAt current.name
    Screening.require (¬behind < before) unsortedTreeItems
    checkItems view firstItem left (i + 1)

def checkTrees (view : StaticSlotTableView) : List StaticSlotTableTreeRecord → Opening Unit
  | [] => pure ()
  | tree :: rest => do
    checkItems view tree.firstItem (tree.itemCount - 1) 1
    checkTrees view rest

def readRoot (view : StaticSlotTableView) (header : Header) : Nat → Nat → Opening (List Nat)
  | 0, _ => pure []
  | left + 1, i => do
    let objectId ← view.listValueAt view.rootValueId i
    Screening.require (objectId < header.valueCount ∧ view.valueKind objectId = .Object) invalidRootEntry
    let others ← readRoot view header left (i + 1)
    return objectId :: others

def readWords (view : StaticSlotTableView) : List StaticSlotTableDeclaration → Opening (List (List UInt8))
  | [] => pure []
  | declaration :: rest => do
    let storesNativeHandle ← view.stringAt declaration.storesNativeHandle
    Screening.require (storesNativeHandle = ascii "false") nativeHandlesForbidden
    let word ← view.stringAt declaration.word
    let others ← readWords view rest
    return word :: others

def sortWords (words : List (List UInt8)) : List (List UInt8 × Nat) :=
  words.zipIdx.mergeSort fun a b => decide (a.1 ≤ b.1)

theorem sortWords_perm (words : List (List UInt8)) : (sortWords words).Perm words.zipIdx :=
  List.mergeSort_perm _ _

theorem sortWords_ordered (words : List (List UInt8)) :
    (sortWords words).Pairwise fun a b => a.1 ≤ b.1 := by
  have transitive : ∀ a b c : List UInt8 × Nat, decide (a.1 ≤ b.1) = true → decide (b.1 ≤ c.1) = true →
      decide (a.1 ≤ c.1) = true := fun a b c first second =>
    decide_eq_true (List.le_trans (of_decide_eq_true first) (of_decide_eq_true second))
  have total : ∀ a b : List UInt8 × Nat, (decide (a.1 ≤ b.1) || decide (b.1 ≤ a.1)) = true := fun a b => by
    simp [List.le_total]
  exact (List.pairwise_mergeSort transitive total words.zipIdx).imp fun before => of_decide_eq_true before

theorem isChain_lt {words : List (List UInt8)} (ordered : words.Pairwise (· ≤ ·))
    (apart : words.IsChain (· ≠ ·)) :
    words.IsChain (· < ·) := by
  induction words with
  | nil => exact .nil
  | cons first rest ih =>
    obtain ⟨before, ordered⟩ := List.pairwise_cons.mp ordered
    cases rest with
    | nil => exact .singleton _
    | cons second rest =>
      obtain ⟨own, others⟩ := List.isChain_cons_cons.mp apart
      have less : first < second := List.not_le.mp fun back =>
        own (List.le_antisymm (before second List.mem_cons_self) back)
      exact List.isChain_cons_cons.mpr ⟨less, ih ordered others⟩

/-- Everything behind the tables up to the items. -/
def finish (text : List UInt8) (tables : Tables) : Opening StaticSlotTableView := do
  let header := tables.header
  checkTrees tables.view tables.view.trees
  let (listEntries, cursor) ← Screening.many (readListEntry header text) header.listEntryCount tables.cursor
  let view := { tables.view with
    listEntries
    stringBytes := some (cursor, header.stringBytes)
    moduleName := header.moduleName
    rootValueId := header.rootValue
    payloadHash := header.payloadHash }
  Screening.require (view.rootValueId < header.valueCount ∧ view.valueKind view.rootValueId = .List)
    invalidRootReference
  Screening.require (view.listValueCount view.rootValueId = header.declarationCount) invalidRootCount
  let declarationValueIds ← readRoot view header header.declarationCount 0
  Screening.require (view.moduleName < header.stringCount) invalidModuleReference
  let words ← readWords view view.declarations
  let sorted := sortWords words
  Screening.require ((sorted.map Prod.fst).IsChain (· ≠ ·)) duplicateDeclarationWord
  return { view with declarationValueIds, declarationWordIndex := sorted.map Prod.snd }

/-- Opening a file that has been mapped. -/
def readStaticSlotTableImageMmapReadOnly (text : List UInt8) : Opening StaticSlotTableView := do
  Screening.require (text ≠ []) (fail "stat_failed" "failed to stat static slot table image")
  let tables ← readTables text
  finish text tables

end Reading

end AgentC.StaticImage

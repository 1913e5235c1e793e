import AgentC.Alloc.Slab
import AgentC.StaticImage.DeclarationTables
import AgentC.StaticImage.SlotTableSearch

/-! Which images of declarations the reader returns as they were written. -/

namespace AgentC.StaticImage

namespace Writer

variable {writer : Writer} {moduleName rootValue : Nat}

theorem stringOf_bytes (fits : writer.Fits moduleName rootValue) {id : Nat} {text : List UInt8}
    (there : writer.strings[id]? = some text) :
    (viewAt (writer.bytes moduleName rootValue)).stringOf id = text := by
  have found := found_of_fits fits
  have header := headerAt_bytes fits
  obtain ⟨record, bytes, inside⟩ := @getElem?_recordsOf 0 id _ _ there
  rw [Nat.zero_add] at record
  have known : (viewAt (writer.bytes moduleName rootValue)).stringBytes =
      some ((writer.header moduleName rootValue).stringBytesPlace, writer.strings.flatten.length) := by
    show some ((headerAt (writer.bytes moduleName rootValue)).stringBytesPlace,
      (headerAt (writer.bytes moduleName rootValue)).stringBytes) = _
    rw [header]
    rfl
  have strings : (viewAt (writer.bytes moduleName rootValue)).strings[id]? =
      some ⟨(writer.strings.take id).flatten.length, text.length⟩ := by
    rw [← record, ← found.strings]
    rfl
  unfold StaticSlotTableView.stringOf
  rw [strings, known]
  dsimp only
  rw [if_pos inside, ← List.drop_drop]
  show (((writer.bytes moduleName rootValue).drop _).drop _).take _ = text
  rw [found.stringBytes, bytes]

end Writer

section Images

def imageTables (manifest : Option ImageValue) (symbols : List (Option ImageValue)) : Writer :=
  { tablesOf (imageStrings manifest symbols) symbols with
    values := (tablesOf (imageStrings manifest symbols) symbols).values ++ [⟨.List, 0, 0, symbols.length⟩] }

def moduleNumber (manifest : Option ImageValue) (symbols : List (Option ImageValue)) : Nat :=
  (imageStrings manifest symbols).idxOf (namedString manifest "module")

variable {manifest : Option ImageValue} {symbols : List (Option ImageValue)}

theorem length_listEntries {strings : List (List UInt8)} :
    (tablesOf strings symbols).listEntries.length = symbols.length := by
  rw [tablesOf, List.length_map, List.length_range]

theorem writtenBytes_eq (present : ∀ symbol ∈ symbols, symbol.isSome)
    (few : 17 * symbols.length + 17 < 2 ^ 32) :
    writtenBytes manifest symbols =
      (imageTables manifest symbols).bytes (moduleNumber manifest symbols) (17 * symbols.length) := by
  unfold writtenBytes
  rw [writeTables_eq present few]
  dsimp only
  rw [length_values, length_listEntries, uint32_of_lt (by omega), uint32_of_lt (by omega)]
  rfl

/-- What is known of the declarations that are written. -/
structure Written (manifest : Option ImageValue) (symbols : List (Option ImageValue)) : Prop where
  present : ∀ symbol ∈ symbols, symbol.isSome
  few : 17 * symbols.length + 17 < 2 ^ 32
  short : (writtenBytes manifest symbols).length < 2 ^ 63

namespace Written

open Writer

variable (written : Written manifest symbols)
include written

theorem known : Known (imageStrings manifest symbols) symbols :=
  (imageStrings_known manifest symbols written.present written.few).1

theorem length_strings : (imageStrings manifest symbols).length ≤ 17 + 16 * symbols.length :=
  (imageStrings_known manifest symbols written.present written.few).2.2

theorem module_mem : namedString manifest "module" ∈ imageStrings manifest symbols :=
  (imageStrings_known manifest symbols written.present written.few).2.1.subset (mem_addString [] _)

theorem text_mem {symbol : Option ImageValue} (member : symbol ∈ symbols) {name : String}
    (field : name ∈ fieldNames) :
    namedString symbol name ∈ imageStrings manifest symbols :=
  written.known.texts symbol member _ (List.mem_map_of_mem field)

theorem name_mem {name : List UInt8} (field : name ∈ nameTexts) : name ∈ imageStrings manifest symbols :=
  written.known.names name field

theorem declaration_ids {declaration : StaticSlotTableDeclaration}
    (member : declaration ∈ (imageTables manifest symbols).declarations) :
    ∀ id ∈ declaration.stringIds, id < (imageStrings manifest symbols).length := by
  obtain ⟨symbol, inside, rfl⟩ := List.mem_map.mp member
  have small : ∀ name ∈ fieldNames, (imageStrings manifest symbols).idxOf (namedString symbol name) <
      (imageStrings manifest symbols).length := fun name field =>
    List.idxOf_lt_length_of_mem (written.text_mem inside field)
  unfold StaticSlotTableDeclaration.stringIds
  simp only [List.forall_mem_cons]
  exact ⟨small "word" (by decide), small "native_symbol" (by decide), small "stack_signature" (by decide),
    small "category" (by decide), small "binding" (by decide), small "stores_native_handle" (by decide),
    small "worker_allowed" (by decide), small "notes" (by decide), List.forall_mem_nil _⟩

theorem value_cases {value : StaticSlotTableValueRecord}
    (member : value ∈ (imageTables manifest symbols).values) :
    (∃ id < (imageStrings manifest symbols).length, value = ⟨.String, id, 0, 0⟩) ∨
      (∃ k < symbols.length, value = ⟨.Object, 0, k, 1⟩) ∨ value = ⟨.List, 0, 0, symbols.length⟩ := by
  rcases List.mem_append.mp member with own | last
  · obtain ⟨⟨symbol, k⟩, place, inside⟩ := List.mem_flatMap.mp own
    have there := List.mem_zipIdx_iff_getElem?.mp place
    rcases List.mem_append.mp inside with text | object
    · obtain ⟨string, field, rfl⟩ := List.mem_map.mp text
      have inside := written.known.texts symbol (List.mem_of_getElem? there) string field
      exact .inl ⟨_, List.idxOf_lt_length_of_mem inside, rfl⟩
    · exact .inr (.inl ⟨k, (List.getElem?_eq_some_iff.mp there).1, List.mem_singleton.mp object⟩)
  · exact .inr (.inr (List.mem_singleton.mp last))

omit written in
theorem length_values : (imageTables manifest symbols).values.length = 17 * symbols.length + 1 := by
  show ((tablesOf _ symbols).values ++ [_]).length = _
  rw [List.length_append, AgentC.StaticImage.length_values, List.length_singleton]

theorem item_cases {item : StaticSlotTableItemRecord}
    (member : item ∈ (imageTables manifest symbols).items) :
    item.name < (imageStrings manifest symbols).length ∧ item.value < 17 * symbols.length + 1 := by
  obtain ⟨k, range, inside⟩ := List.mem_flatMap.mp member
  obtain ⟨⟨name, place⟩, field, rfl⟩ := List.mem_map.mp inside
  have there := getElem?_of_mem_sortedNames field
  have name_in := List.idxOf_lt_length_of_mem (written.name_mem (List.mem_of_getElem? there))
  have place_in := (List.getElem?_eq_some_iff.mp there).1
  have k_in := List.mem_range.mp range
  rw [length_nameTexts] at place_in
  exact ⟨name_in, by dsimp only; omega⟩

omit written in
theorem tree_cases {tree : StaticSlotTableTreeRecord}
    (member : tree ∈ (imageTables manifest symbols).trees) :
    ∃ k < symbols.length, tree = ⟨16 * k, 16⟩ := by
  obtain ⟨k, range, rfl⟩ := List.mem_map.mp member
  exact ⟨k, List.mem_range.mp range, rfl⟩

omit written in
theorem entry_cases {entry : Nat} (member : entry ∈ (imageTables manifest symbols).listEntries) :
    entry < 17 * symbols.length + 1 := by
  obtain ⟨k, range, rfl⟩ := List.mem_map.mp member
  have inside := List.mem_range.mp range
  omega

theorem fits :
    (imageTables manifest symbols).Fits (moduleNumber manifest symbols) (17 * symbols.length) := by
  have few := written.few
  have strings := written.length_strings
  have number := List.idxOf_lt_length_of_mem written.module_mem
  constructor
  case moduleNumber =>
    unfold moduleNumber
    omega
  case rootNumber => omega
  case strings =>
    show (imageStrings manifest symbols).length < 2 ^ 32
    omega
  case values =>
    rw [Written.length_values]
    omega
  case items =>
    have items : (imageTables manifest symbols).items.length = 16 * symbols.length := length_items
    rw [items]
    omega
  case trees =>
    show ((List.range symbols.length).map _).length < 2 ^ 32
    rw [List.length_map, List.length_range]
    omega
  case declarations =>
    show (symbols.map _).length < 2 ^ 32
    rw [List.length_map]
    omega
  case listEntries =>
    have entries : (imageTables manifest symbols).listEntries.length = symbols.length :=
      @length_listEntries symbols (imageStrings manifest symbols)
    rw [entries]
    omega
  case declarationRecords =>
    intro declaration member id inside
    have small := written.declaration_ids member id inside
    omega
  case valueRecords =>
    intro value member
    rcases written.value_cases member with ⟨id, small, rfl⟩ | ⟨k, small, rfl⟩ | rfl
    · exact ⟨by dsimp only; omega, by dsimp only; omega, by dsimp only; omega⟩
    · exact ⟨by dsimp only; omega, by dsimp only; omega, by dsimp only; omega⟩
    · exact ⟨by dsimp only; omega, by dsimp only; omega, by dsimp only; omega⟩
  case treeRecords =>
    intro tree member
    obtain ⟨k, small, rfl⟩ := tree_cases member
    exact ⟨by dsimp only; omega, by dsimp only; omega⟩
  case itemRecords =>
    intro item member
    obtain ⟨name, value⟩ := written.item_cases member
    exact ⟨by omega, by omega⟩
  case entries =>
    intro entry member
    have small := entry_cases member
    omega
  case short =>
    rw [← writtenBytes_eq written.present written.few]
    exact written.short

omit written in
theorem getElem?_values {index offset : Nat} (inside : index < symbols.length) (small : offset < 17) :
    (imageTables manifest symbols).values[17 * index + offset]? =
      (symbolValues (imageStrings manifest symbols) symbols[index] index)[offset]? := by
  have below : index < symbols.zipIdx.length := by
    rw [List.length_zipIdx]
    exact inside
  have block := getElem?_flatMap_const
    (fun symbol => length_symbolValues (imageStrings manifest symbols) symbol.1 symbol.2) symbols.zipIdx below small
  rw [List.getElem_zipIdx, Nat.zero_add] at block
  have front : 17 * index + offset < (tablesOf (imageStrings manifest symbols) symbols).values.length := by
    rw [AgentC.StaticImage.length_values]
    omega
  show ((tablesOf _ symbols).values ++ [_])[17 * index + offset]? = _
  rw [List.getElem?_append_left front, Nat.mul_comm]
  exact block

omit written in
theorem getElem?_items {index offset : Nat} (inside : index < symbols.length) (small : offset < 16) :
    (imageTables manifest symbols).items[16 * index + offset]? =
      (objectItems (imageStrings manifest symbols) (17 * index))[offset]? := by
  have below : index < (List.range symbols.length).length := by
    rw [List.length_range]
    exact inside
  have block := getElem?_flatMap_const
    (fun k => length_objectItems (imageStrings manifest symbols) (17 * k)) (List.range symbols.length) below small
  rw [List.getElem_range] at block
  rw [Nat.mul_comm]
  exact block

omit written in
theorem getElem?_object {index : Nat} (inside : index < symbols.length) :
    (imageTables manifest symbols).values[17 * index + 16]? = some ⟨.Object, 0, index, 1⟩ := by
  rw [getElem?_values inside (by decide), symbolValues, List.getElem?_append_right, List.length_map,
    length_fieldTexts]
  · rfl
  · rw [List.length_map, length_fieldTexts]

omit written in
theorem getElem?_root :
    (imageTables manifest symbols).values[17 * symbols.length]? = some ⟨.List, 0, 0, symbols.length⟩ := by
  have length : (tablesOf (imageStrings manifest symbols) symbols).values.length = 17 * symbols.length :=
    AgentC.StaticImage.length_values
  show ((tablesOf _ symbols).values ++ [_])[17 * symbols.length]? = _
  rw [List.getElem?_append_right length.le, length, Nat.sub_self]
  rfl

theorem readable : Readable ((imageTables manifest symbols).bytes (moduleNumber manifest symbols)
    (17 * symbols.length)) := by
  have fits := written.fits
  have header := headerAt_bytes fits
  have found := found_of_fits fits
  have whole := @length_bytes (imageTables manifest symbols) (moduleNumber manifest symbols) (17 * symbols.length)
  have trees : (imageTables manifest symbols).trees.length = symbols.length := by
    show ((List.range symbols.length).map _).length = _
    rw [List.length_map, List.length_range]
  have entries : (imageTables manifest symbols).listEntries.length = symbols.length :=
    @length_listEntries symbols (imageStrings manifest symbols)
  have items : (imageTables manifest symbols).items.length = 16 * symbols.length := length_items
  constructor
  case toFramed =>
    refine ⟨⟨?_, ?_, ?_⟩, ?_⟩
    · rw [whole]
      omega
    · rfl
    · rw [header]
      rfl
    · rw [header]
      exact sized_header
  case whole => rw [header, whole]
  case hash =>
    rw [header, drop_bytes]
    rfl
  case strings =>
    rw [found.strings, header]
    intro record member
    have inside := recordsOf_inside member
    rw [Nat.zero_add] at inside
    exact ⟨(Nat.le_add_right _ _).trans inside, (Nat.le_add_left _ _).trans inside, inside⟩
  case declarations =>
    rw [found.declarations, header]
    exact fun declaration member => written.declaration_ids member
  case values =>
    rw [found.values, header]
    intro value member
    rcases written.value_cases member with ⟨id, small, rfl⟩ | ⟨k, small, rfl⟩ | rfl
    · exact small
    · rw [← trees] at small
      exact ⟨small, rfl⟩
    · refine ⟨Nat.zero_le _, entries.ge, ?_⟩
      show (0 + symbols.length) % 2 ^ 32 ≤ (imageTables manifest symbols).listEntries.length
      rw [entries, Nat.zero_add]
      exact Nat.mod_le _ _
  case trees =>
    rw [found.trees, header]
    intro tree member
    obtain ⟨k, small, rfl⟩ := tree_cases member
    have wrapped : (16 * k + 16) % 2 ^ 32 ≤ 16 * k + 16 := Nat.mod_le _ _
    show 16 * k ≤ (imageTables manifest symbols).items.length ∧ 16 ≤ (imageTables manifest symbols).items.length ∧
      (16 * k + 16) % 2 ^ 32 ≤ (imageTables manifest symbols).items.length
    rw [items]
    omega
  case items =>
    rw [found.items, header]
    intro item member
    obtain ⟨name, value⟩ := written.item_cases member
    refine ⟨name, ?_⟩
    show item.value < (imageTables manifest symbols).values.length
    rw [Written.length_values]
    exact value

theorem treesFit : TreesFit ((imageTables manifest symbols).bytes (moduleNumber manifest symbols)
    (17 * symbols.length)) := by
  have few := written.few
  rintro - tree member -
  rw [(found_of_fits written.fits).trees] at member
  obtain ⟨k, small, rfl⟩ := tree_cases member
  dsimp only
  omega

theorem stringOf_idxOf {text : List UInt8} (member : text ∈ imageStrings manifest symbols) :
    (viewAt ((imageTables manifest symbols).bytes (moduleNumber manifest symbols) (17 * symbols.length))).stringOf
      ((imageStrings manifest symbols).idxOf text) = text := by
  refine stringOf_bytes written.fits ?_
  show (imageStrings manifest symbols)[_]? = _
  rw [List.getElem?_eq_getElem (List.idxOf_lt_length_of_mem member), List.getElem_idxOf]

theorem view_values : (viewAt ((imageTables manifest symbols).bytes (moduleNumber manifest symbols)
    (17 * symbols.length))).values = (imageTables manifest symbols).values :=
  (found_of_fits written.fits).values

theorem view_trees : (viewAt ((imageTables manifest symbols).bytes (moduleNumber manifest symbols)
    (17 * symbols.length))).trees = (imageTables manifest symbols).trees :=
  (found_of_fits written.fits).trees

theorem view_items : (viewAt ((imageTables manifest symbols).bytes (moduleNumber manifest symbols)
    (17 * symbols.length))).items = (imageTables manifest symbols).items :=
  (found_of_fits written.fits).items

theorem view_declarations : (viewAt ((imageTables manifest symbols).bytes (moduleNumber manifest symbols)
    (17 * symbols.length))).declarations = (imageTables manifest symbols).declarations :=
  (found_of_fits written.fits).declarations

theorem view_listEntries : (viewAt ((imageTables manifest symbols).bytes (moduleNumber manifest symbols)
    (17 * symbols.length))).listEntries = (imageTables manifest symbols).listEntries := by
  rw [← (found_of_fits written.fits).listEntries]
  show Screening.inRow _ 4 (headerAt _).listEntryCount (headerAt _).listEntriesPlace = _
  rw [headerAt_bytes written.fits]
  rfl

theorem listEntryOf_root {index : Nat} (inside : index < symbols.length) :
    (viewAt ((imageTables manifest symbols).bytes (moduleNumber manifest symbols)
      (17 * symbols.length))).listEntryOf (17 * symbols.length) index = 17 * index + 16 := by
  unfold StaticSlotTableView.listEntryOf
  rw [written.view_values, getElem?_root, written.view_listEntries]
  dsimp only
  have list : ¬((StaticSlotValueKind.List ≠ .List) ∨ symbols.length ≤ index) := by
    rintro (other | past)
    · exact other rfl
    · omega
  have entry : (imageTables manifest symbols).listEntries[0 + index]? = some (17 * index + 16) := by
    show ((List.range symbols.length).map _)[0 + index]? = _
    rw [Nat.zero_add, List.getElem?_map, List.getElem?_range inside]
    rfl
  rw [if_neg list, entry, Option.getD_some]

theorem fieldOf_image {index : Nat} (inside : index < symbols.length) {name : String}
    (field : name ∈ fieldNames) :
    (imageAt ((imageTables manifest symbols).bytes (moduleNumber manifest symbols)
      (17 * symbols.length))).fieldOf (17 * index + 16) (ascii name) = namedString symbols[index] name := by
  -- The name has a place in the order of writing, and another one in the order of the names.
  obtain ⟨place, there⟩ := List.mem_iff_getElem?.mp field
  have named : nameTexts[place]? = some (ascii name) := by
    rw [nameTexts, List.getElem?_map, there, Option.map_some]
  have place_in : place < 16 := by
    have small := (List.getElem?_eq_some_iff.mp named).1
    rwa [length_nameTexts] at small
  have sorted : (ascii name, place) ∈ sortedNames :=
    sortedNames_perm.mem_iff.mpr (List.mem_zipIdx_iff_getElem?.mpr named)
  obtain ⟨j, own⟩ := List.mem_iff_getElem?.mp sorted
  have items : ∀ i field, sortedNames[i]? = some field →
      (imageAt ((imageTables manifest symbols).bytes (moduleNumber manifest symbols)
        (17 * symbols.length))).items[16 * index + i]? =
        some ⟨(imageStrings manifest symbols).idxOf field.1, 17 * index + field.2⟩ := by
    intro i other found
    have small : i < 16 := by
      rw [← length_sortedNames]
      exact (List.getElem?_eq_some_iff.mp found).1
    rw [items_imageAt, written.view_items, getElem?_items inside small, objectItems,
      List.getElem?_map, found, Option.map_some]
  have names : ∀ i field, sortedNames[i]? = some field → (imageAt ((imageTables manifest symbols).bytes
      (moduleNumber manifest symbols) (17 * symbols.length))).nameAt (16 * index + i) = field.1 := by
    intro i other found
    have member := List.mem_of_getElem? (getElem?_of_mem_sortedNames (List.mem_of_getElem? found))
    rw [StaticSlotTableView.nameAt_of_item (items i other found), stringOf_imageAt]
    exact written.stringOf_idxOf (written.name_mem member)
  have rises : Rises (· < ·) (fun i => (imageAt ((imageTables manifest symbols).bytes
      (moduleNumber manifest symbols) (17 * symbols.length))).nameAt (16 * index + i)) 0 16 := by
    intro i k _ less small
    have long : k < sortedNames.length := by rwa [length_sortedNames]
    dsimp only
    rw [names i _ (List.getElem?_eq_getElem (less.trans long)),
      names k _ (List.getElem?_eq_getElem long)]
    exact List.pairwise_iff_getElem.mp sortedNames_pairwise _ _ (less.trans long) long less
  have last : 15 < sortedNames.length := by
    rw [length_sortedNames]
    decide
  have whole := (List.getElem?_eq_some_iff.mp (items 15 _ (List.getElem?_eq_getElem last))).1
  have below : j < 16 := by
    rw [← length_sortedNames]
    exact (List.getElem?_eq_some_iff.mp own).1
  have searched := StaticSlotTableView.fieldFrom_of_rises rises whole (items j _ own) (Nat.zero_le j) below
    (by decide : 16 - 0 ≤ 16)
  rw [← StaticSlotTableView.nameAt_of_item (items j _ own), names j _ own] at searched
  have tree : (imageTables manifest symbols).trees[index]? = some ⟨16 * index, 16⟩ := by
    show ((List.range symbols.length).map _)[index]? = _
    rw [List.getElem?_map, List.getElem?_range inside, Option.map_some]
  unfold StaticSlotTableView.fieldOf
  rw [values_imageAt, written.view_values, getElem?_object inside]
  dsimp only
  rw [if_neg (not_not_intro rfl), trees_imageAt, written.view_trees, tree]
  dsimp only
  rw [searched]
  -- The item holds the value of the text that was written for the name.
  have text : (fieldTexts symbols[index])[place]? = some (namedString symbols[index] name) := by
    rw [fieldTexts, List.getElem?_map, there, Option.map_some]
  have value : (imageTables manifest symbols).values[17 * index + place]? =
      some ⟨.String, (imageStrings manifest symbols).idxOf (namedString symbols[index] name), 0, 0⟩ := by
    have front : place < ((fieldTexts symbols[index]).map fun text =>
        (⟨.String, (imageStrings manifest symbols).idxOf text, 0, 0⟩ : StaticSlotTableValueRecord)).length := by
      rwa [List.length_map, length_fieldTexts]
    rw [getElem?_values inside (by omega), symbolValues, List.getElem?_append_left front,
      List.getElem?_map, text,
      Option.map_some]
  unfold StaticSlotTableView.itemString
  rw [values_imageAt, written.view_values, value, stringOf_imageAt]
  dsimp only
  rw [if_pos rfl]
  exact written.stringOf_idxOf (written.text_mem (List.getElem_mem inside) field)

end Written

end Images

section RoundTrip

/-- A declaration is returned for an index, with its kind and all its fields. -/
structure Returned (view : StaticSlotTableView) (index : Nat) (symbol : Option ImageValue) : Prop where
  word : view.declarationWord index = pure (namedString symbol "word")
  nativeSymbol : view.declarationNativeSymbol index = pure (namedString symbol "native_symbol")
  stackSignature : view.declarationStackSignature index = pure (namedString symbol "stack_signature")
  category : view.declarationCategory index = pure (namedString symbol "category")
  kind : view.valueKind (view.declarationValueId index) = .Object
  fields : ∀ name ∈ fieldNames,
    view.objectStringField (view.declarationValueId index) (ascii name) = pure (namedString symbol name)

/-- The reader accepts a file and returns these declarations in their order. -/
def RoundTrips (text : List UInt8) (symbols : List (Option ImageValue)) : Prop :=
  ∃ view, (readStaticSlotTableImageMmapReadOnly text).Gives view ∧ view.declarations.length = symbols.length ∧
    ∀ (index : Nat) (inside : index < symbols.length), Returned view index symbols[index]

/-- An image of declarations. Every child of a list is a node of an allocator, which has so many at most. -/
structure DeclarationImage where
  value : Option ImageValue
  few : ∀ symbols, children (namedValue value (ascii "declarations")) = some symbols →
    symbols.length ≤ numSlabs * slabSize

namespace DeclarationImage

def symbols (image : DeclarationImage) : List (Option ImageValue) :=
  (children (namedValue image.value (ascii "declarations"))).getD []

def manifest (image : DeclarationImage) : Option ImageValue :=
  namedValue image.value (ascii "manifest")

end DeclarationImage

variable {declarationPayloadHash : Option ImageValue → List UInt8}

namespace Written

variable {manifest : Option ImageValue} {symbols : List (Option ImageValue)}

theorem returned (written : Written manifest symbols) {index : Nat} (inside : index < symbols.length) :
    Returned (imageAt (writtenBytes manifest symbols)) index symbols[index] := by
  rw [writtenBytes_eq written.present written.few]
  have sound := sound_imageAt written.fits.short written.readable
  have member : symbols[index] ∈ symbols := List.getElem_mem inside
  have declared : (imageAt ((imageTables manifest symbols).bytes (moduleNumber manifest symbols)
      (17 * symbols.length))).declarations[index]? =
        some (declarationRecord ((fieldTexts symbols[index]).map (imageStrings manifest symbols).idxOf)) := by
    rw [declarations_imageAt, written.view_declarations]
    show (symbols.map _)[index]? = _
    rw [List.getElem?_map, List.getElem?_eq_getElem inside, Option.map_some]
  have strings : ∀ (string : StaticSlotTableDeclaration → Nat) {name : String} (field : name ∈ fieldNames)
      (same : string (declarationRecord ((fieldTexts symbols[index]).map (imageStrings manifest symbols).idxOf)) =
        (imageStrings manifest symbols).idxOf (namedString symbols[index] name)),
      (imageAt ((imageTables manifest symbols).bytes (moduleNumber manifest symbols)
        (17 * symbols.length))).declarationString string index = pure (namedString symbols[index] name) := by
    intro string name field same
    rw [StaticSlotTableView.declarationString_eq sound, StaticSlotTableView.declarationStringOf, declared]
    dsimp only
    rw [same, stringOf_imageAt]
    exact congrArg pure (written.stringOf_idxOf (written.text_mem member field))
  have object : (imageAt ((imageTables manifest symbols).bytes (moduleNumber manifest symbols)
      (17 * symbols.length))).declarationValueId index = 17 * index + 16 := by
    rw [← written.listEntryOf_root inside]
    show (((List.range (headerAt _).declarationCount).map _)[index]?).getD 0 = _
    rw [Writer.headerAt_bytes written.fits]
    have count : (imageTables manifest symbols).declarations.length = symbols.length := List.length_map _
    show (((List.range (imageTables manifest symbols).declarations.length).map _)[index]?).getD 0 = _
    rw [count, List.getElem?_map, List.getElem?_range inside, Option.map_some, Option.getD_some]
    rfl
  constructor
  case word => exact strings _ (by decide) (word_declarationRecord _ _)
  case nativeSymbol => exact strings _ (by decide) (nativeSymbol_declarationRecord _ _)
  case stackSignature => exact strings _ (by decide) (stackSignature_declarationRecord _ _)
  case category => exact strings _ (by decide) (category_declarationRecord _ _)
  case kind =>
    rw [object]
    unfold StaticSlotTableView.valueKind
    rw [values_imageAt, written.view_values, getElem?_object inside]
  case fields =>
    intro name field
    rw [object, StaticSlotTableView.objectStringField_eq sound, written.fieldOf_image inside field]

end Written

def textValue (text : List UInt8) : Option ImageValue :=
  some (.tree text false [])

end RoundTrip

end AgentC.StaticImage

import Mathlib.Data.List.TakeWhile
import AgentC.Library.Lists
import AgentC.StaticImage.DeclarationImage
import AgentC.StaticImage.SlotTableLayout

/-! What the reader of images finds in the bytes that the writer has put together. -/

namespace AgentC.StaticImage

section Rows

variable {α : Type} {write : α → List UInt8} {standing : List UInt8 → Nat → α} {good : α → Prop} {width : Nat}

theorem inRow_append (length : ∀ a, (write a).length = width)
    (reads : ∀ before a after, good a → standing (before ++ (write a ++ after)) before.length = a)
    {values : List α} (all : ∀ a ∈ values, good a) (before after : List UInt8) :
    Screening.inRow (standing (before ++ (values.flatMap write ++ after))) width values.length before.length =
      values := by
  induction values generalizing before with
  | nil => rfl
  | cons value values ih =>
    obtain ⟨own, others⟩ := List.forall_mem_cons.mp all
    have first : before ++ ((value :: values).flatMap write ++ after) =
        before ++ (write value ++ (values.flatMap write ++ after)) := by
      rw [List.flatMap_cons, List.append_assoc]
    have later : before ++ (write value ++ (values.flatMap write ++ after)) =
        (before ++ write value) ++ (values.flatMap write ++ after) := by
      rw [List.append_assoc]
    have behind : before.length + width = (before ++ write value).length := by
      rw [List.length_append, length]
    rw [List.length_cons, Screening.inRow, first, reads before value _ own, later, behind,
      ih others (before ++ write value)]

end Rows

section Records

variable {before after : List UInt8}

def StaticSlotTableDeclaration.Fits (declaration : StaticSlotTableDeclaration) : Prop :=
  ∀ id ∈ declaration.stringIds, id < 2 ^ 32

def StaticSlotTableValueRecord.Fits (value : StaticSlotTableValueRecord) : Prop :=
  value.stringId < 2 ^ 32 ∧ value.first < 2 ^ 32 ∧ value.count < 2 ^ 32

def StaticSlotTableTreeRecord.Small (tree : StaticSlotTableTreeRecord) : Prop :=
  tree.firstItem < 2 ^ 32 ∧ tree.itemCount < 2 ^ 32

def StaticSlotTableItemRecord.Fits (item : StaticSlotTableItemRecord) : Prop :=
  item.name < 2 ^ 32 ∧ item.value < 2 ^ 32

theorem declarationAt_append (before : List UInt8) (declaration : StaticSlotTableDeclaration)
    (after : List UInt8)
    (fits : declaration.Fits) :
    declarationAt (before ++ (appendDeclarationRecord declaration ++ after)) before.length = declaration := by
  have words : wordsAt (before ++ (wordsBytes 4 declaration.stringIds ++ after)) before.length 4 8 =
      declaration.stringIds := wordsAt_append fits rfl
  obtain ⟨word, nativeSymbol, stackSignature, category, binding, storesNativeHandle, workerAllowed, notes⟩ :=
    declaration
  obtain ⟨first, rest⟩ := List.cons.inj words
  obtain ⟨second, rest⟩ := List.cons.inj rest
  obtain ⟨third, rest⟩ := List.cons.inj rest
  obtain ⟨fourth, rest⟩ := List.cons.inj rest
  obtain ⟨fifth, rest⟩ := List.cons.inj rest
  obtain ⟨sixth, rest⟩ := List.cons.inj rest
  obtain ⟨seventh, rest⟩ := List.cons.inj rest
  obtain ⟨eighth, -⟩ := List.cons.inj rest
  exact StaticSlotTableDeclaration.mk.injEq .. |>.mpr
    ⟨first, second, third, fourth, fifth, sixth, seventh, eighth⟩

theorem valueAt_append (before : List UInt8) (value : StaticSlotTableValueRecord) (after : List UInt8)
    (fits : value.Fits) :
    valueAt (before ++ (appendValueRecord value ++ after)) before.length = value := by
  have small : ∀ word ∈ [value.kind.word, value.stringId, value.first, value.count], word < 256 ^ 4 := by
    rw [List.forall_mem_cons, List.forall_mem_cons, List.forall_mem_cons, List.forall_mem_singleton]
    exact ⟨value.kind.word_lt, fits.1, fits.2.1, fits.2.2⟩
  have words : wordsAt (before ++ (wordsBytes 4 [value.kind.word, value.stringId, value.first, value.count] ++ after))
      before.length 4 4 = [value.kind.word, value.stringId, value.first, value.count] := wordsAt_append small rfl
  obtain ⟨first, rest⟩ := List.cons.inj words
  obtain ⟨second, rest⟩ := List.cons.inj rest
  obtain ⟨third, rest⟩ := List.cons.inj rest
  obtain ⟨fourth, -⟩ := List.cons.inj rest
  have kind := (congrArg StaticSlotValueKind.ofWord first).trans (StaticSlotValueKind.ofWord_word value.kind)
  exact StaticSlotTableValueRecord.mk.injEq .. |>.mpr ⟨kind, second, third, fourth⟩

theorem treeAt_append (before : List UInt8) (tree : StaticSlotTableTreeRecord) (after : List UInt8)
    (fits : tree.Small) :
    treeAt (before ++ (appendTreeRecord tree ++ after)) before.length = tree := by
  have small : ∀ word ∈ [tree.firstItem, tree.itemCount], word < 256 ^ 4 := by
    rw [List.forall_mem_cons, List.forall_mem_singleton]
    exact fits
  have words : wordsAt (before ++ (wordsBytes 4 [tree.firstItem, tree.itemCount] ++ after))
      before.length 4 2 = [tree.firstItem, tree.itemCount] := wordsAt_append small rfl
  obtain ⟨first, rest⟩ := List.cons.inj words
  obtain ⟨second, -⟩ := List.cons.inj rest
  exact StaticSlotTableTreeRecord.mk.injEq .. |>.mpr ⟨first, second⟩

theorem itemRecordAt_append (before : List UInt8) (item : StaticSlotTableItemRecord) (after : List UInt8)
    (fits : item.Fits) :
    itemRecordAt (before ++ (appendItemRecord item ++ after)) before.length = item := by
  have small : ∀ word ∈ [item.name, item.value], word < 256 ^ 4 := by
    rw [List.forall_mem_cons, List.forall_mem_singleton]
    exact fits
  have words : wordsAt (before ++ (wordsBytes 4 [item.name, item.value] ++ after))
      before.length 4 2 = [item.name, item.value] := wordsAt_append small rfl
  obtain ⟨first, rest⟩ := List.cons.inj words
  obtain ⟨second, -⟩ := List.cons.inj rest
  exact StaticSlotTableItemRecord.mk.injEq .. |>.mpr ⟨first, second⟩

theorem listEntryAt_append (before : List UInt8) (entry : Nat) (after : List UInt8)
    (fits : entry < 2 ^ 32) :
    listEntryAt (before ++ (wordBytes 4 entry ++ after)) before.length = entry :=
  wordAt_append fits rfl

def recordsOf : Nat → List (List UInt8) → List StringRecord
  | _, [] => []
  | offset, text :: rest => ⟨offset, text.length⟩ :: recordsOf (offset + text.length) rest

theorem length_recordsOf (offset : Nat) (strings : List (List UInt8)) :
    (recordsOf offset strings).length = strings.length := by
  induction strings generalizing offset with
  | nil => rfl
  | cons text rest ih => rw [recordsOf, List.length_cons, ih, List.length_cons]

theorem inRow_stringRecords {offset : Nat} {strings : List (List UInt8)}
    (fits : offset + strings.flatten.length < 2 ^ 64) (before after : List UInt8) :
    Screening.inRow (stringRecordAt (before ++ (stringRecordsFrom offset strings ++ after))) 16 strings.length
      before.length = recordsOf offset strings := by
  induction strings generalizing offset before with
  | nil => rfl
  | cons text rest ih =>
    rw [List.flatten_cons, List.length_append] at fits
    have first : before ++ (stringRecordsFrom offset (text :: rest) ++ after) =
        before ++ (wordBytes 8 offset ++ (wordBytes 8 text.length ++
          (stringRecordsFrom (offset + text.length) rest ++ after))) := by
      simp only [stringRecordsFrom, List.append_assoc]
    have second : before ++ (wordBytes 8 offset ++ (wordBytes 8 text.length ++
          (stringRecordsFrom (offset + text.length) rest ++ after))) =
        (before ++ wordBytes 8 offset) ++ (wordBytes 8 text.length ++
          (stringRecordsFrom (offset + text.length) rest ++ after)) := by
      simp only [List.append_assoc]
    have later : before ++ (wordBytes 8 offset ++ (wordBytes 8 text.length ++
          (stringRecordsFrom (offset + text.length) rest ++ after))) =
        (before ++ (wordBytes 8 offset ++ wordBytes 8 text.length)) ++
          (stringRecordsFrom (offset + text.length) rest ++ after) := by
      simp only [List.append_assoc]
    have middle : (before ++ wordBytes 8 offset).length = before.length + 8 := by
      rw [List.length_append, length_wordBytes]
    have behind : before.length + 16 = (before ++ (wordBytes 8 offset ++ wordBytes 8 text.length)).length := by
      rw [List.length_append, List.length_append, length_wordBytes, length_wordBytes]
    have own : stringRecordAt (before ++ (stringRecordsFrom offset (text :: rest) ++ after)) before.length =
        ⟨offset, text.length⟩ := by
      unfold stringRecordAt
      rw [first, wordAt_append (by omega) rfl, second, wordAt_append (by omega) middle]
    rw [List.length_cons, Screening.inRow, own, first, later, behind, ih (by omega), recordsOf]

theorem getElem?_recordsOf {offset id : Nat} {strings : List (List UInt8)} {text : List UInt8}
    (there : strings[id]? = some text) :
    (recordsOf offset strings)[id]? = some ⟨offset + (strings.take id).flatten.length, text.length⟩ ∧
      (strings.flatten.drop (strings.take id).flatten.length).take text.length = text ∧
      (strings.take id).flatten.length + text.length ≤ strings.flatten.length := by
  induction strings generalizing offset id with
  | nil => cases there
  | cons first rest ih =>
    cases id with
    | zero =>
      cases there
      refine ⟨rfl, ?_, ?_⟩
      · show (((text :: rest).flatten).drop 0).take text.length = text
        rw [List.drop_zero, List.flatten_cons, List.take_left]
      · show 0 + text.length ≤ (text :: rest).flatten.length
        rw [List.flatten_cons, List.length_append]
        omega
    | succ id =>
      obtain ⟨record, bytes, inside⟩ := @ih (offset + first.length) id there
      rw [List.take_succ_cons, List.flatten_cons, List.flatten_cons, List.length_append, List.length_append]
      refine ⟨?_, ?_, by omega⟩
      · rw [recordsOf, List.getElem?_cons_succ, record, Nat.add_assoc]
      · rw [List.drop_append, List.drop_of_length_le (Nat.le_add_right _ _), List.nil_append,
          Nat.add_sub_cancel_left, bytes]

theorem recordsOf_inside {offset : Nat} {strings : List (List UInt8)} {record : StringRecord}
    (member : record ∈ recordsOf offset strings) :
    record.offset + record.length ≤ offset + strings.flatten.length := by
  obtain ⟨id, there⟩ := List.mem_iff_getElem?.mp member
  have small : id < strings.length := by
    rw [← length_recordsOf offset strings]
    exact (List.getElem?_eq_some_iff.mp there).1
  obtain ⟨found, -, inside⟩ := @getElem?_recordsOf offset id _ _ (List.getElem?_eq_getElem small)
  cases there.symm.trans found
  dsimp only
  omega

end Records

namespace Writer

variable {writer : Writer} {moduleName rootValue : Nat}

/-- What is written as words of 32 bits fits, and so does the length of the image. -/
structure Fits (writer : Writer) (moduleName rootValue : Nat) : Prop where
  moduleNumber : moduleName < 2 ^ 32
  rootNumber : rootValue < 2 ^ 32
  strings : writer.strings.length < 2 ^ 32
  values : writer.values.length < 2 ^ 32
  items : writer.items.length < 2 ^ 32
  trees : writer.trees.length < 2 ^ 32
  declarations : writer.declarations.length < 2 ^ 32
  listEntries : writer.listEntries.length < 2 ^ 32
  declarationRecords : ∀ declaration ∈ writer.declarations, declaration.Fits
  valueRecords : ∀ value ∈ writer.values, value.Fits
  treeRecords : ∀ tree ∈ writer.trees, tree.Small
  itemRecords : ∀ item ∈ writer.items, item.Fits
  entries : ∀ entry ∈ writer.listEntries, entry < 2 ^ 32
  short : (writer.bytes moduleName rootValue).length < 2 ^ 63

/-- The part of an image in front of its sections. -/
def head (writer : Writer) (moduleName rootValue : Nat) : List UInt8 :=
  kMagic ++
    (wordsBytes 4 [kVersion, moduleName, rootValue, uint32 writer.strings.length, uint32 writer.declarations.length,
      uint32 writer.values.length, uint32 writer.trees.length, uint32 writer.items.length,
      uint32 writer.listEntries.length] ++
    (wordsBytes 8 (writer.sections.map List.length) ++ fnv1a64 writer.sections.flatten))

theorem length_head : (writer.head moduleName rootValue).length = 116 := by
  unfold head
  rw [List.length_append, List.length_append, List.length_append, length_wordsBytes,
    length_wordsBytes, length_fnv1a64]
  rfl

theorem bytes_eq : writer.bytes moduleName rootValue =
    writer.head moduleName rootValue ++ writer.sections.flatten := by
  simp only [bytes, head, List.append_assoc]

theorem length_stringRecordsFrom (offset : Nat) (strings : List (List UInt8)) :
    (stringRecordsFrom offset strings).length = strings.length * 16 := by
  induction strings generalizing offset with
  | nil => rfl
  | cons text rest ih =>
    rw [stringRecordsFrom, List.length_append, List.length_append, length_wordBytes, length_wordBytes, ih,
      List.length_cons]
    omega

theorem length_appendDeclarationRecord (declaration : StaticSlotTableDeclaration) :
    (appendDeclarationRecord declaration).length = 32 :=
  length_wordsBytes

theorem length_appendValueRecord (value : StaticSlotTableValueRecord) :
    (appendValueRecord value).length = 16 :=
  length_wordsBytes

theorem length_appendTreeRecord (tree : StaticSlotTableTreeRecord) : (appendTreeRecord tree).length = 8 :=
  length_wordsBytes

theorem length_appendItemRecord (item : StaticSlotTableItemRecord) : (appendItemRecord item).length = 8 :=
  length_wordsBytes

def header (writer : Writer) (moduleName rootValue : Nat) : Header where
  version := kVersion
  moduleName := moduleName
  rootValue := rootValue
  stringCount := writer.strings.length
  declarationCount := writer.declarations.length
  valueCount := writer.values.length
  treeCount := writer.trees.length
  itemCount := writer.items.length
  listEntryCount := writer.listEntries.length
  stringRecordBytes := writer.strings.length * 16
  declarationRecordBytes := writer.declarations.length * 32
  valueRecordBytes := writer.values.length * 16
  treeRecordBytes := writer.trees.length * 8
  itemRecordBytes := writer.items.length * 8
  listEntryBytes := writer.listEntries.length * 4
  stringBytes := writer.strings.flatten.length
  payloadHash := fnv1a64 writer.sections.flatten

theorem lengths_of_sections : writer.sections.map List.length =
    [writer.strings.length * 16, writer.declarations.length * 32, writer.values.length * 16, writer.trees.length * 8,
      writer.items.length * 8, writer.listEntries.length * 4, writer.strings.flatten.length] := by
  simp only [sections, List.map_cons, List.map_nil, length_stringRecordsFrom,
    length_flatMap_const length_appendDeclarationRecord, length_flatMap_const length_appendValueRecord,
    length_flatMap_const length_appendTreeRecord, length_flatMap_const length_appendItemRecord, length_wordsBytes,
    Nat.mul_comm 4]

theorem sized_header : (writer.header moduleName rootValue).Sized :=
  ⟨rfl, rfl, rfl, rfl, rfl, rfl⟩

theorem length_sections :
    writer.sections.flatten.length = (writer.header moduleName rootValue).bodySize := by
  rw [List.length_flatten, lengths_of_sections]
  rfl

theorem hexDigit_ne_zero : ∀ n < 16, hexDigit n ≠ 0 := by
  decide

theorem takeWhile_fnv1a64 (bytes : List UInt8) : (fnv1a64 bytes).takeWhile (· ≠ 0) = fnv1a64 bytes := by
  refine List.takeWhile_eq_self_iff.mpr fun byte member => ?_
  obtain ⟨k, -, rfl⟩ := List.mem_map.mp member
  exact decide_eq_true (hexDigit_ne_zero _ (Nat.mod_lt _ (by decide)))

theorem headerAt_bytes (fits : writer.Fits moduleName rootValue) :
    headerAt (writer.bytes moduleName rootValue) = writer.header moduleName rootValue := by
  have length : (writer.bytes moduleName rootValue).length = 116 + writer.sections.flatten.length := by
    rw [bytes_eq, List.length_append, length_head]
  have short := fits.short
  have sections : (writer.header moduleName rootValue).bodySize = writer.sections.flatten.length :=
    length_sections.symm
  rw [Header.bodySize_eq] at sections
  dsimp only [header] at sections
  -- First the words of 32 bits behind the magic, then the lengths behind them, then the hash.
  have counts : wordsAt (writer.bytes moduleName rootValue) 8 4 9 =
      [kVersion, moduleName, rootValue, writer.strings.length, writer.declarations.length,
        writer.values.length, writer.trees.length, writer.items.length, writer.listEntries.length] := by
    have small : ∀ word ∈ [kVersion, moduleName, rootValue, writer.strings.length, writer.declarations.length,
        writer.values.length, writer.trees.length, writer.items.length, writer.listEntries.length],
        word < 256 ^ 4 := by
      simp only [List.forall_mem_cons]
      exact ⟨by decide, fits.moduleNumber, fits.rootNumber, fits.strings, fits.declarations,
        fits.values, fits.trees,
        fits.items, fits.listEntries, List.forall_mem_nil _⟩
    unfold bytes
    rw [uint32_of_lt fits.strings, uint32_of_lt fits.declarations, uint32_of_lt fits.values,
      uint32_of_lt fits.trees,
      uint32_of_lt fits.items, uint32_of_lt fits.listEntries]
    exact wordsAt_append small rfl
  have lengths : wordsAt (writer.bytes moduleName rootValue) 44 8 7 = writer.sections.map List.length := by
    have small : ∀ word ∈ writer.sections.map List.length, word < 256 ^ 8 := by
      rw [lengths_of_sections]
      simp only [List.forall_mem_cons]
      exact ⟨by omega, by omega, by omega, by omega, by omega, by omega, by omega, List.forall_mem_nil _⟩
    unfold bytes
    rw [← List.append_assoc kMagic]
    exact wordsAt_append small rfl
  have hash : ((writer.bytes moduleName rootValue).drop 100).take 16 = fnv1a64 writer.sections.flatten := by
    have before : (kMagic ++ wordsBytes 4 [kVersion, moduleName, rootValue, uint32 writer.strings.length,
        uint32 writer.declarations.length, uint32 writer.values.length, uint32 writer.trees.length,
        uint32 writer.items.length, uint32 writer.listEntries.length] ++
        wordsBytes 8 (writer.sections.map List.length)).length = 100 := by
      rw [List.length_append, List.length_append, length_wordsBytes, length_wordsBytes]
      rfl
    unfold bytes
    rw [← List.append_assoc kMagic, ← List.append_assoc (kMagic ++ _), ← before, List.drop_left]
    exact List.take_left' (length_fnv1a64 _)
  rw [lengths_of_sections] at lengths
  obtain ⟨version, counts⟩ := List.cons.inj counts
  obtain ⟨moduleNumber, counts⟩ := List.cons.inj counts
  obtain ⟨rootNumber, counts⟩ := List.cons.inj counts
  obtain ⟨strings, counts⟩ := List.cons.inj counts
  obtain ⟨declarations, counts⟩ := List.cons.inj counts
  obtain ⟨values, counts⟩ := List.cons.inj counts
  obtain ⟨trees, counts⟩ := List.cons.inj counts
  obtain ⟨items, counts⟩ := List.cons.inj counts
  obtain ⟨listEntries, -⟩ := List.cons.inj counts
  obtain ⟨stringRecords, lengths⟩ := List.cons.inj lengths
  obtain ⟨declarationRecords, lengths⟩ := List.cons.inj lengths
  obtain ⟨valueRecords, lengths⟩ := List.cons.inj lengths
  obtain ⟨treeRecords, lengths⟩ := List.cons.inj lengths
  obtain ⟨itemRecords, lengths⟩ := List.cons.inj lengths
  obtain ⟨entryRecords, lengths⟩ := List.cons.inj lengths
  obtain ⟨stringBytes, -⟩ := List.cons.inj lengths
  refine Header.mk.injEq .. |>.mpr ⟨version, moduleNumber, rootNumber, strings, declarations,
    values, trees, items,
    listEntries, stringRecords, declarationRecords, valueRecords, treeRecords, itemRecords, entryRecords, stringBytes,
    ?_⟩
  rw [hash, takeWhile_fnv1a64]

theorem drop_bytes : (writer.bytes moduleName rootValue).drop 116 = writer.sections.flatten := by
  have front : (writer.head moduleName rootValue).length = 116 := length_head
  rw [bytes_eq, ← front, List.drop_left]

theorem length_bytes : (writer.bytes moduleName rootValue).length =
    116 + (writer.header moduleName rootValue).bodySize := by
  rw [bytes_eq, List.length_append, length_head, length_sections]

theorem bytes_split : writer.bytes moduleName rootValue =
    writer.head moduleName rootValue ++ (stringRecordsFrom 0 writer.strings ++
      (writer.declarations.flatMap appendDeclarationRecord ++ (writer.values.flatMap appendValueRecord ++
        (writer.trees.flatMap appendTreeRecord ++ (writer.items.flatMap appendItemRecord ++
          (wordsBytes 4 writer.listEntries ++ (writer.strings.flatten ++ []))))))) := by
  rw [bytes_eq]
  rfl

structure Found (writer : Writer) (moduleName rootValue : Nat) : Prop where
  strings : (tablesAt (writer.bytes moduleName rootValue)).view.strings = recordsOf 0 writer.strings
  declarations : (tablesAt (writer.bytes moduleName rootValue)).view.declarations = writer.declarations
  values : (tablesAt (writer.bytes moduleName rootValue)).view.values = writer.values
  trees : (tablesAt (writer.bytes moduleName rootValue)).view.trees = writer.trees
  items : (tablesAt (writer.bytes moduleName rootValue)).view.items = writer.items
  listEntries : Screening.inRow (listEntryAt (writer.bytes moduleName rootValue)) 4 writer.listEntries.length
    (writer.header moduleName rootValue).listEntriesPlace = writer.listEntries
  stringBytes : (writer.bytes moduleName rootValue).drop (writer.header moduleName rootValue).stringBytesPlace =
    writer.strings.flatten

theorem found_of_fits (fits : writer.Fits moduleName rootValue) : writer.Found moduleName rootValue := by
  have header := headerAt_bytes fits
  have split : writer.bytes moduleName rootValue = _ := bytes_split
  have short := fits.short
  have front : (writer.head moduleName rootValue).length = 116 := length_head
  generalize headed : writer.head moduleName rootValue = head at split front
  have lengths : ∀ {α : Type} {write : α → List UInt8} {width : Nat} (equal : ∀ a, (write a).length = width)
      (values : List α), (values.flatMap write).length = width * values.length := fun equal values => by
    rw [length_flatMap_const equal, Nat.mul_comm]
  -- Each section begins where the sections in front of it end.
  have declarationsPlace : (writer.header moduleName rootValue).declarationsPlace =
      (head ++ stringRecordsFrom 0 writer.strings).length := by
    rw [List.length_append, front, length_stringRecordsFrom, Nat.mul_comm]
    rfl
  have valuesPlace : (writer.header moduleName rootValue).valuesPlace =
      (head ++ stringRecordsFrom 0 writer.strings ++
        writer.declarations.flatMap appendDeclarationRecord).length := by
    rw [List.length_append, ← declarationsPlace, lengths length_appendDeclarationRecord]
    rfl
  have treesPlace : (writer.header moduleName rootValue).treesPlace =
      (head ++ stringRecordsFrom 0 writer.strings ++ writer.declarations.flatMap appendDeclarationRecord ++
        writer.values.flatMap appendValueRecord).length := by
    rw [List.length_append, ← valuesPlace, lengths length_appendValueRecord]
    rfl
  have itemsPlace : (writer.header moduleName rootValue).itemsPlace =
      (head ++ stringRecordsFrom 0 writer.strings ++ writer.declarations.flatMap appendDeclarationRecord ++
        writer.values.flatMap appendValueRecord ++ writer.trees.flatMap appendTreeRecord).length := by
    rw [List.length_append, ← treesPlace, lengths length_appendTreeRecord]
    rfl
  have listEntriesPlace : (writer.header moduleName rootValue).listEntriesPlace =
      (head ++ stringRecordsFrom 0 writer.strings ++ writer.declarations.flatMap appendDeclarationRecord ++
        writer.values.flatMap appendValueRecord ++ writer.trees.flatMap appendTreeRecord ++
        writer.items.flatMap appendItemRecord).length := by
    rw [List.length_append, ← itemsPlace, lengths length_appendItemRecord]
    rfl
  have stringBytesPlace : (writer.header moduleName rootValue).stringBytesPlace =
      (head ++ stringRecordsFrom 0 writer.strings ++ writer.declarations.flatMap appendDeclarationRecord ++
        writer.values.flatMap appendValueRecord ++ writer.trees.flatMap appendTreeRecord ++
        writer.items.flatMap appendItemRecord ++ wordsBytes 4 writer.listEntries).length := by
    rw [List.length_append, ← listEntriesPlace, length_wordsBytes]
    rfl
  constructor
  case strings =>
    show Screening.inRow (stringRecordAt (writer.bytes moduleName rootValue)) 16
      (headerAt (writer.bytes moduleName rootValue)).stringCount 116 = _
    rw [header, split, ← front]
    refine inRow_stringRecords ?_ head _
    rw [length_bytes, Header.bodySize_eq] at short
    show 0 + (writer.header moduleName rootValue).stringBytes < 2 ^ 64
    omega
  case declarations =>
    show Screening.inRow (declarationAt (writer.bytes moduleName rootValue)) 32
      (headerAt (writer.bytes moduleName rootValue)).declarationCount
      (headerAt (writer.bytes moduleName rootValue)).declarationsPlace = _
    rw [header, split, ← List.append_assoc, declarationsPlace]
    exact inRow_append length_appendDeclarationRecord declarationAt_append fits.declarationRecords _ _
  case values =>
    show Screening.inRow (valueAt (writer.bytes moduleName rootValue)) 16
      (headerAt (writer.bytes moduleName rootValue)).valueCount
      (headerAt (writer.bytes moduleName rootValue)).valuesPlace = _
    rw [header, split, ← List.append_assoc, ← List.append_assoc, valuesPlace]
    exact inRow_append length_appendValueRecord valueAt_append fits.valueRecords _ _
  case trees =>
    show Screening.inRow (treeAt (writer.bytes moduleName rootValue)) 8
      (headerAt (writer.bytes moduleName rootValue)).treeCount
      (headerAt (writer.bytes moduleName rootValue)).treesPlace = _
    rw [header, split, ← List.append_assoc, ← List.append_assoc, ← List.append_assoc, treesPlace]
    exact inRow_append length_appendTreeRecord treeAt_append fits.treeRecords _ _
  case items =>
    show Screening.inRow (itemRecordAt (writer.bytes moduleName rootValue)) 8
      (headerAt (writer.bytes moduleName rootValue)).itemCount
      (headerAt (writer.bytes moduleName rootValue)).itemsPlace = _
    rw [header, split, ← List.append_assoc, ← List.append_assoc, ← List.append_assoc, ← List.append_assoc,
      itemsPlace]
    exact inRow_append length_appendItemRecord itemRecordAt_append fits.itemRecords _ _
  case listEntries =>
    rw [split, ← List.append_assoc, ← List.append_assoc, ← List.append_assoc, ← List.append_assoc,
      ← List.append_assoc, listEntriesPlace]
    exact inRow_append (fun entry => length_wordBytes 4 entry) listEntryAt_append fits.entries _ _
  case stringBytes =>
    rw [split, ← List.append_assoc, ← List.append_assoc, ← List.append_assoc, ← List.append_assoc,
      ← List.append_assoc, ← List.append_assoc, stringBytesPlace, List.drop_left, List.append_nil]

end Writer

end AgentC.StaticImage

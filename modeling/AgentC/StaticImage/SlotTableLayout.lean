import AgentC.StaticImage.SlotTable

/-! Where the tables of an image lie in the bytes of its file, and which files are read so far as to have them. -/

namespace AgentC.StaticImage

variable {text : List UInt8}

section Header

/-- The header that stands in a file. -/
def headerAt (text : List UInt8) : Header where
  version := wordAt text 8 4
  moduleName := wordAt text 12 4
  rootValue := wordAt text 16 4
  stringCount := wordAt text 20 4
  declarationCount := wordAt text 24 4
  valueCount := wordAt text 28 4
  treeCount := wordAt text 32 4
  itemCount := wordAt text 36 4
  listEntryCount := wordAt text 40 4
  stringRecordBytes := wordAt text 44 8
  declarationRecordBytes := wordAt text 52 8
  valueRecordBytes := wordAt text 60 8
  treeRecordBytes := wordAt text 68 8
  itemRecordBytes := wordAt text 76 8
  listEntryBytes := wordAt text 84 8
  stringBytes := wordAt text 92 8
  payloadHash := ((text.drop 100).take 16).takeWhile (· ≠ 0)

structure Headed (text : List UInt8) : Prop where
  long : 116 ≤ text.length
  magic : text.take 8 = kMagic
  version : (headerAt text).version = kVersion

theorem readHeader_decides (short : text.length < 2 ^ 63) :
    (readHeader text).Decides (Headed text) (headerAt text, 116) := by
  have short' : text.length < 2 ^ 64 := by omega
  apply Screening.Decides.congr
  · unfold readHeader
    apply (Screening.Decides.require _ _).bind
    intro _
    iterate 16
      apply Screening.Decides.word_bind short'
      · omega
      intro _
    dsimp only
    rw [Decoding.sizeT_of_lt (by omega), Screening.lift_pure, Screening.pure_bind]
    apply (Screening.Decides.require _ _).bind
    intro long
    rw [Decoding.copy_of_le long, Screening.lift_pure, Screening.pure_bind]
    apply (Screening.Decides.require _ _).bind
    intro _
    exact Screening.Decides.given (headerAt text, 116)
  · constructor
    · rintro ⟨⟨_, magic⟩, _, _, _, _, _, _, _, _, _, _, _, _, _, _, _, _, long, version, _⟩
      exact ⟨long, magic, version⟩
    · rintro ⟨long, magic, version⟩
      have inside : ∀ n, n ≤ 116 → n ≤ text.length := fun n short => short.trans long
      exact ⟨⟨inside 8 (by omega), magic⟩, inside _ (by omega), inside _ (by omega), inside _ (by omega),
        inside _ (by omega), inside _ (by omega), inside _ (by omega), inside _ (by omega),
        inside _ (by omega), inside _ (by omega), inside _ (by omega), inside _ (by omega),
        inside _ (by omega), inside _ (by omega), inside _ (by omega), inside _ (by omega),
        inside _ (by omega), long, version, trivial⟩

end Header

section Lengths

theorem sumSizes_of_lt {total : Nat} {sizes : List Nat} (fits : total + sizes.sum < 2 ^ 64) :
    sumSizes total sizes = pure (total + sizes.sum) := by
  induction sizes generalizing total with
  | nil => rfl
  | cons size sizes ih =>
    rw [List.sum_cons] at fits ⊢
    rw [sumSizes, Decoding.sizeT_of_lt (by omega), Decoding.pure_bind, ih (by omega), Nat.add_assoc]

theorem lt_of_harmless_sumSizes {total : Nat} {sizes : List Nat} (start : total < 2 ^ 64)
    (harmless : (sumSizes total sizes).Harmless) : total + sizes.sum < 2 ^ 64 := by
  induction sizes generalizing total with
  | nil => exact start
  | cons size sizes ih =>
    obtain ⟨own, others⟩ := Decoding.harmless_bind.mp harmless
    have next : total + size < 2 ^ 64 := (Decoding.harmless_sizeT _).mp own
    have rest := ih next (others _ (by rw [Decoding.sizeT_of_lt next, Decoding.value_pure]))
    rw [List.sum_cons]
    omega

theorem checkSection_decides {count width bytes : Nat} (fits : count * width < 2 ^ 64) :
    (checkSection count width bytes).Decides (bytes = count * width) () := by
  unfold checkSection
  rw [Decoding.sizeT_of_lt fits, Screening.lift_pure, Screening.pure_bind]
  exact Screening.Decides.require _ _

namespace Header

variable {header : Header} {cursor size : Nat}

/-- The counts are words of 32 bits. -/
structure Counted (header : Header) : Prop where
  strings : header.stringCount < 2 ^ 32
  declarations : header.declarationCount < 2 ^ 32
  values : header.valueCount < 2 ^ 32
  trees : header.treeCount < 2 ^ 32
  items : header.itemCount < 2 ^ 32
  listEntries : header.listEntryCount < 2 ^ 32

/-- The sections of records are as long as the counts say. -/
structure Sized (header : Header) : Prop where
  strings : header.stringRecordBytes = header.stringCount * 16
  declarations : header.declarationRecordBytes = header.declarationCount * 32
  values : header.valueRecordBytes = header.valueCount * 16
  trees : header.treeRecordBytes = header.treeCount * 8
  items : header.itemRecordBytes = header.itemCount * 8
  listEntries : header.listEntryBytes = header.listEntryCount * 4

def bodySize (header : Header) : Nat :=
  (header.sectionLengths.map Prod.snd).sum

theorem bodySize_eq : header.bodySize =
    header.stringRecordBytes + header.declarationRecordBytes + header.valueRecordBytes + header.treeRecordBytes +
      header.itemRecordBytes + header.listEntryBytes + header.stringBytes := by
  simp only [bodySize, sectionLengths, List.map_cons, List.map_nil, List.sum_cons, List.sum_nil]
  omega

theorem checkLengths_decides (counted : header.Counted)
    (fits : header.Sized → cursor + header.bodySize < 2 ^ 64) :
    (header.checkLengths cursor size).Decides (header.Sized ∧ cursor + header.bodySize = size) () := by
  obtain ⟨strings, declarations, values, trees, items, listEntries⟩ := counted
  apply Screening.Decides.congr
  · unfold checkLengths
    apply (checkSection_decides (by omega)).bind
    intro ownStrings
    apply (checkSection_decides (by omega)).bind
    intro ownDeclarations
    apply (checkSection_decides (by omega)).bind
    intro ownValues
    apply (checkSection_decides (by omega)).bind
    intro ownTrees
    apply (checkSection_decides (by omega)).bind
    intro ownItems
    apply (checkSection_decides (by omega)).bind
    intro ownListEntries
    -- All records have their lengths here, so that the sum is one that the word holds.
    have sized : header.Sized := ⟨ownStrings, ownDeclarations, ownValues, ownTrees, ownItems, ownListEntries⟩
    rw [sumSizes_of_lt (fits sized), Screening.lift_pure, Screening.pure_bind]
    exact Screening.Decides.require _ _
  · constructor
    · rintro ⟨ownStrings, ownDeclarations, ownValues, ownTrees, ownItems, ownListEntries, whole⟩
      exact ⟨⟨ownStrings, ownDeclarations, ownValues, ownTrees, ownItems, ownListEntries⟩, whole⟩
    · rintro ⟨⟨ownStrings, ownDeclarations, ownValues, ownTrees, ownItems, ownListEntries⟩, whole⟩
      exact ⟨ownStrings, ownDeclarations, ownValues, ownTrees, ownItems, ownListEntries, whole⟩

theorem lt_of_harmless_checkLengths (counted : header.Counted) (sized : header.Sized)
    (start : cursor < 2 ^ 64)
    (harmless : (header.checkLengths cursor size).Harmless) : cursor + header.bodySize < 2 ^ 64 := by
  obtain ⟨strings, declarations, values, trees, items, listEntries⟩ := counted
  unfold checkLengths at harmless
  rw [(checkSection_decides (by omega)).passes sized.strings, Screening.pure_bind,
    (checkSection_decides (by omega)).passes sized.declarations, Screening.pure_bind,
    (checkSection_decides (by omega)).passes sized.values, Screening.pure_bind,
    (checkSection_decides (by omega)).passes sized.trees, Screening.pure_bind,
    (checkSection_decides (by omega)).passes sized.items, Screening.pure_bind,
    (checkSection_decides (by omega)).passes sized.listEntries, Screening.pure_bind] at harmless
  have sums := (Screening.harmless_bind.mp harmless).1
  exact lt_of_harmless_sumSizes start (Screening.harmless_lift.mp sums)

end Header

theorem counted_headerAt (text : List UInt8) : (headerAt text).Counted :=
  ⟨wordAt_lt, wordAt_lt, wordAt_lt, wordAt_lt, wordAt_lt, wordAt_lt⟩

/-- The sections that stand one behind the other from an offset on. -/
def sectionsAt (text : List UInt8) : Nat → List (List UInt8 × Nat) → List StaticSlotTableSectionDescriptor
  | _, [] => []
  | sectionOffset, (sectionId, byteSize) :: rest =>
    ⟨sectionId, sectionOffset, byteSize, fnv1a64 ((text.drop sectionOffset).take byteSize)⟩ ::
      sectionsAt text (sectionOffset + byteSize) rest

theorem addSections_of_le {offset : Nat} {sections : List (List UInt8 × Nat)} (short : text.length < 2 ^ 63)
    (inside : offset + (sections.map Prod.snd).sum ≤ text.length) :
    addSections text offset sections = pure (sectionsAt text offset sections) := by
  induction sections generalizing offset with
  | nil => rfl
  | cons head rest ih =>
    obtain ⟨sectionId, byteSize⟩ := head
    rw [List.map_cons, List.sum_cons] at inside
    dsimp only at inside
    rw [addSections, Decoding.copy_of_le (by omega), Decoding.pure_bind, Decoding.sizeT_of_lt (by omega),
      Decoding.pure_bind, ih (by omega)]
    rfl

end Lengths

section Records

variable {header : Header} {cursor : Nat}

/-- The string lies in the bytes of the strings. -/
def StringRecord.Good (header : Header) (record : StringRecord) : Prop :=
  record.offset ≤ header.stringBytes ∧ record.length ≤ header.stringBytes ∧
    record.offset + record.length ≤ header.stringBytes

/-- The numbers of all strings that a record holds. -/
def StaticSlotTableDeclaration.stringIds (declaration : StaticSlotTableDeclaration) : List Nat :=
  [declaration.word, declaration.nativeSymbol, declaration.stackSignature, declaration.category,
    declaration.binding, declaration.storesNativeHandle, declaration.workerAllowed, declaration.notes]

def StaticSlotTableDeclaration.Good (header : Header) (declaration : StaticSlotTableDeclaration) : Prop :=
  ∀ id ∈ declaration.stringIds, id < header.stringCount

/-- What a value of a kind refers to is there. -/
def StaticSlotTableValueRecord.Good (header : Header) (value : StaticSlotTableValueRecord) : Prop :=
  match value.kind with
  | .String => value.stringId < header.stringCount
  | .Object => value.first < header.treeCount ∧ value.count = 1
  | .List => value.first ≤ header.listEntryCount ∧ value.count ≤ header.listEntryCount ∧
      sum32 value.first value.count ≤ header.listEntryCount
  | .Invalid => False

def StaticSlotTableTreeRecord.Good (header : Header) (tree : StaticSlotTableTreeRecord) : Prop :=
  tree.firstItem ≤ header.itemCount ∧ tree.itemCount ≤ header.itemCount ∧
    sum32 tree.firstItem tree.itemCount ≤ header.itemCount

def StaticSlotTableItemRecord.Good (header : Header) (item : StaticSlotTableItemRecord) : Prop :=
  item.name < header.stringCount ∧ item.value < header.valueCount

def ListEntryGood (header : Header) (entry : Nat) : Prop :=
  entry < header.valueCount

def stringRecordAt (text : List UInt8) (cursor : Nat) : StringRecord :=
  ⟨wordAt text cursor 8, wordAt text (cursor + 8) 8⟩

def declarationAt (text : List UInt8) (cursor : Nat) : StaticSlotTableDeclaration where
  word := wordAt text cursor 4
  nativeSymbol := wordAt text (cursor + 4) 4
  stackSignature := wordAt text (cursor + 8) 4
  category := wordAt text (cursor + 12) 4
  binding := wordAt text (cursor + 16) 4
  storesNativeHandle := wordAt text (cursor + 20) 4
  workerAllowed := wordAt text (cursor + 24) 4
  notes := wordAt text (cursor + 28) 4

def valueAt (text : List UInt8) (cursor : Nat) : StaticSlotTableValueRecord :=
  ⟨.ofWord (wordAt text cursor 4), wordAt text (cursor + 4) 4, wordAt text (cursor + 8) 4,
    wordAt text (cursor + 12) 4⟩

def treeAt (text : List UInt8) (cursor : Nat) : StaticSlotTableTreeRecord :=
  ⟨wordAt text cursor 4, wordAt text (cursor + 4) 4⟩

def itemRecordAt (text : List UInt8) (cursor : Nat) : StaticSlotTableItemRecord :=
  ⟨wordAt text cursor 4, wordAt text (cursor + 4) 4⟩

def listEntryAt (text : List UInt8) (cursor : Nat) : Nat :=
  wordAt text cursor 4

theorem readStringRecord_decides (short : text.length < 2 ^ 63) (known : header.stringBytes < 2 ^ 63)
    (inside : cursor + 16 ≤ text.length) :
    (readStringRecord header text cursor).Decides ((stringRecordAt text cursor).Good header)
      (stringRecordAt text cursor, cursor + 16) := by
  apply Screening.Decides.congr
  · unfold readStringRecord
    rw [Screening.readWord_of_le (by omega) (by omega), Screening.pure_bind]
    dsimp only
    rw [Screening.readWord_of_le (by omega) (by omega), Screening.pure_bind]
    dsimp only
    apply (Screening.Decides.require _ _).bind
    intro small
    rw [Decoding.sizeT_of_lt (by omega), Screening.lift_pure, Screening.pure_bind]
    apply (Screening.Decides.require _ _).bind
    intro _
    exact Screening.Decides.given (stringRecordAt text cursor, cursor + 16)
  · rw [and_true, and_assoc]
    rfl

theorem readDeclarationRecord_decides (short : text.length < 2 ^ 63) (inside : cursor + 32 ≤ text.length) :
    (readDeclarationRecord header text cursor).Decides ((declarationAt text cursor).Good header)
      (declarationAt text cursor, cursor + 32) := by
  have short' : text.length < 2 ^ 64 := by omega
  apply Screening.Decides.congr
  · unfold readDeclarationRecord
    iterate 8
      rw [Screening.readWord_of_le (by omega) short', Screening.pure_bind]
      dsimp only
    apply (Screening.Decides.require _ _).bind
    intro _
    exact Screening.Decides.given (declarationAt text cursor, cursor + 32)
  · exact iff_of_eq (and_true _)

theorem checkValue_decides (header : Header) (value : StaticSlotTableValueRecord) :
    (checkValue header value).Decides (value.Good header) () := by
  unfold checkValue StaticSlotTableValueRecord.Good
  cases value.kind with
  | String => exact Screening.Decides.require _ _
  | Object => exact Screening.Decides.require _ _
  | List => exact Screening.Decides.require _ _
  | Invalid => exact Screening.Decides.thrown _ _

theorem readValueRecord_decides (short : text.length < 2 ^ 63) (inside : cursor + 16 ≤ text.length) :
    (readValueRecord header text cursor).Decides ((valueAt text cursor).Good header)
      (valueAt text cursor, cursor + 16) := by
  have short' : text.length < 2 ^ 64 := by omega
  apply Screening.Decides.congr
  · unfold readValueRecord
    iterate 4
      rw [Screening.readWord_of_le (by omega) short', Screening.pure_bind]
      dsimp only
    apply (checkValue_decides header (valueAt text cursor)).bind
    intro _
    exact Screening.Decides.given (valueAt text cursor, cursor + 16)
  · exact iff_of_eq (and_true _)

theorem readTreeRecord_decides (short : text.length < 2 ^ 63) (inside : cursor + 8 ≤ text.length) :
    (readTreeRecord header text cursor).Decides ((treeAt text cursor).Good header)
      (treeAt text cursor, cursor + 8) := by
  have short' : text.length < 2 ^ 64 := by omega
  apply Screening.Decides.congr
  · unfold readTreeRecord
    iterate 2
      rw [Screening.readWord_of_le (by omega) short', Screening.pure_bind]
      dsimp only
    apply (Screening.Decides.require _ _).bind
    intro _
    exact Screening.Decides.given (treeAt text cursor, cursor + 8)
  · exact iff_of_eq (and_true _)

theorem readItemRecord_decides (short : text.length < 2 ^ 63) (inside : cursor + 8 ≤ text.length) :
    (readItemRecord header text cursor).Decides ((itemRecordAt text cursor).Good header)
      (itemRecordAt text cursor, cursor + 8) := by
  have short' : text.length < 2 ^ 64 := by omega
  apply Screening.Decides.congr
  · unfold readItemRecord
    iterate 2
      rw [Screening.readWord_of_le (by omega) short', Screening.pure_bind]
      dsimp only
    apply (Screening.Decides.require _ _).bind
    intro _
    exact Screening.Decides.given (itemRecordAt text cursor, cursor + 8)
  · exact iff_of_eq (and_true _)

theorem readListEntry_decides (short : text.length < 2 ^ 63) (inside : cursor + 4 ≤ text.length) :
    (readListEntry header text cursor).Decides (ListEntryGood header (listEntryAt text cursor))
      (listEntryAt text cursor, cursor + 4) := by
  apply Screening.Decides.congr
  · unfold readListEntry
    rw [Screening.readWord_of_le (by omega) (by omega), Screening.pure_bind]
    dsimp only
    apply (Screening.Decides.require _ _).bind
    intro _
    exact Screening.Decides.given (listEntryAt text cursor, cursor + 4)
  · exact iff_of_eq (and_true _)

end Records

section Tables

namespace Header

variable (header : Header)

def declarationsPlace : Nat :=
  116 + 16 * header.stringCount

def valuesPlace : Nat :=
  header.declarationsPlace + 32 * header.declarationCount

def treesPlace : Nat :=
  header.valuesPlace + 16 * header.valueCount

def itemsPlace : Nat :=
  header.treesPlace + 8 * header.treeCount

def listEntriesPlace : Nat :=
  header.itemsPlace + 8 * header.itemCount

def stringBytesPlace : Nat :=
  header.listEntriesPlace + 4 * header.listEntryCount

variable {header}

theorem stringBytesPlace_add (sized : header.Sized) :
    header.stringBytesPlace + header.stringBytes = 116 + header.bodySize := by
  obtain ⟨strings, declarations, values, trees, items, listEntries⟩ := sized
  rw [bodySize_eq, strings, declarations, values, trees, items, listEntries, stringBytesPlace,
    listEntriesPlace,
    itemsPlace, treesPlace, valuesPlace, declarationsPlace]
  omega

theorem places_le (header : Header) :
    header.declarationsPlace ≤ header.valuesPlace ∧ header.valuesPlace ≤ header.treesPlace ∧
      header.treesPlace ≤ header.itemsPlace ∧ header.itemsPlace ≤ header.listEntriesPlace ∧
      header.listEntriesPlace ≤ header.stringBytesPlace := by
  unfold stringBytesPlace listEntriesPlace itemsPlace treesPlace valuesPlace
  omega

end Header

/-- The tables that stand in a file, up to the items. -/
def tablesAt (text : List UInt8) : Tables where
  header := headerAt text
  view :=
    { region := text
      strings := Screening.inRow (stringRecordAt text) 16 (headerAt text).stringCount 116
      declarations :=
        Screening.inRow (declarationAt text) 32 (headerAt text).declarationCount (headerAt text).declarationsPlace
      values := Screening.inRow (valueAt text) 16 (headerAt text).valueCount (headerAt text).valuesPlace
      trees := Screening.inRow (treeAt text) 8 (headerAt text).treeCount (headerAt text).treesPlace
      items := Screening.inRow (itemRecordAt text) 8 (headerAt text).itemCount (headerAt text).itemsPlace
      sections := sectionsAt text 116 (headerAt text).sectionLengths }
  cursor := (headerAt text).listEntriesPlace

/-- The file begins like an image, and its sections of records are as long as its counts say. -/
structure Framed (text : List UInt8) : Prop extends Headed text where
  sized : (headerAt text).Sized

def LengthsFit (text : List UInt8) : Prop :=
  Framed text → 116 + (headerAt text).bodySize < 2 ^ 64

/-- The file is an image as far as the tables up to the items go. -/
structure Readable (text : List UInt8) : Prop extends Framed text where
  whole : 116 + (headerAt text).bodySize = text.length
  hash : fnv1a64 (text.drop 116) = (headerAt text).payloadHash
  strings : ∀ record ∈ (tablesAt text).view.strings, record.Good (headerAt text)
  declarations : ∀ declaration ∈ (tablesAt text).view.declarations, declaration.Good (headerAt text)
  values : ∀ value ∈ (tablesAt text).view.values, value.Good (headerAt text)
  trees : ∀ tree ∈ (tablesAt text).view.trees, tree.Good (headerAt text)
  items : ∀ item ∈ (tablesAt text).view.items, item.Good (headerAt text)

theorem readTables_decides (short : text.length < 2 ^ 63) (fits : LengthsFit text) :
    (readTables text).Decides (Readable text) (tablesAt text) := by
  apply Screening.Decides.congr
  · unfold readTables
    apply (readHeader_decides short).bind
    intro headed
    apply ((headerAt text).checkLengths_decides (counted_headerAt text) fun sized => fits ⟨headed, sized⟩).bind
    rintro ⟨sized, whole⟩
    -- The sections are the rest of the file from here on, and everything in them is inside.
    have ends := Header.stringBytesPlace_add sized
    obtain ⟨values, trees, items, listEntries, strings⟩ := (headerAt text).places_le
    rw [sumSizes_of_lt (by show 0 + (headerAt text).bodySize < 2 ^ 64; omega), Screening.lift_pure,
      Screening.pure_bind, Decoding.copy_of_le (by show 116 + (0 + (headerAt text).bodySize) ≤ text.length; omega),
      Screening.lift_pure, Screening.pure_bind]
    apply (Screening.Decides.require _ _).bind
    intro _
    rw [addSections_of_le short (by show 116 + (headerAt text).bodySize ≤ text.length; omega),
      Screening.lift_pure, Screening.pure_bind]
    have declarationsIn : (headerAt text).declarationsPlace ≤ text.length := by omega
    have valuesIn : (headerAt text).valuesPlace ≤ text.length := by omega
    have treesIn : (headerAt text).treesPlace ≤ text.length := by omega
    have itemsIn : (headerAt text).itemsPlace ≤ text.length := by omega
    have listEntriesIn : (headerAt text).listEntriesPlace ≤ text.length := by omega
    have known : (headerAt text).stringBytes < 2 ^ 63 := by omega
    apply (Screening.Decides.many (fun _ => readStringRecord_decides short known) _ declarationsIn).bind
    intro _
    apply (Screening.Decides.many (fun _ => readDeclarationRecord_decides short) _ valuesIn).bind
    intro _
    apply (Screening.Decides.many (fun _ => readValueRecord_decides short) _ treesIn).bind
    intro _
    apply (Screening.Decides.many (fun _ => readTreeRecord_decides short) _ itemsIn).bind
    intro _
    apply (Screening.Decides.many (fun _ => readItemRecord_decides short) _ listEntriesIn).bind
    intro _
    exact Screening.Decides.given (tablesAt text)
  · have body : 116 + (headerAt text).bodySize = text.length →
        (text.drop 116).take (0 + (headerAt text).bodySize) = text.drop 116 := by
      intro whole
      refine List.take_of_length_le ?_
      rw [List.length_drop]
      omega
    constructor
    · rintro ⟨headed, ⟨sized, whole⟩, hash, strings, declarations, values, trees, items, _⟩
      have hash' : fnv1a64 (text.drop 116) = (headerAt text).payloadHash := by
        rw [← body whole]
        exact hash
      exact ⟨⟨headed, sized⟩, whole, hash', strings, declarations, values, trees, items⟩
    · rintro ⟨⟨headed, sized⟩, whole, hash, strings, declarations, values, trees, items⟩
      rw [← body whole] at hash
      exact ⟨headed, ⟨sized, whole⟩, hash, strings, declarations, values, trees, items, trivial⟩

end Tables

end AgentC.StaticImage

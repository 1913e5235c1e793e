import AgentC.StaticImage.SlotTableLaws

/-! Which files are opened, and for which of them opening and looking at an image stays inside the file. -/

namespace AgentC.StaticImage

variable {text : List UInt8}

section Finishing

/-- The image of a file before its declarations are looked at. -/
def viewAt (text : List UInt8) : StaticSlotTableView :=
  { (tablesAt text).view with
    listEntries := Screening.inRow (listEntryAt text) 4 (headerAt text).listEntryCount (headerAt text).listEntriesPlace
    stringBytes := some ((headerAt text).stringBytesPlace, (headerAt text).stringBytes)
    moduleName := (headerAt text).moduleName
    rootValueId := (headerAt text).rootValue
    payloadHash := (headerAt text).payloadHash }

def wordsOf (view : StaticSlotTableView) : List (List UInt8) :=
  view.declarations.map fun declaration => view.stringOf declaration.word

/-- The image of a file. -/
def imageAt (text : List UInt8) : StaticSlotTableView :=
  { viewAt text with
    declarationValueIds := (List.range (headerAt text).declarationCount).map
      ((viewAt text).listEntryOf (headerAt text).rootValue)
    declarationWordIndex := (sortWords (wordsOf (viewAt text))).map Prod.snd }

@[simp] theorem values_imageAt (text : List UInt8) : (imageAt text).values = (viewAt text).values := rfl

@[simp] theorem trees_imageAt (text : List UInt8) : (imageAt text).trees = (viewAt text).trees := rfl

@[simp] theorem items_imageAt (text : List UInt8) : (imageAt text).items = (viewAt text).items := rfl

@[simp] theorem declarations_imageAt (text : List UInt8) :
    (imageAt text).declarations = (viewAt text).declarations := rfl

@[simp] theorem stringOf_imageAt (text : List UInt8) : (imageAt text).stringOf = (viewAt text).stringOf := rfl

def IsObject (view : StaticSlotTableView) (header : Header) (objectId : Nat) : Prop :=
  objectId < header.valueCount ∧ view.valueKind objectId = .Object

/-- The file is an image behind the items, too. -/
structure Finished (text : List UInt8) : Prop where
  listEntries : ∀ entry ∈ (viewAt text).listEntries, ListEntryGood (headerAt text) entry
  root : (headerAt text).rootValue < (headerAt text).valueCount ∧
    (viewAt text).valueKind (headerAt text).rootValue = .List
  count : (viewAt text).listValueCount (headerAt text).rootValue = (headerAt text).declarationCount
  objects : ∀ i < (headerAt text).declarationCount,
    IsObject (viewAt text) (headerAt text) ((viewAt text).listEntryOf (headerAt text).rootValue i)
  moduleName : (headerAt text).moduleName < (headerAt text).stringCount
  handles : ∀ declaration ∈ (viewAt text).declarations,
    (viewAt text).stringOf declaration.storesNativeHandle = ascii "false"
  distinct : ((sortWords (wordsOf (viewAt text))).map Prod.fst).IsChain (· ≠ ·)

def TreesFit (text : List UInt8) : Prop :=
  Readable text → ∀ tree ∈ (tablesAt text).view.trees, tree.Fits

theorem forall_mem_inRow {α : Type} {standing : Nat → α} {good : α → Prop}
    (all : ∀ cursor, good (standing cursor))
    {width count cursor : Nat} : ∀ a ∈ Screening.inRow standing width count cursor, good a := by
  induction count generalizing cursor with
  | zero => exact List.forall_mem_nil _
  | succ count ih => exact List.forall_mem_cons.mpr ⟨all cursor, ih⟩

theorem sound_viewAt (short : text.length < 2 ^ 63) (readable : Readable text) : (viewAt text).Sound where
  short := short
  strings := by
    rintro start size known
    cases known
    show (headerAt text).stringBytesPlace + (headerAt text).stringBytes ≤ text.length
    rw [Header.stringBytesPlace_add readable.sized, readable.whole]
  values := forall_mem_inRow fun cursor => ⟨wordAt_lt, wordAt_lt⟩
  trees := forall_mem_inRow fun cursor => ⟨wordAt_lt, wordAt_lt⟩

theorem sound_imageAt (short : text.length < 2 ^ 63) (readable : Readable text) : (imageAt text).Sound :=
  ⟨(sound_viewAt short readable).short, (sound_viewAt short readable).strings,
    (sound_viewAt short readable).values, (sound_viewAt short readable).trees⟩

theorem readRoot_decides {view : StaticSlotTableView} (sound : view.Sound) (header : Header)
    (left i : Nat) :
    (readRoot view header left i).Decides
      (∀ k < left, IsObject view header (view.listEntryOf view.rootValueId (i + k)))
      ((List.range left).map fun k => view.listEntryOf view.rootValueId (i + k)) := by
  -- The induction is on the number of objects that are left.
  induction left generalizing i with
  | zero =>
    refine (Screening.Decides.given _).congr (iff_of_true trivial fun k inside => ?_)
    exact absurd inside (Nat.not_lt_zero k)
  | succ left ih =>
    apply Screening.Decides.congr
    · unfold readRoot
      rw [StaticSlotTableView.listValueAt_eq sound, Screening.lift_pure, Screening.pure_bind]
      apply (Screening.Decides.require _ _).bind
      intro _
      apply (ih (i + 1)).bind
      intro _
      have row : (List.range (left + 1)).map (fun k => view.listEntryOf view.rootValueId (i + k)) =
          view.listEntryOf view.rootValueId i ::
            (List.range left).map fun k => view.listEntryOf view.rootValueId (i + 1 + k) := by
        rw [List.range_succ_eq_map, List.map_cons, List.map_map]
        refine congrArg (_ :: ·) (List.map_congr_left fun k _ => ?_)
        show view.listEntryOf view.rootValueId (i + (k + 1)) = _
        rw [Nat.add_right_comm, Nat.add_assoc]
      rw [row]
      exact Screening.Decides.given _
    · rw [and_true]
      constructor
      · rintro ⟨own, others⟩ k inside
        cases k with
        | zero => exact own
        | succ k =>
          have other := others k (Nat.lt_of_succ_lt_succ inside)
          rwa [Nat.add_right_comm, Nat.add_assoc] at other
      · intro all
        refine ⟨all 0 (Nat.succ_pos left), fun k inside => ?_⟩
        have other := all (k + 1) (Nat.succ_lt_succ inside)
        rwa [Nat.add_right_comm, Nat.add_assoc]

theorem readWords_decides {view : StaticSlotTableView} (sound : view.Sound)
    (declarations : List StaticSlotTableDeclaration) :
    (readWords view declarations).Decides
      (∀ declaration ∈ declarations, view.stringOf declaration.storesNativeHandle = ascii "false")
      (declarations.map fun declaration => view.stringOf declaration.word) := by
  induction declarations with
  | nil => exact (Screening.Decides.given _).congr (iff_of_true trivial (List.forall_mem_nil _))
  | cons declaration declarations ih =>
    apply Screening.Decides.congr
    · unfold readWords
      rw [StaticSlotTableView.stringAt_eq sound, Screening.lift_pure, Screening.pure_bind]
      apply (Screening.Decides.require _ _).bind
      intro _
      rw [StaticSlotTableView.stringAt_eq sound, Screening.lift_pure, Screening.pure_bind]
      apply ih.bind
      intro _
      exact Screening.Decides.given (view.stringOf declaration.word :: _)
    · rw [and_true, List.forall_mem_cons]

theorem finish_decides (short : text.length < 2 ^ 63) (readable : Readable text)
    (fits : ∀ tree ∈ (tablesAt text).view.trees, tree.Fits) :
    (finish text (tablesAt text)).Decides (Finished text) (imageAt text) := by
  have items : (tablesAt text).view.items.length = (headerAt text).itemCount := Screening.length_inRow _ _ _ _
  have few : (tablesAt text).view.items.length < 2 ^ 32 := by
    rw [items]
    exact (counted_headerAt text).items
  have listEntriesIn : (headerAt text).stringBytesPlace ≤ text.length := by
    have ends := Header.stringBytesPlace_add readable.sized
    have whole := readable.whole
    omega
  have sound := sound_viewAt short readable
  have objects := readRoot_decides sound (headerAt text) (headerAt text).declarationCount 0
  simp only [Nat.zero_add] at objects
  apply Screening.Decides.congr
  · unfold finish
    dsimp only
    rw [checkTrees_of_fits rfl few fits fun tree member => items ▸ (readable.trees tree member).2.2,
      Screening.pure_bind]
    apply (Screening.Decides.many (fun _ => readListEntry_decides short) _ listEntriesIn).bind
    intro _
    apply (Screening.Decides.require _ _).bind
    intro _
    apply (Screening.Decides.require _ _).bind
    intro _
    apply objects.bind
    intro _
    apply (Screening.Decides.require _ _).bind
    intro _
    apply (readWords_decides sound _).bind
    intro _
    apply (Screening.Decides.require _ _).bind
    intro _
    exact Screening.Decides.given (imageAt text)
  · constructor
    · rintro ⟨listEntries, root, count, objects, moduleName, handles, distinct, _⟩
      exact ⟨listEntries, root, count, objects, moduleName, handles, distinct⟩
    · rintro ⟨listEntries, root, count, objects, moduleName, handles, distinct⟩
      exact ⟨listEntries, root, count, objects, moduleName, handles, distinct, trivial⟩

end Finishing

section Safety

/-- The file is an image of declarations. -/
structure Accepted (text : List UInt8) : Prop where
  readable : Readable text
  finished : Finished text

theorem open_decides (short : text.length < 2 ^ 63) (lengths : LengthsFit text) (trees : TreesFit text) :
    (readStaticSlotTableImageMmapReadOnly text).Decides (Accepted text) (imageAt text) := by
  apply Screening.Decides.congr
  · unfold readStaticSlotTableImageMmapReadOnly
    apply (Screening.Decides.require _ _).bind
    intro _
    apply (readTables_decides short lengths).bind
    intro readable
    exact finish_decides short readable (trees readable)
  · constructor
    · rintro ⟨_, readable, finished⟩
      exact ⟨readable, finished⟩
    · rintro ⟨readable, finished⟩
      have long := readable.long
      refine ⟨fun empty => ?_, readable, finished⟩
      rw [empty] at long
      exact absurd long (by decide)

/-- The bytes of a file that has been mapped. Its length is a signed number of 64 bits. -/
structure MappedFile where
  text : List UInt8
  short : text.length < 2 ^ 63

/--
Opening the file and looking at what was opened stays inside the file.

Opening ends with an image or with what is wrong with the file, no size wraps, and no accessor of an image that
was opened reads outside.
-/
structure OpensSafely (text : List UInt8) : Prop where
  opening : (readStaticSlotTableImageMmapReadOnly text).Harmless
  accessors : ∀ view, (readStaticSlotTableImageMmapReadOnly text).Gives view → view.ReadsInside

theorem le_of_value_addSections {offset : Nat} {sections : List (List UInt8 × Nat)}
    {read : List StaticSlotTableSectionDescriptor} (short : text.length < 2 ^ 63)
    (start : offset ≤ text.length) (value : (addSections text offset sections).value = some read) :
    offset + (sections.map Prod.snd).sum ≤ text.length := by
  induction sections generalizing offset read with
  | nil => exact start
  | cons head rest ih =>
    obtain ⟨sectionId, byteSize⟩ := head
    rw [addSections, Decoding.value_bind, Option.bind_eq_some_iff] at value
    obtain ⟨bytes, copied, value⟩ := value
    have inside : offset + byteSize ≤ text.length := by
      by_contra past
      unfold Decoding.copy at copied
      rw [if_neg past] at copied
      cases copied
    rw [Decoding.sizeT_of_lt (by omega), Decoding.pure_bind, Decoding.value_bind,
      Option.bind_eq_some_iff] at value
    obtain ⟨others, added, -⟩ := value
    have rest := ih inside added
    rw [List.map_cons, List.sum_cons]
    omega

theorem lengthsFit_of_harmless (short : text.length < 2 ^ 63)
    (harmless : (readStaticSlotTableImageMmapReadOnly text).Harmless) : LengthsFit text := by
  intro framed
  have long := framed.long
  have some : text ≠ [] := fun empty => by
    rw [empty] at long
    exact absurd long (by decide)
  unfold readStaticSlotTableImageMmapReadOnly readTables at harmless
  rw [Screening.require_of some, Screening.pure_bind] at harmless
  have tables := (Screening.harmless_bind.mp harmless).1
  rw [(readHeader_decides short).passes framed.toHeaded, Screening.pure_bind] at tables
  have lengths := (Screening.harmless_bind.mp tables).1
  exact Header.lt_of_harmless_checkLengths (counted_headerAt text) framed.sized (by decide) lengths

theorem treesFit_of_inside (short : text.length < 2 ^ 63) (lengths : LengthsFit text)
    (inside : (readStaticSlotTableImageMmapReadOnly text).Inside) : TreesFit text := by
  intro readable
  have long := readable.long
  have some : text ≠ [] := fun empty => by
    rw [empty] at long
    exact absurd long (by decide)
  unfold readStaticSlotTableImageMmapReadOnly at inside
  rw [Screening.require_of some, Screening.pure_bind, (readTables_decides short lengths).passes readable,
    Screening.pure_bind] at inside
  have items : (tablesAt text).view.items.length = (headerAt text).itemCount := Screening.length_inRow _ _ _ _
  refine fits_of_inside_checkTrees rfl (items ▸ (counted_headerAt text).items) ?_
    (Screening.inside_bind.mp inside).1
  intro tree member
  have good := readable.trees tree member
  exact items ▸ ⟨good.1, good.2.2⟩

theorem lengthsFit_of_gives (short : text.length < 2 ^ 63) {view : StaticSlotTableView}
    (gives : (readStaticSlotTableImageMmapReadOnly text).Gives view) : LengthsFit text := by
  intro framed
  unfold readStaticSlotTableImageMmapReadOnly readTables at gives
  obtain ⟨_, -, gives⟩ := Screening.gives_bind.mp gives
  obtain ⟨tables, given, -⟩ := Screening.gives_bind.mp gives
  rw [(readHeader_decides short).passes framed.toHeaded, Screening.pure_bind] at given
  obtain ⟨_, -, given⟩ := Screening.gives_bind.mp given
  obtain ⟨_, -, given⟩ := Screening.gives_bind.mp given
  obtain ⟨_, -, given⟩ := Screening.gives_bind.mp given
  obtain ⟨_, -, given⟩ := Screening.gives_bind.mp given
  obtain ⟨sections, added, -⟩ := Screening.gives_bind.mp given
  have inside := le_of_value_addSections short framed.long (Screening.gives_lift.mp added)
  show 116 + ((headerAt text).sectionLengths.map Prod.snd).sum < 2 ^ 64
  omega

theorem accepted_of_gives (short : text.length < 2 ^ 63) {view : StaticSlotTableView}
    (gives : (readStaticSlotTableImageMmapReadOnly text).Gives view) :
    Accepted text ∧ imageAt text = view := by
  have lengths := lengthsFit_of_gives short gives
  exact (open_decides short lengths (treesFit_of_inside short lengths gives.inside)).gives.mp gives

/--
A file is opened safely just when two things hold.

The lengths in the header of an image must not add up to more than a word of 64 bits holds, and in an image that
is read so far no tree with more than one item may count items whose numbers wrap in 32 bits.
-/
theorem opensSafely_iff (file : MappedFile) :
    OpensSafely file.text ↔ LengthsFit file.text ∧ TreesFit file.text := by
  constructor
  · rintro ⟨opening, -⟩
    have lengths := lengthsFit_of_harmless file.short opening
    exact ⟨lengths, treesFit_of_inside file.short lengths opening.within⟩
  · rintro ⟨lengths, trees⟩
    have decides := open_decides file.short lengths trees
    refine ⟨decides.harmless, fun view given => ?_⟩
    obtain ⟨accepted, rfl⟩ := decides.gives.mp given
    exact (sound_imageAt file.short accepted.readable).readsInside

/-- A header of one tree and of strings so long that all lengths together are as long as the file again. -/
def wrappingFile : MappedFile where
  text := kMagic ++ wordBytes 4 2 ++ wordsBytes 4 [0, 0, 0, 0, 0, 1, 0, 0] ++
    wordsBytes 8 [0, 0, 0, 8, 0, 0, 2 ^ 64 - 8] ++ fnv1a64 []
  short := by decide +kernel

/-- Opening the file computes a sum that wraps, and then reads behind the end. -/
theorem wrappingFile_reads_outside :
    (readStaticSlotTableImageMmapReadOnly wrappingFile.text).run.wrapped = true ∧
      (readStaticSlotTableImageMmapReadOnly wrappingFile.text).run.ended = .error .outside ∧
      ¬OpensSafely wrappingFile.text := by
  have wraps : (readStaticSlotTableImageMmapReadOnly wrappingFile.text).run.wrapped = true := by decide +kernel
  refine ⟨wraps, by decide +kernel, fun safe => ?_⟩
  exact absurd (wraps.symm.trans safe.opening.exact) (by decide)

end Safety

end AgentC.StaticImage

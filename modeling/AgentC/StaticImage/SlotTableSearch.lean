import AgentC.Library.Search
import AgentC.StaticImage.SlotTableSafety
import AgentC.StaticImage.SlotTableWritten

/-! What the searches in an opened image find: declarations by their words, and items by their names. -/

namespace AgentC.StaticImage

/-- Strings are in the order of their bytes. -/
instance strictTotalOrder_bytes : IsStrictTotalOrder (List UInt8) (· < ·) where

namespace StaticSlotTableView

variable {view : StaticSlotTableView} {firstItem turns low high : Nat}

section Items

def searchItem (view : StaticSlotTableView) (firstItem : Nat) (fieldName : List UInt8) :
    Nat → Nat → Nat → Decoding (Option (Nat × StaticSlotTableItemRecord))
  | 0, _, _ => pure none
  | turns + 1, low, high =>
    if low < high then do
      let mid := low + (high - low) / 2
      let place ← Decoding.sizeT (firstItem + mid)
      match view.items[place]? with
      | none => pure none
      | some item =>
        let name ← view.stringAt item.name
        if name = fieldName then pure (some (mid, item))
        else if name < fieldName then searchItem view firstItem fieldName turns (mid + 1) high
        else searchItem view firstItem fieldName turns low mid
    else pure none

def foundValue (view : StaticSlotTableView) : Option (Nat × StaticSlotTableItemRecord) → Decoding (List UInt8)
  | none => pure []
  | some found => view.fieldValue found.2

theorem searchField_eq_searchItem (view : StaticSlotTableView) (firstItem : Nat) (fieldName : List UInt8)
    (turns low high : Nat) : view.searchField firstItem fieldName turns low high =
      view.searchItem firstItem fieldName turns low high >>= view.foundValue := by
  -- Both searches take the same turns, so the induction is on their number.
  induction turns generalizing low high with
  | zero => rfl
  | succ turns ih =>
    unfold searchField searchItem
    by_cases more : low < high
    · rw [if_pos more, if_pos more, Decoding.bind_assoc]
      refine congrArg (Decoding.sizeT _ >>= ·) (funext fun place => ?_)
      cases view.items[place]? with
      | none => rfl
      | some item =>
        dsimp only
        rw [Decoding.bind_assoc]
        refine congrArg (view.stringAt _ >>= ·) (funext fun name => ?_)
        rw [ih, ih]
        split
        · rfl
        · split <;> rfl
    · rw [if_neg more, if_neg more]
      rfl

/-- The items of an object. -/
def objectTree (view : StaticSlotTableView) (valueId : Nat) : Option StaticSlotTableTreeRecord :=
  match view.values[valueId]? with
  | none => none
  | some value => if value.kind ≠ .Object then none else view.trees[value.first]?

def searchObject (view : StaticSlotTableView) (valueId : Nat) (fieldName : List UInt8) :
    Decoding (Option (Nat × StaticSlotTableItemRecord)) :=
  match view.objectTree valueId with
  | none => pure none
  | some tree => view.searchItem tree.firstItem fieldName tree.itemCount 0 tree.itemCount

theorem objectStringField_eq_searchObject (view : StaticSlotTableView) (valueId : Nat)
    (fieldName : List UInt8) :
    view.objectStringField valueId fieldName = view.searchObject valueId fieldName >>= view.foundValue := by
  unfold objectStringField searchObject objectTree
  cases view.values[valueId]? with
  | none => rfl
  | some value =>
    dsimp only
    by_cases other : value.kind ≠ .Object
    · rw [if_pos other, if_pos other]
      rfl
    · rw [if_neg other, if_neg other]
      cases view.trees[value.first]? with
      | none => rfl
      | some tree => exact searchField_eq_searchItem view _ _ _ _ _

def nameAt (view : StaticSlotTableView) (place : Nat) : List UInt8 :=
  (view.items[place]?).elim [] fun item => view.stringOf item.name

theorem nameAt_of_item {place : Nat} {item : StaticSlotTableItemRecord}
    (there : view.items[place]? = some item) : view.nameAt place = view.stringOf item.name := by
  unfold nameAt
  rw [there]
  rfl

theorem searchItem_eq (sound : view.Sound) (inside : firstItem + high ≤ view.items.length)
    (few : view.items.length < 2 ^ 32) (fieldName : List UInt8) (turns low : Nat) :
    view.searchItem firstItem fieldName turns low high =
      pure ((bisect (· < ·) (fun k => view.nameAt (firstItem + k)) fieldName turns low high).bind
        fun index => (view.items[firstItem + index]?).map (index, ·)) := by
  induction turns generalizing low high with
  | zero => rfl
  | succ turns ih =>
    unfold searchItem bisect
    by_cases more : low < high
    · have middle : firstItem + (low + (high - low) / 2) < view.items.length := by omega
      have there := List.getElem?_eq_getElem middle
      rw [if_pos more, if_pos more, nameAt_of_item there]
      dsimp only
      rw [Decoding.sizeT_of_lt (by omega), Decoding.pure_bind, there]
      dsimp only
      rw [stringAt_eq sound, Decoding.pure_bind, ih inside, ih (by omega)]
      split
      · rw [Option.bind_some, there]
        rfl
      · split <;> rfl
    · rw [if_neg more, if_neg more]
      rfl

theorem fieldFrom_eq (inside : firstItem + high ≤ view.items.length) (fieldName : List UInt8)
    (turns low : Nat) :
    view.fieldFrom firstItem fieldName turns low high =
      ((bisect (· < ·) (fun k => view.nameAt (firstItem + k)) fieldName turns low high).bind
        fun index => view.items[firstItem + index]?).elim [] view.itemString := by
  induction turns generalizing low high with
  | zero => rfl
  | succ turns ih =>
    unfold fieldFrom bisect
    by_cases more : low < high
    · have middle : firstItem + (low + (high - low) / 2) < view.items.length := by omega
      have there := List.getElem?_eq_getElem middle
      rw [if_pos more, if_pos more, nameAt_of_item there, there]
      dsimp only
      rw [ih inside, ih (by omega)]
      split
      · rw [Option.bind_some, there]
        rfl
      · split <;> rfl
    · rw [if_neg more, if_neg more]
      rfl

theorem fieldFrom_of_rises (rises : Rises (· < ·) (fun k => view.nameAt (firstItem + k)) low high)
    (inside : firstItem + high ≤ view.items.length) {index : Nat} {item : StaticSlotTableItemRecord}
    (here : view.items[firstItem + index]? = some item) (above : low ≤ index) (below : index < high)
    (enough : high - low ≤ turns) :
    view.fieldFrom firstItem (view.stringOf item.name) turns low high = view.itemString item := by
  rw [fieldFrom_eq inside, ← nameAt_of_item here, bisect_of_rises rises above below enough, Option.bind_some, here]
  rfl

end Items

section Words

def indexedWord (view : StaticSlotTableView) (place : Nat) : List UInt8 :=
  (view.declarationWordIndex[place]?).elim []
    (view.declarationStringOf StaticSlotTableDeclaration.word)

theorem searchWord_eq (sound : view.Sound) (inside : high ≤ view.declarationWordIndex.length)
    (word : List UInt8) (turns low : Nat) :
    view.searchWord word turns low high =
      pure ((bisect (· < ·) view.indexedWord word turns low high).bind
        fun place => view.declarationWordIndex[place]?) := by
  induction turns generalizing low high with
  | zero => rfl
  | succ turns ih =>
    unfold searchWord bisect
    by_cases more : low < high
    · have middle : low + (high - low) / 2 < view.declarationWordIndex.length := by omega
      have there := List.getElem?_eq_getElem middle
      have word_there : view.indexedWord (low + (high - low) / 2) =
          view.declarationStringOf StaticSlotTableDeclaration.word
            view.declarationWordIndex[low + (high - low) / 2] := by
        unfold indexedWord
        rw [there]
        rfl
      rw [if_pos more, if_pos more, word_there]
      dsimp only
      rw [there]
      dsimp only
      rw [declarationWord, declarationString_eq sound, Decoding.pure_bind, ih inside, ih (by omega)]
      split
      · rw [Option.bind_some, there]
      · split <;> rfl
    · rw [if_neg more, if_neg more]
      rfl

end Words

end StaticSlotTableView

section Opened

/-- An image that the reader accepts, with the file that it was read from. -/
structure OpenedImage where
  file : MappedFile
  view : StaticSlotTableView
  opened : (readStaticSlotTableImageMmapReadOnly file.text).Gives view

namespace OpenedImage

variable (image : OpenedImage)

theorem accepted : Accepted image.file.text :=
  (accepted_of_gives image.file.short image.opened).1

theorem view_eq : imageAt image.file.text = image.view :=
  (accepted_of_gives image.file.short image.opened).2

theorem sound : image.view.Sound := by
  rw [← image.view_eq]
  exact sound_imageAt image.file.short image.accepted.readable

theorem treesFit : TreesFit image.file.text :=
  treesFit_of_inside image.file.short (lengthsFit_of_gives image.file.short image.opened) image.opened.inside

theorem length_items : image.view.items.length = (headerAt image.file.text).itemCount := by
  rw [← image.view_eq]
  exact Screening.length_inRow _ _ _ _

theorem few : image.view.items.length < 2 ^ 32 := by
  rw [image.length_items]
  exact (counted_headerAt image.file.text).items

theorem tree_cases {valueId : Nat} {tree : StaticSlotTableTreeRecord}
    (object : image.view.objectTree valueId = some tree) :
    tree.firstItem + tree.itemCount ≤ image.view.items.length ∨
      tree.itemCount = 1 ∧ image.view.items.length ≤ tree.firstItem := by
  have member : tree ∈ (tablesAt image.file.text).view.trees := by
    have trees : image.view.trees = (tablesAt image.file.text).view.trees := by
      rw [← image.view_eq]
      rfl
    rw [← trees]
    unfold StaticSlotTableView.objectTree at object
    split at object
    · cases object
    · split at object
      · cases object
      · exact List.mem_of_getElem? object
  obtain ⟨first, -, wrapped⟩ := image.accepted.readable.trees tree member
  have fits := image.treesFit image.accepted.readable tree member
  rw [image.length_items]
  rw [sum32] at wrapped
  have small := (counted_headerAt image.file.text).items
  by_cases several : 1 < tree.itemCount
  · rw [Nat.mod_eq_of_lt (fits several)] at wrapped
    exact .inl wrapped
  · -- A sum with one item wraps only behind a table that is as long as can be.
    omega

theorem wordIndex_eq : image.view.declarationWordIndex = (sortWords (wordsOf image.view)).map Prod.snd := by
  rw [← image.view_eq]
  rfl

theorem mem_wordIndex {i : Nat} :
    i ∈ image.view.declarationWordIndex ↔ i < image.view.declarations.length := by
  have perm := (sortWords_perm (wordsOf image.view)).map Prod.snd
  rw [List.zipIdx_map_snd, wordsOf, List.length_map] at perm
  rw [image.wordIndex_eq, wordsOf, perm.mem_iff, List.mem_range'_1]
  omega

theorem indexedWord_eq (place : Nat) : image.view.indexedWord place =
    (((sortWords (wordsOf image.view)).map Prod.fst)[place]?).getD [] := by
  unfold StaticSlotTableView.indexedWord
  rw [image.wordIndex_eq, List.getElem?_map, List.getElem?_map]
  cases there : (sortWords (wordsOf image.view))[place]? with
  | none => rfl
  | some entry =>
    -- Every entry of the sorted list is a word with the number of its declaration.
    have member := (sortWords_perm (wordsOf image.view)).mem_iff.mp (List.mem_of_getElem? there)
    have own := List.mem_zipIdx_iff_getElem?.mp member
    rw [wordsOf, List.getElem?_map] at own
    obtain ⟨declaration, declared, word⟩ := Option.map_eq_some_iff.mp own
    show image.view.declarationStringOf _ entry.2 = entry.1
    unfold StaticSlotTableView.declarationStringOf
    rw [declared, ← word]

theorem words_rise :
    Rises (· < ·) image.view.indexedWord 0 image.view.declarationWordIndex.length := by
  have distinct := image.accepted.finished.distinct
  have words : wordsOf (viewAt image.file.text) = wordsOf image.view := by
    rw [← image.view_eq]
    rfl
  rw [words] at distinct
  have ordered : ((sortWords (wordsOf image.view)).map Prod.fst).Pairwise (· ≤ ·) :=
    List.pairwise_map.mpr (sortWords_ordered _)
  have strict := List.isChain_iff_pairwise.mp (isChain_lt ordered distinct)
  intro i j _ less below
  have long : j < ((sortWords (wordsOf image.view)).map Prod.fst).length := by
    rw [image.wordIndex_eq, List.length_map] at below
    rwa [List.length_map]
  rw [image.indexedWord_eq, image.indexedWord_eq, List.getElem?_eq_getElem long,
    List.getElem?_eq_getElem (less.trans long)]
  exact List.pairwise_iff_getElem.mp strict i j (less.trans long) long less

theorem findDeclarationByWord_eq (word : List UInt8) : image.view.findDeclarationByWord word =
    pure ((bisect (· < ·) image.view.indexedWord word image.view.declarationWordIndex.length 0
      image.view.declarationWordIndex.length).bind fun place => image.view.declarationWordIndex[place]?) :=
  StaticSlotTableView.searchWord_eq image.sound le_rfl word _ 0

end OpenedImage

/--
The searches in an image find what is there.

A word is found at the declaration that has it, and is missing where no declaration has it. The search for the name
of an item of an object stops at the item, so that the field is the value of the item.
-/
structure Searchable (view : StaticSlotTableView) : Prop where
  found : ∀ word i, view.findDeclarationByWord word = pure (some i) ↔
    i < view.declarations.length ∧ view.declarationWord i = pure word
  absent : ∀ word, view.findDeclarationByWord word = pure none ↔
    ∀ i < view.declarations.length, view.declarationWord i ≠ pure word
  fields : ∀ valueId tree, view.objectTree valueId = some tree → ∀ index < tree.itemCount, ∀ item,
    view.items[tree.firstItem + index]? = some item →
      ∃ name, view.stringAt item.name = pure name ∧
        view.searchObject valueId name = pure (some (index, item)) ∧
        view.objectStringField valueId name = view.fieldValue item

/-- The names of the items of every object rise. -/
def NamesRise (view : StaticSlotTableView) : Prop :=
  ∀ valueId tree, view.objectTree valueId = some tree →
    Rises (· < ·) (fun index => view.nameAt (tree.firstItem + index)) 0 tree.itemCount

namespace OpenedImage

variable (image : OpenedImage)

theorem declarationWord_eq (i : Nat) : image.view.declarationWord i =
    pure (image.view.declarationStringOf StaticSlotTableDeclaration.word i) :=
  StaticSlotTableView.declarationString_eq image.sound _ i

theorem findDeclarationByWord_iff (word : List UInt8) (i : Nat) :
    image.view.findDeclarationByWord word = pure (some i) ↔
      i < image.view.declarations.length ∧ image.view.declarationWord i = pure word := by
  rw [image.findDeclarationByWord_eq, image.declarationWord_eq, Decoding.pure_inj, Decoding.pure_inj,
    ← image.mem_wordIndex]
  constructor
  · intro result
    obtain ⟨place, stops, there⟩ := Option.bind_eq_some_iff.mp result
    obtain ⟨-, -, same⟩ := bisect_eq_some stops
    unfold StaticSlotTableView.indexedWord at same
    rw [there] at same
    exact ⟨List.mem_of_getElem? there, same⟩
  · rintro ⟨member, same⟩
    obtain ⟨place, there⟩ := List.mem_iff_getElem?.mp member
    have below := (List.getElem?_eq_some_iff.mp there).1
    have key : image.view.indexedWord place = word := by
      unfold StaticSlotTableView.indexedWord
      rw [there]
      exact same
    rw [← key, bisect_of_rises image.words_rise (Nat.zero_le place) below (by omega)]
    exact there

theorem findDeclarationByWord_eq_none (word : List UInt8) :
    image.view.findDeclarationByWord word = pure none ↔
      ∀ i < image.view.declarations.length, image.view.declarationWord i ≠ pure word := by
  have each := image.findDeclarationByWord_iff word
  obtain ⟨result, known⟩ : ∃ result, image.view.findDeclarationByWord word = pure result :=
    ⟨_, image.findDeclarationByWord_eq word⟩
  rw [known] at each ⊢
  rw [Decoding.pure_inj]
  cases result with
  | none =>
    refine iff_of_true rfl fun i inside same => ?_
    have found := Decoding.pure_inj.mp ((each i).mpr ⟨inside, same⟩)
    cases found
  | some i =>
    obtain ⟨inside, same⟩ := (each i).mp rfl
    exact iff_of_false (fun missing => by cases missing) fun all => all i inside same

theorem searchItem_iff {valueId : Nat} {tree : StaticSlotTableTreeRecord}
    (object : image.view.objectTree valueId = some tree) :
    (∀ index < tree.itemCount, ∀ item, image.view.items[tree.firstItem + index]? = some item →
        image.view.searchItem tree.firstItem (image.view.stringOf item.name) tree.itemCount 0 tree.itemCount =
          pure (some (index, item))) ↔
      Rises (· < ·) (fun index => image.view.nameAt (tree.firstItem + index)) 0 tree.itemCount := by
  rcases image.tree_cases object with inside | ⟨one, past⟩
  · rw [← bisect_iff (Nat.le_of_eq (Nat.sub_zero tree.itemCount))]
    constructor
    · intro finds index _ below
      have there : image.view.items[tree.firstItem + index]? = some _ :=
        List.getElem?_eq_getElem (by omega)
      have result := finds index below _ there
      rw [StaticSlotTableView.searchItem_eq image.sound inside image.few, Decoding.pure_inj,
        ← StaticSlotTableView.nameAt_of_item there] at result
      obtain ⟨place, stops, mapped⟩ := Option.bind_eq_some_iff.mp result
      obtain ⟨other, -, same⟩ := Option.map_eq_some_iff.mp mapped
      rw [stops, (Prod.mk.inj same).1]
    · intro finds index below item there
      rw [StaticSlotTableView.searchItem_eq image.sound inside image.few,
        ← StaticSlotTableView.nameAt_of_item there, finds index (Nat.zero_le index) below, Option.bind_some, there]
      rfl
  · -- The object has no item that is there, and one name alone rises.
    constructor
    · intro _ i j _ less below
      omega
    · intro _ index below item there
      rw [List.getElem?_eq_none (by omega)] at there
      cases there

/-- The searches in an accepted image find what is there just when the names of every object rise. -/
theorem searchable_iff : Searchable image.view ↔ NamesRise image.view := by
  constructor
  · rintro ⟨-, -, fields⟩ valueId tree object
    refine (image.searchItem_iff object).mp fun index below item there => ?_
    obtain ⟨name, known, searched, -⟩ := fields valueId tree object index below item there
    rw [StaticSlotTableView.stringAt_eq image.sound, Decoding.pure_inj] at known
    unfold StaticSlotTableView.searchObject at searched
    rw [object] at searched
    rw [known]
    exact searched
  · intro rise
    refine ⟨image.findDeclarationByWord_iff, image.findDeclarationByWord_eq_none, ?_⟩
    intro valueId tree object index below item there
    have searched := (image.searchItem_iff object).mpr (rise valueId tree object) index below item there
    have stops : image.view.searchObject valueId (image.view.stringOf item.name) = pure (some (index, item)) := by
      unfold StaticSlotTableView.searchObject
      rw [object]
      exact searched
    refine ⟨_, StaticSlotTableView.stringAt_eq image.sound _, stops, ?_⟩
    rw [StaticSlotTableView.objectStringField_eq_searchObject, stops, Decoding.pure_bind]
    rfl

/-- One declaration, whose object has its items in the wrong order. -/
def unsortedTables : Writer where
  strings := [[], ascii "false", ascii "a", ascii "b", ascii "w"]
  declarations := [⟨4, 0, 0, 0, 0, 1, 0, 0⟩]
  values := [⟨.String, 4, 0, 0⟩, ⟨.Object, 0, 0, 1⟩, ⟨.List, 0, 0, 1⟩]
  trees := [⟨0, 2⟩]
  items := [⟨3, 0⟩, ⟨2, 0⟩]
  listEntries := [1]

/-- The reader accepts the tables, as it compares no names of items that it knows. -/
def unsortedImage : OpenedImage where
  file := ⟨unsortedTables.bytes 0 2, by decide +kernel⟩
  view := imageAt (unsortedTables.bytes 0 2)
  opened := by
    show (readStaticSlotTableImageMmapReadOnly (unsortedTables.bytes 0 2)).run.value = _
    decide +kernel

/-- The first item of the object is named and has a value, and the field of the name is empty. -/
theorem searchable_fails :
    unsortedImage.view.objectTree 1 = some ⟨0, 2⟩ ∧
      unsortedImage.view.items[0]? = some ⟨3, 0⟩ ∧
      (unsortedImage.view.stringAt 3).value = some (ascii "b") ∧
      (unsortedImage.view.fieldValue ⟨3, 0⟩).value = some (ascii "w") ∧
      (unsortedImage.view.objectStringField 1 (ascii "b")).value = some [] ∧
      ¬Searchable unsortedImage.view := by
  have tree : unsortedImage.view.objectTree 1 = some ⟨0, 2⟩ := by decide +kernel
  have item : unsortedImage.view.items[0]? = some ⟨3, 0⟩ := by decide +kernel
  have known : (unsortedImage.view.stringAt 3).value = some (ascii "b") := by decide +kernel
  have held : (unsortedImage.view.fieldValue ⟨3, 0⟩).value = some (ascii "w") := by decide +kernel
  have missed : (unsortedImage.view.objectStringField 1 (ascii "b")).value = some [] := by decide +kernel
  refine ⟨tree, item, known, held, missed, fun searchable => ?_⟩
  obtain ⟨name, named, -, field⟩ := searchable.fields 1 ⟨0, 2⟩ tree 0 (by decide) ⟨3, 0⟩ item
  have same : some name = some (ascii "b") := (congrArg Decoding.value named).symm.trans known
  rw [Option.some.inj same] at field
  rw [field, held] at missed
  exact absurd missed (by decide)

end OpenedImage

end Opened

end AgentC.StaticImage

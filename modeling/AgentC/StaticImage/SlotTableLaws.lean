import AgentC.StaticImage.SlotTableLayout

/-! What the accessors of an opened image return, and which files are opened. -/

namespace AgentC.StaticImage

variable {text : List UInt8}

namespace StaticSlotTableView

variable {view : StaticSlotTableView}

/-- What the accessors rely on: the strings lie in the file, and records hold words of 32 bits. -/
structure Sound (view : StaticSlotTableView) : Prop where
  short : view.region.length < 2 ^ 63
  strings : ∀ start size, view.stringBytes = some (start, size) → start + size ≤ view.region.length
  values : ∀ value ∈ view.values, value.first < 2 ^ 32 ∧ value.count < 2 ^ 32
  trees : ∀ tree ∈ view.trees, tree.firstItem < 2 ^ 32 ∧ tree.itemCount < 2 ^ 32

/-- The string of a number, as it lies in the file. -/
def stringOf (view : StaticSlotTableView) (id : Nat) : List UInt8 :=
  match view.strings[id]?, view.stringBytes with
  | some record, some (start, size) =>
    if record.offset + record.length ≤ size then (view.region.drop (start + record.offset)).take record.length
    else []
  | _, _ => []

def listEntryOf (view : StaticSlotTableView) (valueId index : Nat) : Nat :=
  match view.values[valueId]? with
  | none => 0
  | some value =>
    if value.kind ≠ .List ∨ value.count ≤ index then 0 else (view.listEntries[value.first + index]?).getD 0

/-- The value of the field that an item of an object holds. -/
def itemString (view : StaticSlotTableView) (item : StaticSlotTableItemRecord) : List UInt8 :=
  match view.values[item.value]? with
  | some value => if value.kind = .String then view.stringOf value.stringId else []
  | none => []

/-- What the search for a field comes to. -/
def fieldFrom (view : StaticSlotTableView) (firstItem : Nat) (fieldName : List UInt8) :
    Nat → Nat → Nat → List UInt8
  | 0, _, _ => []
  | turns + 1, low, high =>
    if low < high then
      match view.items[firstItem + (low + (high - low) / 2)]? with
      | none => []
      | some item =>
        if view.stringOf item.name = fieldName then view.itemString item
        else if view.stringOf item.name < fieldName then
          fieldFrom view firstItem fieldName turns (low + (high - low) / 2 + 1) high
        else fieldFrom view firstItem fieldName turns low (low + (high - low) / 2)
    else []

/-- The field of an object. -/
def fieldOf (view : StaticSlotTableView) (valueId : Nat) (fieldName : List UInt8) : List UInt8 :=
  match view.values[valueId]? with
  | none => []
  | some value =>
    if value.kind ≠ .Object then []
    else
      match view.trees[value.first]? with
      | none => []
      | some tree => view.fieldFrom tree.firstItem fieldName tree.itemCount 0 tree.itemCount

theorem stringAt_eq (sound : view.Sound) (id : Nat) : view.stringAt id = pure (view.stringOf id) := by
  unfold stringAt stringOf
  cases found : view.strings[id]? with
  | none => rfl
  | some record =>
    cases known : view.stringBytes with
    | none => rfl
    | some bytes =>
      obtain ⟨start, size⟩ := bytes
      have inside := sound.strings start size known
      have short := sound.short
      dsimp only
      by_cases big : size < record.offset ∨ size < record.length
      · have past : ¬record.offset + record.length ≤ size := by omega
        rw [if_pos big, if_neg past]
      · -- Both numbers are at most the size here, so that a word holds their sum.
        rw [if_neg big, Decoding.sizeT_of_lt (by omega), Decoding.pure_bind]
        by_cases past : size < record.offset + record.length
        · rw [if_pos past, if_neg (Nat.not_le.mpr past)]
        · rw [if_neg past, if_pos (Nat.not_lt.mp past), Decoding.copy_of_le (by omega)]

theorem listValueAt_eq (sound : view.Sound) (valueId index : Nat) :
    view.listValueAt valueId index = pure (view.listEntryOf valueId index) := by
  unfold listValueAt listEntryOf
  cases found : view.values[valueId]? with
  | none => rfl
  | some value =>
    obtain ⟨first, count⟩ := sound.values value (List.mem_of_getElem? found)
    dsimp only
    by_cases past : value.kind ≠ .List ∨ value.count ≤ index
    · rw [if_pos past, if_pos past]
    · rw [if_neg past, if_neg past, Decoding.sizeT_of_lt (by omega), Decoding.pure_bind]

theorem fieldValue_eq (sound : view.Sound) (item : StaticSlotTableItemRecord) :
    view.fieldValue item = pure (view.itemString item) := by
  unfold fieldValue itemString
  cases view.values[item.value]? with
  | none => rfl
  | some value =>
    dsimp only
    by_cases string : value.kind = .String
    · rw [if_pos string, if_pos string, stringAt_eq sound]
    · rw [if_neg string, if_neg string]

theorem searchField_eq (sound : view.Sound) {firstItem high : Nat} (fieldName : List UInt8)
    (fits : firstItem + high < 2 ^ 64) (turns low : Nat) :
    view.searchField firstItem fieldName turns low high = pure (view.fieldFrom firstItem fieldName turns low high) := by
  -- The induction is on the turns, and the range never grows.
  induction turns generalizing low high with
  | zero => rfl
  | succ turns ih =>
    unfold searchField fieldFrom
    by_cases more : low < high
    · rw [if_pos more, if_pos more]
      dsimp only
      rw [Decoding.sizeT_of_lt (by omega), Decoding.pure_bind]
      cases view.items[firstItem + (low + (high - low) / 2)]? with
      | none => rfl
      | some item =>
        dsimp only
        rw [stringAt_eq sound, Decoding.pure_bind, ih fits, ih (by omega), fieldValue_eq sound]
        split
        · rfl
        · split <;> rfl
    · rw [if_neg more, if_neg more]

theorem objectStringField_eq (sound : view.Sound) (valueId : Nat) (fieldName : List UInt8) :
    view.objectStringField valueId fieldName = pure (view.fieldOf valueId fieldName) := by
  unfold objectStringField fieldOf
  cases view.values[valueId]? with
  | none => rfl
  | some value =>
    dsimp only
    by_cases other : value.kind ≠ .Object
    · rw [if_pos other, if_pos other]
    · rw [if_neg other, if_neg other]
      cases found : view.trees[value.first]? with
      | none => rfl
      | some tree =>
        obtain ⟨first, count⟩ := sound.trees tree (List.mem_of_getElem? found)
        exact searchField_eq sound fieldName (by omega) _ _

/-- The strings of declarations are looked up by number. -/
def declarationStringOf (view : StaticSlotTableView) (string : StaticSlotTableDeclaration → Nat)
    (index : Nat) :
    List UInt8 :=
  match view.declarations[index]? with
  | some declaration => view.stringOf (string declaration)
  | none => []

theorem declarationString_eq (sound : view.Sound) (string : StaticSlotTableDeclaration → Nat)
    (index : Nat) :
    view.declarationString string index = pure (view.declarationStringOf string index) := by
  unfold declarationString declarationStringOf
  cases view.declarations[index]? with
  | none => rfl
  | some declaration => exact stringAt_eq sound _

theorem harmless_searchWord (sound : view.Sound) (word : List UInt8) {high : Nat}
    (inside : high ≤ view.declarationWordIndex.length) (turns low : Nat) :
    (view.searchWord word turns low high).Harmless := by
  induction turns generalizing low high with
  | zero => exact Decoding.harmless_pure _
  | succ turns ih =>
    unfold searchWord
    by_cases more : low < high
    · have middle : low + (high - low) / 2 < view.declarationWordIndex.length := by omega
      rw [if_pos more]
      dsimp only
      rw [List.getElem?_eq_getElem middle]
      dsimp only
      rw [declarationWord, declarationString_eq sound, Decoding.pure_bind]
      split
      · exact Decoding.harmless_pure _
      · split
        · exact ih inside _
        · exact ih (by omega) _
    · rw [if_neg more]
      exact Decoding.harmless_pure _

/-- No accessor reads outside the file or the tables, whatever it is asked for. -/
structure ReadsInside (view : StaticSlotTableView) : Prop where
  stringAt : ∀ id, (view.stringAt id).Harmless
  listValueAt : ∀ valueId index, (view.listValueAt valueId index).Harmless
  objectStringField : ∀ valueId fieldName, (view.objectStringField valueId fieldName).Harmless
  findDeclarationByWord : ∀ word, (view.findDeclarationByWord word).Harmless
  declarationWord : ∀ index, (view.declarationWord index).Harmless
  declarationNativeSymbol : ∀ index, (view.declarationNativeSymbol index).Harmless
  declarationStackSignature : ∀ index, (view.declarationStackSignature index).Harmless
  declarationCategory : ∀ index, (view.declarationCategory index).Harmless
  moduleName : view.moduleNameString.Harmless

theorem Sound.readsInside (sound : view.Sound) : view.ReadsInside := by
  have string : ∀ id, (view.stringAt id).Harmless := fun id => by
    rw [stringAt_eq sound]
    exact Decoding.harmless_pure _
  have declaration : ∀ string index, (view.declarationString string index).Harmless := fun string index => by
    rw [declarationString_eq sound]
    exact Decoding.harmless_pure _
  constructor
  case stringAt => exact string
  case listValueAt =>
    intro valueId index
    rw [listValueAt_eq sound]
    exact Decoding.harmless_pure _
  case objectStringField =>
    intro valueId fieldName
    rw [objectStringField_eq sound]
    exact Decoding.harmless_pure _
  case findDeclarationByWord => exact fun word => harmless_searchWord sound word le_rfl _ _
  case declarationWord => exact declaration _
  case declarationNativeSymbol => exact declaration _
  case declarationStackSignature => exact declaration _
  case declarationCategory => exact declaration _
  case moduleName => exact string _

end StaticSlotTableView

section Trees

variable {view : StaticSlotTableView} {header : Header}

def StaticSlotTableTreeRecord.Fits (tree : StaticSlotTableTreeRecord) : Prop :=
  1 < tree.itemCount → tree.firstItem + tree.itemCount < 2 ^ 32

theorem itemAt_of_lt {index : Nat} (inside : index < view.items.length) :
    view.itemAt index = pure view.items[index] := by
  unfold StaticSlotTableView.itemAt
  rw [List.getElem?_eq_getElem inside]

theorem lt_of_inside_itemAt {index : Nat} (inside : (view.itemAt index).ended ≠ .error .outside) :
    index < view.items.length := by
  by_contra past
  unfold StaticSlotTableView.itemAt at inside
  rw [List.getElem?_eq_none (Nat.not_lt.mp past)] at inside
  exact inside rfl

theorem stringAt_of_unknown (unknown : view.stringBytes = none) (id : Nat) :
    view.stringAt id = pure [] := by
  unfold StaticSlotTableView.stringAt
  rw [unknown]
  cases view.strings[id]? <;> rfl

theorem checkItems_of_le (unknown : view.stringBytes = none) (few : view.items.length < 2 ^ 32)
    {firstItem left i : Nat}
    (start : 0 < i) (inside : firstItem + i + left ≤ view.items.length) :
    checkItems view firstItem left i = pure () := by
  -- The induction is on the number of items that are left.
  induction left generalizing i with
  | zero => rfl
  | succ left ih =>
    have before : sum32 firstItem (i - 1) = firstItem + (i - 1) := Nat.mod_eq_of_lt (by omega)
    have here : sum32 firstItem i = firstItem + i := Nat.mod_eq_of_lt (by omega)
    unfold checkItems
    rw [before, here, itemAt_of_lt (by omega), itemAt_of_lt (by omega), Screening.lift_pure,
      Screening.pure_bind,
      Screening.lift_pure, Screening.pure_bind, stringAt_of_unknown unknown, stringAt_of_unknown unknown,
      Screening.lift_pure, Screening.pure_bind, Screening.pure_bind, Screening.require_of (List.lt_irrefl []), Screening.pure_bind, ih (Nat.succ_pos i) (by omega)]

theorem lt_of_inside_checkItems (unknown : view.stringBytes = none) (few : view.items.length < 2 ^ 32)
    {firstItem left i : Nat} (start : 0 < i) (more : 0 < left) (small : firstItem + (i - 1) < 2 ^ 32)
    (inside : (checkItems view firstItem left i).Inside) : firstItem + i + left < 2 ^ 32 := by
  induction left generalizing i with
  | zero => omega
  | succ left ih =>
    have before : sum32 firstItem (i - 1) = firstItem + (i - 1) := Nat.mod_eq_of_lt small
    unfold checkItems at inside
    rw [before] at inside
    obtain ⟨first, others⟩ := Screening.inside_bind.mp inside
    have there := lt_of_inside_itemAt (Screening.inside_lift.mp first)
    have here : sum32 firstItem i = firstItem + i := Nat.mod_eq_of_lt (by omega)
    have others := others _ (by rw [itemAt_of_lt there, Screening.lift_pure, Screening.gives_pure])
    rw [here] at others
    obtain ⟨second, others⟩ := Screening.inside_bind.mp others
    have there' := lt_of_inside_itemAt (Screening.inside_lift.mp second)
    have others := others _ (by rw [itemAt_of_lt there', Screening.lift_pure, Screening.gives_pure])
    rw [stringAt_of_unknown unknown, stringAt_of_unknown unknown, Screening.lift_pure, Screening.pure_bind,
      Screening.pure_bind, Screening.require_of (List.lt_irrefl []), Screening.pure_bind] at others
    cases left with
    | zero => omega
    | succ left =>
      have rest := ih (Nat.succ_pos i) (Nat.succ_pos left) (by omega) others
      omega

theorem checkItems_of_fits (unknown : view.stringBytes = none) (few : view.items.length < 2 ^ 32)
    {tree : StaticSlotTableTreeRecord} (fits : tree.Fits)
    (good : sum32 tree.firstItem tree.itemCount ≤ view.items.length) :
    checkItems view tree.firstItem (tree.itemCount - 1) 1 = pure () := by
  by_cases several : 1 < tree.itemCount
  · have all : sum32 tree.firstItem tree.itemCount = tree.firstItem + tree.itemCount :=
      Nat.mod_eq_of_lt (fits several)
    exact checkItems_of_le unknown few Nat.one_pos (by omega)
  · have none : tree.itemCount - 1 = 0 := by omega
    rw [none]
    rfl

theorem checkTrees_of_fits (unknown : view.stringBytes = none) (few : view.items.length < 2 ^ 32)
    {trees : List StaticSlotTableTreeRecord} (fits : ∀ tree ∈ trees, tree.Fits)
    (good : ∀ tree ∈ trees, sum32 tree.firstItem tree.itemCount ≤ view.items.length) :
    checkTrees view trees = pure () := by
  induction trees with
  | nil => rfl
  | cons tree trees ih =>
    obtain ⟨own, others⟩ := List.forall_mem_cons.mp fits
    obtain ⟨ownGood, othersGood⟩ := List.forall_mem_cons.mp good
    rw [checkTrees, checkItems_of_fits unknown few own ownGood, Screening.pure_bind, ih others othersGood]

theorem fits_of_inside_checkTrees (unknown : view.stringBytes = none) (few : view.items.length < 2 ^ 32)
    {trees : List StaticSlotTableTreeRecord}
    (good : ∀ tree ∈ trees, tree.firstItem ≤ view.items.length ∧
      sum32 tree.firstItem tree.itemCount ≤ view.items.length)
    (inside : (checkTrees view trees).Inside) : ∀ tree ∈ trees, tree.Fits := by
  induction trees with
  | nil => exact List.forall_mem_nil _
  | cons tree trees ih =>
    obtain ⟨ownGood, othersGood⟩ := List.forall_mem_cons.mp good
    obtain ⟨own, others⟩ := Screening.inside_bind.mp inside
    have fits : tree.Fits := fun several => by
      have all := lt_of_inside_checkItems unknown few Nat.one_pos (by omega) (by omega) own
      omega
    have rest := others () (by rw [checkItems_of_fits unknown few fits ownGood.2, Screening.gives_pure])
    exact List.forall_mem_cons.mpr ⟨fits, ih othersGood rest⟩

end Trees

end AgentC.StaticImage

import AgentC.Listree.DictionaryLaws
import AgentC.Cursor.Forest

/-!
A cursor over dictionaries: resolving paths, and moving up, down and to siblings.

Where a path leads, and how finding and inserting items bears on it.
-/

namespace AgentC

abbrev PathText := List UInt8

/-- How `resolve` reads a component of a path. -/
structure Component where
  name : Name
  /-- A star in front asks for an iterator over the item's values. -/
  iteratorMode : Bool
  tailDeref : Bool
  /-- A dash behind takes the last element of a list. -/
  valueTailDeref : Bool
deriving DecidableEq, Repr

namespace Component

def marked (mark : UInt8) (name : Name) : Bool :=
  1 < name.length && name.head? == some mark

/-- The marks of a component are taken off one after the other. -/
def parse (component : Name) : Component :=
  let iteratorMode := marked 42 component
  let name := if iteratorMode then component.tail else component
  let tailDeref := marked 45 name
  let name := if tailDeref then name.tail else name
  let valueTailDeref := marked 45 name.reverse
  let name := if valueTailDeref then name.dropLast else name
  { name, iteratorMode, tailDeref, valueTailDeref }

end Component

/-- A `Cursor` on a root, not going through a history, with the values it walks over. -/
structure Cursor where
  forest : Forest
  root : ValueId
  current : ValueId
  currentParent : Option ValueId
  currentItem : Option ItemId
  currentItemFromEnd : Bool
  /-- The components of the path, in the order in which `forEachList` visits them. -/
  pathComponents : List Name
  lastError : PathText

namespace Cursor

def new (forest : Forest) (root : ValueId) : Cursor where
  forest := forest.pin root
  root := root
  current := root
  currentParent := none
  currentItem := none
  currentItemFromEnd := false
  pathComponents := []
  lastError := []

/-- `parsePathString`: the stretches between dots that are not empty. -/
def parsePathString (path : PathText) : List Name :=
  (path.splitOn 46).filter fun component => !component.isEmpty

variable (cursor : Cursor)

/-- `getPath`. -/
def getPath : PathText :=
  46 :: [46].intercalate cursor.pathComponents

/-- `pinPath`. -/
def pinPath : Cursor :=
  { cursor with forest := cursor.forest.pin cursor.current }

/-- `unpinPath`. -/
def unpinPath : Cursor :=
  { cursor with forest := cursor.forest.unpin cursor.current }

def moveTo (forest : Forest) (item : ItemId) (next : ValueId) (fromEnd : Bool) : Cursor :=
  { cursor with
    forest := forest
    current := next
    currentParent := some cursor.current
    currentItem := some item
    currentItemFromEnd := fromEnd }

/--
`resolve` for one component.

No component has a dot in it, so none is `..`.
-/
def enter (component : Name) (insert : Bool) : Bool × Cursor :=
  let parts := Component.parse component
  let found := cursor.forest.find cursor.current parts.name insert
  match found.1 with
  | none => (false, { cursor with forest := found.2 })
  | some item =>
    if parts.iteratorMode then
      -- The value that wraps the iterator is a new one, and it is in no dictionary.
      let wrapper := found.2.create false
      (true,
        { cursor with
          forest := wrapper.2
          current := wrapper.1
          currentParent := none
          currentItem := none
          currentItemFromEnd := false })
    else
      match found.2.getValue item parts.tailDeref with
      | some next =>
        if parts.valueTailDeref then
          -- Only a list has a last element.
          (false,
            { cursor with
              forest := found.2
              lastError := ascii "Invalid list-tail dereference for '" ++ component ++ ascii "'" })
        else (true, cursor.moveTo found.2 item next parts.tailDeref)
      | none =>
        if insert then
          let next := found.2.create true
          (true,
            cursor.moveTo (next.2.addItemValue cursor.current item next.1 false) item next.1
              parts.tailDeref)
        else (false, { cursor with forest := found.2 })

/-- `resolve` for one component after the other, up to the first that is not resolved. -/
def enterAll (insert : Bool) : Cursor → List Name → Bool × Cursor
  | cursor, [] => (true, cursor)
  | cursor, component :: rest =>
    let entered := cursor.enter component insert
    if entered.1 then enterAll insert entered.2 rest else entered

/-- Where `resolve` starts: at the root, or for a relative path behind a path at the value there. -/
def startOf (path : PathText) : Cursor :=
  let components := parsePathString path
  if path.head? == some 46 || cursor.pathComponents.isEmpty then
    { cursor with
      current := cursor.root
      currentParent := none
      currentItem := none
      currentItemFromEnd := false
      pathComponents := components }
  else { cursor with pathComponents := cursor.pathComponents ++ components }

/-- `resolve`. -/
def resolve (path : PathText) (insert : Bool) : Bool × Cursor :=
  let start := startOf { cursor.unpinPath with lastError := [] } path
  let entered := enterAll insert start (parsePathString path)
  (entered.1, entered.2.pinPath)

/--
`up`. The path is peeked at and popped with `get(_, true)`, at the end where `forEachList` starts,
whereas `resolve` adds components with `put(_, false)`, at the other end.
-/
def up : Bool × Cursor :=
  if cursor.pathComponents.isEmpty then (false, cursor)
  else
    let popped := { cursor.unpinPath with pathComponents := cursor.pathComponents.tail }
    let resolved := popped.resolve popped.getPath false
    if resolved.1 then resolved else (false, resolved.2.pinPath)

/-- `down`, to the first child that has a value. -/
def down : Bool × Cursor :=
  let children := cursor.forest.visits cursor.current true
  let valued := children.findSome? fun child =>
    (cursor.forest.getValue child.2 false).map (child, ·)
  match valued with
  | none => (false, cursor.unpinPath.pinPath)
  | some target =>
    let moved := cursor.unpinPath.moveTo cursor.unpinPath.forest target.1.2 target.2 false
    (true, { moved with pathComponents := cursor.pathComponents ++ [target.1.1] }.pinPath)

def parentPath (path : PathText) : PathText :=
  if 46 ∈ path then ((path.reverse.dropWhile (· != 46)).drop 1).reverse else [46]

/-- The scan of `next` and `prev`: the name of the first item with a value behind the current one. -/
def scan (forest : Forest) (currentName : Name) : Bool → List (Name × ItemId) → Option Name
  | _, [] => none
  | foundCurrent, child :: rest =>
    if foundCurrent && !child.1.isEmpty && (forest.getValue child.2 false).isSome then some child.1
    else scan forest currentName (foundCurrent || child.1 == currentName) rest

/-- What `next` and `prev` do when they do not get anywhere. -/
def back (there : Cursor) : Cursor :=
  { there with
    current := cursor.current
    currentParent := cursor.currentParent
    currentItem := cursor.currentItem
    pathComponents := cursor.pathComponents }.pinPath

/-- `next` when going forward, and else `prev`. -/
def toSibling (forward : Bool) : Bool × Cursor :=
  match cursor.currentItem, cursor.pathComponents.getLast? with
  | some _, some currentName =>
    let resolved := cursor.unpinPath.resolve (parentPath cursor.getPath) false
    let there := resolved.2
    if resolved.1 then
      match scan there.forest currentName false (there.forest.visits there.current forward) with
      | none => (false, cursor.back there)
      | some name =>
        let found := there.forest.find there.current name false
        match found.1.bind fun item => (found.2.getValue item false).map (item, ·) with
        | none => (false, cursor.back { there with forest := found.2 })
        | some target =>
          let moved := there.moveTo found.2 target.1 target.2 false
          (true, { moved with pathComponents := cursor.pathComponents.dropLast ++ [name] }.pinPath)
    else (false, cursor.back there)
  | _, _ => (false, cursor)

/-- `next`. -/
def next : Bool × Cursor :=
  cursor.toSibling true

/-- `prev`. -/
def prev : Bool × Cursor :=
  cursor.toSibling false

end Cursor

/-- A name that a component of a path can stand for: it has no dot in it, and no marks. -/
structure Name.Plain (name : Name) : Prop where
  named : name ≠ []
  undotted : 46 ∉ name
  unmarked : Component.parse name = ⟨name, false, false, false⟩

namespace Forest

variable {forest next : Forest} {value : ValueId} {name component : Name} {item : ItemId}

def holds (forest : Forest) (value : ValueId) (name : Name) : Option ItemId :=
  ((forest.tree value).find name).join

def child (forest : Forest) (value : ValueId) (component : Name) : Option ValueId :=
  let parts := Component.parse component
  if parts.iteratorMode || parts.valueTailDeref then none
  else (forest.holds value parts.name).bind fun item => forest.getValue item parts.tailDeref

def follow (forest : Forest) (value : ValueId) (components : List Name) : Option ValueId :=
  components.foldlM forest.child value

/-- Dictionaries in order, with plain names, and numbers that have not been given away twice. -/
structure Sound (forest : Forest) : Prop where
  keeps : ∀ value, (forest.tree value).Keeps (forest.holds value) ∨ forest.tree value = .new_
  plain : ∀ value name item, forest.holds value name = some item → Name.Plain name
  itemBelow : ∀ value name item, forest.holds value name = some item → item < forest.freshItem
  valueBelow : ∀ item value, value ∈ (forest.item item).values → value < forest.freshValue

/-- Where paths led before they still lead. -/
def Extends (forest next : Forest) : Prop :=
  forest.freshValue ≤ next.freshValue ∧
    ∀ value component target, value < forest.freshValue →
      forest.child value component = some target → next.child value component = some target

section Follow

theorem follow_cons {rest : List Name} :
    forest.follow value (component :: rest) =
      (forest.child value component).bind fun middle => forest.follow middle rest :=
  rfl

theorem follow_append {front back : List Name} :
    forest.follow value (front ++ back) =
      (forest.follow value front).bind fun middle => forest.follow middle back :=
  List.foldlM_append

theorem follow_concat {front : List Name} :
    forest.follow value (front ++ [component]) =
      (forest.follow value front).bind fun middle => forest.child middle component := by
  rw [follow_append]
  congr 1
  funext middle
  rw [follow_cons]
  cases forest.child middle component <;> rfl

theorem Sound.pin (sound : forest.Sound) (pinned : ValueId) : (forest.pin pinned).Sound :=
  ⟨sound.keeps, sound.plain, sound.itemBelow, sound.valueBelow⟩

theorem mem_of_getValue {fromEnd : Bool} (got : forest.getValue item fromEnd = some value) :
    value ∈ (forest.item item).values := by
  unfold getValue at got
  split at got
  · exact List.mem_of_getLast? got
  · exact List.mem_of_head? got

theorem child_eq_some {target : ValueId} :
    forest.child value component = some target ↔
      (Component.parse component).iteratorMode = false ∧
        (Component.parse component).valueTailDeref = false ∧
          ∃ item, forest.holds value (Component.parse component).name = some item ∧
            forest.getValue item (Component.parse component).tailDeref = some target := by
  unfold child
  cases iterates : (Component.parse component).iteratorMode with
  | true => simp [iterates]
  | false =>
    cases last : (Component.parse component).valueTailDeref with
    | true => simp [last]
    | false => simp [iterates, last, Option.bind_eq_some_iff]

theorem Sound.child_lt {target : ValueId} (sound : forest.Sound)
    (leads : forest.child value component = some target) : target < forest.freshValue := by
  obtain ⟨-, -, item, -, got⟩ := child_eq_some.mp leads
  exact sound.valueBelow item target (mem_of_getValue got)

theorem Sound.follow_lt (sound : forest.Sound) :
    ∀ {components : List Name} {value target : ValueId}, value < forest.freshValue →
      forest.follow value components = some target → target < forest.freshValue := by
  -- Each component leads from a value that is there to another one.
  intro components
  induction components with
  | nil =>
    intro value target below leads
    obtain rfl : value = target := Option.some.inj leads
    exact below
  | cons component rest ih =>
    intro value target _ leads
    rw [follow_cons] at leads
    obtain ⟨middle, first, later⟩ := Option.bind_eq_some_iff.mp leads
    exact ih (sound.child_lt first) later

theorem Extends.refl (forest : Forest) : forest.Extends forest :=
  ⟨Nat.le_refl _, fun _ _ _ _ leads => leads⟩

theorem Extends.trans {last : Forest} (first : forest.Extends next) (second : next.Extends last) :
    forest.Extends last := by
  refine ⟨Nat.le_trans first.1 second.1, fun value component target below leads => ?_⟩
  exact second.2 _ _ _ (Nat.lt_of_lt_of_le below first.1) (first.2 _ _ _ below leads)

theorem Extends.follow (extends_ : forest.Extends next) (sound : forest.Sound) :
    ∀ {components : List Name} {value target : ValueId}, value < forest.freshValue →
      forest.follow value components = some target → next.follow value components = some target := by
  intro components
  induction components with
  | nil => intro value target _ leads; exact leads
  | cons component rest ih =>
    intro value target below leads
    rw [follow_cons] at leads ⊢
    obtain ⟨middle, first, later⟩ := Option.bind_eq_some_iff.mp leads
    rw [extends_.2 _ _ _ below first]
    exact ih (sound.child_lt first) later

end Follow

section Find

theorem keep_self : forest.keep value (forest.dictionary value) = forest := by
  simp [keep, dictionary, Function.update_eq_self]

theorem find_eq (forest : Forest) (value : ValueId) (name : Name) :
    forest.find value name false = (forest.holds value name, forest) := by
  unfold find
  rw [show (forest.dictionary value).find name false = (forest.holds value name, forest.dictionary value)
    from Dictionary.answer_find _ _]
  simp only [keep_self]
  exact if_pos rfl

theorem isNull_of_holds (held : forest.holds value name = some item) :
    (forest.tree value).isNull = false := by
  unfold holds at held
  cases tree : forest.tree value with
  | leaf => rw [tree] at held; cases held
  | node => rfl

theorem find_held (writable : forest.readOnly value = false)
    (held : forest.holds value name = some item) :
    forest.find value name true = (some item, forest) := by
  have there := isNull_of_holds held
  have found : (forest.dictionary value).tree.orNew.find name = some (some item) := by
    show (forest.tree value).orNew.find name = _
    rw [AATree.orNew_eq there]
    exact Option.join_eq_some_iff.mp held
  have same : { forest.dictionary value with tree := (forest.dictionary value).tree.orNew } =
      forest.dictionary value := by
    rw [AATree.orNew_eq (show (forest.dictionary value).tree.isNull = false from there)]
  have answered := Dictionary.answer_present writable found
  rw [same] at answered
  unfold find
  rw [show (forest.dictionary value).find name true = (some item, forest.dictionary value)
    from answered]
  simp only [keep_self]
  exact if_pos rfl

/-- A new item for a name. -/
def added (forest : Forest) (value : ValueId) (name : Name) : Forest :=
  { forest with
    tree := Function.update forest.tree value ((forest.tree value).orNew.add name forest.freshItem)
    item := Function.update forest.item forest.freshItem ⟨name, []⟩
    freshItem := forest.freshItem + 1 }

theorem Sound.kept (sound : forest.Sound) (value : ValueId) :
    (forest.tree value).Keeps (forest.holds value) ∨
      forest.tree value = .new_ ∧ forest.holds value = fun _ => none := by
  refine (sound.keeps value).imp_right fun new => ⟨new, ?_⟩
  funext name
  unfold holds
  rw [new]
  cases name <;> rfl

theorem Sound.find_absent (sound : forest.Sound) (writable : forest.readOnly value = false)
    (named : name ≠ []) (absent : forest.holds value name = none) :
    forest.find value name true = (some forest.freshItem, forest.added value name) := by
  obtain ⟨nowhere, keeps⟩ := AATree.place_of_kept (sound.kept value) forest.freshItem
    (fun empty => absurd empty named) absent
  have answered := Dictionary.answer_absent (d := forest.dictionary value) writable nowhere
  have item : (((forest.tree value).orNew.add name forest.freshItem).find name).join =
      some forest.freshItem := by
    rw [keeps.find_eq, Function.update_self]
    rfl
  unfold find
  rw [show (forest.dictionary value).find name true = _ from answered]
  have fresh : ¬forest.freshItem + 1 = forest.freshItem := Nat.succ_ne_self _
  show (if forest.freshItem + 1 = forest.freshItem then _ else _) = _
  rw [if_neg fresh]
  exact Prod.ext item rfl

theorem Sound.holds_added (sound : forest.Sound) (named : name ≠ [])
    (absent : forest.holds value name = none) (other : ValueId) :
    (forest.added value name).holds other =
      if other = value then Function.update (forest.holds value) name (some forest.freshItem)
      else forest.holds other := by
  obtain ⟨-, keeps⟩ := AATree.place_of_kept (sound.kept value) forest.freshItem
    (fun empty => absurd empty named) absent
  have tree : (forest.added value name).tree other =
      if other = value then (forest.tree value).orNew.add name forest.freshItem
      else forest.tree other :=
    Function.update_apply _ _ _ _
  funext sought
  show (((forest.added value name).tree other).find sought).join = _
  rw [tree]
  by_cases same : other = value
  · rw [if_pos same, if_pos same, keeps.find_eq]
    cases Function.update (forest.holds value) name (some forest.freshItem) sought <;> rfl
  · rw [if_neg same, if_neg same]
    rfl

theorem Sound.mem_visits (sound : forest.Sound) {forward : Bool} :
    (name, item) ∈ forest.visits value forward ↔ forest.holds value name = some item := by
  have entries : (name, item) ∈ (forest.tree value).entries ↔
      forest.holds value name = some item := by
    rcases sound.kept value with keeps | ⟨new, nothing⟩
    · exact keeps.entries_iff
    · rw [new, nothing]
      simp [AATree.new_, AATree.entries]
  cases forward with
  | true => exact entries
  | false => exact List.mem_reverse.trans entries

theorem child_plain (plain : Name.Plain name) :
    forest.child value name = (forest.holds value name).bind fun item => forest.getValue item false := by
  unfold child
  rw [plain.unmarked]
  rfl

theorem Sound.added (sound : forest.Sound) (plain : Name.Plain name)
    (absent : forest.holds value name = none) : (forest.added value name).Sound := by
  have held := sound.holds_added plain.named absent
  -- What is held now was held before, or is the new item.
  have either : ∀ other sought item, (forest.added value name).holds other sought = some item →
      forest.holds other sought = some item ∨ sought = name ∧ item = forest.freshItem := by
    intro other sought item there
    rw [held] at there
    split at there
    · rename_i same
      subst same
      by_cases new : sought = name
      · subst new
        rw [Function.update_self] at there
        exact Or.inr ⟨rfl, (Option.some.inj there).symm⟩
      · rw [Function.update_of_ne new] at there
        exact Or.inl there
    · exact Or.inl there
  refine ⟨fun other => ?_, fun other sought item there => ?_, fun other sought item there => ?_,
    fun item member below => ?_⟩
  · by_cases same : other = value
    · subst same
      refine Or.inl ?_
      rw [held, if_pos rfl]
      have tree : (forest.added other name).tree other =
          (forest.tree other).orNew.add name forest.freshItem := Function.update_self _ _ _
      rw [tree]
      exact (AATree.place_of_kept (sound.kept other) forest.freshItem
        (fun empty => absurd empty plain.named) absent).2
    · have tree : (forest.added value name).tree other = forest.tree other :=
        Function.update_of_ne same _ _
      rw [held, if_neg same, tree]
      exact sound.keeps other
  · rcases either other sought item there with before | ⟨rfl, -⟩
    · exact sound.plain _ _ _ before
    · exact plain
  · rcases either other sought item there with before | ⟨-, rfl⟩
    · exact Nat.lt_succ_of_lt (sound.itemBelow _ _ _ before)
    · exact Nat.lt_succ_self _
  · have values : ((forest.added value name).item item).values =
        if item = forest.freshItem then [] else (forest.item item).values := by
      show (Function.update forest.item forest.freshItem ⟨name, []⟩ item).values = _
      rw [Function.update_apply]
      split <;> rfl
    rw [values] at below
    split at below
    · cases below
    · exact sound.valueBelow _ _ below

def grown (forest : Forest) (item : ItemId) : Forest :=
  (forest.create true).2.setValues item [forest.freshValue]

theorem holds_grown (forest : Forest) (item : ItemId) (value : ValueId) :
    (forest.grown item).holds value =
      if value = forest.freshValue then fun _ => none else forest.holds value := by
  have tree : (forest.grown item).tree value =
      if value = forest.freshValue then .new_ else forest.tree value :=
    Function.update_apply _ _ _ _
  funext sought
  show (((forest.grown item).tree value).find sought).join = _
  rw [tree]
  split
  · cases sought <;> rfl
  · rfl

theorem values_grown (forest : Forest) (item other : ItemId) :
    ((forest.grown item).item other).values =
      if other = item then [forest.freshValue] else (forest.item other).values := by
  show (Function.update forest.item item _ other).values = _
  rw [Function.update_apply]
  split <;> rfl

theorem Sound.grown (sound : forest.Sound) (item : ItemId) : (forest.grown item).Sound := by
  have before : ∀ value name held, (forest.grown item).holds value name = some held →
      forest.holds value name = some held := by
    intro value name held there
    rw [holds_grown] at there
    split at there
    · cases there
    · exact there
  refine ⟨fun value => ?_, fun value name held there => sound.plain _ _ _ (before _ _ _ there),
    fun value name held there => sound.itemBelow _ _ _ (before _ _ _ there),
    fun other value member => ?_⟩
  · by_cases new : value = forest.freshValue
    · subst new
      exact Or.inr (Function.update_self _ _ _)
    · have tree : (forest.grown item).tree value = forest.tree value :=
        Function.update_of_ne new _ _
      rw [holds_grown, if_neg new, tree]
      exact sound.keeps value
  · rw [values_grown] at member
    show value < forest.freshValue + 1
    split at member
    · rw [List.mem_singleton.mp member]
      exact Nat.lt_succ_self _
    · exact Nat.lt_succ_of_lt (sound.valueBelow _ _ member)

theorem extends_grown (forest : Forest) (none_ : (forest.item item).values = []) :
    forest.Extends (forest.grown item) := by
  refine ⟨Nat.le_succ _, fun value component target below leads => ?_⟩
  obtain ⟨iterates, last, other, held, got⟩ := child_eq_some.mp leads
  have different : other ≠ item := by
    rintro rfl
    have member := mem_of_getValue got
    rw [none_] at member
    cases member
  refine child_eq_some.mpr ⟨iterates, last, other, ?_, ?_⟩
  · rw [holds_grown, if_neg (Nat.ne_of_lt below)]
    exact held
  · unfold getValue at got ⊢
    rw [values_grown, if_neg different]
    exact got

theorem Sound.extends_added (sound : forest.Sound) (named : name ≠ [])
    (absent : forest.holds value name = none) : forest.Extends (forest.added value name) := by
  refine ⟨Nat.le_refl _, fun other component target _ leads => ?_⟩
  obtain ⟨iterates, last, item, held, got⟩ := child_eq_some.mp leads
  refine child_eq_some.mpr ⟨iterates, last, item, ?_, ?_⟩
  · rw [sound.holds_added named absent]
    split
    · rename_i same
      subst same
      have other_ : (Component.parse component).name ≠ name := by
        intro same
        rw [same, absent] at held
        cases held
      rw [Function.update_of_ne other_]
      exact held
    · exact held
  · have different : item ≠ forest.freshItem := Nat.ne_of_lt (sound.itemBelow _ _ _ held)
    have values : (forest.added value name).item item = forest.item item :=
      Function.update_of_ne different _ _
    unfold getValue at got ⊢
    rw [values]
    exact got

end Find

section Alike

def Alike (forest next : Forest) : Prop :=
  next = { forest with pinnedCount := next.pinnedCount }

namespace Alike

theorem refl (forest : Forest) : forest.Alike forest :=
  rfl

theorem pin (forest : Forest) (value : ValueId) : forest.Alike (forest.pin value) :=
  rfl

theorem unpin (forest : Forest) (value : ValueId) : forest.Alike (forest.unpin value) :=
  rfl

theorem trans {last : Forest} (first : forest.Alike next) (second : next.Alike last) :
    forest.Alike last := by
  unfold Alike at first second ⊢
  rw [second, first]

theorem follow (alike : forest.Alike next) : next.follow = forest.follow := by
  rw [alike]
  rfl

theorem child (alike : forest.Alike next) : next.child = forest.child := by
  rw [alike]
  rfl

theorem holds (alike : forest.Alike next) : next.holds = forest.holds := by
  rw [alike]
  rfl

theorem getValue (alike : forest.Alike next) : next.getValue = forest.getValue := by
  rw [alike]
  rfl

theorem visits (alike : forest.Alike next) : next.visits = forest.visits := by
  rw [alike]
  rfl

theorem freshValue (alike : forest.Alike next) : next.freshValue = forest.freshValue := by
  rw [alike]

theorem sound (alike : forest.Alike next) (sound : forest.Sound) : next.Sound := by
  rw [alike]
  exact ⟨sound.keeps, sound.plain, sound.itemBelow, sound.valueBelow⟩

end Alike

end Alike

end Forest

end AgentC

import Mathlib.Data.List.Perm.Basic
import AgentC.Cursor.Pins

/-! Which calls keep the pins of all values balanced, and that a run of such calls does. -/

namespace AgentC.Pinning

section Growth

namespace Grove

variable {grove : Grove} {value : ValueId}

structure Bounded (grove : Grove) : Prop where
  items : ∀ item value, value ∈ (grove.item item).values → value < grove.freshValue
  lists : ∀ value elements, grove.list value = some elements →
    ∀ element ∈ elements, element < grove.freshValue

/-- What may have happened to the values without a pin or an unpin. -/
structure Grows (before after : Grove) : Prop where
  fresh : before.freshValue ≤ after.freshValue
  bounded : before.Bounded → after.Bounded
  pins : ∀ value, after.immortal value = false →
    (before.immortal value = false ∧ after.pinnedCount value = before.pinnedCount value) ∨
      (before.freshValue ≤ value ∧ after.pinnedCount value = 0)

theorem Grows.refl (grove : Grove) : grove.Grows grove :=
  ⟨le_rfl, id, fun _ mortal => .inl ⟨mortal, rfl⟩⟩

theorem Grows.trans {first second third : Grove} (one : first.Grows second) (two : second.Grows third) :
    first.Grows third := by
  refine ⟨one.fresh.trans two.fresh, fun bounded => two.bounded (one.bounded bounded), ?_⟩
  intro value mortal
  rcases two.pins value mortal with ⟨mortal', same⟩ | ⟨new, unpinned⟩
  · rw [same]
    exact one.pins value mortal'
  · exact .inr ⟨one.fresh.trans new, unpinned⟩

theorem Grows.of_values {after : Forest} (fresh : after.freshValue = grove.freshValue)
    (pins : after.pinnedCount = grove.pinnedCount)
    (items : ∀ item value, value ∈ (after.item item).values →
      value ∈ (grove.item item).values ∨ value < grove.freshValue) :
    grove.Grows { grove with toForest := after } := by
  refine ⟨fresh.ge, fun bounded => ⟨?_, ?_⟩, fun value mortal => .inl ⟨mortal, congrFun pins value⟩⟩
  · intro item value member
    show value < after.freshValue
    rw [fresh]
    exact (items item value member).elim (bounded.items item value) id
  · intro value elements known element member
    show element < after.freshValue
    rw [fresh]
    exact bounded.lists value elements known element member

theorem grows_find (name : Name) (insert : Bool) : grove.Grows (grove.find value name insert).2 := by
  unfold find
  split
  · exact .refl grove
  · have kept : ∀ dictionary : Dictionary, grove.Grows { grove with toForest := grove.keep value dictionary } :=
      fun dictionary => Grows.of_values rfl rfl fun item held member => .inl member
    dsimp only
    unfold Forest.find
    dsimp only
    split
    · exact kept _
    · -- An item that is added holds nothing.
      refine Grows.of_values rfl rfl fun item held member => ?_
      by_cases new : item = grove.freshItem
      · subst new
        dsimp only at member
        rw [Function.update_self] at member
        cases member
      · dsimp only at member
        rw [Function.update_of_ne new] at member
        exact .inl member

theorem find_eq (value : ValueId) (name : Name) :
    grove.find value name false = (if grove.isListMode value then none else grove.holds value name, grove) := by
  unfold find
  split
  · rfl
  · rw [Forest.find_eq]

@[simp] theorem named_pin (value owner : ValueId) (name : Name) :
    (grove.pin value).named owner name = grove.named owner name := by
  unfold named
  rw [find_eq, find_eq]
  unfold pin
  split <;> rfl

@[simp] theorem named_unpin (value owner : ValueId) (name : Name) :
    (grove.unpin value).named owner name = grove.named owner name := by
  unfold named
  rw [find_eq, find_eq]
  unfold unpin
  split <;> rfl

@[simp] theorem immortal_pin (value : ValueId) : (grove.pin value).immortal = grove.immortal := by
  unfold pin
  split <;> rfl

@[simp] theorem immortal_unpin (value : ValueId) : (grove.unpin value).immortal = grove.immortal := by
  unfold unpin
  split <;> rfl

variable {owner : ValueId} {item : ItemId}

theorem leads_unpin {components : List Name} (leads : grove.Leads owner components) :
    (grove.unpin value).Leads owner components := by
  induction components generalizing owner with
  | nil => trivial
  | cons component rest ih =>
    obtain ⟨tree, item, held, further⟩ := leads
    have same : (grove.unpin value).list = grove.list ∧ (grove.unpin value).holds = grove.holds ∧
        (grove.unpin value).target = grove.target := by
      unfold unpin
      split <;> exact ⟨rfl, rfl, rfl⟩
    refine ⟨same.1 ▸ tree, item, same.2.1 ▸ held, ?_⟩
    split
    · rename_i iterates
      rwa [if_pos iterates] at further
    · rename_i plain
      rw [if_neg plain] at further
      obtain ⟨next, led, others⟩ := further
      exact ⟨next, same.2.2 ▸ led, ih others⟩

theorem grows_setValues {values : List ValueId}
    (known : ∀ held ∈ values, held ∈ (grove.item item).values ∨ held < grove.freshValue) :
    grove.Grows { grove with toForest := grove.setValues item values } := by
  refine Grows.of_values rfl rfl fun other held member => ?_
  by_cases same : other = item
  · subst same
    have values' : ((grove.setValues other values).item other).values = values := by
      unfold Forest.setValues
      dsimp only
      rw [Function.update_self]
    rw [values'] at member
    exact known held member
  · have values' : (grove.setValues item values).item other = grove.item other := Function.update_of_ne same _ _
    rw [values'] at member
    exact .inl member

theorem grows_popItemValue (owner : ValueId) (item : ItemId) (fromEnd : Bool) :
    grove.Grows (grove.popItemValue owner item fromEnd).2 := by
  unfold popItemValue
  split
  · exact .refl grove
  · dsimp only
    unfold Forest.popItemValue
    split
    · exact .refl grove
    · refine grows_setValues fun held member => .inl ?_
      cases fromEnd with
      | false => exact List.mem_of_mem_tail member
      | true => exact List.mem_of_mem_dropLast member

theorem grows_addItemValue {atEnd : Bool} (made : value < grove.freshValue) :
    grove.Grows (grove.addItemValue owner item value atEnd).2 := by
  unfold addItemValue
  split
  · exact .refl grove
  · dsimp only
    unfold Forest.addItemValue
    split
    · exact .refl grove
    · refine grows_setValues fun held member => ?_
      cases atEnd with
      | false =>
        rcases List.mem_cons.mp member with rfl | old
        · exact .inr made
        · exact .inl old
      | true =>
        rcases List.mem_append.mp member with old | new
        · exact .inl old
        · rw [List.mem_singleton.mp new]
          exact .inr made

theorem grows_create (null : Bool) : grove.Grows (grove.create null).2 := by
  refine ⟨Nat.le_succ _, fun bounded => ⟨?_, ?_⟩, fun other mortal => ?_⟩
  · intro item held member
    exact Nat.lt_succ_of_lt (bounded.items item held member)
  · intro owner elements known element member
    by_cases new : owner = grove.freshValue
    · subst new
      have none_ : (grove.create null).2.list grove.freshValue = none := Function.update_self _ _ _
      rw [none_] at known
      cases known
    · have same : (grove.create null).2.list owner = grove.list owner := Function.update_of_ne new _ _
      rw [same] at known
      exact Nat.lt_succ_of_lt (bounded.lists owner elements known element member)
  · by_cases new : other = grove.freshValue
    · subst new
      exact .inr ⟨le_rfl, Function.update_self _ _ _⟩
    · have immortal : (grove.create null).2.immortal other = grove.immortal other :=
        Function.update_of_ne new _ _
      exact .inl ⟨immortal ▸ mortal, Function.update_of_ne new _ _⟩

theorem lt_create (null : Bool) : (grove.create null).1 < (grove.create null).2.freshValue :=
  Nat.lt_succ_self _

variable (bounded : grove.Bounded)

include bounded

theorem Bounded.getValue {fromEnd : Bool} (got : grove.getValue item fromEnd = some value) :
    value < grove.freshValue := by
  unfold Forest.getValue at got
  cases fromEnd with
  | false => exact bounded.items item value (List.mem_of_head? got)
  | true => exact bounded.items item value (List.mem_of_getLast? got)

theorem Bounded.named {name : Name} (named : grove.named owner name = some (item, value)) :
    value < grove.freshValue := by
  obtain ⟨found, -, rest⟩ := Option.bind_eq_some_iff.mp named
  obtain ⟨head, got, same⟩ := Option.map_eq_some_iff.mp rest
  cases same
  exact bounded.getValue got

end Grove

end Growth

section Walks

/-- What the cursor refers to is below the number of the next value. -/
structure Cursor.Below (cursor : Cursor) (fresh : ValueId) : Prop where
  root : ∀ value, cursor.root = some value → value < fresh
  current : ∀ value, cursor.current = some value → value < fresh

theorem Cursor.Below.mono {cursor : Cursor} {fresh more : ValueId} (below : cursor.Below fresh)
    (grown : fresh ≤ more) : cursor.Below more :=
  ⟨fun value known => (below.root value known).trans_le grown,
    fun value known => (below.current value known).trans_le grown⟩

namespace Walk

variable {others : List Cursor} {walk : Walk}

/-- What the cursors refer to has been made, and the iterators that are new stand nowhere. -/
structure Sound (others : List Cursor) (walk : Walk) : Prop where
  bounded : walk.grove.Bounded
  root : ∀ value, walk.cursor.root = some value → value < walk.grove.freshValue
  current : ∀ value, walk.cursor.current = some value → value < walk.grove.freshValue
  rest : ∀ cursor ∈ others, cursor.Below walk.grove.freshValue
  born : ∀ cursor ∈ walk.born, cursor.current = none ∧ cursor.Below walk.grove.freshValue

theorem Sound.unmade (sound : walk.Sound others) (value : ValueId) (new : walk.grove.freshValue ≤ value) :
    standing others value = 0 := by
  refine List.countP_eq_zero.mpr fun cursor member same => ?_
  have made := (sound.rest cursor member).current value (of_decide_eq_true same)
  exact absurd made (Nat.not_lt.mpr new)

structure Loose (others : List Cursor) (walk : Walk) : Prop extends walk.Sound others where
  pins : ∀ value, walk.grove.immortal value = false → walk.grove.pinnedCount value = standing others value

/-- The pins are those of the other cursors and of this one. -/
structure Pinned (others : List Cursor) (walk : Walk) : Prop extends walk.Sound others where
  pins : ∀ value, walk.grove.immortal value = false →
    walk.grove.pinnedCount value = standing others value + if walk.cursor.current = some value then 1 else 0

theorem Sound.of_pins {pinnedCount : ValueId → Nat} (sound : walk.Sound others) :
    Sound others { walk with grove.pinnedCount := pinnedCount } :=
  ⟨⟨sound.bounded.items, sound.bounded.lists⟩, sound.root, sound.current, sound.rest, sound.born⟩

theorem Pinned.unpinPath (pinned : walk.Pinned others) : walk.unpinPath.Loose others := by
  obtain ⟨sound, pins⟩ := pinned
  unfold Walk.unpinPath
  cases at_ : walk.cursor.current with
  | none =>
    refine ⟨sound, fun value mortal => ?_⟩
    rw [pins value mortal, at_, if_neg nofun, Nat.add_zero]
  | some current =>
    dsimp only
    unfold Grove.unpin
    split
    · rename_i immortal
      refine ⟨sound, fun value mortal => ?_⟩
      have apart : ¬walk.cursor.current = some value := fun same => by
        cases at_.symm.trans same
        exact absurd immortal (Bool.eq_false_iff.mp mortal)
      rw [pins value mortal, if_neg apart, Nat.add_zero]
    · refine ⟨sound.of_pins, fun value mortal => ?_⟩
      have counted := pins value mortal
      show Function.update walk.grove.pinnedCount current _ value = standing others value
      by_cases here : value = current
      · subst here
        rw [Function.update_self, counted, at_, if_pos rfl]
        rfl
      · rw [Function.update_of_ne here, counted, at_, if_neg fun same => here (Option.some.inj same).symm,
          Nat.add_zero]

theorem Loose.pinPath (loose : walk.Loose others) : walk.pinPath.Pinned others := by
  obtain ⟨sound, pins⟩ := loose
  unfold Walk.pinPath
  cases at_ : walk.cursor.current with
  | none =>
    refine ⟨sound, fun value mortal => ?_⟩
    rw [pins value mortal, at_, if_neg nofun]
    rfl
  | some current =>
    dsimp only
    unfold Grove.pin
    split
    · rename_i immortal
      refine ⟨sound, fun value mortal => ?_⟩
      have apart : ¬walk.cursor.current = some value := fun same => by
        cases at_.symm.trans same
        exact absurd immortal (Bool.eq_false_iff.mp mortal)
      rw [pins value mortal, if_neg apart]
      rfl
    · refine ⟨sound.of_pins, fun value mortal => ?_⟩
      have counted := pins value mortal
      show Function.update walk.grove.pinnedCount current _ value =
        standing others value + if walk.cursor.current = some value then 1 else 0
      by_cases here : value = current
      · subst here
        rw [Function.update_self, counted, at_, if_pos rfl]
      · rw [Function.update_of_ne here, counted, at_, if_neg fun same => here (Option.some.inj same).symm,
          Nat.add_zero]

theorem Loose.unpin {value : ValueId} (loose : walk.Loose others) (alone : standing others value = 0) :
    Loose others { walk with grove := walk.grove.unpin value } := by
  obtain ⟨sound, pins⟩ := loose
  unfold Grove.unpin
  split
  · exact ⟨sound, pins⟩
  · refine ⟨sound.of_pins, fun other mortal => ?_⟩
    have counted := pins other mortal
    show Function.update walk.grove.pinnedCount value _ other = standing others other
    by_cases here : other = value
    · subst here
      rw [Function.update_self, counted, alone]
    · rw [Function.update_of_ne here, counted]

theorem Loose.move {cursor : Cursor} (loose : walk.Loose others) (root : cursor.root = walk.cursor.root)
    (made : ∀ value, cursor.current = some value → value < walk.grove.freshValue) :
    Loose others { walk with cursor } :=
  ⟨⟨loose.bounded, root ▸ loose.root, made, loose.rest, loose.born⟩, loose.pins⟩

theorem Sound.grow {grove : Grove} (sound : walk.Sound others) (grows : walk.grove.Grows grove) :
    Sound others { walk with grove } where
  bounded := grows.bounded sound.bounded
  root value known := (sound.root value known).trans_le grows.fresh
  current value known := (sound.current value known).trans_le grows.fresh
  rest cursor member := (sound.rest cursor member).mono grows.fresh
  born cursor member := ⟨(sound.born cursor member).1, (sound.born cursor member).2.mono grows.fresh⟩

theorem Loose.grow {grove : Grove} (loose : walk.Loose others) (grows : walk.grove.Grows grove) :
    Loose others { walk with grove } := by
  refine ⟨loose.toSound.grow grows, fun value mortal => ?_⟩
  rcases grows.pins value mortal with ⟨mortal', same⟩ | ⟨new, unpinned⟩
  · exact same.trans (loose.pins value mortal')
  · exact unpinned.trans (loose.toSound.unmade value new).symm

section Resolving

variable {insert : Bool} {root : ValueId} {path : PathText}

theorem Loose.goOn {current : ValueId} {item : ItemId} {fromEnd : Bool} {target : Option ValueId}
    (loose : walk.Loose others)
    (made : ∀ value, target = some value → value < walk.grove.freshValue) :
    (walk.goOn current item fromEnd insert target).2.Loose others := by
  cases target with
  | some next =>
    refine loose.move rfl fun value same => ?_
    cases same
    exact made next rfl
  | none =>
    cases insert with
    | false => exact loose
    | true =>
      -- The value that is made is added to the item, and the cursor goes there.
      have new := @Grove.lt_create walk.grove true
      have grown : Loose others { walk with
          grove := ((walk.grove.create true).2.addItemValue current item (walk.grove.create true).1 false).2 } :=
        loose.grow ((Grove.grows_create true).trans (Grove.grows_addItemValue new))
      refine grown.move rfl fun value same => ?_
      cases same
      exact new.trans_le (Grove.grows_addItemValue new).fresh

theorem Loose.enter (loose : walk.Loose others) (component : Name) (insert : Bool) :
    (walk.enter component insert).2.Loose others := by
  unfold Walk.enter
  split
  · exact ⟨⟨⟨loose.bounded.items, loose.bounded.lists⟩, loose.root, loose.current, loose.rest, loose.born⟩,
      loose.pins⟩
  · rename_i current at_
    split
    · exact loose
    · dsimp only
      have found : Loose others { walk with
          grove := (walk.grove.find current (Component.parse component).name insert).2 } :=
        loose.grow (Grove.grows_find _ _)
      generalize walk.grove.find current (Component.parse component).name insert = result at found ⊢
      obtain ⟨answer, grove⟩ := result
      dsimp only at found ⊢
      split
      · exact found
      · rename_i item
        split
        · -- The iterator stands at no value, and its wrapper is a new one.
          have rooted : (walk.cursor.atValue (grove.create false).1 none none false).root = walk.cursor.root := rfl
          have wrapped := (found.grow (Grove.grows_create false)).move rooted (fun value same => by
            cases same
            exact Grove.lt_create false)
          refine ⟨⟨wrapped.bounded, wrapped.root, wrapped.current, wrapped.rest, ?_⟩, wrapped.pins⟩
          intro cursor member
          rcases List.mem_append.mp member with before | new
          · exact wrapped.born cursor before
          · rw [List.mem_singleton.mp new]
            exact ⟨rfl, wrapped.root, nofun⟩
        · split
          · rename_i next got last
            split
            · exact found.move rfl found.current
            · rename_i elements known
              refine found.goOn fun value head => ?_
              exact found.bounded.lists next elements known value (List.mem_of_head? head)
          · rename_i got _
            exact found.goOn fun value same => found.bounded.getValue same

theorem Loose.enterAll {components : List Name} (loose : walk.Loose others) :
    (enterAll insert walk components).2.Loose others := by
  induction components generalizing walk with
  | nil => exact loose
  | cons component rest ih =>
    unfold Walk.enterAll
    dsimp only
    split
    · exact ih (loose.enter component insert)
    · exact loose.enter component insert

theorem Loose.startOf (loose : walk.Loose others) (own : walk.cursor.root = some root) :
    (walk.startOf root path).Loose others := by
  unfold Walk.startOf
  dsimp only
  split
  · refine loose.move rfl fun value same => ?_
    cases same
    exact loose.root root own
  · exact loose.move rfl loose.current

theorem resolve_of_none (own : walk.cursor.root = none) :
    walk.resolve path insert = (false, { walk with cursor.lastError := [] }) := by
  obtain ⟨grove, ⟨root, current⟩, born⟩ := walk
  cases own
  rfl

theorem resolve_of_some (own : walk.cursor.root = some root) :
    walk.resolve path insert =
      ((enterAll insert (Walk.startOf { walk.unpinPath with cursor.lastError := [] } root path)
          (AgentC.Cursor.parsePathString path)).1,
        (enterAll insert (Walk.startOf { walk.unpinPath with cursor.lastError := [] } root path)
          (AgentC.Cursor.parsePathString path)).2.pinPath) := by
  obtain ⟨grove, ⟨root, current⟩, born⟩ := walk
  cases own
  cases current <;> rfl

@[simp] theorem cursor_unpinPath : walk.unpinPath.cursor = walk.cursor := by
  unfold Walk.unpinPath
  cases walk.cursor.current <;> rfl

theorem fresh_unpinPath : walk.unpinPath.grove.freshValue = walk.grove.freshValue := by
  unfold Walk.unpinPath
  cases walk.cursor.current with
  | none => rfl
  | some current =>
    dsimp only
    unfold Grove.unpin
    split <;> rfl

@[simp] theorem immortal_unpinPath : walk.unpinPath.grove.immortal = walk.grove.immortal := by
  unfold Walk.unpinPath
  cases walk.cursor.current with
  | none => rfl
  | some current => exact Grove.immortal_unpin current

theorem startOf_absolute (absolute : path.head? = some 46) :
    walk.startOf root path = { walk with
      cursor := { walk.cursor.atValue root none none false with
        pathComponents := AgentC.Cursor.parsePathString path } } := by
  unfold Walk.startOf
  dsimp only
  rw [if_pos (Bool.or_eq_true_iff.mpr (.inl (by rw [absolute]; rfl)))]

theorem resolve_of_loose (own : walk.cursor.root = some root) (loose : walk.unpinPath.Loose others) :
    (walk.resolve path insert).2.Pinned others := by
  rw [resolve_of_some own]
  have start : Loose others { walk.unpinPath with cursor.lastError := [] } := loose.move rfl loose.current
  have there : { walk.unpinPath with cursor.lastError := [] }.cursor.root = some root := by
    rw [← own, ← @cursor_unpinPath walk]
  exact (start.startOf there).enterAll.pinPath

theorem Pinned.resolve (pinned : walk.Pinned others) (path : PathText) (insert : Bool) :
    (walk.resolve path insert).2.Pinned others := by
  cases own : walk.cursor.root with
  | some root => exact resolve_of_loose own pinned.unpinPath
  | none =>
    rw [resolve_of_none own]
    exact ⟨⟨pinned.bounded, pinned.root, pinned.current, pinned.rest, pinned.born⟩, pinned.pins⟩

end Resolving

section Methods

theorem Pinned.grow {grove : Grove} (pinned : walk.Pinned others) (grows : walk.grove.Grows grove) :
    Pinned others { walk with grove } := by
  refine ⟨pinned.toSound.grow grows, fun value mortal => ?_⟩
  rcases grows.pins value mortal with ⟨mortal', same⟩ | ⟨new, unpinned⟩
  · exact same.trans (pinned.pins value mortal')
  · have apart : ¬walk.cursor.current = some value := fun same =>
      absurd (pinned.current value same) (Nat.not_lt.mpr new)
    show grove.pinnedCount value = standing others value + if walk.cursor.current = some value then 1 else 0
    rw [unpinned, if_neg apart, pinned.toSound.unmade value new]

theorem Loose.unpinPath (loose : walk.Loose others)
    (alone : ∀ value, walk.cursor.current = some value → walk.grove.immortal value = false → standing others value = 0) :
    walk.unpinPath.Loose others := by
  unfold Walk.unpinPath
  split
  · exact loose
  · rename_i current at_
    by_cases mortal : walk.grove.immortal current = false
    · exact loose.unpin (alone current at_ mortal)
    · unfold Grove.unpin
      rw [if_pos (Bool.eq_true_of_not_eq_false mortal)]
      exact loose

variable {value : ValueId}

theorem grove_unpinPath_leads {components : List Name} (leads : walk.grove.Leads value components) :
    walk.unpinPath.grove.Leads value components := by
  unfold Walk.unpinPath
  split
  · exact leads
  · exact Grove.leads_unpin leads

theorem enter_of_holds {component : Name} {item : ItemId} (at_ : walk.cursor.current = some value)
    (tree : walk.grove.list value = none)
    (held : walk.grove.holds value (Component.parse component).name = some item) :
    ((Component.parse component).iteratorMode = true → (walk.enter component false).1 = true) ∧
      ((Component.parse component).iteratorMode = false → ∀ next, walk.grove.target item component = some next →
        ∃ after, walk.enter component false = (true, after) ∧ after.cursor.current = some next ∧
          after.grove = walk.grove) := by
  have plain : walk.grove.isListMode value = false := by
    unfold Grove.isListMode
    rw [tree]
    rfl
  have found : walk.grove.find value (Component.parse component).name false = (some item, walk.grove) := by
    rw [Grove.find_eq, plain, held]
    rfl
  constructor
  · intro iterates
    simp only [enter, at_, plain, found, iterates, if_true, Bool.false_eq_true, if_false]
  · intro iterates next led
    obtain ⟨head, got, last⟩ := Option.bind_eq_some_iff.mp led
    have moved : walk.enter component false = walk.goOn value item (Component.parse component).tailDeref false next := by
      simp only [enter, at_, plain, found, iterates, Bool.false_eq_true, if_false, got]
      cases tail : (Component.parse component).valueTailDeref with
      | false =>
        rw [tail, if_neg Bool.false_ne_true] at last
        rw [last]
      | true =>
        rw [tail, if_pos rfl] at last
        obtain ⟨elements, known, first⟩ := Option.bind_eq_some_iff.mp last
        simp only [known, first]
    exact ⟨_, moved, rfl, rfl⟩

theorem enterAll_of_leads {components : List Name} (at_ : walk.cursor.current = some value)
    (leads : walk.grove.Leads value components) :
    (enterAll false walk components).1 = true := by
  induction components generalizing walk value with
  | nil => rfl
  | cons component rest ih =>
    obtain ⟨tree, item, held, further⟩ := leads
    obtain ⟨iterator, through⟩ := enter_of_holds at_ tree held
    unfold enterAll
    cases iterates : (Component.parse component).iteratorMode with
    | true =>
      rw [iterates, if_pos rfl] at further
      subst further
      dsimp only
      rw [if_pos (iterator iterates)]
      rfl
    | false =>
      rw [iterates, if_neg Bool.false_ne_true] at further
      obtain ⟨next, led, others⟩ := further
      obtain ⟨after, entered, current, grove⟩ := through iterates next led
      rw [entered]
      exact ih current (grove ▸ others)

theorem Pinned.up (pinned : walk.Pinned others)
    (fine : walk.cursor.pathComponents = [] ∨ ∀ root, walk.cursor.root = some root →
      (∀ value, walk.cursor.current = some value → walk.grove.immortal value = false → standing others value = 0) ∧
        walk.grove.Leads root (AgentC.Cursor.parsePathString walk.cursor.shortened.getPath)) :
    walk.up.2.Pinned others := by
  by_cases none_ : walk.cursor.pathComponents = []
  · unfold Walk.up
    rw [if_pos (List.isEmpty_iff.mpr none_)]
    exact pinned
  have fine := fine.resolve_left none_
  obtain ⟨popped, made⟩ : ∃ popped, popped =
      Walk.mk walk.unpinPath.grove walk.cursor.shortened walk.unpinPath.born := ⟨_, rfl⟩
  have goes : walk.up = if (popped.resolve popped.cursor.getPath false).1 then
      popped.resolve popped.cursor.getPath false
    else (false, (popped.resolve popped.cursor.getPath false).2.pinPath) := by
    rw [made]
    exact if_neg (mt List.isEmpty_iff.mp none_)
  rw [goes]
  have cursor : popped.cursor = walk.cursor.shortened := by rw [made]
  have grove : popped.grove = walk.unpinPath.grove := by rw [made]
  have loose : popped.Loose others := by
    rw [made]
    refine pinned.unpinPath.move ?_ fun value at_ => pinned.unpinPath.current value ?_
    · rw [cursor_unpinPath]
      rfl
    · rw [cursor_unpinPath]
      exact at_
  cases own : walk.cursor.root with
  | none =>
    -- Nothing is resolved without a root, and the pin that was taken away is put back.
    have own' : popped.cursor.root = none := by rw [cursor]; exact own
    rw [resolve_of_none own']
    have reset : Loose others { popped with cursor.lastError := [] } := loose.move rfl loose.current
    exact reset.pinPath
  | some root =>
    obtain ⟨alone, leads⟩ := fine root own
    have own' : popped.cursor.root = some root := by rw [cursor]; exact own
    have twice : popped.unpinPath.Loose others := by
      refine loose.unpinPath fun value at_ mortal => alone value ?_ ?_
      · rw [cursor] at at_
        exact at_
      · rwa [grove, immortal_unpinPath] at mortal
    have gets : (popped.resolve popped.cursor.getPath false).1 = true := by
      have led := grove_unpinPath_leads leads
      rw [← grove, ← cursor] at led
      rw [resolve_of_some own']
      rw [startOf_absolute rfl]
      exact enterAll_of_leads rfl (grove_unpinPath_leads led)
    rw [if_pos gets]
    exact resolve_of_loose own' twice

theorem Loose.arrive {cursor : Cursor} (loose : walk.Loose others) (root : cursor.root = walk.cursor.root)
    (made : ∀ value, cursor.current = some value → value < walk.grove.freshValue) :
    Walk.Pinned others { walk with cursor }.pinPath :=
  (loose.move root made).pinPath

theorem root_unpinPath : walk.unpinPath.cursor.root = walk.cursor.root := by
  rw [cursor_unpinPath]

theorem Pinned.down (pinned : walk.Pinned others) : walk.down.2.Pinned others := by
  have loose := pinned.unpinPath
  unfold Walk.down
  split
  · exact pinned
  · rename_i current at_
    dsimp only
    split
    · exact loose.pinPath
    · rename_i name item value child
      dsimp only
      refine loose.arrive root_unpinPath.symm fun other same => ?_
      cases same
      -- The child is an element of the list, or a value of an item.
      split at child
      · rename_i elements known
        obtain ⟨element, last, same⟩ := Option.map_eq_some_iff.mp child
        cases same
        exact loose.bounded.lists current elements known _ (List.mem_of_getLast? last)
      · obtain ⟨entry, -, got⟩ := List.exists_of_findSome?_eq_some child
        obtain ⟨head, held, same⟩ := Option.map_eq_some_iff.mp got
        cases same
        exact loose.bounded.getValue held

theorem Pinned.find (pinned : walk.Pinned others) (pattern : Name → Bool) :
    (walk.find pattern).2.Pinned others := by
  have loose := pinned.unpinPath
  unfold Walk.find
  split
  · exact pinned
  · split
    · exact pinned
    · dsimp only
      split
      · exact loose.pinPath
      · rename_i name item value found
        dsimp only
        refine loose.arrive root_unpinPath.symm fun other same => ?_
        cases same
        obtain ⟨name', -, got⟩ := List.exists_of_findSome?_eq_some found
        split at got
        · obtain ⟨both, named, same⟩ := Option.map_eq_some_iff.mp got
          cases same
          exact loose.bounded.named named
        · cases got

theorem Loose.filterFrom {predicate : Name → Bool} {current : ValueId} {names : List Name}
    (loose : walk.Loose others) (at_ : walk.cursor.current = some current)
    (fine : ∀ name ∈ names, ∀ item value, walk.grove.named current name = some (item, value) →
      predicate name = false ∧ (walk.grove.immortal value = false → standing others value = 0)) :
    (filterFrom predicate current walk names).1 = false ∧
      (filterFrom predicate current walk names).2.Loose others := by
  induction names generalizing walk with
  | nil => exact ⟨rfl, loose⟩
  | cons name rest ih =>
    obtain ⟨own, later⟩ := List.forall_mem_cons.mp fine
    unfold Walk.filterFrom
    split
    · exact ih loose at_ later
    · rename_i item value named
      obtain ⟨rejected, alone⟩ := own item value named
      rw [rejected, if_neg Bool.false_ne_true]
      have copied := loose.pinPath.unpinPath
      have same : walk.pinPath.unpinPath.cursor = walk.cursor ∧
          walk.pinPath.unpinPath.grove = (walk.grove.pin current).unpin current := by
        unfold Walk.pinPath
        rw [at_]
        unfold Walk.unpinPath
        dsimp only
        rw [at_]
        exact ⟨rfl, rfl⟩
      have unpinned : Loose others { walk.pinPath.unpinPath with
          grove := walk.pinPath.unpinPath.grove.unpin value } := by
        by_cases mortal : walk.grove.immortal value = false
        · exact copied.unpin (alone mortal)
        · have stays : walk.pinPath.unpinPath.grove.unpin value = walk.pinPath.unpinPath.grove := by
            unfold Grove.unpin
            rw [if_pos]
            rw [same.2, Grove.immortal_unpin, Grove.immortal_pin]
            exact Bool.eq_true_of_not_eq_false mortal
          rw [stays]
          exact copied
      refine ih unpinned (same.1 ▸ at_) fun name' member item' value' named' => ?_
      rw [same.2, Grove.named_unpin, Grove.named_unpin, Grove.named_pin] at named'
      rw [same.2, Grove.immortal_unpin, Grove.immortal_unpin, Grove.immortal_pin]
      exact later name' member item' value' named'

theorem named_unpinPath (owner : ValueId) (name : Name) :
    walk.unpinPath.grove.named owner name = walk.grove.named owner name := by
  unfold Walk.unpinPath
  cases walk.cursor.current with
  | none => rfl
  | some current => exact Grove.named_unpin current owner name

theorem Pinned.filter {predicate : Name → Bool} (pinned : walk.Pinned others)
    (fine : ∀ current, walk.cursor.current = some current → ∀ name ∈ lookupNames, ∀ item value,
      walk.grove.named current name = some (item, value) →
        predicate name = false ∧ (walk.grove.immortal value = false → standing others value = 0)) :
    (walk.filter predicate).2.Pinned others := by
  unfold Walk.filter
  split
  · exact pinned
  · rename_i current at_
    split
    · exact pinned
    · have filtered : (filterFrom predicate current walk.unpinPath lookupNames).1 = false ∧
          (filterFrom predicate current walk.unpinPath lookupNames).2.Loose others :=
        pinned.unpinPath.filterFrom (by rw [cursor_unpinPath]; exact at_) fun name member item value named => by
          rw [named_unpinPath] at named
          rw [immortal_unpinPath]
          exact fine current at_ name member item value named
      dsimp only
      rw [filtered.1, if_neg Bool.false_ne_true]
      exact filtered.2.pinPath

theorem toSibling_of_lone (lone : walk.cursor.Lone) (forward : Bool) :
    walk.toSibling forward = (false, walk) := by
  unfold Walk.toSibling
  rcases lone with none_ | none_ | none_
  · rw [none_]
  · rw [none_]
    cases walk.cursor.current <;> rfl
  · rw [none_]
    cases walk.cursor.current <;> cases walk.cursor.currentItem <;> rfl

theorem Pinned.next (pinned : walk.Pinned others) (fine : walk.cursor.history.isSome ∨ walk.cursor.Lone) :
    walk.next.2.Pinned others := by
  unfold Walk.next
  split
  · split
    · exact ⟨⟨pinned.bounded, pinned.root, pinned.current, pinned.rest, pinned.born⟩, pinned.pins⟩
    · exact pinned
  · rename_i none_
    rw [none_] at fine
    rw [toSibling_of_lone (fine.resolve_left Bool.false_ne_true)]
    exact pinned

theorem Pinned.assign (pinned : walk.Pinned others) (refused : ¬walk.Assignable) :
    (walk.assign value).2.Pinned others := by
  unfold Walk.assign
  split
  · rename_i current parent item at_ owner held
    split
    · exact pinned
    · rename_i writable
      -- What is left to refuse it is that the parent is a list, which neither loses nor gets a value.
      have lists : walk.grove.isListMode parent = true := by
        by_contra tree
        refine refused ⟨by rw [at_]; exact nofun, Bool.eq_false_iff.mpr writable, parent, item, owner, held, ?_⟩
        unfold Grove.isListMode at tree
        exact Option.not_isSome_iff_eq_none.mp tree
      have same : (walk.grove.popItemValue parent item walk.cursor.currentItemFromEnd).2 = walk.grove := by
        unfold Grove.popItemValue
        rw [if_pos lists]
      have added : walk.grove.addItemValue parent item value walk.cursor.currentItemFromEnd = (false, walk.grove) := by
        unfold Grove.addItemValue
        rw [lists]
        rfl
      dsimp only
      rw [same, ite_self, added]
      exact pinned
  · exact pinned

theorem grows_popCurrent : walk.grove.Grows walk.popCurrent.2.grove ∧
    walk.popCurrent.2 = { walk with grove := walk.popCurrent.2.grove } := by
  unfold popCurrent
  split
  · exact ⟨Grove.grows_popItemValue _ _ _, rfl⟩
  · exact ⟨.refl _, rfl⟩

theorem Pinned.remove (pinned : walk.Pinned others) (refused : ¬walk.Removable) :
    walk.remove.2.Pinned others := by
  unfold Walk.remove
  split
  · exact pinned
  · rename_i guarded
    simp only [Bool.or_eq_true, not_or, Option.isNone_iff_eq_none, Bool.not_eq_true, List.isEmpty_iff] at guarded
    obtain ⟨⟨⟨⟨current, parent⟩, item⟩, writable⟩, path⟩ := guarded
    obtain ⟨owner, owned⟩ := Option.ne_none_iff_exists'.mp parent
    obtain ⟨held, holds⟩ := Option.ne_none_iff_exists'.mp item
    have nothing : walk.popCurrent.1 = none := by
      by_contra popped
      refine refused ⟨current, writable, path, owner, held, owned, holds, ?_⟩
      unfold popCurrent at popped
      rw [owned, holds] at popped
      dsimp only at popped
      unfold Grove.popItemValue at popped
      split at popped
      · exact absurd rfl popped
      · rename_i tree
        refine ⟨Option.not_isSome_iff_eq_none.mp tree, fun none_ => popped ?_⟩
        dsimp only
        unfold Forest.popItemValue
        split
        · rfl
        · exact none_
    obtain ⟨grows, same⟩ := @grows_popCurrent walk
    dsimp only
    rw [nothing]
    show walk.popCurrent.2.Pinned others
    rw [same]
    exact pinned.grow grows

theorem Pinned.removeHeadOnly (pinned : walk.Pinned others) : walk.removeHeadOnly.2.Pinned others := by
  unfold Walk.removeHeadOnly
  split
  · rename_i parent item owner held
    split
    · exact pinned
    · obtain ⟨grows, same⟩ := @grows_popCurrent walk.unpinPath
      have popped : walk.unpinPath.popCurrent.2.Loose others := by
        rw [same]
        exact pinned.unpinPath.grow grows
      dsimp only
      split
      · dsimp only
        refine popped.arrive rfl fun value at_ => ?_
        cases at_
      · dsimp only
        exact popped.arrive rfl fun value head => popped.bounded.getValue head
  · exact pinned

end Methods

end Walk

end Walks

section Sessions

variable {session : Session}

/-- All cursors refer to values that have been made, and the pins are balanced. -/
structure Session.Kept (session : Session) : Prop where
  bounded : session.grove.Bounded
  below : ∀ cursor ∈ session.cursors, cursor.Below session.grove.freshValue
  balanced : session.Balanced

theorem standing_eq {cursors : List Cursor} {place : Nat} {cursor : Cursor} (there : cursors[place]? = some cursor)
    (value : ValueId) : standing cursors value =
      standing (cursors.eraseIdx place) value + if cursor.current = some value then 1 else 0 := by
  obtain ⟨inside, same⟩ := List.getElem?_eq_some_iff.mp there
  have perm := List.getElem_cons_eraseIdx_perm inside
  rw [same] at perm
  unfold standing
  rw [← perm.countP_eq, List.countP_cons]
  simp

theorem standing_set {cursors born : List Cursor} {place : Nat} {cursor moved : Cursor}
    (there : cursors[place]? = some cursor) (nowhere : ∀ iterator ∈ born, iterator.current = none)
    (value : ValueId) : standing (cursors.set place moved ++ born) value =
      standing (cursors.eraseIdx place) value + if moved.current = some value then 1 else 0 := by
  obtain ⟨inside, -⟩ := List.getElem?_eq_some_iff.mp there
  have none_ : born.countP (·.current = some value) = 0 := by
    refine List.countP_eq_zero.mpr fun iterator member same => ?_
    rw [nowhere iterator member] at same
    exact absurd (of_decide_eq_true same) nofun
  unfold standing
  rw [List.countP_append, none_, (List.set_perm_cons_eraseIdx inside moved).countP_eq, List.countP_cons]
  simp

namespace Session.Kept

variable {place : Nat} {cursor : Cursor}

theorem pinned (kept : session.Kept) (there : session.cursors[place]? = some cursor) :
    Walk.Pinned (session.cursors.eraseIdx place) { grove := session.grove, cursor } where
  bounded := kept.bounded
  root := (kept.below cursor (List.mem_of_getElem? there)).root
  current := (kept.below cursor (List.mem_of_getElem? there)).current
  rest other member := kept.below other (List.mem_of_mem_eraseIdx member)
  born := List.forall_mem_nil _
  pins value mortal := (kept.balanced value mortal).trans (standing_eq there value)

theorem act {method : Walk → Bool × Walk} {after : Session}
    (acted : session.act place method = some after)
    (keeps : ∀ cursor, session.cursors[place]? = some cursor →
      (method { grove := session.grove, cursor }).2.Pinned (session.cursors.eraseIdx place)) :
    after.Kept := by
  obtain ⟨cursor, there, rfl⟩ := Option.map_eq_some_iff.mp acted
  have pinned := keeps cursor there
  generalize (method { grove := session.grove, cursor }).2 = walk at pinned ⊢
  refine ⟨pinned.bounded, fun other member => ?_, fun value mortal => ?_⟩
  · rcases List.mem_append.mp member with old | new
    · rcases List.mem_cons.mp ((List.set_perm_cons_eraseIdx
        (List.getElem?_eq_some_iff.mp there).1 walk.cursor).mem_iff.mp old) with rfl | rest
      · exact ⟨pinned.root, pinned.current⟩
      · exact pinned.rest other rest
    · exact (pinned.born other new).2
  · rw [standing_set there fun iterator member => (pinned.born iterator member).1]
    exact pinned.pins value mortal

theorem add (kept : session.Kept) (below : cursor.Below session.grove.freshValue) :
    (session.add cursor).Kept := by
  have loose : Walk.Loose session.cursors { grove := session.grove, cursor } :=
    ⟨⟨kept.bounded, below.root, below.current, kept.below, List.forall_mem_nil _⟩, kept.balanced⟩
  have pinned := loose.pinPath
  have same : Walk.cursor (Walk.pinPath { grove := session.grove, cursor }) = cursor := by
    unfold Walk.pinPath
    cases cursor.current <;> rfl
  refine ⟨pinned.bounded, fun other member => ?_, fun value mortal => ?_⟩
  · rcases List.mem_append.mp member with old | new
    · exact pinned.rest other old
    · rw [List.mem_singleton.mp new]
      exact ⟨fun value known => pinned.root value ((congrArg Cursor.root same).trans known),
        fun value known => pinned.current value ((congrArg Cursor.current same).trans known)⟩
  · have counted := pinned.pins value mortal
    rw [same] at counted
    show _ = standing (session.cursors ++ [cursor]) value
    unfold standing at counted ⊢
    rw [List.countP_append, List.countP_singleton]
    refine counted.trans (congrArg _ ?_)
    simp

theorem destroy (kept : session.Kept) (there : session.cursors[place]? = some cursor) :
    Session.Kept { grove := (Walk.unpinPath { grove := session.grove, cursor }).grove
                   cursors := session.cursors.eraseIdx place } := by
  have loose := (kept.pinned there).unpinPath
  exact ⟨loose.bounded, loose.rest, loose.pins⟩

theorem standing_of_alone {value : ValueId} (alone : session.Alone place value)
    (mortal : session.grove.immortal value = false) :
    standing (session.cursors.eraseIdx place) value = 0 :=
  List.countP_eq_zero.mpr fun other member same => alone mortal other member (of_decide_eq_true same)

theorem step (kept : session.Kept) {call : Call} {after : Session} (proper : session.Proper call)
    (stepped : session.step call = some after) : after.Kept := by
  replace stepped := (Option.filter_eq_some_iff.mp stepped).1
  cases call with
  | construct root =>
    unfold Session.perform at stepped
    dsimp only at stepped
    split at stepped
    · rename_i made
      cases stepped
      have below (value : ValueId) (known : root = some value) : value < session.grove.freshValue := by
        rw [known] at made
        exact of_decide_eq_true made
      exact kept.add ⟨below, below⟩
    · cases stepped
  | copy source =>
    obtain ⟨cursor, there, rfl⟩ := Option.map_eq_some_iff.mp stepped
    exact kept.add (kept.below cursor (List.mem_of_getElem? there))
  | copyAssign target source =>
    unfold Session.perform at stepped
    dsimp only at stepped
    split at stepped
    · obtain ⟨_, -, rfl⟩ := Option.map_eq_some_iff.mp stepped
      exact kept
    · obtain ⟨other, found, acted⟩ := Option.bind_eq_some_iff.mp stepped
      have below := kept.below other (List.mem_of_getElem? found)
      refine act acted fun cursor there => ?_
      have loose := (kept.pinned there).unpinPath
      have fresh : (Walk.unpinPath { grove := session.grove, cursor }).grove.freshValue =
          session.grove.freshValue := Walk.fresh_unpinPath
      have moved : Walk.Loose (session.cursors.eraseIdx target) { Walk.unpinPath { grove := session.grove, cursor } with
          cursor := other } :=
        ⟨⟨loose.bounded, fresh ▸ below.root, fresh ▸ below.current, loose.rest, loose.born⟩, loose.pins⟩
      exact moved.pinPath
  | destroy place =>
    obtain ⟨cursor, there, rfl⟩ := Option.map_eq_some_iff.mp stepped
    exact kept.destroy there
  | resolve place path insert =>
    have acted : session.act place (·.resolve path insert) = some after := stepped
    exact act acted fun cursor there => (kept.pinned there).resolve path insert
  | up place =>
    refine act stepped fun cursor there => (kept.pinned there).up ?_
    refine (proper cursor there).imp id fun fine root own => ?_
    obtain ⟨alone, leads⟩ := fine root own
    exact ⟨fun value at_ => standing_of_alone (alone value at_), leads⟩
  | down place => exact act stepped fun cursor there => (kept.pinned there).down
  | next place => exact act stepped fun cursor there => (kept.pinned there).next (proper cursor there)
  | prev place =>
    refine act stepped fun cursor there => ?_
    unfold Walk.prev
    rw [Walk.toSibling_of_lone (proper cursor there)]
    exact kept.pinned there
  | find place pattern =>
    have acted : session.act place (·.find pattern) = some after := stepped
    exact act acted fun cursor there => (kept.pinned there).find pattern
  | filter place predicate =>
    have acted : session.act place (·.filter predicate) = some after := stepped
    refine act acted fun cursor there => (kept.pinned there).filter ?_
    intro current at_ name member item value named
    obtain ⟨rejected, alone⟩ := proper cursor there current at_ name member item value named
    exact ⟨rejected, standing_of_alone alone⟩
  | assign place value =>
    unfold Session.perform at stepped
    dsimp only at stepped
    split at stepped
    · exact act stepped fun cursor there => (kept.pinned there).assign (proper cursor there)
    · cases stepped
  | remove place =>
    exact act stepped fun cursor there => (kept.pinned there).remove (proper cursor there)
  | removeHeadOnly place => exact act stepped fun cursor there => (kept.pinned there).removeHeadOnly

end Session.Kept

/-- Values that no cursor walks over yet. -/
structure Unvisited where
  grove : Grove
  bounded : grove.Bounded
  unpinned : ∀ value, grove.immortal value = false → grove.pinnedCount value = 0

def Unvisited.start (listree : Unvisited) : Session where
  grove := listree.grove
  cursors := []

/-- The pins stay balanced in every run whose calls meet the condition. -/
theorem balanced_throughout (listree : Unvisited) (calls : List Call)
    (proper : StepsMeet Session.step Session.Proper listree.start calls) :
    Throughout Session.step Session.Balanced listree.start calls := by
  have start : listree.start.Kept :=
    ⟨listree.bounded, List.forall_mem_nil _, listree.unpinned⟩
  have through : Throughout Session.step Session.Kept listree.start calls :=
    throughout_of_stepsMeet (fun session call after kept fine stepped => Session.Kept.step kept fine stepped)
      calls listree.start start proper
  exact Throughout.imp (fun _ kept => kept.balanced) calls _ through

def pairOfValues : Unvisited where
  grove :=
    { tree := fun value => if value = 0 then (AATree.new_.add (ascii "a") 0).add (ascii "b") 1 else .new_
      readOnly := fun _ => false
      isEmpty := fun _ => false
      pinnedCount := fun _ => 0
      item := fun item =>
        if item = 0 then ⟨ascii "a", [1]⟩ else if item = 1 then ⟨ascii "b", [2]⟩ else ⟨[], []⟩
      freshValue := 4
      freshItem := 2
      crashed := false
      list := fun _ => none
      immortal := fun _ => false
      hollow := fun _ => false }
  bounded := by
    refine ⟨fun item value member => ?_, fun value elements known => by cases known⟩
    dsimp only at member ⊢
    split at member
    · rw [List.mem_singleton.mp member]
      decide
    · split at member
      · rw [List.mem_singleton.mp member]
        decide
      · cases member
  unpinned _ _ := rfl

/-- A cursor that nobody stands beside may go up again. -/
theorem balanced_throughout_up :
    StepsMeet Session.step Session.Proper pairOfValues.start
        [.construct (some 0), .resolve 0 (ascii ".a") false, .up 0] ∧
      Throughout Session.step Session.Balanced pairOfValues.start
        [.construct (some 0), .resolve 0 (ascii ".a") false, .up 0] := by
  have proper : StepsMeet Session.step Session.Proper pairOfValues.start
      [.construct (some 0), .resolve 0 (ascii ".a") false, .up 0] := by
    intro first stepped
    cases stepped
    refine ⟨trivial, fun second stepped => ?_⟩
    cases stepped
    refine ⟨trivial, fun third _ => ⟨fun cursor there => ?_, trivial⟩⟩
    cases there
    refine .inr fun root own => ⟨fun value _ _ other member => ?_, trivial⟩
    cases member
  exact ⟨proper, balanced_throughout _ _ proper⟩

/-- The pins of a value after some calls, beside the live cursors that stand there. -/
def pinsAfter (calls : List Call) (value : ValueId) : Option (Nat × Nat) :=
  (runFrom Session.step pairOfValues.start calls).map fun session =>
    (session.grove.pinnedCount value, standing session.cursors value)

/--
Pins that are lost and pins that are left.

After going up beside another cursor, after going to a sibling, assigning, removing and filtering, a value is pinned
less or more often than cursors stand there.
-/
theorem balanced_fails :
    pinsAfter [.construct (some 0), .resolve 0 (ascii ".a") false, .copy 0, .up 0] 1 = some (0, 1) ∧
      pinsAfter [.construct (some 0), .resolve 0 (ascii ".a") false, .next 0] 1 = some (2, 1) ∧
      pinsAfter [.construct (some 0), .resolve 0 (ascii ".a") false, .assign 0 3] 1 = some (1, 0) ∧
      pinsAfter [.construct (some 0), .resolve 0 (ascii ".a") false, .remove 0] 0 = some (2, 1) ∧
      pinsAfter [.construct (some 0), .copy 0, .resolve 0 (ascii ".a") false, .filter 1 fun _ => false] 1 =
        some (0, 1) ∧
      ¬Throughout Session.step Session.Balanced pairOfValues.start
        [.construct (some 0), .resolve 0 (ascii ".a") false, .copy 0, .up 0] := by
  have lost : pinsAfter [.construct (some 0), .resolve 0 (ascii ".a") false, .copy 0, .up 0] 1 = some (0, 1) := by
    decide +kernel
  have mortal : (runFrom Session.step pairOfValues.start
      [.construct (some 0), .resolve 0 (ascii ".a") false, .copy 0, .up 0]).map (·.grove.immortal 1) =
        some false := by decide +kernel
  refine ⟨lost, by decide +kernel, by decide +kernel, by decide +kernel, by decide +kernel, fun through => ?_⟩
  obtain ⟨session, ran, counts⟩ := Option.map_eq_some_iff.mp lost
  rw [ran] at mortal
  have same := through.last _ _ session ran 1 (Option.some.inj mortal)
  rw [(Prod.mk.inj counts).1, (Prod.mk.inj counts).2] at same
  cases same

end Sessions

end AgentC.Pinning

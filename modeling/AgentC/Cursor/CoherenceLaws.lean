import AgentC.Cursor.Coherence
import AgentC.Cursor.Resolving

/-! A cursor stays coherent as long as its calls do not meet a defect. -/

namespace AgentC

namespace Forest.Alike

variable {forest next : Forest}

theorem passes (alike : forest.Alike next) {insert : Bool} :
    ∀ {components : List Name} {value : ValueId}, forest.Passes insert value components →
      next.Passes insert value components := by
  have readOnly : next.readOnly = forest.readOnly := by rw [alike]
  intro components
  induction components with
  | nil => intro value _; exact trivial
  | cons component rest ih =>
    intro value passes
    obtain ⟨writable, onward⟩ := passes
    refine ⟨readOnly ▸ writable, ?_⟩
    rw [alike.child]
    cases leads : forest.child value component with
    | some target =>
      rw [leads] at onward
      exact ih onward
    | none =>
      rw [leads] at onward
      exact onward

end Forest.Alike

namespace Cursor

section Enter

variable {cursor : Cursor} {component : Name} {components : List Name} {target : ValueId}

/-- What `resolve` makes of a path that can be taken. -/
structure Entered (cursor : Cursor) (components : List Name) (there : Cursor) : Prop where
  sound : there.forest.Sound
  extends_ : cursor.forest.Extends there.forest
  leads : there.forest.follow cursor.current components = some there.current
  root : there.root = cursor.root
  path : there.pathComponents = cursor.pathComponents
  item : there.currentItem.isSome = (cursor.currentItem.isSome || !components.isEmpty)

theorem values_of_getValue {forest : Forest} {item : ItemId} {fromEnd : Bool}
    (none_ : forest.getValue item fromEnd = none) : (forest.item item).values = [] := by
  unfold Forest.getValue at none_
  split at none_
  · exact List.getLast?_eq_none_iff.mp none_
  · exact List.head?_eq_none_iff.mp none_

theorem enter_new (sound : cursor.forest.Sound) (below : cursor.current < cursor.forest.freshValue)
    (writable : cursor.forest.readOnly cursor.current = false)
    (nowhere : cursor.forest.child cursor.current component = none)
    (insertable : Component.Insertable component) :
    ∃ there : Cursor, cursor.enter component true = (true, there) ∧
      Entered cursor [component] there ∧ there.forest.readOnly there.current = false ∧
      there.current < there.forest.freshValue ∧
      ∀ later, there.forest.child there.current later = none := by
  -- A forest with an item for the name and no value in it.
  obtain ⟨item, forest, found, sound', extends_, held, nothing, sameReadOnly, sameFresh⟩ :
      ∃ item forest, cursor.forest.find cursor.current (Component.parse component).name true =
        (some item, forest) ∧ forest.Sound ∧ cursor.forest.Extends forest ∧
        forest.holds cursor.current (Component.parse component).name = some item ∧
        (forest.item item).values = [] ∧ forest.readOnly = cursor.forest.readOnly ∧
        forest.freshValue = cursor.forest.freshValue := by
    cases held : cursor.forest.holds cursor.current (Component.parse component).name with
    | some item =>
      refine ⟨item, cursor.forest, Forest.find_held writable held, sound, .refl _, held, ?_, rfl, rfl⟩
      unfold Forest.child at nowhere
      simp only [insertable.iteratorMode, insertable.valueTailDeref, held, Bool.or_self,
        Bool.false_eq_true, if_false, Option.bind_some] at nowhere
      exact values_of_getValue nowhere
    | none =>
      have named := insertable.plain.named
      refine ⟨_, _, sound.find_absent writable named held, sound.added insertable.plain held,
        sound.extends_added named held, ?_, ?_, rfl, rfl⟩
      · rw [sound.holds_added named held, if_pos rfl, Function.update_self]
      · show (Function.update cursor.forest.item cursor.forest.freshItem _ _).values = _
        rw [Function.update_self]
  have none_ : ∀ fromEnd, forest.getValue item fromEnd = none := by
    intro fromEnd
    unfold Forest.getValue
    rw [nothing]
    cases fromEnd <;> rfl
  have current : cursor.current ≠ forest.freshValue := by
    rw [sameFresh]
    exact Nat.ne_of_lt below
  have grows : (forest.create true).2.addItemValue cursor.current item (forest.create true).1 false =
      forest.grown item := by
    have open_ : (forest.create true).2.readOnly cursor.current = false := by
      show Function.update forest.readOnly forest.freshValue false cursor.current = false
      rw [Function.update_of_ne current, sameReadOnly]
      exact writable
    have empty : ((forest.create true).2.item item).values = [] := nothing
    unfold Forest.addItemValue
    rw [if_neg (by simp [open_])]
    simp only [empty, Bool.false_eq_true, if_false]
    rfl
  have held' : (forest.grown item).holds cursor.current (Component.parse component).name = some item := by
    rw [Forest.holds_grown, if_neg current]
    exact held
  have entered : cursor.enter component true =
      (true, cursor.moveTo (forest.grown item) item forest.freshValue
        (Component.parse component).tailDeref) := by
    unfold enter
    simp only [found, insertable.iteratorMode, none_, Bool.false_eq_true, if_false, if_true, grows]
    rfl
  refine ⟨_, entered, ⟨sound'.grown item, extends_.trans (Forest.extends_grown forest nothing), ?_,
    rfl, rfl, by simp [moveTo]⟩, ?_, Nat.lt_succ_self _, fun later => ?_⟩
  · have leads : (forest.grown item).child cursor.current component = some forest.freshValue := by
      refine Forest.child_eq_some.mpr
        ⟨insertable.iteratorMode, insertable.valueTailDeref, item, held', ?_⟩
      unfold Forest.getValue
      rw [Forest.values_grown, if_pos rfl]
      cases (Component.parse component).tailDeref <;> rfl
    show (forest.grown item).follow cursor.current [component] = some forest.freshValue
    rw [Forest.follow_cons, leads]
    rfl
  · exact Function.update_self _ _ _
  · show (forest.grown item).child forest.freshValue later = none
    unfold Forest.child
    rw [Forest.holds_grown, if_pos rfl]
    exact ite_self _

/-- A path that can be taken is taken. -/
theorem enterAll_passes {insert : Bool} : ∀ {components : List Name} {cursor : Cursor},
    cursor.forest.Sound → cursor.current < cursor.forest.freshValue →
      cursor.forest.Passes insert cursor.current components →
        ∃ there : Cursor, enterAll insert cursor components = (true, there) ∧
          Entered cursor components there := by
  intro components
  induction components with
  | nil =>
    intro cursor sound _ _
    exact ⟨cursor, rfl, sound, .refl _, rfl, rfl, rfl, (Bool.or_false _).symm⟩
  | cons component rest ih =>
    intro cursor sound below passes
    obtain ⟨writable, onward⟩ := passes
    -- One step forward, from where the rest of the path can be taken.
    obtain ⟨middle, entered, first, below', passes'⟩ : ∃ middle : Cursor,
        cursor.enter component insert = (true, middle) ∧ Entered cursor [component] middle ∧
        middle.current < middle.forest.freshValue ∧
        middle.forest.Passes insert middle.current rest := by
      cases leads : cursor.forest.child cursor.current component with
      | some target =>
        obtain ⟨item, -, -, entered⟩ := enter_child writable leads
        rw [leads] at onward
        refine ⟨_, entered, ⟨sound, .refl _, ?_, rfl, rfl, by simp [moveTo]⟩, sound.child_lt leads,
          onward⟩
        show cursor.forest.follow cursor.current [component] = some target
        rw [Forest.follow_cons, leads]
        rfl
      | none =>
        rw [leads] at onward
        obtain ⟨rfl, insertable⟩ := onward
        obtain ⟨middle, entered, first, open_, below', nothing⟩ :=
          enter_new sound below (writable rfl) leads (insertable component List.mem_cons_self)
        refine ⟨middle, entered, first, below', ?_⟩
        cases rest with
        | nil => exact trivial
        | cons second others =>
          refine ⟨fun _ => open_, ?_⟩
          rw [nothing]
          exact ⟨rfl, fun missing member => insertable missing (List.mem_cons_of_mem _ member)⟩
    obtain ⟨there, all, last⟩ := ih first.sound below' passes'
    refine ⟨there, ?_, last.sound, first.extends_.trans last.extends_, ?_, last.root.trans first.root,
      last.path.trans first.path, ?_⟩
    · rw [enterAll, entered]
      exact all
    · have reached := last.extends_.follow first.sound
        (Nat.lt_of_lt_of_le below first.extends_.1) first.leads
      rw [show component :: rest = [component] ++ rest from rfl, Forest.follow_append, reached]
      exact last.leads
    · rw [last.item, first.item]
      simp

end Enter

section Placed

variable {cursor there : Cursor} {path : PathText} {components : List Name} {target : ValueId}

/-- The path of a cursor leads from its root to its current value. -/
structure Placed (cursor : Cursor) : Prop where
  sound : cursor.forest.Sound
  root : cursor.root < cursor.forest.freshValue
  leads : cursor.forest.follow cursor.root cursor.pathComponents = some cursor.current
  stretches : ∀ component ∈ cursor.pathComponents, Stretch component
  item : cursor.currentItem.isSome = !cursor.pathComponents.isEmpty

theorem Placed.new {forest : Forest} {root : ValueId} (sound : forest.Sound)
    (below : root < forest.freshValue) : (new forest root).Placed where
  sound := sound.pin root
  root := below
  leads := rfl
  stretches := by
    intro component member
    cases member
  item := rfl

theorem Placed.coherent (placed : cursor.Placed) : cursor.Coherent := by
  obtain ⟨there, resolved, -, -, current, -, -⟩ :=
    @resolve_follow (Cursor.new cursor.forest cursor.root) _ _ placed.stretches placed.leads
  have resolved : (Cursor.new cursor.forest cursor.root).resolve cursor.getPath false =
      (true, there) := resolved
  exact ⟨by rw [resolved], by rw [resolved]; exact current⟩

/-- A call leaves a cursor in its place when it does what it should. -/
structure Served (cursor : Cursor) (call : Call) : Prop where
  placed : (cursor.call call).2.Placed
  right : Move.Right ⟨cursor, call, (cursor.call call).1, (cursor.call call).2⟩

theorem Placed.served_of_fails {call : Call} (placed : cursor.Placed)
    (failed : cursor.call call = (false, there)) (alike : cursor.forest.Alike there.forest)
    (root : there.root = cursor.root) (current : there.current = cursor.current)
    (path : there.pathComponents = cursor.pathComponents)
    (item : there.currentItem = cursor.currentItem) (stuck : cursor.Stuck call) :
    cursor.Served call := by
  refine ⟨?_, fun succeeded => ?_, fun _ => ?_⟩
  · rw [failed]
    refine ⟨alike.sound placed.sound, ?_, ?_, ?_, ?_⟩
    · rw [root, alike.freshValue]
      exact placed.root
    · rw [alike.follow, root, path, current]
      exact placed.leads
    · rw [path]
      exact placed.stretches
    · rw [item, path]
      exact placed.item
  · rw [failed] at succeeded
    cases succeeded
  · rw [failed]
    refine ⟨current, ?_, stuck⟩
    unfold getPath
    rw [path]

theorem served_of_succeeds {call : Call} (succeeded : cursor.call call = (true, there))
    (placed : there.Placed) (lands : cursor.Lands there call) : cursor.Served call := by
  refine ⟨by rw [succeeded]; exact placed, fun _ => ?_, fun failed => ?_⟩
  · rw [succeeded]
    exact ⟨placed.coherent, lands⟩
  · rw [succeeded] at failed
    cases failed

theorem Placed.arrived (placed : cursor.Placed) (components : List Name)
    (alike : cursor.forest.Alike there.forest) (root : there.root = cursor.root)
    (path : there.pathComponents = components)
    (leads : cursor.forest.follow cursor.root components = some there.current)
    (stretches : ∀ component ∈ components, Stretch component)
    (item : there.currentItem.isSome = !components.isEmpty) : there.Placed where
  sound := alike.sound placed.sound
  root := by
    rw [root, alike.freshValue]
    exact placed.root
  leads := by
    rw [alike.follow, root, path]
    exact leads
  stretches := by
    rw [path]
    exact stretches
  item := by
    rw [path]
    exact item

theorem startOf_absolute
    (absolute : (path.head? == some 46 || cursor.pathComponents.isEmpty) = true) :
    cursor.startOf path =
      { cursor with
        current := cursor.root
        currentParent := none
        currentItem := none
        currentItemFromEnd := false
        pathComponents := parsePathString path } :=
  if_pos absolute

theorem startOf_relative
    (relative : ¬(path.head? == some 46 || cursor.pathComponents.isEmpty) = true) :
    cursor.startOf path =
      { cursor with pathComponents := cursor.pathComponents ++ parsePathString path } :=
  if_neg relative

theorem Placed.resolve {insert : Bool} (placed : cursor.Placed)
    (passes : cursor.forest.Passes insert (cursor.startOf path).current (parsePathString path)) :
    cursor.Served (.resolve path insert) := by
  have alike : cursor.forest.Alike cursor.unpinPath.forest := .unpin _ _
  -- Where resolving starts, and what leads there.
  obtain ⟨front, start, started, forest, root, leads, whole, stretches, current, item⟩ :
      ∃ front : List Name, ∃ start : Cursor,
        startOf { cursor.unpinPath with lastError := [] } path = start ∧
        start.forest = cursor.unpinPath.forest ∧ start.root = cursor.root ∧
        cursor.forest.follow cursor.root front = some start.current ∧
        start.pathComponents = front ++ parsePathString path ∧
        (∀ component ∈ front, Stretch component) ∧
        start.current = (cursor.startOf path).current ∧
        start.currentItem.isSome = !front.isEmpty := by
    by_cases absolute : (path.head? == some 46 || cursor.pathComponents.isEmpty) = true
    · rw [startOf_absolute absolute]
      exact ⟨[], _, @startOf_absolute { cursor.unpinPath with lastError := [] } path absolute, rfl, rfl,
        rfl, rfl, fun _ member => absurd member List.not_mem_nil, rfl, rfl⟩
    · rw [startOf_relative absolute]
      exact ⟨cursor.pathComponents, _,
        @startOf_relative { cursor.unpinPath with lastError := [] } path absolute, rfl, rfl,
        placed.leads, rfl, placed.stretches, rfl, placed.item⟩
  have sound' : start.forest.Sound := by
    rw [forest]
    exact alike.sound placed.sound
  have below : start.current < start.forest.freshValue := by
    rw [forest]
    exact placed.sound.follow_lt placed.root leads
  obtain ⟨there, all, entered⟩ := enterAll_passes sound' below (by
    rw [forest, current]
    exact alike.passes passes)
  have resolved : cursor.resolve path insert = (true, there.pinPath) := by
    unfold Cursor.resolve
    simp only [started, all]
  refine served_of_succeeds resolved ⟨entered.sound.pin _, ?_, ?_, ?_, ?_⟩ trivial
  · show there.root < there.forest.freshValue
    rw [entered.root, root]
    refine Nat.lt_of_lt_of_le placed.root (Nat.le_trans ?_ entered.extends_.1)
    rw [forest]
    exact Nat.le_refl _
  · -- The way to the start still leads there, and the path goes on from it.
    have before : start.forest.follow cursor.root front = some start.current := by
      rw [forest]
      exact leads
    have rootBelow : cursor.root < start.forest.freshValue := by
      rw [forest]
      exact placed.root
    show there.forest.follow there.root there.pathComponents = some there.current
    rw [entered.root, root, entered.path, whole, Forest.follow_append,
      entered.extends_.follow sound' rootBelow before]
    exact entered.leads
  · show ∀ component ∈ there.pathComponents, Stretch component
    rw [entered.path, whole]
    intro component member
    rcases List.mem_append.mp member with old | new
    · exact stretches component old
    · exact stretch_of_mem new
  · show there.currentItem.isSome = !there.pathComponents.isEmpty
    rw [entered.path, whole, entered.item, item]
    cases front <;> simp

theorem Placed.parent {front : List Name} {last : Name} (placed : cursor.Placed)
    (path : cursor.pathComponents = front ++ [last]) :
    ∃ parent, cursor.forest.follow cursor.root front = some parent ∧
      cursor.forest.child parent last = some cursor.current := by
  have leads := placed.leads
  rw [path, Forest.follow_concat] at leads
  exact Option.bind_eq_some_iff.mp leads

theorem Placed.up (placed : cursor.Placed)
    (same : cursor.pathComponents.tail = cursor.pathComponents.dropLast) : cursor.Served .up := by
  by_cases empty : cursor.pathComponents = []
  · have failed : cursor.up = (false, cursor) := by
      unfold Cursor.up
      rw [if_pos (by rw [empty]; rfl)]
    exact placed.served_of_fails failed (.refl _) rfl rfl rfl rfl empty
  · have path := (List.dropLast_append_getLast empty).symm
    obtain ⟨parent, leads, -⟩ := placed.parent path
    have stretches : ∀ component ∈ cursor.pathComponents.dropLast, Stretch component :=
      fun component member => placed.stretches component (List.mem_of_mem_dropLast member)
    have popped := Forest.Alike.unpin cursor.forest cursor.current
    obtain ⟨there, resolved, alike, root, current, components, item⟩ := @resolve_follow
      { cursor.unpinPath with pathComponents := cursor.pathComponents.dropLast } _ _ stretches leads
    have went : cursor.up = (true, there) := by
      unfold Cursor.up getPath
      rw [if_neg (by simpa using empty), same]
      simp only [resolved, if_true]
    refine served_of_succeeds went ?_ ⟨empty, components⟩
    exact placed.arrived _ (popped.trans alike) root components (by rw [current]; exact leads)
      stretches item

theorem Placed.down (placed : cursor.Placed) : cursor.Served .down := by
  have called : cursor.call .down = cursor.down := rfl
  cases found : (cursor.forest.visits cursor.current true).findSome? fun child =>
      (cursor.forest.getValue child.2 false).map (child, ·) with
  | none =>
    have failed : cursor.down = (false, cursor.unpinPath.pinPath) := by
      unfold Cursor.down
      simp only [found]
    exact placed.served_of_fails (called.trans failed)
      ((Forest.Alike.unpin _ _).trans (Forest.Alike.pin _ _)) rfl rfl rfl rfl trivial
  | some target =>
    obtain ⟨child, member, made⟩ := List.exists_of_findSome?_eq_some found
    obtain ⟨value, got, rfl⟩ := Option.map_eq_some_iff.mp made
    have held := placed.sound.mem_visits.mp member
    have plain := placed.sound.plain _ _ _ held
    let moved : Cursor :=
      { cursor.unpinPath.moveTo cursor.unpinPath.forest child.2 value false with
        pathComponents := cursor.pathComponents ++ [child.1] }
    have went : cursor.down = (true, moved.pinPath) := by
      unfold Cursor.down
      simp only [found]
      rfl
    have alike : cursor.forest.Alike moved.pinPath.forest :=
      (Forest.Alike.unpin _ _).trans (Forest.Alike.pin _ _)
    refine served_of_succeeds (called.trans went) ?_ trivial
    refine placed.arrived (cursor.pathComponents ++ [child.1]) alike rfl rfl ?_ ?_ ?_
    · rw [Forest.follow_concat, placed.leads]
      show cursor.forest.child cursor.current child.1 = some value
      rw [Forest.child_plain plain, held]
      exact got
    · intro component inside
      rcases List.mem_append.mp inside with old | new
      · exact placed.stretches component old
      · rw [List.mem_singleton.mp new]
        exact ⟨plain.named, plain.undotted⟩
    · show true = _
      simp

end Placed

section Siblings

variable {cursor there : Cursor} {forest : Forest} {forward : Bool} {name : Name}

theorem Alike.scan {next : Forest} (alike : forest.Alike next) (found : Bool)
    (visited : List (Name × ItemId)) :
    scan next name found visited = scan forest name found visited := by
  induction visited generalizing found with
  | nil => rfl
  | cons child rest ih =>
    unfold Cursor.scan
    rw [alike.getValue, ih]

theorem scan_found : ∀ {visited : List (Name × ItemId)}, (∀ child ∈ visited, child.1 ≠ []) →
    scan forest name true visited =
      ((visited.filter fun child => (forest.getValue child.2 false).isSome).map Prod.fst).head? := by
  intro visited
  induction visited with
  | nil => intro _; rfl
  | cons child rest ih =>
    intro named
    obtain ⟨own, others⟩ := List.forall_mem_cons.mp named
    have filled : child.1.isEmpty = false := by simpa using own
    unfold scan
    cases valued : (forest.getValue child.2 false).isSome with
    | true => simp [filled, valued]
    | false =>
      rw [List.filter_cons_of_neg (by simp [valued])]
      simpa using ih others

theorem scan_absent : ∀ {visited : List (Name × ItemId)}, (∀ child ∈ visited, child.1 ≠ name) →
    scan forest name false visited = none := by
  intro visited
  induction visited with
  | nil => intro _; rfl
  | cons child rest ih =>
    intro other
    obtain ⟨own, others⟩ := List.forall_mem_cons.mp other
    have different : (child.1 == name) = false := beq_eq_false_iff_ne.mpr own
    unfold scan
    simpa [different] using ih others

variable {item : ItemId} {value : ValueId} {front : List Name} {last : Name}

theorem scan_behind {back : List (Name × ItemId)} :
    ∀ {front : List (Name × ItemId)}, (∀ child ∈ front, child.1 ≠ name) →
      scan forest name false (front ++ (name, item) :: back) = scan forest name true back := by
  intro front
  induction front with
  | nil =>
    intro _
    rw [List.nil_append, scan]
    simp
  | cons child rest ih =>
    intro other
    obtain ⟨own, others⟩ := List.forall_mem_cons.mp other
    have different : (child.1 == name) = false := beq_eq_false_iff_ne.mpr own
    rw [List.cons_append, scan]
    simpa [different] using ih others

theorem Beyond.asymm {a b : Name} (beyond : Beyond forward a b) : ¬Beyond forward b a := by
  cases forward <;> exact AATree.name_asymm beyond

theorem not_beyond_self (name : Name) : ¬Beyond forward name name := by
  cases forward <;> exact List.lt_irrefl name

theorem visits_beyond (sound : forest.Sound) (forward : Bool) (value : ValueId) :
    (forest.visits value forward).Pairwise fun child later => Beyond forward child.1 later.1 := by
  have entries : (forest.tree value).entries.Pairwise fun child later => child.1 < later.1 := by
    rcases sound.kept value with keeps | ⟨new, -⟩
    · exact keeps.entries_ascend
    · rw [new]
      exact .nil
  cases forward with
  | true => exact entries
  | false => exact List.pairwise_reverse.mpr entries

theorem mem_children (forward : Bool) :
    name ∈ forest.children value ↔
      name ∈ ((forest.visits value forward).filter fun child =>
        (forest.getValue child.2 false).isSome).map Prod.fst := by
  unfold Forest.children Forest.visits
  cases forward with
  | true => exact Iff.rfl
  | false => simp

theorem visits_around (sound : forest.Sound) (forward : Bool)
    (held : forest.holds value name = some item) :
    ∃ front back : List (Name × ItemId), forest.visits value forward = front ++ (name, item) :: back ∧
      (∀ child ∈ front, Beyond forward child.1 name) ∧
      (∀ child ∈ back, Beyond forward name child.1) ∧
      back.Pairwise fun child later => Beyond forward child.1 later.1 := by
  obtain ⟨front, back, split⟩ := List.append_of_mem (sound.mem_visits.mpr held)
  have ordered := visits_beyond sound forward value
  rw [split] at ordered
  obtain ⟨-, rest, across⟩ := List.pairwise_append.mp ordered
  obtain ⟨behind, later⟩ := List.pairwise_cons.mp rest
  exact ⟨front, back, split, fun child member => across child member _ List.mem_cons_self, behind,
    later⟩

theorem scan_nearest (sound : forest.Sound) (forward : Bool)
    (held : forest.holds value name = some item) :
    (∀ next, scan forest name false (forest.visits value forward) = some next →
        Nearest forward (forest.children value) name next) ∧
      (scan forest name false (forest.visits value forward) = none →
        ∀ other ∈ forest.children value, ¬Beyond forward name other) := by
  obtain ⟨front, back, split, before, behind, ordered⟩ :=
    visits_around sound forward held
  -- A child behind the name is one of the back ones that have a value.
  have inBack : ∀ other ∈ forest.children value, Beyond forward name other →
      other ∈ (back.filter fun child => (forest.getValue child.2 false).isSome).map Prod.fst := by
    intro other member beyond
    rw [mem_children forward, split] at member
    obtain ⟨child, inside, rfl⟩ := List.mem_map.mp member
    obtain ⟨visited, valued⟩ := List.mem_filter.mp inside
    rcases List.mem_append.mp visited with early | late
    · exact absurd beyond (Beyond.asymm (before child early))
    · rcases List.mem_cons.mp late with rfl | late
      · exact absurd beyond (not_beyond_self name)
      · exact List.mem_map_of_mem (List.mem_filter.mpr ⟨late, valued⟩)
  have named : ∀ child ∈ back, child.1 ≠ [] := by
    intro child member
    have visited : child ∈ forest.visits value forward := by
      rw [split]
      exact List.mem_append_right _ (List.mem_cons_of_mem _ member)
    exact (sound.plain _ _ _ (sound.mem_visits.mp visited)).named
  have others : ∀ child ∈ front, child.1 ≠ name := by
    intro child member same
    have beyond := before child member
    rw [same] at beyond
    exact not_beyond_self name beyond
  have scanned : scan forest name false (forest.visits value forward) =
      ((back.filter fun child => (forest.getValue child.2 false).isSome).map Prod.fst).head? := by
    rw [split, scan_behind others, scan_found named]
  rw [scanned]
  constructor
  · intro next first
    obtain ⟨rest, valued⟩ := List.head?_eq_some_iff.mp first
    have member : next ∈ (back.filter fun child =>
        (forest.getValue child.2 false).isSome).map Prod.fst := by
      rw [valued]
      exact List.mem_cons_self
    obtain ⟨child, inside, rfl⟩ := List.mem_map.mp member
    obtain ⟨late, has⟩ := List.mem_filter.mp inside
    refine ⟨?_, behind child late, fun other own beyond => ?_⟩
    · rw [mem_children forward, split]
      refine List.mem_map_of_mem (List.mem_filter.mpr ⟨?_, has⟩)
      exact List.mem_append_right _ (List.mem_cons_of_mem _ late)
    · have ascending : (child.1 :: rest).Pairwise fun name later => Beyond forward name later := by
        rw [← valued]
        exact List.pairwise_map.mpr (ordered.filter _)
      have among := inBack other own beyond
      rw [valued] at among
      rcases List.mem_cons.mp among with same | later
      · exact Or.inl same
      · exact Or.inr ((List.pairwise_cons.mp ascending).1 other later)
  · intro nothing other own beyond
    have among := inBack other own beyond
    rw [List.head?_eq_none_iff.mp nothing] at among
    cases among

theorem parse_name {component : Name} (iterates : (Component.parse component).iteratorMode = false)
    (last : (Component.parse component).valueTailDeref = false)
    (head : (Component.parse component).tailDeref = false) :
    (Component.parse component).name = component := by
  unfold Component.parse at *
  simp only at iterates head last
  simp only [iterates, Bool.false_eq_true, if_false] at head last
  simp only [head, Bool.false_eq_true, if_false] at last
  simp only [iterates, head, last, Bool.false_eq_true, if_false]

theorem Placed.served_of_back {call : Call} (placed : cursor.Placed)
    (failed : cursor.call call = (false, cursor.back there))
    (alike : cursor.forest.Alike there.forest) (root : there.root = cursor.root)
    (stuck : cursor.Stuck call) : cursor.Served call :=
  placed.served_of_fails failed (alike.trans (Forest.Alike.pin _ _)) root rfl rfl rfl stuck

theorem Placed.currentItem (placed : cursor.Placed) (path : cursor.pathComponents = front ++ [last]) :
    (∃ item, cursor.currentItem = some item) ∧ cursor.pathComponents.getLast? = some last := by
  have item := placed.item
  rw [path] at item
  refine ⟨Option.isSome_iff_exists.mp (by rw [item]; simp), ?_⟩
  rw [path, List.getLast?_concat]

/-- `next` and `prev` go back when the scan finds nothing. -/
theorem toSibling_of_none (placed : cursor.Placed) (path : cursor.pathComponents = front ++ [last])
    (resolved : cursor.unpinPath.resolve (parentPath cursor.getPath) false = (true, there))
    (nothing : scan there.forest last false (there.forest.visits there.current forward) = none) :
    cursor.toSibling forward = (false, cursor.back there) := by
  obtain ⟨⟨item, isItem⟩, isLast⟩ := placed.currentItem path
  unfold toSibling
  simp only [isItem, isLast, resolved, if_true, nothing]

/-- `next` and `prev` go to what the scan finds. -/
theorem toSibling_of_some (placed : cursor.Placed) (path : cursor.pathComponents = front ++ [last])
    (resolved : cursor.unpinPath.resolve (parentPath cursor.getPath) false = (true, there))
    (scanned : scan there.forest last false (there.forest.visits there.current forward) = some name)
    (held : there.forest.holds there.current name = some item)
    (got : there.forest.getValue item false = some value) :
    cursor.toSibling forward =
      (true,
        { there.moveTo there.forest item value false with
          pathComponents := front ++ [name] }.pinPath) := by
  obtain ⟨⟨_, isItem⟩, isLast⟩ := placed.currentItem path
  have dropped : cursor.pathComponents.dropLast = front := by rw [path, List.dropLast_concat]
  unfold toSibling
  simp only [isItem, isLast, resolved, if_true, scanned, Forest.find_eq, held, got, Option.bind_some,
    Option.map_some, dropped]

theorem siblings_eq {parent : ValueId} (path : cursor.pathComponents = front ++ [last])
    (leads : cursor.forest.follow cursor.root front = some parent) :
    cursor.siblings = some ((Component.parse last).name, cursor.forest.children parent) := by
  unfold siblings
  rw [path, List.getLast?_concat, List.dropLast_concat, Option.bind_some, leads]
  rfl

theorem Placed.toSibling (placed : cursor.Placed) {call : Call}
    (called : cursor.call call = cursor.toSibling forward)
    (reached : Proper.Reached cursor forward)
    (lands : ∀ after, Lands.ToNearest cursor after forward → cursor.Lands after call)
    (stuck : cursor.Alone forward → cursor.Stuck call) : cursor.Served call := by
  rcases List.eq_nil_or_concat' cursor.pathComponents with path | ⟨front, last, path⟩
  · -- At the root there is no item.
    have item : cursor.currentItem = none := by
      have item := placed.item
      rw [path] at item
      simpa using item
    have failed : cursor.toSibling forward = (false, cursor) := by
      unfold Cursor.toSibling
      rw [item]
    refine placed.served_of_fails (called.trans failed) (.refl _) rfl rfl rfl rfl (stuck ?_)
    intro around member
    unfold siblings at member
    rw [path] at member
    cases member
  · obtain ⟨parent, leads, here⟩ := placed.parent path
    have own : Stretch last := placed.stretches last (by rw [path]; simp)
    have around := siblings_eq path leads
    have reached := reached last (by rw [path, List.getLast?_concat]; rfl)
    cases front with
    | nil =>
      -- The parent's path is empty, so that the current value takes the parent's place.
      rw [if_pos (by rw [path]; rfl)] at reached
      obtain ⟨alone, nothing⟩ := reached
      have resolved : cursor.unpinPath.resolve (parentPath cursor.getPath) false =
          (true, { cursor.unpinPath.unpinPath with lastError := [] }.pinPath) := by
        have text : cursor.getPath = [] ++ 46 :: last := by
          unfold getPath
          rw [path]
          simp
        have relative : ¬(([] : PathText).head? == some 46 || cursor.pathComponents.isEmpty) = true := by
          rw [path]
          simp
        have started := @startOf_relative { cursor.unpinPath.unpinPath with lastError := [] } [] relative
        rw [text, parentPath_eq own.2]
        unfold Cursor.resolve
        simp only [started]
        simp [parsePathString, enterAll, pinPath]
      have alike : cursor.forest.Alike
          ({ cursor.unpinPath.unpinPath with lastError := [] }.pinPath : Cursor).forest :=
        ((Forest.Alike.unpin _ _).trans (Forest.Alike.unpin _ _)).trans (Forest.Alike.pin _ _)
      have failed := toSibling_of_none placed path resolved
        ((Alike.scan alike false _).trans nothing)
      exact placed.served_of_back (called.trans failed) alike rfl (stuck alone)
    | cons first others =>
      rw [if_neg (by rw [path]; simp)] at reached
      -- The parent's path is the one without the last component, and it leads to the parent.
      have stretches : ∀ component ∈ first :: others, Stretch component := fun component member =>
        placed.stretches component (by rw [path]; exact List.mem_append_left _ member)
      have text : parentPath cursor.getPath = 46 :: [46].intercalate (first :: others) := by
        unfold getPath
        rw [path, intercalate_concat last (List.cons_ne_nil _ _), ← List.cons_append,
          parentPath_eq own.2]
      obtain ⟨there, resolved, alike', root, current, -, -⟩ :=
        @resolve_follow cursor.unpinPath (first :: others) parent stretches leads
      have alike := (Forest.Alike.unpin cursor.forest cursor.current).trans alike'
      rw [← text] at resolved
      have scans : scan there.forest last false (there.forest.visits there.current forward) =
          scan cursor.forest last false (cursor.forest.visits parent forward) := by
        rw [Alike.scan alike, alike.visits, current]
      obtain ⟨iterates, lastMark, item, held, -⟩ := Forest.child_eq_some.mp here
      cases head : (Component.parse last).tailDeref with
      | true =>
        -- No name has a mark, so that the scan does not find the current one.
        have nothing : scan cursor.forest last false (cursor.forest.visits parent forward) = none := by
          refine scan_absent fun child member same => ?_
          have unmarked := (placed.sound.plain _ _ _ (placed.sound.mem_visits.mp member)).unmarked
          rw [same] at unmarked
          rw [unmarked] at head
          cases head
        have failed := toSibling_of_none placed path resolved (scans.trans nothing)
        have alone : cursor.Alone forward := reached.resolve_left (by simp [head])
        exact placed.served_of_back (called.trans failed) alike root (stuck alone)
      | false =>
        have name := parse_name iterates lastMark head
        rw [name] at held
        obtain ⟨nearest, nowhere⟩ := scan_nearest placed.sound forward held
        cases scanned : scan cursor.forest last false (cursor.forest.visits parent forward) with
        | none =>
          have failed := toSibling_of_none placed path resolved (scans.trans scanned)
          refine placed.served_of_back (called.trans failed) alike root (stuck ?_)
          unfold Alone
          rw [around, name]
          intro pair member
          obtain rfl : pair = _ := (Option.mem_some_iff.mp member).symm
          exact nowhere scanned
        | some next =>
          have found := nearest next scanned
          have member := found.member
          rw [mem_children true] at member
          obtain ⟨child, inside, rfl⟩ := List.mem_map.mp member
          obtain ⟨visited, valued⟩ := List.mem_filter.mp inside
          obtain ⟨value, got⟩ := Option.isSome_iff_exists.mp valued
          have held' := placed.sound.mem_visits.mp visited
          have plain := placed.sound.plain _ _ _ held'
          have went := toSibling_of_some placed path resolved (scans.trans scanned)
            (by rw [alike.holds, current]; exact held') (by rw [alike.getValue]; exact got)
          refine served_of_succeeds (called.trans went) ?_ (lands _ ?_)
          · refine placed.arrived (first :: others ++ [child.1])
              (alike.trans (Forest.Alike.pin _ _)) root rfl ?_ ?_ ?_
            · rw [Forest.follow_concat, leads]
              show cursor.forest.child parent child.1 = some value
              rw [Forest.child_plain plain, held']
              exact got
            · intro component there
              rcases List.mem_append.mp there with old | new
              · exact stretches component old
              · rw [List.mem_singleton.mp new]
                exact ⟨plain.named, plain.undotted⟩
            · show true = _
              simp
          · refine ⟨_, Option.mem_def.mpr around, child.1, ?_, ?_⟩
            · rw [name]
              exact found
            · rw [path, List.dropLast_concat]
              rfl

end Siblings


theorem Placed.served {cursor : Cursor} {call : Call} (placed : cursor.Placed)
    (proper : cursor.Proper call) : cursor.Served call := by
  cases call with
  | resolve path insert => exact placed.resolve proper
  | up => exact placed.up proper
  | down => exact placed.down
  | next => exact placed.toSibling rfl proper (fun _ lands => lands) fun alone => alone
  | prev => exact placed.toSibling rfl proper (fun _ lands => lands) fun alone => alone

end Cursor

/-- A root without children, and no other values. -/
def Forest.bare : Forest where
  tree := fun _ => .new_
  readOnly := fun _ => false
  isEmpty := fun _ => true
  pinnedCount := fun _ => 0
  item := fun _ => ⟨[], []⟩
  freshValue := 1
  freshItem := 0
  crashed := false

theorem Forest.bare_sound : Forest.bare.Sound := by
  have nothing : ∀ value name item, ¬Forest.bare.holds value name = some item := by
    intro value name item held
    have none_ : Forest.bare.holds value name = none := by cases name <;> rfl
    rw [none_] at held
    cases held
  exact ⟨fun _ => Or.inr rfl, fun value name item held => absurd held (nothing value name item),
    fun value name item held => absurd held (nothing value name item),
    fun _ _ member => absurd member List.not_mem_nil⟩

namespace CursorRun

/--
A cursor in dictionaries with plain names stays coherent, goes where it should, and stays where it
is when it fails, in every run whose calls do not meet a defect.
-/
theorem right_throughout {forest : Forest} {root : ValueId} (sound : forest.Sound)
    (below : root < forest.freshValue) (calls : List Cursor.Call)
    (proper : StepsMeet step Proper (start forest root) calls) :
    Throughout step Right (start forest root) calls := by
  -- Each call keeps the cursor in its place and adds a right move.
  have kept : ∀ (run : CursorRun) (call : Cursor.Call) (next : CursorRun),
      (run.cursor.Placed ∧ run.Right) → run.Proper call → run.step call = some next →
        next.cursor.Placed ∧ next.Right := by
    rintro run call next ⟨placed, right⟩ proper stepped
    have served := placed.served proper
    cases stepped
    refine ⟨served.placed, fun move member => ?_⟩
    rcases List.mem_append.mp member with before | now
    · exact right move before
    · rw [List.mem_singleton.mp now]
      exact served.right
  have through := throughout_of_stepsMeet kept calls (start forest root)
    ⟨Cursor.Placed.new sound below, fun _ member => absurd member List.not_mem_nil⟩ proper
  exact Throughout.imp (fun _ both => both.2) calls _ through

/-- Inserting a child and going up again does not meet a defect. -/
theorem right_throughout_inserted :
    StepsMeet step Proper (start .bare 0) [.resolve (ascii "a") true, .up] ∧
      Throughout step Right (start .bare 0) [.resolve (ascii "a") true, .up] := by
  have insertable : Component.Insertable (ascii "a") :=
    ⟨by decide, by decide, by decide, by decide, by decide⟩
  have proper : StepsMeet step Proper (start .bare 0) [.resolve (ascii "a") true, .up] := by
    intro middle stepped
    cases stepped
    refine ⟨⟨fun _ => rfl, rfl, fun missing member => ?_⟩, fun last stepped => ?_⟩
    · rw [List.mem_singleton.mp member]
      exact insertable
    · cases stepped
      exact ⟨rfl, trivial⟩
  exact ⟨proper, right_throughout Forest.bare_sound (by decide) _ proper⟩

/--
Going up from the second level takes the first component off the path, so that the cursor looks for
the last one at the root. It is not there, and the path is not what it was.
-/
theorem right_throughout_fails :
    Forest.bare.Sound ∧
      ¬Throughout step Right (start .bare 0) [.resolve (ascii "a.b") true, .up] := by
  refine ⟨Forest.bare_sound, fun throughout => ?_⟩
  have right := throughout.last _ _ _ rfl
  have failed := (right _ (List.mem_cons_of_mem _ List.mem_cons_self)).fails (by decide)
  exact absurd failed.2.1 (by decide)

end CursorRun

end AgentC

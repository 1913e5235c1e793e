import AgentC.Cursor.Following

/-! How a cursor resolves a path, component by component. -/

namespace AgentC.Cursor

section Paths

variable {path : PathText} {component : Name} {components : List Name}

def Stretch (component : Name) : Prop :=
  component ≠ [] ∧ 46 ∉ component

theorem undotted_of_mem_splitOn : ∀ {path : PathText}, component ∈ path.splitOn 46 → 46 ∉ component := by
  intro path
  induction path generalizing component with
  | nil =>
    intro member
    rw [List.splitOn_nil, List.mem_singleton] at member
    rw [member]
    exact List.not_mem_nil
  | cons byte rest ih =>
    intro member
    rw [List.splitOn_cons_eq_if_modifyHead] at member
    split at member
    · rcases List.mem_cons.mp member with rfl | later
      · exact List.not_mem_nil
      · exact ih later
    · rename_i other
      -- The byte goes before the first of the parts of the rest.
      cases parts : rest.splitOn 46 with
      | nil => exact absurd parts (List.splitOn_ne_nil _ _)
      | cons first others =>
        rw [parts, List.modifyHead_cons] at member
        rw [parts] at ih
        rcases List.mem_cons.mp member with rfl | later
        · intro inside
          rcases List.mem_cons.mp inside with rfl | deeper
          · exact other (beq_self_eq_true _)
          · exact ih List.mem_cons_self deeper
        · exact ih (List.mem_cons_of_mem _ later)

theorem stretch_of_mem (member : component ∈ parsePathString path) : Stretch component := by
  obtain ⟨inside, filled⟩ := List.mem_filter.mp member
  exact ⟨by simpa using filled, undotted_of_mem_splitOn inside⟩

theorem parsePathString_intercalate (stretches : ∀ component ∈ components, Stretch component) :
    parsePathString (46 :: [46].intercalate components) = components := by
  cases components with
  | nil => rfl
  | cons first rest =>
    have split : ([46].intercalate (first :: rest)).splitOn 46 = first :: rest :=
      List.splitOn_intercalate 46 (fun component member => (stretches component member).2)
        (List.cons_ne_nil _ _)
    unfold parsePathString
    rw [List.splitOn_cons_eq_if_modifyHead, if_pos (beq_self_eq_true _), split,
      List.filter_cons_of_neg (by simp)]
    exact List.filter_eq_self.mpr fun component member => by simp [(stretches component member).1]

theorem intercalate_concat (last : Name) : ∀ {front : List Name}, front ≠ [] →
    ([46] : PathText).intercalate (front ++ [last]) = [46].intercalate front ++ 46 :: last := by
  intro front
  induction front with
  | nil => intro nonempty; exact absurd rfl nonempty
  | cons first rest ih =>
    intro _
    cases rest with
    | nil => simp [List.intercalate_cons_cons]
    | cons second others =>
      have later := ih (List.cons_ne_nil _ _)
      rw [List.cons_append, List.cons_append, List.intercalate_cons_cons, ← List.cons_append, later,
        List.intercalate_cons_cons]
      simp

theorem parentPath_eq {front last : PathText} (undotted : 46 ∉ last) :
    parentPath (front ++ 46 :: last) = front := by
  have dropped : ((front ++ 46 :: last).reverse.dropWhile (· != 46)) = 46 :: front.reverse := by
    rw [List.reverse_append, List.reverse_cons, List.append_assoc,
      List.dropWhile_append_of_pos fun byte member => ?_]
    · rfl
    · have other : byte ≠ 46 := fun same => undotted (same ▸ List.mem_reverse.mp member)
      simpa using other
  unfold parentPath
  rw [if_pos (by simp), dropped]
  simp

end Paths

section Enter

variable {cursor : Cursor} {component : Name} {components : List Name} {target : ValueId}

/-- Where the component leads, `resolve` goes. -/
theorem enter_child {insert : Bool}
    (writable : insert = true → cursor.forest.readOnly cursor.current = false)
    (leads : cursor.forest.child cursor.current component = some target) :
    ∃ item, cursor.forest.holds cursor.current (Component.parse component).name = some item ∧
      cursor.forest.getValue item (Component.parse component).tailDeref = some target ∧
      cursor.enter component insert =
        (true, cursor.moveTo cursor.forest item target (Component.parse component).tailDeref) := by
  obtain ⟨iterates, last, item, held, got⟩ := Forest.child_eq_some.mp leads
  have found : cursor.forest.find cursor.current (Component.parse component).name insert =
      (some item, cursor.forest) := by
    cases insert with
    | false => rw [Forest.find_eq, held]
    | true => exact Forest.find_held (writable rfl) held
  refine ⟨item, held, got, ?_⟩
  unfold enter
  simp only [found, iterates, got, last, Bool.false_eq_true, if_false]

/-- Where no component leads and none is an iterator, `resolve` stays, up to the last error. -/
theorem enter_none (iterates : (Component.parse component).iteratorMode = false)
    (nowhere : cursor.forest.child cursor.current component = none) :
    ∃ error, cursor.enter component false = (false, { cursor with lastError := error }) := by
  unfold enter
  simp only [Forest.find_eq, iterates, Bool.false_eq_true, if_false]
  cases held : cursor.forest.holds cursor.current (Component.parse component).name with
  | none => exact ⟨cursor.lastError, rfl⟩
  | some item =>
    cases got : cursor.forest.getValue item (Component.parse component).tailDeref with
    | none => exact ⟨cursor.lastError, by simp only [got]⟩
    | some next =>
      cases last : (Component.parse component).valueTailDeref with
      | true => exact ⟨_, by simp only [got, if_true]; rfl⟩
      | false =>
        rw [Forest.child_eq_some.mpr ⟨iterates, last, item, held, got⟩] at nowhere
        cases nowhere

/-- Where a path leads, `resolve` goes, and it changes nothing on the way. -/
theorem enterAll_follow : ∀ {components : List Name} {cursor : Cursor},
    cursor.forest.follow cursor.current components = some target →
      ∃ there : Cursor, enterAll false cursor components = (true, there) ∧
        there.forest = cursor.forest ∧ there.root = cursor.root ∧ there.current = target ∧
        there.pathComponents = cursor.pathComponents ∧
        there.currentItem.isSome = (cursor.currentItem.isSome || !components.isEmpty) := by
  intro components
  induction components with
  | nil =>
    intro cursor leads
    exact ⟨cursor, rfl, rfl, rfl, Option.some.inj leads, rfl, (Bool.or_false _).symm⟩
  | cons component rest ih =>
    intro cursor leads
    rw [Forest.follow_cons] at leads
    obtain ⟨middle, first, later⟩ := Option.bind_eq_some_iff.mp leads
    obtain ⟨item, -, -, entered⟩ := @enter_child _ _ _ false (fun on => absurd on Bool.false_ne_true) first
    obtain ⟨there, all, forest, root, current, path, isItem⟩ := @ih
      (cursor.moveTo cursor.forest item middle (Component.parse component).tailDeref) later
    refine ⟨there, ?_, forest, root, current, path, ?_⟩
    · rw [enterAll, entered]
      exact all
    · rw [isItem]
      simp [moveTo]

/-- Without iterators, `resolve` gets along a front part of the path, and changes no value. -/
theorem enterAll_stops : ∀ {components : List Name} {cursor : Cursor},
    (∀ component ∈ components, (Component.parse component).iteratorMode = false) →
      ∃ front back, components = front ++ back ∧
        cursor.forest.follow cursor.current front = some (enterAll false cursor components).2.current ∧
        ((enterAll false cursor components).1 = true ↔ back = []) ∧
        (enterAll false cursor components).2.forest = cursor.forest ∧
        (enterAll false cursor components).2.root = cursor.root ∧
        (enterAll false cursor components).2.pathComponents = cursor.pathComponents := by
  intro components
  induction components with
  | nil =>
    intro cursor _
    exact ⟨[], [], rfl, rfl, by simp [enterAll], rfl, rfl, rfl⟩
  | cons component rest ih =>
    intro cursor plain
    obtain ⟨own, others⟩ := List.forall_mem_cons.mp plain
    cases leads : cursor.forest.child cursor.current component with
    | none =>
      obtain ⟨error, entered⟩ := enter_none own leads
      have stopped : enterAll false cursor (component :: rest) =
          (false, { cursor with lastError := error }) := by
        rw [enterAll, entered]
        rfl
      rw [stopped]
      exact ⟨[], component :: rest, rfl, rfl, by simp, rfl, rfl, rfl⟩
    | some middle =>
      obtain ⟨item, -, -, entered⟩ :=
        @enter_child _ _ _ false (fun on => absurd on Bool.false_ne_true) leads
      have goesOn : enterAll false cursor (component :: rest) =
          enterAll false (cursor.moveTo cursor.forest item middle (Component.parse component).tailDeref)
            rest := by
        rw [enterAll, entered]
        rfl
      obtain ⟨front, back, split, reached, whole, forest, root, path⟩ := @ih
        (cursor.moveTo cursor.forest item middle (Component.parse component).tailDeref) others
      rw [goesOn]
      refine ⟨component :: front, back, by rw [split]; rfl, ?_, whole, forest, root, path⟩
      rw [Forest.follow_cons, leads]
      exact reached

theorem enterAll_append {insert : Bool} {back : List Name} : ∀ {front : List Name} {cursor : Cursor},
    (enterAll insert cursor front).1 = true →
      enterAll insert cursor (front ++ back) = enterAll insert (enterAll insert cursor front).2 back := by
  intro front
  induction front with
  | nil => intro cursor _; rfl
  | cons component rest ih =>
    intro cursor whole
    rw [enterAll] at whole
    rw [List.cons_append, enterAll, enterAll]
    cases entered : (cursor.enter component insert).1 with
    | false => simp [entered] at whole
    | true =>
      simp only [entered, if_true] at whole ⊢
      exact ih whole

theorem enterAll_last {front : List Name} (leads :
      cursor.forest.follow cursor.current (front ++ [component]) = some target) :
    ∃ there : Cursor, ∃ owner item, enterAll false cursor (front ++ [component]) = (true, there) ∧
      there.forest = cursor.forest ∧ there.root = cursor.root ∧
      there.pathComponents = cursor.pathComponents ∧ there.current = target ∧
      there.currentParent = some owner ∧ there.currentItem = some item ∧
      there.currentItemFromEnd = (Component.parse component).tailDeref ∧
      cursor.forest.follow cursor.current front = some owner ∧
      cursor.forest.holds owner (Component.parse component).name = some item ∧
      cursor.forest.getValue item (Component.parse component).tailDeref = some target := by
  rw [Forest.follow_concat] at leads
  obtain ⟨owner, first, last⟩ := Option.bind_eq_some_iff.mp leads
  obtain ⟨middle, all, forest, root, current, path, -⟩ := enterAll_follow first
  rw [← forest, ← current] at last
  obtain ⟨item, held, got, entered⟩ :=
    @enter_child _ _ _ false (fun on => absurd on Bool.false_ne_true) last
  rw [forest, current] at held
  rw [forest] at got
  refine ⟨middle.moveTo middle.forest item target (Component.parse component).tailDeref, owner, item,
    ?_, forest, root, path, rfl, congrArg some current, rfl, rfl, first, held, got⟩
  rw [enterAll_append (by rw [all]), all]
  show enterAll false middle [component] = _
  rw [enterAll, entered]
  rfl

theorem enterAll_path {insert : Bool} : ∀ {components : List Name} {cursor : Cursor},
    (enterAll insert cursor components).2.pathComponents = cursor.pathComponents := by
  have entered : ∀ {component : Name} {cursor : Cursor},
      (cursor.enter component insert).2.pathComponents = cursor.pathComponents := by
    intro component cursor
    unfold enter
    dsimp only
    split
    · rfl
    split
    · rfl
    split
    · split <;> rfl
    · split <;> rfl
  intro components
  induction components with
  | nil => intro cursor; rfl
  | cons component rest ih =>
    intro cursor
    rw [enterAll]
    split
    · exact ih.trans entered
    · exact entered

theorem follow_of_iterator {forest : Forest} : ∀ {components : List Name} {value : ValueId},
    (∃ component ∈ components, (Component.parse component).iteratorMode = true) →
      forest.follow value components = none := by
  intro components
  induction components with
  | nil =>
    intro value asked
    obtain ⟨_, member, _⟩ := asked
    cases member
  | cons first rest ih =>
    intro value asked
    obtain ⟨component, member, iterates⟩ := asked
    rw [Forest.follow_cons]
    cases leads : forest.child value first with
    | none => rfl
    | some middle =>
      rcases List.mem_cons.mp member with rfl | later
      · rw [(Forest.child_eq_some.mp leads).1] at iterates
        cases iterates
      · exact ih ⟨component, later, iterates⟩

theorem enter_absent
    (absent : cursor.forest.holds cursor.current (Component.parse component).name = none) :
    (cursor.enter component false).1 = false := by
  unfold enter
  simp only [Forest.find_eq, absent]

theorem enter_iterator (iterates : (Component.parse component).iteratorMode = true)
    (entered : (cursor.enter component false).1 = true) :
    (cursor.enter component false).2.currentParent = none ∧
      ∀ name, (cursor.enter component false).2.forest.holds
        (cursor.enter component false).2.current name = none := by
  unfold enter at entered ⊢
  simp only [Forest.find_eq, iterates, if_true] at entered ⊢
  cases held : cursor.forest.holds cursor.current (Component.parse component).name with
  | none =>
    rw [held] at entered
    cases entered
  | some item =>
    refine ⟨rfl, fun name => ?_⟩
    have tree : (cursor.forest.create false).2.tree (cursor.forest.create false).1 = .new_ :=
      Function.update_self _ _ _
    show (((cursor.forest.create false).2.tree (cursor.forest.create false).1).find name).join = none
    rw [tree]
    cases name <;> rfl

theorem enterAll_detached : ∀ {components : List Name} {cursor : Cursor},
    (∃ component ∈ components, (Component.parse component).iteratorMode = true) →
      (enterAll false cursor components).1 = true →
        (enterAll false cursor components).2.currentParent = none := by
  intro components
  induction components with
  | nil =>
    intro cursor asked
    obtain ⟨_, member, _⟩ := asked
    cases member
  | cons first rest ih =>
    intro cursor asked whole
    rw [enterAll] at whole ⊢
    cases entered : (cursor.enter first false).1 with
    | false => simp [entered] at whole
    | true =>
      simp only [entered, if_true] at whole ⊢
      obtain ⟨component, member, iterates⟩ := asked
      by_cases own : (Component.parse first).iteratorMode = true
      · obtain ⟨detached, nothing⟩ := enter_iterator own entered
        cases rest with
        | nil => exact detached
        | cons second others =>
          -- Nothing can be found in the value that wraps the iterator.
          have missed := enter_absent (nothing (Component.parse second).name)
          rw [enterAll] at whole
          simp [missed] at whole
      · rcases List.mem_cons.mp member with rfl | later
        · exact absurd iterates own
        · exact ih ⟨component, later, iterates⟩ whole

/-- A cursor that starts again at the root, with the path that it is to resolve. -/
def restarted (cursor : Cursor) (components : List Name) : Cursor :=
  { cursor.unpinPath with
    lastError := []
    current := cursor.root
    currentParent := none
    currentItem := none
    currentItemFromEnd := false
    pathComponents := components }

theorem resolve_absolute {path : PathText} (insert : Bool)
    (absolute : (path.head? == some 46 || cursor.pathComponents.isEmpty) = true) :
    cursor.resolve path insert =
      ((enterAll insert (cursor.restarted (parsePathString path)) (parsePathString path)).1,
        (enterAll insert (cursor.restarted (parsePathString path)) (parsePathString path)).2.pinPath) := by
  have started : startOf { cursor.unpinPath with lastError := [] } path =
      cursor.restarted (parsePathString path) := if_pos absolute
  unfold resolve
  rw [started]

theorem resolve_follow (stretches : ∀ component ∈ components, Stretch component)
    (leads : cursor.forest.follow cursor.root components = some target) :
    ∃ there : Cursor, cursor.resolve (46 :: [46].intercalate components) false = (true, there) ∧
      cursor.forest.Alike there.forest ∧ there.root = cursor.root ∧ there.current = target ∧
      there.pathComponents = components ∧ there.currentItem.isSome = !components.isEmpty := by
  obtain ⟨there, all, forest, root, current, sameComponents, item⟩ :=
    @enterAll_follow target components (cursor.restarted components) leads
  refine ⟨there.pinPath, ?_, ?_, root, current, sameComponents, item.trans (Bool.false_or _)⟩
  · rw [resolve_absolute false (by simp), parsePathString_intercalate stretches, all]
  · have same : cursor.unpinPath.forest.Alike there.forest := by
      rw [forest]
      exact .refl _
    exact ((Forest.Alike.unpin _ _).trans same).trans (Forest.Alike.pin _ _)

end Enter

end AgentC.Cursor

import AgentC.Listree.Dictionary

/-! A dictionary is a sorted map, as long as the empty name does not meet the nameless node. -/

namespace AgentC

open scoped List

universe u

namespace AATree

variable {α : Type u} {tree : AATree α} {name : Name}

theorem succ_eq (name : Name) (data : Option α) (tree : AATree α) :
    succ name data tree = tree.nodes.head?.getD (name, data) := by
  induction tree generalizing name data with
  | leaf => rfl
  | node left n d right ihLeft _ =>
    rw [succ, ihLeft, nodes]
    cases left.nodes <;> rfl

theorem nodes_of_isNull (null : tree.isNull = true) : tree.nodes = [] := by
  cases tree with
  | leaf => rfl
  | node => cases null

theorem isNull_of_nodes (none_ : tree.nodes = []) : tree.isNull = true := by
  cases tree with
  | leaf => rfl
  | node => simp [nodes] at none_

theorem Ordered.nodes_remove (ordered : tree.Ordered) :
    (tree.remove name).nodes = tree.nodes.filter fun node => node.1 ≠ name := by
  induction tree generalizing name with
  | leaf => rfl
  | node left n data right ihLeft ihRight =>
    obtain ⟨before, rest, across⟩ := List.pairwise_append.mp ordered
    obtain ⟨above, after⟩ := List.pairwise_cons.mp rest
    have below : ∀ node ∈ left.nodes, node.1 < n := fun node member =>
      across node member _ List.mem_cons_self
    -- Nodes that are all before or all after the name are kept.
    have keeps : ∀ nodes : List (Name × Option α), (∀ node ∈ nodes, node.1 ≠ name) →
        nodes.filter (fun node => node.1 ≠ name) = nodes := fun nodes other =>
      List.filter_eq_self.mpr fun node member => decide_eq_true (other node member)
    rw [remove, nodes, List.filter_append]
    split
    · rename_i less
      have here : ∀ node ∈ (n, data) :: right.nodes, node.1 ≠ name := by
        intro node member
        rcases List.mem_cons.mp member with rfl | later
        · exact (name_ne_of_lt less).symm
        · exact (name_ne_of_lt (name_trans less (above node later))).symm
      rw [nodes, ihLeft before, keeps _ here]
    split
    · rename_i greater
      have left_ : ∀ node ∈ left.nodes, node.1 ≠ name := fun node member =>
        name_ne_of_lt (name_trans (below node member) greater)
      rw [nodes, ihRight after, keeps _ left_,
        List.filter_cons_of_pos (by simpa using name_ne_of_lt greater)]
    · rename_i notLess notGreater
      obtain rfl : name = n := name_eq_of_not_lt notLess notGreater
      have left_ : ∀ node ∈ left.nodes, node.1 ≠ name := fun node member =>
        name_ne_of_lt (below node member)
      have right_ : ∀ node ∈ right.nodes, node.1 ≠ name := fun node member =>
        (name_ne_of_lt (above node member)).symm
      have others : ((name, data) :: right.nodes).filter (fun node => node.1 ≠ name) = right.nodes := by
        rw [List.filter_cons_of_neg (by simp), keeps _ right_]
      rw [keeps _ left_, others]
      by_cases noLeft : left.isNull = true
      · rw [nodes_of_isNull noLeft, List.nil_append]
        by_cases noRight : right.isNull = true
        · rw [if_pos (by rw [noLeft, noRight]; rfl), nodes_of_isNull noRight]
          rfl
        · rw [if_neg (by simp [noRight]), if_pos noLeft]
      · by_cases noRight : right.isNull = true
        · rw [if_neg (by simp [noLeft]), if_neg noLeft, if_pos noRight, nodes_of_isNull noRight,
            List.append_nil]
        · rw [if_neg (by simp [noLeft]), if_neg noLeft, if_neg noRight, nodes, ihRight after,
            succ_eq]
          -- The successor is the first node on the right, which goes there.
          cases found : right.nodes with
          | nil => exact absurd (isNull_of_nodes found) noRight
          | cons first later =>
            have distinct : ∀ node ∈ later, node.1 ≠ first.1 := by
              rw [found] at after
              exact fun node member =>
                (name_ne_of_lt ((List.pairwise_cons.mp after).1 node member)).symm
            simp only [List.head?_cons, Option.getD_some]
            rw [List.filter_cons_of_neg (by simp)]
            congr 2
            exact List.filter_eq_self.mpr fun node member => decide_eq_true (distinct node member)

theorem Ordered.remove (ordered : tree.Ordered) (name : Name) : (tree.remove name).Ordered := by
  rw [Ordered, ordered.nodes_remove]
  exact ordered.filter _

theorem Ordered.find_remove (ordered : tree.Ordered) {name other : Name} (apart : other ≠ name) :
    (tree.remove name).find other = tree.find other := by
  -- Both trees find the nodes that they have, and the removal keeps those of the other name.
  apply Option.ext
  intro data
  rw [(ordered.remove name).find_iff, ordered.find_iff, ordered.nodes_remove, List.mem_filter]
  simp [apart]

/-- The nodes of a tree are the items held under their names, in order. -/
structure Keeps (tree : AATree ItemId) (items : Name → Option ItemId) : Prop where
  ordered : tree.Ordered
  nodes_iff : ∀ name data,
    (name, data) ∈ tree.nodes ↔ ∃ item, data = some item ∧ items name = some item

namespace Keeps

variable {tree : AATree ItemId} {items : Name → Option ItemId} {name : Name} {item : ItemId}

theorem of_ordered (ordered : tree.Ordered) (valued : ∀ node ∈ tree.nodes, node.2 ≠ none) :
    Keeps tree fun name => (tree.find name).join where
  ordered := ordered
  nodes_iff := by
    intro name data
    constructor
    · intro member
      obtain ⟨item, rfl⟩ := Option.ne_none_iff_exists'.mp (valued _ member)
      refine ⟨item, rfl, ?_⟩
      rw [ordered.find_iff.mpr member]
      rfl
    · intro found
      obtain ⟨item, rfl, held⟩ := found
      exact ordered.find_iff.mp (Option.join_eq_some_iff.mp held)

theorem find_eq (keeps : Keeps tree items) (name : Name) :
    tree.find name = (items name).map some := by
  cases held : items name with
  | some item =>
    exact keeps.ordered.find_iff.mpr ((keeps.nodes_iff _ _).mpr ⟨item, rfl, held⟩)
  | none =>
    refine keeps.ordered.find_eq_none fun node member same => ?_
    obtain ⟨item, -, there⟩ := (keeps.nodes_iff node.1 node.2).mp member
    rw [same, held] at there
    cases there

theorem entries_iff (keeps : Keeps tree items) :
    (name, item) ∈ tree.entries ↔ items name = some item := by
  rw [entries_eq, List.mem_filterMap]
  constructor
  · intro member
    obtain ⟨node, inside, made⟩ := member
    obtain ⟨value, data, pair⟩ := Option.map_eq_some_iff.mp made
    obtain ⟨held, same, there⟩ := (keeps.nodes_iff node.1 node.2).mp inside
    obtain rfl : value = held := Option.some.inj (data.symm.trans same)
    obtain ⟨rfl, rfl⟩ := Prod.mk.inj pair
    exact there
  · intro held
    exact ⟨(name, some item), (keeps.nodes_iff _ _).mpr ⟨item, rfl, held⟩, rfl⟩

theorem entries_ascend (keeps : Keeps tree items) :
    tree.entries.Pairwise fun entry later => entry.1 < later.1 := by
  rw [entries_eq]
  refine List.Pairwise.filterMap _ (fun node later before entry isEntry next isNext => ?_)
    keeps.ordered
  obtain ⟨_, _, rfl⟩ := Option.map_eq_some_iff.mp isEntry
  obtain ⟨_, _, rfl⟩ := Option.map_eq_some_iff.mp isNext
  exact before

theorem taken (keeps : Keeps tree items) (there : tree.isNull = false) : tree.Taken := by
  cases tree with
  | leaf => cases there
  | node left n data right =>
    have member : (n, data) ∈ (AATree.node left n data right).nodes :=
      List.mem_append_right _ List.mem_cons_self
    obtain ⟨item, rfl, -⟩ := (keeps.nodes_iff n data).mp member
    simp [Taken]

theorem add (keeps : Keeps tree items) (there : tree.isNull = false) (new : items name = none) :
    Keeps (tree.add name item) (Function.update items name (some item)) ∧
      (tree.add name item).isNull = false := by
  have placed : tree.add name item = tree.place name item := by
    have taken := keeps.taken there
    cases tree with
    | leaf => cases there
    | node left n data right => exact if_neg taken
  have fresh : tree.find name = none := by rw [keeps.find_eq, new]; rfl
  obtain ⟨perm, ordered⟩ := @Ordered.place _ _ name item keeps.ordered fresh
  rw [placed]
  refine ⟨⟨ordered, fun other data => ?_⟩, ?_⟩
  · rw [perm.mem_iff, List.mem_cons, keeps.nodes_iff]
    by_cases same : other = name
    · subst same
      simp [new]
    · simp [same]
  · cases null : (tree.place name item).isNull with
    | false => rfl
    | true =>
      have none_ := perm.length_eq
      rw [nodes_of_isNull null] at none_
      simp at none_

theorem remove (keeps : Keeps tree items) (name : Name) :
    Keeps (tree.remove name) (Function.update items name none) := by
  have removed := @Ordered.nodes_remove _ tree name keeps.ordered
  refine ⟨?_, fun other data => ?_⟩
  · unfold Ordered
    rw [removed]
    exact keeps.ordered.filter _
  · rw [removed, List.mem_filter, keeps.nodes_iff]
    by_cases same : other = name
    · subst same
      simp
    · simp [same]

theorem items_of_isNull (keeps : Keeps tree items) (null : tree.isNull = true) :
    items = fun _ => none := by
  funext name
  cases held : items name with
  | none => rfl
  | some item =>
    have member := (keeps.nodes_iff name (some item)).mpr ⟨item, rfl, held⟩
    rw [nodes_of_isNull null] at member
    exact absurd member List.not_mem_nil

theorem first (name : Name) (item : ItemId) :
    Keeps ((new_ : AATree ItemId).add name item) (Function.update (fun _ => none) name (some item)) ∧
      ((new_ : AATree ItemId).add name item).isNull = false := by
  have added : (new_ : AATree ItemId).add name item = .node .leaf name (some item) .leaf := rfl
  rw [added]
  refine ⟨⟨List.pairwise_singleton _ _, fun other data => ?_⟩, rfl⟩
  by_cases same : other = name
  · subst same
    simp [nodes]
  · simp [nodes, same]

end Keeps

section Kept

variable {items : Name → Option ItemId} {tree : AATree ItemId}

theorem orNew_eq (there : tree.isNull = false) : tree.orNew = tree := by
  cases tree with
  | leaf => cases there
  | node => rfl

theorem find_new (named : name ≠ []) : (new_ : AATree ItemId).find name = none := by
  cases name with
  | nil => exact absurd rfl named
  | cons byte rest => rfl

theorem orNew_of_untaken (kept : tree.Keeps items ∨ tree = .new_ ∧ items = fun _ => none)
    (untaken : ¬tree.Taken) : tree.orNew = .new_ ∧ items = fun _ => none := by
  rcases kept with keeps | ⟨rfl, nothing⟩
  · cases tree with
    | leaf => exact ⟨rfl, keeps.items_of_isNull rfl⟩
    | node left n data right => exact absurd (keeps.taken rfl) untaken
  · exact ⟨rfl, nothing⟩

theorem place_of_kept (kept : tree.Keeps items ∨ tree = .new_ ∧ items = fun _ => none)
    (item : ItemId) (taken : name = [] → tree.Taken) (none_ : items name = none) :
    tree.orNew.find name = none ∧
      (tree.orNew.add name item).Keeps (Function.update items name (some item)) := by
  by_cases first : tree.Taken
  · -- The tree keeps what is held, and takes the name beside it.
    have there : tree.isNull = false := by
      cases tree with
      | leaf => exact first.elim
      | node => rfl
    have keeps : tree.Keeps items := by
      rcases kept with keeps | ⟨rfl, -⟩
      · exact keeps
      · simp [new_, Taken] at first
    rw [orNew_eq there]
    refine ⟨?_, (keeps.add there none_).1⟩
    rw [keeps.find_eq, none_]
    rfl
  · -- The tree is new now, and only a proper name takes its node.
    obtain ⟨new, nothing⟩ := orNew_of_untaken kept first
    rw [new, nothing]
    exact ⟨find_new fun empty => first (taken empty), (Keeps.first name item).1⟩

end Kept

end AATree

namespace Held

variable {held : Held} {name : Name} {item : ItemId}

theorem answer_find (held : Held) (name : Name) :
    held.answer (.find name false) = (held.items name, held) := by
  simp only [answer]
  cases held.items name <;> rfl

theorem answer_present (writable : held.readOnly = false) (there : held.items name = some item) :
    held.answer (.find name true) = (some item, held) := by
  simp [answer, writable, there]

theorem answer_absent (writable : held.readOnly = false) (none_ : held.items name = none) :
    held.answer (.find name true) =
      (some held.fresh,
        { held with
          items := Function.update held.items name (some held.fresh)
          fresh := held.fresh + 1 }) := by
  simp [answer, writable, none_]

theorem answer_remove (writable : held.readOnly = false) (name : Name) :
    held.answer (.remove name) =
      match held.items name with
      | none => (none, held)
      | some item =>
        if held.pinned item then (none, held)
        else (some item, { held with items := Function.update held.items name none }) := by
  exact if_neg (Bool.eq_false_iff.mp writable)

end Held

namespace Dictionary

variable {d : Dictionary} {name : Name}

theorem answer_find (d : Dictionary) (name : Name) :
    d.answer (.find name false) = ((d.tree.find name).join, d) := by
  show d.find name false = _
  rw [find, if_neg (by simp)]
  cases null : d.tree.isNull with
  | true =>
    rw [if_pos ⟨rfl, rfl⟩]
    cases tree : d.tree with
    | leaf => rfl
    | node => rw [tree] at null; cases null
  | false =>
    rw [if_neg (by simp)]
    simp only [AATree.orNew_eq null]
    cases d.tree.find name <;> rfl

theorem answer_present {data : Option ItemId} (writable : d.readOnly = false)
    (present : d.tree.orNew.find name = some data) :
    d.answer (.find name true) = (data, { d with tree := d.tree.orNew }) := by
  show d.find name true = _
  rw [find, if_neg (by simp [writable]), if_neg (by simp)]
  simp only [present]

theorem answer_absent (writable : d.readOnly = false) (absent : d.tree.orNew.find name = none) :
    d.answer (.find name true) =
      (((d.tree.orNew.add name d.fresh).find name).join,
        { d with tree := d.tree.orNew.add name d.fresh, fresh := d.fresh + 1 }) := by
  show d.find name true = _
  rw [find, if_neg (by simp [writable]), if_neg (by simp)]
  simp only [absent, if_true]

end Dictionary

namespace DictionaryRun

variable {run next : DictionaryRun} {call : Lookup}

/-- A dictionary keeps what is held, unless its only node is the nameless one. -/
structure Sound (run : DictionaryRun) : Prop where
  readOnly : run.dictionary.readOnly = run.held.readOnly
  pinned : run.dictionary.pinned = run.held.pinned
  fresh : run.dictionary.fresh = run.held.fresh
  keeps : run.dictionary.tree.Keeps run.held.items ∨
    run.dictionary.tree = .new_ ∧ run.held.items = fun _ => none

theorem Sound.start (readOnly : Bool) : (start readOnly).Sound where
  readOnly := rfl
  pinned := rfl
  fresh := rfl
  keeps := Or.inr ⟨rfl, rfl⟩

theorem Sound.sorted (sound : run.Sound) (alive : run.dictionary.crashed = false)
    (right : ∀ pair ∈ run.answers, pair.1 = pair.2) : run.Sorted := by
  rcases sound.keeps with keeps | ⟨new, none_⟩
  · exact ⟨alive, right, keeps.entries_ascend, fun _ _ => keeps.entries_iff⟩
  · have visited : run.dictionary.visited = [] := by
      unfold Dictionary.visited
      rw [new]
      rfl
    refine ⟨alive, right, by rw [visited]; exact .nil, fun name item => ?_⟩
    rw [visited, none_]
    simp

/-- What one call does: the answer is right, and what is held stays kept. -/
structure Served (run : DictionaryRun) (call : Lookup) : Prop where
  answered : (run.dictionary.answer call).1 = (run.held.answer call).1
  alive : (run.dictionary.answer call).2.crashed = run.dictionary.crashed
  sound : ∀ answers, (DictionaryRun.mk (run.dictionary.answer call).2 (run.held.answer call).2
    answers).Sound

theorem Sound.unchanged (sound : run.Sound) {result : Option ItemId}
    (dictionary : run.dictionary.answer call = (result, run.dictionary))
    (held : run.held.answer call = (result, run.held)) : run.Served call := by
  refine ⟨by rw [dictionary, held], by rw [dictionary], fun answers => ?_⟩
  rw [dictionary, held]
  exact ⟨sound.readOnly, sound.pinned, sound.fresh, sound.keeps⟩

theorem Sound.find_join (sound : run.Sound) (name : Name) :
    (run.dictionary.tree.find name).join = run.held.items name := by
  rcases sound.keeps with keeps | ⟨new, none_⟩
  · rw [keeps.find_eq]
    cases run.held.items name <;> rfl
  · rw [new, none_]
    cases name with
    | nil => rfl
    | cons byte rest => rfl

theorem Sound.find (sound : run.Sound) (name : Name) : run.Served (.find name false) := by
  refine sound.unchanged (Dictionary.answer_find _ _) ?_
  rw [Held.answer_find, sound.find_join]

theorem Sound.insert (sound : run.Sound) (name : Name)
    (reached : run.dictionary.readOnly = true ∨ (name = [] → run.dictionary.tree.Taken)) :
    run.Served (.find name true) := by
  cases readOnly : run.dictionary.readOnly with
  | true =>
    have heldReadOnly : run.held.readOnly = true := sound.readOnly ▸ readOnly
    exact sound.unchanged (if_pos ⟨rfl, readOnly⟩) (if_pos ⟨rfl, heldReadOnly⟩)
  | false =>
    have heldWritable : run.held.readOnly = false := sound.readOnly ▸ readOnly
    have taken := reached.resolve_left (by simp [readOnly])
    cases held : run.held.items name with
    | some item =>
      -- What is held is in a tree that keeps it, which is not null.
      have found : run.dictionary.tree.find name = some (some item) :=
        Option.join_eq_some_iff.mp ((sound.find_join name).trans held)
      have there : run.dictionary.tree.isNull = false := by
        cases same : run.dictionary.tree with
        | leaf => rw [same] at found; cases found
        | node => rfl
      refine sound.unchanged ?_ (Held.answer_present heldWritable held)
      rw [Dictionary.answer_present readOnly ((AATree.orNew_eq there).symm ▸ found),
        AATree.orNew_eq there]
    | none =>
      obtain ⟨absent, keeps⟩ := AATree.place_of_kept sound.keeps run.dictionary.fresh taken held
      have answered := Dictionary.answer_absent readOnly absent
      have expected := Held.answer_absent heldWritable held
      refine ⟨?_, by rw [answered], fun answers => ?_⟩
      · rw [answered, expected, keeps.find_eq, Function.update_self, sound.fresh]
        rfl
      · rw [answered, expected]
        refine ⟨sound.readOnly, sound.pinned, congrArg (· + 1) sound.fresh, Or.inl ?_⟩
        rw [← sound.fresh]
        exact keeps

theorem Sound.remove (sound : run.Sound) (name : Name)
    (reached : run.dictionary.readOnly = true ∨ (name = [] → run.dictionary.tree ≠ .new_)) :
    run.Served (.remove name) := by
  cases readOnly : run.dictionary.readOnly with
  | true =>
    have heldReadOnly : run.held.readOnly = true := sound.readOnly ▸ readOnly
    exact sound.unchanged (if_pos readOnly) (if_pos heldReadOnly)
  | false =>
    have heldWritable : run.held.readOnly = false := sound.readOnly ▸ readOnly
    have expected := Held.answer_remove heldWritable name
    cases held : run.held.items name with
    | none =>
      -- Neither side has the name. A nameless node would have been found under the empty one.
      have absent : run.dictionary.tree.find name = none := by
        rcases sound.keeps with keeps | ⟨new, -⟩
        · rw [keeps.find_eq, held]
          rfl
        · rw [new]
          exact AATree.find_new fun empty =>
            reached.resolve_left (by simp [readOnly]) empty new
      rw [held] at expected
      refine sound.unchanged ?_ expected
      show run.dictionary.remove name = _
      rw [Dictionary.remove, if_neg (by simp [readOnly])]
      simp only [absent]
    | some item =>
      have found : run.dictionary.tree.find name = some (some item) :=
        Option.join_eq_some_iff.mp ((sound.find_join name).trans held)
      have answered : run.dictionary.answer (.remove name) =
          if run.dictionary.pinned item then (none, run.dictionary)
          else (some item, { run.dictionary with tree := run.dictionary.tree.remove name }) := by
        show run.dictionary.remove name = _
        rw [Dictionary.remove, if_neg (by simp [readOnly])]
        simp only [found]
      rw [held] at expected
      cases pinned : run.dictionary.pinned item with
      | true =>
        have heldPinned : run.held.pinned item = true := sound.pinned ▸ pinned
        exact sound.unchanged (answered.trans (if_pos pinned)) (expected.trans (if_pos heldPinned))
      | false =>
        have heldFree : ¬run.held.pinned item = true := by
          rw [← sound.pinned, pinned]
          exact Bool.false_ne_true
        have keeps : run.dictionary.tree.Keeps run.held.items := by
          rcases sound.keeps with keeps | ⟨-, nothing⟩
          · exact keeps
          · rw [nothing] at held
            cases held
        have answered := answered.trans (if_neg (by simp [pinned]))
        have expected := expected.trans (if_neg heldFree)
        refine ⟨by rw [answered, expected], by rw [answered], fun answers => ?_⟩
        rw [answered, expected]
        exact ⟨sound.readOnly, sound.pinned, sound.fresh, Or.inl (keeps.remove name)⟩

theorem Sound.served (sound : run.Sound) (reached : run.Reached call) : run.Served call := by
  cases call with
  | find name insert =>
    cases insert with
    | false => exact sound.find name
    | true => exact sound.insert name (reached.imp_right fun both empty => both.1 (by rw [empty]))
  | remove name => exact sound.remove name (reached.imp_right fun both empty => both.2 (by rw [empty]))
  | pin item on =>
    refine ⟨rfl, rfl, fun answers => ⟨sound.readOnly, ?_, sound.fresh, sound.keeps⟩⟩
    show Function.update run.dictionary.pinned item on = Function.update run.held.pinned item on
    rw [sound.pinned]

theorem Sound.not_sorted (sound : run.Sound) (stepped : run.step call = some next)
    (missed : ¬run.Reached call) : ¬next.Sorted := by
  intro sorted
  obtain ⟨writable, calls⟩ := not_or.mp missed
  have writable : run.dictionary.readOnly = false := Bool.eq_false_iff.mpr writable
  have heldWritable : run.held.readOnly = false := sound.readOnly ▸ writable
  cases stepped
  rcases not_and_or.mp calls with inserted | removed
  · obtain ⟨rfl, untaken⟩ := Classical.not_imp.mp inserted
    obtain ⟨new, nothing⟩ := AATree.orNew_of_untaken sound.keeps untaken
    -- The nameless node is found, with no item in it.
    have found : run.dictionary.tree.orNew.find [] = some none := by
      rw [new]
      rfl
    have answered := Dictionary.answer_present writable found
    have expected := @Held.answer_absent run.held [] heldWritable (by rw [nothing])
    have same := sorted.right _ (List.mem_append_right _ (List.mem_singleton_self _))
    simp only [answered, expected] at same
    cases same
  · obtain ⟨rfl, new⟩ := Classical.not_imp.mp removed
    have crashed : (run.dictionary.remove []).2.crashed = true := by
      rw [Dictionary.remove, if_neg (by simp [writable]), not_not.mp new]
      rfl
    exact Bool.false_ne_true (sorted.alive.symm.trans crashed)

/--
A dictionary is the sorted map of its items in every state of a run exactly when no call of the run
meets the nameless node: the empty name is neither inserted while nothing else is there, nor removed
before anything was inserted.
-/
theorem sorted_iff (readOnly : Bool) (calls : List Lookup) :
    Throughout step Sorted (start readOnly) calls ↔ StepsMeet step Reached (start readOnly) calls := by
  have kept : ∀ (run : DictionaryRun) (call : Lookup) (next : DictionaryRun),
      run.Sound → run.Sorted → run.step call = some next →
      (next.Sorted ↔ run.Reached call) ∧ (run.Reached call → next.Sound) := by
    intro run call next sound sorted stepped
    have after : run.Reached call → next.Sound ∧ next.Sorted := by
      intro reached
      have served := sound.served reached
      cases stepped
      have sound' := served.sound
        (run.answers ++ [((run.dictionary.answer call).1, (run.held.answer call).1)])
      refine ⟨sound', sound'.sorted (served.alive.trans sorted.alive) fun pair member => ?_⟩
      rcases List.mem_append.mp member with before | now
      · exact sorted.right pair before
      · rw [List.mem_singleton.mp now]
        exact served.answered
    refine ⟨⟨fun right => ?_, fun reached => (after reached).2⟩, fun reached => (after reached).1⟩
    by_contra missed
    exact sound.not_sorted stepped missed right
  exact throughout_iff_of_kept kept calls (start readOnly) (Sound.start readOnly)
    ((Sound.start readOnly).sorted rfl fun _ member => absurd member List.not_mem_nil)

/-- Inserting the empty name into a new value finds the nameless node, and adds nothing. -/
theorem sorted_fails : ¬Throughout step Sorted (start false) [.find [] true] := by
  intro throughout
  have sorted := throughout.last _ _ _ rfl
  have same := sorted.right _ List.mem_cons_self
  exact absurd same (by decide)

end DictionaryRun

end AgentC

import AgentC.Cursor.Removal
import AgentC.Cursor.Resolving

/-! A removal takes away the right entries exactly when each way up leads to the right dictionary. -/

namespace AgentC

namespace Forest

variable {forest next : Forest} {owner value target : ValueId} {name component : Name}
  {item : ItemId} {depth : ValueId → Nat} {level : Level} {above : List Level}

section Lessens

/-- Values and entries are taken away only, values from the ends of their items. -/
structure Lessens (forest next : Forest) : Prop where
  sound : forest.Sound → next.Sound
  holds : ∀ {value name item}, next.holds value name = some item →
    forest.holds value name = some item
  values : ∀ item, (next.item item).values <:+: (forest.item item).values
  gone : ∀ {value name item}, forest.holds value name = some item →
    next.holds value name = some item ∨ (next.item item).values = []

theorem Lessens.refl (forest : Forest) : forest.Lessens forest :=
  ⟨id, id, fun _ => List.infix_refl _, Or.inl⟩

theorem Lessens.trans {last : Forest} (first : forest.Lessens next) (second : next.Lessens last) :
    forest.Lessens last := by
  refine ⟨second.sound ∘ first.sound, first.holds ∘ second.holds,
    fun item => (second.values item).trans (first.values item), fun held => ?_⟩
  rcases first.gone held with kept | empty
  · exact second.gone kept
  · refine Or.inr (List.infix_nil.mp ?_)
    rw [← empty]
    exact second.values _

theorem Alike.lessens (alike : forest.Alike next) : forest.Lessens next where
  sound := alike.sound
  holds := by
    rw [alike.holds]
    exact id
  values := by
    rw [alike]
    exact fun _ => List.infix_refl _
  gone := by
    rw [alike.holds]
    exact Or.inl

theorem values_take (level : Level) (item : ItemId) :
    ((forest.take level).item item).values =
      if item = level.item then
        if level.fromEnd then (forest.item item).values.dropLast else (forest.item item).values.tail
      else (forest.item item).values := by
  show (Function.update forest.item level.item _ item).values = _
  rw [Function.update_apply]
  split
  · rename_i same
    rw [same]
  · rfl

theorem lessens_take (level : Level) : forest.Lessens (forest.take level) := by
  have values : ∀ item, ((forest.take level).item item).values <:+: (forest.item item).values := by
    intro item
    rw [values_take]
    split
    · split
      · exact (List.dropLast_prefix _).isInfix
      · exact (List.tail_suffix _).isInfix
    · exact List.infix_refl _
  refine ⟨fun sound => ⟨sound.keeps, sound.plain, sound.itemBelow, fun item value member => ?_⟩, id,
    values, Or.inl⟩
  exact sound.valueBelow item value ((values item).subset member)

theorem Sound.keeps_of_holds (sound : forest.Sound) (held : forest.holds owner name = some item) :
    (forest.tree owner).Keeps (forest.holds owner) := by
  rcases sound.kept owner with keeps | ⟨-, nothing⟩
  · exact keeps
  · rw [nothing] at held
    cases held

theorem Sound.holds_erase (sound : forest.Sound) (held : forest.holds owner name = some item)
    (value : ValueId) :
    (forest.erase owner name).holds value =
      if value = owner then Function.update (forest.holds owner) name none
      else forest.holds value := by
  have tree : (forest.erase owner name).tree value =
      if value = owner then (forest.tree owner).remove name else forest.tree value :=
    Function.update_apply _ _ _ _
  funext sought
  show (((forest.erase owner name).tree value).find sought).join = _
  rw [tree]
  by_cases same : value = owner
  · rw [if_pos same, if_pos same, ((sound.keeps_of_holds held).remove name).find_eq]
    cases Function.update (forest.holds owner) name none sought <;> rfl
  · rw [if_neg same, if_neg same]
    rfl

theorem Sound.lessens_erase (sound : forest.Sound) (held : forest.holds owner name = some item)
    (empty : (forest.item item).values = []) : forest.Lessens (forest.erase owner name) := by
  have holds : ∀ {value sought other}, (forest.erase owner name).holds value sought = some other →
      forest.holds value sought = some other := by
    intro value sought other there
    rw [sound.holds_erase held] at there
    split at there
    · rename_i same
      subst same
      by_cases erased : sought = name
      · rw [erased, Function.update_self] at there
        cases there
      · rwa [Function.update_of_ne erased] at there
    · exact there
  refine ⟨fun _ => ⟨fun value => ?_, fun _ _ _ there => sound.plain _ _ _ (holds there),
    fun _ _ _ there => sound.itemBelow _ _ _ (holds there), sound.valueBelow⟩, holds,
    fun _ => List.infix_refl _, fun {value sought other} there => ?_⟩
  · have tree : (forest.erase owner name).tree value =
        if value = owner then (forest.tree owner).remove name else forest.tree value :=
      Function.update_apply _ _ _ _
    rw [sound.holds_erase held, tree]
    by_cases same : value = owner
    · rw [if_pos same, if_pos same]
      exact Or.inl ((sound.keeps_of_holds held).remove name)
    · rw [if_neg same, if_neg same]
      exact sound.keeps value
  · rw [sound.holds_erase held]
    by_cases same : value = owner
    · subst same
      rw [if_pos rfl]
      by_cases erased : sought = name
      · subst erased
        obtain rfl : item = other := Option.some.inj (held.symm.trans there)
        exact Or.inr empty
      · rw [Function.update_of_ne erased]
        exact Or.inl there
    · rw [if_neg same]
      exact Or.inl there

theorem values_setValues_nil (item other : ItemId) :
    ((forest.setValues item []).item other).values =
      if other = item then [] else (forest.item other).values := by
  show (Function.update forest.item item _ other).values = _
  rw [Function.update_apply]
  split <;> rfl

theorem lessens_setValues_nil (item : ItemId) : forest.Lessens (forest.setValues item []) := by
  have values : ∀ other, ((forest.setValues item []).item other).values <:+:
      (forest.item other).values := by
    intro other
    rw [values_setValues_nil]
    split
    · exact List.nil_infix
    · exact List.infix_refl _
  refine ⟨fun sound => ⟨sound.keeps, sound.plain, sound.itemBelow, fun other value member => ?_⟩, id,
    values, Or.inl⟩
  exact sound.valueBelow other value ((values other).subset member)

theorem remove_of_holds (held : forest.holds owner name = some item)
    (writable : forest.readOnly owner = false)
    (free : (forest.dictionary owner).pinned item = false) :
    forest.remove owner name = (forest.setValues item []).erase owner name := by
  have found : (forest.dictionary owner).tree.find name = some (some item) :=
    Option.join_eq_some_iff.mp held
  have removed : (forest.dictionary owner).remove name =
      (some item, { forest.dictionary owner with tree := (forest.dictionary owner).tree.remove name }) := by
    rw [Dictionary.remove, if_neg (by simp [show (forest.dictionary owner).readOnly = false from writable])]
    simp only [found, free, Bool.false_eq_true, if_false]
  unfold remove
  rw [removed]
  rfl

theorem remove_of_empty (held : forest.holds owner name = some item)
    (writable : forest.readOnly owner = false) (empty : (forest.item item).values = []) :
    forest.remove owner name = forest.erase owner name := by
  have free : (forest.dictionary owner).pinned item = false := by
    show (forest.item item).values.any _ = false
    rw [empty]
    rfl
  have same : forest.setValues item [] = forest := by
    unfold setValues
    rw [← empty, Function.update_eq_self]
  rw [remove_of_holds held writable free, same]

theorem Sound.lessens_remove (sound : forest.Sound) (owner : ValueId) (name : Name) :
    forest.Lessens (forest.remove owner name) := by
  cases readOnly : forest.readOnly owner with
  | true =>
    have refused : (forest.dictionary owner).remove name = (none, forest.dictionary owner) :=
      if_pos readOnly
    have same : forest.remove owner name = forest := by
      unfold remove
      rw [refused]
      exact keep_self
    rw [same]
    exact .refl _
  | false =>
    have writable : ¬(forest.dictionary owner).readOnly = true := by
      simp [show (forest.dictionary owner).readOnly = false from readOnly]
    cases found : (forest.tree owner).find name with
    | none =>
      have refused : (forest.dictionary owner).remove name = (none, forest.dictionary owner) := by
        rw [Dictionary.remove, if_neg writable]
        simp only [show (forest.dictionary owner).tree.find name = none from found]
      have same : forest.remove owner name = forest := by
        unfold remove
        rw [refused]
        exact keep_self
      rw [same]
      exact .refl _
    | some data =>
      cases data with
      | none =>
        -- A crash leaves everything as it is.
        have crashed : (forest.dictionary owner).remove name =
            (none, { forest.dictionary owner with crashed := true }) := by
          rw [Dictionary.remove, if_neg writable]
          simp only [show (forest.dictionary owner).tree.find name = some none from found]
        have same : forest.remove owner name = { forest with crashed := true } := by
          unfold remove keep
          rw [crashed]
          simp [dictionary, Function.update_eq_self]
        rw [same]
        exact ⟨fun sound => ⟨sound.keeps, sound.plain, sound.itemBelow, sound.valueBelow⟩, id,
          fun _ => List.infix_refl _, Or.inl⟩
      | some item =>
        have held : forest.holds owner name = some item := by
          unfold holds
          rw [found]
          rfl
        cases pinned : (forest.dictionary owner).pinned item with
        | true =>
          have refused : (forest.dictionary owner).remove name = (none, forest.dictionary owner) := by
            rw [Dictionary.remove, if_neg writable]
            simp only [show (forest.dictionary owner).tree.find name = some (some item) from found,
              pinned, if_true]
          have same : forest.remove owner name = forest := by
            unfold remove
            rw [refused]
            exact keep_self
          rw [same]
          exact .refl _
        | false =>
          rw [remove_of_holds held readOnly pinned]
          have cleared : forest.Lessens (forest.setValues item []) := lessens_setValues_nil item
          refine cleared.trans (@Sound.lessens_erase _ owner name item (cleared.sound sound) held ?_)
          rw [values_setValues_nil, if_pos rfl]

theorem tree_remove_of_ne (different : value ≠ owner) (name : Name) :
    (forest.remove owner name).tree value = forest.tree value := by
  have kept : ∀ d, (forest.keep owner d).tree value = forest.tree value := fun _ =>
    Function.update_of_ne different _ _
  unfold remove
  dsimp only
  split
  · exact kept _
  · exact kept _

end Lessens

section Frame

theorem Lessens.getValue (lessens : forest.Lessens next) {fromEnd : Bool}
    (nodup : (forest.item item).values.Nodup) (got : forest.getValue item fromEnd = some value)
    (left : value ∈ (next.item item).values) : next.getValue item fromEnd = some value := by
  obtain ⟨front, back, whole⟩ := lessens.values item
  rw [← whole] at nodup
  unfold Forest.getValue at got ⊢
  cases fromEnd with
  | true =>
    -- Nothing can have been taken from the end.
    simp only [if_true] at got ⊢
    rw [← whole] at got
    cases back with
    | nil =>
      rw [List.append_nil] at got
      rw [← got, List.getLast?_append_of_ne_nil _ (List.ne_nil_of_mem left)]
    | cons first rest =>
      have last : value ∈ first :: rest := by
        rw [List.getLast?_append_of_ne_nil _ (List.cons_ne_nil _ _)] at got
        exact List.mem_of_getLast? got
      exact absurd rfl ((List.nodup_append.mp nodup).2.2 value
        (List.mem_append_right _ left) value last)
  | false =>
    simp only [Bool.false_eq_true, if_false] at got ⊢
    rw [← whole] at got
    cases front with
    | nil =>
      rw [List.nil_append, List.head?_append_of_ne_nil _ (List.ne_nil_of_mem left)] at got
      exact got
    | cons first rest =>
      obtain rfl : first = value := Option.some.inj got
      rw [List.append_assoc] at nodup
      exact absurd rfl ((List.nodup_append.mp nodup).2.2 first List.mem_cons_self first
        (List.mem_append_left _ left))

theorem IsTree.child_of_lessens (tree : forest.IsTree depth) (lessens : forest.Lessens next)
    (kept : ∀ target, forest.child value component = some target → ¬forest.Taken next target) :
    next.child value component = forest.child value component := by
  cases leads : forest.child value component with
  | some target =>
    obtain ⟨iterates, last, item, held, got⟩ := child_eq_some.mp leads
    have left : target ∈ (next.item item).values := by
      by_contra missing
      exact kept target leads ⟨item, mem_of_getValue got, missing⟩
    refine child_eq_some.mpr ⟨iterates, last, item, ?_, lessens.getValue (tree.nodup held) got left⟩
    refine (lessens.gone held).resolve_right fun empty => ?_
    rw [empty] at left
    cases left
  | none =>
    cases now : next.child value component with
    | none => rfl
    | some target =>
      -- What leads somewhere now has led somewhere before.
      obtain ⟨iterates, last, item, held, got⟩ := child_eq_some.mp now
      have before := lessens.holds held
      have inside := (lessens.values item).subset (mem_of_getValue got)
      have nonempty : forest.getValue item (Component.parse component).tailDeref ≠ none := by
        intro nothing
        unfold Forest.getValue at nothing
        split at nothing
        · rw [List.getLast?_eq_none_iff.mp nothing] at inside
          cases inside
        · rw [List.head?_eq_none_iff.mp nothing] at inside
          cases inside
      obtain ⟨other, there⟩ := Option.ne_none_iff_exists'.mp nonempty
      rw [child_eq_some.mpr ⟨iterates, last, item, before, there⟩] at leads
      cases leads

theorem IsTree.follow_of_lessens (tree : forest.IsTree depth) (lessens : forest.Lessens next)
    {root : ValueId} : ∀ {components : List Name},
    (∀ front value, front <+: components → forest.follow root front = some value →
      ¬forest.Taken next value) →
    next.follow root components = forest.follow root components := by
  intro components
  induction components using List.reverseRecOn with
  | nil => intro _; rfl
  | append_singleton front component ih =>
    intro kept
    have before := ih fun part value shorter => kept part value
      (shorter.trans (List.prefix_append _ _))
    rw [follow_concat, follow_concat, before]
    cases leads : forest.follow root front with
    | none => rfl
    | some middle =>
      refine tree.child_of_lessens lessens fun target goes => kept (front ++ [component]) target
        (List.prefix_refl _) ?_
      rw [follow_concat, leads]
      exact goes

end Frame

section Depth

/-- Values are one level below those whose dictionaries they are in. -/
def Graded (forest : Forest) (depth : ValueId → Nat) : Prop :=
  ∀ value name item held, forest.holds value name = some item →
    held ∈ (forest.item item).values → depth held = depth value + 1

theorem Lessens.graded (lessens : forest.Lessens next) (graded : forest.Graded depth) :
    next.Graded depth :=
  fun _ _ _ _ held member => graded _ _ _ _ (lessens.holds held) ((lessens.values _).subset member)

theorem Graded.depth_follow (graded : forest.Graded depth) :
    ∀ {components : List Name} {value target : ValueId},
      forest.follow value components = some target →
        depth target = depth value + components.length := by
  intro components
  induction components with
  | nil =>
    intro value target leads
    obtain rfl : value = target := Option.some.inj leads
    rfl
  | cons component rest ih =>
    intro value target leads
    rw [follow_cons] at leads
    obtain ⟨middle, first, later⟩ := Option.bind_eq_some_iff.mp leads
    obtain ⟨-, -, item, held, got⟩ := child_eq_some.mp first
    have below := graded _ _ _ _ held (mem_of_getValue got)
    rw [ih later, below, List.length_cons]
    omega

end Depth

section Levels

/-- The steps lead from a root to a value, the last one first. -/
def Leads (forest : Forest) (root : ValueId) : List Level → ValueId → Prop
  | [], value => value = root
  | level :: above, value =>
    (∃ name, forest.holds level.owner name = some level.item) ∧
      forest.getValue level.item level.fromEnd = some value ∧ forest.Leads root above level.owner

variable {root : ValueId} {bound : Nat}

theorem Graded.depth_leads (graded : forest.Graded depth) :
    ∀ {levels : List Level} {value : ValueId}, forest.Leads root levels value →
      depth value = depth root + levels.length := by
  intro levels
  induction levels with
  | nil =>
    intro value leads
    rw [show value = root from leads]
    rfl
  | cons level above ih =>
    intro value leads
    obtain ⟨⟨name, held⟩, got, rest⟩ := leads
    rw [graded _ _ _ _ held (mem_of_getValue got), ih rest, List.length_cons]
    omega

theorem IsTree.graded (tree : forest.IsTree depth) : forest.Graded depth :=
  fun _ _ _ _ held member => tree.deeper held member

structure Agrees (forest next : Forest) (depth : ValueId → Nat) (bound : Nat) : Prop where
  sound : next.Sound
  graded : next.Graded depth
  trees : ∀ value, depth value ≤ bound → next.tree value = forest.tree value
  items : ∀ {value name item}, depth value < bound → forest.holds value name = some item →
    next.item item = forest.item item
  names : ∀ item, (next.item item).name = (forest.item item).name
  readOnly : next.readOnly = forest.readOnly
  isEmpty : next.isEmpty = forest.isEmpty

theorem Agrees.holds (agrees : Agrees forest next depth bound) (shallow : depth value ≤ bound) :
    next.holds value = forest.holds value := by
  unfold Forest.holds
  rw [agrees.trees value shallow]

theorem Agrees.child (agrees : Agrees forest next depth bound) (shallow : depth value < bound) :
    next.child value component = forest.child value component := by
  unfold Forest.child
  rw [agrees.holds (Nat.le_of_lt shallow)]
  cases held : forest.holds value (Component.parse component).name with
  | none => simp only [held, Option.bind_none]
  | some item =>
    simp only [held, Option.bind_some, Forest.getValue, agrees.items shallow held]

theorem Agrees.follow (agrees : Agrees forest next depth bound) (graded : forest.Graded depth) :
    ∀ {components : List Name} {value : ValueId},
    depth value + components.length ≤ bound →
      next.follow value components = forest.follow value components := by
  intro components
  induction components with
  | nil => intro value _; rfl
  | cons component rest ih =>
    intro value shallow
    rw [List.length_cons] at shallow
    rw [follow_cons, follow_cons, agrees.child (by omega)]
    cases leads : forest.child value component with
    | none => rfl
    | some middle =>
      obtain ⟨-, -, item, held, got⟩ := child_eq_some.mp leads
      have below := graded _ _ _ _ held (mem_of_getValue got)
      exact ih (by omega)

theorem entries_remove_eq_nil {tree : AATree ItemId} {items : Name → Option ItemId}
    (keeps : tree.Keeps items) (held : items name = some item) :
    (tree.remove name).entries = [] ↔ tree.entries.length = 1 := by
  have member := keeps.entries_iff.mpr held
  have removed := keeps.remove name
  constructor
  · intro none_
    -- Every entry has the removed name, and no two entries have one name.
    have same : ∀ entry ∈ tree.entries, entry.1 = name := by
      intro entry inside
      by_contra other
      have kept : Function.update items name none entry.1 = some entry.2 := by
        rw [Function.update_of_ne other]
        exact keeps.entries_iff.mp inside
      have there := removed.entries_iff.mpr kept
      rw [none_] at there
      cases there
    have ascend := keeps.entries_ascend
    cases entries : tree.entries with
    | nil =>
      rw [entries] at member
      cases member
    | cons first rest =>
      cases rest with
      | nil => rfl
      | cons second others =>
        rw [entries] at ascend same
        have before := (List.pairwise_cons.mp ascend).1 second List.mem_cons_self
        rw [same first List.mem_cons_self,
          same second (List.mem_cons_of_mem _ List.mem_cons_self)] at before
        exact absurd rfl (name_ne_of_lt before)
  · intro one
    obtain ⟨only, single⟩ := List.length_eq_one_iff.mp one
    refine List.eq_nil_iff_forall_not_mem.mpr fun entry inside => ?_
    have kept := removed.entries_iff.mp inside
    by_cases same : entry.1 = name
    · rw [same, Function.update_self] at kept
      cases kept
    · rw [Function.update_of_ne same] at kept
      have there := keeps.entries_iff.mpr kept
      rw [single] at member there
      have equal := (List.mem_singleton.mp there).trans (List.mem_singleton.mp member).symm
      exact same (congrArg Prod.fst equal)

theorem take_of_getValue {fromEnd other : Bool} (nodup : (forest.item item).values.Nodup)
    (got : forest.getValue item fromEnd = some value) (there : forest.getValue item other = some value)
    (one two : ValueId) : forest.take ⟨one, item, fromEnd⟩ = forest.take ⟨two, item, other⟩ := by
  have values : (if fromEnd then (forest.item item).values.dropLast else (forest.item item).values.tail) =
      if other then (forest.item item).values.dropLast else (forest.item item).values.tail := by
    have ends : (forest.item item).values.head? = some value →
        (forest.item item).values.getLast? = some value →
          (forest.item item).values.dropLast = (forest.item item).values.tail := by
      intro first last
      cases list : (forest.item item).values with
      | nil => rfl
      | cons head rest =>
        rw [list] at first last nodup
        obtain rfl : head = value := Option.some.inj first
        cases rest with
        | nil => rfl
        | cons second others =>
          -- The first value would come again as the last.
          rw [List.getLast?_cons_cons] at last
          exact absurd (List.mem_of_getLast? last) (List.nodup_cons.mp nodup).1
    unfold getValue at got there
    cases fromEnd <;> cases other
    · rfl
    · exact (ends got there).symm
    · exact ends there got
    · rfl
  unfold take
  dsimp only
  rw [values]

theorem Graded.owner_lt (graded : forest.Graded depth) :
    ∀ {levels : List Level} {value : ValueId}, forest.Leads root levels value →
      ∀ level ∈ levels, depth level.owner < depth value := by
  intro levels
  induction levels with
  | nil => intro value _ level member; cases member
  | cons level above ih =>
    intro value leads other member
    obtain ⟨⟨name, held⟩, got, rest⟩ := leads
    have below := graded _ _ _ _ held (mem_of_getValue got)
    rcases List.mem_cons.mp member with rfl | later
    · omega
    · have higher := ih rest other later
      omega

theorem tree_tidy : ∀ {above : List Level} {level : Level} {forest : Forest},
    (∀ step ∈ level :: above, step.owner ≠ value) →
      (forest.tidy level above).tree value = forest.tree value := by
  have erased : ∀ {level : Level} {forest : Forest} {name : Name}, level.owner ≠ value →
      (forest.erase level.owner name).tree value = forest.tree value := fun different =>
    Function.update_of_ne (Ne.symm different) _ _
  intro above
  induction above with
  | nil =>
    intro level forest other
    unfold tidy
    split
    · exact erased (other level List.mem_cons_self)
    · rfl
  | cons next rest ih =>
    intro level forest other
    have first := other level List.mem_cons_self
    unfold tidy
    split
    · dsimp only
      split
      · exact (ih fun step member => other step (List.mem_cons_of_mem _ member)).trans (erased first)
      · exact erased first
    · rfl

theorem tidy_of_value (left : (forest.item level.item).values ≠ []) :
    forest.tidy level above = forest := by
  have some_ : (forest.item level.item).values.isEmpty = false := by simpa using left
  cases above <;> simp only [tidy, some_, Bool.false_eq_true, if_false]

theorem Agrees.holds_tidy (agrees : Agrees forest next depth (depth level.owner))
    (graded : forest.Graded depth) (leads : forest.Leads root above level.owner)
    (held : forest.holds level.owner name = some level.item)
    (named : (next.item level.item).name = name) (empty : (next.item level.item).values = []) :
    (next.tidy level above).holds level.owner name = none := by
  have held' : next.holds level.owner name = some level.item := by
    rw [agrees.holds (Nat.le_refl _)]
    exact held
  have erased : (next.erase level.owner name).holds level.owner name = none := by
    rw [agrees.sound.holds_erase held', if_pos rfl, Function.update_self]
  have isEmpty : (next.item level.item).values.isEmpty = true := by rw [empty]; rfl
  cases above with
  | nil =>
    simp only [tidy, isEmpty, if_true, named]
    exact erased
  | cons above rest =>
    simp only [tidy, isEmpty, if_true, named]
    split
    · -- The steps above go through other dictionaries.
      have same : (Forest.tidy ((next.erase level.owner name).take above) above rest).tree level.owner =
          (next.erase level.owner name).tree level.owner :=
        tree_tidy fun step member same => absurd (graded.owner_lt leads step member) (by
          rw [same]
          exact Nat.lt_irrefl _)
      unfold Forest.holds at erased ⊢
      rw [same]
      exact erased
    · exact erased

namespace Alike

theorem symm (alike : forest.Alike next) : next.Alike forest := by
  unfold Alike at alike ⊢
  rw [alike]

theorem erase (alike : forest.Alike next) (owner : ValueId) (name : Name) :
    (forest.erase owner name).Alike (next.erase owner name) := by
  rw [alike]
  rfl

theorem take (alike : forest.Alike next) (level : Level) :
    (forest.take level).Alike (next.take level) := by
  rw [alike]
  rfl

theorem useless (alike : forest.Alike next) (value : ValueId) :
    next.useless value = forest.useless value := by
  rw [alike]
  rfl

theorem readOnly (alike : forest.Alike next) : next.readOnly = forest.readOnly := by
  rw [alike]

theorem items (alike : forest.Alike next) : next.item = forest.item := by
  rw [alike]

theorem tidy : ∀ {above : List Level} {level : Level} {forest next : Forest}, forest.Alike next →
    (forest.tidy level above).Alike (next.tidy level above) := by
  intro above
  induction above with
  | nil =>
    intro level forest next alike
    unfold Forest.tidy
    rw [alike.items]
    split
    · exact alike.erase _ _
    · exact alike
  | cons above rest ih =>
    intro level forest next alike
    have erased := alike.erase level.owner (forest.item level.item).name
    unfold Forest.tidy
    dsimp only
    rw [alike.items, erased.useless, erased.readOnly]
    split
    · split
      · exact ih (erased.take above)
      · exact erased
    · exact alike

end Alike

theorem Agrees.up (agrees : Agrees forest next depth (depth level.owner))
    (tree : forest.IsTree depth) {above : Level} {aboveName : Name}
    (held : forest.holds level.owner name = some level.item) (empty : (next.item level.item).values = [])
    (heldAbove : forest.holds above.owner aboveName = some above.item)
    (inside : level.owner ∈ (forest.item above.item).values) :
    Agrees forest ((next.erase level.owner name).take above) depth (depth above.owner) := by
  have below := tree.deeper heldAbove inside
  have held' : next.holds level.owner name = some level.item := by
    rw [agrees.holds (Nat.le_refl _)]
    exact held
  have lessens := (agrees.sound.lessens_erase held' empty).trans (lessens_take above)
  refine ⟨lessens.sound agrees.sound, lessens.graded agrees.graded, fun value shallow => ?_,
    fun {value other item} shallow there => ?_,
    fun item => ?_, agrees.readOnly, agrees.isEmpty⟩
  · have different : value ≠ level.owner := by
      rintro rfl
      omega
    exact (Function.update_of_ne different _ _).trans (agrees.trees value (by omega))
  · have different : item ≠ above.item := by
      rintro rfl
      have same := tree.itemOnce there heldAbove
      rw [same] at shallow
      exact Nat.lt_irrefl _ shallow
    exact (Function.update_of_ne different _ _).trans (agrees.items (by omega) there)
  · show (Function.update (next.item) above.item _ item).name = _
    rw [Function.update_apply]
    split
    · rename_i same
      rw [same]
      exact agrees.names above.item
    · exact agrees.names item

theorem Agrees.alike {last : Forest} (agrees : Agrees forest next depth bound)
    (alike : next.Alike last) : Agrees forest last depth bound := by
  refine ⟨alike.sound agrees.sound, alike.lessens.graded agrees.graded, ?_, ?_, ?_, ?_, ?_⟩
  · rw [alike]
    exact agrees.trees
  · rw [alike]
    exact agrees.items
  · rw [alike]
    exact agrees.names
  · rw [alike]
    exact agrees.readOnly
  · rw [alike]
    exact agrees.isEmpty

theorem values_take_eq_nil (member : value ∈ (forest.item level.item).values) :
    ((forest.take level).item level.item).values = [] ↔
      (forest.item level.item).values.length = 1 := by
  rw [values_take, if_pos rfl]
  cases values : (forest.item level.item).values with
  | nil =>
    rw [values] at member
    cases member
  | cons first rest => cases level.fromEnd <;> cases rest <;> simp

theorem climb_append {back : List Name} : ∀ {front : List Name} {value middle : ValueId}
    {above : List Level}, forest.follow value front = some middle →
      levels.climb forest value (front ++ back) above =
        levels.climb forest middle back (levels.climb forest value front above) := by
  intro front
  induction front with
  | nil =>
    intro value middle above leads
    obtain rfl : value = middle := Option.some.inj leads
    rfl
  | cons component rest ih =>
    intro value middle above leads
    rw [follow_cons] at leads
    obtain ⟨next, first, later⟩ := Option.bind_eq_some_iff.mp leads
    obtain ⟨-, -, item, held, -⟩ := child_eq_some.mp first
    rw [List.cons_append, levels.climb, levels.climb]
    simp only [held, first]
    exact ih later

theorem levels_concat {front : List Name} (leads : forest.follow root front = some owner)
    (held : forest.holds owner (Component.parse component).name = some item)
    (last : forest.child owner component = some target) :
    forest.levels root (front ++ [component]) =
      ⟨owner, item, (Component.parse component).tailDeref⟩ :: forest.levels root front := by
  unfold levels
  rw [climb_append leads, levels.climb]
  simp only [held, last]
  rfl

theorem leads_levels : ∀ {components : List Name} {target : ValueId},
    forest.follow root components = some target →
      forest.Leads root (forest.levels root components) target ∧
        (forest.levels root components).length = components.length := by
  intro components
  induction components using List.reverseRecOn with
  | nil =>
    intro target leads
    exact ⟨(Option.some.inj leads).symm, rfl⟩
  | append_singleton front component ih =>
    intro target leads
    rw [follow_concat] at leads
    obtain ⟨owner, first, last⟩ := Option.bind_eq_some_iff.mp leads
    obtain ⟨-, -, item, held, got⟩ := child_eq_some.mp last
    obtain ⟨before, length⟩ := ih first
    rw [levels_concat first held last]
    exact ⟨⟨⟨_, held⟩, got, before⟩, by simp [length]⟩

theorem levels_of_none {components : List Name} (nowhere : forest.follow root components = none) :
    forest.levels root components = [] := by
  have climbs : ∀ {components : List Name} {value : ValueId} {above : List Level},
      forest.follow value components = none → levels.climb forest value components above = [] := by
    intro components
    induction components with
    | nil => intro value above leads; cases leads
    | cons component rest ih =>
      intro value above leads
      rw [follow_cons] at leads
      rw [levels.climb]
      cases first : forest.child value component with
      | none => cases forest.holds value (Component.parse component).name <;> rfl
      | some middle =>
        obtain ⟨-, -, item, held, -⟩ := child_eq_some.mp first
        rw [first] at leads
        simp only [held]
        exact ih leads
  exact climbs nowhere

theorem Alike.isTree (alike : forest.Alike next) (tree : forest.IsTree depth) :
    next.IsTree depth := by
  have holds := alike.holds
  have items := alike.items
  refine ⟨alike.sound tree.sound, ?_, ?_, ?_, ?_, ?_⟩
  · rw [holds, items]
    exact tree.named
  · rw [holds]
    exact tree.itemOnce
  · rw [holds, items]
    exact tree.valueOnce
  · rw [holds, items]
    exact tree.nodup
  · rw [holds, items]
    exact tree.deeper

end Levels

end Forest

namespace Cursor

variable {cursor there : Cursor} {depth : ValueId → Nat} {component : Name} {components : List Name}

/-- A path that `up` can go along: its components are stretches and ask for no iterator. -/
structure Walkable (components : List Name) : Prop where
  stretches : ∀ component ∈ components, Stretch component
  values : ∀ component ∈ components, (Component.parse component).iteratorMode = false

theorem Walkable.tail (walkable : Walkable (component :: components)) : Walkable components :=
  ⟨fun other member => walkable.stretches other (List.mem_cons_of_mem _ member),
    fun other member => walkable.values other (List.mem_cons_of_mem _ member)⟩

/-- What `up` resolves. -/
theorem up_eq (path : cursor.pathComponents = component :: components)
    (walkable : Walkable components) :
    cursor.up =
      let entered := enterAll false ({ cursor.unpinPath with
        pathComponents := components }.restarted components) components
      if entered.1 then (true, entered.2.pinPath) else (false, entered.2.pinPath.pinPath) := by
  unfold up getPath
  rw [if_neg (by rw [path]; simp), path]
  simp only [List.tail_cons, resolve_absolute false (show ((46 :: [46].intercalate components :
    PathText).head? == some 46 || _) = true by simp), parsePathString_intercalate walkable.stretches]
  cases entered : (enterAll false ({ cursor.unpinPath with
    pathComponents := components }.restarted components) components).1 <;> rfl

theorem up_stops (path : cursor.pathComponents = component :: components)
    (walkable : Walkable components) :
    cursor.forest.Alike cursor.up.2.forest ∧ cursor.up.2.root = cursor.root ∧
      cursor.up.2.pathComponents = components ∧
      ∃ front back, components = front ++ back ∧
        cursor.forest.follow cursor.root front = some cursor.up.2.current ∧
        (cursor.up.1 = true ↔ back = []) := by
  have alike : cursor.forest.Alike ({ cursor.unpinPath with
      pathComponents := components }.restarted components).forest :=
    (Forest.Alike.unpin _ _).trans (Forest.Alike.unpin _ _)
  obtain ⟨front, back, split, leads, whole, forest, root, same⟩ := @enterAll_stops components
    ({ cursor.unpinPath with pathComponents := components }.restarted components) walkable.values
  rw [← forest] at alike
  rw [up_eq path walkable]
  cases entered : (enterAll false ({ cursor.unpinPath with
      pathComponents := components }.restarted components) components).1 with
  | true =>
    rw [entered] at whole
    simp only [entered, if_true]
    exact ⟨alike.trans (.pin _ _), root, same, front, back, split, leads, by simpa using whole⟩
  | false =>
    rw [entered] at whole
    simp only [entered, Bool.false_eq_true, if_false]
    exact ⟨(alike.trans (.pin _ _)).trans (.pin _ _), root, same, front, back, split, leads, by
      simpa using whole⟩

theorem up_last {front : List Name} {last : Name} {target : ValueId}
    (path : cursor.pathComponents = component :: (front ++ [last]))
    (walkable : Walkable (front ++ [last]))
    (leads : cursor.forest.follow cursor.root (front ++ [last]) = some target) :
    ∃ there : Cursor, ∃ owner item fromEnd, cursor.up = (true, there) ∧
      cursor.forest.Alike there.forest ∧ there.root = cursor.root ∧
      there.pathComponents = front ++ [last] ∧ there.current = target ∧
      there.currentParent = some owner ∧ there.currentItem = some item ∧
      there.currentItemFromEnd = fromEnd ∧
      cursor.forest.follow cursor.root front = some owner ∧
      (∃ name, cursor.forest.holds owner name = some item) ∧
      cursor.forest.getValue item fromEnd = some target := by
  obtain ⟨there, owner, item, all, forest, root, same, current, parent, isItem, fromEnd, first, held,
    got⟩ := @enterAll_last ({ cursor.unpinPath with
      pathComponents := front ++ [last] }.restarted (front ++ [last])) last target front leads
  have alike : cursor.forest.Alike there.forest := by
    rw [forest]
    exact (Forest.Alike.unpin _ _).trans (Forest.Alike.unpin _ _)
  refine ⟨there.pinPath, owner, item, _, ?_, alike.trans (.pin _ _), root, same, current, parent,
    isItem, fromEnd, first, ⟨_, held⟩, got⟩
  rw [up_eq path walkable, all]
  rfl

theorem up_root (path : cursor.pathComponents = [component]) :
    ∃ there : Cursor, cursor.up = (true, there) ∧ cursor.forest.Alike there.forest ∧
      there.current = cursor.root ∧ there.currentItem = none := by
  have walkable : Walkable [] :=
    ⟨fun _ member => absurd member List.not_mem_nil, fun _ member => absurd member List.not_mem_nil⟩
  refine ⟨({ cursor.unpinPath with pathComponents := [] }.restarted []).pinPath, ?_, ?_, ?_, ?_⟩
  · rw [up_eq path walkable]
    rfl
  · exact ((Forest.Alike.unpin _ _).trans (Forest.Alike.unpin _ _)).trans (.pin _ _)
  · rfl
  · rfl

section Rounds

variable {item : ItemId} {rounds : ℕ}

theorem cleanup_of_value (isItem : cursor.currentItem = some item)
    (left : (cursor.forest.item item).values ≠ []) : cleanup rounds cursor = cursor := by
  cases rounds with
  | zero => rfl
  | succ rounds =>
    have some_ : (cursor.forest.getValue item false).isSome = true := by
      unfold Forest.getValue
      cases values : (cursor.forest.item item).values with
      | nil => exact absurd values left
      | cons => rfl
    unfold cleanup
    simp only [isItem, some_, if_true]

theorem cleanup_step (isItem : cursor.currentItem = some item)
    (empty : (cursor.forest.item item).values = []) :
    cleanup (rounds + 1) cursor =
      if cursor.up.1 && (cursor.up.2.removeName (cursor.forest.item item).name).goesOn then
        cleanup rounds (cursor.up.2.removeName (cursor.forest.item item).name).popCurrent.2
      else cursor.up.2.removeName (cursor.forest.item item).name := by
  have none_ : (cursor.forest.getValue item false).isSome = false := by
    unfold Forest.getValue
    rw [empty]
    rfl
  rw [cleanup]
  simp only [isItem, none_, Bool.false_eq_true, if_false]

variable {owner : ValueId}

theorem popItemValue_eq {forest : Forest} {fromEnd : Bool}
    (writable : forest.readOnly owner = false) :
    forest.popItemValue owner item fromEnd =
      (forest.getValue item fromEnd, forest.take ⟨owner, item, fromEnd⟩) :=
  if_neg (by simp [writable])

theorem popCurrent_of (isOwner : cursor.currentParent = some owner)
    (isItem : cursor.currentItem = some item) (writable : cursor.forest.readOnly owner = false) :
    cursor.popCurrent =
      (cursor.forest.getValue item cursor.currentItemFromEnd,
        { cursor with forest := cursor.forest.take ⟨owner, item, cursor.currentItemFromEnd⟩ }) := by
  cases cursor
  dsimp only at isOwner isItem writable
  subst isOwner isItem
  unfold popCurrent
  dsimp only
  rw [popItemValue_eq writable]

theorem popCurrent_eq (cursor : Cursor) :
    ∃ forest, cursor.popCurrent.2 = { cursor with forest := forest } ∧
      cursor.forest.Lessens forest ∧ forest.tree = cursor.forest.tree := by
  unfold popCurrent
  split
  · rename_i owner item _ _
    cases readOnly : cursor.forest.readOnly owner with
    | true =>
      refine ⟨cursor.forest, ?_, .refl _, rfl⟩
      unfold Forest.popItemValue
      simp only [readOnly, if_true]
    | false =>
      refine ⟨_, ?_, Forest.lessens_take ⟨owner, item, cursor.currentItemFromEnd⟩, rfl⟩
      rw [popItemValue_eq readOnly]
  · exact ⟨cursor.forest, rfl, .refl _, rfl⟩

/-- The loop only takes values and entries away. -/
theorem cleanup_lessens : ∀ {rounds : ℕ} {cursor : Cursor}, cursor.forest.Sound →
    Walkable cursor.pathComponents → cursor.forest.Lessens (cleanup rounds cursor).forest := by
  intro rounds
  induction rounds with
  | zero => intro cursor _ _; exact .refl _
  | succ rounds ih =>
    intro cursor sound walkable
    cases isItem : cursor.currentItem with
    | none =>
      rw [cleanup]
      simp only [isItem]
      exact .refl _
    | some item =>
      by_cases empty : (cursor.forest.item item).values = []
      · -- Going up moves pins, and the removal takes at most a name.
        have up : cursor.forest.Lessens cursor.up.2.forest ∧ Walkable cursor.up.2.pathComponents := by
          cases path : cursor.pathComponents with
          | nil =>
            have stuck : cursor.up = (false, cursor) := by
              unfold up
              rw [if_pos (by rw [path]; rfl)]
            rw [stuck]
            exact ⟨.refl _, walkable⟩
          | cons component components =>
            rw [path] at walkable
            obtain ⟨alike, -, same, -⟩ := up_stops path walkable.tail
            rw [same]
            exact ⟨alike.lessens, walkable.tail⟩
        have removed := up.1.trans ((up.1.sound sound).lessens_remove cursor.up.2.current
          (cursor.forest.item item).name)
        rw [cleanup_step isItem empty]
        split
        · obtain ⟨forest, popped, lessens, -⟩ :=
            popCurrent_eq (cursor.up.2.removeName (cursor.forest.item item).name)
          rw [popped]
          exact (removed.trans lessens).trans
            (@ih { cursor.up.2 with forest := forest } (lessens.sound (removed.sound sound)) up.2)
        · exact removed
      · rw [cleanup_of_value isItem empty]
        exact .refl _

theorem cleanup_tree_deep : ∀ {rounds : ℕ} {cursor : Cursor},
    cursor.forest.Sound → cursor.forest.Graded depth → Walkable cursor.pathComponents →
      cursor.pathComponents ≠ [] ∨ cursor.currentItem = none →
        depth cursor.root + cursor.pathComponents.length ≤ depth owner →
          (cleanup rounds cursor).forest.tree owner = cursor.forest.tree owner := by
  intro rounds
  induction rounds with
  | zero => intro cursor _ _ _ _ _; rfl
  | succ rounds ih =>
    intro cursor sound graded walkable rooted deep
    cases isItem : cursor.currentItem with
    | none =>
      rw [cleanup]
      simp only [isItem]
    | some item =>
      by_cases empty : (cursor.forest.item item).values = []
      · cases path : cursor.pathComponents with
        | nil =>
          rcases rooted with nonempty | nothing
          · exact absurd path nonempty
          · rw [nothing] at isItem
            cases isItem
        | cons component components =>
          rw [path] at walkable deep
          obtain ⟨alike, root, same, front, back, split, leads, whole⟩ := up_stops path walkable.tail
          -- The cursor gets no deeper than the path without its first component is long.
          have shallow : cursor.up.2.current ≠ owner := by
            intro here
            have depth_ := graded.depth_follow leads
            rw [here] at depth_
            have length := congrArg List.length split
            simp only [List.length_append, List.length_cons] at length deep
            omega
          have lessens := alike.lessens.trans ((alike.sound sound).lessens_remove
            cursor.up.2.current (cursor.forest.item item).name)
          have tree : (cursor.up.2.removeName (cursor.forest.item item).name).forest.tree owner =
              cursor.forest.tree owner := by
            refine (Forest.tree_remove_of_ne (Ne.symm shallow) _).trans ?_
            rw [alike]
          rw [cleanup_step isItem empty]
          split
          · rename_i goes
            obtain ⟨forest, popped, less, sameTree⟩ :=
              popCurrent_eq (cursor.up.2.removeName (cursor.forest.item item).name)
            rw [popped]
            refine (@ih { cursor.up.2 with forest := forest } (less.sound (lessens.sound sound))
              ((lessens.trans less).graded graded) ?_ ?_ ?_).trans ?_
            · show Walkable cursor.up.2.pathComponents
              rw [same]
              exact walkable.tail
            · show cursor.up.2.pathComponents ≠ [] ∨ cursor.up.2.currentItem = none
              rw [same]
              cases components with
              | nil =>
                obtain ⟨there, went, -, -, nothing⟩ := up_root path
                rw [went]
                exact Or.inr nothing
              | cons => exact Or.inl (List.cons_ne_nil _ _)
            · show depth cursor.up.2.root + cursor.up.2.pathComponents.length ≤ depth owner
              rw [root, same]
              simp only [List.length_cons] at deep
              omega
            · show forest.tree owner = _
              rw [sameTree]
              exact tree
          · exact tree
      · rw [cleanup_of_value isItem empty]

theorem removeName_forest {forest : Forest} {level : Level} {name : Name}
    (alike : forest.Alike there.forest) (current : there.current = level.owner)
    (writable : forest.readOnly level.owner = false)
    (held : forest.holds level.owner name = some level.item)
    (empty : (forest.item level.item).values = []) :
    (forest.erase level.owner name).Alike (there.removeName name).forest := by
  have removed : there.forest.remove level.owner name = there.forest.erase level.owner name := by
    refine @Forest.remove_of_empty there.forest level.owner name level.item ?_ ?_ ?_
    · rw [alike.holds]
      exact held
    · rw [alike.readOnly]
      exact writable
    · rw [alike.items]
      exact empty
  have same : (there.removeName name).forest = there.forest.erase level.owner name := by
    unfold removeName
    rw [current]
    exact removed
  rw [same]
  exact alike.erase _ _

end Rounds

section Exact

variable {forest : Forest} {root : ValueId} {rounds : ℕ}

theorem cleanup_astray {level : Level} {name : Name}
    (path : cursor.pathComponents = component :: components)
    (walkable : Walkable components) (sound : cursor.forest.Sound)
    (graded : cursor.forest.Graded depth) (isItem : cursor.currentItem = some level.item)
    (empty : (cursor.forest.item level.item).values = [])
    (deep : depth cursor.root + components.length = depth level.owner)
    (elsewhere : cursor.forest.follow cursor.root components ≠ some level.owner)
    (held : cursor.forest.holds level.owner name = some level.item) :
    (cleanup (rounds + 1) cursor).forest.holds level.owner name = some level.item := by
  obtain ⟨alike, root, same, front, back, split, leads, whole⟩ := up_stops path walkable
  have shallow : cursor.up.2.current ≠ level.owner := by
    intro here
    rw [here] at leads
    have down := graded.depth_follow leads
    have length := congrArg List.length split
    rw [List.length_append] at length
    -- Only the whole path is long enough, and it leads elsewhere.
    have none_ : back = [] := List.length_eq_zero_iff.mp (by omega)
    rw [none_, List.append_nil] at split
    exact elsewhere (split ▸ leads)
  have lessens := alike.lessens.trans ((alike.sound sound).lessens_remove cursor.up.2.current
    (cursor.forest.item level.item).name)
  have kept : (cursor.up.2.removeName (cursor.forest.item level.item).name).forest.tree level.owner =
      cursor.forest.tree level.owner := by
    refine (Forest.tree_remove_of_ne (Ne.symm shallow) _).trans ?_
    rw [alike]
  have tree : (cleanup (rounds + 1) cursor).forest.tree level.owner =
      cursor.forest.tree level.owner := by
    rw [cleanup_step isItem empty]
    split
    · obtain ⟨forest, popped, less, sameTree⟩ :=
        popCurrent_eq (cursor.up.2.removeName (cursor.forest.item level.item).name)
      rw [popped]
      refine (@cleanup_tree_deep depth level.owner rounds { cursor.up.2 with forest := forest }
        (less.sound (lessens.sound sound)) ((lessens.trans less).graded graded) ?_ ?_ ?_).trans ?_
      · show Walkable cursor.up.2.pathComponents
        rw [same]
        exact walkable
      · show cursor.up.2.pathComponents ≠ [] ∨ cursor.up.2.currentItem = none
        rw [same]
        cases components with
        | nil =>
          obtain ⟨there, went, -, -, nothing⟩ := up_root path
          rw [went]
          exact Or.inr nothing
        | cons => exact Or.inl (List.cons_ne_nil _ _)
      · show depth cursor.up.2.root + cursor.up.2.pathComponents.length ≤ depth level.owner
        rw [root, same]
        exact Nat.le_of_eq deep
      · exact (congrFun sameTree _).trans kept
    · exact kept
  unfold Forest.holds
  rw [tree]
  exact held

/-- A round of the loop, after a value has been taken from the item of a step. -/
structure Round (forest : Forest) (depth : ValueId → Nat) (root : ValueId) (level : Level)
    (above : List Level) (components : List Name) (cursor : Cursor) : Prop where
  tree : forest.IsTree depth
  held : ∃ name, forest.holds level.owner name = some level.item
  leads : forest.Leads root above level.owner
  atRoot : cursor.root = root
  path : cursor.pathComponents = components
  walkable : Walkable components
  length : components.length = above.length + 1
  isItem : cursor.currentItem = some level.item
  writable : forest.readOnly level.owner = false
  agrees : Forest.Agrees forest cursor.forest depth (depth level.owner)
  emptied : (cursor.forest.item level.item).values = [] ↔ (forest.item level.item).values.length = 1

namespace Round

variable {level : Level} {above : List Level}

theorem of_value (round : Round forest depth root level above components cursor)
    (left : (cursor.forest.item level.item).values ≠ []) :
    (cursor.forest.tidy level above).Alike (cleanup components.length cursor).forest ↔
      forest.Aligned root components (level :: above) := by
  rw [Forest.tidy_of_value left, cleanup_of_value round.isItem left]
  exact ⟨fun _ one => absurd (round.emptied.mpr one) left, fun _ => .refl _⟩

theorem name (round : Round forest depth root level above components cursor) :
    forest.holds level.owner (cursor.forest.item level.item).name = some level.item ∧
      cursor.forest.holds level.owner (cursor.forest.item level.item).name = some level.item := by
  obtain ⟨name, held⟩ := round.held
  rw [round.agrees.names, round.tree.named held, round.agrees.holds (Nat.le_refl _)]
  exact ⟨held, held⟩

theorem split (round : Round forest depth root level above components cursor) :
    ∃ component rest, components = component :: rest ∧ rest.length = above.length ∧
      depth root + rest.length = depth level.owner := by
  have down := round.tree.graded.depth_leads round.leads
  cases path : components with
  | nil =>
    have length := round.length
    rw [path] at length
    cases length
  | cons component rest =>
    have length := round.length
    rw [path, List.length_cons] at length
    exact ⟨component, rest, rfl, by omega, by omega⟩

theorem astray {rest : List Name}
    (round : Round forest depth root level above (component :: rest) cursor)
    (empty : (cursor.forest.item level.item).values = [])
    (elsewhere : forest.follow root rest ≠ some level.owner) :
    (cursor.forest.tidy level above).Alike (cleanup (component :: rest).length cursor).forest ↔
      forest.Aligned root (component :: rest) (level :: above) := by
  obtain ⟨held, heldNow⟩ := round.name
  obtain ⟨_, _, same, -, down⟩ := round.split
  obtain ⟨rfl, rfl⟩ := List.cons.inj same
  constructor
  · intro alike
    have gone := round.agrees.holds_tidy round.tree.graded round.leads held rfl empty
    have follows : cursor.forest.follow cursor.root rest ≠ some level.owner := by
      rw [round.atRoot, round.agrees.follow round.tree.graded (Nat.le_of_eq down)]
      exact elsewhere
    have stays := @cleanup_astray _ depth _ _ rest.length level _ round.path round.walkable.tail
      round.agrees.sound round.agrees.graded round.isItem empty (by rw [round.atRoot]; exact down)
      follows heldNow
    rw [← List.length_cons, alike.holds, gone] at stays
    cases stays
  · intro aligned
    exact absurd (aligned (round.emptied.mp empty)).1 elsewhere

theorem root_ (round : Round forest depth root level [] [component] cursor)
    (empty : (cursor.forest.item level.item).values = []) :
    (cursor.forest.tidy level []).Alike (cleanup 1 cursor).forest := by
  obtain ⟨there, went, alike, current, nothing⟩ := up_root round.path
  have owner : there.current = level.owner := by
    rw [current, round.atRoot]
    exact (show level.owner = root from round.leads).symm
  have writable : cursor.forest.readOnly level.owner = false := by
    rw [round.agrees.readOnly]
    exact round.writable
  have removed := removeName_forest alike owner writable round.name.2 empty
  have ends : (there.removeName (cursor.forest.item level.item).name).goesOn = false := by
    unfold goesOn removeName
    simp only [nothing, Option.isSome_none, Bool.false_and]
  have isEmpty : (cursor.forest.item level.item).values.isEmpty = true := by rw [empty]; rfl
  have last : cleanup 1 cursor = there.removeName (cursor.forest.item level.item).name := by
    rw [cleanup_step round.isItem empty, went]
    simp only [ends, Bool.and_false, Bool.false_eq_true, if_false]
  rw [last]
  simp only [Forest.tidy, isEmpty, if_true]
  exact removed

theorem climbs {next : Level} {rest : List Level} {others : List Name}
    (round : Round forest depth root level (next :: rest) (component :: others) cursor)
    (here : forest.follow root others = some level.owner) :
    ∃ there : Cursor, cursor.up = (true, there) ∧ cursor.forest.Alike there.forest ∧
      there.root = root ∧ there.pathComponents = others ∧ there.current = level.owner ∧
      there.currentParent = some next.owner ∧ there.currentItem = some next.item ∧
      forest.getValue next.item there.currentItemFromEnd = some level.owner := by
  obtain ⟨_, _, same, length, down⟩ := round.split
  obtain ⟨rfl, rfl⟩ := List.cons.inj same
  obtain ⟨⟨nextName, nextHeld⟩, nextGot, -⟩ := round.leads
  rcases List.eq_nil_or_concat' others with rfl | ⟨front, last, rfl⟩
  · cases length
  · have leads : cursor.forest.follow cursor.root (front ++ [last]) = some level.owner := by
      rw [round.atRoot, round.agrees.follow round.tree.graded (Nat.le_of_eq down)]
      exact here
    obtain ⟨there, owner, item, fromEnd, went, alike, atRoot, path, current, isOwner, isItem, isEnd,
      first, ⟨name, held⟩, got⟩ := up_last round.path round.walkable.tail leads
    -- The owner is too far up to have changed, so that it is the one that the step names.
    rw [round.atRoot, round.agrees.follow round.tree.graded (by
      rw [List.length_append, List.length_singleton] at down
      omega)] at first
    have ownerDepth := round.tree.graded.depth_follow first
    rw [List.length_append, List.length_singleton] at down
    have shallow : depth owner < depth level.owner := by omega
    rw [round.agrees.holds (Nat.le_of_lt shallow)] at held
    have got : forest.getValue item fromEnd = some level.owner := by
      unfold Forest.getValue at got ⊢
      rw [round.agrees.items shallow held] at got
      exact got
    obtain rfl : item = next.item := round.tree.valueOnce held nextHeld
      (Forest.mem_of_getValue got) (Forest.mem_of_getValue nextGot)
    obtain rfl : owner = next.owner := round.tree.itemOnce held nextHeld
    exact ⟨there, went, alike, atRoot.trans round.atRoot, path, current, isOwner, isItem,
      by rw [isEnd]; exact got⟩

/-- Where the path without its first component leads to the dictionary, the loop does as it should. -/
theorem on {next : Level} {rest : List Level} {others : List Name}
    (round : Round forest depth root level (next :: rest) (component :: others) cursor)
    (empty : (cursor.forest.item level.item).values = [])
    (here : forest.follow root others = some level.owner)
    (later : ∀ cursor, Round forest depth root next rest others cursor →
      ((cursor.forest.tidy next rest).Alike (cleanup others.length cursor).forest ↔
        forest.Aligned root others (next :: rest))) :
    (cursor.forest.tidy level (next :: rest)).Alike
        (cleanup (component :: others).length cursor).forest ↔
      forest.Aligned root (component :: others) (level :: next :: rest) := by
  obtain ⟨there, went, alike, atRoot, path, current, isOwner, isItem, got⟩ := round.climbs here
  obtain ⟨held, heldNow⟩ := round.name
  obtain ⟨_, _, same, length, -⟩ := round.split
  obtain ⟨rfl, rfl⟩ := List.cons.inj same
  obtain ⟨⟨nextName, nextHeld⟩, nextGot, above⟩ := round.leads
  have inside := Forest.mem_of_getValue nextGot
  have shallow : depth next.owner < depth level.owner := by
    rw [round.tree.deeper nextHeld inside]
    exact Nat.lt_succ_self _
  have writable : cursor.forest.readOnly level.owner = false := by
    rw [round.agrees.readOnly]
    exact round.writable
  generalize named : (cursor.forest.item level.item).name = name at *
  -- The dictionary without the item, in the model and in the code.
  have erased := removeName_forest alike current writable heldNow empty
  have goes : (there.removeName name).goesOn =
      ((cursor.forest.erase level.owner name).useless level.owner &&
        !(cursor.forest.erase level.owner name).readOnly level.owner &&
          !(cursor.forest.erase level.owner name).readOnly next.owner) := by
    have useless := erased.useless level.owner
    have readOnly := erased.readOnly
    have isEmpty : (there.removeName name).forest.isEmpty =
        (cursor.forest.erase level.owner name).isEmpty := by rw [erased]
    unfold Forest.useless at useless ⊢
    unfold goesOn mutationTouchesReadOnlyBranch
    rw [show (there.removeName name).current = level.owner from current,
      show (there.removeName name).currentItem = some next.item from isItem,
      show (there.removeName name).currentParent = some next.owner from isOwner, readOnly]
    simp only [Option.isSome_some, Bool.true_and, Option.any_some, Bool.not_or, Bool.not_not, useless,
      Bool.and_true, Bool.and_assoc]
  have isNil : (cursor.forest.item level.item).values.isEmpty = true := by rw [empty]; rfl
  have looped : cleanup (component :: others).length cursor =
      if (there.removeName name).goesOn then cleanup others.length (there.removeName name).popCurrent.2
      else there.removeName name := by
    rw [List.length_cons, cleanup_step round.isItem empty, went, named]
    simp only [Bool.true_and]
  have tidied : cursor.forest.tidy level (next :: rest) =
      if (there.removeName name).goesOn then
        Forest.tidy ((cursor.forest.erase level.owner name).take next) next rest
      else cursor.forest.erase level.owner name := by
    rw [Forest.tidy, if_pos isNil, named, goes]
  have entries : ((cursor.forest.erase level.owner name).tree level.owner).entries = [] ↔
      (forest.tree level.owner).entries.length = 1 := by
    have tree : (cursor.forest.erase level.owner name).tree level.owner =
        (forest.tree level.owner).remove name := by
      rw [← round.agrees.trees level.owner (Nat.le_refl _)]
      exact Function.update_self _ _ _
    rw [tree]
    exact Forest.entries_remove_eq_nil (round.tree.sound.keeps_of_holds held) held
  have asked : (there.removeName name).goesOn = true ↔
      forest.isEmpty level.owner = true ∧ (forest.tree level.owner).entries.length = 1 ∧
        forest.readOnly level.owner = false ∧
          ∀ above ∈ (next :: rest).head?, forest.readOnly above.owner = false := by
    rw [goes, ← entries, ← round.agrees.isEmpty, ← round.agrees.readOnly]
    show ((_ && _) && _ && _) = true ↔ _
    simp only [Bool.and_eq_true, List.isEmpty_iff, Bool.not_eq_true', List.head?_cons,
      Option.mem_some_iff, forall_eq', and_assoc]
    exact Iff.rfl
  have one := round.emptied.mp empty
  rw [looped, tidied]
  by_cases on : (there.removeName name).goesOn = true
  · rw [if_pos on, if_pos on]
    have conditions := asked.mp on
    have nextWritable : forest.readOnly next.owner = false := conditions.2.2.2 next rfl
    have popped : (there.removeName name).popCurrent.2 =
        { there.removeName name with
          forest := (there.removeName name).forest.take ⟨next.owner, next.item, there.currentItemFromEnd⟩ } := by
      have open_ : (there.removeName name).forest.readOnly next.owner = false := by
        rw [erased.readOnly]
        show cursor.forest.readOnly next.owner = false
        rw [round.agrees.readOnly]
        exact nextWritable
      have pops := popCurrent_of (show (there.removeName name).currentParent = _ from isOwner) isItem open_
      exact congrArg Prod.snd pops
    -- The value that is popped is the one that the step names, from whichever end.
    have item : (cursor.forest.erase level.owner name).item next.item = forest.item next.item :=
      round.agrees.items shallow nextHeld
    have takes : ((cursor.forest.erase level.owner name).take next).Alike
        ((there.removeName name).forest.take ⟨next.owner, next.item, there.currentItemFromEnd⟩) := by
      have ends := @Forest.take_of_getValue (cursor.forest.erase level.owner name) level.owner next.item
        next.fromEnd there.currentItemFromEnd (by rw [item]; exact round.tree.nodup nextHeld)
        (by unfold Forest.getValue at nextGot ⊢; rw [item]; exact nextGot)
        (by unfold Forest.getValue at got ⊢; rw [item]; exact got) next.owner next.owner
      rw [show (cursor.forest.erase level.owner name).take next = _ from ends]
      exact erased.take _
    rw [popped]
    have further : Round forest depth root next rest others
        { there.removeName name with
          forest := (there.removeName name).forest.take ⟨next.owner, next.item, there.currentItemFromEnd⟩ } := by
      refine ⟨round.tree, ⟨nextName, nextHeld⟩, above, atRoot, path, round.walkable.tail, length, isItem,
        nextWritable, (round.agrees.up round.tree held empty nextHeld inside).alike takes, ?_⟩
      rw [takes.items, Forest.values_take_eq_nil (by rw [item]; exact inside), item]
    have same := @Forest.Alike.tidy rest next _ _ takes
    have exact_ := later _ further
    constructor
    · intro tidies _
      exact ⟨here, fun _ => exact_.mp (same.symm.trans tidies)⟩
    · intro aligned
      exact same.trans (exact_.mpr ((aligned one).2 conditions))
  · rw [if_neg on, if_neg on]
    exact ⟨fun _ _ => ⟨here, fun conditions => absurd (asked.mpr conditions) on⟩, fun _ => erased⟩

theorem tidy_iff : ∀ {above : List Level} {level : Level} {components : List Name} {cursor : Cursor},
    Round forest depth root level above components cursor →
      ((cursor.forest.tidy level above).Alike (cleanup components.length cursor).forest ↔
        forest.Aligned root components (level :: above)) := by
  -- By induction on the steps above, with one component less for each.
  intro above
  induction above with
  | nil =>
    intro level components cursor round
    by_cases empty : (cursor.forest.item level.item).values = []
    · obtain ⟨component, rest, rfl, length, -⟩ := round.split
      obtain rfl := List.length_eq_zero_iff.mp length
      refine ⟨fun _ _ => ⟨congrArg some (show level.owner = root from round.leads).symm, fun _ => ?_⟩,
        fun _ => round.root_ empty⟩
      exact trivial
    · exact round.of_value empty
  | cons next rest ih =>
    intro level components cursor round
    by_cases empty : (cursor.forest.item level.item).values = []
    · obtain ⟨component, others, rfl, -, -⟩ := round.split
      by_cases here : forest.follow root others = some level.owner
      · exact round.on empty here fun cursor further => ih further
      · exact round.astray empty here
    · exact round.of_value empty

end Round

theorem remove_lessens (sound : cursor.forest.Sound) (walkable : Walkable cursor.pathComponents) :
    cursor.forest.Lessens cursor.remove.2.forest := by
  unfold remove
  split
  · exact .refl _
  split
  · exact .refl _
  · obtain ⟨forest, popped, lessens, -⟩ := popCurrent_eq cursor
    dsimp only
    rw [popped]
    split
    · exact lessens
    · have cleaned := @cleanup_lessens cursor.pathComponents.length { cursor with forest := forest }
        (lessens.sound sound) walkable
      exact (lessens.trans cleaned).trans (Forest.Alike.pin _ _).lessens

theorem removes_iff_of_unchanged (failed : cursor.remove = (false, cursor))
    (nothing : cursor.forest.without cursor.current cursor.levels = cursor.forest)
    (removable : cursor.Removable) : cursor.Removes ↔ cursor.Removable := by
  refine ⟨fun _ => removable, fun _ => ⟨?_, fun components _ => ?_⟩⟩
  · rw [failed, nothing]
    exact .refl _
  · rw [failed]

theorem removes_iff_aligned {front : List Name} {last : Name} {owner : ValueId} {item : ItemId}
    (tree : cursor.forest.IsTree depth) (walkable : Walkable cursor.pathComponents)
    (path : cursor.pathComponents = front ++ [last])
    (leads : cursor.forest.follow cursor.root front = some owner)
    (held : cursor.forest.holds owner (Component.parse last).name = some item)
    (got : cursor.forest.child owner last = some cursor.current)
    (isOwner : cursor.currentParent = some owner) (isItem : cursor.currentItem = some item)
    (isEnd : cursor.currentItemFromEnd = (Component.parse last).tailDeref) :
    cursor.Removes ↔ cursor.Removable := by
  have levels : cursor.levels =
      ⟨owner, item, (Component.parse last).tailDeref⟩ :: cursor.forest.levels cursor.root front := by
    unfold Cursor.levels
    rw [path, Forest.levels_concat leads held got]
  have there : (cursor.currentParent.isNone || cursor.currentItem.isNone ||
      cursor.pathComponents.isEmpty) = false := by
    rw [isOwner, isItem, path]
    simp
  have touches : cursor.mutationTouchesReadOnlyBranch =
      (cursor.forest.readOnly cursor.current || cursor.forest.readOnly owner) := by
    unfold mutationTouchesReadOnlyBranch
    rw [isOwner]
    rfl
  cases refused : cursor.mutationTouchesReadOnlyBranch with
  | true =>
    have failed : cursor.remove = (false, cursor) := by
      unfold remove
      rw [if_neg (by simp [there]), if_pos refused]
    rw [touches] at refused
    refine removes_iff_of_unchanged failed ?_ ?_
    · rw [levels]
      exact if_pos refused
    · intro level member current writable
      rw [levels] at member
      obtain rfl := Option.some.inj member
      rw [current, writable] at refused
      cases refused
  | false =>
    obtain ⟨current, writable⟩ := Bool.or_eq_false_iff.mp (touches ▸ refused)
    obtain ⟨-, -, _, sameHeld, value⟩ := Forest.child_eq_some.mp got
    obtain rfl := Option.some.inj (held.symm.trans sameHeld)
    obtain ⟨above, length⟩ := Forest.leads_levels leads
    have inside := Forest.mem_of_getValue value
    have popped : cursor.popCurrent =
        (some cursor.current,
          { cursor with
            forest := cursor.forest.take ⟨owner, item, (Component.parse last).tailDeref⟩ }) := by
      rw [popCurrent_of isOwner isItem writable, isEnd, value]
    have removed : cursor.remove =
        (true, (cleanup cursor.pathComponents.length
          { cursor with
            forest := cursor.forest.take ⟨owner, item, (Component.parse last).tailDeref⟩ }).pinPath) := by
      unfold remove
      rw [if_neg (by simp [there]), if_neg (by simp [refused]), popped]
      rfl
    have taken := @Forest.lessens_take cursor.forest ⟨owner, item, (Component.parse last).tailDeref⟩
    have round : Round cursor.forest depth cursor.root ⟨owner, item, (Component.parse last).tailDeref⟩
        (cursor.forest.levels cursor.root front) cursor.pathComponents
        { cursor with forest := cursor.forest.take ⟨owner, item, (Component.parse last).tailDeref⟩ } := by
      refine ⟨tree, ⟨_, held⟩, above, rfl, rfl, walkable, ?_, isItem, writable,
        ⟨taken.sound tree.sound, taken.graded tree.graded, fun _ _ => rfl, fun {_ _ other} shallow there => ?_,
          fun other => ?_, rfl, rfl⟩, Forest.values_take_eq_nil inside⟩
      · rw [path, length]
        simp
      · have different : other ≠ item := by
          rintro rfl
          rw [tree.itemOnce there held] at shallow
          exact Nat.lt_irrefl _ shallow
        exact Function.update_of_ne different _ _
      · show (Function.update cursor.forest.item item _ other).name = _
        rw [Function.update_apply]
        split
        · rename_i same
          rw [same]
        · rfl
    have exact_ := round.tidy_iff
    have left : cursor.forest.without cursor.current cursor.levels =
        (cursor.forest.take ⟨owner, item, (Component.parse last).tailDeref⟩).tidy
          ⟨owner, item, (Component.parse last).tailDeref⟩ (cursor.forest.levels cursor.root front) := by
      rw [levels]
      exact if_neg (by simp [current, writable])
    have aligned : cursor.Removable ↔
        cursor.forest.Aligned cursor.root cursor.pathComponents cursor.levels := by
      constructor
      · intro removable
        exact removable _ (by rw [levels]; rfl) current writable
      · intro aligned _ _ _ _
        exact aligned
    rw [aligned, levels, ← exact_, ← left]
    constructor
    · intro removes
      have same := removes.left
      rw [removed] at same
      exact same.trans (Forest.Alike.pin _ _).symm
    · intro same
      refine ⟨?_, fun components kept => ?_⟩
      · rw [removed]
        exact same.trans (.pin _ _)
      · exact tree.follow_of_lessens (remove_lessens tree.sound walkable) kept

theorem cleanup_enough : ∀ {rounds : ℕ} {cursor : Cursor}, Walkable cursor.pathComponents →
    cursor.pathComponents ≠ [] ∨ cursor.currentItem = none → cursor.pathComponents.length ≤ rounds →
      cleanup (rounds + 1) cursor = cleanup rounds cursor := by
  intro rounds
  induction rounds with
  | zero =>
    intro cursor _ rooted short
    have empty := List.length_eq_zero_iff.mp (Nat.le_zero.mp short)
    have nothing := rooted.resolve_left (not_not.mpr empty)
    rw [cleanup, cleanup]
    simp only [nothing]
  | succ rounds ih =>
    intro cursor walkable rooted short
    cases isItem : cursor.currentItem with
    | none =>
      rw [cleanup, cleanup]
      simp only [isItem]
    | some item =>
      by_cases empty : (cursor.forest.item item).values = []
      · cases path : cursor.pathComponents with
        | nil =>
          have nothing := rooted.resolve_left (not_not.mpr path)
          rw [nothing] at isItem
          cases isItem
        | cons component components =>
          rw [path] at walkable short
          obtain ⟨-, -, same, -⟩ := up_stops path walkable.tail
          obtain ⟨forest, popped, -, -⟩ :=
            popCurrent_eq (cursor.up.2.removeName (cursor.forest.item item).name)
          rw [cleanup_step isItem empty, cleanup_step isItem empty]
          split
          · rw [popped]
            refine @ih { cursor.up.2 with forest := forest } ?_ ?_ ?_
            · show Walkable cursor.up.2.pathComponents
              rw [same]
              exact walkable.tail
            · show cursor.up.2.pathComponents ≠ [] ∨ cursor.up.2.currentItem = none
              rw [same]
              cases components with
              | nil =>
                obtain ⟨there, went, -, -, nothing⟩ := up_root path
                rw [went]
                exact Or.inr nothing
              | cons => exact Or.inl (List.cons_ne_nil _ _)
            · show cursor.up.2.pathComponents.length ≤ rounds
              rw [same]
              exact Nat.le_of_succ_le_succ short
          · rfl
      · rw [cleanup_of_value isItem empty, cleanup_of_value isItem empty]

end Exact

/--
A cursor that got to a value of a tree of dictionaries with plain names removes that value and then
the ancestors that became empty, and nothing else, exactly when for each item that it empties the
path without its first component leads to the value whose dictionary the item is in.
-/
theorem removes_iff {forest : Forest} (tree : forest.IsTree depth) {root : ValueId} {path : PathText}
    (resolved : (Cursor.new forest root).resolve path false = (true, cursor)) :
    cursor.Removes ↔ cursor.Removable := by
  have absolute : (path.head? == some 46 || (Cursor.new forest root).pathComponents.isEmpty) = true :=
    Bool.or_true _
  rw [resolve_absolute false absolute] at resolved
  obtain ⟨whole, rfl⟩ := Prod.mk.inj resolved
  have alike : forest.Alike ((Cursor.new forest root).restarted (parsePathString path)).forest :=
    (Forest.Alike.pin _ _).trans (Forest.Alike.unpin _ _)
  have samePath := @enterAll_path false (parsePathString path)
    ((Cursor.new forest root).restarted (parsePathString path))
  -- A cursor away from all dictionaries, or at the root, has nothing to remove.
  have detached : ∀ cursor : Cursor, cursor.currentParent = none → cursor.levels = [] →
      (cursor.Removes ↔ cursor.Removable) := by
    intro cursor parent levels
    refine removes_iff_of_unchanged ?_ ?_ ?_
    · unfold remove
      rw [if_pos (by simp [parent])]
    · rw [levels]
      rfl
    · intro level member
      rw [levels] at member
      cases member
  by_cases asked : ∃ component ∈ parsePathString path, (Component.parse component).iteratorMode = true
  · refine detached _ (enterAll_detached asked whole) (Forest.levels_of_none ?_)
    refine follow_of_iterator ?_
    rw [show (pinPath _).pathComponents = parsePathString path from samePath]
    exact asked
  · have plain : ∀ component ∈ parsePathString path, (Component.parse component).iteratorMode = false :=
      fun component member => Bool.eq_false_iff.mpr fun iterates => asked ⟨component, member, iterates⟩
    obtain ⟨front, back, split, leads, all, -⟩ := @enterAll_stops _
      ((Cursor.new forest root).restarted (parsePathString path)) plain
    obtain rfl := all.mp whole
    rw [List.append_nil] at split
    rw [← split] at leads
    rcases List.eq_nil_or_concat' (parsePathString path) with empty | ⟨front, last, path_⟩
    · rw [empty]
      exact detached _ rfl rfl
    · rw [path_] at leads
      obtain ⟨there, owner, item, entered, sameForest, sameRoot, same, current, isOwner, isItem, isEnd,
        first, held, -⟩ := enterAll_last leads
      have pathThere : there.pathComponents = front ++ [last] := same
      have walkable : Walkable (front ++ [last]) := by
        rw [← path_]
        exact ⟨fun component member => stretch_of_mem member, plain⟩
      have alikeThere : forest.Alike there.forest := by
        rw [sameForest]
        rw [path_] at alike
        exact alike
      have treeThere := alikeThere.isTree tree
      rw [← sameForest] at first held leads
      have leadsLast : there.forest.child owner last = some there.current := by
        rw [current]
        rw [Forest.follow_concat, first] at leads
        exact leads
      rw [show ((Cursor.new forest root).restarted (front ++ [last])).current = there.root from
        sameRoot.symm] at first
      rw [path_, entered]
      exact @removes_iff_aligned there.pinPath depth front last owner item
        ((Forest.Alike.pin _ _).isTree treeThere) (pathThere ▸ walkable) pathThere first held leadsLast
        isOwner isItem isEnd

end Cursor

/-- A root with the children `a`, which has a child `b`, and `b`. -/
def orchard : Forest where
  tree
    | 0 => .node .leaf (ascii "a") (some 0) (.node .leaf (ascii "b") (some 2) .leaf)
    | 1 => .node .leaf (ascii "b") (some 1) .leaf
    | _ => .new_
  readOnly := fun _ => false
  isEmpty := fun _ => true
  pinnedCount := fun _ => 0
  item
    | 0 => ⟨ascii "a", [1]⟩
    | 1 => ⟨ascii "b", [2]⟩
    | 2 => ⟨ascii "b", [3]⟩
    | _ => ⟨[], []⟩
  freshValue := 4
  freshItem := 3
  crashed := false

namespace orchard

def depth : ValueId → Nat
  | 0 => 0
  | 2 => 2
  | _ => 1

/-- The names of the root and of its child `a` ascend. -/
theorem ordered : (orchard.tree 0).Ordered ∧ (orchard.tree 1).Ordered := by
  refine ⟨?_, List.pairwise_singleton _ _⟩
  show List.Pairwise _ [(ascii "a", some 0), (ascii "b", some 2)]
  decide

/-- The items of the root and of its child `a`. -/
theorem holds_cases {value : ValueId} {name : Name} {item : ItemId}
    (held : orchard.holds value name = some item) :
    value = 0 ∧ name = ascii "a" ∧ item = 0 ∨ value = 0 ∧ name = ascii "b" ∧ item = 2 ∨
      value = 1 ∧ name = ascii "b" ∧ item = 1 := by
  have found : (orchard.tree value).find name = some (some item) := Option.join_eq_some_iff.mp held
  obtain _ | _ | value := value
  · have member : (name, some item) ∈ [(ascii "a", some 0), (ascii "b", some 2)] :=
      ordered.1.find_iff.mp found
    simpa using member
  · have member : (name, some item) ∈ [(ascii "b", some 1)] := ordered.2.find_iff.mp found
    simpa using member
  · cases name <;> cases found

theorem isTree : orchard.IsTree depth := by
  have plain : Name.Plain (ascii "a") ∧ Name.Plain (ascii "b") :=
    ⟨⟨by decide, by decide, by decide⟩, ⟨by decide, by decide, by decide⟩⟩
  refine ⟨⟨fun value => ?_, ?_, ?_, ?_⟩, ?_, ?_, ?_, ?_, ?_⟩
  · obtain _ | _ | value := value
    · exact Or.inl (AATree.Keeps.of_ordered ordered.1 (by
        show ∀ node ∈ [(ascii "a", some 0), (ascii "b", some 2)], node.2 ≠ none
        decide))
    · exact Or.inl (AATree.Keeps.of_ordered ordered.2 (by
        show ∀ node ∈ [(ascii "b", some 1)], node.2 ≠ none
        decide))
    · exact Or.inr rfl
  · intro value name item held
    rcases holds_cases held with ⟨-, rfl, -⟩ | ⟨-, rfl, -⟩ | ⟨-, rfl, -⟩
    · exact plain.1
    · exact plain.2
    · exact plain.2
  · intro value name item held
    rcases holds_cases held with ⟨-, -, rfl⟩ | ⟨-, -, rfl⟩ | ⟨-, -, rfl⟩ <;> decide
  · intro item value member
    obtain _ | _ | _ | item := item
    · rw [List.mem_singleton.mp member]; decide
    · rw [List.mem_singleton.mp member]; decide
    · rw [List.mem_singleton.mp member]; decide
    · cases member
  · intro value name item held
    rcases holds_cases held with ⟨-, rfl, rfl⟩ | ⟨-, rfl, rfl⟩ | ⟨-, rfl, rfl⟩ <;> rfl
  · intro value other name otherName item held there
    rcases holds_cases held with ⟨rfl, -, rfl⟩ | ⟨rfl, -, rfl⟩ | ⟨rfl, -, rfl⟩ <;>
      rcases holds_cases there with ⟨rfl, -, same⟩ | ⟨rfl, -, same⟩ | ⟨rfl, -, same⟩ <;>
        first | rfl | cases same
  · intro value other name otherName item otherItem one held there inside also
    rcases holds_cases held with ⟨-, -, rfl⟩ | ⟨-, -, rfl⟩ | ⟨-, -, rfl⟩ <;>
      rcases holds_cases there with ⟨-, -, rfl⟩ | ⟨-, -, rfl⟩ | ⟨-, -, rfl⟩ <;>
        rw [List.mem_singleton.mp inside] at also <;>
          first | rfl | (cases List.mem_singleton.mp also)
  · intro value name item held
    rcases holds_cases held with ⟨-, -, rfl⟩ | ⟨-, -, rfl⟩ | ⟨-, -, rfl⟩ <;>
      exact List.nodup_singleton _
  · intro value name item one held inside
    rcases holds_cases held with ⟨rfl, -, rfl⟩ | ⟨rfl, -, rfl⟩ | ⟨rfl, -, rfl⟩ <;>
      rw [List.mem_singleton.mp inside] <;> rfl

end orchard

namespace Cursor

/-- The child `b` of the root is removed as it should be. -/
theorem removes_iff_first : ((Cursor.new orchard 0).resolve (ascii "b") false).2.Removes := by
  have resolved : (Cursor.new orchard 0).resolve (ascii "b") false =
      (true, ((Cursor.new orchard 0).resolve (ascii "b") false).2) :=
    Prod.ext (by decide) rfl
  refine (removes_iff orchard.isTree resolved).mpr fun level _ _ _ => ?_
  have levels : ((Cursor.new orchard 0).resolve (ascii "b") false).2.levels = [⟨0, 2, false⟩] := by
    decide
  rw [levels]
  exact fun _ => ⟨by decide, fun _ => trivial⟩

/--
Removing the value at `a.b` takes away the entry `b` of the root, because going up drops the
component `a`, and leaves an item without values under `a`.
-/
theorem removes_fails :
    orchard.IsTree orchard.depth ∧
      ((Cursor.new orchard 0).resolve (ascii "a.b") false).1 = true ∧
        ¬((Cursor.new orchard 0).resolve (ascii "a.b") false).2.Removes := by
  refine ⟨orchard.isTree, by decide, fun removes => ?_⟩
  have same := congrFun (congrFun removes.left.holds 0) (ascii "b")
  exact absurd same (by decide)

end Cursor

end AgentC

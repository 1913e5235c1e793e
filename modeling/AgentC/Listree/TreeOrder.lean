import AgentC.Listree.Tree
import Mathlib.Data.List.Sort

/-! The search tree keeps its names in order, whatever the order in which they were added. -/

namespace AgentC

open List (Perm)
open scoped List

universe u

section Names

variable {a b c : Name}

theorem name_trans (first : a < b) (second : b < c) : a < c :=
  List.lt_trans first second

theorem name_ne_of_lt (before : a < b) : a ≠ b :=
  fun same => List.lt_irrefl b (same ▸ before)

theorem name_eq_of_not_lt (notBefore : ¬a < b) (notAfter : ¬b < a) : a = b :=
  List.le_antisymm notAfter notBefore

end Names

namespace AATree

variable {α : Type u} {tree : AATree α} {name other : Name} {value : α}

def nodes : AATree α → List (Name × Option α)
  | .leaf => []
  | .node left name data right => left.nodes ++ (name, data) :: right.nodes

def Ordered (tree : AATree α) : Prop :=
  tree.nodes.Pairwise fun node later => node.1 < later.1

theorem Ordered.find_iff (ordered : tree.Ordered) {data : Option α} :
    tree.find name = some data ↔ (name, data) ∈ tree.nodes := by
  induction tree with
  | leaf => simp [find, nodes]
  | node left n own right ihLeft ihRight =>
    obtain ⟨before, after, across⟩ := List.pairwise_append.mp ordered
    obtain ⟨above, after⟩ := List.pairwise_cons.mp after
    have below : ∀ node ∈ left.nodes, node.1 < n := fun node member =>
      across node member _ List.mem_cons_self
    rw [find, nodes, List.mem_append, List.mem_cons]
    split
    · rename_i less
      -- Neither this node nor those on its right have the name.
      rw [ihLeft before]
      refine ⟨Or.inl, fun member => member.resolve_right ?_⟩
      rintro (here | right)
      · exact name_ne_of_lt less (congrArg Prod.fst here)
      · exact name_ne_of_lt (name_trans less (above _ right)) rfl
    split
    · rename_i greater
      rw [ihRight after]
      refine ⟨fun member => Or.inr (Or.inr member), ?_⟩
      rintro (left | here | right)
      · exact absurd rfl (name_ne_of_lt (name_trans (below _ left) greater))
      · exact absurd (congrArg Prod.fst here).symm (name_ne_of_lt greater)
      · exact right
    · rename_i notLess notGreater
      obtain rfl : name = n := name_eq_of_not_lt notLess notGreater
      constructor
      · intro found
        exact Or.inr (Or.inl (by rw [Option.some.inj found]))
      · rintro (left | here | right)
        · exact absurd rfl (name_ne_of_lt (below _ left))
        · rw [(Prod.mk.inj here).2]
        · exact absurd rfl (name_ne_of_lt (above (name, data) right))

theorem Ordered.place (ordered : tree.Ordered) (fresh : tree.find name = none) :
    (tree.place name value).nodes.Perm ((name, some value) :: tree.nodes) ∧
      (tree.place name value).Ordered := by
  induction tree with
  | leaf => exact ⟨.refl _, List.pairwise_singleton _ _⟩
  | node left n own right ihLeft ihRight =>
    obtain ⟨before, rest, across⟩ := List.pairwise_append.mp ordered
    obtain ⟨above, after⟩ := List.pairwise_cons.mp rest
    rw [find] at fresh
    unfold AATree.place
    split
    · rename_i less
      rw [if_pos less] at fresh
      obtain ⟨perm, sorted⟩ := ihLeft before fresh
      refine ⟨(perm.append_right _), List.pairwise_append.mpr ⟨sorted, rest, ?_⟩⟩
      -- The new node comes before this one, as the nodes on the left do.
      intro node member later isLater
      rcases List.mem_cons.mp (perm.mem_iff.mp member) with rfl | old
      · rcases List.mem_cons.mp isLater with rfl | right
        · exact less
        · exact name_trans less (above _ right)
      · exact across node old later isLater
    rename_i notLess
    rw [if_neg notLess] at fresh
    split
    · rename_i greater
      rw [if_pos greater] at fresh
      obtain ⟨perm, sorted⟩ := ihRight after fresh
      refine ⟨?_, List.pairwise_append.mpr ⟨before, List.pairwise_cons.mpr ⟨?_, sorted⟩, ?_⟩⟩
      · calc left.nodes ++ (n, own) :: (right.place name value).nodes
          _ ~ left.nodes ++ (n, own) :: (name, some value) :: right.nodes :=
            (perm.cons _).append_left _
          _ ~ left.nodes ++ (name, some value) :: (n, own) :: right.nodes :=
            (List.Perm.swap _ _ _).append_left _
          _ ~ (name, some value) :: (left.nodes ++ (n, own) :: right.nodes) :=
            List.perm_middle
      · intro node member
        rcases List.mem_cons.mp (perm.mem_iff.mp member) with rfl | old
        · exact greater
        · exact above node old
      · intro node member later isLater
        rcases List.mem_cons.mp isLater with rfl | right
        · exact across node member _ List.mem_cons_self
        rcases List.mem_cons.mp (perm.mem_iff.mp right) with rfl | old
        · exact name_trans (across node member _ List.mem_cons_self) greater
        · exact across node member later (List.mem_cons_of_mem _ old)
    · rename_i notGreater
      rw [if_neg notGreater] at fresh
      cases fresh

theorem Ordered.find_eq_none (ordered : tree.Ordered) (fresh : ∀ node ∈ tree.nodes, node.1 ≠ name) :
    tree.find name = none := by
  cases found : tree.find name with
  | none => rfl
  | some data => exact absurd rfl (fresh _ (ordered.find_iff.mp found))

theorem entries_eq (tree : AATree α) :
    tree.entries = tree.nodes.filterMap fun node => node.2.map fun value => (node.1, value) := by
  induction tree with
  | leaf => rfl
  | node left n own right ihLeft ihRight =>
    unfold entries nodes
    rw [List.filterMap_append, List.filterMap_cons, ihLeft, ihRight]
    cases own <;> simp

def dictionary (fields : List (Name × α)) : AATree (List α) :=
  fields.foldl (fun tree field => tree.addNamedItem field.1 field.2) new_

def NotAfter (field later : Name × α) : Prop :=
  ¬later.1 < field.1

instance : DecidableRel (@NotAfter α) :=
  fun field later => inferInstanceAs (Decidable ¬later.1 < field.1)

instance : Std.Total (@NotAfter α) where
  total field later := by
    by_cases after : later.1 < field.1
    · exact Or.inr (name_asymm after)
    · exact Or.inl after

instance : IsTrans (Name × α) NotAfter where
  trans _ _ _ first second := List.le_trans first second

def byName (fields : List (Name × α)) : List (Name × α) :=
  fields.insertionSort NotAfter

section Dictionary

variable {fields : List (Name × α)} (named : ∀ field ∈ fields, field.1 ≠ [])
  (distinct : (fields.map Prod.fst).Nodup)

include named distinct

theorem nodes_foldl {tree : AATree (List α)} (taken : tree.Taken) (ordered : tree.Ordered)
    (fresh : ∀ field ∈ fields, tree.find field.1 = none) :
    (fields.foldl (fun tree field => tree.addNamedItem field.1 field.2) tree).Ordered ∧
      (fields.foldl (fun tree field => tree.addNamedItem field.1 field.2) tree).nodes ~
        fields.map (fun field => (field.1, some [field.2])) ++ tree.nodes := by
  induction fields generalizing tree with
  | nil => exact ⟨ordered, .refl _⟩
  | cons field rest ih =>
    obtain ⟨new, distinct⟩ := List.nodup_cons.mp distinct
    obtain ⟨own, others⟩ := List.forall_mem_cons.mp fresh
    have placed : (tree.place field.1 [field.2]).nodes.Perm ((field.1, some [field.2]) :: tree.nodes) ∧
        (tree.place field.1 [field.2]).Ordered := ordered.place own
    obtain ⟨perm, sorted⟩ := placed
    rw [List.foldl_cons, addNamedItem_fresh field.2 taken own]
    -- The remaining names are not in the tree, and none of them is the one just placed.
    have still : ∀ later ∈ rest, (tree.place field.1 [field.2]).find later.1 = none := by
      refine fun later member => sorted.find_eq_none fun node isNode same => ?_
      rcases List.mem_cons.mp (perm.mem_iff.mp isNode) with rfl | old
      · exact new (List.mem_map.mpr ⟨later, member, same.symm⟩)
      · have found := ordered.find_iff.mpr old
        rw [same, others later member] at found
        cases found
    obtain ⟨final, nodes⟩ := ih (fun later member => named later (List.mem_cons_of_mem _ member))
      distinct (taken.place _ _) sorted still
    refine ⟨final, nodes.trans ?_⟩
    exact (perm.append_left _).trans List.perm_middle

theorem nodes_dictionary (some_ : fields ≠ []) :
    (dictionary fields).Ordered ∧
      (dictionary fields).nodes ~ fields.map fun field => (field.1, some [field.2]) := by
  cases fields with
  | nil => exact absurd rfl some_
  | cons field rest =>
    obtain ⟨new, distinct⟩ := List.nodup_cons.mp distinct
    obtain ⟨first, others⟩ := List.forall_mem_cons.mp named
    unfold dictionary
    rw [List.foldl_cons, addNamedItem_first first]
    have taken : (AATree.node .leaf field.1 (some [field.2]) .leaf).Taken := by simp [Taken]
    have ordered : (AATree.node .leaf field.1 (some [field.2]) .leaf).Ordered :=
      List.pairwise_singleton _ _
    obtain ⟨final, nodes⟩ := nodes_foldl others distinct taken ordered fun later member =>
      ordered.find_eq_none fun node isNode same => by
        obtain rfl := List.mem_singleton.mp isNode
        exact new (List.mem_map.mpr ⟨later, member, same.symm⟩)
    exact ⟨final, nodes.trans (List.perm_append_singleton _ _)⟩

theorem find_dictionary (some_ : fields ≠ []) {items : Option (List α)} :
    (dictionary fields).find name = some items ↔
      ∃ value, (name, value) ∈ fields ∧ items = some [value] := by
  obtain ⟨ordered, perm⟩ := nodes_dictionary named distinct some_
  rw [ordered.find_iff, perm.mem_iff, List.mem_map]
  constructor
  · rintro ⟨⟨_, value⟩, member, same⟩
    cases same
    exact ⟨value, member, rfl⟩
  · rintro ⟨value, member, rfl⟩
    exact ⟨_, member, rfl⟩

theorem join_find_dictionary :
    ((dictionary fields).find name).join = (fields.lookup name).map fun value => [value] := by
  by_cases none_ : fields = []
  · -- Only the nameless first node can be found.
    subst none_
    show ((new_ : AATree (List α)).find name).join = none
    unfold new_ find
    split
    · rfl
    split <;> rfl
  cases given : fields.lookup name with
  | some value =>
    have member : (name, value) ∈ fields := by
      obtain ⟨front, back, rfl, -⟩ := List.lookup_eq_some_iff.mp given
      exact List.mem_append_right _ List.mem_cons_self
    rw [(find_dictionary named distinct none_).mpr ⟨value, member, rfl⟩]
    rfl
  | none =>
    cases found : (dictionary fields).find name with
    | none => rfl
    | some items =>
      obtain ⟨value, member, -⟩ := (find_dictionary named distinct none_).mp found
      have differs := List.lookup_eq_none_iff.mp given _ member
      simp at differs

theorem entries_dictionary :
    (dictionary fields).entries = (byName fields).map fun field => (field.1, [field.2]) := by
  by_cases none_ : fields = []
  · subst none_
    rfl
  obtain ⟨ordered, perm⟩ := nodes_dictionary named distinct none_
  have entries : (dictionary fields).entries ~ fields.map fun field => (field.1, [field.2]) := by
    rw [entries_eq]
    refine (perm.filterMap _).trans (.of_eq ?_)
    rw [List.filterMap_map]
    exact congrFun List.filterMap_eq_map fields
  have names : (byName fields).map (fun field => (field.1, [field.2])) ~
      fields.map fun field => (field.1, [field.2]) :=
    (List.perm_insertionSort NotAfter fields).map _
  -- Both are in order, and an item is the only one with its name.
  refine @List.Perm.eq_of_pairwise _ NotAfter _ _ ?_ ?_ ?_ (entries.trans names.symm)
  · intro item other isItem isOther notAfter notBefore
    obtain ⟨field, member, rfl⟩ := List.mem_map.mp (entries.mem_iff.mp isItem)
    obtain ⟨later, isLater, rfl⟩ := List.mem_map.mp (names.mem_iff.mp isOther)
    have same := List.inj_on_of_nodup_map distinct member isLater
      (name_eq_of_not_lt notBefore notAfter)
    rw [same]
  · rw [entries_eq]
    refine List.Pairwise.filterMap _ (fun node later before item isItem next isNext => ?_) ordered
    obtain ⟨_, _, rfl⟩ := Option.map_eq_some_iff.mp isItem
    obtain ⟨_, _, rfl⟩ := Option.map_eq_some_iff.mp isNext
    exact name_asymm before
  · exact (List.pairwise_insertionSort NotAfter fields).map _ fun _ _ notAfter => notAfter

end Dictionary

section Adding

theorem find_place (tree : AATree α) (name : Name) (value : α) (other : Name) :
    (tree.place name value).find other =
      if other = name then some (some value) else tree.find other := by
  induction tree with
  | leaf =>
    simp only [place, find]
    by_cases same : other = name
    · subst same
      simp only [List.lt_irrefl, if_true, if_false]
    · simp only [same, if_false]
      split
      · rfl
      split
      · rfl
      · next notBefore notAfter => exact absurd (name_eq_of_not_lt notBefore notAfter) same
  | node left n data right ihLeft ihRight =>
    unfold place
    split
    · next before =>
      -- The name is placed on the left, where alone it can be found.
      simp only [find, ihLeft]
      by_cases same : other = name
      · subst same
        simp only [before, if_true]
      · simp only [same, if_false]
    split
    · next notBefore after =>
      simp only [find, ihRight]
      by_cases same : other = name
      · subst same
        simp only [notBefore, after, if_true, if_false]
      · simp only [same, if_false]
    · next notBefore notAfter =>
      obtain rfl := name_eq_of_not_lt notBefore notAfter
      simp only [find]
      by_cases same : other = name
      · subst same
        simp only [List.lt_irrefl, if_true, if_false]
      · simp only [same, if_false]
        split
        · rfl
        split
        · rfl
        · next notBefore' notAfter' => exact absurd (name_eq_of_not_lt notBefore' notAfter') same

theorem find_alter (change : α → α) (tree : AATree α) (name other : Name) :
    (tree.alter change name).find other =
      if other = name then (tree.find other).map (Option.map change) else tree.find other := by
  induction tree with
  | leaf => simp only [alter, find, Option.map_none, ite_self]
  | node left n data right ihLeft ihRight =>
    unfold alter
    split
    · next before =>
      simp only [find, ihLeft]
      by_cases same : other = name
      · subst same
        simp only [before, if_true]
      · simp only [same, if_false]
    split
    · next notBefore after =>
      simp only [find, ihRight]
      by_cases same : other = name
      · subst same
        simp only [notBefore, after, if_true, if_false]
      · simp only [same, if_false]
    · next notBefore notAfter =>
      obtain rfl := name_eq_of_not_lt notBefore notAfter
      simp only [find]
      by_cases same : other = name
      · subst same
        simp only [List.lt_irrefl, if_true, if_false, Option.map_some]
      · simp only [same, if_false]
        split
        · rfl
        split
        · rfl
        · next notBefore' notAfter' => exact absurd (name_eq_of_not_lt notBefore' notAfter') same

theorem Taken.alter {tree : AATree α} (taken : tree.Taken) (change : α → α) (name : Name) :
    (tree.alter change name).Taken := by
  cases tree with
  | leaf => exact taken.elim
  | node left n data right =>
    unfold AATree.alter
    split
    · exact taken
    split
    · exact taken
    · cases data <;> exact taken

def Ready (tree : AATree α) : Prop :=
  (tree.Taken ∧ ∀ name, tree.find name ≠ some none) ∨ tree = new_

theorem join_find_new (name : Name) : ((new_ : AATree α).find name).join = none := by
  simp only [new_, find]
  split
  · rfl
  split <;> rfl

theorem Ready.addNamedItem {tree : AATree (List α)} {name : Name} (ready : tree.Ready)
    (named : name ≠ []) (value : α) :
    (tree.addNamedItem name value).Ready ∧ ∀ other,
      ((tree.addNamedItem name value).find other).join =
        if other = name then some (value :: (tree.find name).join.getD []) else
          (tree.find other).join := by
  obtain ⟨taken, full⟩ | rfl := ready
  · cases known : tree.find name with
    | none =>
      rw [addNamedItem_fresh value taken known]
      refine ⟨Or.inl ⟨taken.place _ _, fun other => ?_⟩, fun other => ?_⟩
      · rw [find_place]
        split
        · exact Option.some_ne_none _ ∘ Option.some.inj
        · exact full other
      · rw [find_place]
        split <;> rfl
    | some item =>
      have added : tree.addNamedItem name value = tree.alter (value :: ·) name := by
        simp only [AATree.addNamedItem, known, Option.isNone_some, Bool.false_eq_true, if_false]
      obtain ⟨values, rfl⟩ := Option.ne_none_iff_exists'.mp fun none_ =>
        full name (known.trans (congrArg some none_))
      rw [added]
      refine ⟨Or.inl ⟨taken.alter _ _, fun other => ?_⟩, fun other => ?_⟩
      · rw [find_alter]
        split
        · next same =>
          rw [same, known]
          exact Option.some_ne_none _ ∘ Option.some.inj
        · exact full other
      · rw [find_alter]
        split
        · next same =>
          rw [same, known]
          rfl
        · rfl
  · -- The first name takes the node that is there.
    have first : ∀ other : Name, (AATree.node .leaf name (some [value]) .leaf).find other =
        if other = name then some (some [value]) else none := fun other =>
      find_place (.leaf : AATree (List α)) name [value] other
    rw [addNamedItem_first named]
    refine ⟨Or.inl ⟨by simp [Taken], fun other => ?_⟩, fun other => ?_⟩
    · rw [first]
      split
      · exact Option.some_ne_none _ ∘ Option.some.inj
      · intro named
        cases named
    · rw [first, join_find_new, join_find_new]
      split <;> rfl

end Adding

end AATree

end AgentC

import Mathlib.Data.UInt
import Mathlib.Data.List.Basic

/-! The search tree that keeps a dictionary's items, with its nameless first node. -/

namespace AgentC

universe u v

/-- A name, as the bytes of a `std::string`, which compare byte by byte. -/
abbrev Name := List UInt8

instance : LawfulBEq Name :=
  inferInstanceAs (LawfulBEq (List UInt8))

def ascii (word : String) : List UInt8 :=
  word.toList.map fun c => UInt8.ofNat c.toNat

/--
The source's `AATree`, which is never rebalanced. A null link is `leaf`.

A tree is created as one node with the empty name and no data.
-/
inductive AATree (α : Type u) where
  | leaf
  | node (left : AATree α) (name : Name) (data : Option α) (right : AATree α)
  deriving Repr

namespace AATree

variable {α : Type u}

def new_ : AATree α :=
  .node .leaf [] none .leaf

def find : AATree α → Name → Option (Option α)
  | .leaf, _ => none
  | .node left name data right, nodeName =>
    if nodeName < name then left.find nodeName
    else if name < nodeName then right.find nodeName
    else some data

/-- The loop of `add`, which goes down to the node with a name or to the place for it. -/
def place : AATree α → Name → α → AATree α
  | .leaf, nodeName, value => .node .leaf nodeName (some value) .leaf
  | .node left name data right, nodeName, value =>
    if nodeName < name then .node (left.place nodeName value) name data right
    else if name < nodeName then .node left name data (right.place nodeName value)
    else .node left name (some value) right

def add : AATree α → Name → α → AATree α
  | .leaf, nodeName, value => AATree.leaf.place nodeName value
  | .node left name data right, nodeName, value =>
    if name.isEmpty && data.isNone then .node left nodeName (some value) right
    else (AATree.node left name data right).place nodeName value

def alter (change : α → α) : AATree α → Name → AATree α
  | .leaf, _ => .leaf
  | .node left name data right, nodeName =>
    if nodeName < name then .node (left.alter change nodeName) name data right
    else if name < nodeName then .node left name data (right.alter change nodeName)
    else .node left name (data.map change) right

/-- What `forEach` visits, leaving out nodes without data. -/
def entries : AATree α → List (Name × α)
  | .leaf => []
  | .node left name data right =>
    left.entries ++ (match data with
      | some value => [(name, value)]
      | none => []) ++ right.entries

def addNamedItem (tree : AATree (List α)) (name : Name) (value : α) : AATree (List α) :=
  let found := if (tree.find name).isNone then tree.add name [] else tree
  found.alter (value :: ·) name

def Precedes : AATree α → Name → Prop
  | .leaf, _ => True
  | .node left name _ right, nodeName =>
    left.Precedes nodeName ∧ name < nodeName ∧ right.Precedes nodeName

def Taken : AATree α → Prop
  | .leaf => False
  | .node _ name data _ => ¬ (name.isEmpty && data.isNone) = true

theorem name_asymm {a b : Name} (before : a < b) : ¬ b < a :=
  List.lt_asymm before

variable {tree : AATree α} {name : Name}

theorem find_of_precedes (precedes : tree.Precedes name) :
    tree.find name = none := by
  induction tree with
  | leaf => rfl
  | node left n data right _ ih =>
    rw [find, if_neg (name_asymm precedes.2.1), if_pos precedes.2.1]
    exact ih precedes.2.2

theorem place_entries (value : α) (precedes : tree.Precedes name) :
    (tree.place name value).entries = tree.entries ++ [(name, value)] := by
  induction tree with
  | leaf => rfl
  | node left n data right _ ih =>
    rw [place, if_neg (name_asymm precedes.2.1), if_pos precedes.2.1]
    simp only [entries, ih precedes.2.2, List.append_assoc]

theorem alter_place (change : α → α) (tree : AATree α) (name : Name) (value : α) :
    (tree.place name value).alter change name = tree.place name (change value) := by
  induction tree with
  | leaf => simp [place, alter, List.lt_irrefl]
  | node left n data right ihLeft ihRight =>
    -- Both walk down the same way.
    unfold place
    split
    · rename_i before
      rw [alter, if_pos before, ihLeft]
    split
    · rename_i notBefore after
      rw [alter, if_neg notBefore, if_pos after, ihRight]
    · rename_i notBefore notAfter
      rw [alter, if_neg notBefore, if_neg notAfter]
      rfl

theorem Precedes.place {next : Name} (value : α) (precedes : tree.Precedes next)
    (before : name < next) : (tree.place name value).Precedes next := by
  induction tree with
  | leaf => exact ⟨trivial, before, trivial⟩
  | node left n data right ihLeft ihRight =>
    obtain ⟨below, own, above⟩ := precedes
    unfold AATree.place
    split
    · exact ⟨ihLeft below, own, above⟩
    · split
      · exact ⟨below, own, ihRight above⟩
      · exact ⟨below, own, above⟩

theorem Taken.place (taken : tree.Taken) (name : Name) (value : α) :
    (tree.place name value).Taken := by
  cases tree with
  | leaf => exact taken.elim
  | node left n data right =>
    unfold AATree.place
    split
    · exact taken
    · split
      · exact taken
      · simp [Taken]

theorem addNamedItem_empty (value : α) : (new_ : AATree (List α)).addNamedItem [] value = new_ := by
  simp [addNamedItem, new_, find, alter]

theorem addNamedItem_first (named : name ≠ []) (value : α) :
    (new_ : AATree (List α)).addNamedItem name value = .node .leaf name (some [value]) .leaf := by
  have after : ([] : Name) < name := by
    cases name with
    | nil => exact absurd rfl named
    | cons => exact List.nil_lt_cons _ _
  simp [addNamedItem, new_, find, add, alter, after, List.lt_irrefl]

theorem addNamedItem_fresh {tree : AATree (List α)} (value : α) (taken : tree.Taken)
    (fresh : tree.find name = none) : tree.addNamedItem name value = tree.place name [value] := by
  have added : tree.add name [] = tree.place name [] := by
    cases tree with
    | leaf => exact taken.elim
    | node left n data right => exact if_neg taken
  rw [addNamedItem, fresh]
  simp only [Option.isNone_none, if_true, added]
  exact alter_place _ _ _ _

theorem addNamedItem_last {tree : AATree (List α)} (value : α) (taken : tree.Taken)
    (precedes : tree.Precedes name) : tree.addNamedItem name value = tree.place name [value] :=
  addNamedItem_fresh value taken (find_of_precedes precedes)

theorem entries_foldl_last (fields : List (Name × α)) : ∀ tree : AATree (List α), tree.Taken →
    (∀ field ∈ fields, tree.Precedes field.1) →
    fields.Pairwise (fun field later => field.1 < later.1) →
    (fields.foldl (fun tree field => tree.addNamedItem field.1 field.2) tree).entries =
      tree.entries ++ fields.map fun field => (field.1, [field.2]) := by
  induction fields with
  | nil => intro tree _ _ _; simp
  | cons field rest ih =>
    intro tree taken precedes sorted
    obtain ⟨own, others⟩ := List.forall_mem_cons.mp precedes
    obtain ⟨before, sorted⟩ := List.pairwise_cons.mp sorted
    -- The field is placed last, and the remaining ones come after it.
    rw [List.foldl_cons, addNamedItem_last field.2 taken own,
      ih _ (taken.place field.1 _) (fun other member => (others other member).place _ (before other member))
        sorted, place_entries _ own]
    simp

theorem entries_foldl_new (fields : List (Name × α))
    (sorted : fields.Pairwise fun field later => field.1 < later.1) :
    (fields.foldl (fun tree field => tree.addNamedItem field.1 field.2) new_).entries =
      (fields.filter fun field => !field.1.isEmpty).map fun field => (field.1, [field.2]) := by
  have fromNamed : ∀ fields : List (Name × α), (∀ field ∈ fields, field.1 ≠ []) →
      fields.Pairwise (fun field later => field.1 < later.1) →
      (fields.foldl (fun tree field => tree.addNamedItem field.1 field.2) new_).entries =
        fields.map fun field => (field.1, [field.2]) := by
    intro fields named sorted
    cases fields with
    | nil => rfl
    | cons field rest =>
      obtain ⟨before, sorted⟩ := List.pairwise_cons.mp sorted
      have first := addNamedItem_first (named field List.mem_cons_self) field.2
      have taken : (AATree.node .leaf field.1 (some [field.2]) .leaf).Taken := by simp [Taken]
      rw [List.foldl_cons, first, entries_foldl_last rest _ taken
        (fun other member => ⟨trivial, before other member, trivial⟩) sorted]
      rfl
  have unfiltered : ∀ fields : List (Name × α), (∀ field ∈ fields, field.1 ≠ []) →
      fields.filter (fun field => !field.1.isEmpty) = fields := fun fields named =>
    List.filter_eq_self.mpr fun field member => by simp [named field member]
  cases fields with
  | nil => rfl
  | cons field rest =>
    obtain ⟨before, tail⟩ := List.pairwise_cons.mp sorted
    -- Only the first name can be empty.
    have named : ∀ other ∈ rest, other.1 ≠ [] := by
      intro other member empty
      have after := before other member
      rw [empty] at after
      exact List.not_lt_nil _ after
    rcases field with ⟨name, value⟩
    by_cases empty : name = []
    · subst empty
      rw [List.foldl_cons, addNamedItem_empty, fromNamed rest named tail, List.filter_cons_of_neg (by simp),
        unfiltered rest named]
    · have all : ∀ other ∈ (name, value) :: rest, other.1 ≠ [] :=
        List.forall_mem_cons.mpr ⟨empty, named⟩
      rw [fromNamed _ all sorted, unfiltered _ all]

end AATree

end AgentC

import Mathlib.Data.List.ReduceOption
import AgentC.Listree.DictionaryLaws

/-!
The knowledge graph: a dictionary of nodes and a list of edges, in one Listree value, and when the
removal of edges and of nodes is exact.

The list of edges is cleared by popping until nothing is popped, and then filled again. A read-only
list is never cleared, and the popping does not end there; a null entry ends the popping early.
-/

namespace AgentC.Treesitter

universe u

variable {π : Type u}

/-- An edge, with what its fields hold. `properties` is what the value holds besides. -/
structure Edge (π : Type u) where
  from_ : Option Name
  relation : Option Name
  to_ : Option Name
  properties : π
  deriving DecidableEq, Repr

/-- The list of edges, oldest first. An entry is `none` where it holds a null value. -/
structure EdgeList (π : Type u) where
  readOnly : Bool
  refs : List (Option (Edge π))
  deriving DecidableEq, Repr

namespace EdgeList

/-- `ListreeValue::get` at the end of the list. A read-only list does not pop. -/
def get (list : EdgeList π) (pop : Bool) : Option (Edge π) × EdgeList π :=
  (list.refs.getLast?.join,
    if pop && !list.readOnly then { list with refs := list.refs.dropLast } else list)

/-- `addListItem`, which a read-only list refuses. -/
def addListItem (list : EdgeList π) (edge : Edge π) : EdgeList π :=
  if list.readOnly then list else { list with refs := list.refs ++ [some edge] }

/-- The edges that `forEachList` comes to. -/
def edges (list : EdgeList π) : List (Edge π) :=
  list.refs.reduceOption

def clear : Nat → EdgeList π → Option (EdgeList π)
  | 0, _ => none
  | rounds + 1, list =>
    if (list.get true).1.isSome then clear rounds (list.get true).2 else some (list.get true).2

end EdgeList

structure NodeValue (π : Type u) where
  pinned : Bool
  properties : π
  deriving DecidableEq, Repr

/-- The dictionary of nodes. Each name leads to its values, the latest first. -/
structure Nodes (π : Type u) where
  tree : AATree (List (NodeValue π))
  readOnly : Bool
  ordered : tree.Ordered

/-- The outcome of `ListreeValue::remove`. -/
inductive Removal (π : Type u) where
  /-- A null item has been dereferenced. -/
  | crashed
  | refused
  | removed (nodes : Nodes π)

/-- `ListreeValue::remove`, which a read-only dictionary refuses, and a name with a pinned value. -/
def Nodes.remove (nodes : Nodes π) (name : Name) : Removal π :=
  if nodes.readOnly then .refused
  else
    match nodes.tree.find name with
    | none => .refused
    | some none => .crashed
    | some (some values) =>
      if values.any NodeValue.pinned then .refused
      else .removed
        { tree := nodes.tree.remove name, readOnly := nodes.readOnly
          ordered := nodes.ordered.remove name }

/--
A graph. A field is `none` where the value has no such field, or has one that is no dictionary of
nodes or no list of edges.
-/
structure Graph (π : Type u) where
  readOnly : Bool
  nodes : Option (Nodes π)
  edges : Option (EdgeList π)

namespace KnowledgeGraph

def text (field : Option Name) : Name :=
  field.getD []

def isMatch (from_ relation to_ : Name) (edge : Edge π) : Bool :=
  (from_.isEmpty || from_ == text edge.from_) &&
    ((relation.isEmpty || relation == text edge.relation) && (to_.isEmpty || to_ == text edge.to_))

/-- Removing edges, with their number. The first argument bounds the rounds of the clearing. -/
def removeEdges (rounds : Nat) (graph : Graph π) (from_ relation to_ : Name) :
    Option (Nat × Graph π) :=
  match graph.edges with
  | none => some (0, graph)
  | some list =>
    let removed := (list.edges.filter (isMatch from_ relation to_)).length
    let remaining := list.edges.filter fun edge => !isMatch from_ relation to_ edge
    -- The field is looked up for writing, which a read-only graph refuses.
    if graph.readOnly then some (removed, graph)
    else
      (list.clear rounds).map fun cleared =>
        (removed, { graph with edges := some (remaining.foldl EdgeList.addListItem cleared) })

def removeNode (rounds : Nat) (graph : Graph π) (name : Name) : Option (Bool × Graph π) :=
  match graph.nodes with
  | none => some (false, graph)
  | some nodes =>
    match nodes.remove name with
    | .crashed => none
    | .refused => some (false, graph)
    | .removed left =>
      match removeEdges rounds { graph with nodes := some left } name [] [] with
      | none => none
      | some outgoing =>
        (removeEdges rounds outgoing.2 [] [] name).map fun incoming => (true, incoming.2)

end KnowledgeGraph

namespace Graph

def edgeList (graph : Graph π) : List (Edge π) :=
  match graph.edges with
  | none => []
  | some list => list.edges

def node (graph : Graph π) (name : Name) : Option (List (NodeValue π)) :=
  graph.nodes.bind fun nodes => (nodes.tree.find name).join

end Graph

variable {g g' : Graph π} {from_ relation to_ name : Name}

namespace EdgeList

variable {list cleared : EdgeList π} {rounds : Nat}

def leftover (refs : List (Option (Edge π))) : List (Option (Edge π)) :=
  ((refs.reverse.dropWhile Option.isSome).drop 1).reverse

@[simp] theorem leftover_nil : leftover ([] : List (Option (Edge π))) = [] := rfl

@[simp] theorem leftover_append_edge (refs : List (Option (Edge π))) (edge : Edge π) :
    leftover (refs ++ [some edge]) = leftover refs := by
  simp [leftover]

@[simp] theorem leftover_append_null (refs : List (Option (Edge π))) :
    leftover (refs ++ [none]) = refs := by
  simp [leftover]

theorem leftover_append_edges (refs : List (Option (Edge π))) (edges : List (Edge π)) :
    leftover (refs ++ edges.map some) = leftover refs := by
  induction edges using List.reverseRecOn with
  | nil => simp
  | append_singleton edges edge ih =>
    rw [List.map_append, List.map_singleton, ← List.append_assoc, leftover_append_edge, ih]

theorem clear_writable (writable : list.readOnly = false) (enough : list.refs.length < rounds) :
    list.clear rounds = some { list with refs := leftover list.refs } := by
  obtain ⟨readOnly, refs⟩ := list
  subst writable
  -- The newest entry is popped first.
  induction refs using List.reverseRecOn generalizing rounds with
  | nil =>
    obtain ⟨rounds, rfl⟩ : ∃ k, rounds = k + 1 := ⟨rounds - 1, by omega⟩
    simp [clear, get]
  | append_singleton refs entry ih =>
    rw [List.length_append, List.length_singleton] at enough
    obtain ⟨rounds, rfl⟩ : ∃ k, rounds = k + 1 := ⟨rounds - 1, by omega⟩
    cases entry with
    | none => simp [clear, get]
    | some edge =>
      have enough : refs.length < rounds := by simpa using enough
      simpa [clear, get] using ih enough

theorem clear_mono {more : Nat} (ends : list.clear rounds = some cleared) (le : rounds ≤ more) :
    list.clear more = some cleared := by
  induction rounds generalizing list more with
  | zero => simp [clear] at ends
  | succ rounds ih =>
    obtain ⟨more, rfl⟩ : ∃ k, more = k + 1 := ⟨more - 1, by omega⟩
    rw [clear] at ends ⊢
    split at ends
    · next popped =>
      rw [if_pos popped]
      exact ih ends (by omega)
    · next empty =>
      rw [if_neg empty]
      exact ends

theorem clear_eq (writable : list.readOnly = false) (ends : list.clear rounds = some cleared) :
    cleared = { list with refs := leftover list.refs } := by
  have long := clear_mono ends (Nat.le_max_left rounds (list.refs.length + 1))
  rw [clear_writable writable (Nat.le_max_right rounds (list.refs.length + 1))] at long
  exact (Option.some.inj long).symm

theorem clear_readOnly (readOnly : list.readOnly = true)
    (newest : list.refs.getLast?.join = none) (rounds : Nat) :
    list.clear (rounds + 1) = some list := by
  simp [clear, get, readOnly, newest]

theorem clear_diverges (readOnly : list.readOnly = true)
    (newest : list.refs.getLast?.join ≠ none) (rounds : Nat) : list.clear rounds = none := by
  induction rounds with
  | zero => rfl
  | succ rounds ih =>
    have popped : (list.get true).2 = list := by simp [get, readOnly]
    have edge : (list.get true).1.isSome = true := Option.isSome_iff_ne_none.mpr newest
    rw [clear, if_pos edge, popped, ih]

theorem foldl_addListItem (writable : list.readOnly = false) (edges : List (Edge π)) :
    edges.foldl addListItem list = { list with refs := list.refs ++ edges.map some } := by
  induction edges generalizing list with
  | nil => simp
  | cons edge edges ih =>
    have added : list.addListItem edge = { list with refs := list.refs ++ [some edge] } := by
      simp [addListItem, writable]
    rw [List.foldl_cons, added, @ih { list with refs := list.refs ++ [some edge] } writable]
    simp

theorem foldl_addListItem_readOnly (readOnly : list.readOnly = true) (edges : List (Edge π)) :
    edges.foldl addListItem list = list := by
  induction edges with
  | nil => rfl
  | cons edge edges ih => simpa [addListItem, readOnly] using ih

end EdgeList

namespace KnowledgeGraph

/-- An edge matches a pattern in its parts that are not empty. -/
def Matches (from_ relation to_ : Name) (edge : Edge π) : Prop :=
  (from_ ≠ [] → edge.from_ = some from_) ∧ (relation ≠ [] → edge.relation = some relation) ∧
    (to_ ≠ [] → edge.to_ = some to_)

def Mentions (name : Name) (edge : Edge π) : Prop :=
  edge.from_ = some name ∨ edge.to_ = some name

instance (from_ relation to_ : Name) (edge : Edge π) :
    Decidable (Matches from_ relation to_ edge) :=
  inferInstanceAs (Decidable (_ ∧ _ ∧ _))

instance (name : Name) (edge : Edge π) : Decidable (Mentions name edge) :=
  inferInstanceAs (Decidable (_ ∨ _))

/--
A removal of edges ends, takes exactly the edges that match, and leaves the other edges in their
order and the nodes as they are.
-/
def EdgesRemoved (g : Graph π) (from_ relation to_ : Name) : Prop :=
  ∃ rounds removed g', removeEdges rounds g from_ relation to_ = some (removed, g') ∧
    g'.edgeList = g.edgeList.filter (fun edge => ¬ Matches from_ relation to_ edge) ∧
    g'.nodes = g.nodes

/--
A removal of a node ends, leaves no edge that mentions the name, and leaves the other edges in their
order and the other nodes as they are.
-/
def NodeRemoved (g : Graph π) (name : Name) : Prop :=
  ∃ rounds removed g', removeNode rounds g name = some (removed, g') ∧
    g'.edgeList = g.edgeList.filter (fun edge => ¬ Mentions name edge) ∧
    ∀ other, other ≠ name → g'.node other = g.node other

theorem part_iff (part : Name) (field : Option Name) :
    (part.isEmpty || part == text field) = true ↔ (part ≠ [] → field = some part) := by
  cases part with
  | nil => simp
  | cons c part =>
    cases field with
    | none => simp [text]
    | some held =>
      have nonempty : (c :: part).isEmpty = false := rfl
      rw [nonempty, Bool.false_or, beq_iff_eq, text, Option.getD_some, Option.some.injEq]
      exact ⟨fun same _ => same.symm, fun same => (same (List.cons_ne_nil c part)).symm⟩

theorem isMatch_iff (edge : Edge π) :
    isMatch from_ relation to_ edge = true ↔ Matches from_ relation to_ edge := by
  simp only [isMatch, Bool.and_eq_true, part_iff, Matches]

theorem filter_isMatch (edges : List (Edge π)) :
    edges.filter (fun edge => !isMatch from_ relation to_ edge) =
      edges.filter fun edge => ¬ Matches from_ relation to_ edge := by
  refine List.filter_congr fun edge _ => ?_
  by_cases matched : Matches from_ relation to_ edge
  · simp [matched, (isMatch_iff edge).mpr matched]
  · simp [matched, mt (isMatch_iff edge).mp matched]

def frozen (g : Graph π) : Bool :=
  g.readOnly || g.edges.any EdgeList.readOnly

def ends (g : Graph π) : Bool :=
  g.readOnly || g.edges.all fun list => !list.readOnly || list.refs.getLast?.join.isNone

def leftover (g : Graph π) : List (Option (Edge π)) :=
  match g.edges with
  | none => []
  | some list => EdgeList.leftover list.refs

/-- The graph after a removal of edges that ends. -/
def without (g : Graph π) (from_ relation to_ : Name) : Graph π :=
  if frozen g then g
  else
    let kept := g.edgeList.filter fun edge => ¬ Matches from_ relation to_ edge
    { g with edges := g.edges.map fun list => { list with refs := leftover g ++ kept.map some } }

theorem removeEdges_eq {rounds removed : Nat}
    (returns : removeEdges rounds g from_ relation to_ = some (removed, g')) :
    ends g = true ∧ g' = without g from_ relation to_ := by
  obtain ⟨readOnly, nodes, edges⟩ := g
  cases edges with
  | none =>
    simp only [removeEdges, Option.some.injEq, Prod.mk.injEq] at returns
    rw [← returns.2]
    exact ⟨by simp [ends], by simp [without]⟩
  | some list =>
    cases readOnly with
    | true =>
      simp only [removeEdges, if_true, Option.some.injEq, Prod.mk.injEq] at returns
      rw [← returns.2]
      exact ⟨by simp [ends], by simp [without, frozen]⟩
    | false =>
      simp only [removeEdges, Bool.false_eq_true, if_false, Option.map_eq_some_iff, Prod.mk.injEq]
        at returns
      obtain ⟨cleared, clears, -, rfl⟩ := returns
      cases locked : list.readOnly with
      | true =>
        -- The clearing ends only when nothing is popped at once.
        have newest : list.refs.getLast?.join = none := by
          by_contra edge
          rw [EdgeList.clear_diverges locked edge] at clears
          cases clears
        have same : cleared = list := by
          cases rounds with
          | zero => cases clears
          | succ rounds =>
            rw [EdgeList.clear_readOnly locked newest] at clears
            exact (Option.some.inj clears).symm
        rw [same, EdgeList.foldl_addListItem_readOnly locked]
        exact ⟨by simp [ends, newest], by simp [without, frozen, locked]⟩
      | false =>
        have writable : cleared.readOnly = false := by
          rw [EdgeList.clear_eq locked clears]
          exact locked
        rw [EdgeList.foldl_addListItem writable, filter_isMatch, EdgeList.clear_eq locked clears]
        exact ⟨by simp [ends, locked], by simp [without, frozen, locked, leftover, Graph.edgeList]⟩

theorem removeEdges_of_ends (ends_ : ends g = true) (from_ relation to_ : Name) :
    ∃ enough, ∀ rounds, enough ≤ rounds →
      ∃ removed g', removeEdges rounds g from_ relation to_ = some (removed, g') := by
  obtain ⟨readOnly, nodes, edges⟩ := g
  cases edges with
  | none => exact ⟨0, fun rounds _ => ⟨_, _, rfl⟩⟩
  | some list =>
    cases readOnly with
    | true => exact ⟨0, fun rounds _ => ⟨_, _, rfl⟩⟩
    | false =>
      refine ⟨list.refs.length + 1, fun rounds enough => ?_⟩
      obtain ⟨cleared, clears⟩ : ∃ cleared, list.clear rounds = some cleared := by
        cases locked : list.readOnly with
        | true =>
          obtain ⟨rounds, rfl⟩ : ∃ k, rounds = k + 1 := ⟨rounds - 1, by omega⟩
          have newest : list.refs.getLast?.join = none := by
            simpa [ends, locked] using ends_
          exact ⟨list, EdgeList.clear_readOnly locked newest rounds⟩
        | false => exact ⟨_, EdgeList.clear_writable locked enough⟩
      exact ⟨_, _, by simp [removeEdges, clears]; exact ⟨rfl, rfl⟩⟩

theorem edgeList_without (writable : frozen g = false) :
    (without g from_ relation to_).edgeList = (leftover g).reduceOption ++
      g.edgeList.filter fun edge => ¬ Matches from_ relation to_ edge := by
  have all (edges : List (Edge π)) : (edges.map some).reduceOption = edges := by
    simp [List.reduceOption]
  rw [without, writable]
  obtain ⟨readOnly, nodes, edges⟩ := g
  cases edges with
  | none => rfl
  | some list =>
    simp only [Bool.false_eq_true, if_false, Graph.edgeList, Option.map_some, EdgeList.edges]
    rw [List.reduceOption_append, all]

theorem leftover_without (writable : frozen g = false) :
    leftover (without g from_ relation to_) = EdgeList.leftover (leftover g) := by
  rw [without, writable]
  obtain ⟨readOnly, nodes, edges⟩ := g
  cases edges with
  | none => rfl
  | some list =>
    simp only [Bool.false_eq_true, if_false, leftover, Option.map_some]
    exact EdgeList.leftover_append_edges _ _

theorem frozen_without : frozen (without g from_ relation to_) = frozen g := by
  rw [without]
  split
  · rfl
  · obtain ⟨readOnly, nodes, edges⟩ := g
    cases edges <;> rfl

theorem ends_of_writable (writable : frozen g = false) : ends g = true := by
  obtain ⟨readOnly, nodes, edges⟩ := g
  cases edges with
  | none => simp [ends]
  | some list =>
    simp only [frozen, Option.any_some, Bool.or_eq_false_iff] at writable
    simp [ends, writable.2]

theorem ends_without : ends (without g from_ relation to_) = ends g := by
  cases locked : frozen g with
  | true => rw [without, if_pos locked]
  | false => rw [ends_of_writable locked, ends_of_writable (frozen_without.trans locked)]

theorem nodes_without : (without g from_ relation to_).nodes = g.nodes := by
  rw [without]
  split <;> rfl

def EdgesRemovable (g : Graph π) (from_ relation to_ : Name) : Prop :=
  if frozen g then ends g = true ∧ ∀ edge ∈ g.edgeList, ¬ Matches from_ relation to_ edge
  else (leftover g).reduceOption = []

theorem unchanged_iff (edges : List (Edge π)) (p : Edge π → Prop) [DecidablePred p] :
    edges = edges.filter (fun edge => ¬ p edge) ↔ ∀ edge ∈ edges, ¬ p edge := by
  rw [eq_comm, List.filter_eq_self]
  simp

theorem edgesRemoved_iff (g : Graph π) (from_ relation to_ : Name) :
    EdgesRemoved g from_ relation to_ ↔ EdgesRemovable g from_ relation to_ := by
  have ended : EdgesRemoved g from_ relation to_ ↔ ends g = true ∧
      (without g from_ relation to_).edgeList =
        g.edgeList.filter fun edge => ¬ Matches from_ relation to_ edge := by
    constructor
    · rintro ⟨rounds, removed, g', returns, exact_, -⟩
      obtain ⟨ends_, rfl⟩ := removeEdges_eq returns
      exact ⟨ends_, exact_⟩
    · rintro ⟨ends_, exact_⟩
      obtain ⟨enough, returns⟩ := removeEdges_of_ends ends_ from_ relation to_
      obtain ⟨removed, g', returns⟩ := returns enough le_rfl
      obtain ⟨-, rfl⟩ := removeEdges_eq returns
      exact ⟨enough, removed, _, returns, exact_, nodes_without⟩
  rw [ended, EdgesRemovable]
  cases locked : frozen g with
  | true =>
    -- Nothing is removed, and so nothing must match.
    have same : without g from_ relation to_ = g := by rw [without, if_pos locked]
    rw [same, if_pos rfl, unchanged_iff]
  | false =>
    -- What is left over stands in the way of the edges that are kept.
    rw [edgeList_without locked, ends_of_writable locked, if_neg Bool.false_ne_true,
      List.append_left_eq_self]
    exact and_iff_right rfl

/-! The removal of a node. -/

variable {nodes left : Nodes π}

theorem removeNode_eq {rounds : Nat} {removed : Bool} (has : g.nodes = some nodes)
    (lets : nodes.remove name = .removed left)
    (returns : removeNode rounds g name = some (removed, g')) :
    ends g = true ∧
      g' = without (without { g with nodes := some left } name [] []) [] [] name := by
  simp only [removeNode, has, lets] at returns
  cases first : removeEdges rounds { g with nodes := some left } name [] [] with
  | none => simp [first] at returns
  | some outgoing =>
    simp only [first, Option.map_eq_some_iff, Prod.mk.injEq] at returns
    obtain ⟨incoming, second, -, rfl⟩ := returns
    have first : removeEdges rounds { g with nodes := some left } name [] [] =
        some (outgoing.1, outgoing.2) := first
    obtain ⟨ends_, isOutgoing⟩ := removeEdges_eq first
    rw [isOutgoing] at second
    have second : removeEdges rounds (without { g with nodes := some left } name [] []) [] [] name =
        some (incoming.1, incoming.2) := second
    obtain ⟨-, isIncoming⟩ := removeEdges_eq second
    exact ⟨ends_, isIncoming⟩

theorem removeNode_of_ends (has : g.nodes = some nodes) (lets : nodes.remove name = .removed left)
    (ends_ : ends g = true) :
    ∃ rounds removed g', removeNode rounds g name = some (removed, g') := by
  have outgoingEnds : ends (without { g with nodes := some left } name [] []) = true :=
    ends_without.trans ends_
  obtain ⟨enough, first⟩ :=
    removeEdges_of_ends (g := { g with nodes := some left }) ends_ name [] []
  obtain ⟨enough', second⟩ := removeEdges_of_ends outgoingEnds [] [] name
  obtain ⟨removed, outgoing, isFirst⟩ := first (max enough enough') (Nat.le_max_left _ _)
  obtain ⟨-, rfl⟩ := removeEdges_eq isFirst
  obtain ⟨removed', incoming, isSecond⟩ := second (max enough enough') (Nat.le_max_right _ _)
  exact ⟨max enough enough', true, incoming, by simp [removeNode, has, lets, isFirst, isSecond]⟩

theorem tree_of_removed (lets : nodes.remove name = .removed left) :
    left.tree = nodes.tree.remove name := by
  unfold Nodes.remove at lets
  split at lets
  · cases lets
  · split at lets
    · cases lets
    · cases lets
    · split at lets
      · cases lets
      · cases lets
        rfl

theorem node_of_removed (has : g.nodes = some nodes) (lets : nodes.remove name = .removed left)
    {other : Name} (apart : other ≠ name) :
    (without (without { g with nodes := some left } name [] []) [] [] name).node other =
      g.node other := by
  rw [Graph.node, nodes_without, nodes_without, Graph.node, has, Option.bind_some,
    Option.bind_some, tree_of_removed lets, nodes.ordered.find_remove apart]

def NodeRemovable (g : Graph π) (name : Name) : Prop :=
  match g.nodes with
  | none => ∀ edge ∈ g.edgeList, ¬ Mentions name edge
  | some nodes =>
    match nodes.remove name with
    | .crashed => False
    | .refused => ∀ edge ∈ g.edgeList, ¬ Mentions name edge
    | .removed _ =>
      if frozen g then ends g = true ∧ ∀ edge ∈ g.edgeList, ¬ Mentions name edge
      else if name = [] then
        (EdgeList.leftover (leftover g)).reduceOption =
          g.edgeList.filter fun edge => ¬ Mentions name edge
      else
        (EdgeList.leftover (leftover g)).reduceOption = [] ∧
          ∀ edge ∈ (leftover g).reduceOption, edge.to_ = some name

theorem edgeList_node (writable : frozen g = false) :
    (without (without g name [] []) [] [] name).edgeList =
      (EdgeList.leftover (leftover g)).reduceOption ++
        ((leftover g).reduceOption ++ g.edgeList.filter fun edge => ¬ Matches name [] [] edge).filter
          fun edge => ¬ Matches [] [] name edge := by
  rw [edgeList_without (frozen_without.trans writable), leftover_without writable,
    edgeList_without writable]

theorem mentions_iff (named : name ≠ []) (edge : Edge π) :
    Mentions name edge ↔ Matches name [] [] edge ∨ Matches [] [] name edge := by
  simp [Mentions, Matches, named]

theorem matches_nil (edge : Edge π) : Matches [] [] [] edge := by
  simp [Matches]

theorem nodeRemoved_iff (g : Graph π) (name : Name) :
    NodeRemoved g name ↔ NodeRemovable g name := by
  -- Without a removal from the dictionary, nothing is changed.
  have unchanged (answers : ∀ rounds, removeNode rounds g name = some (false, g)) :
      NodeRemoved g name ↔ ∀ edge ∈ g.edgeList, ¬ Mentions name edge := by
    rw [← unchanged_iff]
    constructor
    · rintro ⟨rounds, removed, g', returns, exact_, -⟩
      rw [answers rounds] at returns
      cases returns
      exact exact_
    · intro exact_
      exact ⟨0, false, g, answers 0, exact_, fun _ _ => rfl⟩
  unfold NodeRemovable
  cases has : g.nodes with
  | none => exact unchanged fun rounds => by simp only [removeNode, has]
  | some nodes =>
    cases lets : nodes.remove name with
    | crashed =>
      simp only [lets, iff_false]
      rintro ⟨rounds, removed, g', returns, -⟩
      simp [removeNode, has, lets] at returns
    | refused =>
      simp only [lets]
      exact unchanged fun rounds => by simp only [removeNode, has, lets]
    | removed left =>
      simp only [lets]
      have ended : NodeRemoved g name ↔ ends g = true ∧
          (without (without { g with nodes := some left } name [] []) [] [] name).edgeList =
            g.edgeList.filter fun edge => ¬ Mentions name edge := by
        constructor
        · rintro ⟨rounds, removed, g', returns, exact_, -⟩
          obtain ⟨ends_, rfl⟩ := removeNode_eq has lets returns
          exact ⟨ends_, exact_⟩
        · rintro ⟨ends_, exact_⟩
          obtain ⟨rounds, removed, g', returns⟩ := removeNode_of_ends has lets ends_
          obtain ⟨-, rfl⟩ := removeNode_eq has lets returns
          exact ⟨rounds, removed, _, returns, exact_, fun _ apart => node_of_removed has lets apart⟩
      rw [ended]
      cases locked : frozen g with
      | true =>
        have same : without (without { g with nodes := some left } name [] []) [] [] name =
            { g with nodes := some left } := by
          have first : without { g with nodes := some left } name [] [] =
              { g with nodes := some left } := by rw [without]; exact if_pos locked
          rw [first, without]
          exact if_pos locked
        rw [same, if_pos rfl, ← unchanged_iff]
        rfl
      | false =>
        rw [edgeList_node (g := { g with nodes := some left }) locked, ends_of_writable locked,
          if_neg Bool.false_ne_true, and_iff_right rfl]
        by_cases named : name = []
        · -- The second pattern takes everything that the first has left.
          subst named
          have nothing (edges : List (Edge π)) :
              edges.filter (fun edge => ¬ Matches [] [] [] edge) = [] := by
            simp [matches_nil]
          rw [if_pos rfl, nothing, List.append_nil]
          rfl
        · have both : (g.edgeList.filter fun edge => ¬ Matches name [] [] edge).filter
              (fun edge => ¬ Matches [] [] name edge) =
                g.edgeList.filter fun edge => ¬ Mentions name edge := by
            rw [List.filter_filter]
            refine List.filter_congr fun edge _ => ?_
            simp [mentions_iff named, Bool.and_comm]
          have pointed : (leftover g).reduceOption.filter
              (fun edge => ¬ Matches [] [] name edge) = [] ↔
                ∀ edge ∈ (leftover g).reduceOption, edge.to_ = some name := by
            simp [List.filter_eq_nil_iff, Matches, named]
          rw [if_neg named, List.filter_append, ← pointed, ← List.append_eq_nil_iff]
          change _ ++ ((leftover g).reduceOption.filter _ ++
            (g.edgeList.filter _).filter _) = _ ↔ _
          rw [both, ← List.append_assoc, List.append_left_eq_self]
          rfl

/--
Removing edges is exact when popping clears the list of edges; otherwise, when there is nothing to
remove and the popping ends. Removing a node is exact when it removes the node and the two removals
of edges are exact for it, and when nothing is removed, if no edge mentions the name.
-/
theorem removal_exact_iff (g : Graph π) (from_ relation to_ name : Name) :
    (EdgesRemoved g from_ relation to_ ↔ EdgesRemovable g from_ relation to_) ∧
      (NodeRemoved g name ↔ NodeRemovable g name) :=
  ⟨edgesRemoved_iff g from_ relation to_, nodeRemoved_iff g name⟩

def lockedEdges : Graph Unit where
  readOnly := false
  nodes := none
  edges := some ⟨true, [some ⟨some [0x61], some [0x72], some [0x62], ()⟩]⟩

/-- A graph without nodes, with one edge between two other names. -/
def strangers : Graph Unit where
  readOnly := false
  nodes := some ⟨.new_, false, by simp [AATree.Ordered, AATree.new_, AATree.nodes]⟩
  edges := some ⟨false, [some ⟨some [0x61], some [0x72], some [0x62], ()⟩]⟩

/-- A removal of edges from a read-only list never ends, and one of the empty name crashes. -/
theorem removal_fails :
    (∀ rounds, removeEdges rounds lockedEdges [0x7A] [] [] = none) ∧
      ¬ EdgesRemoved lockedEdges [0x7A] [] [] ∧
      (∀ rounds, removeNode rounds strangers [] = none) ∧ ¬ NodeRemoved strangers [] := by
  have endless (rounds : Nat) : removeEdges rounds lockedEdges [0x7A] [] [] = none := by
    have clears := @EdgeList.clear_diverges Unit
      ⟨true, [some ⟨some [0x61], some [0x72], some [0x62], ()⟩]⟩ rfl (by decide) rounds
    simp [removeEdges, lockedEdges, clears]
  have crashes (rounds : Nat) : removeNode rounds strangers [] = none := rfl
  refine ⟨endless, ?_, crashes, ?_⟩
  · rintro ⟨rounds, removed, g', returns, -⟩
    rw [endless rounds] at returns
    cases returns
  · rintro ⟨rounds, removed, g', returns, -⟩
    rw [crashes rounds] at returns
    cases returns

end KnowledgeGraph

end AgentC.Treesitter

import Mathlib.Data.Finset.Prod
import AgentC.Alloc.Slab
import AgentC.Library.Related
import AgentC.Library.Searches
import AgentC.Listree.CircularList
import AgentC.Listree.Tree

/-! Breadth-first traversal of a graph of values, with the frontier in a circular list. -/

namespace AgentC

/-- The links of a value: a list of references, or items with their references. -/
structure ValueLinks where
  isListMode : Bool
  list : Option (CLL (Option SlabId)) := none
  tree : Option (AATree (CLL (Option SlabId))) := none

namespace ValueLinks

def values (refs : CLL (Option SlabId)) (forward : Bool) : List SlabId :=
  (refs.forEach forward).filterMap id

/-- What `forEachTree` visits. -/
def items (tree : AATree (CLL (Option SlabId))) (forward : Bool) : List (CLL (Option SlabId)) :=
  (if forward then tree.entries else tree.entries.reverse).map Prod.snd

/-- The values that `traverse` finds at a value, in the order of a direction. -/
def children (links : ValueLinks) (forward : Bool) : List SlabId :=
  if links.isListMode then (links.list.map fun list => values list forward).getD []
  else (links.tree.map fun tree => (items tree forward).flatMap (values · forward)).getD []

end ValueLinks

/-- Values by their slots. Cycles and shared values are allowed. -/
structure ValueGraph where
  value : SlabId → ValueLinks
  inRange : ∀ si forward, ∀ child ∈ (value si).children forward, child.InRange

def ValueGraph.next (graph : ValueGraph) (forward : Bool) (si : SlabId) : List SlabId :=
  (graph.value si).children forward

/-- The marks of a traversal. -/
structure TraversalVisitState where
  seen : SlabId → Bool := fun _ => false
  active : SlabId → Bool := fun _ => false

/-- The loop of a breadth-first traversal: its queue, its marks and the calls of the visitor. -/
structure Traversing where
  queue : CLL SlabId
  context : TraversalVisitState
  visited : List SlabId

def enqueueTraversalValue (queue : CLL SlabId) (value : SlabId) : CLL SlabId :=
  queue.store value true

def dequeueTraversalValue (queue : CLL SlabId) : Option SlabId × CLL SlabId :=
  queue.pop true

namespace Traversing

def begin_ (start : SlabId) : Traversing where
  queue := enqueueTraversalValue .empty start
  context := {}
  visited := []

/-- One turn of the loop, or nothing where the loop breaks. -/
def turn (graph : ValueGraph) (forward : Bool) (s : Traversing) : Option Traversing :=
  match dequeueTraversalValue s.queue with
  | (none, _) => none
  | (some current, queue) =>
    if s.context.seen current then some { s with queue }
    else
      let seen := Function.update s.context.seen current true
      let enqueued := (graph.next forward current).foldl
        (fun queue child => if seen child then queue else enqueueTraversalValue queue child) queue
      some { queue := enqueued, context := { s.context with seen }, visited := s.visited ++ [current] }

def waiting (s : Traversing) : List SlabId :=
  s.queue.forEach true

end Traversing

namespace ValueGraph

variable (graph : ValueGraph) (start : SlabId) (forward : Bool)

def NoFarther (u v : SlabId) : Prop :=
  AgentC.NoFarther (graph.next forward) start u v

def Reachable (v : SlabId) : Prop :=
  AgentC.Reachable (graph.next forward) start v

def TakesNearest (s : Traversing) : Prop :=
  ∀ v rest, s.waiting = v :: rest → s.context.seen v = false →
    ∀ w ∈ rest, s.context.seen w = false → graph.NoFarther start forward v w

end ValueGraph

def inFront (rest found : List SlabId) : List SlabId :=
  found.reverse ++ rest

theorem adds_inFront : Adds inFront := by
  intro rest found
  exact ((List.reverse_perm found).append_right rest).trans List.perm_append_comm

namespace Traversing

variable {graph : ValueGraph} {start : SlabId} {forward : Bool}

/-- The loop is a search that takes the latest first. -/
structure Follows (s : Traversing) (search : Search SlabId) : Prop where
  holds : s.queue.Holds true search.waiting
  marked : ∀ si, s.context.seen si = decide (si ∈ search.visited)
  visited : s.visited = search.visited

theorem holds_enqueue {seen : SlabId → Bool} : ∀ (found : List SlabId) {queue : CLL SlabId}
    {rest : List SlabId}, queue.Holds true rest →
      (found.foldl (fun queue child =>
        if seen child then queue else enqueueTraversalValue queue child) queue).Holds true
        ((found.filter fun child => !seen child).reverse ++ rest) := by
  -- Each value that has not been seen is put in front of those before it.
  intro found
  induction found with
  | nil => intro queue rest holds; exact holds
  | cons child found ih =>
    intro queue rest holds
    rw [List.foldl_cons]
    cases mark : seen child with
    | true =>
      rw [List.filter_cons_of_neg (by simp [mark])]
      exact ih holds
    | false =>
      rw [List.filter_cons_of_pos (by simp [mark]), List.reverse_cons, List.append_assoc]
      exact ih (holds.store child)

variable {s : Traversing} {search : Search SlabId}

theorem Follows.turn (follows : s.Follows search) :
    Option.Rel Follows (s.turn graph forward)
      (search.step (graph.next forward) inFront) := by
  have holds := follows.holds
  unfold Traversing.turn Search.step dequeueTraversalValue
  cases waits : search.waiting with
  | nil =>
    rw [waits] at holds
    rw [holds.pop_nil]
    exact .none
  | cons v rest =>
    rw [waits] at holds
    obtain ⟨next, later⟩ := holds.pop
    generalize s.queue.pop true = popped at next later
    obtain ⟨taken, queue⟩ := popped
    dsimp only at next later
    subst next
    dsimp only
    rw [follows.marked v]
    by_cases visited : v ∈ search.visited
    · rw [if_pos (by simpa using visited), if_pos visited]
      exact .some ⟨later, follows.marked, follows.visited⟩
    · rw [if_neg (by simpa using visited), if_neg visited]
      have marked (si : SlabId) : Function.update s.context.seen v true si =
          decide (si ∈ search.visited ++ [v]) := by
        by_cases same : si = v
        · subst same
          simp
        · rw [Function.update_of_ne same, follows.marked si]
          simp [same]
      refine .some ⟨?_, marked, by rw [follows.visited]⟩
      have held := @holds_enqueue (Function.update s.context.seen v true) (graph.next forward v) _ _
        later
      simp only [marked] at held
      simpa [inFront, Search.found, marked] using held

theorem Follows.waiting (follows : s.Follows search) :
    s.waiting = search.waiting :=
  follows.holds.forEach

end Traversing

namespace ValueGraph

open Traversing

variable (graph : ValueGraph) (start : SlabId) (forward : Bool)

theorem halts : Halts (Search.step (graph.next forward) inFront)
    (.begin_ start) := by
  let slots := (Finset.range numSlabs ×ˢ Finset.range slabSize).image fun place =>
    (⟨place.1, place.2⟩ : SlabId)
  refine Search.halts_begin adds_inFront (Finset.mem_insert_self start slots) ?_
  intro u _ v child
  have range := graph.inRange u forward v child
  refine Finset.mem_insert_of_mem (Finset.mem_image.mpr ⟨(v.first, v.second), ?_, rfl⟩)
  exact Finset.mem_product.mpr ⟨Finset.mem_range.mpr range.1, Finset.mem_range.mpr range.2⟩

variable {graph start forward}

variable (graph start forward)

def listed (values : List SlabId) : ValueLinks where
  isListMode := true
  list := some (values.foldr (fun value list => list.store (some value) true) .empty)

end ValueGraph

end AgentC

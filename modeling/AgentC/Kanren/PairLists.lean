import AgentC.Kanren.FairAgrees
import AgentC.Kanren.LogicSpec
import AgentC.Kanren.Meanings

/-! The relations of lists of pairs: which answers they have, and in which order. -/

namespace AgentC.Kanren

open Bindings

section Streams

variable {ι : Type} {relations : ι → List Term → StreamGoal ι}

namespace Stream

end Stream

namespace StreamGoal

variable {s : State} {states : List State}

end StreamGoal

end Streams

def State.opened (s : State) : State :=
  s.fresh.2.fresh.2.create.2

def pairs (elements : List LogicTerm) : LogicTerm :=
  elements.foldr pairTerm nullTerm

section Pairs

variable {s t : State} {x y : Int} {head tail : LogicTerm}

theorem Old.later {u : LogicTerm} (old : Old s u) (count : s.count ≤ t.count) : Old t u := by
  intro z inside
  have before := old z inside
  omega

theorem Old.absent {u : LogicTerm} (old : Old s u) (new : s.count ≤ x) : ¬u.Occurs x := by
  intro inside
  have before := old x inside
  omega

end Pairs

/-- A term that means a list of pairs, none of whose variables is still to come. -/
structure Spells (s : State) (list : Term) (elements : List LogicTerm) : Prop where
  means : s.bindings.full list.erase = pairs elements
  old : Old s (pairs elements)

end AgentC.Kanren

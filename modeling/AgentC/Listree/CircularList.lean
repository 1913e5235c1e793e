import Mathlib.Data.List.Chain
import Mathlib.Data.List.Nodup
import Mathlib.Data.List.Perm.Subperm
import Mathlib.Logic.Function.Basic

/-! Circular lists of linked nodes, and the order in which their two ends give back what was stored. -/

namespace AgentC

universe u

/--
A circular list, with its nodes numbered in the order in which they were made.

Node zero is the one by which the list is reached. It has no data.
-/
structure CLL (α : Type u) where
  /-- Where a node leads to, forwards or backwards. -/
  lnk : Bool → Nat → Nat
  data : Nat → Option α
  /-- The number of the next node. -/
  size : Nat

namespace CLL

variable {α : Type u}

def empty : CLL α where
  lnk := fun _ node => node
  data := fun _ => none
  size := 1

def link (list : CLL α) (fwd : Bool) (node target : Nat) : CLL α :=
  { list with
    lnk := fun dir place => if dir = fwd ∧ place = node then target else list.lnk dir place }

/-- Taking the ring of a node into the list, next to another node. -/
def splice (list : CLL α) (this b : Nat) (fwd : Bool) : CLL α :=
  let bPrev := list.lnk (!fwd) b
  let thisNext := list.lnk fwd this
  (((list.link fwd bPrev thisNext).link (!fwd) thisNext bPrev).link fwd this b).link (!fwd) b this

/-- A new node that leads to itself. -/
def node (list : CLL α) (value : α) : CLL α where
  lnk := fun dir place => if place = list.size then place else list.lnk dir place
  data := fun place => if place = list.size then some value else list.data place
  size := list.size + 1

def store (list : CLL α) (value : α) (fwd : Bool) : CLL α :=
  (list.node value).splice 0 list.size fwd

/-- The data from a node on, up to the node by which the list is reached. -/
def visit (list : CLL α) (forward : Bool) : Nat → Nat → List α
  | 0, _ => []
  | fuel + 1, cur =>
    let next := list.lnk forward cur
    (list.data cur).toList ++ if next = 0 then [] else visit list forward fuel next

def forEach (list : CLL α) (forward : Bool) : List α :=
  list.visit forward list.size 0

structure Rings (list : CLL α) (fwd : Bool) (nodes : List Nat) : Prop where
  linked : (0 :: (nodes ++ [0])).IsChain fun a b => list.lnk fwd a = b ∧ list.lnk (!fwd) b = a
  apart : (0 :: nodes).Nodup
  made : ∀ node ∈ 0 :: nodes, node < list.size

/-- The list holds the values, in the order in which it is gone around in a direction. -/
structure Holds (list : CLL α) (fwd : Bool) (values : List α) : Prop where
  rings : ∃ nodes, list.Rings fwd nodes ∧ nodes.map list.data = values.map some
  bare : list.data 0 = none

variable {list : CLL α} {fwd : Bool} {nodes : List Nat} {values : List α}

theorem holds_empty (fwd : Bool) : (empty : CLL α).Holds fwd [] where
  rings := ⟨[], ⟨by simp [empty], by simp, by simp [empty]⟩, rfl⟩
  bare := rfl

theorem Rings.reverse (rings : list.Rings fwd nodes) : list.Rings (!fwd) nodes.reverse where
  linked := by
    have turned := List.isChain_reverse.mpr rings.linked
    rw [List.reverse_cons, List.reverse_append, List.reverse_singleton] at turned
    refine turned.imp fun a b both => ?_
    rw [Bool.not_not]
    exact both.symm
  apart := by
    obtain ⟨elsewhere, apart⟩ := List.nodup_cons.mp rings.apart
    exact List.nodup_cons.mpr ⟨fun member => elsewhere (List.mem_reverse.mp member),
      List.nodup_reverse.mpr apart⟩
  made := by
    intro node member
    refine rings.made node ?_
    rwa [List.mem_cons, List.mem_reverse, ← List.mem_cons] at member

theorem Holds.reverse (holds : list.Holds fwd values) : list.Holds (!fwd) values.reverse where
  rings := by
    obtain ⟨nodes, rings, stored⟩ := holds.rings
    exact ⟨nodes.reverse, rings.reverse, by rw [List.map_reverse, List.map_reverse, stored]⟩
  bare := holds.bare

theorem Holds.store (holds : list.Holds fwd values) (value : α) :
    (list.store value fwd).Holds fwd (value :: values) := by
  obtain ⟨⟨nodes, rings, stored⟩, bare⟩ := holds
  have some_ : 0 < list.size := rings.made 0 List.mem_cons_self
  have old : ∀ place ∈ 0 :: nodes, place ≠ list.size := fun place member =>
    Nat.ne_of_lt (rings.made place member)
  have kept : ∀ place ∈ 0 :: nodes, (list.store value fwd).data place = list.data place :=
    fun place member => if_neg (old place member)
  -- The new node stands between node zero and the node that was next to it.
  obtain ⟨next, later, first⟩ : ∃ next later, nodes ++ [0] = next :: later := by
    cases nodes with
    | nil => exact ⟨_, _, rfl⟩
    | cons next later => exact ⟨_, _, rfl⟩
  have nextOld : next ∈ 0 :: nodes := by
    have member : next ∈ nodes ++ [0] := first ▸ List.mem_cons_self
    simpa [or_comm] using member
  have linked := rings.linked
  rw [first, List.isChain_cons_cons] at linked
  obtain ⟨⟨leads, -⟩, rest⟩ := linked
  have next_ne := old next nextOld
  have links : ∀ dir place, (list.store value fwd).lnk dir place =
      if dir = !fwd ∧ place = list.size then 0
      else if dir = fwd ∧ place = 0 then list.size
      else if dir = !fwd ∧ place = next then list.size
      else if dir = fwd ∧ place = list.size then next
      else list.lnk dir place := by
    intro dir place
    have beside : (list.node value).lnk fwd 0 = next := by
      simp only [node]
      rw [if_neg (by omega), leads]
    have itself : (list.node value).lnk (!fwd) list.size = list.size := if_pos rfl
    simp only [CLL.store, splice, link, beside, itself]
    split
    · rfl
    split
    · rfl
    split
    · rfl
    split
    · rfl
    · next notBack notFront notNext notNew =>
      -- Other links are those of the list before.
      have other : place ≠ list.size := by
        rintro rfl
        cases dir <;> cases fwd <;> simp_all
      exact if_neg other
  refine ⟨⟨list.size :: nodes, ⟨?_, ?_, ?_⟩, ?_⟩, ?_⟩
  · rw [List.cons_append, first, List.isChain_cons_cons, List.isChain_cons_cons]
    refine ⟨⟨?_, ?_⟩, ⟨?_, ?_⟩, ?_⟩
    · rw [links]
      simp
    · rw [links]
      simp
    · rw [links]
      have apart : list.size ≠ 0 := by omega
      simp [apart]
    · rw [links]
      simp [next_ne]
    · -- Behind the new node nothing has changed.
      have apart : (next :: later).Nodup := by
        obtain ⟨elsewhere, apart⟩ := List.nodup_cons.mp rings.apart
        rw [← first]
        exact List.nodup_append.mpr ⟨apart, List.nodup_singleton 0, by
          rintro a inside b last rfl
          exact elsewhere (List.mem_singleton.mp last ▸ inside)⟩
      have among : ∀ place ∈ next :: later, place ∈ 0 :: nodes := by
        intro place member
        rw [← first] at member
        simpa [or_comm] using member
      refine rest.imp_of_mem_tail_imp fun a b from_ to_ ⟨ahead, back⟩ => ?_
      have behind : b ≠ next := fun same => (List.nodup_cons.mp apart).1 (same ▸ to_)
      have inner : a ≠ 0 := by
        rintro rfl
        exact behind (ahead.symm.trans leads)
      have a_old := old a (among a from_)
      have b_old := old b (among b (List.mem_of_mem_tail to_))
      rw [links, links]
      simp [a_old, b_old, inner, behind, ahead, back]
  · rw [List.nodup_cons, List.nodup_cons]
    refine ⟨?_, fun member => old _ (List.mem_cons_of_mem _ member) rfl, (List.nodup_cons.mp rings.apart).2⟩
    rw [List.mem_cons, not_or]
    exact ⟨by omega, (List.nodup_cons.mp rings.apart).1⟩
  · intro place member
    show place < list.size + 1
    rcases List.mem_cons.mp member with rfl | member
    · exact Nat.succ_pos _
    rcases List.mem_cons.mp member with rfl | member
    · exact Nat.lt_succ_self _
    · exact Nat.lt_succ_of_lt (rings.made place (List.mem_cons_of_mem _ member))
  · rw [List.map_cons, List.map_cons, ← stored]
    refine congrArg₂ List.cons (if_pos rfl) (List.map_congr_left fun place member => ?_)
    exact kept place (List.mem_cons_of_mem _ member)
  · rw [kept 0 List.mem_cons_self, bare]

theorem visit_eq {cur : Nat} {rest : List Nat} {fuel : Nat} (enough : rest.length < fuel)
    (linked : (cur :: (rest ++ [0])).IsChain fun a b => list.lnk fwd a = b ∧ list.lnk (!fwd) b = a)
    (inner : 0 ∉ rest) :
    list.visit fwd fuel cur = (cur :: rest).flatMap fun place => (list.data place).toList := by
  induction rest generalizing cur fuel with
  | nil =>
    obtain ⟨fuel, rfl⟩ := Nat.exists_eq_succ_of_ne_zero (Nat.ne_zero_of_lt enough)
    have ends : list.lnk fwd cur = 0 := by simpa using (And.left (by simpa using linked))
    simp [visit, ends]
  | cons next later ih =>
    obtain ⟨fuel, rfl⟩ := Nat.exists_eq_succ_of_ne_zero (Nat.ne_zero_of_lt enough)
    rw [List.cons_append, List.isChain_cons_cons] at linked
    obtain ⟨⟨leads, -⟩, linked⟩ := linked
    obtain ⟨some_, inner⟩ := not_or.mp (fun member => inner (List.mem_cons.mpr member))
    have others := ih (Nat.lt_of_succ_lt_succ enough) linked inner
    rw [visit, leads, if_neg (Ne.symm some_), others]
    rfl

theorem Holds.forEach (holds : list.Holds fwd values) : list.forEach fwd = values := by
  obtain ⟨⟨nodes, rings, stored⟩, bare⟩ := holds
  have enough : nodes.length < list.size := by
    have within : 0 :: nodes ⊆ List.range list.size := fun node member =>
      List.mem_range.mpr (rings.made node member)
    have short := (rings.apart.subperm within).length_le
    rwa [List.length_range] at short
  rw [CLL.forEach, visit_eq enough rings.linked (List.nodup_cons.mp rings.apart).1, List.flatMap_cons, bare]
  have all : nodes.flatMap (fun place => (list.data place).toList) =
      (nodes.map list.data).flatMap Option.toList := (List.flatMap_map _ _ _).symm
  rw [all, stored, List.flatMap_map]
  exact List.flatMap_singleton' values

theorem forEach_foldl_store (fwd : Bool) (values : List α) :
    (values.foldl (fun list value => list.store value fwd) empty).forEach (!fwd) = values := by
  -- Every value is stored in front of those before it, which the other direction comes to first.
  have general : ∀ (later : List α) (list : CLL α) (earlier : List α), list.Holds fwd earlier.reverse →
      (later.foldl (fun list value => list.store value fwd) list).Holds fwd (earlier ++ later).reverse := by
    intro later
    induction later with
    | nil =>
      intro list earlier holds
      rwa [List.append_nil]
    | cons value later ih =>
      intro list earlier holds
      have more := ih (list.store value fwd) (earlier ++ [value]) (by
        rw [List.reverse_append]
        exact holds.store value)
      rwa [List.append_assoc] at more
  have holds := general values empty [] (holds_empty fwd)
  exact (List.reverse_reverse values ▸ holds.reverse).forEach

def get (list : CLL α) (fromEnd : Bool) : Option α :=
  list.data (list.lnk fromEnd 0)

/-- Taking that value's node out of the list. It leads to itself then. -/
def remove (list : CLL α) (fwd : Bool) : CLL α :=
  let node := list.lnk fwd 0
  let next := list.lnk fwd node
  (((list.link fwd 0 next).link (!fwd) next 0).link false node node).link true node node

def pop (list : CLL α) (fromEnd : Bool) : Option α × CLL α :=
  match list.get fromEnd with
  | none => (none, list)
  | some value => (some value, list.remove fromEnd)

theorem Holds.remove {value : α} (holds : list.Holds fwd (value :: values)) :
    (list.remove fwd).Holds fwd values := by
  obtain ⟨⟨nodes, rings, stored⟩, bare⟩ := holds
  obtain ⟨node, later, rfl⟩ : ∃ node later, nodes = node :: later := by
    cases nodes with
    | nil => simp at stored
    | cons node later => exact ⟨node, later, rfl⟩
  have apart := rings.apart
  rw [List.nodup_cons, List.nodup_cons, List.mem_cons, not_or] at apart
  obtain ⟨⟨node_ne, inner⟩, absent, distinct⟩ := apart
  obtain ⟨next, rest, first⟩ : ∃ next rest, later ++ [0] = next :: rest := by
    cases later with
    | nil => exact ⟨_, _, rfl⟩
    | cons next later => exact ⟨_, _, rfl⟩
  have linked := rings.linked
  rw [List.cons_append, List.isChain_cons_cons, first, List.isChain_cons_cons] at linked
  obtain ⟨⟨leads, -⟩, ⟨beyond, -⟩, behind⟩ := linked
  have away : ∀ place ∈ next :: rest, place ≠ node := by
    rw [← first]
    rintro place member rfl
    rcases List.mem_append.mp member with member | last
    · exact absent member
    · exact node_ne (List.mem_singleton.mp last).symm
  have next_ne := away next List.mem_cons_self
  have links : ∀ dir place, place ≠ node → (list.remove fwd).lnk dir place =
      if dir = !fwd ∧ place = next then 0
      else if dir = fwd ∧ place = 0 then next
      else list.lnk dir place := by
    intro dir place other
    simp only [CLL.remove, link, leads, beyond]
    rw [if_neg (fun both => other both.2), if_neg (fun both => other both.2)]
  refine ⟨⟨later, ⟨?_, ?_, ?_⟩, ?_⟩, bare⟩
  · rw [first, List.isChain_cons_cons]
    refine ⟨⟨?_, ?_⟩, ?_⟩
    · rw [links _ _ node_ne]
      simp
    · rw [links _ _ next_ne]
      simp
    · -- Behind the node that is next now, nothing has changed.
      have unique : (next :: rest).Nodup := by
        rw [← first]
        exact List.nodup_append.mpr ⟨distinct, List.nodup_singleton 0, by
          rintro a inside b last rfl
          exact inner (List.mem_singleton.mp last ▸ inside)⟩
      refine behind.imp_of_mem_tail_imp fun a b from_ to_ ⟨ahead, back⟩ => ?_
      have not_next : b ≠ next := fun same => (List.nodup_cons.mp unique).1 (same ▸ to_)
      have b_away := away b (List.mem_cons_of_mem _ to_)
      have a_inner : a ≠ 0 := by
        rintro rfl
        exact b_away (ahead.symm.trans leads)
      rw [links _ _ (away a from_), links _ _ b_away]
      simp [a_inner, not_next, ahead, back]
  · exact List.nodup_cons.mpr ⟨inner, distinct⟩
  · intro place member
    rcases List.mem_cons.mp member with rfl | member
    · exact rings.made 0 List.mem_cons_self
    · exact rings.made place (List.mem_cons_of_mem _ (List.mem_cons_of_mem _ member))
  · exact (List.cons.inj stored).2

theorem Holds.pop {value : α} (holds : list.Holds fwd (value :: values)) :
    (list.pop fwd).1 = some value ∧ (list.pop fwd).2.Holds fwd values := by
  obtain ⟨⟨nodes, rings, stored⟩, -⟩ := id holds
  have next : list.get fwd = some value := by
    cases nodes with
    | nil => simp at stored
    | cons node later =>
      have leads : list.lnk fwd 0 = node := (List.isChain_cons_cons.mp rings.linked).1.1
      rw [get, leads]
      exact (List.cons.inj stored).1
  rw [CLL.pop, next]
  exact ⟨rfl, holds.remove⟩

theorem Holds.pop_nil (holds : list.Holds fwd []) : list.pop fwd = (none, list) := by
  obtain ⟨⟨nodes, rings, stored⟩, bare⟩ := holds
  obtain rfl := List.map_eq_nil_iff.mp stored
  have leads : list.lnk fwd 0 = 0 := (List.isChain_cons_cons.mp rings.linked).1.1
  rw [CLL.pop, get, leads, bare]

end CLL

end AgentC

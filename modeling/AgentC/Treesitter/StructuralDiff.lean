import Mathlib.Data.List.Infix
import Mathlib.Data.UInt
import AgentC.Library.Subsequences

/-! A diff of two lists of nodes keeps a longest common subsequence and accounts for every other node once. -/

namespace AgentC.Treesitter

structure FlatNode where
  type : List UInt8
  text : List UInt8
  startByte : UInt32
  endByte : UInt32
  startRow : UInt32
  isNamed : Bool
  deriving DecidableEq, Repr

/-- The kind of a change. -/
inductive DiffKind where
  | added
  | removed
  | modified
  | moved
  deriving DecidableEq, Repr

/-- A change. A position is `none` where the source leaves it unset. -/
structure DiffEntry where
  kind : DiffKind
  nodeType : List UInt8
  oldText : List UInt8 := []
  newText : List UInt8 := []
  oldStartByte : Option UInt32 := none
  newStartByte : Option UInt32 := none
  oldStartRow : Option UInt32 := none
  newStartRow : Option UInt32 := none
  deriving DecidableEq, Repr

namespace StructuralDiff

def sameNode (old new : FlatNode) : Bool :=
  old.type = new.type && old.text = new.text

/-- A row of the table, from a column on to the last, from the row below it. -/
def lcsRow (old : FlatNode) : List FlatNode → List Nat → List Nat
  | [], _ => [0]
  | new :: rest, below =>
    let right := lcsRow old rest below.tail
    let here :=
      if sameNode old new then below.tail.headD 0 + 1 else max (below.headD 0) (right.headD 0)
    here :: right

/-- The table, from the row of the first node on to the last row, which is zero. -/
def lcsTable : List FlatNode → List FlatNode → List (List Nat)
  | [], newNodes => [List.replicate (newNodes.length + 1) 0]
  | old :: rest, newNodes =>
    let below := lcsTable rest newNodes
    lcsRow old newNodes (below.headD []) :: below

def cell (lcs : List (List Nat)) (i j : Nat) : Nat :=
  (lcs.getD i []).getD j 0

/-- The entry for a matched pair, when its position changed. -/
def moved (old new : FlatNode) : List DiffEntry :=
  if old.startByte ≠ new.startByte ∨ old.startRow ≠ new.startRow then
    [{ kind := .moved, nodeType := old.type, oldText := old.text, newText := new.text
       oldStartByte := some old.startByte, newStartByte := some new.startByte
       oldStartRow := some old.startRow, newStartRow := some new.startRow }]
  else []

/-- The entry for a removed node, with what the source stores as its new position. -/
def removed (unused : Option UInt32) (old : FlatNode) : DiffEntry :=
  { kind := .removed, nodeType := old.type, oldText := old.text
    oldStartByte := some old.startByte, oldStartRow := some old.startRow
    newStartByte := unused, newStartRow := unused }

/-- The entry for an added node, with what the source stores as its old position. -/
def added (unused : Option UInt32) (new : FlatNode) : DiffEntry :=
  { kind := .added, nodeType := new.type, newText := new.text
    newStartByte := some new.startByte, newStartRow := some new.startRow
    oldStartByte := unused, oldStartRow := unused }

/-- Walking through the table from an entry on. -/
def backtrack (oldNodes newNodes : List FlatNode) (lcs : List (List Nat)) (i j : Nat) :
    List DiffEntry :=
  if inside : i < oldNodes.length ∧ j < newNodes.length then
    let old := oldNodes.get ⟨i, inside.1⟩
    let new := newNodes.get ⟨j, inside.2⟩
    if sameNode old new then
      moved old new ++ backtrack oldNodes newNodes lcs (i + 1) (j + 1)
    else if cell lcs i (j + 1) ≤ cell lcs (i + 1) j then
      removed (some 0) old :: backtrack oldNodes newNodes lcs (i + 1) j
    else
      added (some 0) new :: backtrack oldNodes newNodes lcs i (j + 1)
  else
    -- What is left of one of the lists. The other position is never written here.
    (oldNodes.drop i).map (removed none) ++ (newNodes.drop j).map (added none)
termination_by (oldNodes.length - i) + (newNodes.length - j)

/-- A removal and an addition as one modification. -/
def modified (gone come : DiffEntry) : DiffEntry :=
  { kind := .modified, nodeType := gone.nodeType, oldText := gone.oldText, newText := come.newText
    oldStartByte := gone.oldStartByte, newStartByte := come.newStartByte
    oldStartRow := gone.oldStartRow, newStartRow := come.newStartRow }

def mergeModified : List DiffEntry → List DiffEntry
  | gone :: come :: rest =>
    if gone.kind = .removed ∧ come.kind = .added ∧ gone.nodeType = come.nodeType then
      modified gone come :: mergeModified rest
    else gone :: mergeModified (come :: rest)
  | entries => entries

/--
The changes from one list of nodes to another.

The source counts nodes in `int`. The nodes come from a tree of Listree values, of which the
allocator holds at most 2^22.
-/
def computeDiff (oldNodes newNodes : List FlatNode) : List DiffEntry :=
  mergeModified (backtrack oldNodes newNodes (lcsTable oldNodes newNodes) 0 0)

end StructuralDiff

end AgentC.Treesitter

namespace AgentC.Treesitter

def FlatNode.key (node : FlatNode) : List UInt8 × List UInt8 :=
  (node.type, node.text)

/-- What a change tells about a node of one of the lists. -/
structure Side where
  type : List UInt8
  text : List UInt8
  startByte : Option UInt32
  startRow : Option UInt32
  deriving DecidableEq, Repr

def FlatNode.side (node : FlatNode) : Side :=
  ⟨node.type, node.text, some node.startByte, some node.startRow⟩

/-- What a removal or a modification tells about an old node. -/
def DiffEntry.oldSide (entry : DiffEntry) : Option Side :=
  if entry.kind = .removed ∨ entry.kind = .modified then
    some ⟨entry.nodeType, entry.oldText, entry.oldStartByte, entry.oldStartRow⟩
  else none

/-- What an addition or a modification tells about a new node. -/
def DiffEntry.newSide (entry : DiffEntry) : Option Side :=
  if entry.kind = .added ∨ entry.kind = .modified then
    some ⟨entry.nodeType, entry.newText, entry.newStartByte, entry.newStartRow⟩
  else none

namespace StructuralDiff

variable {oldNodes newNodes keptOld lostOld keptNew lostNew : List FlatNode}
  {entries : List DiffEntry}

structure Accounts (oldNodes newNodes : List FlatNode) (entries : List DiffEntry)
    (keptOld lostOld keptNew lostNew : List FlatNode) : Prop where
  old : Interleaves keptOld lostOld oldNodes
  new : Interleaves keptNew lostNew newNodes
  same : keptOld.map FlatNode.key = keptNew.map FlatNode.key
  gone : entries.filterMap DiffEntry.oldSide = lostOld.map FlatNode.side
  /-- The changes tell of each new node that is gained, once and in order. -/
  come : entries.filterMap DiffEntry.newSide = lostNew.map FlatNode.side

/-! What one step of the walk adds. -/

theorem sameNode_iff (old new : FlatNode) : sameNode old new = true ↔ old.key = new.key := by
  simp [sameNode, FlatNode.key]

@[simp] theorem oldSide_removed (unused : Option UInt32) (old : FlatNode) :
    (removed unused old).oldSide = some old.side := rfl

@[simp] theorem newSide_removed (unused : Option UInt32) (old : FlatNode) :
    (removed unused old).newSide = none := rfl

@[simp] theorem oldSide_added (unused : Option UInt32) (new : FlatNode) :
    (added unused new).oldSide = none := rfl

@[simp] theorem newSide_added (unused : Option UInt32) (new : FlatNode) :
    (added unused new).newSide = some new.side := rfl

theorem sides_moved (old new : FlatNode) :
    (moved old new).filterMap DiffEntry.oldSide = [] ∧
      (moved old new).filterMap DiffEntry.newSide = [] := by
  unfold moved
  split
  · exact ⟨rfl, rfl⟩
  · exact ⟨rfl, rfl⟩

namespace Accounts

theorem keep {old new : FlatNode} (key : old.key = new.key)
    (rest : Accounts oldNodes newNodes entries keptOld lostOld keptNew lostNew) :
    Accounts (old :: oldNodes) (new :: newNodes) (moved old new ++ entries) (old :: keptOld)
      lostOld (new :: keptNew) lostNew where
  old := rest.old.left
  new := rest.new.left
  same := by rw [List.map_cons, List.map_cons, key, rest.same]
  gone := by rw [List.filterMap_append, (sides_moved old new).1, List.nil_append, rest.gone]
  come := by rw [List.filterMap_append, (sides_moved old new).2, List.nil_append, rest.come]

theorem remove (unused : Option UInt32) (old : FlatNode)
    (rest : Accounts oldNodes newNodes entries keptOld lostOld keptNew lostNew) :
    Accounts (old :: oldNodes) newNodes (removed unused old :: entries) keptOld (old :: lostOld)
      keptNew lostNew where
  old := rest.old.right
  new := rest.new
  same := rest.same
  gone := by rw [List.filterMap_cons_some (oldSide_removed unused old), rest.gone]; rfl
  come := by rw [List.filterMap_cons_none (newSide_removed unused old), rest.come]

theorem add (unused : Option UInt32) (new : FlatNode)
    (rest : Accounts oldNodes newNodes entries keptOld lostOld keptNew lostNew) :
    Accounts oldNodes (new :: newNodes) (added unused new :: entries) keptOld lostOld
      keptNew (new :: lostNew) where
  old := rest.old
  new := rest.new.right
  same := rest.same
  gone := by rw [List.filterMap_cons_none (oldSide_added unused new), rest.gone]
  come := by rw [List.filterMap_cons_some (newSide_added unused new), rest.come]; rfl

theorem rest (oldNodes newNodes : List FlatNode) :
    Accounts oldNodes newNodes (oldNodes.map (removed none) ++ newNodes.map (added none)) []
      oldNodes [] newNodes where
  old := Interleaves.of_right oldNodes
  new := Interleaves.of_right newNodes
  same := rfl
  gone := by simp [List.filterMap_append, List.filterMap_map, Function.comp_def]
  come := by simp [List.filterMap_append, List.filterMap_map, Function.comp_def]

theorem sides_modified {gone come : DiffEntry} (isGone : gone.kind = .removed)
    (isCome : come.kind = .added) (type : gone.nodeType = come.nodeType) :
    (modified gone come).oldSide = gone.oldSide ∧ (modified gone come).newSide = come.newSide ∧
      come.oldSide = none ∧ gone.newSide = none := by
  simp [modified, DiffEntry.oldSide, DiffEntry.newSide, isGone, isCome, type]

theorem sides_mergeModified (entries : List DiffEntry) :
    (mergeModified entries).filterMap DiffEntry.oldSide = entries.filterMap DiffEntry.oldSide ∧
      (mergeModified entries).filterMap DiffEntry.newSide =
        entries.filterMap DiffEntry.newSide := by
  -- Two entries are merged, or the first of them stays as it is.
  induction entries using mergeModified.induct with
  | case1 gone come rest merged ih =>
    obtain ⟨isGone, isCome, type⟩ := merged
    obtain ⟨oldSide, newSide, noOld, noNew⟩ := sides_modified isGone isCome type
    rw [mergeModified, if_pos ⟨isGone, isCome, type⟩]
    constructor
    · simp only [List.filterMap_cons, oldSide, noOld, ih.1]
    · simp only [List.filterMap_cons, newSide, noNew, ih.2]
  | case2 gone come rest apart ih =>
    rw [mergeModified, if_neg apart]
    constructor
    · rw [List.filterMap_cons, ih.1, ← List.filterMap_cons]
    · rw [List.filterMap_cons, ih.2, ← List.filterMap_cons]
  | case3 entries short =>
    rw [mergeModified]
    · exact ⟨rfl, rfl⟩
    · exact short

theorem merge (accounts : Accounts oldNodes newNodes entries keptOld lostOld keptNew lostNew) :
    Accounts oldNodes newNodes (mergeModified entries) keptOld lostOld keptNew lostNew where
  old := accounts.old
  new := accounts.new
  same := accounts.same
  gone := by rw [(sides_mergeModified entries).1, accounts.gone]
  come := by rw [(sides_mergeModified entries).2, accounts.come]

end Accounts

/-! The table. -/

def common (oldNodes newNodes : List FlatNode) : Nat :=
  lcsLength (oldNodes.map FlatNode.key) (newNodes.map FlatNode.key)

def rowLengths (oldNodes newNodes : List FlatNode) : List Nat :=
  newNodes.tails.map (common oldNodes)

theorem rowLengths_cons (oldNodes newNodes : List FlatNode) (new : FlatNode) :
    rowLengths oldNodes (new :: newNodes) =
      common oldNodes (new :: newNodes) :: rowLengths oldNodes newNodes := by
  simp [rowLengths]

theorem headD_rowLengths (oldNodes newNodes : List FlatNode) :
    (rowLengths oldNodes newNodes).headD 0 = common oldNodes newNodes := by
  cases newNodes <;> simp [rowLengths]

theorem common_cons (old new : FlatNode) (oldNodes newNodes : List FlatNode) :
    common (old :: oldNodes) (new :: newNodes) =
      if sameNode old new then common oldNodes newNodes + 1
      else max (common oldNodes (new :: newNodes)) (common (old :: oldNodes) newNodes) := by
  simp only [common, List.map_cons, lcsLength, sameNode_iff]

theorem lcsRow_eq (old : FlatNode) (oldNodes newNodes : List FlatNode) :
    lcsRow old newNodes (rowLengths oldNodes newNodes) = rowLengths (old :: oldNodes) newNodes := by
  -- From the last column to the first, as the source fills a row.
  induction newNodes with
  | nil => simp [lcsRow, rowLengths, common]
  | cons new newNodes ih =>
    rw [rowLengths_cons, lcsRow, List.tail_cons, ih, headD_rowLengths, headD_rowLengths,
      List.headD_cons, rowLengths_cons, common_cons]

theorem lcsTable_eq (oldNodes newNodes : List FlatNode) :
    lcsTable oldNodes newNodes = oldNodes.tails.map fun suffix => rowLengths suffix newNodes := by
  -- From the last row to the first.
  induction oldNodes with
  | nil =>
    have zero : rowLengths [] newNodes = List.replicate (newNodes.length + 1) 0 := by
      refine List.eq_replicate_iff.mpr ⟨by simp [rowLengths], fun length inside => ?_⟩
      obtain ⟨suffix, -, rfl⟩ := List.mem_map.mp inside
      exact lcsLength_nil_left _
    simp [lcsTable, zero]
  | cons old oldNodes ih =>
    have below : (lcsTable oldNodes newNodes).headD [] = rowLengths oldNodes newNodes := by
      rw [ih]
      cases oldNodes <;> simp
    rw [lcsTable, below, lcsRow_eq, ih, List.tails_cons, List.map_cons]

theorem cell_lcsTable {i j : Nat} (row : i ≤ oldNodes.length) (column : j ≤ newNodes.length) :
    cell (lcsTable oldNodes newNodes) i j = common (oldNodes.drop i) (newNodes.drop j) := by
  have rowInside : i < oldNodes.tails.length := by
    rw [List.length_tails]
    omega
  have columnInside : j < newNodes.tails.length := by
    rw [List.length_tails]
    omega
  rw [cell, lcsTable_eq, List.getD_eq_getElem?_getD, List.getD_eq_getElem?_getD, List.getElem?_map,
    List.getElem?_eq_getElem rowInside, List.getElem_tails, Option.map_some, Option.getD_some,
    rowLengths, List.getElem?_map, List.getElem?_eq_getElem columnInside, List.getElem_tails]
  rfl

theorem backtrack_accounts (oldNodes newNodes : List FlatNode) (i j : Nat) :
    ∃ keptOld lostOld keptNew lostNew,
      Accounts (oldNodes.drop i) (newNodes.drop j)
        (backtrack oldNodes newNodes (lcsTable oldNodes newNodes) i j)
        keptOld lostOld keptNew lostNew ∧
      common (oldNodes.drop i) (newNodes.drop j) ≤ keptOld.length := by
  -- The induction is on what is left of both lists, as the walk shortens it.
  induction left : (oldNodes.length - i) + (newNodes.length - j) using Nat.strong_induction_on
    generalizing i j with
  | _ left ih =>
    rw [backtrack]
    by_cases inside : i < oldNodes.length ∧ j < newNodes.length
    · rw [dif_pos inside]
      obtain ⟨row, column⟩ := inside
      have oldSplit : oldNodes.drop i = oldNodes.get ⟨i, row⟩ :: oldNodes.drop (i + 1) :=
        List.drop_eq_getElem_cons row
      have newSplit : newNodes.drop j = newNodes.get ⟨j, column⟩ :: newNodes.drop (j + 1) :=
        List.drop_eq_getElem_cons column
      by_cases match_ : sameNode (oldNodes.get ⟨i, row⟩) (newNodes.get ⟨j, column⟩) = true
      · -- A match is kept, and the length for the rest is one less.
        obtain ⟨keptOld, lostOld, keptNew, lostNew, accounts, long⟩ :=
          ih _ (by omega) (i + 1) (j + 1) rfl
        simp only [if_pos match_]
        refine ⟨oldNodes.get ⟨i, row⟩ :: keptOld, lostOld, newNodes.get ⟨j, column⟩ :: keptNew,
          lostNew, ?_, ?_⟩
        · rw [oldSplit, newSplit]
          exact accounts.keep ((sameNode_iff _ _).mp match_)
        · rw [oldSplit, newSplit, common_cons, if_pos match_, List.length_cons]
          omega
      · simp only [if_neg match_]
        have entry : common (oldNodes.drop i) (newNodes.drop j) =
            max (common (oldNodes.drop (i + 1)) (newNodes.drop j))
              (common (oldNodes.drop i) (newNodes.drop (j + 1))) := by
          rw [oldSplit, newSplit, common_cons, if_neg match_]
        rw [cell_lcsTable (by omega) (by omega), cell_lcsTable (by omega) (by omega)]
        by_cases down : common (oldNodes.drop i) (newNodes.drop (j + 1)) ≤
            common (oldNodes.drop (i + 1)) (newNodes.drop j)
        · -- Without the old node, the length is as before.
          obtain ⟨keptOld, lostOld, keptNew, lostNew, accounts, long⟩ :=
            ih _ (by omega) (i + 1) j rfl
          rw [if_pos down]
          refine ⟨keptOld, oldNodes.get ⟨i, row⟩ :: lostOld, keptNew, lostNew, ?_, by omega⟩
          rw [oldSplit]
          exact accounts.remove (some 0) _
        · -- Without the new node, the length is as before.
          obtain ⟨keptOld, lostOld, keptNew, lostNew, accounts, long⟩ :=
            ih _ (by omega) i (j + 1) rfl
          rw [if_neg down]
          refine ⟨keptOld, lostOld, keptNew, newNodes.get ⟨j, column⟩ :: lostNew, ?_, by omega⟩
          rw [newSplit]
          exact accounts.add (some 0) _
    · -- One of the lists is at its end, and nothing is common to both.
      rw [dif_neg inside]
      refine ⟨[], oldNodes.drop i, [], newNodes.drop j, Accounts.rest _ _, ?_⟩
      have ended : oldNodes.drop i = [] ∨ newNodes.drop j = [] := by
        rw [List.drop_eq_nil_iff, List.drop_eq_nil_iff]
        omega
      obtain none | none := ended
      · simp [none, common]
      · simp [none, common]

/--
A structural diff keeps a longest common subsequence of the two lists by type and text, and its
removals, additions and modifications tell of every other node exactly once.
-/
theorem computeDiff_minimal (oldNodes newNodes : List FlatNode) :
    ∃ keptOld lostOld keptNew lostNew,
      Accounts oldNodes newNodes (computeDiff oldNodes newNodes) keptOld lostOld keptNew lostNew ∧
      IsLongestCommon (keptOld.map FlatNode.key) (oldNodes.map FlatNode.key)
        (newNodes.map FlatNode.key) := by
  -- The walk begins at the entry for the whole lists.
  obtain ⟨keptOld, lostOld, keptNew, lostNew, accounts, long⟩ :=
    backtrack_accounts oldNodes newNodes 0 0
  refine ⟨keptOld, lostOld, keptNew, lostNew, accounts.merge, ?_⟩
  have right := accounts.new.sublist.map FlatNode.key
  rw [← accounts.same] at right
  exact IsLongestCommon.of_length (accounts.old.sublist.map FlatNode.key) right (by simpa [common] using long)

end StructuralDiff

end AgentC.Treesitter

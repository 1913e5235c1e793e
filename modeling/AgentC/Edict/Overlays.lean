import AgentC.Library.Runs
import AgentC.Listree.TreeOrder

/-! Overlays: values that shadow the entries of a shared value, and the calls that read and write them. -/

namespace AgentC

universe u

namespace AATree

variable {α : Type u} {tree : AATree α} {name other : Name}

/-- The names that `forEach` calls back with. Only a node without name and data is passed over. -/
def visitedNames : AATree α → List Name
  | .leaf => []
  | .node left name data right =>
    left.visitedNames ++ (if !name.isEmpty || data.isSome then [name] else []) ++ right.visitedNames

def allocated : AATree α → AATree α
  | .leaf => new_
  | tree => tree

/-- Names grow from left to right, and every node has data but the nameless one of a new tree. -/
structure WellKept (tree : AATree α) : Prop where
  ordered : tree.Ordered
  ready : tree.allocated.Ready

theorem visitedNames_eq (tree : AATree α) :
    tree.visitedNames =
      (tree.nodes.filter fun node => !node.1.isEmpty || node.2.isSome).map Prod.fst := by
  induction tree with
  | leaf => rfl
  | node left n data right ihLeft ihRight =>
    rw [visitedNames, nodes, List.filter_append, List.filter_cons, List.map_append, ihLeft, ihRight]
    split <;> simp

theorem Ordered.visitedNames_nodup (ordered : tree.Ordered) : tree.visitedNames.Nodup := by
  rw [visitedNames_eq]
  -- The names of some of the nodes grow like those of all of them.
  have growing : (tree.nodes.filter fun node => !node.1.isEmpty || node.2.isSome).Pairwise
      fun node later => node.1 < later.1 := ordered.sublist List.filter_sublist
  exact List.pairwise_map.mpr (growing.imp fun before => name_ne_of_lt before)

theorem WellKept.full (kept : tree.WellKept) {data : Option α} (member : (name, data) ∈ tree.nodes)
    (named : name ≠ []) : data.isSome = true := by
  have found := kept.ordered.find_iff.mpr member
  cases tree with
  | leaf => cases member
  | node left n own right =>
    obtain ⟨-, full⟩ | new := kept.ready
    · exact Option.isSome_iff_ne_none.mpr fun none_ => full name (none_ ▸ found)
    · -- The only node of a new tree has no name.
      rw [show AATree.node left n own right = new_ from new] at member
      obtain rfl := (Prod.mk.inj (List.mem_singleton.mp member)).1
      exact absurd rfl named

theorem WellKept.mem_visitedNames (kept : tree.WellKept) :
    name ∈ tree.visitedNames ↔ (tree.find name).join.isSome = true := by
  rw [visitedNames_eq]
  simp only [List.mem_map, List.mem_filter]
  constructor
  · rintro ⟨⟨n, data⟩, ⟨member, visited⟩, rfl⟩
    have some_ : data.isSome = true := by
      by_cases named : n = []
      · simpa [named] using visited
      · exact kept.full member named
    rw [kept.ordered.find_iff.mpr member]
    exact some_
  · intro found
    cases here : tree.find name with
    | none => simp [here] at found
    | some data =>
      rw [here] at found
      exact ⟨(name, data), ⟨kept.ordered.find_iff.mp here, by simpa using Or.inr found⟩, rfl⟩

theorem nodes_alter (change : α → α) (tree : AATree α) (name : Name) :
    (tree.alter change name).nodes.map Prod.fst = tree.nodes.map Prod.fst := by
  induction tree with
  | leaf => rfl
  | node left n data right ihLeft ihRight =>
    unfold alter
    split
    · simp only [nodes, List.map_append, List.map_cons, ihLeft]
    split
    · simp only [nodes, List.map_append, List.map_cons, ihRight]
    · simp only [nodes, List.map_append, List.map_cons]

theorem Ordered.alter (ordered : tree.Ordered) (change : α → α) (name : Name) :
    (tree.alter change name).Ordered := by
  have growing : (tree.nodes.map Prod.fst).Pairwise (· < ·) := List.pairwise_map.mpr ordered
  rw [← nodes_alter change tree name] at growing
  exact List.pairwise_map.mp growing

theorem wellKept_new : (new_ : AATree α).WellKept :=
  ⟨List.pairwise_singleton _ _, Or.inr rfl⟩

theorem join_find_allocated (tree : AATree α) (name : Name) :
    (tree.allocated.find name).join = (tree.find name).join := by
  cases tree with
  | leaf => exact join_find_new name
  | node _ _ _ _ => rfl

theorem Ready.ordered_addNamedItem {tree : AATree (List α)} (ready : tree.Ready)
    (ordered : tree.Ordered) (named : name ≠ []) (value : α) :
    (tree.addNamedItem name value).Ordered := by
  obtain ⟨taken, -⟩ | rfl := ready
  · cases known : tree.find name with
    | none =>
      rw [addNamedItem_fresh value taken known]
      have placed : (tree.place name [value]).nodes.Perm ((name, some [value]) :: tree.nodes) ∧
          (tree.place name [value]).Ordered := ordered.place known
      exact placed.2
    | some item =>
      have added : tree.addNamedItem name value = tree.alter (value :: ·) name := by
        simp only [AATree.addNamedItem, known, Option.isNone_some, Bool.false_eq_true, if_false]
      rw [added]
      exact ordered.alter _ _
  · rw [addNamedItem_first named]
    exact List.pairwise_singleton _ _

theorem Ready.allocated_eq (ready : tree.Ready) : tree.allocated = tree := by
  cases tree with
  | leaf =>
    obtain ⟨taken, -⟩ | new := ready
    · exact taken.elim
    · cases new
  | node _ _ _ _ => rfl

theorem WellKept.addNamedItem {tree : AATree (List α)} (kept : tree.WellKept) (named : name ≠ [])
    (value : α) :
    (tree.allocated.addNamedItem name value).WellKept ∧ ∀ other,
      ((tree.allocated.addNamedItem name value).find other).join =
        if other = name then some (value :: (tree.find name).join.getD []) else
          (tree.find other).join := by
  have ordered : tree.allocated.Ordered := by
    cases tree with
    | leaf => exact wellKept_new.ordered
    | node _ _ _ _ => exact kept.ordered
  obtain ⟨ready, found⟩ := kept.ready.addNamedItem named value
  refine ⟨⟨kept.ready.ordered_addNamedItem ordered named value, ?_⟩, fun other => ?_⟩
  · rw [ready.allocated_eq]
    exact ready
  · rw [found, join_find_allocated, join_find_allocated]

end AATree

namespace Overlays

open AATree

variable {V : Type u}

abbrev Item (V : Type u) :=
  List (Option V)

/-- The latest of an item's values, which `getValue(false, false)` returns. -/
def getValue (item : Item V) : Option V :=
  item.head?.join

/-- What the calls use of a value: its mode, its flag and the tree of its items. -/
structure Layer (V : Type u) where
  isListMode : Bool
  isReadOnly : Bool
  tree : AATree (Item V)
  kept : tree.WellKept

namespace Layer

/-- The value that `createNullValue` makes. -/
def createNullValue : Layer V :=
  ⟨false, false, new_, wellKept_new⟩

/-- The source's `find` without insertion. -/
def find (layer : Layer V) (name : Name) : Option (Item V) :=
  if layer.isListMode then none else (layer.tree.find name).join

/-- The source's `addNamedItem`, which a read-only value refuses. -/
def addNamedItem (layer : Layer V) (name : Name) (named : name ≠ []) (value : Option V) : Layer V :=
  if layer.isListMode then layer
  else if layer.isReadOnly then layer
  else
    { layer with
      tree := layer.tree.allocated.addNamedItem name value
      kept := (layer.kept.addNamedItem named value).1 }

/-- The names that the source's `forEachTree` calls back with. -/
def forEachTree (layer : Layer V) : List Name :=
  if layer.isListMode then [] else layer.tree.visitedNames

def contents (layer : Layer V) : Option (AATree (Item V)) :=
  if layer.isListMode then none else some layer.tree

def setReadOnly (layer : Layer V) : Layer V :=
  { layer with isReadOnly := true }

end Layer

/-- An overlay, with what `overlayField` finds in its two fields. -/
structure Overlay (V : Type u) where
  isReadOnly : Bool
  shared : Option (Layer V)
  shadows : Option (Layer V)

/-- What the calls use of the value that is popped as a key. -/
structure KeyValue where
  data : List UInt8
  binary : Bool

def overlayToString : Option KeyValue → Option { key : Name // key ≠ [] }
  | none => none
  | some v =>
    if empty : v.data = [] then none
    else if v.binary then none
    else some ⟨v.data, empty⟩

def Overlay.ofShared (shared : Layer V) : Overlay V :=
  ⟨false, some shared, some .createNullValue⟩

/-- The source's `op_OVERLAY_NEW`. -/
def overlayNew (shared : Option (Layer V)) : Except String (Overlay V) :=
  match shared with
  | none => .error "overlay.new requires a shared base value"
  | some shared => .ok (.ofShared shared)

section Calls

variable (nullValue : V)

/-- The source's `op_OVERLAY_SET`, which pushes the overlay back as the addition left it. -/
def overlaySet (overlay : Option (Overlay V)) (key : Option KeyValue) (value : Option V) :
    Except String (Overlay V) :=
  match overlayToString key with
  | none => .error "overlay.set requires a string key"
  | some key =>
    match overlay with
    | none => .error "overlay.set requires an overlay"
    | some overlay =>
      match overlay.shadows with
      | none => .error "overlay.set: overlay has no shadows field"
      | some shadows =>
        -- Nothing is asked of the addition, so one that is refused is not reported.
        let shadows := shadows.addNamedItem key.1 key.2 (some (value.getD nullValue))
        .ok { overlay with shadows := some shadows }

/-- The source's `op_OVERLAY_GET`. -/
def overlayGet (overlay : Option (Overlay V)) (key : Option KeyValue) : Except String (Option V) :=
  match overlayToString key with
  | none => .error "overlay.get requires a string key"
  | some key =>
    match overlay with
    | none => .error "overlay.get requires an overlay"
    | some overlay =>
      match overlay.shadows.bind fun shadows => shadows.find key.1 with
      | some shadowItem => .ok (getValue shadowItem)
      | none =>
        match overlay.shared.bind fun shared => shared.find key.1 with
        | some sharedItem => .ok (getValue sharedItem)
        | none => .ok (some nullValue)

/-- The source's `op_OVERLAY_HAS`, with whether it pushes a list with the word `ok` or a null value. -/
def overlayHas (overlay : Option (Overlay V)) (key : Option KeyValue) : Except String Bool :=
  match overlayToString key with
  | none => .error "overlay.has requires a string key"
  | some key =>
    match overlay with
    | none => .error "overlay.has requires an overlay"
    | some overlay =>
      let found := (overlay.shadows.bind fun shadows => shadows.find key.1).isSome
      .ok (found || (overlay.shared.bind fun shared => shared.find key.1).isSome)

def listUnseen (listed visited : List Name) : List Name :=
  visited.foldl (fun listed name => if name ∈ listed then listed else listed ++ [name]) listed

def fieldNames (field : Option (Layer V)) : List Name :=
  (field.map Layer.forEachTree).getD []

/-- The source's `op_OVERLAY_KEYS`. -/
def overlayKeys (overlay : Option (Overlay V)) : Except String (List Name) :=
  match overlay with
  | none => .error "overlay.keys requires an overlay"
  | some overlay =>
    .ok (listUnseen (listUnseen [] (fieldNames overlay.shadows)) (fieldNames overlay.shared))

/-- The source's `op_OVERLAY_SHADOW_KEYS`. -/
def overlayShadowKeys (overlay : Option (Overlay V)) : Except String (List Name) :=
  match overlay with
  | none => .error "overlay.shadow_keys requires an overlay"
  | some overlay => .ok (fieldNames overlay.shadows)

/-- The source's `op_OVERLAY_COMMIT`. -/
def overlayCommit (overlay : Option (Overlay V)) : Except String (Layer V) :=
  match overlay with
  | none => .error "overlay.commit requires an overlay"
  | some overlay => .ok (overlay.shadows.getD .createNullValue)

/-- The source's `op_FREEZE` on an overlay, which also reaches what its fields hold. -/
def freeze (overlay : Overlay V) : Overlay V :=
  if overlay.isReadOnly then overlay
  else ⟨true, overlay.shared.map Layer.setReadOnly, overlay.shadows.map Layer.setReadOnly⟩

/-- A call with an overlay on the stack. -/
inductive Call (V : Type u) where
  | set (key : Option KeyValue) (value : Option V)
  | get (key : Option KeyValue)
  | has (key : Option KeyValue)
  | keys
  | shadowKeys
  | commit
  | freeze

/-- An overlay in use, and what the last set of each name that took effect wrote. -/
structure OverlayRun (V : Type u) where
  overlay : Overlay V
  written : Name → Option V

namespace OverlayRun

def start (base : Layer V) : OverlayRun V :=
  ⟨.ofShared base, fun _ => none⟩

/-- What a call leaves. Only a set and a freeze leave another overlay than they found. -/
def step (run : OverlayRun V) (call : Call V) : Option (OverlayRun V) :=
  match call with
  | .set key value =>
    match overlayToString key, overlaySet nullValue (some run.overlay) key value with
    | some key, .ok overlay =>
      some
        { overlay
          written := fun name =>
            if run.overlay.isReadOnly = false ∧ name = key.1 then some (value.getD nullValue)
            else run.written name }
    | _, _ => some run
  | .freeze => some { run with overlay := Overlays.freeze run.overlay }
  | _ => some run

/-- A set has put its value before the earlier ones of its key. -/
def TakesEffect (run : OverlayRun V) (key : Option KeyValue) (value : Option V) : Prop :=
  ∃ name overlay, overlayToString key = some name ∧
    overlaySet nullValue (some run.overlay) key value = .ok overlay ∧
    (overlay.shadows.bind fun shadows => shadows.find name.1) =
      some (some (value.getD nullValue) ::
        (run.overlay.shadows.bind fun shadows => shadows.find name.1).getD [])

/-- A set that does not take effect reports an error. -/
def Reported (run : OverlayRun V) (call : Call V) : Prop :=
  ∀ key value, call = .set key value →
    run.TakesEffect nullValue key value ∨
      ∃ message, overlaySet nullValue (some run.overlay) key value = .error message

/-- What is read under a name: what was last written, or else the shared value's entry. -/
def expected (run : OverlayRun V) (base : Layer V) (name : Name) : Option V :=
  match run.written name with
  | some value => some value
  | none => ((base.find name).map getValue).getD (some nullValue)

/-- What a call does, in terms of the shared value and of what has been written. -/
def Lawful (base : Layer V) (run : OverlayRun V) (call : Call V) : Prop :=
  (∀ next, run.step nullValue call = some next →
    next.overlay.shared.map Layer.contents = some base.contents) ∧
  match call with
  | .set key value =>
    if run.overlay.isReadOnly then
      -- A frozen overlay is pushed back as it was, without an error.
      (overlayToString key).isSome = true →
        overlaySet nullValue (some run.overlay) key value = .ok run.overlay
    else run.Reported nullValue (.set key value)
  | .get key => ∀ name, overlayToString key = some name →
    overlayGet nullValue (some run.overlay) key = .ok (run.expected nullValue base name.1)
  | .has key => ∀ name, overlayToString key = some name → ∃ found listed,
    overlayHas (some run.overlay) key = .ok found ∧
      overlayKeys (some run.overlay) = .ok listed ∧ (found = true ↔ name.1 ∈ listed)
  | .keys => ∃ listed, overlayKeys (some run.overlay) = .ok listed ∧ listed.Nodup ∧
    ∀ name, name ∈ listed ↔
      (run.written name).isSome = true ∨ (base.find name).isSome = true
  | .shadowKeys => ∃ listed, overlayShadowKeys (some run.overlay) = .ok listed ∧ listed.Nodup ∧
    ∀ name, name ∈ listed ↔ (run.written name).isSome = true
  | .commit => ∃ shadows, overlayCommit (some run.overlay) = .ok shadows ∧
    ∀ name, (shadows.find name).map getValue = (run.written name).map some
  | .freeze => True

/-- The shadows hold what was written, over a shared value that is as it was. -/
structure Follows (base : Layer V) (run : OverlayRun V) (shared shadows : Layer V) : Prop where
  isShared : run.overlay.shared = some shared
  isShadows : run.overlay.shadows = some shadows
  unchanged : shared.contents = base.contents
  keyed : shadows.isListMode = false
  frozen : shadows.isReadOnly = run.overlay.isReadOnly
  holds : ∀ name, (shadows.find name).map getValue = (run.written name).map some

end OverlayRun

end Calls

namespace Layer

variable {layer other : Layer V} {name : Name}

theorem find_eq (layer : Layer V) (name : Name) :
    layer.find name = layer.contents.bind fun tree => (tree.find name).join := by
  unfold find contents
  split <;> rfl

theorem find_congr (same : layer.contents = other.contents) (name : Name) :
    layer.find name = other.find name := by
  rw [find_eq, find_eq, same]

theorem mem_forEachTree : name ∈ layer.forEachTree ↔ (layer.find name).isSome = true := by
  unfold forEachTree find
  split
  · simp
  · exact layer.kept.mem_visitedNames

theorem nodup_forEachTree (layer : Layer V) : layer.forEachTree.Nodup := by
  unfold forEachTree
  split
  · exact List.nodup_nil
  · exact layer.kept.ordered.visitedNames_nodup

theorem find_addNamedItem (keyed : layer.isListMode = false) (writable : layer.isReadOnly = false)
    (named : name ≠ []) (value : Option V) (sought : Name) :
    (layer.addNamedItem name named value).find sought =
      if sought = name then some (value :: (layer.find name).getD []) else layer.find sought := by
  have found := (layer.kept.addNamedItem named value).2 sought
  simpa only [addNamedItem, find, keyed, writable, Bool.false_eq_true, if_false] using found

theorem addNamedItem_of_isReadOnly (frozen : layer.isReadOnly = true) (named : name ≠ [])
    (value : Option V) : layer.addNamedItem name named value = layer := by
  simp only [addNamedItem, frozen, if_true, ite_self]

theorem addNamedItem_flags (layer : Layer V) (named : name ≠ []) (value : Option V) :
    (layer.addNamedItem name named value).isListMode = layer.isListMode ∧
      (layer.addNamedItem name named value).isReadOnly = layer.isReadOnly := by
  unfold addNamedItem
  split
  · exact ⟨rfl, rfl⟩
  split <;> exact ⟨rfl, rfl⟩

end Layer

theorem listUnseen_spec {listed : List Name} (distinct : listed.Nodup) (visited : List Name) :
    (listUnseen listed visited).Nodup ∧
      ∀ name, name ∈ listUnseen listed visited ↔ name ∈ listed ∨ name ∈ visited := by
  unfold listUnseen
  induction visited generalizing listed with
  | nil => simpa using distinct
  | cons first rest ih =>
    rw [List.foldl_cons]
    split
    · next seen =>
      obtain ⟨nodup, mem⟩ := ih distinct
      refine ⟨nodup, fun name => (mem name).trans ?_⟩
      -- The name that is passed over is among those listed.
      rw [List.mem_cons]
      constructor
      · exact Or.imp_right Or.inr
      · rintro (old | rfl | later)
        · exact Or.inl old
        · exact Or.inl seen
        · exact Or.inr later
    · next unseen =>
      have longer : (listed ++ [first]).Nodup :=
        distinct.append (List.nodup_singleton _) (by simpa using unseen)
      obtain ⟨nodup, mem⟩ := ih longer
      refine ⟨nodup, fun name => (mem name).trans ?_⟩
      simp [or_assoc]

namespace OverlayRun

variable {nullValue : V} {base shared shadows : Layer V} {run next : OverlayRun V}
  {key : Option KeyValue} {value : Option V}

theorem follows_start (base : Layer V) : (start base).Follows base base .createNullValue where
  isShared := rfl
  isShadows := rfl
  unchanged := rfl
  keyed := rfl
  frozen := rfl
  holds name := by
    show ((new_.find name).join).map getValue = none
    rw [join_find_new, Option.map_none]

theorem overlaySet_eq {name : { key : Name // key ≠ [] }} (follows : run.Follows base shared shadows)
    (text : overlayToString key = some name) :
    overlaySet nullValue (some run.overlay) key value =
      .ok { run.overlay with
        shadows := some (shadows.addNamedItem name.1 name.2 (some (value.getD nullValue))) } := by
  simp only [overlaySet, text, follows.isShadows]

theorem overlaySet_error (noText : overlayToString key = none) :
    overlaySet nullValue (some run.overlay) key value =
      .error "overlay.set requires a string key" := by
  simp only [overlaySet, noText]

theorem Follows.set {name : { key : Name // key ≠ [] }} (follows : run.Follows base shared shadows)
    (text : overlayToString key = some name)
    (stepped : run.step nullValue (.set key value) = some next) :
    next.Follows base shared
      (shadows.addNamedItem name.1 name.2 (some (value.getD nullValue))) := by
  simp only [step, text, overlaySet_eq follows text] at stepped
  obtain rfl := Option.some.inj stepped
  obtain ⟨mode, flag⟩ := shadows.addNamedItem_flags name.2 (some (value.getD nullValue))
  refine ⟨follows.isShared, rfl, follows.unchanged, mode.trans follows.keyed,
    flag.trans follows.frozen, fun sought => ?_⟩
  cases writable : run.overlay.isReadOnly with
  | true =>
    -- The addition is refused, and nothing counts as written.
    rw [Layer.addNamedItem_of_isReadOnly (follows.frozen.trans writable)]
    simpa only [Bool.true_eq_false, false_and, if_false] using follows.holds sought
  | false =>
    rw [Layer.find_addNamedItem follows.keyed (follows.frozen.trans writable)]
    simp only [true_and]
    split
    · rfl
    · exact follows.holds sought

theorem Follows.freeze (follows : run.Follows base shared shadows) :
    ∃ shared shadows, { run with overlay := Overlays.freeze run.overlay }.Follows base shared
      shadows := by
  unfold Overlays.freeze
  split
  · exact ⟨shared, shadows, follows⟩
  · refine ⟨shared.setReadOnly, shadows.setReadOnly, ?_, ?_, follows.unchanged, follows.keyed, rfl,
      follows.holds⟩
    · rw [follows.isShared, Option.map_some]
    · rw [follows.isShadows, Option.map_some]

theorem Follows.step {call : Call V} (follows : run.Follows base shared shadows)
    (stepped : run.step nullValue call = some next) :
    ∃ shared shadows, next.Follows base shared shadows := by
  cases call with
  | set key value =>
    cases text : overlayToString key with
    | none =>
      simp only [OverlayRun.step, text, Option.some.injEq] at stepped
      exact stepped ▸ ⟨shared, shadows, follows⟩
    | some name => exact ⟨_, _, follows.set text stepped⟩
  | freeze => exact Option.some.inj stepped ▸ follows.freeze
  | get | has | keys | shadowKeys | commit =>
    exact Option.some.inj stepped ▸ ⟨shared, shadows, follows⟩

theorem Follows.reported (follows : run.Follows base shared shadows)
    (writable : run.overlay.isReadOnly = false) :
    run.Reported nullValue (.set key value) := by
  rintro _ _ ⟨rfl, rfl⟩
  cases text : overlayToString key with
  | none => exact Or.inr ⟨_, overlaySet_error text⟩
  | some name =>
    refine Or.inl ⟨name, _, text, overlaySet_eq follows text, ?_⟩
    simp only [follows.isShadows, Option.bind_some]
    rw [Layer.find_addNamedItem follows.keyed (follows.frozen.trans writable), if_pos rfl]

theorem Follows.refused (follows : run.Follows base shared shadows)
    (frozen : run.overlay.isReadOnly = true) (text : (overlayToString key).isSome = true) :
    overlaySet nullValue (some run.overlay) key value = .ok run.overlay := by
  obtain ⟨name, text⟩ := Option.isSome_iff_exists.mp text
  rw [overlaySet_eq follows text, Layer.addNamedItem_of_isReadOnly (follows.frozen.trans frozen),
    ← follows.isShadows]

theorem Follows.isSome_find (follows : run.Follows base shared shadows) (name : Name) :
    (shadows.find name).isSome = (run.written name).isSome := by
  rw [← Option.isSome_map (f := getValue), follows.holds, Option.isSome_map]

theorem Follows.get {name : { key : Name // key ≠ [] }} (follows : run.Follows base shared shadows)
    (text : overlayToString key = some name) :
    overlayGet nullValue (some run.overlay) key = .ok (run.expected nullValue base name.1) := by
  have holds := follows.holds name.1
  simp only [overlayGet, text, follows.isShadows, follows.isShared, Option.bind_some, expected,
    Layer.find_congr follows.unchanged]
  cases shadowItem : shadows.find name.1 with
  | some item =>
    rw [shadowItem] at holds
    cases written : run.written name.1 with
    | none => simp [written] at holds
    | some value => simpa [written] using holds
  | none =>
    rw [shadowItem] at holds
    cases written : run.written name.1 with
    | some value => simp [written] at holds
    | none => cases base.find name.1 <;> rfl

theorem Follows.keys (follows : run.Follows base shared shadows) :
    ∃ listed, overlayKeys (some run.overlay) = .ok listed ∧ listed.Nodup ∧
      ∀ name, name ∈ listed ↔
        (run.written name).isSome = true ∨ (base.find name).isSome = true := by
  obtain ⟨shadowsOnce, fromShadows⟩ := listUnseen_spec List.nodup_nil shadows.forEachTree
  obtain ⟨once, fromBoth⟩ := listUnseen_spec shadowsOnce shared.forEachTree
  refine ⟨_, ?_, once, fun name => ?_⟩
  · simp only [overlayKeys, fieldNames, follows.isShadows, follows.isShared, Option.map_some,
      Option.getD_some]
  · rw [fromBoth, fromShadows, Layer.mem_forEachTree, Layer.mem_forEachTree, follows.isSome_find,
      Layer.find_congr follows.unchanged]
    simp only [List.not_mem_nil, false_or]

theorem Follows.has {name : { key : Name // key ≠ [] }} (follows : run.Follows base shared shadows)
    (text : overlayToString key = some name) : ∃ found listed,
    overlayHas (some run.overlay) key = .ok found ∧
      overlayKeys (some run.overlay) = .ok listed ∧ (found = true ↔ name.1 ∈ listed) := by
  obtain ⟨listed, keys, -, mem⟩ := follows.keys
  have found : overlayHas (some run.overlay) key =
      .ok ((shadows.find name.1).isSome || (shared.find name.1).isSome) := by
    simp only [overlayHas, text, follows.isShadows, follows.isShared, Option.bind_some]
  refine ⟨_, listed, found, keys, ?_⟩
  rw [mem, Bool.or_eq_true, follows.isSome_find, Layer.find_congr follows.unchanged]

theorem Follows.lawful (follows : run.Follows base shared shadows) (call : Call V) :
    run.Lawful nullValue base call := by
  constructor
  · intro next stepped
    obtain ⟨shared, shadows, after⟩ := follows.step stepped
    rw [after.isShared, Option.map_some, after.unchanged]
  cases call with
  | set key value =>
    show ite _ _ _
    split
    · next frozen => exact follows.refused frozen
    · next writable => exact follows.reported (Bool.eq_false_iff.mpr writable)
  | get key => exact fun name text => follows.get text
  | has key => exact fun name text => follows.has text
  | keys => exact follows.keys
  | shadowKeys =>
    refine ⟨shadows.forEachTree, ?_, shadows.nodup_forEachTree, fun name => ?_⟩
    · simp only [overlayShadowKeys, fieldNames, follows.isShadows, Option.map_some, Option.getD_some]
    · rw [Layer.mem_forEachTree, follows.isSome_find]
  | commit =>
    refine ⟨shadows, ?_, follows.holds⟩
    simp only [overlayCommit, follows.isShadows, Option.getD_some]
  | freeze => trivial

end OverlayRun

/-- On an overlay over any value, every call does what is said of it, whatever calls came before. -/
theorem overlay_lawful (nullValue : V) (base : Layer V) (calls : List (Call V)) :
    StepsMeet (OverlayRun.step nullValue) (OverlayRun.Lawful nullValue base) (.start base) calls := by
  -- The shadows keep holding what was written, and this decides every call.
  have kept : ∀ (run : OverlayRun V) (call : Call V) (next : OverlayRun V),
      (∃ shared shadows, run.Follows base shared shadows) → True →
      run.step nullValue call = some next →
      (∃ shared shadows, next.Follows base shared shadows) ∧ run.Lawful nullValue base call := by
    rintro run call next ⟨shared, shadows, follows⟩ - stepped
    exact ⟨follows.step stepped, follows.lawful call⟩
  exact stepsMeet_of_invariant kept calls _ ⟨base, _, OverlayRun.follows_start base⟩
    (stepsMeet_of_forall calls _ fun _ _ _ => trivial)

/-- A set on a frozen overlay does not take effect, and reports no error. -/
theorem overlay_lawful_fails : ¬ ∀ (base : Layer Unit) (calls : List (Call Unit)),
    StepsMeet (OverlayRun.step ()) (OverlayRun.Reported ()) (.start base) calls := by
  intro reported
  have meets := reported .createNullValue
    [.freeze, .set (some ⟨ascii "k", false⟩) (some ())]
  obtain ⟨-, afterFreeze⟩ := meets _ rfl
  obtain ⟨judged, -⟩ := afterFreeze _ rfl
  obtain ⟨_, overlay, text, set, effect⟩ | ⟨_, error⟩ := judged _ _ rfl
  · cases text
    cases set
    cases effect
  · cases error

end Overlays

end AgentC

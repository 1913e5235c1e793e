import AgentC.Cartographer.StructLaws

/-! Boxing a struct and unboxing it again, and the fields for which that gives back what went in. -/

namespace AgentC.Cartographer

def Node.follow (node : Node) : List Name → Option Node
  | [] => some node
  | name :: path => (node.getValue name).bind fun child => child.follow path

/-- Nothing in a type definition reads like a number or a pointer. -/
def Node.Annotates (typeDef : Node) : Prop :=
  ∀ path node, typeDef.follow path = some node →
    (∀ n, node ≠ .string (some (decimal n))) ∧ ∀ bytes, bytes.length = 8 → node ≠ .binary bytes

structure Boxable (typeDef source : Node) (size : Nat) (fields : Fields) : Prop where
  annotates : typeDef.Annotates
  sized : (ltvBinaryInt (typeDef.getValue (ascii "size"))).toInt = size
  positive : 0 < size
  defined : fields.Defined (fieldEntries typeDef)
  laidOut : fields.LaidOut size
  held : fields.HeldBy source

/--
Boxing a value succeeds, and unboxing gives every field at every depth what it was in the value.

Access to memory outside the struct would be a fault.
-/
def RoundTrips (floats : Floats) (heap : Heap) (calloc : UInt64) (typeDef source : Node)
    (fields : Fields) : Prop :=
  ∃ boxed heap' result, box floats heap calloc (some source) (some typeDef) = .ok (some boxed, heap') ∧
    unbox floats heap' (some boxed) = .ok (some result) ∧ fields.HeldBy result

def Widened (type : List UInt8) : Prop :=
  ∃ own, lp64Int type = some own ∧ own.size < scalarSize type

/--
Fields that come back as they were.

None of them has the name of the annotation, no number is outside the type that its own type is
taken for, and a type that is taken for a larger one has room for that and leaves its neighbours as
they are.
-/
structure Harmless (size : Nat) (fields : Fields) : Prop where
  named : ascii "__type" ∉ fields.names
  readable : ∀ int ∈ fields.ints 0, Readable int.2.1 int.2.2
  widened : ∀ int ∈ fields.ints 0, Widened int.2.1 →
    (⟨int.1, leBytes (scalarSize int.2.1) int.2.2⟩ : Block).Inside size ∧
    ∀ other ∈ fields.blocks 0, (⟨int.1, leBytes (scalarSize int.2.1) int.2.2⟩ : Block).Agree other

section Layout

mutual

def Fields.narrow (base : Nat) : Fields → List Block
  | .nil => []
  | .cons _ offset content rest => content.narrow (base + offset) ++ rest.narrow base

def Content.narrow (place : Nat) : Content → List Block
  | .int type n =>
    if (lp64Int type).map IntType.size = some (scalarSize type) then
      [⟨place, leBytes (scalarSize type) n⟩]
    else []
  | .pointer _ bytes => [⟨place, bytes⟩]
  | .struct _ _ fields => fields.narrow place

end

theorem Fields.range_inside :
    ∀ (fields : Fields) {size : Nat}, fields.LaidOut size → ∀ range ∈ fields.ranges,
    range.1 + range.2 ≤ size
  | .nil, _, _, _, member => nomatch member
  | .cons _ offset content rest, size, laid, range, member => by
    obtain ⟨-, -, inside, -, laid⟩ := laid
    obtain rfl | member := List.mem_cons.mp member
    · exact inside
    · exact rest.range_inside laid range member

mutual

theorem Fields.narrow_within : ∀ (fields : Fields) {base size : Nat}, fields.LaidOut size →
    ∀ block ∈ fields.narrow base, ∃ range ∈ fields.ranges, block.Within (base + range.1) range.2
  | .nil, _, _, _, _, member => nomatch member
  | .cons name offset content rest, base, size, laid, block, member => by
    obtain ⟨-, content', -, -, laid⟩ := laid
    obtain member | member := List.mem_append.mp member
    · exact ⟨(offset, content.size), List.mem_cons_self, content.narrow_within content' block member⟩
    · obtain ⟨range, member, within⟩ := rest.narrow_within laid block member
      exact ⟨range, List.mem_cons_of_mem _ member, within⟩

theorem Content.narrow_within : ∀ (content : Content) {place : Nat}, content.LaidOut →
    ∀ block ∈ content.narrow place, block.Within place content.size
  | .int type n, place, _, block, member => by
    unfold Content.narrow at member
    split at member
    · next same =>
      obtain rfl := List.mem_singleton.mp member
      simp only [Block.Within, Content.size, same, Option.getD_some, length_leBytes, Nat.le_refl,
        and_self]
    · cases member
  | .pointer type bytes, place, laid, block, member => by
    obtain rfl := List.mem_singleton.mp member
    exact ⟨Nat.le_refl _, (congrArg (place + ·) laid.2).le⟩
  | .struct type size fields, place, laid, block, member => by
    obtain ⟨-, -, laid⟩ := laid
    obtain ⟨range, member, low, high⟩ := fields.narrow_within laid block member
    have inside := fields.range_inside laid range member
    simp only [Block.Within, Content.size]
    omega

end

mutual

theorem Fields.narrow_apart : ∀ (fields : Fields) {base size : Nat}, fields.LaidOut size →
    ∀ block ∈ fields.narrow base, ∀ other ∈ fields.narrow base, block = other ∨ block.Apart other
  | .nil, _, _, _, _, member, _, _ => nomatch member
  | .cons name offset content rest, base, size, laid, block, member, other, member' => by
    obtain ⟨-, content', -, apart, laid⟩ := laid
    -- A block of the first field and one of the others lie in ranges that are apart.
    have across : ∀ first ∈ content.narrow (base + offset), ∀ later ∈ rest.narrow base,
        first.Apart later := by
      intro first isFirst later isLater
      obtain ⟨low, high⟩ := content.narrow_within content' first isFirst
      obtain ⟨range, inRest, low', high'⟩ := rest.narrow_within laid later isLater
      have away := apart range inRest
      unfold Block.Apart
      omega
    obtain member | member := List.mem_append.mp member
    · obtain member' | member' := List.mem_append.mp member'
      · exact content.narrow_apart content' block member other member'
      · exact Or.inr (across block member other member')
    · obtain member' | member' := List.mem_append.mp member'
      · exact Or.inr (across other member' block member).symm
      · exact rest.narrow_apart laid block member other member'

theorem Content.narrow_apart : ∀ (content : Content) {place : Nat}, content.LaidOut →
    ∀ block ∈ content.narrow place, ∀ other ∈ content.narrow place, block = other ∨ block.Apart other
  | .int type n, place, _, block, member, other, member' => by
    unfold Content.narrow at member member'
    split at member
    · next same =>
      rw [if_pos same] at member'
      exact Or.inl ((List.mem_singleton.mp member).trans (List.mem_singleton.mp member').symm)
    · cases member
  | .pointer type bytes, place, _, block, member, other, member' =>
    Or.inl ((List.mem_singleton.mp member).trans (List.mem_singleton.mp member').symm)
  | .struct type size fields, place, laid, block, member, other, member' =>
    fields.narrow_apart laid.2.2 block member other member'

end

mutual

theorem Fields.block_cases : ∀ (fields : Fields) {base size : Nat}, fields.LaidOut size →
    ∀ block ∈ fields.blocks base, block ∈ fields.narrow base ∨
      ∃ int ∈ fields.ints base, Widened int.2.1 ∧ block = ⟨int.1, leBytes (scalarSize int.2.1) int.2.2⟩
  | .nil, _, _, _, _, member => nomatch member
  | .cons name offset content rest, base, size, laid, block, member => by
    obtain ⟨-, content', -, -, laid⟩ := laid
    obtain member | member := List.mem_append.mp member
    · obtain narrow | ⟨int, member, wide⟩ := content.block_cases content' block member
      · exact Or.inl (List.mem_append_left _ narrow)
      · exact Or.inr ⟨int, List.mem_append_left _ member, wide⟩
    · obtain narrow | ⟨int, member, wide⟩ := rest.block_cases laid block member
      · exact Or.inl (List.mem_append_right _ narrow)
      · exact Or.inr ⟨int, List.mem_append_right _ member, wide⟩

theorem Content.block_cases : ∀ (content : Content) {place : Nat}, content.LaidOut →
    ∀ block ∈ content.blocks place, block ∈ content.narrow place ∨
      ∃ int ∈ content.ints place, Widened int.2.1 ∧
        block = ⟨int.1, leBytes (scalarSize int.2.1) int.2.2⟩
  | .int type n, place, laid, block, member => by
    obtain ⟨own, is, -⟩ := laid
    obtain rfl := List.mem_singleton.mp member
    obtain same | larger := (scalarSize_pos is).2.eq_or_lt
    · refine Or.inl ?_
      rw [Content.narrow, if_pos (by rw [is, Option.map_some, same])]
      exact List.mem_singleton_self _
    · exact Or.inr ⟨(place, type, n), List.mem_singleton_self _, ⟨own, is, larger⟩, rfl⟩
  | .pointer type bytes, place, _, block, member => Or.inl member
  | .struct type size fields, place, laid, block, member =>
    fields.block_cases laid.2.2 block member

end

mutual

theorem Fields.int_block : ∀ (fields : Fields) {base : Nat}, ∀ int ∈ fields.ints base,
    (⟨int.1, leBytes (scalarSize int.2.1) int.2.2⟩ : Block) ∈ fields.blocks base
  | .nil, _, _, member => nomatch member
  | .cons _ offset content rest, base, int, member => by
    obtain member | member := List.mem_append.mp member
    · exact List.mem_append_left _ (content.int_block int member)
    · exact List.mem_append_right _ (rest.int_block int member)

theorem Content.int_block : ∀ (content : Content) {place : Nat}, ∀ int ∈ content.ints place,
    (⟨int.1, leBytes (scalarSize int.2.1) int.2.2⟩ : Block) ∈ content.blocks place
  | .int type n, place, int, member => by
    obtain rfl := List.mem_singleton.mp member
    exact List.mem_singleton_self _
  | .pointer _ _, _, _, member => nomatch member
  | .struct _ _ fields, _, int, member => fields.int_block int member

end

theorem Fields.fit_iff (fields : Fields) {size : Nat} (laid : fields.LaidOut size) :
    ((∀ block ∈ fields.blocks 0, block.Inside size) ∧
      ∀ block ∈ fields.blocks 0, ∀ other ∈ fields.blocks 0, block.Agree other) ↔
    ∀ int ∈ fields.ints 0, Widened int.2.1 →
      (⟨int.1, leBytes (scalarSize int.2.1) int.2.2⟩ : Block).Inside size ∧
      ∀ other ∈ fields.blocks 0, (⟨int.1, leBytes (scalarSize int.2.1) int.2.2⟩ : Block).Agree other := by
  constructor
  · rintro ⟨inside, agree⟩ int member -
    have isBlock := fields.int_block int member
    exact ⟨inside _ isBlock, agree _ isBlock⟩
  · intro wide
    constructor
    · intro block member
      obtain narrow | ⟨int, isInt, widened, rfl⟩ := fields.block_cases laid block member
      · obtain ⟨range, isRange, low, high⟩ := fields.narrow_within laid block narrow
        have inside := fields.range_inside laid range isRange
        unfold Block.Inside
        omega
      · exact (wide int isInt widened).1
    · intro block member other member'
      obtain narrow | ⟨int, isInt, widened, rfl⟩ := fields.block_cases laid block member
      · obtain narrow' | ⟨int, isInt, widened, rfl⟩ := fields.block_cases laid other member'
        · obtain rfl | apart := fields.narrow_apart laid block narrow other narrow'
          · exact fun i byte byte' has has' => Option.some.inj (has.symm.trans has')
          · exact apart.agree
        · exact ((wide int isInt widened).2 block member).symm
      · exact (wide int isInt widened).2 other member'

end Layout

section Annotation

theorem Node.Annotates.getValue {node child : Node} {name : Name} (annotates : node.Annotates)
    (found : node.getValue name = some child) : child.Annotates :=
  fun path value followed => annotates (name :: path) value (by rw [Node.follow, found]; exact followed)

mutual

theorem Fields.not_held : ∀ (fields : Fields) {size : Nat} {node : Node}, node.Annotates →
    fields.LaidOut size → fields.names ≠ [] → ¬ fields.HeldBy node
  | .nil, _, _, _, _, some_ => fun _ => some_ rfl
  | .cons name offset content rest, size, node, annotates, laid, _ => by
    rintro ⟨⟨value, stored, holds⟩, -⟩
    exact Content.not_held content (annotates.getValue stored) laid.2.1 holds

theorem Content.not_held : ∀ (content : Content) {node : Node}, node.Annotates → content.LaidOut →
    ¬ content.HeldBy node
  | .int _ n, node, annotates, _ => (annotates [] node rfl).1 n
  | .pointer _ bytes, node, annotates, laid => (annotates [] node rfl).2 bytes laid.2
  | .struct _ _ fields, _, annotates, laid =>
    Fields.not_held fields annotates laid.2.2 laid.2.1.2

end

theorem Fields.held_of_mem : ∀ (fields : Fields) {size : Nat} {node : Node} {name : Name},
    fields.LaidOut size → fields.HeldBy node → name ∈ fields.names →
    ∃ content value, content.LaidOut ∧ node.getValue name = some value ∧ Content.HeldBy value content
  | .nil, _, _, _, _, _, member => nomatch member
  | .cons name' offset content rest, size, node, name, laid, held, member => by
    obtain ⟨-, content', -, -, laid⟩ := laid
    obtain ⟨⟨value, stored, holds⟩, held⟩ := held
    obtain rfl | member := List.mem_cons.mp member
    · exact ⟨content, value, content', stored, holds⟩
    · exact rest.held_of_mem laid held member

theorem Fields.held_congr : ∀ (fields : Fields) {node other : Node},
    (∀ name ∈ fields.names, node.getValue name = other.getValue name) →
    (fields.HeldBy node ↔ fields.HeldBy other)
  | .nil, _, _, _ => Iff.rfl
  | .cons name offset content rest, node, other, same => by
    obtain ⟨own, others⟩ := List.forall_mem_cons.mp same
    rw [Fields.HeldBy, Fields.HeldBy, own, rest.held_congr others]

end Annotation

section RoundTrip

variable {floats : Floats} {heap : Heap} {calloc : UInt64} {typeDef source : Node} {size : Nat}
  {fields : Fields}

def boxedNode (calloc : UInt64) (typeDef : Node) : Node :=
  (createNullValue.addNamedItem (ascii "__ptr") (.binary (pointerBytes calloc))).addNamedItem
    (ascii "__type") typeDef

theorem box_eq (allocated : calloc ≠ 0) (boxable : Boxable typeDef source size fields) :
    box floats heap calloc (some source) (some typeDef) =
      (packStruct floats (some source) typeDef 0 (List.replicate size 0)).bind fun buffer =>
        .ok (some (boxedNode calloc typeDef), Function.update heap calloc (some buffer)) := by
  have positive : ¬ ltvBinaryInt (typeDef.getValue (ascii "size")) ≤ 0 := by
    rw [Int32.le_iff_toInt_le, boxable.sized]
    have some_ := boxable.positive
    have zero : (0 : Int32).toInt = 0 := rfl
    omega
  have length : (ltvBinaryInt (typeDef.getValue (ascii "size"))).toInt.toNat = size := by
    rw [boxable.sized, Int.toNat_natCast]
  simp only [box, positive, allocated, if_false, length]
  rfl

theorem unbox_eq {buffer : List UInt8} (allocated : calloc ≠ 0) :
    unbox floats (Function.update heap calloc (some buffer)) (some (boxedNode calloc typeDef)) =
      (unpackStruct floats typeDef 0 buffer).bind fun result =>
        .ok (some (result.addNamedItem (ascii "__type") typeDef)) := by
  obtain ⟨growing, ptr⟩ := growing_createNullValue.addNamedItem (ascii "__ptr") (by decide)
    (.binary (pointerBytes calloc))
  obtain ⟨-, type⟩ := growing.addNamedItem (ascii "__type") (by decide) typeDef
  have ptrVal : (boxedNode calloc typeDef).getValue (ascii "__ptr") =
      some (.binary (pointerBytes calloc)) := by
    rw [boxedNode, type, if_neg (by decide), ptr, if_pos rfl]
  have typeVal : (boxedNode calloc typeDef).getValue (ascii "__type") = some typeDef := by
    rw [boxedNode, type, if_pos rfl]
  have address : UInt64.ofNat (ofWordBytes (pointerBytes calloc)) = calloc := by
    rw [pointerBytes, ofWordBytes_wordBytes calloc.toNat_lt, UInt64.ofNat_toNat]
  have eight : ¬ (pointerBytes calloc).length ≠ 8 := not_not.mpr (length_wordBytes ..)
  simp only [unbox, ptrVal, eight, if_false, address, allocated, typeVal, Function.update_self]
  rfl

theorem readBack_iff_fitting (allocated : calloc ≠ 0) (boxable : Boxable typeDef source size fields) :
    RoundTrips floats heap calloc typeDef source fields ↔ ∃ buffer node,
      packStruct floats (some source) typeDef 0 (List.replicate size 0) = .ok buffer ∧
      unpackStruct floats typeDef 0 buffer = .ok node ∧
      fields.HeldBy (node.addNamedItem (ascii "__type") typeDef) := by
  constructor
  · rintro ⟨boxed, heap', result, boxing, unboxing, held⟩
    rw [box_eq allocated boxable] at boxing
    obtain ⟨buffer, packed, same⟩ := bind_eq_ok.mp boxing
    cases same
    rw [unbox_eq allocated] at unboxing
    obtain ⟨node, unpacked, same⟩ := bind_eq_ok.mp unboxing
    cases same
    exact ⟨buffer, node, packed, unpacked, held⟩
  · rintro ⟨buffer, node, packed, unpacked, held⟩
    refine ⟨boxedNode calloc typeDef, Function.update heap calloc (some buffer),
      node.addNamedItem (ascii "__type") typeDef, ?_, ?_, held⟩
    · rw [box_eq allocated boxable, packed]
      rfl
    · rw [unbox_eq allocated, unpacked]
      rfl

theorem held_annotated {node : Node} (growing : node.Growing)
    (boxable : Boxable typeDef source size fields) :
    fields.HeldBy (node.addNamedItem (ascii "__type") typeDef) ↔
      ascii "__type" ∉ fields.names ∧ fields.HeldBy node := by
  obtain ⟨-, given⟩ := growing.addNamedItem (ascii "__type") (by decide) typeDef
  by_cases member : ascii "__type" ∈ fields.names
  · simp only [member, not_true, false_and, iff_false]
    intro held
    obtain ⟨content, value, laid, stored, holds⟩ := fields.held_of_mem boxable.laidOut held member
    -- What the item gives is the type definition.
    rw [given, if_pos rfl, Option.some.injEq] at stored
    subst stored
    exact content.not_held boxable.annotates laid holds
  · simp only [member, not_false_iff, true_and]
    refine fields.held_congr fun name isField => ?_
    have different : name ≠ ascii "__type" := fun same => member (same ▸ isField)
    rw [given, if_neg different]

/-- Boxing and unboxing gives back what went in exactly when the fields are harmless. -/
theorem boxing_round_trip_iff (floats : Floats) (heap : Heap) (allocated : calloc ≠ 0)
    (boxable : Boxable typeDef source size fields) :
    RoundTrips floats heap calloc typeDef source fields ↔ Harmless size fields := by
  have zeros : (List.replicate size (0 : UInt8)).length = size := List.length_replicate ..
  have packs := fun buffer => (congrArg (· = Except.ok buffer)
    (packStruct_eq floats (some source) typeDef 0 (List.replicate size 0))).to_iff.trans
      (fields.pack boxable.defined boxable.held boxable.laidOut)
  -- What unpacking finds in a buffer that the fields have been packed into.
  have unpacks : ∀ buffer, Packed (fields.ints 0) (fields.blocks 0) (List.replicate size 0) buffer →
      ∃ node, unpackStruct floats typeDef 0 buffer = .ok node ∧ node.Growing ∧
        (fields.HeldBy node ↔ ∀ block ∈ fields.blocks 0, ∀ other ∈ fields.blocks 0,
          block.Agree other) := by
    rintro buffer ⟨read, inside, rfl⟩
    have length := length_foldl_overwrite inside
    obtain ⟨node, went, growing, -, holds⟩ := fields.unpack floats boxable.defined
      boxable.laidOut read (by rwa [length]) growing_createNullValue
    exact ⟨node, (unpackStruct_eq floats typeDef 0 _).trans went, growing,
      holds.trans (foldl_overwrite_iff inside)⟩
  rw [readBack_iff_fitting allocated boxable]
  constructor
  · rintro ⟨buffer, node, packed, unpacked, held⟩
    have packed' := (packs buffer).mp packed
    obtain ⟨node', unpacked', growing, holds⟩ := unpacks buffer packed'
    obtain rfl := Except.ok.inj (unpacked'.symm.trans unpacked)
    obtain ⟨named, held⟩ := (held_annotated growing boxable).mp held
    have inside := packed'.inside
    rw [zeros] at inside
    exact ⟨named, packed'.read, (fields.fit_iff boxable.laidOut).mp ⟨inside, holds.mp held⟩⟩
  · rintro ⟨named, readable, widened⟩
    obtain ⟨inside, agree⟩ := (fields.fit_iff boxable.laidOut).mpr widened
    have packed : Packed (fields.ints 0) (fields.blocks 0) (List.replicate size 0) _ :=
      ⟨readable, by rwa [zeros], rfl⟩
    obtain ⟨node, unpacked, growing, holds⟩ := unpacks _ packed
    exact ⟨_, node, (packs _).mpr packed, unpacked,
      (held_annotated growing boxable).mpr ⟨named, holds.mpr agree⟩⟩

end RoundTrip

section Examples

theorem Node.annotates_string {text : List UInt8} (noNumber : decimalPrefix text = none) :
    (Node.string (some text)).Annotates := by
  intro path node followed
  cases path with
  | nil =>
    cases followed
    refine ⟨fun n same => ?_, fun _ _ => (nomatch ·)⟩
    rw [Option.some.inj (Node.string.inj same), decimalPrefix_decimal] at noNumber
    cases noNumber
  | cons name path =>
    have none_ : (Node.string (some text)).getValue name = none := by
      rw [Node.getValue, Node.find, AATree.join_find_new]
      rfl
    rw [Node.follow, none_] at followed
    cases followed

theorem Node.annotates_binary {data : List UInt8} (noPointer : data.length ≠ 8) :
    (Node.binary data).Annotates := by
  intro path node followed
  cases path with
  | nil =>
    cases followed
    exact ⟨fun _ => (nomatch ·), fun _ length same => noPointer (Node.binary.inj same ▸ length)⟩
  | cons name path =>
    have none_ : (Node.binary data).getValue name = none := by
      rw [Node.getValue, Node.find, AATree.join_find_new]
      rfl
    rw [Node.follow, none_] at followed
    cases followed

theorem Node.annotates_dictionary {items : List (Name × Node)} (named : ∀ item ∈ items, item.1 ≠ [])
    (distinct : (items.map Prod.fst).Nodup) (each : ∀ item ∈ items, item.2.Annotates) :
    (Node.dict (AATree.dictionary items)).Annotates := by
  intro path node followed
  cases path with
  | nil =>
    cases followed
    exact ⟨fun _ => (nomatch ·), fun _ _ => (nomatch ·)⟩
  | cons name path =>
    obtain ⟨child, stored, followed⟩ := Option.bind_eq_some_iff.mp followed
    rw [Node.getValue, Node.find, AATree.join_find_dictionary named distinct] at stored
    cases found : items.lookup name with
    | none =>
      rw [found] at stored
      cases stored
    | some value =>
      rw [found] at stored
      cases stored
      exact each _ (mem_of_lookup found) path node followed

def fieldNode (type : List UInt8) (offset : Nat) (bound : List (Name × Node)) : Node :=
  .dict (AATree.dictionary ([(ascii "kind", .string (some (ascii "Field"))),
    (ascii "type", .string (some type)), (ascii "offset", .binary (wordBytes 4 offset))] ++ bound))

/-- The definition of a struct. -/
def structNode (size : Nat) (children : List (Name × Node)) : Node :=
  .dict (AATree.dictionary [(ascii "kind", .string (some (ascii "Struct"))),
    (ascii "size", .binary (wordBytes 4 size)), (ascii "children", .dict (AATree.dictionary children))])

theorem annotates_structNode {size : Nat} {children : List (Name × Node)}
    (named : ∀ child ∈ children, child.1 ≠ []) (distinct : (children.map Prod.fst).Nodup)
    (each : ∀ child ∈ children, child.2.Annotates) : (structNode size children).Annotates := by
  refine Node.annotates_dictionary (by simp [ascii]) (of_decide_eq_true rfl) ?_
  simp only [List.forall_mem_cons]
  exact ⟨Node.annotates_string rfl, Node.annotates_binary (by rw [length_wordBytes]; decide),
    Node.annotates_dictionary named distinct each, List.forall_mem_nil _⟩

theorem annotates_fieldNode {type : List UInt8} (offset : Nat) {bound : List (Name × Node)}
    (noNumber : decimalPrefix type = none) (named : ∀ item ∈ bound, item.1 ≠ [])
    (distinct : ([ascii "kind", ascii "type", ascii "offset"] ++ bound.map Prod.fst).Nodup)
    (each : ∀ item ∈ bound, item.2.Annotates) : (fieldNode type offset bound).Annotates := by
  refine Node.annotates_dictionary (List.forall_mem_append.mpr ⟨by simp [ascii], named⟩) ?_
    (List.forall_mem_append.mpr ⟨?_, each⟩)
  · rw [List.map_append]
    exact distinct
  · simp only [List.forall_mem_cons]
    exact ⟨Node.annotates_string rfl, Node.annotates_string noNumber,
      Node.annotates_binary (by rw [length_wordBytes]; decide), List.forall_mem_nil _⟩

def noFloats : Floats :=
  ⟨fun _ => none, fun _ => none, fun _ => [], fun _ => []⟩

/-- `struct { __pid_t pid; }`, whose only field has four bytes. -/
def pidStruct : Node :=
  structNode 4 [(ascii "pid", fieldNode (ascii "__pid_t") 0 [])]

def pidValue : Node :=
  .dict (AATree.dictionary [(ascii "pid", .string (some (decimal 0)))])

def pidFields : Fields :=
  .cons (ascii "pid") 0 (.int (ascii "__pid_t") 0) .nil

theorem boxable_pid : Boxable pidStruct pidValue 4 pidFields where
  annotates := annotates_structNode (by simp [ascii]) (of_decide_eq_true rfl) (by
    simp only [List.forall_mem_cons]
    exact ⟨annotates_fieldNode 0 rfl (List.forall_mem_nil _) (of_decide_eq_true rfl)
      (List.forall_mem_nil _), List.forall_mem_nil _⟩)
  sized := rfl
  positive := by decide
  defined := ⟨rfl, rfl, rfl, trivial⟩
  laidOut := ⟨⟨by decide, List.not_mem_nil⟩, ⟨⟨4, true⟩, rfl, by decide⟩, by decide,
    List.forall_mem_nil _, trivial⟩
  held := ⟨⟨_, rfl, rfl⟩, trivial⟩

/-- The code takes `__pid_t` for `long`, and writes eight bytes into the four of the struct. -/
theorem boxing_round_trip_fails :
    box noFloats (fun _ => none) 4096 (some pidValue) (some pidStruct) = .error .outside ∧
    ¬ ∀ (calloc : UInt64) (typeDef source : Node) (size : Nat) (fields : Fields), calloc ≠ 0 →
      Boxable typeDef source size fields →
      RoundTrips noFloats (fun _ => none) calloc typeDef source fields := by
  have fault : box noFloats (fun _ => none) 4096 (some pidValue) (some pidStruct) =
      .error .outside := by
    rw [box_eq (by decide) boxable_pid, packStruct_eq]
    rfl
  refine ⟨fault, fun always => ?_⟩
  obtain ⟨boxed, heap', -, boxing, -⟩ := always 4096 _ _ _ _ (by decide) boxable_pid
  rw [fault] at boxing
  cases boxing

/-- `struct pair { unsigned short x; int16_t y; }`. -/
def pairStruct : Node :=
  structNode 4 [(ascii "x", fieldNode (ascii "unsigned short") 0 []),
    (ascii "y", fieldNode (ascii "int16_t") 2 [])]

/-- `struct entry { char *name; struct pair in; long n; }`. -/
def entryStruct : Node :=
  structNode 24 [(ascii "name", fieldNode (ascii "char*") 0 []),
    (ascii "in", fieldNode (ascii "pair") 8 [(ascii "type_def", pairStruct)]),
    (ascii "n", fieldNode (ascii "long") 16 [])]

/-- A value for it, with the largest and smallest numbers of their types. -/
def entryValue : Node :=
  .dict (AATree.dictionary [(ascii "name", .binary [1, 2, 3, 4, 5, 6, 7, 8]),
    (ascii "in", .dict (AATree.dictionary [(ascii "x", .string (some (decimal 65535))),
      (ascii "y", .string (some (decimal (-1))))])),
    (ascii "n", .string (some (decimal (-2 ^ 63))))])

/-- The code goes through the fields in the order of their names. -/
def entryFields : Fields :=
  .cons (ascii "in") 8 (.struct (ascii "pair") 4
    (.cons (ascii "x") 0 (.int (ascii "unsigned short") 65535)
      (.cons (ascii "y") 2 (.int (ascii "int16_t") (-1)) .nil)))
    (.cons (ascii "n") 16 (.int (ascii "long") (-2 ^ 63))
      (.cons (ascii "name") 0 (.pointer (ascii "char*") [1, 2, 3, 4, 5, 6, 7, 8]) .nil))

theorem boxable_entry : Boxable entryStruct entryValue 24 entryFields where
  annotates := by
    have pair : pairStruct.Annotates := annotates_structNode (by simp [ascii]) (of_decide_eq_true rfl) (by
      simp only [List.forall_mem_cons]
      exact ⟨annotates_fieldNode 0 rfl (List.forall_mem_nil _) (of_decide_eq_true rfl)
          (List.forall_mem_nil _),
        annotates_fieldNode 2 rfl (List.forall_mem_nil _) (of_decide_eq_true rfl)
          (List.forall_mem_nil _), List.forall_mem_nil _⟩)
    refine annotates_structNode (by simp [ascii]) (of_decide_eq_true rfl) ?_
    simp only [List.forall_mem_cons]
    exact ⟨annotates_fieldNode 0 rfl (List.forall_mem_nil _) (of_decide_eq_true rfl)
        (List.forall_mem_nil _),
      annotates_fieldNode 8 rfl (by simp [ascii]) (of_decide_eq_true rfl)
        (List.forall_mem_singleton.mpr pair),
      annotates_fieldNode 16 rfl (List.forall_mem_nil _) (of_decide_eq_true rfl)
        (List.forall_mem_nil _), List.forall_mem_nil _⟩
  sized := rfl
  positive := by decide
  defined := ⟨rfl, rfl, ⟨rfl, _, rfl, rfl, rfl, rfl, rfl, rfl, rfl, rfl, trivial⟩, rfl, rfl, rfl, rfl,
    rfl, rfl, trivial⟩
  laidOut :=
    ⟨by decide, ⟨rfl, by decide, by decide, ⟨⟨2, false⟩, rfl, by decide⟩, by decide, by decide,
      by decide, ⟨⟨2, true⟩, rfl, by decide⟩, by decide, by decide, trivial⟩, by decide, by decide,
      by decide, ⟨⟨8, true⟩, rfl, by decide⟩, by decide, by decide, by decide,
      ⟨by decide, rfl⟩, by decide, by decide, trivial⟩
  held := ⟨⟨_, rfl, ⟨_, rfl, rfl⟩, ⟨_, rfl, rfl⟩, trivial⟩, ⟨_, rfl, rfl⟩, ⟨_, rfl, rfl⟩, trivial⟩

theorem harmless_entry : Harmless 24 entryFields where
  named := by decide
  readable := by
    simp only [entryFields, Fields.ints, Content.ints, List.nil_append, List.cons_append,
      List.forall_mem_cons]
    refine ⟨fun taken is => ?_, fun taken is => ?_, fun taken is => ?_, List.forall_mem_nil _⟩
    all_goals
      obtain rfl := Option.some.inj is
      decide
  widened := by
    simp only [entryFields, Fields.ints, Content.ints, List.nil_append, List.cons_append,
      List.forall_mem_cons]
    -- No type in the struct is taken for a larger one.
    refine ⟨?_, ?_, ?_, List.forall_mem_nil _⟩
    all_goals
      rintro ⟨own, is, less⟩
      obtain rfl := Option.some.inj is
      exact absurd less (by decide)

theorem boxing_round_trip_entry :
    RoundTrips noFloats (fun _ => none) 4096 entryStruct entryValue entryFields :=
  (boxing_round_trip_iff noFloats (fun _ => none) (by decide) boxable_entry).mpr harmless_entry

end Examples

end AgentC.Cartographer

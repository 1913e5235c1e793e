import AgentC.Cartographer.Structs

/-! What packing puts into memory for a struct, and what unpacking makes of it. -/

namespace AgentC.Cartographer

section Pointers

variable {type : List UInt8}

theorem not_mem_of_star (star : Listree.byte '*' ∈ type) {names : List (List UInt8)}
    (plain : ∀ name ∈ names, Listree.byte '*' ∉ name) : type ∉ names :=
  fun member => plain type member star

theorem star_ne (star : Listree.byte '*' ∈ type) {name : List UInt8}
    (plain : Listree.byte '*' ∉ name) : type ≠ name :=
  fun same => plain (same ▸ star)

theorem canonicalType_pointer (star : Listree.byte '*' ∈ type) : canonicalType type = type := by
  unfold canonicalType
  rw [if_neg (not_mem_of_star star (by decide)), if_neg (not_mem_of_star star (by decide)),
    if_neg (not_mem_of_star star (by decide)), if_neg (not_mem_of_star star (by decide)),
    if_neg (not_mem_of_star star (by decide)), if_neg (not_mem_of_star star (by decide)),
    if_neg (not_mem_of_star star (by decide)), if_neg (not_mem_of_star star (by decide))]

theorem scalar_of_pointer (star : Listree.byte '*' ∈ type) :
    scalarSize type = 8 ∧
    (∀ floats bytes, bytes.length = 8 → packScalar floats type (some (.binary bytes)) = .ok bytes) ∧
    ∀ floats buffer src, unpackScalar floats type buffer src = (load buffer src 8).map Node.binary := by
  refine ⟨?_, fun floats bytes eight => ?_, fun floats buffer src => ?_⟩
  · unfold scalarSize
    rw [canonicalType_pointer star, if_neg (not_mem_of_star star (by decide)),
      if_neg (not_mem_of_star star (by decide)), if_neg (not_mem_of_star star (by decide)),
      if_neg (not_mem_of_star star (by decide)), if_neg (not_mem_of_star star (by decide)),
      if_neg (star_ne star (by decide)), if_neg (star_ne star (by decide)), if_pos star]
  · unfold packScalar
    rw [canonicalType_pointer star, if_neg (not_mem_of_star star (by decide)),
      if_neg (star_ne star (by decide)), if_neg (not_mem_of_star star (by decide)),
      if_neg (not_mem_of_star star (by decide)), if_neg (not_mem_of_star star (by decide)),
      if_neg (star_ne star (by decide)), if_neg (not_mem_of_star star (by decide)),
      if_neg (not_mem_of_star star (by decide)), if_neg (not_mem_of_star star (by decide)),
      if_neg (not_mem_of_star star (by decide)), if_neg (star_ne star (by decide)),
      if_neg (star_ne star (by decide)), if_pos star]
    dsimp only
    rw [if_pos eight]
  · unfold unpackScalar
    rw [canonicalType_pointer star, if_neg (not_mem_of_star star (by decide)),
      if_neg (star_ne star (by decide)), if_neg (not_mem_of_star star (by decide)),
      if_neg (not_mem_of_star star (by decide)), if_neg (not_mem_of_star star (by decide)),
      if_neg (star_ne star (by decide)), if_neg (not_mem_of_star star (by decide)),
      if_neg (not_mem_of_star star (by decide)), if_neg (not_mem_of_star star (by decide)),
      if_neg (not_mem_of_star star (by decide)), if_neg (star_ne star (by decide)),
      if_neg (star_ne star (by decide)), if_pos star]

end Pointers

section Packing

variable {floats : Floats} {buffer result : List UInt8}

theorem bind_eq_ok {α β : Type} {first : Except Fault α} {next : α → Except Fault β} {value : β} :
    first.bind next = .ok value ↔ ∃ middle, first = .ok middle ∧ next middle = .ok value := by
  cases first with
  | error fault => simp [Except.bind]
  | ok middle => simp [Except.bind]

theorem store_eq_ok {dest : Nat} {bytes : List UInt8} :
    store buffer dest bytes = .ok result ↔
      (⟨dest, bytes⟩ : Block).Inside buffer.length ∧ result = overwrite buffer ⟨dest, bytes⟩ := by
  unfold store Block.Inside
  dsimp only
  split
  · next inside => simp only [Except.ok.injEq, inside, true_and, eq_comm]
  · next outside => simp only [reduceCtorEq, outside, false_and]

/-- All numbers are read, all blocks lie inside the buffer, and they have been written one by one. -/
structure Packed (ints : List (Nat × List UInt8 × Int)) (blocks : List Block)
    (buffer result : List UInt8) : Prop where
  read : ∀ int ∈ ints, Readable int.2.1 int.2.2
  inside : ∀ block ∈ blocks, block.Inside buffer.length
  written : result = blocks.foldl overwrite buffer

theorem packed_append {ints later : List (Nat × List UInt8 × Int)} {blocks after : List Block} :
    (∃ middle, Packed ints blocks buffer middle ∧ Packed later after middle result) ↔
      Packed (ints ++ later) (blocks ++ after) buffer result := by
  constructor
  · rintro ⟨_, ⟨read, inside, rfl⟩, ⟨read', inside', rfl⟩⟩
    rw [length_foldl_overwrite inside] at inside'
    exact ⟨List.forall_mem_append.mpr ⟨read, read'⟩, List.forall_mem_append.mpr ⟨inside, inside'⟩,
      List.foldl_append.symm⟩
  · rintro ⟨read, inside, rfl⟩
    obtain ⟨read, read'⟩ := List.forall_mem_append.mp read
    obtain ⟨inside, inside'⟩ := List.forall_mem_append.mp inside
    refine ⟨_, ⟨read, inside, rfl⟩, ⟨read', ?_, List.foldl_append⟩⟩
    rwa [length_foldl_overwrite inside]

theorem packed_singleton {ints : List (Nat × List UInt8 × Int)} {dest : Nat} {bytes : List UInt8} :
    Packed ints [⟨dest, bytes⟩] buffer result ↔
      (∀ int ∈ ints, Readable int.2.1 int.2.2) ∧ store buffer dest bytes = .ok result := by
  rw [store_eq_ok]
  constructor
  · rintro ⟨read, inside, written⟩
    exact ⟨read, inside _ (List.mem_singleton_self _), written⟩
  · rintro ⟨read, inside, written⟩
    exact ⟨read, List.forall_mem_singleton.mpr inside, written⟩

theorem packScalar_int {type : List UInt8} {own : IntType} {n : Int} (is : lp64Int type = some own)
    (fits : InRange own.size own.signed n) {bytes : List UInt8} :
    packScalar floats type (some (.string (some (decimal n)))) = .ok bytes ↔
      Readable type n ∧ bytes = leBytes (scalarSize type) n := by
  obtain ⟨taken, is', related⟩ := taken_of_lp64 is
  obtain ⟨size, pack, -⟩ := scalar_of_taken is'
  obtain ⟨inside, outside⟩ := parse_decimal related fits
  have readable : Readable type n ↔ InRange taken.size taken.signed n :=
    ⟨fun all => all taken is', fun own taken' is'' => Option.some.inj (is'.symm.trans is'') ▸ own⟩
  have text : (decimal n).isEmpty = false := by
    rw [List.isEmpty_eq_false_iff]
    unfold decimal
    split
    · exact List.cons_ne_nil _ _
    · exact decimalDigits_ne_nil _
  rw [pack, readable, size]
  simp only [packNumber, text, Bool.false_eq_true, if_false]
  by_cases fits' : InRange taken.size taken.signed n
  · simp only [inside fits', fits', true_and, Except.ok.injEq, eq_comm]
  · simp only [outside fits', fits', false_and, reduceCtorEq]

theorem scalarSize_pos {type : List UInt8} {own : IntType} (is : lp64Int type = some own) :
    0 < scalarSize type ∧ own.size ≤ scalarSize type := by
  obtain ⟨taken, is', related⟩ := taken_of_lp64 is
  have positive : ∀ entry ∈ canonicalInts, 0 < entry.2.size := by decide
  rw [(scalar_of_taken is').1]
  exact ⟨positive _ (mem_of_lookup is'), related.large⟩

mutual

theorem Fields.pack : ∀ (fields : Fields) {entries : List (Name × Node × FieldDef)} {source : Node}
    {base size : Nat} {buffer result : List UInt8}, fields.Defined entries → fields.HeldBy source →
    fields.LaidOut size →
    (entries.foldlM (packField floats (some source) base) buffer = .ok result ↔
      Packed (fields.ints base) (fields.blocks base) buffer result)
  | .nil, [], source, base, size, buffer, result, _, _, _ => by
    simp only [List.foldlM_nil, pure, Except.pure, Except.ok.injEq, Fields.ints, Fields.blocks]
    exact ⟨fun same => ⟨List.forall_mem_nil _, List.forall_mem_nil _, same.symm⟩,
      fun packed => packed.written.symm⟩
  | .cons name offset content rest, (name', fieldDef, field) :: entries, source, base, size, buffer,
      result, defined, held, laid => by
    obtain ⟨rfl, rfl, own, others⟩ := defined
    obtain ⟨⟨value, stored, holds⟩, held⟩ := held
    obtain ⟨-, content', -, -, rest'⟩ := laid
    rw [List.foldlM_cons]
    refine bind_eq_ok.trans ?_
    -- The first field is packed, and then the others into what it leaves.
    rw [Fields.ints, Fields.blocks, ← packed_append]
    refine exists_congr fun middle => and_congr ?_ (Fields.pack rest others held rest')
    have srcVal : ((some source).bind fun source => source.getValue name') = some value := stored
    unfold packField
    rw [srcVal]
    exact Content.pack content own holds content'

theorem Content.pack : ∀ (content : Content) {fieldDef : Node} {fieldType : List UInt8}
    {value : Node} {dest : Nat} {buffer result : List UInt8},
    content.Defined fieldDef fieldType → content.HeldBy value → content.LaidOut →
    ((if 0 < scalarSize fieldType then
        (packScalar floats fieldType (some value)).bind (store buffer dest)
      else
        match fieldDef.getValue (ascii "type_def") with
        | none => .ok buffer
        | some nestedTypeDef => packStruct floats (some value) nestedTypeDef dest buffer) =
        .ok result ↔
      Packed (content.ints dest) (content.blocks dest) buffer result)
  | .int type n, fieldDef, fieldType, value, dest, buffer, result, defined, held, laid => by
    obtain rfl := defined
    obtain rfl := held
    obtain ⟨own, is, fits⟩ := laid
    rw [if_pos (scalarSize_pos is).1, bind_eq_ok, Content.ints, Content.blocks, packed_singleton,
      List.forall_mem_singleton]
    constructor
    · rintro ⟨bytes, packed, stored⟩
      obtain ⟨read, rfl⟩ := (packScalar_int is fits).mp packed
      exact ⟨read, stored⟩
    · rintro ⟨read, stored⟩
      exact ⟨_, (packScalar_int is fits).mpr ⟨read, rfl⟩, stored⟩
  | .pointer type bytes, fieldDef, fieldType, value, dest, buffer, result, defined, held, laid => by
    obtain rfl := defined
    obtain rfl := held
    obtain ⟨star, eight⟩ := laid
    obtain ⟨size, pack, -⟩ := scalar_of_pointer star
    rw [size, if_pos (by decide), pack floats bytes eight, Content.ints, Content.blocks,
      packed_singleton]
    exact ⟨fun stored => ⟨List.forall_mem_nil _, stored⟩, And.right⟩
  | .struct type size fields, fieldDef, fieldType, value, dest, buffer, result, defined, held,
      laid => by
    obtain ⟨rfl, typeDef, bound, -, defined⟩ := defined
    obtain ⟨noScalar, -, laid⟩ := laid
    rw [noScalar, if_neg (Nat.lt_irrefl 0), bound]
    dsimp only
    rw [packStruct_eq]
    exact Fields.pack fields defined held laid

end

end Packing

section Unpacking

variable (floats : Floats) {buffer : List UInt8}

def Node.Growing (node : Node) : Prop :=
  ∃ items, node = .dict items ∧ items.Ready

theorem growing_createNullValue : createNullValue.Growing :=
  ⟨AATree.new_, rfl, Or.inr rfl⟩

theorem Node.Growing.addNamedItem {node : Node} (growing : node.Growing) (name : Name)
    (named : name ≠ []) (value : Node) :
    (node.addNamedItem name value).Growing ∧ ∀ other,
      (node.addNamedItem name value).getValue other =
        if other = name then some value else node.getValue other := by
  obtain ⟨items, rfl, ready⟩ := growing
  obtain ⟨ready', found⟩ := ready.addNamedItem named value
  refine ⟨⟨_, rfl, ready'⟩, fun other => ?_⟩
  have item : (Node.addNamedItem (.dict items) name value).find other = _ := found other
  rw [Node.getValue, item]
  split
  · rfl
  · rfl

theorem load_eq {place size : Nat} (inside : place + size ≤ buffer.length) :
    load buffer place size = .ok ((buffer.drop place).take size) :=
  if_pos inside

theorem createStringValue_ofBytes {signed : Bool} {bytes : List UInt8} (word : bytes.length ≤ 8) :
    Node.createStringValue (decimal (ofBytes signed bytes)) =
      .string (some (decimal (ofBytes signed bytes))) := by
  have small : (ofWordBytes bytes : Int) < 256 ^ bytes.length := by
    exact_mod_cast ofWordBytes_lt bytes
  have wide : (256 : Int) ^ bytes.length ≤ 256 ^ 8 := pow_le_pow_right₀ (by decide) word
  have low : (0 : Int) ≤ ofWordBytes bytes := Int.natCast_nonneg _
  have cast : ((256 : Nat) : Int) ^ bytes.length = 256 ^ bytes.length := rfl
  unfold Node.createStringValue
  rw [if_pos]
  refine length_decimal ?_ ?_
  · unfold ofBytes ofSignedBytes
    split
    · split <;> omega
    · omega
  · unfold ofBytes ofSignedBytes
    split
    · split <;> omega
    · omega

theorem ofBytes_eq_iff {taken : IntType} {bytes : List UInt8} {n : Int}
    (fits : InRange taken.size taken.signed n) (length : bytes.length = taken.size) :
    ofBytes taken.signed bytes = n ↔ bytes = leBytes taken.size n := by
  constructor
  · intro read
    rw [← read, ← length, leBytes_ofBytes]
  · intro same
    rw [same, ofBytes_leBytes fits]

mutual

theorem Fields.unpack : ∀ (fields : Fields) {entries : List (Name × Node × FieldDef)}
    {base size : Nat} {start : Node}, fields.Defined entries → fields.LaidOut size →
    (∀ int ∈ fields.ints base, Readable int.2.1 int.2.2) →
    (∀ block ∈ fields.blocks base, block.Inside buffer.length) → start.Growing →
    ∃ node, entries.foldlM (fun result entry =>
        (unpackField floats base buffer entry).map fun value =>
          value.elim result (result.addNamedItem entry.1)) start = .ok node ∧
      node.Growing ∧ (∀ other, other ∉ fields.names → node.getValue other = start.getValue other) ∧
      (fields.HeldBy node ↔ ∀ block ∈ fields.blocks base, block.range buffer = block.bytes)
  | .nil, [], base, size, start, _, _, _, _, growing =>
    ⟨start, rfl, growing, fun _ _ => rfl, fun _ => List.forall_mem_nil _, fun _ => trivial⟩
  | .cons name offset content rest, (name', fieldDef, field) :: entries, base, size, start,
      defined, laid, read, inside, growing => by
    obtain ⟨rfl, rfl, own, others⟩ := defined
    obtain ⟨⟨named, fresh⟩, content', -, -, rest'⟩ := laid
    obtain ⟨read, read'⟩ := List.forall_mem_append.mp read
    obtain ⟨inside, inside'⟩ := List.forall_mem_append.mp inside
    obtain ⟨value, unpacked, holds⟩ := Content.unpack content own
      content' read inside
    obtain ⟨growing', given⟩ := growing.addNamedItem name' named value
    obtain ⟨node, went, grown, kept, held⟩ := Fields.unpack rest others rest' read' inside' growing'
    have stored : node.getValue name' = some value := by
      rw [kept name' fresh, given, if_pos rfl]
    refine ⟨node, ?_, grown, fun other absent => ?_, ?_⟩
    · rw [List.foldlM_cons]
      refine bind_eq_ok.mpr ⟨start.addNamedItem name' value, ?_, went⟩
      exact congrArg (Except.map fun value => value.elim start (start.addNamedItem name')) unpacked
    · obtain ⟨different, absent'⟩ := not_or.mp (mt List.mem_cons.mpr absent)
      rw [kept other absent', given, if_neg different]
    · rw [Fields.blocks, List.forall_mem_append, ← holds, ← held]
      refine and_congr_left' ⟨?_, fun own => ⟨value, stored, own⟩⟩
      rintro ⟨value', stored', own⟩
      rwa [← Option.some.inj (stored'.symm.trans stored)]

theorem Content.unpack : ∀ (content : Content) {fieldDef : Node} {fieldType : List UInt8}
    {src : Nat}, content.Defined fieldDef fieldType → content.LaidOut →
    (∀ int ∈ content.ints src, Readable int.2.1 int.2.2) →
    (∀ block ∈ content.blocks src, block.Inside buffer.length) →
    ∃ value, (if 0 < scalarSize fieldType then
          (unpackScalar floats fieldType buffer src).map some
        else
          match fieldDef.getValue (ascii "type_def") with
          | none => .ok none
          | some nestedTypeDef => (unpackStruct floats nestedTypeDef src buffer).map some) =
        .ok (some value) ∧
      (content.HeldBy value ↔ ∀ block ∈ content.blocks src, block.range buffer = block.bytes)
  | .int type n, fieldDef, fieldType, src, defined, laid, read, inside => by
    obtain rfl := defined
    obtain ⟨own, is, -⟩ := laid
    obtain ⟨taken, is', related⟩ := taken_of_lp64 is
    obtain ⟨size, -, unpack⟩ := scalar_of_taken is'
    have fits := List.forall_mem_singleton.mp read taken is'
    have inside' := List.forall_mem_singleton.mp inside
    unfold Block.Inside at inside'
    dsimp only at inside'
    rw [length_leBytes, size] at inside'
    have length : ((buffer.drop src).take taken.size).length = taken.size := by
      rw [List.length_take, List.length_drop]
      omega
    refine ⟨.string (some (decimal (ofBytes taken.signed ((buffer.drop src).take taken.size)))),
      ?_, ?_⟩
    · rw [if_pos (scalarSize_pos is).1, unpack, load_eq inside']
      simp only [Except.map, createStringValue_ofBytes (length.trans_le related.word)]
    · rw [Content.blocks, List.forall_mem_singleton, Block.range, length_leBytes, size,
        ← ofBytes_eq_iff fits length]
      refine ⟨fun holds => ?_, fun same => ?_⟩
      · exact decimal_injective (Option.some.inj (Node.string.inj holds))
      · rw [same]
        rfl
  | .pointer type bytes, fieldDef, fieldType, src, defined, laid, read, inside => by
    obtain rfl := defined
    obtain ⟨star, eight⟩ := laid
    obtain ⟨size, -, unpack⟩ := scalar_of_pointer star
    have inside' := List.forall_mem_singleton.mp inside
    unfold Block.Inside at inside'
    dsimp only at inside'
    rw [eight] at inside'
    refine ⟨.binary ((buffer.drop src).take 8), ?_, ?_⟩
    · rw [size, if_pos (by decide), unpack, load_eq inside']
      rfl
    · rw [Content.blocks, List.forall_mem_singleton, Block.range, eight]
      exact ⟨Node.binary.inj, congrArg Node.binary⟩
  | .struct type size fields, fieldDef, fieldType, src, defined, laid, read, inside => by
    obtain ⟨rfl, typeDef, bound, -, defined⟩ := defined
    obtain ⟨noScalar, -, laid⟩ := laid
    obtain ⟨node, went, -, -, holds⟩ :=
      Fields.unpack fields defined laid read inside growing_createNullValue
    refine ⟨node, ?_, holds⟩
    rw [noScalar, if_neg (Nat.lt_irrefl 0), bound]
    dsimp only
    rw [unpackStruct_eq, went]
    rfl

end

end Unpacking

end AgentC.Cartographer

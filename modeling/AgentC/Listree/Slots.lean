import AgentC.Alloc.Decoding
import AgentC.Listree.StorageLaws

/-! Slots of values: the record that a value is saved as, and the value that is restored from one. -/

namespace AgentC.Storage

namespace LtvFlags

def bit (flag : Bool) (place : Nat) : Nat :=
  flag.toNat <<< place

def word (flags : LtvFlags) : Nat :=
  bit flags.duplicate 0 ||| bit flags.own 1 ||| bit flags.binary 3 ||| bit flags.null 9 |||
    bit flags.immediate 10 ||| bit flags.staticView 11 ||| bit flags.slabBlob 12 |||
    bit flags.logicVar 13 ||| bit flags.iterator 14 ||| bit flags.list 19 ||| bit flags.readOnly 21

def ofWord (word : Nat) : LtvFlags where
  duplicate := word.testBit 0
  own := word.testBit 1
  binary := word.testBit 3
  null := word.testBit 9
  immediate := word.testBit 10
  staticView := word.testBit 11
  slabBlob := word.testBit 12
  logicVar := word.testBit 13
  iterator := word.testBit 14
  list := word.testBit 19
  readOnly := word.testBit 21

theorem testBit_bit (flag : Bool) (place k : Nat) :
    (bit flag place).testBit k = (flag && decide (k = place)) := by
  unfold bit
  rw [Nat.testBit_shiftLeft, Nat.testBit_bool_toNat]
  rw [Bool.eq_iff_iff]
  simp only [Bool.and_eq_true, decide_eq_true_eq]
  constructor
  · rintro ⟨behind, same, set⟩
    exact ⟨set, by omega⟩
  · rintro ⟨set, same⟩
    exact ⟨by omega, by omega, set⟩

theorem ofWord_word (flags : LtvFlags) : ofWord flags.word = flags := by
  unfold ofWord word
  simp only [Nat.testBit_or, testBit_bit]
  simp

theorem bit_lt (flag : Bool) {place : Nat} (inside : place < 32) : bit flag place < 2 ^ 32 := by
  have below : 2 ^ (place + 1) ≤ 2 ^ 32 := Nat.pow_le_pow_right (by decide) inside
  have positive : 0 < 2 ^ place := Nat.two_pow_pos place
  unfold bit
  rw [Nat.shiftLeft_eq]
  rw [Nat.pow_succ] at below
  cases flag with
  | false => simp
  | true =>
    rw [Bool.toNat_true, Nat.one_mul]
    omega

theorem word_lt (flags : LtvFlags) : flags.word < 2 ^ 32 := by
  unfold word
  iterate 10 apply Nat.or_lt_two_pow
  all_goals exact bit_lt _ (by decide)

def meaning (flags : LtvFlags) : LtvFlags :=
  { flags with duplicate := false, own := false, immediate := false, slabBlob := false }

end LtvFlags

structure SlotValue extends ListreeValue where
  list : SlabId
  tree : SlabId

section Records

/-- What stands in the record of a value. -/
structure SlotRecord where
  listSid : SlabId
  treeSid : SlabId
  rawFlags : Nat
  dataLength : Nat
  pinnedCount : Nat
  bytes : List UInt8

/-- The bytes of a record. -/
def SlotRecord.payload (record : SlotRecord) : List UInt8 :=
  slabIdBytes record.listSid ++ (slabIdBytes record.treeSid ++ (wordBytes 4 record.rawFlags ++
    (wordBytes 8 record.dataLength ++ (wordBytes 4 record.pinnedCount ++ stringBytes record.bytes))))

/-- Bytes at the cursor, and the cursor behind them. -/
def readBytes : Reader (List UInt8) := fun text cursor =>
  match readPod 8 text cursor with
  | none => none
  | some (size, cursor) =>
    -- The place behind the bytes is computed as a `size_t`.
    if text.length < (cursor + size) % 2 ^ 64 then none
    -- `resize` throws for a length that no vector has.
    else if maxBytes < size then none
    else some ((text.drop cursor).take size, cursor + size)

/-- The record at the cursor, and the cursor behind it. -/
def readRecord : Reader SlotRecord := fun payload cursor =>
  ((readSlabId.pair (readSlabId.pair ((readPod 4).pair ((readPod 8).pair ((readPod 4).pair readBytes)))))
    payload cursor).map fun ((listSid, treeSid, rawFlags, dataLength, pinnedCount, bytes), cursor) =>
      (⟨listSid, treeSid, rawFlags, dataLength, pinnedCount, bytes⟩, cursor)

end Records

namespace SlotValue

/-- What every value that is made has: ids of two words, and no more inline bytes than there is room for. -/
structure Sound (value : SlotValue) : Prop where
  list : value.list.first < 2 ^ 16 ∧ value.list.second < 2 ^ 16
  tree : value.tree.first < 2 ^ 16 ∧ value.tree.second < 2 ^ 16
  inline : value.flags.immediate = true → value.getLength ≤ 15

section Export

variable (value : SlotValue) (memory : Nat → UInt8) (blobs : BlobAllocator)

/-- The bytes that a value has behind its pointer, which may be null. `memory` is what is behind raw pointers. -/
def data : Option (List UInt8) :=
  if value.flags.immediate then some (value.payload.bytes.take value.getLength)
  else if value.flags.slabBlob then blobs.readBlob value.blobId value.getLength
  else
    let pointer := wordAt value.payload.bytes 0 8
    if pointer = 0 then none
    else some ((List.range value.getLength).map fun k => memory (pointer + k))

def contents : List UInt8 :=
  (value.data memory blobs).getD (List.replicate value.getLength 0)

def owns : Bool :=
  value.flags.own || value.flags.duplicate || value.flags.immediate || value.flags.slabBlob

/-- The flags in a record: the storage flags are taken away, and `ReadOnly`, and a copy is asked for. -/
def exportFlags : LtvFlags :=
  { value.flags with
    slabBlob := false, immediate := false, own := false, readOnly := false, duplicate := true }

/-- The record of a value. -/
def record : SlotRecord where
  listSid := value.list
  treeSid := value.tree
  rawFlags := value.exportFlags.word
  dataLength := value.getLength
  pinnedCount := value.pinnedCount.toUInt32.toNat
  bytes := value.contents memory blobs

/-- The record of a value as bytes; nothing when the value is refused, or when no string is so long. -/
def exportSlot : Option (List UInt8) :=
  if value.flags.iterator then none
  else if (value.data memory blobs).isSome ∧ 0 < value.getLength ∧ value.owns = false then none
  else if maxString < (value.record memory blobs).payload.length then none
  else some (value.record memory blobs).payload

end Export

section Restore

/-- The restoring constructor: the bytes are stored as those of a new value are. -/
def restored (old : Payload) (create : Nat → Option (Nat → UInt8)) (blobs : BlobAllocator) (address : Nat)
    (record : SlotRecord) : Option SlotValue × BlobAllocator :=
  let (made, blobs) :=
    ListreeValue.ofBuffer old create blobs address record.bytes (LtvFlags.ofWord record.rawFlags)
  (made.map fun value =>
    { value with
      pinnedCount := (UInt32.ofNat record.pinnedCount).toInt32
      list := record.listSid
      tree := record.treeSid }, blobs)

/--
The value that a record stands for; nothing when the record is refused.

The value is missing when its construction throws. `address` is where the bytes were read to.
-/
def restoreSlot (old : Payload) (create : Nat → Option (Nat → UInt8)) (blobs : BlobAllocator) (address : Nat)
    (payload : List UInt8) : Option (Option SlotValue × BlobAllocator) :=
  match readRecord payload 0 with
  | none => none
  | some (record, cursor) =>
    if cursor ≠ payload.length ∨ record.bytes.length ≠ record.dataLength then none
    else some (restored old create blobs address record)

end Restore

end SlotValue

section Reading

variable {text : List UInt8} {cursor : Nat}

theorem readBytes_eq (short : text.length ≤ maxString) : readBytes text cursor = readString text cursor := by
  simp only [maxString] at short
  unfold readBytes readString
  cases found : readPod 8 text cursor with
  | none => rfl
  | some read =>
    obtain ⟨size, behind⟩ := read
    have inside : behind ≤ text.length ∧ size < 2 ^ 64 := by
      unfold readPod at found
      split at found
      · cases found
      · cases found
        exact ⟨by omega, wordAt_lt⟩
    dsimp only
    by_cases beyond : text.length < (behind + size) % 2 ^ 64
    · rw [if_pos beyond, if_pos beyond]
    · -- A size between the two limits reaches farther than any text.
      rw [if_neg beyond, if_neg beyond]
      have same : maxBytes < size ↔ maxString < size := by
        simp only [maxBytes, maxString]
        omega
      simp only [same]

theorem readBytes_inverse : readBytes.Inverse stringBytes (·.length ≤ maxString) maxString where
  reads := by
    intro before value after fits short
    rw [readBytes_eq short]
    exact readString_inverse.reads before value after fits short
  writes := by
    intro text cursor value next short inside read
    rw [readBytes_eq short] at read
    exact readString_inverse.writes text cursor value next short inside read

structure SlotRecord.Fits (record : SlotRecord) : Prop where
  list : record.listSid.first < 2 ^ 16 ∧ record.listSid.second < 2 ^ 16
  tree : record.treeSid.first < 2 ^ 16 ∧ record.treeSid.second < 2 ^ 16
  flags : record.rawFlags < 256 ^ 4
  length : record.dataLength < 256 ^ 8
  pinned : record.pinnedCount < 256 ^ 4

theorem readRecord_payload {record : SlotRecord} (fits : record.Fits)
    (short : record.payload.length ≤ maxString) :
    readRecord record.payload 0 = some (record, record.payload.length) := by
  have bytes : record.bytes.length ≤ maxString := by
    refine (Nat.le_of_lt_succ ?_).trans short
    unfold SlotRecord.payload stringBytes
    simp only [List.length_append]
    omega
  have whole : [] ++ (record.payload ++ []) = record.payload := List.append_nil _
  have read := (readSlabId_inverse.pair (readSlabId_inverse.pair ((readPod_inverse 4 maxString).pair
    ((readPod_inverse 8 maxString).pair ((readPod_inverse 4 maxString).pair readBytes_inverse))))).reads []
      (record.listSid, record.treeSid, record.rawFlags, record.dataLength, record.pinnedCount, record.bytes) []
      ⟨fits.list, fits.tree, fits.flags, fits.length, fits.pinned, bytes⟩ (whole ▸ short)
  have written : readRecord ([] ++ (record.payload ++ [])) 0 = some (record, 0 + record.payload.length) :=
    congrArg (Option.map _) read
  rwa [whole, Nat.zero_add] at written

end Reading

namespace ListreeValue

variable {old : Payload} {create : Nat → Option (Nat → UInt8)} {blobs after : BlobAllocator}
  {address : Nat} {data : List UInt8} {flags : LtvFlags} {value : ListreeValue}

theorem ofBuffer_made (visible : flags.immediate = false) (short : data.length < 256 ^ 8)
    (made : ofBuffer old create blobs address data flags = (some value, after)) :
    value.getLength = data.length ∧ value.flags.meaning = flags.meaning ∧
      (value.flags.immediate = true → data.length ≤ 15) := by
  have beside : ∀ {pointer : List UInt8} {length : Nat} (eight : pointer.length = 8), length < 256 ^ 8 →
      ListreeValue.getLength { flags, payload := .ext pointer length eight } = length := by
    intro pointer length eight small
    rw [getLength, visible]
    exact Payload.wordAt_ext eight small
  unfold ofBuffer at made
  dsimp only at made
  split at made
  · next fits =>
    cases made
    have stores := @stores_sso blobs data old flags.withoutFree fits.1.2
    exact ⟨stores.length, rfl, fun _ => fits.1.2⟩
  · split at made
    · split at made
      · unfold overBlob at made
        split at made
        · cases made
          refine ⟨getLength_ofBlob visible short, rfl, fun immediate => ?_⟩
          exact absurd (visible.symm.trans immediate) Bool.false_ne_true
        · cases made
      · cases made
        exact ⟨beside _ short, rfl, fun immediate => absurd (visible.symm.trans immediate) Bool.false_ne_true⟩
    · next nothing =>
      cases made
      have empty : data.length = 0 := by omega
      exact ⟨(beside _ (by decide)).trans empty.symm, rfl, fun _ => by omega⟩

theorem allocateFrom_isSome (made : ∀ i, (create i).isSome = true) (left i : Nat) :
    (BlobAllocator.allocateFrom create data left i blobs).1.isSome = true := by
  induction left generalizing i blobs with
  | zero => rfl
  | succ left ih =>
    unfold BlobAllocator.allocateFrom
    dsimp only
    split
    · split
      · rfl
      · exact ih (i + 1)
    · split
      · split
        · rfl
        · exact ih (i + 1)
      · next missing => exact absurd (missing ▸ made i) (by decide)

theorem ofBuffer_isSome (copied : (flags.duplicate || flags.own) = true)
    (made : data.length ≤ 15 ∨ ∀ i, (create i).isSome = true) :
    (ofBuffer old create blobs address data flags).1.isSome = true := by
  unfold ofBuffer
  dsimp only
  split
  · rfl
  · next long =>
    split
    · next positive =>
      have every := made.resolve_left fun short => long ⟨⟨positive, short⟩, copied⟩
      have stored : (blobs.allocate create data).1.isSome = true := by
        unfold BlobAllocator.allocate
        split
        · rfl
        · exact allocateFrom_isSome every _ _
      unfold overBlob
      split
      · rfl
      · next failed =>
        rw [failed] at stored
        cases stored
    · rfl

end ListreeValue

namespace SlotValue

variable {value restored : SlotValue} {memory other : Nat → UInt8} {blobs after : BlobAllocator}
  {old : Payload} {create : Nat → Option (Nat → UInt8)} {address : Nat} {payload : List UInt8}

theorem length_contents (sound : value.Sound) : (value.contents memory blobs).length = value.getLength := by
  unfold contents data
  split
  · next immediate =>
    have fits := sound.inline immediate
    rw [Option.getD_some, List.length_take, value.payload.size]
    omega
  · split
    · unfold BlobAllocator.readBlob
      split
      · cases blobs.slabs value.blobId.first with
        | none => exact List.length_replicate
        | some slab =>
          rw [Option.map_some, Option.getD_some, List.length_map, List.length_range]
      · exact List.length_replicate
    · dsimp only
      split
      · exact List.length_replicate
      · rw [Option.getD_some, List.length_map, List.length_range]

theorem contents_of_returns (sound : value.Sound) {bytes : List UInt8}
    (returns : value.toListreeValue.Returns blobs bytes) : value.contents memory blobs = bytes := by
  by_cases empty : bytes = []
  · have none : (value.contents memory blobs).length = 0 := by
      rw [length_contents sound, returns.1, empty]
      rfl
    rw [List.length_eq_zero_iff.mp none, empty]
  · have found := returns.2 empty
    rw [← returns.1] at found
    unfold ListreeValue.getData at found
    unfold contents data
    split
    · next immediate =>
      rw [if_pos immediate] at found
      exact Option.some.inj found
    · next immediate =>
      rw [if_neg immediate] at found
      split at found
      · next blob =>
        rw [if_pos blob, found]
        rfl
      · cases found

theorem getLength_lt : value.getLength < 256 ^ 8 := by
  unfold ListreeValue.getLength
  split
  · exact wordAt_lt.trans (by decide)
  · exact wordAt_lt

theorem record_fits (sound : value.Sound) : (value.record memory blobs).Fits where
  list := sound.list
  tree := sound.tree
  flags := LtvFlags.word_lt _
  length := getLength_lt
  pinned := value.pinnedCount.toUInt32.toNat_lt

theorem exportSlot_eq_none_iff : value.exportSlot memory blobs = none ↔
    value.flags.iterator = true ∨
      ((value.data memory blobs).isSome = true ∧ 0 < value.getLength ∧ value.owns = false) ∨
      maxString < (value.record memory blobs).payload.length := by
  unfold exportSlot
  split
  · next iterator => exact ⟨fun _ => Or.inl iterator, fun _ => rfl⟩
  · next iterator =>
    split
    · next foreign => exact ⟨fun _ => Or.inr (Or.inl foreign), fun _ => rfl⟩
    · next foreign =>
      split
      · next long => exact ⟨fun _ => Or.inr (Or.inr long), fun _ => rfl⟩
      · next long =>
        exact ⟨nofun, fun wrong => (wrong.elim iterator fun rest => rest.elim foreign long).elim⟩

/-- A value that comes back from a record is the one that was saved, but for `ReadOnly` and its place. -/
structure ComesBack (value restored : SlotValue) : Prop where
  sound : restored.Sound
  list : restored.list = value.list
  tree : restored.tree = value.tree
  pinnedCount : restored.pinnedCount = value.pinnedCount
  length : restored.getLength = value.getLength
  flags : restored.flags.meaning = { value.flags.meaning with readOnly := false }

def Room (blobs : BlobAllocator) (length : Nat) : Prop :=
  length ≤ 15 ∨ ∃ i, i < numSlabs ∧ blobs.fillLevel i + length ≤ BlobSlab.size

theorem restoreSlot_exportSlot (sound : value.Sound) (exported : value.exportSlot memory blobs = some payload)
    (target : BlobAllocator) :
    restoreSlot old create target address payload =
      some (SlotValue.restored old create target address (value.record memory blobs)) := by
  unfold exportSlot at exported
  split at exported
  · cases exported
  · split at exported
    · cases exported
    · split at exported
      · cases exported
      · next short =>
        cases exported
        have whole : (value.record memory blobs).bytes.length = (value.record memory blobs).dataLength :=
          length_contents sound
        unfold restoreSlot
        rw [readRecord_payload (record_fits sound) (Nat.le_of_not_lt short)]
        exact if_neg (not_or.mpr ⟨not_not.mpr rfl, not_not.mpr whole⟩)

theorem restored_record (sound : value.Sound) {target : BlobAllocator} (kept : BlobAllocator.Sound target)
    (made : SlotValue.restored old create target address (value.record memory blobs) = (some restored, after)) :
    value.ComesBack restored ∧
      (Room target value.getLength → restored.contents other after = value.contents memory blobs) := by
  have flags : LtvFlags.ofWord (value.record memory blobs).rawFlags = value.exportFlags := LtvFlags.ofWord_word _
  have length : (value.contents memory blobs).length = value.getLength := length_contents sound
  unfold SlotValue.restored at made
  rw [flags] at made
  cases constructed : ListreeValue.ofBuffer old create target address (value.contents memory blobs)
      value.exportFlags with
  | mk found rest =>
    have known : ListreeValue.ofBuffer old create target address (value.record memory blobs).bytes
        value.exportFlags = (found, rest) := constructed
    rw [known] at made
    cases found with
    | none => cases made
    | some found =>
      cases made
      obtain ⟨same, meaning, inline⟩ :=
        ListreeValue.ofBuffer_made rfl (length ▸ getLength_lt) constructed
      have spec := (ListreeValue.ofBuffer_spec kept rfl rfl constructed).1
      rw [length] at same inline spec
      have back : value.ComesBack { found with
          pinnedCount := (UInt32.ofNat (value.record memory blobs).pinnedCount).toInt32
          list := (value.record memory blobs).listSid
          tree := (value.record memory blobs).treeSid } :=
        { sound := ⟨sound.list, sound.tree, fun immediate => same.le.trans (inline immediate)⟩
          list := rfl
          tree := rfl
          pinnedCount := congrArg UInt32.toInt32 UInt32.ofNat_toNat
          length := same
          flags := meaning }
      exact ⟨back, fun room => contents_of_returns back.sound ((spec room).congr rfl rfl).returns⟩

/--
Saving refuses iterators, values over bytes that are not theirs, and records longer than any string.

Every other value comes back from its record, unless a slab for its bytes cannot be made.
-/
theorem slot_round_trip (sound : value.Sound) {target : BlobAllocator} (kept : BlobAllocator.Sound target) :
    (value.exportSlot memory blobs = none ↔
      value.flags.iterator = true ∨
        ((value.data memory blobs).isSome = true ∧ 0 < value.getLength ∧ value.owns = false) ∨
        maxString < (value.record memory blobs).payload.length) ∧
    ∀ payload, value.exportSlot memory blobs = some payload →
      ∃ made after, restoreSlot old create target address payload = some (made, after) ∧
        (value.getLength ≤ 15 ∨ (∀ i, (create i).isSome = true) → made.isSome = true) ∧
        ∀ restored, made = some restored → value.ComesBack restored ∧
          (Room target value.getLength → restored.contents other after = value.contents memory blobs) := by
  refine ⟨exportSlot_eq_none_iff, fun payload exported => ?_⟩
  refine ⟨(SlotValue.restored old create target address (value.record memory blobs)).1,
    (SlotValue.restored old create target address (value.record memory blobs)).2,
    restoreSlot_exportSlot sound exported target, fun possible => ?_, fun restored made => ?_⟩
  · have flags : LtvFlags.ofWord (value.record memory blobs).rawFlags = value.exportFlags :=
      LtvFlags.ofWord_word _
    have length : (value.record memory blobs).bytes.length = value.getLength := length_contents sound
    unfold SlotValue.restored
    dsimp only
    rw [flags, Option.isSome_map]
    exact ListreeValue.ofBuffer_isSome rfl (length ▸ possible)
  · exact restored_record sound kept (Prod.ext made rfl)

def frozen : SlotValue where
  flags := { immediate := true, readOnly := true }
  payload := ⟨7 :: (List.replicate 14 0 ++ [1]), rfl⟩
  list := ⟨0, 0⟩
  tree := ⟨0, 0⟩

def blank : Payload :=
  ⟨List.replicate 16 0, rfl⟩

/-- A read-only value comes back as one that may be changed. -/
theorem slot_round_trip_fails :
    ((frozen.exportSlot (fun _ => 0) .initial).bind fun payload =>
      (restoreSlot blank (fun _ => none) .initial 0 payload).bind fun result =>
        result.1.map fun restored => restored.flags.meaning.readOnly) = some false ∧
      frozen.flags.meaning.readOnly = true := by
  decide

/-- Its byte comes back. -/
theorem slot_round_trip_frozen : ∃ payload made after restored,
    frozen.exportSlot (fun _ => 0) .initial = some payload ∧
      restoreSlot blank (fun _ => none) .initial 0 payload = some (made, after) ∧ made = some restored ∧
        frozen.ComesBack restored ∧ restored.contents (fun _ => 0) after = [7] := by
  have sound : frozen.Sound := ⟨by decide, by decide, by decide⟩
  have trip := @slot_round_trip frozen (fun _ => 0) (fun _ => 0) .initial blank (fun _ => none) 0 sound .initial
    BlobAllocator.sound_initial
  cases exported : frozen.exportSlot (fun _ => 0) .initial with
  | none => exact absurd (trip.1.mp exported) (by decide)
  | some payload =>
    obtain ⟨made, after, read, possible, back⟩ := trip.2 payload exported
    obtain ⟨value, same⟩ := Option.isSome_iff_exists.mp (possible (Or.inl (by decide)))
    exact ⟨payload, made, after, value, rfl, read, same, (back value same).1,
      (back value same).2 (Or.inl (by decide))⟩

end SlotValue

end AgentC.Storage

import AgentC.Alloc.BlobRollback
import AgentC.Alloc.AllocatorLaws
import AgentC.Listree.Storage

/-! What the constructors of a value store, and what is read back of it. -/

namespace AgentC.Storage

namespace Payload

variable {old : Payload} {data : List UInt8} {length : UInt8} (fits : data.length ≤ 15)

theorem wordAt_sso : wordAt (old.sso data length fits).bytes 15 1 = length.toNat := by
  have front : (data ++ (old.bytes.take 15).drop data.length).length = 15 := by
    simp only [List.length_append, List.length_drop, List.length_take, old.size]
    omega
  have split : (old.sso data length fits).bytes =
      (data ++ (old.bytes.take 15).drop data.length) ++ [length] := (List.append_assoc ..).symm
  have behind : (old.sso data length fits).bytes.drop 15 = [length] := by
    rw [split]
    exact List.drop_left' front
  unfold wordAt
  rw [behind]
  show length.toNat + 256 * 0 = length.toNat
  omega

theorem take_sso : (old.sso data length fits).bytes.take data.length = data :=
  List.take_left

variable {pointer : List UInt8} {count : Nat} (eight : pointer.length = 8)

theorem wordAt_ext (small : count < 256 ^ 8) :
    wordAt (ext pointer count eight).bytes 8 8 = count :=
  wordAt_append small eight

theorem wordAt_ext_last (positive : 0 < count) :
    wordAt (ext pointer count eight).bytes 15 1 ≠ count := by
  have last : wordAt (ext pointer count eight).bytes 15 1 =
      count / 256 / 256 / 256 / 256 / 256 / 256 / 256 % 256 := by
    have behind : (ext pointer count eight).bytes.drop 15 =
        [UInt8.ofNat (count / 256 / 256 / 256 / 256 / 256 / 256 / 256)] := by
      show (pointer ++ (wordBytes 8 count ++ [])).drop 15 = _
      rw [← List.drop_drop (i := 7) (j := 8), List.drop_left' eight]
      rfl
    unfold wordAt
    rw [behind]
    show (UInt8.ofNat _).toNat + 256 * 0 = _
    rw [Nat.mul_zero, Nat.add_zero]
    exact UInt8.toNat_ofNat'
  rw [last]
  -- A length of one byte has no eighth byte, and a longer one is larger than a byte.
  rcases Nat.lt_or_ge count 256 with small | large
  · rw [Nat.div_eq_of_lt small]
    simp only [Nat.zero_div, Nat.zero_mod]
    omega
  · have byte : count / 256 / 256 / 256 / 256 / 256 / 256 / 256 % 256 < 256 :=
      Nat.mod_lt _ (by decide)
    omega

end Payload

namespace ListreeValue

variable {value : ListreeValue} {blobs after : BlobAllocator} {data : List UInt8}

structure Stores (value : ListreeValue) (blobs : BlobAllocator) (data : List UInt8) : Prop where
  length : value.getLength = data.length
  place : data = [] ∨
    value.flags.immediate = true ∧ value.payload.bytes.take data.length = data ∨
    value.flags.immediate = false ∧ value.flags.slabBlob = true ∧ blobs.Holds (value.blobId, data)

theorem Stores.returns (stores : value.Stores blobs data) : value.Returns blobs data := by
  refine ⟨stores.length, fun bytes => ?_⟩
  obtain empty | ⟨immediate, same⟩ | ⟨immediate, blob, holds⟩ := stores.place
  · exact absurd empty bytes
  · rw [getData, if_pos immediate, same]
  · rw [getData, if_neg (by simp [immediate]), if_pos blob]
    -- The slab still has the bytes where the blob was put.
    obtain ⟨slab, found, -, same⟩ := holds.stored
    unfold BlobAllocator.readBlob
    rw [if_pos (by simp [holds.address.1, holds.address.2]), found]
    exact congrArg some same

theorem Stores.since {new : List Blob} (stores : value.Stores blobs data)
    (since : BlobAllocator.Since blobs new after) : value.Stores after data where
  length := stores.length
  place := by
    obtain empty | inline | ⟨immediate, blob, holds⟩ := stores.place
    · exact Or.inl empty
    · exact Or.inr (Or.inl inline)
    · exact Or.inr (Or.inr ⟨immediate, blob, holds.since since⟩)

theorem Stores.congr {other : ListreeValue} (stores : value.Stores blobs data)
    (flags : other.flags = value.flags) (payload : other.payload = value.payload) :
    other.Stores blobs data := by
  obtain ⟨length, place⟩ := stores
  unfold getLength at length
  unfold blobId at place
  rw [← flags, ← payload] at length place
  exact ⟨length, place⟩

variable {create : Nat → Option (Nat → UInt8)} {flags : LtvFlags}

theorem since_allocate (sound : BlobAllocator.Sound blobs) (bytes : data ≠ []) {id : Option SlabId}
    (result : blobs.allocate create data = (id, after)) :
    BlobAllocator.Sound after ∧ ∃ new, BlobAllocator.Since blobs new after := by
  have allocated := BlobAllocator.allocate_allocated sound create data
  rw [result] at allocated
  obtain ⟨still, -, new, -, since, -⟩ := BlobAllocator.Allocated.recorded [] allocated bytes
  exact ⟨still, new, since⟩

theorem getLength_ofBlob {id : SlabId} {length : Nat} (visible : flags.immediate = false)
    (small : length < 256 ^ 8) :
    (ofBlob id length flags).getLength = length := by
  have shown : (ofBlob id length flags).flags.immediate = false := visible
  rw [getLength, shown]
  exact Payload.wordAt_ext (Payload.length_blobPointer id) small

theorem blobId_ofBlob {id : SlabId} {length : Nat} (first : id.first < 256 ^ 2)
    (second : id.second < 256 ^ 2) : (ofBlob id length flags).blobId = id := by
  unfold blobId ofBlob Payload.ext Payload.blobPointer
  simp only [List.append_assoc]
  have left := @wordAt_append [] (wordBytes 2 id.second ++ (wordBytes 4 0 ++
    (wordBytes 8 length ++ []))) 0 2 id.first first rfl
  have right := @wordAt_append (wordBytes 2 id.first) (wordBytes 4 0 ++
    (wordBytes 8 length ++ [])) 2 2 id.second second (length_wordBytes 2 _)
  exact congrArg₂ SlabId.mk left right

theorem overBlob_spec (sound : BlobAllocator.Sound blobs) (bytes : data ≠ [])
    (made : overBlob create blobs data flags = (some value, after)) :
    (flags.immediate = false ∧
        (∃ i, i < numSlabs ∧ blobs.fillLevel i + data.length ≤ BlobSlab.size) →
      value.Stores after data) ∧
    (¬ (flags.immediate = false ∧
        ∃ i, i < numSlabs ∧ blobs.fillLevel i + data.length ≤ BlobSlab.size) →
      ¬ value.Returns after data) := by
  have length := List.length_pos_of_ne_nil bytes
  unfold overBlob at made
  cases result : blobs.allocate create data with
  | mk id rest =>
    rw [result] at made
    cases id with
    | none => cases made
    | some id =>
      cases made
      have set := BlobAllocator.allocate_isSet_iff sound bytes result
      have allocated := BlobAllocator.allocate_allocated sound create data
      rw [result] at allocated
      refine ⟨fun ⟨visible, room⟩ => ?_, fun lost => ?_⟩
      · cases allocated with
        | failed made still id null =>
          rw [null _ rfl] at set
          exact absurd (set.mpr room) (by simp)
        | @stored t i slab made still found fits =>
          have holds := BlobAllocator.holds_store still found fits bytes
          have inside := still.inRange i (by rw [found]; rfl)
          -- The address fits into two words, and the length into eight bytes.
          have first : i < 256 ^ 2 := by
            unfold numSlabs at inside
            omega
          have small : data.length < 256 ^ 8 := by
            unfold BlobSlab.size at fits
            omega
          refine ⟨getLength_ofBlob visible small, Or.inr (Or.inr ⟨visible, rfl, ?_⟩)⟩
          rw [blobId_ofBlob first (Nat.mod_lt _ (by decide))]
          exact holds
      · rintro ⟨same, reads⟩
        cases visible : flags.immediate with
        | true =>
          -- The length is then looked for in the last byte of the union.
          have hidden : (ofBlob id data.length flags).flags.immediate = true := visible
          rw [getLength, hidden] at same
          exact Payload.wordAt_ext_last (Payload.length_blobPointer id) length same
        | false =>
          have unset : ¬ id.isSet = true := fun there => lost ⟨visible, set.mp there⟩
          have null : id = ⟨0, 0⟩ := by
            by_contra other
            exact unset (SlabId.isSet_iff.mpr other)
          have shown : (ofBlob id data.length flags).flags.immediate = false := visible
          have blob : (ofBlob id data.length flags).flags.slabBlob = true := rfl
          have nothing := reads bytes
          rw [getData, shown, blob, null, blobId_ofBlob (by decide) (by decide)] at nothing
          cases nothing

theorem stores_sso {old : Payload} (flags : LtvFlags) (fits : data.length ≤ 15) :
    ListreeValue.Stores { flags := { flags with immediate := true }
                          payload := old.sso data (UInt8.ofNat data.length) fits } blobs data where
  length := by
    rw [getLength, if_pos rfl]
    refine (Payload.wordAt_sso fits).trans (UInt8.toNat_ofNat'.trans (Nat.mod_eq_of_lt ?_))
    omega
  place := Or.inr (Or.inl ⟨rfl, Payload.take_sso fits⟩)

theorem ofBuffer_spec (sound : BlobAllocator.Sound blobs) {old : Payload} {address : Nat}
    (copied : (flags.duplicate || flags.own) = true) (visible : flags.immediate = false)
    (made : ofBuffer old create blobs address data flags = (some value, after)) :
    ((data.length ≤ 15 ∨ ∃ i, i < numSlabs ∧ blobs.fillLevel i + data.length ≤ BlobSlab.size) →
      value.Stores after data) ∧
    (¬ (data.length ≤ 15 ∨ ∃ i, i < numSlabs ∧ blobs.fillLevel i + data.length ≤ BlobSlab.size) →
      ¬ value.Returns after data) := by
  simp only [ofBuffer, copied, and_true, if_true] at made
  split at made
  · next fits =>
    cases made
    exact ⟨fun _ => stores_sso flags.withoutFree fits.2, fun lost => absurd (Or.inl fits.2) lost⟩
  · next long =>
    by_cases empty : 0 < data.length
    · rw [if_pos empty] at made
      have more : ¬ data.length ≤ 15 := fun fits => long ⟨empty, fits⟩
      have spec := overBlob_spec sound (List.length_pos_iff.mp empty) made
      refine ⟨fun room => spec.1 ⟨visible, room.resolve_left more⟩, fun lost => spec.2 fun both => ?_⟩
      exact lost (Or.inr both.2)
    · rw [if_neg empty] at made
      cases made
      have nothing : data = [] := List.length_eq_zero_iff.mp (by omega)
      subst nothing
      refine ⟨fun _ => ⟨?_, Or.inl rfl⟩, fun lost => absurd (Or.inl (Nat.zero_le 15)) lost⟩
      rw [getLength, visible]
      exact Payload.wordAt_ext (length_wordBytes 8 0) (by decide)

end ListreeValue

namespace Creation

variable {creation : Creation} {old : Payload} {create : Nat → Option (Nat → UInt8)}
  {blobs after : BlobAllocator} {value : ListreeValue} {data : List UInt8}

theorem construct_spec (sound : BlobAllocator.Sound blobs) (bytes : creation.bytes = some data)
    (made : creation.construct old create blobs = (some value, after)) :
    (creation.Fits blobs → value.Stores after data) ∧
      (¬ creation.Fits blobs → ¬ value.Returns after data) := by
  -- Short bytes fit in any case, so only longer ones can be lost.
  have short : data.length ≤ 15 → creation.Fits blobs := fun fits other same => by
    obtain rfl : data = other := Option.some.inj (bytes.symm.trans same)
    exact Or.inl fits
  cases creation with
  | createNullValue | createListValue | createCursorValue => cases bytes
  | createStringValue str flags =>
    cases bytes
    simp only [construct, ListreeValue.ofString] at made
    split at made
    · next fits =>
      cases made
      refine ⟨fun _ => ?_, fun lost => absurd (short fits.2) lost⟩
      exact ListreeValue.stores_sso
        ({ flags with duplicate := true } : LtvFlags).withoutFree fits.2
    · next long =>
      by_cases empty : 0 < data.length
      · rw [if_pos empty] at made
        have more : ¬ data.length ≤ 15 := fun fits => long ⟨empty, fits⟩
        have spec := ListreeValue.overBlob_spec sound (List.length_pos_iff.mp empty) made
        have fits : (Creation.createStringValue data flags).Fits blobs ↔
            flags.immediate = false ∧
              ∃ i, i < numSlabs ∧ blobs.fillLevel i + data.length ≤ BlobSlab.size := by
          constructor
          · intro fits
            obtain small | ⟨hidden, room⟩ := fits data rfl
            · exact absurd small more
            · exact ⟨hidden data flags rfl, room⟩
          · rintro ⟨immediate, room⟩ other same
            cases same
            refine Or.inr ⟨fun str others equal => ?_, room⟩
            cases equal
            exact immediate
        exact ⟨fun there => spec.1 (fits.mp there), fun lost => spec.2 (mt fits.mpr lost)⟩
      · rw [if_neg empty] at made
        cases made
        have nothing : data = [] := List.length_eq_zero_iff.mp (by omega)
        subst nothing
        refine ⟨fun _ => ⟨?_, Or.inl rfl⟩, fun lost => absurd (short (Nat.zero_le 15)) lost⟩
        rw [ListreeValue.getLength, if_pos rfl]
        exact Payload.wordAt_sso (by decide)
  | createBinaryValue address buffer =>
    cases bytes
    have spec := ListreeValue.ofBuffer_spec sound rfl rfl made
    have fits : (Creation.createBinaryValue address data).Fits blobs ↔ data.length ≤ 15 ∨
        ∃ i, i < numSlabs ∧ blobs.fillLevel i + data.length ≤ BlobSlab.size := by
      constructor
      · intro fits
        exact (fits data rfl).imp_right And.right
      · intro room other same
        cases same
        exact room.imp_right fun found => ⟨fun _ _ equal => (nomatch equal), found⟩
    exact ⟨fun there => spec.1 (fits.mp there), fun lost => spec.2 (mt fits.mpr lost)⟩

theorem since_overBlob (sound : BlobAllocator.Sound blobs) {flags : LtvFlags} (bytes : data ≠ [])
    {made : Option ListreeValue}
    (result : ListreeValue.overBlob create blobs data flags = (made, after)) :
    BlobAllocator.Sound after ∧ ∃ new, BlobAllocator.Since blobs new after := by
  unfold ListreeValue.overBlob at result
  cases stored : blobs.allocate create data with
  | mk id rest =>
    have kept := ListreeValue.since_allocate sound bytes stored
    rw [stored] at result
    cases id with
    | none =>
      cases result
      exact kept
    | some id =>
      cases result
      exact kept

theorem since_construct (sound : BlobAllocator.Sound blobs) {made : Option ListreeValue}
    (result : creation.construct old create blobs = (made, after)) :
    BlobAllocator.Sound after ∧ ∃ new, BlobAllocator.Since blobs new after := by
  have alone : BlobAllocator.Sound blobs ∧ ∃ new, BlobAllocator.Since blobs new blobs :=
    ⟨sound, [], (BlobAllocator.Created.refl blobs).since⟩
  have buffer : ∀ {address : Nat} {bytes : List UInt8} {flags : LtvFlags},
      ListreeValue.ofBuffer old create blobs address bytes flags = (made, after) →
      BlobAllocator.Sound after ∧ ∃ new, BlobAllocator.Since blobs new after := by
    intro address bytes flags result
    simp only [ListreeValue.ofBuffer] at result
    split at result
    · cases result
      exact alone
    · split at result
      · next some_ =>
        split at result
        · exact since_overBlob sound (List.length_pos_iff.mp some_) result
        · cases result
          exact alone
      · cases result
        exact alone
  cases creation with
  | createStringValue str flags =>
    simp only [construct, ListreeValue.ofString] at result
    split at result
    · cases result
      exact alone
    · split at result
      · next some_ => exact since_overBlob sound (List.length_pos_iff.mp some_) result
      · cases result
        exact alone
  | createBinaryValue | createNullValue | createListValue | createCursorValue =>
    rw [construct] at result
    exact buffer result

end Creation

end AgentC.Storage

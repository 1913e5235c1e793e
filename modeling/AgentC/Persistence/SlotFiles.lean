import Mathlib.Data.List.TakeWhile
import AgentC.Alloc.CodecRoundTrip
import AgentC.Listree.Tree

/-!
Slab files: a header of fixed width, and the bytes of a slab from the next page on.

The header keeps the names of an allocator in fields of 64 bytes, and the size of the slab in 32 bits.
-/

namespace AgentC.Persistence

def kSessionImageMmapSlabFormat : List UInt8 := ascii "session_image_mmap_v1"

def kSessionImageMmapSlabVersion : Nat := 1

def kAllocatorIdentityBytes : Nat := 64

/-- What a manifest says about one slab file. -/
structure SessionImageSlabFile where
  index : Nat
  format : List UInt8
  payloadOffsetBytes : Nat
  payloadSizeBytes : Nat
  deriving DecidableEq, Repr

structure SessionImageAllocatorManifest where
  name : List UInt8
  type : List UInt8
  deriving DecidableEq, Repr

/-- What stands in front of a slab in its file. -/
structure SessionImageMmapSlabHeader where
  magic : List UInt8
  version : Nat := kSessionImageMmapSlabVersion
  payloadOffsetBytes : Nat := 0
  payloadSizeBytes : Nat := 0
  slabIndex : Nat := 0
  encoding : Nat := 0
  reserved : Nat := 0
  allocatorName : List UInt8
  allocatorType : List UInt8

/-- The size of a page, which the system gives. It is far below what 32 bits count. -/
structure PageSize where
  bytes : Nat
  small : bytes ≤ 2 ^ 31

section Header

/-- `sizeof(SessionImageMmapSlabHeader)`. -/
def headerBytes : Nat := 152

/-- A header as it stands in memory. -/
def SessionImageMmapSlabHeader.bytes (header : SessionImageMmapSlabHeader) : List UInt8 :=
  header.magic ++ wordBytes 4 header.version ++ wordBytes 4 header.payloadOffsetBytes ++
    wordBytes 4 header.payloadSizeBytes ++ wordBytes 2 header.slabIndex ++ wordBytes 1 header.encoding ++
    wordBytes 1 header.reserved ++ header.allocatorName ++ header.allocatorType

/-- The header that memory begins with. -/
def SessionImageMmapSlabHeader.ofBytes (text : List UInt8) : SessionImageMmapSlabHeader where
  magic := text.take 8
  version := wordAt text 8 4
  payloadOffsetBytes := wordAt text 12 4
  payloadSizeBytes := wordAt text 16 4
  slabIndex := wordAt text 20 2
  encoding := wordAt text 22 1
  reserved := wordAt text 23 1
  allocatorName := (text.drop 24).take kAllocatorIdentityBytes
  allocatorType := (text.drop 88).take kAllocatorIdentityBytes

def alignUp (value alignment : Nat) : Nat :=
  if alignment = 0 then value
  else
    let remainder := value % alignment
    if remainder = 0 then value else value + (alignment - remainder)

def slabMagicBytes : List UInt8 := ascii "ASLABV1" ++ [0]

/-- A name in its field: `strncpy` copies what is in front of a zero, and one byte less than there is room. -/
def setAllocatorIdentity (value : List UInt8) : List UInt8 :=
  let copied := (value.takeWhile (· ≠ 0)).take (kAllocatorIdentityBytes - 1)
  copied ++ List.replicate (kAllocatorIdentityBytes - copied.length) 0

def readAllocatorIdentity (source : List UInt8) : List UInt8 :=
  source.takeWhile (· ≠ 0)

/-- What is wrong with the names of a header, when something is. -/
def validateAllocatorIdentity (header : SessionImageMmapSlabHeader)
    (allocator : SessionImageAllocatorManifest) : Option String :=
  let headerName := readAllocatorIdentity header.allocatorName
  let headerType := readAllocatorIdentity header.allocatorType
  if allocator.name ≠ [] ∧ headerName ≠ [] ∧ headerName ≠ allocator.name then
    some "slab header allocator name does not match manifest"
  else if allocator.type ≠ [] ∧ headerType ≠ [] ∧ headerType ≠ allocator.type then
    some "slab header allocator type does not match manifest"
  else none

end Header

section Files

def memcpy (target : List UInt8) (place : Nat) (source : List UInt8) : List UInt8 :=
  target.take place ++ source ++ target.drop (place + source.length)

/-- The header of a slab whose bytes are given. -/
def slabHeader (pageSize : PageSize) (allocator : SessionImageAllocatorManifest) (slab : ArenaSlabImage)
    (payload : List UInt8) : SessionImageMmapSlabHeader where
  magic := slabMagicBytes
  payloadOffsetBytes := alignUp headerBytes pageSize.bytes % 2 ^ 32
  payloadSizeBytes := payload.length % 2 ^ 32
  slabIndex := slab.slabIndex
  encoding := slab.encoding.byte
  allocatorName := setAllocatorIdentity allocator.name
  allocatorType := setAllocatorIdentity allocator.type

/-- The file of a slab, and what the manifest then says about it; nothing when no string is so long. -/
def encodeMmapFriendlySlabFile (pageSize : PageSize) (allocator : SessionImageAllocatorManifest)
    (slab : ArenaSlabImage) (slabFile : SessionImageSlabFile) : Option (List UInt8 × SessionImageSlabFile) :=
  let payload := serializeArenaSlabImage slab
  let header := slabHeader pageSize allocator slab payload
  if maxString < header.payloadOffsetBytes + payload.length then none
  else
    let fileBytes := List.replicate (header.payloadOffsetBytes + payload.length) 0
    let fileBytes := memcpy fileBytes 0 header.bytes
    let fileBytes := memcpy fileBytes header.payloadOffsetBytes payload
    some (fileBytes, { slabFile with
      format := kSessionImageMmapSlabFormat
      payloadOffsetBytes := header.payloadOffsetBytes
      payloadSizeBytes := header.payloadSizeBytes })

/-- The slab in a file, or the text of what is wrong. There is no text for bytes that are no slab. -/
def decodeMmapFriendlySlabPayload (mapped : List UInt8) (allocator : SessionImageAllocatorManifest)
    (slabFile : SessionImageSlabFile) : Except (Option String) ArenaSlabImage :=
  if mapped.length < headerBytes then .error (some "mmap slab file is smaller than header")
  else
    let header := SessionImageMmapSlabHeader.ofBytes mapped
    if header.magic ≠ slabMagicBytes ∨ header.version ≠ kSessionImageMmapSlabVersion then
      .error (some "mmap slab file has invalid header")
    else if (validateAllocatorIdentity header allocator).isSome then
      .error (validateAllocatorIdentity header allocator)
    else if header.slabIndex ≠ slabFile.index then
      .error (some "mmap slab file index does not match manifest")
    else if mapped.length < header.payloadOffsetBytes ∨
        mapped.length - header.payloadOffsetBytes < header.payloadSizeBytes then
      .error (some "mmap slab file payload range is invalid")
    else if slabFile.payloadOffsetBytes ≠ 0 ∧ slabFile.payloadOffsetBytes ≠ header.payloadOffsetBytes then
      .error (some "mmap slab manifest payload offset does not match header")
    else if slabFile.payloadSizeBytes ≠ 0 ∧ slabFile.payloadSizeBytes ≠ header.payloadSizeBytes then
      .error (some "mmap slab manifest payload size does not match header")
    else
      match deserializeArenaSlabImage
          ((mapped.drop header.payloadOffsetBytes).take header.payloadSizeBytes) with
      | none => .error none
      | some slab => .ok slab

end Files

section Layout

variable {header : SessionImageMmapSlabHeader} {rest : List UInt8}

structure SessionImageMmapSlabHeader.Fits (header : SessionImageMmapSlabHeader) : Prop where
  magic : header.magic.length = 8
  version : header.version < 2 ^ 32
  offset : header.payloadOffsetBytes < 2 ^ 32
  size : header.payloadSizeBytes < 2 ^ 32
  index : header.slabIndex < 2 ^ 16
  encoding : header.encoding < 2 ^ 8
  reserved : header.reserved < 2 ^ 8
  name : header.allocatorName.length = kAllocatorIdentityBytes
  type : header.allocatorType.length = kAllocatorIdentityBytes

theorem SessionImageMmapSlabHeader.length_bytes (fits : header.Fits) : header.bytes.length = headerBytes := by
  unfold bytes
  simp only [List.length_append, length_wordBytes, fits.magic, fits.name, fits.type]
  rfl

theorem SessionImageMmapSlabHeader.ofBytes_bytes (fits : header.Fits) :
    ofBytes (header.bytes ++ rest) = header := by
  -- Every field stands behind those that were written before it.
  generalize whole : header.bytes ++ rest = text
  unfold bytes at whole
  simp only [List.append_assoc] at whole
  have version : text.drop 8 = _ := whole ▸ List.drop_left' fits.magic
  have offset : text.drop 12 = _ := drop_behind version (length_wordBytes 4 _)
  have size : text.drop 16 = _ := drop_behind offset (length_wordBytes 4 _)
  have index : text.drop 20 = _ := drop_behind size (length_wordBytes 4 _)
  have encoding : text.drop 22 = _ := drop_behind index (length_wordBytes 2 _)
  have reserved : text.drop 23 = _ := drop_behind encoding (length_wordBytes 1 _)
  have name : text.drop 24 = _ := drop_behind reserved (length_wordBytes 1 _)
  have type : text.drop 88 = _ := drop_behind name fits.name
  unfold ofBytes
  rw [wordAt_of_drop fits.version version, wordAt_of_drop fits.offset offset, wordAt_of_drop fits.size size,
    wordAt_of_drop fits.index index, wordAt_of_drop fits.encoding encoding,
    wordAt_of_drop fits.reserved reserved, name, type, List.take_left' fits.name, List.take_left' fits.type,
    ← whole, List.take_left' fits.magic]

end Layout

section Names

variable {value : List UInt8}

def IdentityFits (value : List UInt8) : Prop :=
  value.takeWhile (· ≠ 0) = [] ∨ value.length < kAllocatorIdentityBytes ∧ 0 ∉ value

instance : Decidable (IdentityFits value) :=
  inferInstanceAs (Decidable (_ ∨ _))

theorem length_setAllocatorIdentity : (setAllocatorIdentity value).length = kAllocatorIdentityBytes := by
  have short : ((value.takeWhile (· ≠ 0)).take (kAllocatorIdentityBytes - 1)).length ≤ 63 :=
    List.length_take_le _ _
  unfold setAllocatorIdentity
  rw [List.length_append, List.length_replicate]
  unfold kAllocatorIdentityBytes at *
  omega

theorem readAllocatorIdentity_set : readAllocatorIdentity (setAllocatorIdentity value) =
    (value.takeWhile (· ≠ 0)).take (kAllocatorIdentityBytes - 1) := by
  unfold readAllocatorIdentity setAllocatorIdentity
  have nonzero : ∀ byte ∈ (value.takeWhile (· ≠ 0)).take (kAllocatorIdentityBytes - 1),
      decide (byte ≠ 0) = true := by
    intro byte member
    have nonzero := List.mem_takeWhile_imp (List.mem_of_mem_take member)
    exact nonzero
  dsimp only
  rw [List.takeWhile_append_of_pos nonzero, List.takeWhile_replicate]
  exact List.append_nil _

theorem misread_iff : (value ≠ [] ∧ readAllocatorIdentity (setAllocatorIdentity value) ≠ [] ∧
    readAllocatorIdentity (setAllocatorIdentity value) ≠ value) ↔ ¬IdentityFits value := by
  rw [readAllocatorIdentity_set]
  have empty : (value.takeWhile (· ≠ 0)).take (kAllocatorIdentityBytes - 1) = [] ↔
      value.takeWhile (· ≠ 0) = [] := by
    rw [List.take_eq_nil_iff]
    exact or_iff_right (by decide)
  have same : (value.takeWhile (· ≠ 0)).take (kAllocatorIdentityBytes - 1) = value ↔
      value.length < kAllocatorIdentityBytes ∧ 0 ∉ value := by
    constructor
    · intro whole
      have short := List.length_take_le (kAllocatorIdentityBytes - 1) (value.takeWhile (· ≠ 0))
      rw [whole] at short
      refine ⟨Nat.lt_of_le_pred (by decide) short, fun member => ?_⟩
      rw [← whole] at member
      have nonzero := List.mem_takeWhile_imp (List.mem_of_mem_take member)
      exact absurd rfl (of_decide_eq_true nonzero)
    · rintro ⟨short, clean⟩
      have all : value.takeWhile (· ≠ 0) = value :=
        List.takeWhile_eq_self_iff.mpr fun byte member => decide_eq_true fun zero => clean (zero ▸ member)
      rw [all]
      exact List.take_of_length_le (Nat.le_pred_of_lt short)
  unfold IdentityFits
  rw [ne_eq, ne_eq, ne_eq, empty, same, not_or, and_iff_right_iff_imp]
  intro wrong none
  apply wrong.1
  rw [none]
  rfl

end Names

section Written

variable {pageSize : PageSize} {allocator : SessionImageAllocatorManifest} {slab : ArenaSlabImage}
  {slabFile entry : SessionImageSlabFile} {payload file : List UInt8}

theorem headerBytes_le_alignUp : headerBytes ≤ alignUp headerBytes pageSize.bytes := by
  unfold alignUp
  dsimp only
  split
  · exact Nat.le_refl _
  · split <;> omega

theorem alignUp_mod : alignUp headerBytes pageSize.bytes % 2 ^ 32 = alignUp headerBytes pageSize.bytes := by
  have small := pageSize.small
  apply Nat.mod_eq_of_lt
  unfold alignUp headerBytes
  dsimp only
  split
  · decide
  · split <;> omega

theorem slabHeader_fits (index : slab.slabIndex < 2 ^ 16) :
    (slabHeader pageSize allocator slab payload).Fits where
  magic := show slabMagicBytes.length = 8 by decide
  version := show kSessionImageMmapSlabVersion < 2 ^ 32 by decide
  offset := Nat.mod_lt _ (by decide)
  size := Nat.mod_lt _ (by decide)
  index := index
  encoding := by
    show slab.encoding.byte < 2 ^ 8
    cases slab.encoding <;> decide
  reserved := show 0 < 2 ^ 8 by decide
  name := length_setAllocatorIdentity
  type := length_setAllocatorIdentity

theorem file_eq (index : slab.slabIndex < 2 ^ 16)
    (encoded : encodeMmapFriendlySlabFile pageSize allocator slab slabFile = some (file, entry)) :
    file = (slabHeader pageSize allocator slab (serializeArenaSlabImage slab)).bytes ++
      (List.replicate (alignUp headerBytes pageSize.bytes - headerBytes) 0 ++ serializeArenaSlabImage slab) := by
  have front := SessionImageMmapSlabHeader.length_bytes
    (@slabHeader_fits pageSize allocator slab (serializeArenaSlabImage slab) index)
  have before : headerBytes ≤ alignUp headerBytes pageSize.bytes := headerBytes_le_alignUp
  have place : (slabHeader pageSize allocator slab (serializeArenaSlabImage slab)).payloadOffsetBytes =
      alignUp headerBytes pageSize.bytes := alignUp_mod
  unfold encodeMmapFriendlySlabFile at encoded
  dsimp only at encoded
  rw [place] at encoded
  split at encoded
  · cases encoded
  · cases encoded
    generalize (slabHeader pageSize allocator slab (serializeArenaSlabImage slab)).bytes = header at front ⊢
    generalize serializeArenaSlabImage slab = payload
    generalize alignUp headerBytes pageSize.bytes = offset at before ⊢
    -- The header is copied over the first zeros, and the slab over the last ones.
    have first : memcpy (List.replicate (offset + payload.length) 0) 0 header =
        header ++ List.replicate (offset - headerBytes + payload.length) 0 := by
      unfold memcpy
      rw [List.take_zero, List.nil_append, List.drop_replicate, front, Nat.zero_add,
        Nat.sub_add_comm before]
    have second : header ++ List.replicate (offset - headerBytes + payload.length) 0 =
        header ++ List.replicate (offset - headerBytes) 0 ++ List.replicate payload.length 0 := by
      rw [List.append_assoc, List.replicate_append_replicate]
    have length : (header ++ List.replicate (offset - headerBytes) (0 : UInt8)).length = offset := by
      rw [List.length_append, List.length_replicate, front]
      omega
    rw [first, second]
    unfold memcpy
    rw [List.take_left' length, ← List.drop_drop, List.drop_left' length,
      List.drop_of_length_le (List.length_replicate ..).le, List.append_nil, List.append_assoc]

theorem validateAllocatorIdentity_slabHeader :
    validateAllocatorIdentity (slabHeader pageSize allocator slab payload) allocator =
      if ¬IdentityFits allocator.name then some "slab header allocator name does not match manifest"
      else if ¬IdentityFits allocator.type then some "slab header allocator type does not match manifest"
      else none := by
  unfold validateAllocatorIdentity slabHeader
  simp only [misread_iff]

theorem decode_encoded (index : slab.slabIndex < 2 ^ 16) (named : slabFile.index = slab.slabIndex)
    (encoded : encodeMmapFriendlySlabFile pageSize allocator slab slabFile = some (file, entry)) :
    decodeMmapFriendlySlabPayload file allocator entry =
      if ¬IdentityFits allocator.name then .error (some "slab header allocator name does not match manifest")
      else if ¬IdentityFits allocator.type then
        .error (some "slab header allocator type does not match manifest")
      else
        match deserializeArenaSlabImage ((serializeArenaSlabImage slab).take
            ((serializeArenaSlabImage slab).length % 2 ^ 32)) with
        | none => .error none
        | some slab => .ok slab := by
  have fits := @slabHeader_fits pageSize allocator slab (serializeArenaSlabImage slab) index
  have front := SessionImageMmapSlabHeader.length_bytes fits
  have known := file_eq index encoded
  have before : headerBytes ≤ alignUp headerBytes pageSize.bytes := headerBytes_le_alignUp
  have place : (slabHeader pageSize allocator slab (serializeArenaSlabImage slab)).payloadOffsetBytes =
      alignUp headerBytes pageSize.bytes := alignUp_mod
  have header : SessionImageMmapSlabHeader.ofBytes file =
      slabHeader pageSize allocator slab (serializeArenaSlabImage slab) := by
    rw [known]
    exact SessionImageMmapSlabHeader.ofBytes_bytes fits
  have behind : file.drop (alignUp headerBytes pageSize.bytes) = serializeArenaSlabImage slab := by
    rw [known, ← List.append_assoc]
    apply List.drop_left'
    rw [List.length_append, List.length_replicate, front]
    omega
  have length : file.length = alignUp headerBytes pageSize.bytes + (serializeArenaSlabImage slab).length := by
    rw [known, List.length_append, List.length_append, List.length_replicate, front]
    omega
  have entered : entry.index = slab.slabIndex ∧
      entry.payloadOffsetBytes = alignUp headerBytes pageSize.bytes ∧
      entry.payloadSizeBytes = (serializeArenaSlabImage slab).length % 2 ^ 32 := by
    unfold encodeMmapFriendlySlabFile at encoded
    dsimp only at encoded
    split at encoded
    · cases encoded
    · cases encoded
      exact ⟨named, alignUp_mod, rfl⟩
  have inside := Nat.mod_le (serializeArenaSlabImage slab).length (2 ^ 32)
  obtain ⟨sameIndex, sameOffset, sameSize⟩ := entered
  unfold decodeMmapFriendlySlabPayload
  -- The header was written by the same rules, so that nothing but the names can be wrong with it.
  rw [if_neg (by omega)]
  dsimp only
  have magical : ¬((slabHeader pageSize allocator slab (serializeArenaSlabImage slab)).magic ≠ slabMagicBytes ∨
      (slabHeader pageSize allocator slab (serializeArenaSlabImage slab)).version ≠
        kSessionImageMmapSlabVersion) :=
    not_or.mpr ⟨not_not.mpr rfl, not_not.mpr rfl⟩
  have indexed : (slabHeader pageSize allocator slab (serializeArenaSlabImage slab)).slabIndex =
      slab.slabIndex := rfl
  have sized : (slabHeader pageSize allocator slab (serializeArenaSlabImage slab)).payloadSizeBytes =
      (serializeArenaSlabImage slab).length % 2 ^ 32 := rfl
  have range : ¬(file.length < alignUp headerBytes pageSize.bytes ∨
      file.length - alignUp headerBytes pageSize.bytes < (serializeArenaSlabImage slab).length % 2 ^ 32) := by
    omega
  rw [header, if_neg magical, place, indexed, sized, validateAllocatorIdentity_slabHeader, sameIndex,
    sameOffset, sameSize, behind]
  by_cases name : IdentityFits allocator.name
  · by_cases type : IdentityFits allocator.type
    · rw [if_neg (not_not.mpr name), if_neg (not_not.mpr name), if_neg (not_not.mpr type),
        if_neg (not_not.mpr type), Option.isSome_none, if_neg Bool.false_ne_true, if_neg (not_not.mpr rfl),
        if_neg range,
        if_neg fun both => both.2 rfl, if_neg fun both => both.2 rfl]
    · rw [if_neg (not_not.mpr name), if_neg (not_not.mpr name), if_pos type, if_pos type]
      rfl
  · rw [if_pos name, if_pos name]
    rfl

end Written

/-- A slab that is written, under the index that its manifest has for it. -/
structure SlabWrite where
  allocator : SessionImageAllocatorManifest
  slab : ArenaSlabImage
  slabFile : SessionImageSlabFile
  storable : slab.Storable
  -- `saveAllocatorSlabs` writes no slab under another index.
  index : slabFile.index = slab.slabIndex

namespace SlabWrite

variable {pageSize : PageSize} {write : SlabWrite} {file : List UInt8} {entry : SessionImageSlabFile}

def encode (write : SlabWrite) (pageSize : PageSize) : Option (List UInt8 × SessionImageSlabFile) :=
  encodeMmapFriendlySlabFile pageSize write.allocator write.slab write.slabFile

/-- The names fit in the header, the slab in 32 bits, and it has no payload of the kind it does not use. -/
structure Fits (write : SlabWrite) : Prop where
  name : IdentityFits write.allocator.name
  type : IdentityFits write.allocator.type
  short : (serializeArenaSlabImage write.slab).length < 2 ^ 32
  own : write.slab.OwnPayload

theorem decode_of_fits (encoded : write.encode pageSize = some (file, entry)) (fits : write.Fits) :
    decodeMmapFriendlySlabPayload file write.allocator entry = .ok write.slab := by
  rw [decode_encoded write.storable.index write.index encoded, if_neg (not_not.mpr fits.name),
    if_neg (not_not.mpr fits.type), Nat.mod_eq_of_lt fits.short, List.take_length,
    deserializeArenaSlabImage_serialize write.storable fits.own]

theorem fits_of_decode (encoded : write.encode pageSize = some (file, entry))
    (decoded : decodeMmapFriendlySlabPayload file write.allocator entry = .ok write.slab) : write.Fits := by
  rw [decode_encoded write.storable.index write.index encoded] at decoded
  split at decoded
  · cases decoded
  · rename_i name
    split at decoded
    · cases decoded
    · rename_i type
      split at decoded
      · cases decoded
      · rename_i slab read
        cases decoded
        have stored := write.storable.bytes
        have short : ((serializeArenaSlabImage write.slab).take
            ((serializeArenaSlabImage write.slab).length % 2 ^ 32)).length ≤ maxString :=
          (List.length_take_le' _ _).trans stored
        -- Bytes that are read as the slab are all of its bytes, so that none were cut off.
        have whole := congrArg List.length (serializeArenaSlabImage_deserialize short read)
        rw [List.length_take] at whole
        have modulus := Nat.mod_lt (serializeArenaSlabImage write.slab).length (show 0 < 2 ^ 32 by decide)
        exact ⟨not_not.mp name, not_not.mp type, by omega, ownPayload_of_deserialize read⟩

/-- A slab is read back from its file when the names and the sizes fit, and only then. -/
theorem slotFile_reads_iff (encoded : write.encode pageSize = some (file, entry)) :
    decodeMmapFriendlySlabPayload file write.allocator entry = .ok write.slab ↔ write.Fits :=
  ⟨fits_of_decode encoded, decode_of_fits encoded⟩

def named (name : List UInt8) : SlabWrite where
  allocator := ⟨name, ascii "T"⟩
  slab := slotImage
  slabFile := ⟨3, [], 0, 0⟩
  storable := ⟨by decide, by decide, by decide, by decide⟩
  index := rfl

theorem encode_named (name : List UInt8) :
    ∃ file entry, (named name).encode ⟨4096, by decide⟩ = some (file, entry) := by
  have room : ¬maxString < alignUp headerBytes 4096 % 2 ^ 32 + (serializeArenaSlabImage slotImage).length := by
    decide
  unfold encode encodeMmapFriendlySlabFile
  exact ⟨_, _, if_neg room⟩

/-- A name with as many bytes as its field is cut off when it is written, and then refused. -/
theorem slotFile_fails : ∃ file entry,
    (named (List.replicate 64 0x61)).encode ⟨4096, by decide⟩ = some (file, entry) ∧
      decodeMmapFriendlySlabPayload file (named (List.replicate 64 0x61)).allocator entry =
        .error (some "slab header allocator name does not match manifest") := by
  obtain ⟨file, entry, encoded⟩ := encode_named (List.replicate 64 0x61)
  refine ⟨file, entry, encoded, ?_⟩
  rw [decode_encoded (by decide) rfl encoded]
  exact if_pos (by decide)

/-- A short name is read back. -/
theorem slotFile_reads : ∃ file entry, (named (ascii "values")).encode ⟨4096, by decide⟩ = some (file, entry) ∧
    decodeMmapFriendlySlabPayload file (named (ascii "values")).allocator entry = .ok slotImage := by
  obtain ⟨file, entry, encoded⟩ := encode_named (ascii "values")
  exact ⟨file, entry, encoded, (slotFile_reads_iff encoded).mpr ⟨by decide, by decide, by decide, rfl⟩⟩

end SlabWrite

end AgentC.Persistence

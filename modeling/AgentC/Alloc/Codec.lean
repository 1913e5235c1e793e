import AgentC.Alloc.Images
import AgentC.Library.Readers

/-! Slab images and root states as bytes: the writers, and the readers of what they write. -/

namespace AgentC

/-- The longest `std::string`. -/
def maxString : Nat := 4611686018427387903

/-- The longest `std::vector<size_t>`. -/
def maxWords : Nat := 1152921504606846975

/-- The longest `std::vector<ArenaStructuredSlot>`, at forty bytes a slot. -/
def maxSlots : Nat := 230584300921369395

/-- The longest `std::vector<ArenaRootAnchor>`, at forty bytes an anchor. -/
def maxAnchors : Nat := 230584300921369395

namespace ArenaSlabEncoding

def byte : ArenaSlabEncoding → Nat
  | rawBytes => 0
  | structured => 1

def ofByte : Nat → Option ArenaSlabEncoding
  | 0 => some rawBytes
  | 1 => some structured
  | _ => none

end ArenaSlabEncoding

section Images

def serializeSlot (slot : ArenaStructuredSlot) : List UInt8 :=
  wordBytes 2 slot.offset ++ wordBytes 8 slot.payload.length ++ slot.payload

/-- The bytes of an image. The payload of the kind that its encoding does not use is left out. -/
def serializeArenaSlabImage (image : ArenaSlabImage) : List UInt8 :=
  let out := wordBytes 1 image.encoding.byte ++ wordBytes 2 image.slabIndex ++
    wordBytes 4 image.count.toNat ++ wordBytes 8 image.inUse.length ++
    wordsBytes 8 (image.inUse.map UInt64.toNat)
  match image.encoding with
  | .rawBytes => out ++ image.bytes
  | .structured =>
    out ++ wordBytes 8 image.structuredSlots.length ++ image.structuredSlots.flatMap serializeSlot

/-- The slot at the cursor, and the cursor behind it. -/
def readSlot : Reader ArenaStructuredSlot := fun text cursor =>
  if text.length - cursor < 10 then none
  else
    let offset := wordAt text cursor 2
    let payloadSize := wordAt text (cursor + 2) 8
    let cursor := cursor + 10
    if text.length - cursor < payloadSize then none
    else some (⟨offset, (text.drop cursor).take payloadSize⟩, cursor + payloadSize)

/-- The image that bytes stand for; nothing when they are refused or an exception is thrown. -/
def deserializeArenaSlabImage (text : List UInt8) : Option ArenaSlabImage :=
  if text.length < 15 then none
  else
    match ArenaSlabEncoding.ofByte (wordAt text 0 1) with
    | none => none
    | some encoding =>
      let slabIndex := wordAt text 1 2
      let count := UInt32.ofNat (wordAt text 3 4)
      let inUseSize := wordAt text 7 8
      -- The size that is expected is computed as a `size_t`.
      if text.length < (15 + inUseSize * 8) % 2 ^ 64 then none
      -- `resize` throws for a length that no vector has.
      else if maxWords < inUseSize then none
      else
        let inUse := (wordsAt text 15 8 inUseSize).map UInt64.ofNat
        let cursor := 15 + 8 * inUseSize
        match encoding with
        | .rawBytes =>
          some { slabIndex, count, inUse, encoding, bytes := text.drop cursor, structuredSlots := [] }
        | .structured =>
          if text.length - cursor < 8 then none
          else
            let slotCount := wordAt text cursor 8
            -- `reserve` throws for a length that no vector has.
            if maxSlots < slotCount then none
            else
              match readSlot.many slotCount text (cursor + 8) with
              | none => none
              | some (structuredSlots, cursor) =>
                if cursor = text.length then
                  some { slabIndex, count, inUse, encoding, bytes := [], structuredSlots }
                else none

end Images

structure ArenaRootAnchor where
  name : List UInt8
  valueSid : SlabId
  deriving DecidableEq, Repr

/-- The root values of a saved arena. -/
structure ArenaRootState where
  version : UInt32
  anchors : List ArenaRootAnchor
  deriving DecidableEq, Repr

section Roots

def readPod (width : Nat) : Reader Nat := fun text cursor =>
  if text.length < cursor + width then none else some (wordAt text cursor width, cursor + width)

def stringBytes (value : List UInt8) : List UInt8 :=
  wordBytes 8 value.length ++ value

/-- A string at the cursor, and the cursor behind it. -/
def readString : Reader (List UInt8) := fun text cursor =>
  match readPod 8 text cursor with
  | none => none
  | some (size, cursor) =>
    -- The place behind the string is computed as a `size_t`.
    if text.length < (cursor + size) % 2 ^ 64 then none
    -- `assign` throws for a length that no string has.
    else if maxString < size then none
    else some ((text.drop cursor).take size, cursor + size)

def slabIdBytes (si : SlabId) : List UInt8 :=
  wordBytes 2 si.first ++ wordBytes 2 si.second

def readSlabId : Reader SlabId := fun text cursor =>
  (readPod 2 text cursor).bind fun (first, cursor) =>
    (readPod 2 text cursor).map fun (second, cursor) => (⟨first, second⟩, cursor)

def anchorBytes (anchor : ArenaRootAnchor) : List UInt8 :=
  stringBytes anchor.name ++ slabIdBytes anchor.valueSid

/-- An anchor at the cursor, and the cursor behind it. -/
def readAnchor : Reader ArenaRootAnchor := fun text cursor =>
  (readString text cursor).bind fun (name, cursor) =>
    (readSlabId text cursor).map fun (valueSid, cursor) => (⟨name, valueSid⟩, cursor)

def serializeArenaRootState (rootState : ArenaRootState) : List UInt8 :=
  wordBytes 4 rootState.version.toNat ++ wordBytes 8 rootState.anchors.length ++
    rootState.anchors.flatMap anchorBytes

/-- The root state that bytes stand for; nothing when they are refused or an exception is thrown. -/
def deserializeArenaRootState (text : List UInt8) : Option ArenaRootState :=
  (readPod 4 text 0).bind fun (version, cursor) =>
    (readPod 8 text cursor).bind fun (anchorCount, cursor) =>
      -- `reserve` throws for a length that no vector has.
      if maxAnchors < anchorCount then none
      else
        (readAnchor.many anchorCount text cursor).bind fun (anchors, cursor) =>
          if cursor = text.length then some ⟨UInt32.ofNat version, anchors⟩ else none

end Roots

end AgentC

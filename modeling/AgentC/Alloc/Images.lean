import AgentC.Alloc.Allocator

/-! Slab images, slab files, and the operations that bring their contents back into an allocator. -/

namespace AgentC

universe u

structure ArenaStructuredSlot where
  offset : Nat := 0
  payload : List UInt8 := []
  deriving DecidableEq, Repr

/-- The serializable form of one slab. -/
structure ArenaSlabImage where
  slabIndex : Nat := 0
  count : UInt32 := 0
  inUse : List UInt64 := []
  encoding : ArenaSlabEncoding := .rawBytes
  bytes : List UInt8 := []
  structuredSlots : List ArenaStructuredSlot := []
  deriving DecidableEq, Repr

/-- What reading a slab file at `restoreSlabFromFile` comes to. -/
inductive SlabFileRead (T : Type u) where
  /-- The file does not exist or cannot be opened. -/
  | unavailable
  | shortInUse (inUse : Nat → UInt64)
  /-- The file ends inside the slots, which are left as given. -/
  | shortItems (inUse : Nat → UInt64) (items : Nat → T)
  | complete (inUse : Nat → UInt64) (items : Nat → T)

/-- What mapping one backing file at `reattachFileBackedSlabs` comes to. -/
inductive SlabFileMapping (T : Type u) where
  | absent
  | failed
  | mapped (inUse : Nat → UInt64) (items : Nat → T)

namespace Slab

variable {T : Type u}

def itemBytes (traits : ArenaTraits T) (slab : Slab T) : List UInt8 :=
  (List.range slabSize).flatMap fun offset => traits.toBytes (slab.items offset)

def exportSlots (traits : ArenaTraits T) (slab : Slab T) : Option (List ArenaStructuredSlot) :=
  ((List.range slabSize).filter fun offset => slab.inUse offset != 0).mapM fun offset =>
    (traits.exportSlot (slab.items offset)).map fun payload => ⟨offset, payload⟩

def exportImage (traits : ArenaTraits T) (index : Nat) (slab : Slab T) : Option ArenaSlabImage :=
  let plain : ArenaSlabImage :=
    { slabIndex := index
      count := slab.count.toUInt32
      inUse := (List.range slabSize).map slab.inUse
      encoding := traits.encoding }
  match traits.encoding with
  | .rawBytes => some { plain with bytes := slab.itemBytes traits }
  | .structured => (slab.exportSlots traits).map fun slots => { plain with structuredSlots := slots }

def hasUserSlot (slab : Slab T) : Bool :=
  (List.range slabSize).any fun offset => decide (1 ≤ offset) && slab.inUse offset != 0

end Slab

namespace Allocator

variable {T : Type u}

/-- The slabs that `exportSlabImages` writes out, with their indices. -/
def exportedSlabs (s : Allocator T) : List (Nat × Slab T) :=
  (List.range numSlabs).filterMap fun index =>
    match s.slabs index with
    | some slab => if slab.hasUserSlot then some (index, slab) else none
    | none => none

def exportSlabImages (traits : ArenaTraits T) (s : Allocator T) : List ArenaSlabImage :=
  if traits.supported then
    (s.exportedSlabs.mapM fun (entry : Nat × Slab T) => entry.2.exportImage traits entry.1).getD []
  else []

def clearSlabsOnly (s : Allocator T) : Allocator T :=
  { s with slabs := fun index => if index < numSlabs then none else s.slabs index }

def restoreSlots (traits : ArenaTraits T) (image : ArenaSlabImage) :
    List ArenaStructuredSlot → List Nat → Slab T → Bool × List Nat × Slab T
  | [], restored, slab => (true, restored, slab)
  | slot :: rest, restored, slab =>
    if slabSize ≤ slot.offset ∨ image.inUse.getD slot.offset 0 = 0 ∨ slot.offset ∈ restored then
      (false, restored, slab)
    else match traits.restoreSlot slot.payload with
      | none => (false, restored, slab)
      | some item =>
        restoreSlots traits image rest (slot.offset :: restored) (slab.setItem slot.offset item)

/-- The body of the loop of `restoreSlabImages`: whether it goes on, and the slab it leaves behind. -/
def restoreImage [Inhabited T] (traits : ArenaTraits T) (s : Allocator T) (image : ArenaSlabImage) :
    Bool × Allocator T :=
  if numSlabs ≤ image.slabIndex ∨ image.inUse.length ≠ slabSize ∨
      image.encoding ≠ traits.encoding then (false, s)
  else
    let empty : Slab T := Slab.fresh false
    let created : Slab T :=
      { empty with
        count := image.count.toUInt64
        inUse := fun k => image.inUse.getD k 0 }
    match traits.encoding with
    | .rawBytes =>
      if image.bytes.length ≠ slabSize * traits.byteSize then
        (false, s.setSlab image.slabIndex created)
      else
        (true, s.setSlab image.slabIndex { created with
          items := fun k =>
            traits.fromBytes ((image.bytes.drop (k * traits.byteSize)).take traits.byteSize) })
    | .structured =>
      match restoreSlots traits image image.structuredSlots [] created with
      | (done, restored, slab) =>
        (done && (List.range slabSize).all fun offset =>
            image.inUse.getD offset 0 == 0 || decide (offset ∈ restored),
          s.setSlab image.slabIndex slab)

/-- The loop of `restoreSlabImages`, which stops at the first image it cannot take. -/
def restoreImages [Inhabited T] (traits : ArenaTraits T) :
    List ArenaSlabImage → Allocator T → Bool × Allocator T
  | [], s => (true, s)
  | image :: rest, s =>
    match restoreImage traits s image with
    | (true, s) => restoreImages traits rest s
    | (false, s) => (false, s)

/-- Replacing every slab by the images, and taking the null slot again when no image holds it. -/
def restoreSlabImages [Inhabited T] (traits : ArenaTraits T) (s : Allocator T) (create : Nat → Bool)
    (images : List ArenaSlabImage) : Except AllocError Bool × Allocator T :=
  if !traits.supported then (.ok false, s)
  else match restoreImages traits images s.clearSlabsOnly with
    | (false, s) => (.ok false, s)
    | (true, s) =>
      if s.refs ⟨0, 0⟩ = 0 then
        match s.allocRaw create with
        | (.ok _, s) => (.ok true, { s with allocationLog := [] })
        | (.error e, s) => (.error e, s)
      else (.ok true, s)

def restoreSlabFromFile (s : Allocator T) (index : Nat) (file : SlabFileRead T) :
    Bool × Allocator T :=
  if index < numSlabs then
    match s.slabs index, file with
    | none, _ => (false, s)
    | some _, .unavailable => (false, s)
    | some slab, .shortInUse inUse => (false, s.setSlab index { slab with inUse := inUse })
    | some slab, .shortItems inUse items =>
      (false, s.setSlab index { slab with inUse := inUse, items := items })
    | some slab, .complete inUse items =>
      let filled := { slab with inUse := inUse, items := items }
      (true, s.setSlab index { filled with count := UInt64.ofNat filled.liveSlots })
  else (false, s)

/-- The loop of `reattachFileBackedSlabs`: every file found is bound as a slab with count zero. -/
def reattachSlabs [Inhabited T] (files : Nat → SlabFileMapping T) :
    List Nat → Allocator T → Bool × Allocator T
  | [], s => (true, s)
  | index :: rest, s =>
    match files index with
    | .absent => reattachSlabs files rest s
    | .failed => (false, s)
    | .mapped inUse items =>
      let empty : Slab T := Slab.fresh true
      reattachSlabs files rest (s.setSlab index { empty with inUse := inUse, items := items })

def reattachFileBackedSlabs [Inhabited T] (s : Allocator T) (files : Nat → SlabFileMapping T) :
    Bool × Allocator T :=
  match s.backingPolicy with
  | .heap => (false, s)
  | .mmapFile => reattachSlabs files (List.range numSlabs) s

def setSlabBackingPolicy (s : Allocator T) (policy : ArenaSlabBackingPolicy) : Allocator T :=
  { s with backingPolicy := policy }

def configureMmapFileBackedSlabs (s : Allocator T) : Allocator T :=
  { s with backingPolicy := .mmapFile }

end Allocator

end AgentC

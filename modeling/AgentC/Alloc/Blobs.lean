import Mathlib.Logic.Function.Basic
import AgentC.Library.Runs
import AgentC.Library.Search
import AgentC.Alloc.Slab

/-! The blob allocator, and its runs between checkpoints. -/

namespace AgentC

/-- Bytes of one blob slab. `count` of them are in use. -/
structure BlobSlab where
  count : Nat := 0
  bytes : Nat → UInt8

namespace BlobSlab

/-- Bytes in one blob slab (`kBlobSlabBytes`). -/
@[irreducible] def size : Nat := 65536

/-- Copying data behind the bytes in use. -/
def store (slab : BlobSlab) (data : List UInt8) : BlobSlab where
  count := slab.count + data.length
  bytes := fun k =>
    if slab.count ≤ k ∧ k < slab.count + data.length then data.getD (k - slab.count) 0
    else slab.bytes k

def created (index : Nat) (bytes : Nat → UInt8) : BlobSlab where
  count := if index = 0 then 1 else 0
  bytes := bytes

/-- The `setCount` member. -/
def setCount (slab : BlobSlab) (count : Nat) : BlobSlab :=
  { slab with count := count }

end BlobSlab

/-- What `checkpoint` hands out. -/
structure BlobCheckpoint where
  depth : Nat
  valid : Bool
  watermark : SlabId
  deriving DecidableEq, Repr

/--
The blob allocator. `checkpointStack` is as long as `checkpointWatermarks`, whose head is `back()`.
-/
structure BlobAllocator where
  slabs : Nat → Option BlobSlab
  checkpointWatermarks : List SlabId

namespace BlobAllocator

def initial : BlobAllocator where
  slabs := fun _ => none
  checkpointWatermarks := []

def setSlab (s : BlobAllocator) (index : Nat) (slab : BlobSlab) : BlobAllocator :=
  { s with slabs := Function.update s.slabs index (some slab) }

/--
The loop of `allocate`, from a slab on. `create` says which bytes a new slab starts with, or that
creating it throws; the result is then missing.
-/
def allocateFrom (create : Nat → Option (Nat → UInt8)) (data : List UInt8) :
    Nat → Nat → BlobAllocator → Option SlabId × BlobAllocator
  | 0, _, s => (some ⟨0, 0⟩, s)
  | left + 1, i, s =>
    let visit (slab : BlobSlab) (s : BlobAllocator) : Option SlabId × BlobAllocator :=
      if data.length ≤ BlobSlab.size - slab.count then
        -- The offset is stored in 16 bits.
        (some ⟨i, slab.count % 65536⟩, s.setSlab i (slab.store data))
      else allocateFrom create data left (i + 1) s
    match s.slabs i with
    | some slab => visit slab s
    | none =>
      match create i with
      | some bytes => visit (BlobSlab.created i bytes) (s.setSlab i (BlobSlab.created i bytes))
      | none => (none, s)

/-- Storing data in the first slab with room for it. -/
def allocate (s : BlobAllocator) (create : Nat → Option (Nat → UInt8)) (data : List UInt8) :
    Option SlabId × BlobAllocator :=
  if data.length = 0 ∨ BlobSlab.size < data.length then (some ⟨0, 0⟩, s)
  else allocateFrom create data numSlabs 0 s

/-- The bytes that `getPointer` gives access to. -/
def readBlob (s : BlobAllocator) (id : SlabId) (length : Nat) : Option (List UInt8) :=
  if id.isSet && decide (id.first < numSlabs) then
    (s.slabs id.first).map fun slab => (List.range length).map fun k => slab.bytes (id.second + k)
  else none

/-- The last slab there is, with its fill level in 16 bits, or the null id. -/
def currentWatermark (s : BlobAllocator) : SlabId :=
  match lastBelow (fun i => (s.slabs i).isSome) numSlabs with
  | some i => ⟨i, ((s.slabs i).map BlobSlab.count).getD 0 % 65536⟩
  | none => ⟨0, 0⟩

def checkpoint (s : BlobAllocator) : BlobCheckpoint × BlobAllocator :=
  let watermark := s.currentWatermark
  (⟨s.checkpointWatermarks.length + 1, true, watermark⟩,
    { s with checkpointWatermarks := watermark :: s.checkpointWatermarks })

def accepts (s : BlobAllocator) (token : BlobCheckpoint) : Bool :=
  token.valid && !s.checkpointWatermarks.isEmpty && token.depth == s.checkpointWatermarks.length

def commit (s : BlobAllocator) (token : BlobCheckpoint) : Bool × BlobAllocator :=
  if s.accepts token then (true, { s with checkpointWatermarks := s.checkpointWatermarks.tail })
  else (false, s)

/-- Going back to the innermost checkpoint: later slabs are emptied, and the last one is cut. -/
def rollback (s : BlobAllocator) (token : BlobCheckpoint) : Bool × BlobAllocator :=
  if s.accepts token then
    (true,
      { slabs := fun i =>
          if token.watermark.first < i then (s.slabs i).map (·.setCount 0)
          else if i = token.watermark.first then
            (s.slabs i).map (·.setCount token.watermark.second)
          else s.slabs i
        checkpointWatermarks := s.checkpointWatermarks.tail })
  else (false, s)

def fillLevel (s : BlobAllocator) (index : Nat) : Nat :=
  match s.slabs index with
  | some slab => slab.count
  | none => if index = 0 then 1 else 0

end BlobAllocator

abbrev Blob := SlabId × List UInt8

structure BlobFrame where
  token : BlobCheckpoint
  start : BlobAllocator
  blobs : List Blob

/-- An allocator with the blobs that it holds and the checkpoints that are open. -/
structure BlobRun where
  now : BlobAllocator
  blobs : List Blob
  frames : List BlobFrame

/-- An operation of a program that nests its checkpoints properly. -/
inductive BlobCall where
  | allocate (create : Nat → Option (Nat → UInt8)) (data : List UInt8)
  | checkpoint
  | commit
  | rollback

namespace BlobRun

def initial : BlobRun where
  now := BlobAllocator.initial
  blobs := []
  frames := []

def record (blobs : List Blob) (data : List UInt8) : Option SlabId → List Blob
  | some id => if id.isSet then (id, data) :: blobs else blobs
  | none => blobs

/-- One operation. A rollback takes the blobs away that were allocated since the checkpoint. -/
def step (s : BlobRun) : BlobCall → Option BlobRun
  | .allocate create data =>
    let (id, now) := s.now.allocate create data
    some { s with now := now, blobs := record s.blobs data id }
  | .checkpoint =>
    let (token, now) := s.now.checkpoint
    some { s with now := now, frames := ⟨token, s.now, s.blobs⟩ :: s.frames }
  | .commit =>
    match s.frames with
    | frame :: outer => some { s with now := (s.now.commit frame.token).2, frames := outer }
    | [] => none
  | .rollback =>
    match s.frames with
    | frame :: outer => some ⟨(s.now.rollback frame.token).2, frame.blobs, outer⟩
    | [] => none

end BlobRun

end AgentC

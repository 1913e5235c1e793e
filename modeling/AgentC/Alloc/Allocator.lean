import Mathlib.Data.Finset.Insert
import AgentC.Library.Search
import AgentC.Alloc.Slab

/-! The slab allocator: its state, and every operation that allocates, frees, pins or rolls back. -/

namespace AgentC

universe u

/-- What `checkpoint` returns to its caller. -/
structure Checkpoint where
  logStart : Nat := 0
  depth : Nat := 0
  valid : Bool := false
  watermark : SlabId := {}
  appendOnlyEligible : Bool := false
  deriving DecidableEq, Repr

/-- One entry of the three parallel checkpoint vectors, which are always pushed and popped together. -/
structure CheckpointFrame where
  logStart : Nat
  watermark : SlabId
  appendOnly : Bool
  deriving DecidableEq, Repr

/-- The exceptions an allocation can end with. -/
inductive AllocError where
  | badAlloc
  | slabBackingFailed
  deriving DecidableEq, Repr

/--
The allocator's members.

The head of `checkpoints` is `back()` of the source's vectors.
`destructorRuns` records the calls of `~T()`, oldest first. The source has no such member.
-/
structure Allocator (T : Type u) where
  slabs : Nat → Option (Slab T) := fun _ => none
  allocationLog : List SlabId := []
  backingPolicy : ArenaSlabBackingPolicy := .heap
  checkpoints : List CheckpointFrame := []
  rollbackProtectedFreeSlots : Finset SlabId := ∅
  staticImmortalSlabs : Nat → Nat := fun _ => 0
  staticImmortalSlots : SlabId → Nat := fun _ => 0
  lastRollbackUsedFastPath : Bool := false
  lastRollbackUsedStrictFastPath : Bool := false
  destructorRuns : List SlabId := []

namespace Allocator

variable {T : Type u}

def setSlab (s : Allocator T) (index : Nat) (slab : Slab T) : Allocator T :=
  { s with slabs := fun k => if k = index then some slab else s.slabs k }

def dropSlab (s : Allocator T) (index : Nat) : Allocator T :=
  { s with slabs := fun k => if k = index then none else s.slabs k }

def slabOf (s : Allocator T) (si : SlabId) : Option (Slab T) :=
  if si.first < numSlabs ∧ si.second < slabSize then s.slabs si.first else none

def refs (s : Allocator T) (si : SlabId) : UInt64 :=
  match s.slabOf si with
  | some slab => slab.inUse si.second
  | none => 0

def valid (s : Allocator T) (si : SlabId) : Bool :=
  si.isSet && s.refs si != 0

/-- The payload of a valid slot (`getPtr`). -/
def getPtr (s : Allocator T) (si : SlabId) : Option T :=
  if s.valid si then (s.slabOf si).map fun slab => slab.items si.second else none

def slotIsStaticImmortal (s : Allocator T) (si : SlabId) : Bool :=
  (decide (si.first < numSlabs) &&
      match s.slabs si.first with
      | some slab => slab.staticImmortal
      | none => false) ||
    s.staticImmortalSlabs si.first != 0 || s.staticImmortalSlots si != 0

def setRefs (s : Allocator T) (si : SlabId) (value : UInt64) : Allocator T :=
  match s.slabOf si with
  | some slab => s.setSlab si.first (slab.setInUse si.second value)
  | none => s

/-- Adding to a reference count in `size_t` arithmetic, which immortal slots ignore. -/
def modrefs (s : Allocator T) (si : SlabId) (delta : Int) : Allocator T :=
  match s.slabOf si with
  | some slab =>
    if s.slotIsStaticImmortal si then s
    else s.setSlab si.first (slab.setInUse si.second (slab.inUse si.second + UInt64.ofInt delta))
  | none => s

/-- Taking one more reference to a slot that somebody already holds. -/
def tryRetain (s : Allocator T) (si : SlabId) : Bool × Allocator T :=
  if !si.isSet then (false, s)
  else match s.slabOf si with
    | some slab =>
      if slab.inUse si.second = 0 then (false, s)
      else if s.slotIsStaticImmortal si then (true, s)
      else (true, s.setSlab si.first (slab.setInUse si.second (slab.inUse si.second + 1)))
    | none => (false, s)

def watermarkBelow (s : Allocator T) : Nat → SlabId
  | 0 => {}
  | index + 1 =>
    match s.slabs index with
    | none => s.watermarkBelow index
    | some _ =>
      match lastBelow (fun offset => s.refs ⟨index, offset⟩ != 0) slabSize with
      | some offset => ⟨index, offset⟩
      | none => s.watermarkBelow index

def currentHighWatermark (s : Allocator T) : SlabId :=
  s.watermarkBelow numSlabs

/--
A new slab for the given index.

Under the file policy `create` says whether the backing file could be created and mapped.
-/
def createOwnedSlab [Inhabited T] (s : Allocator T) (create : Nat → Bool) (index : Nat) : Option (Slab T) :=
  match s.backingPolicy with
  | .heap => some (Slab.fresh false)
  | .mmapFile => if create index then some (Slab.fresh true) else none

def available (s : Allocator T) (si : SlabId) : Bool :=
  s.refs si == 0 && decide (si ∉ s.rollbackProtectedFreeSlots)

/--
The search loop of `allocRaw` outside any checkpoint.

`offset` is the value `si.second` has when the loop reaches a slab.
A slab whose scan finds nothing leaves it at `slabSize`, and a new slab is then used at that offset.
-/
def searchSlot [Inhabited T] (s : Allocator T) (create : Nat → Bool) :
    List Nat → Nat → Except AllocError SlabId × Allocator T
  | [], _ => (.error .badAlloc, s)
  | index :: rest, offset =>
    match s.slabs index with
    | some slab =>
      if slab.count < UInt64.ofNat slabSize then
        match (List.range slabSize).find? fun k => s.available ⟨index, k⟩ with
        | some k => (.ok ⟨index, k⟩, s)
        | none => searchSlot s create rest slabSize
      else searchSlot s create rest 0
    | none =>
      match s.createOwnedSlab create index with
      | some slab => (.ok ⟨index, offset⟩, s.setSlab index slab)
      | none => (.error .slabBackingFailed, s)

def appendStart (watermark : SlabId) (index : Nat) : Nat :=
  if watermark.isSet && index == watermark.first then watermark.second + 1
  else if !watermark.isSet && index == 0 then 1
  else 0

/-- The slab loop of `allocateAppendOnlyRaw`, which creates the slabs it passes. -/
def appendSlot [Inhabited T] (create : Nat → Bool) (watermark : SlabId) :
    List Nat → Allocator T → Except AllocError SlabId × Allocator T
  | [], s => (.error .badAlloc, s)
  | index :: rest, s =>
    let ensured := match s.slabs index with
      | some _ => some s
      | none => (s.createOwnedSlab create index).map (s.setSlab index)
    match ensured with
    | none => (.error .slabBackingFailed, s)
    | some s =>
      match (List.range slabSize).find? fun k =>
          decide (appendStart watermark index ≤ k) && (⟨index, k⟩ : SlabId).isSet &&
            s.available ⟨index, k⟩ with
      | some k => (.ok ⟨index, k⟩, s)
      | none => appendSlot create watermark rest s

/-- The search behind the watermark of the slab loop in a slab that is there, and after it in the others. -/
def appendIn [Inhabited T] (create : Nat → Bool) (watermark : SlabId) (index : Nat)
    (rest : List Nat) (s : Allocator T) : Except AllocError SlabId × Allocator T :=
  match (List.range slabSize).find? fun k =>
      decide (appendStart watermark index ≤ k) && (⟨index, k⟩ : SlabId).isSet &&
        s.available ⟨index, k⟩ with
  | some k => (.ok ⟨index, k⟩, s)
  | none => appendSlot create watermark rest s

/-- Allocation while a checkpoint is outstanding: the first available slot past the watermark. -/
def allocateAppendOnlyRaw [Inhabited T] (s : Allocator T) (create : Nat → Bool) :
    Except AllocError SlabId × Allocator T :=
  let watermark := s.currentHighWatermark
  let start := if watermark.isSet then watermark.first else 0
  appendSlot create watermark ((List.range numSlabs).drop start) s

/-- The bookkeeping at the `allocated` label: count, reference and log. -/
def markAllocated (s : Allocator T) (si : SlabId) : Allocator T :=
  let counted := match s.slabs si.first with
    | some slab => s.setSlab si.first { slab with count := slab.count + 1 }
    | none => s
  let held := counted.modrefs si 1
  if held.checkpoints.isEmpty then held
  else { held with allocationLog := held.allocationLog ++ [si] }

/-- Reserving a slot without constructing a payload in it. -/
def allocRaw [Inhabited T] (s : Allocator T) (create : Nat → Bool) :
    Except AllocError SlabId × Allocator T :=
  let found := if s.checkpoints.isEmpty then s.searchSlot create (List.range numSlabs) 0
    else s.allocateAppendOnlyRaw create
  match found with
  | (.ok si, s) => (.ok si, s.markAllocated si)
  | (.error e, s) => (.error e, s)

def placeItem (s : Allocator T) (si : SlabId) (item : T) : Allocator T :=
  match s.slabs si.first with
  | some slab => s.setSlab si.first (slab.setItem si.second item)
  | none => s

/-- Reserving a slot and constructing a payload in it. -/
def allocate [Inhabited T] (s : Allocator T) (create : Nat → Bool) (item : T) :
    Except AllocError SlabId × Allocator T :=
  match s.allocRaw create with
  | (.ok si, s) => (.ok si, s.placeItem si item)
  | (.error e, s) => (.error e, s)

/-- The allocator `getAllocator` hands out: its first slot is taken as the null sentinel. -/
def initial [Inhabited T] : Allocator T :=
  (allocRaw {} fun _ => true).2

/-- Opening a checkpoint at the current log position and watermark. -/
def checkpoint (s : Allocator T) : Checkpoint × Allocator T :=
  let watermark := s.currentHighWatermark
  let opened : Allocator T := { s with
    checkpoints := ⟨s.allocationLog.length, watermark, true⟩ :: s.checkpoints
    lastRollbackUsedFastPath := false
    lastRollbackUsedStrictFastPath := false }
  (⟨s.allocationLog.length, opened.checkpoints.length, true, watermark, true⟩, opened)

def currentCheckpoint (s : Allocator T) : Checkpoint :=
  match s.checkpoints with
  | [] => {}
  | top :: _ => ⟨top.logStart, s.checkpoints.length, true, top.watermark, top.appendOnly⟩

def invalidateCheckpointFastPath (s : Allocator T) : Allocator T :=
  { s with checkpoints := s.checkpoints.map fun frame => { frame with appendOnly := false } }

def protectSlot (s : Allocator T) (si : SlabId) : Allocator T :=
  { s with rollbackProtectedFreeSlots := insert si s.rollbackProtectedFreeSlots }

/-- The branch of `deallocate` taken when the last reference is gone. -/
def freeSlot (s : Allocator T) (si : SlabId) : Bool × Allocator T :=
  let reserved := if s.checkpoints.isEmpty then s
    else (s.protectSlot si).invalidateCheckpointFastPath
  let destroyed := { reserved with destructorRuns := reserved.destructorRuns ++ [si] }
  match destroyed.slabs si.first with
  | none => (false, destroyed)
  | some slab =>
    let count := slab.count - 1
    if count = 0 then (true, destroyed.dropSlab si.first)
    else (false, destroyed.setSlab si.first { slab with count := count })

/-- Dropping one reference, and freeing the slot with its payload when that was the last. -/
def deallocate (s : Allocator T) (si : SlabId) : Bool × Allocator T :=
  if s.slotIsStaticImmortal si then (false, s)
  else if s.valid si then
    let dropped := s.modrefs si (-1)
    if dropped.refs si = 0 then dropped.freeSlot si else (false, dropped)
  else (false, s)

/-- Whether a token denotes the innermost outstanding checkpoint, as `commit` and `rollback` test it. -/
def accepts (s : Allocator T) (token : Checkpoint) : Bool :=
  match s.checkpoints with
  | [] => false
  | top :: _ =>
    token.valid && token.depth == s.checkpoints.length && token.logStart == top.logStart

/-- Popping the innermost checkpoint, and forgetting the log once none is outstanding. -/
def popCheckpoint (s : Allocator T) : Allocator T :=
  let popped := { s with checkpoints := s.checkpoints.tail }
  if popped.checkpoints.isEmpty then
    { popped with allocationLog := [], rollbackProtectedFreeSlots := ∅ }
  else popped

def commit (s : Allocator T) (token : Checkpoint) : Bool × Allocator T :=
  if s.accepts token then
    (true, { s.popCheckpoint with lastRollbackUsedStrictFastPath := false })
  else (false, s)

def rollbackAllocation (s : Allocator T) (si : SlabId) : Allocator T :=
  if s.refs si = 0 then s else ((s.setRefs si 1).deallocate si).2

def previousSlot (si : SlabId) : SlabId :=
  if si.second = 0 then ⟨si.first - 1, slabSize - 1⟩ else ⟨si.first, si.second - 1⟩

/--
The loop of `rollbackAppendOnlyFromWatermark`.

The first argument bounds the walk by the number of slots at or before the current one.
-/
def rollbackDown (watermark : SlabId) : Nat → SlabId → Allocator T → Allocator T
  | 0, _, s => s
  | remaining + 1, current, s =>
    if current.isSet && current != watermark then
      rollbackDown watermark remaining (previousSlot current) (s.rollbackAllocation current)
    else s

/-- Discarding every held slot above the watermark, one at a time. -/
def rollbackAppendOnlyFromWatermark (s : Allocator T) (watermark : SlabId) : Allocator T :=
  let current := s.currentHighWatermark
  rollbackDown watermark (current.first * slabSize + current.second) current s

/-- Clearing one slab from an offset on, with the count that the strict reset stores. -/
def clearFrom (traits : ArenaTraits T) (start : Nat) (count : UInt64) (slab : Slab T) : Slab T :=
  { slab with
    count := count
    inUse := fun k => if start ≤ k then 0 else slab.inUse k
    items := fun k => if start ≤ k ∧ slab.inUse k ≠ 0 then traits.resetTransient (slab.items k)
      else slab.items k }

def clearPastNull (slab : Slab T) : Slab T :=
  { slab with
    count := if slab.inUse 0 = 0 then 0 else 1
    inUse := fun k => if 1 ≤ k then 0 else slab.inUse k }

/-- Resetting everything above the watermark without looking at the log. -/
def rollbackStrictAppendOnlyFromWatermark (traits : ArenaTraits T) (s : Allocator T)
    (watermark : SlabId) : Allocator T :=
  { s with slabs := fun index =>
      if watermark.first < index ∧ index < numSlabs then
        (s.slabs index).map (clearFrom traits 0 0)
      else if index = watermark.first then
        if watermark.isSet then
          (s.slabs index).map
            (clearFrom traits (watermark.second + 1) (UInt64.ofNat (watermark.second + 1)))
        else (s.slabs index).map clearPastNull
      else s.slabs index }

/-- `std::vector::resize` on the allocation log. -/
def resizeLog (log : List SlabId) (size : Nat) : List SlabId :=
  log.take size ++ List.replicate (size - log.length) ⟨0, 0⟩

/-- The reset that `rollback` chooses for the innermost checkpoint. -/
def discardSince (traits : ArenaTraits T) (s : Allocator T) (top : CheckpointFrame)
    (token : Checkpoint) : Allocator T :=
  let entered := { s with
    lastRollbackUsedFastPath := top.appendOnly
    lastRollbackUsedStrictFastPath := top.appendOnly && traits.strictEligible }
  if top.appendOnly then
    if traits.strictEligible then
      rollbackStrictAppendOnlyFromWatermark traits entered token.watermark
    else entered.rollbackAppendOnlyFromWatermark token.watermark
  else (entered.allocationLog.drop token.logStart).reverse.foldl rollbackAllocation entered

/-- Discarding everything allocated since the innermost checkpoint. -/
def rollback (traits : ArenaTraits T) (s : Allocator T) (token : Checkpoint) :
    Bool × Allocator T :=
  match s.checkpoints with
  | [] => (false, s)
  | top :: _ =>
    if s.accepts token then
      let reset := s.discardSince traits top token
      (true, popCheckpoint
        { reset with allocationLog := resizeLog reset.allocationLog token.logStart })
    else (false, s)

def markSlabStaticImmortal (s : Allocator T) (index : Nat) : Bool × Allocator T :=
  if index < numSlabs then
    match s.slabs index with
    | some slab =>
      (true, { s.setSlab index { slab with staticImmortal := true } with
        staticImmortalSlabs := fun k =>
          if k = index then s.staticImmortalSlabs k + 1 else s.staticImmortalSlabs k })
    | none => (false, s)
  else (false, s)

def markSlotStaticImmortal (s : Allocator T) (si : SlabId) : Bool × Allocator T :=
  if s.valid si then
    (true, { s with staticImmortalSlots := fun k =>
      if k = si then s.staticImmortalSlots k + 1 else s.staticImmortalSlots k })
  else (false, s)

/--
Removing one mark from a slab.

The last removal writes through the slab's pointer, so it is undefined when the slab is gone.
-/
def unmarkSlabStaticImmortal (s : Allocator T) (index : Nat) : Option (Bool × Allocator T) :=
  if s.staticImmortalSlabs index = 0 then some (false, s)
  else
    let unmarked := { s with staticImmortalSlabs := fun k =>
      if k = index then s.staticImmortalSlabs k - 1 else s.staticImmortalSlabs k }
    if s.staticImmortalSlabs index = 1 then
      match s.slabs index with
      | some slab => some (true, unmarked.setSlab index { slab with staticImmortal := false })
      | none => none
    else some (true, unmarked)

/-- Removing one mark from a slot. -/
def unmarkSlotStaticImmortal (s : Allocator T) (si : SlabId) : Bool × Allocator T :=
  if s.staticImmortalSlots si = 0 then (false, s)
  else (true, { s with staticImmortalSlots := fun k =>
    if k = si then s.staticImmortalSlots k - 1 else s.staticImmortalSlots k })

end Allocator

end AgentC

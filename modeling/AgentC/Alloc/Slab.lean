import Mathlib.Data.Nat.Count

/-! Slab identifiers, slabs, and the per-type traits the arena allocator is instantiated with. -/

namespace AgentC

universe u

/-- Slots in one slab (`SLAB_SIZE`). -/
@[irreducible] def slabSize : Nat := 1024

/-- Slabs an allocator can own (`NUM_SLABS`). -/
@[irreducible] def numSlabs : Nat := 4096

/-- A slot's address: the slab's index and the slot's offset inside it. -/
structure SlabId where
  first : Nat := 0
  second : Nat := 0
  deriving DecidableEq, Repr

namespace SlabId

/-- The conversion to `bool`: every id but the all-zero one is set. -/
def isSet (si : SlabId) : Bool :=
  si.first != 0 || si.second != 0

def InRange (si : SlabId) : Prop :=
  si.first < numSlabs ∧ si.second < slabSize

instance (si : SlabId) : Decidable si.InRange :=
  inferInstanceAs (Decidable (_ ∧ _))

def Before (left right : SlabId) : Prop :=
  left.first < right.first ∨ left.first = right.first ∧ left.second < right.second

instance (left right : SlabId) : Decidable (left.Before right) :=
  inferInstanceAs (Decidable (_ ∨ _))

end SlabId

/-- How a slab image stores its slots. -/
inductive ArenaSlabEncoding where
  | rawBytes
  | structured
  deriving DecidableEq, Repr

/-- Where a newly created slab keeps its slots. -/
inductive ArenaSlabBackingPolicy where
  | heap
  | mmapFile
  deriving DecidableEq, Repr

/--
What the allocator's template parameter supplies.

The first two fields are `ArenaWatermarkResetTraits`, the rest `ArenaPersistenceTraits`.
The payload's own code (`~T()`, `resetTransient`) is taken not to call back into the allocator.
-/
structure ArenaTraits (T : Type u) where
  strictEligible : Bool
  resetTransient : T → T
  supported : Bool
  encoding : ArenaSlabEncoding
  /-- `sizeof(T)`, with the object representation `memcpy` moves for raw slabs. -/
  byteSize : Nat
  toBytes : T → List UInt8
  fromBytes : List UInt8 → T
  exportSlot : T → Option (List UInt8)
  restoreSlot : List UInt8 → Option T

/-- The traits of `uint8_t`, which is trivially copyable and trivially destructible. -/
def byteTraits : ArenaTraits UInt8 where
  strictEligible := true
  resetTransient := id
  supported := true
  encoding := .rawBytes
  byteSize := 1
  toBytes := fun byte => [byte]
  fromBytes := fun bytes => bytes.headD 0
  exportSlot := fun _ => none
  restoreSlot := fun _ => none

/-- One slab: its stored count, the reference counts of its slots, and the slots themselves. -/
structure Slab (T : Type u) where
  count : UInt64
  inUse : Nat → UInt64
  items : Nat → T
  mappedBacking : Bool
  staticImmortal : Bool

namespace Slab

variable {T : Type u}

def fresh [Inhabited T] (mappedBacking : Bool) : Slab T where
  count := 0
  inUse := fun _ => 0
  items := fun _ => default
  mappedBacking := mappedBacking
  staticImmortal := false

def liveSlots (slab : Slab T) : Nat :=
  Nat.count (fun offset => slab.inUse offset ≠ 0) slabSize

def setInUse (slab : Slab T) (offset : Nat) (value : UInt64) : Slab T :=
  { slab with inUse := fun k => if k = offset then value else slab.inUse k }

def setItem (slab : Slab T) (offset : Nat) (item : T) : Slab T :=
  { slab with items := fun k => if k = offset then item else slab.items k }

end Slab

end AgentC

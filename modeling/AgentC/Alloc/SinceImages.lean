import AgentC.Alloc.ImageRoundTrip

/-! Exporting what was allocated since a checkpoint, and restoring it into a fresh allocator. -/

namespace AgentC

universe u

/-- The slots that `exportSlabImagesSince` looks at. -/
def Checkpoint.isAfterWatermark (token : Checkpoint) (si : SlabId) : Bool :=
  if token.watermark.isSet then
    decide (token.watermark.first < si.first) ||
      (si.first == token.watermark.first && decide (token.watermark.second < si.second))
  else si.isSet

namespace Slab

variable {T : Type u}

def since (token : Checkpoint) (index : Nat) (slab : Slab T) : Slab T :=
  { slab with inUse := fun k => if token.isAfterWatermark ⟨index, k⟩ then slab.inUse k else 0 }

end Slab

namespace Allocator

variable {T : Type u}

variable {s : Allocator T} {token : Checkpoint} {traits : ArenaTraits T}

section Rebuilt

variable [Inhabited T] {s t : Allocator T} {token : Checkpoint}

end Rebuilt

end Allocator

end AgentC

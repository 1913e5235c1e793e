import AgentC.Alloc.RollbackExact

/-! The strict reset to a watermark beside replaying the allocation log from the same state. -/

namespace AgentC

universe u

namespace Allocator

variable {T : Type u} {s t x : Allocator T}

section Replaying

variable {index : Nat} {slab : Slab T}

end Replaying

section Strict

variable (traits : ArenaTraits T) {watermark : SlabId}

variable {index : Nat} {log : List SlabId} {strict replayed : Allocator T}

end Strict

section Scopes

variable {added allocated released : List SlabId}

end Scopes

end Allocator

end AgentC

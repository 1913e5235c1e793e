import Mathlib.Logic.Function.Basic
import Mathlib.Data.List.Count
import AgentC.Alloc.Scopes

/-! Several allocators whose items hold pointers into one another, and the strict reset among them. -/

namespace AgentC

universe u

structure Handle (K : Type) where
  kind : K
  slot : SlabId
  deriving DecidableEq, Repr

/-- What the items of each allocator hold, and what `resetTransient` does with it. -/
structure HandleTraits (K : Type) (T : K → Type u) where
  handles : ∀ k, T k → List (Handle K)
  /-- Those that are reset by assigning a null pointer after their reference was given up. -/
  reassigned : ∀ k, T k → List (Handle K)
  /-- The item that is left. -/
  cleared : ∀ k, T k → T k

abbrev Arenas {K : Type} (T : K → Type u) := ∀ k, Allocator (T k)

def Slab.clearedFrom {T : Type u} (start : Nat) (count : UInt64) (slab : Slab T) : Slab T :=
  { slab with
    count := count
    inUse := fun k => if start ≤ k then 0 else slab.inUse k }

namespace Arenas

variable {K : Type} [DecidableEq K] {T : K → Type u}

def set (w : Arenas T) (k : K) (arena : Allocator (T k)) : Arenas T :=
  Function.update w k arena

def refs (w : Arenas T) (handle : Handle K) : UInt64 :=
  (w handle.kind).refs handle.slot

/-- The conversion of an owning pointer to `bool`. -/
def valid (w : Arenas T) (handle : Handle K) : Bool :=
  (w handle.kind).valid handle.slot

def slotIsStaticImmortal (w : Arenas T) (handle : Handle K) : Bool :=
  (w handle.kind).slotIsStaticImmortal handle.slot

def item (w : Arenas T) (handle : Handle K) : Option (T handle.kind) :=
  ((w handle.kind).slabOf handle.slot).map fun slab => slab.items handle.slot.second

/-- `if (ptr) ptr.modrefs(-1)`, which frees nothing. -/
def release (w : Arenas T) (handle : Handle K) : Arenas T :=
  if w.valid handle then w.set handle.kind ((w handle.kind).modrefs handle.slot (-1)) else w

variable (traits : HandleTraits K T)

def held (w : Arenas T) (handle : Handle K) : List (Handle K) :=
  ((w.item handle).map (traits.handles handle.kind)).getD []

def reassigned (w : Arenas T) (handle : Handle K) : List (Handle K) :=
  ((w.item handle).map (traits.reassigned handle.kind)).getD []

/--
Giving up one reference by `deallocate`, as destructors and assignments of owning pointers do.

Freeing a slot destroys its item, which gives up what that holds, last member first.
The number bounds how deep such destructions are followed.
-/
def drop : Nat → Arenas T → Handle K → Arenas T
  | depth, w, handle =>
    if w.slotIsStaticImmortal handle then w
    else if w.valid handle then
      let dropped := w.set handle.kind ((w handle.kind).modrefs handle.slot (-1))
      if dropped.refs handle = 0 then
        let destroyed := match depth with
          | 0 => dropped
          | depth + 1 => (w.held traits handle).reverse.foldl (drop depth) dropped
        destroyed.set handle.kind ((destroyed handle.kind).freeSlot handle.slot).2
      else dropped
    else w

/-- The reset hook of the item in a slot. -/
def resetTransient (depth : Nat) (w : Arenas T) (handle : Handle K) : Arenas T :=
  match w.item handle with
  | none => w
  | some item =>
    let released := (traits.handles handle.kind item).foldl release w
    let reset := (traits.reassigned handle.kind item).foldl (drop traits depth) released
    reset.set handle.kind
      ((reset handle.kind).placeItem handle.slot (traits.cleared handle.kind item))

def resetSlot (depth : Nat) (w : Arenas T) (handle : Handle K) : Arenas T :=
  if w.refs handle = 0 then w else w.resetTransient traits depth handle

def slotsFrom (k : K) (index start : Nat) : List (Handle K) :=
  ((List.range slabSize).drop start).map fun offset => ⟨k, ⟨index, offset⟩⟩

def resetSlab (depth : Nat) (k : K) (start : Nat) (count : UInt64) (w : Arenas T) (index : Nat) :
    Arenas T :=
  match (w k).slabs index with
  | none => w
  | some _ =>
    let reset := (slotsFrom k index start).foldl (resetSlot traits depth) w
    match (reset k).slabs index with
    | none => reset
    | some slab => reset.set k ((reset k).setSlab index (slab.clearedFrom start count))

/-- The strict reset of one allocator, with the effect that its hooks have on the others. -/
def rollbackStrictAppendOnlyFromWatermark (depth : Nat) (k : K) (watermark : SlabId)
    (w : Arenas T) : Arenas T :=
  let above := ((List.range numSlabs).drop (watermark.first + 1)).foldl
    (resetSlab traits depth k 0 0) w
  if watermark.isSet then
    resetSlab traits depth k (watermark.second + 1) (UInt64.ofNat (watermark.second + 1)) above
      watermark.first
  else
    match (above k).slabs 0 with
    | none => above
    | some slab => above.set k ((above k).setSlab 0 (Allocator.clearPastNull slab))

def rollbackAll (depth : Nat) (watermark : K → SlabId) (order : List K) (w : Arenas T) : Arenas T :=
  order.foldl (fun w k => w.rollbackStrictAppendOnlyFromWatermark traits depth k (watermark k)) w

def slotsAbove (k : K) (watermark : SlabId) : List (Handle K) :=
  ((List.range numSlabs).drop (watermark.first + 1)).flatMap fun index => slotsFrom k index 0

def slotsPast (k : K) (watermark : SlabId) : List (Handle K) :=
  slotsAbove k watermark ++
    if watermark.isSet then slotsFrom k watermark.first (watermark.second + 1)
    else slotsFrom k 0 1

def slotsVisited (k : K) (watermark : SlabId) : List (Handle K) :=
  slotsAbove k watermark ++
    if watermark.isSet then slotsFrom k watermark.first (watermark.second + 1) else []

def Kept (watermark : K → SlabId) (handle : Handle K) : Prop :=
  handle.slot ≠ ⟨0, 0⟩ ∧ ¬Allocator.Past (watermark handle.kind) handle.slot

def references (w : Arenas T) (handle : Handle K) : List (Handle K) :=
  if w.refs handle = 0 then [] else w.held traits handle

def givenUp (w : Arenas T) (handle : Handle K) : List (Handle K) :=
  w.held traits handle ++ w.reassigned traits handle

def countLeft (w : Arenas T) (dropped : List (Handle K)) (handle : Handle K) : Nat :=
  if w.slotIsStaticImmortal handle then (w.refs handle).toNat
  else (w.refs handle).toNat - dropped.count handle

def turns (w : Arenas T) (slots : List (Handle K)) : List (Handle K) :=
  slots.foldl (fun done handle =>
    if w.countLeft (done.flatMap (w.givenUp traits)) handle = 0 then done else done ++ [handle]) []

section Condition

variable (watermark : K → SlabId) (order : List K)

def discarded : List (Handle K) :=
  order.flatMap fun k => slotsPast k (watermark k)

def reset (w : Arenas T) : List (Handle K) :=
  w.turns traits (order.flatMap fun k => slotsVisited k (watermark k))

def heldBy (w : Arenas T) (slots : List (Handle K)) (handle : Handle K) : Nat :=
  (slots.flatMap (w.references traits)).count handle

/--
The slots that were there at the checkpoint have their counts of then, and one for each reference
that a discarded slot holds. Immortal slots are not counted.
-/
structure Retained (before : Handle K → Nat) (w : Arenas T) : Prop where
  counted : ∀ handle, Kept watermark handle → w.slotIsStaticImmortal handle = false →
    (w.refs handle).toNat = before handle + w.heldBy traits (discarded watermark order) handle
  immortal : ∀ handle, Kept watermark handle → w.slotIsStaticImmortal handle = true →
    (w.refs handle).toNat = before handle
  live : ∀ handle, Kept watermark handle → w.slotIsStaticImmortal handle = false →
    w.heldBy traits (discarded watermark order) handle ≠ 0 → before handle ≠ 0

def Restored (before : Handle K → Nat) (w : Arenas T) : Prop :=
  ∀ handle, Kept watermark handle → (w.refs handle).toNat = before handle

/--
Of the references to a slot that was there at the checkpoint, as many are held by discarded slots
that are not reset as are given up twice by those that are.
-/
def Balanced (w : Arenas T) : Prop :=
  ∀ handle, Kept watermark handle → w.slotIsStaticImmortal handle = false →
    w.heldBy traits ((discarded watermark order).filter (· ∉ w.reset traits watermark order))
        handle =
      ((w.reset traits watermark order).flatMap (w.reassigned traits)).count handle

end Condition

end Arenas

end AgentC

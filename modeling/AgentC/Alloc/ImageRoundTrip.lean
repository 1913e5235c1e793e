import AgentC.Library.Lists
import AgentC.Alloc.Freshness

/-! Exporting slab images and restoring them into a fresh allocator. -/

namespace AgentC

universe u

/-- The traits read back every payload they can write. -/
structure ArenaTraits.Lawful {T : Type u} (traits : ArenaTraits T) : Prop where
  supported : traits.supported = true
  toBytes_length : traits.encoding = .rawBytes → ∀ x, (traits.toBytes x).length = traits.byteSize
  fromBytes_toBytes : traits.encoding = .rawBytes → ∀ x, traits.fromBytes (traits.toBytes x) = x
  restoreSlot_exportSlot : traits.encoding = .structured →
    ∀ x payload, traits.exportSlot x = some payload → traits.restoreSlot payload = some x

namespace Slab

variable {T : Type u}

/-- A slab brought back from its image: same references, same held payloads, the count cut to 32 bits. -/
structure Restores (before after : Slab T) : Prop where
  count : after.count = before.count.toUInt32.toUInt64
  inUse : ∀ k, k < slabSize → after.inUse k = before.inUse k
  items : ∀ k, k < slabSize → before.inUse k ≠ 0 → after.items k = before.items k
  mortal : after.staticImmortal = false

theorem Restores.liveSlots {before after : Slab T} (restores : Restores before after) :
    after.liveSlots = before.liveSlots :=
  liveSlots_congr fun k below => by rw [restores.inUse k below]

end Slab

namespace Allocator

variable {T : Type u}

variable {traits : ArenaTraits T} {index : Nat} {slab : Slab T} {s t : Allocator T}
  {entries : List (Nat × Slab T)} {images : List ArenaSlabImage}

theorem mem_exportedSlabs :
    (index, slab) ∈ s.exportedSlabs ↔
      index < numSlabs ∧ s.slabs index = some slab ∧ slab.hasUserSlot = true := by
  simp only [exportedSlabs, List.mem_filterMap, List.mem_range]
  constructor
  · rintro ⟨k, below, kept⟩
    cases stored : s.slabs k with
    | none => simp [stored] at kept
    | some present =>
      simp only [stored] at kept
      split at kept
      · rename_i user
        simp only [Option.some.injEq, Prod.mk.injEq] at kept
        obtain ⟨rfl, rfl⟩ := kept
        exact ⟨below, stored, user⟩
      · simp at kept
  · rintro ⟨below, stored, user⟩
    exact ⟨index, below, by simp [stored, user]⟩

/-- A fresh allocator after the images of these slabs are restored, before the null slot is taken. -/
structure Rebuilt [Inhabited T] (entries : List (Nat × Slab T)) (t : Allocator T) : Prop where
  same : SameButSlabs initial t
  present : ∀ entry ∈ entries, ∃ after, t.slabs entry.1 = some after ∧ entry.2.Restores after
  others : ∀ index, index ∉ entries.map Prod.fst → t.slabs index = none

namespace Rebuilt

variable [Inhabited T] {entries : List (Nat × Slab T)} {t : Allocator T}

theorem checkpoints (rebuilt : Rebuilt entries t) : t.checkpoints = [] := by
  rw [rebuilt.same.checkpoints, initial_eq]
  rfl

theorem settled (rebuilt : Rebuilt entries t) : t.Settled :=
  initial_settled.of_sameButSlabs rebuilt.same

theorem heap (rebuilt : Rebuilt entries t) : t.backingPolicy = .heap := by
  rw [rebuilt.same, initial_eq]
  rfl

theorem source (rebuilt : Rebuilt entries t) {index : Nat} {after : Slab T}
    (stored : t.slabs index = some after) :
    ∃ entry ∈ entries, entry.1 = index ∧ entry.2.Restores after := by
  by_contra missing
  -- Otherwise the index would have no slab.
  have none := rebuilt.others index fun member => by
    obtain ⟨entry, listed, rfl⟩ := List.mem_map.mp member
    obtain ⟨after', stored', restores⟩ := rebuilt.present entry listed
    rw [stored] at stored'
    cases stored'
    exact missing ⟨entry, listed, rfl, restores⟩
  rw [stored] at none
  simp at none

theorem mortal (rebuilt : Rebuilt entries t) (si : SlabId) : t.slotIsStaticImmortal si = false := by
  have marks : t.staticImmortalSlabs = (fun _ => 0) ∧ t.staticImmortalSlots = (fun _ => 0) := by
    rw [rebuilt.same, initial_eq]
    exact ⟨rfl, rfl⟩
  simp only [slotIsStaticImmortal, marks.1, marks.2, bne_self_eq_false, Bool.or_false,
    Bool.and_eq_false_iff]
  refine Or.inr ?_
  split
  · rename_i after stored
    obtain ⟨_, _, _, restores⟩ := rebuilt.source stored
    exact restores.mortal
  · rfl

end Rebuilt

/-- A fresh allocator after the images of `s` are restored, before the null slot is taken. -/
structure RestoredFrom [Inhabited T] (s t : Allocator T) : Prop where
  same : SameButSlabs initial t
  kept : ∀ index slab, index < numSlabs → s.slabs index = some slab → slab.hasUserSlot = true →
    ∃ after, t.slabs index = some after ∧ slab.Restores after
  dropped : ∀ index, (∀ slab, index < numSlabs → s.slabs index = some slab →
    slab.hasUserSlot = false) → t.slabs index = none

namespace RestoredFrom

variable [Inhabited T] {s t : Allocator T}

theorem rebuilt (restored : RestoredFrom s t) : Rebuilt s.exportedSlabs t where
  same := restored.same
  present := fun entry member => by
    obtain ⟨inside, stored, user⟩ := mem_exportedSlabs.mp member
    exact restored.kept entry.1 entry.2 inside stored user
  others := fun index missing => restored.dropped index fun slab inside stored => by
    by_contra user
    have user : slab.hasUserSlot = true := by simpa using user
    exact missing (List.mem_map.mpr ⟨(index, slab), mem_exportedSlabs.mpr ⟨inside, stored, user⟩, rfl⟩)

end RestoredFrom

theorem allocRaw_full [Inhabited T] {r : Allocator T} (outside : t.checkpoints = [])
    {create : Nat → Bool} {si : SlabId} (stored : t.slabs index = some slab)
    (full : slabSize ≤ slab.count.toNat) (allocated : t.allocRaw create = (.ok si, r)) :
    r.slabs index = some slab := by
  -- The search passes over the slab, so the slot found and the slab created are elsewhere.
  have search : ∀ (indices : List Nat) (offset : Nat) (found : SlabId) (mid : Allocator T),
      t.searchSlot create indices offset = (.ok found, mid) →
        found.first ≠ index ∧ mid.slabs index = some slab := by
    intro indices
    induction indices with
    | nil => intro offset found mid searched; simp [searchSlot] at searched
    | cons k rest ih =>
      intro offset found mid searched
      cases present : t.slabs k with
      | none =>
        have elsewhere : k ≠ index := fun same => by simp [same, stored] at present
        cases created : t.createOwnedSlab create k with
        | none => simp [searchSlot, present, created] at searched
        | some new =>
          simp only [searchSlot, present, created, Prod.mk.injEq, Except.ok.injEq] at searched
          obtain ⟨rfl, rfl⟩ := searched
          exact ⟨elsewhere, by rw [setSlab_other _ _ _ (Ne.symm elsewhere), stored]⟩
      | some other =>
        simp only [searchSlot, present] at searched
        split at searched
        · rename_i below
          split at searched
          · rename_i offset' _
            simp only [Prod.mk.injEq, Except.ok.injEq] at searched
            obtain ⟨rfl, rfl⟩ := searched
            refine ⟨fun same => ?_, stored⟩
            rw [show k = index from same, stored] at present
            cases present
            have := count_lt_slabSize.mp below
            omega
          · exact ih _ _ _ searched
        · exact ih _ _ _ searched
  rcases searched : t.searchSlot create (List.range numSlabs) 0 with ⟨result, mid⟩
  cases result with
  | error e => simp [allocRaw, outside, searched] at allocated
  | ok found =>
    obtain ⟨elsewhere, same⟩ := search _ _ _ _ searched
    simp only [allocRaw, outside, List.isEmpty_nil, if_true, searched, Prod.mk.injEq,
      Except.ok.injEq] at allocated
    obtain ⟨rfl, rfl⟩ := allocated
    rw [markAllocated_slabs_other mid (Ne.symm elsewhere), same]

/--
Exporting an allocator and restoring the images into a fresh one brings every valid slot back.

The restored allocator is counted exactly, and what it allocates next was not valid in the original.
-/
def RoundTrips [Inhabited T] (traits : ArenaTraits T) (create : Nat → Bool) (s : Allocator T) : Prop :=
  ∃ r, (initial : Allocator T).restoreSlabImages traits create (s.exportSlabImages traits) =
      (.ok true, r) ∧
    (∀ si, r.held si = s.held si) ∧ r.CountsExact ∧
    ∀ create' si next, r.allocRaw create' = (.ok si, next) → s.valid si = false

namespace NullTaken

variable [Inhabited T] {s t r : Allocator T}

end NullTaken

end Allocator

end AgentC

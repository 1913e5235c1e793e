import AgentC.Alloc.ImageLaws
import AgentC.Library.Runs
import AgentC.Alloc.Images

/-! The allocator as a machine, its first state, and what holds of every later state without conditions. -/

namespace AgentC

universe u

/-- A call of one allocator operation. -/
inductive AllocatorCall (T : Type u) where
  | allocRaw (create : Nat → Bool)
  | allocate (create : Nat → Bool) (item : T)
  | tryRetain (si : SlabId)
  | modrefs (si : SlabId) (delta : Int)
  | deallocate (si : SlabId)
  | checkpoint
  | commit (token : Checkpoint)
  | rollback (token : Checkpoint)
  | markSlabStaticImmortal (index : Nat)
  | markSlotStaticImmortal (si : SlabId)
  | unmarkSlabStaticImmortal (index : Nat)
  | unmarkSlotStaticImmortal (si : SlabId)
  | setSlabBackingPolicy (policy : ArenaSlabBackingPolicy)
  | configureMmapFileBackedSlabs
  | restoreSlabImages (create : Nat → Bool) (images : List ArenaSlabImage)
  | restoreSlabFromFile (index : Nat) (file : SlabFileRead T)
  | reattachFileBackedSlabs (files : Nat → SlabFileMapping T)

namespace Allocator

variable {T : Type u} [Inhabited T]

/-- The state a call leaves behind, or nothing when the call is undefined. -/
def step (traits : ArenaTraits T) (s : Allocator T) : AllocatorCall T → Option (Allocator T)
  | .allocRaw create => some (s.allocRaw create).2
  | .allocate create item => some (s.allocate create item).2
  | .tryRetain si => some (s.tryRetain si).2
  | .modrefs si delta => some (s.modrefs si delta)
  | .deallocate si => some (s.deallocate si).2
  | .checkpoint => some s.checkpoint.2
  | .commit token => some (s.commit token).2
  | .rollback token => some (s.rollback traits token).2
  | .markSlabStaticImmortal index => some (s.markSlabStaticImmortal index).2
  | .markSlotStaticImmortal si => some (s.markSlotStaticImmortal si).2
  | .unmarkSlabStaticImmortal index => (s.unmarkSlabStaticImmortal index).map Prod.snd
  | .unmarkSlotStaticImmortal si => some (s.unmarkSlotStaticImmortal si).2
  | .setSlabBackingPolicy policy => some (s.setSlabBackingPolicy policy)
  | .configureMmapFileBackedSlabs => some s.configureMmapFileBackedSlabs
  | .restoreSlabImages create images => some (s.restoreSlabImages traits create images).2
  | .restoreSlabFromFile index file => some (s.restoreSlabFromFile index file).2
  | .reattachFileBackedSlabs files => some (s.reattachFileBackedSlabs files).2

end Allocator

end AgentC

namespace AgentC

universe u

namespace Allocator

variable {T : Type u}

theorem range_numSlabs : List.range numSlabs = 0 :: List.range' 1 (numSlabs - 1) := by
  rw [List.range_eq_range', show numSlabs = numSlabs - 1 + 1 by simp [numSlabs], List.range'_succ]
  simp

theorem range_slabSize : List.range slabSize = 0 :: List.range' 1 (slabSize - 1) := by
  rw [List.range_eq_range', show slabSize = slabSize - 1 + 1 by simp [slabSize], List.range'_succ]
  simp

theorem null_inRange : (⟨0, 0⟩ : SlabId).InRange := by
  simp [SlabId.InRange, numSlabs, slabSize]

theorem allocRaw_null [Inhabited T] {t : Allocator T} (outside : t.checkpoints = [])
    (settled : t.Settled) (heap : t.backingPolicy = .heap)
    (mortal : t.slotIsStaticImmortal ⟨0, 0⟩ = false) (free : t.refs ⟨0, 0⟩ = 0)
    (room : ∀ slab, t.slabs 0 = some slab → slab.count.toNat < slabSize) (create : Nat → Bool) :
    ∃ slab, (t.slabs 0 = some slab ∨ t.slabs 0 = none ∧ slab = Slab.fresh false) ∧
      slab.inUse 0 = 0 ∧ t.allocRaw create = (.ok ⟨0, 0⟩, t.setSlab 0 (slab.take 0)) := by
  have unreserved := (settled outside).1
  cases stored : t.slabs 0 with
  | none =>
    -- A new slab zero is created for it.
    refine ⟨Slab.fresh false, Or.inr ⟨rfl, rfl⟩, rfl, ?_⟩
    have searched : t.searchSlot create (List.range numSlabs) 0 =
        (.ok ⟨0, 0⟩, t.setSlab 0 (Slab.fresh false)) := by
      simp [range_numSlabs, searchSlot, stored, createOwnedSlab, heap]
    have addressed : (t.setSlab 0 (Slab.fresh false)).slabOf ⟨0, 0⟩ = some (Slab.fresh false) :=
      slabOf_eq_some.mpr ⟨null_inRange, setSlab_same ..⟩
    have grown : Grown t (t.setSlab 0 (Slab.fresh false)) := (Grown.refl t).setSlab stored
    have marked := markAllocated_mortal addressed rfl ((grown.immortal ⟨0, 0⟩).trans mortal)
    rw [setSlab_checkpoints, if_pos outside, setSlab_setSlab] at marked
    simp only [allocRaw, outside, List.isEmpty_nil, if_true, searched, marked]
    rfl
  | some slab =>
    have addressed : t.slabOf ⟨0, 0⟩ = some slab := slabOf_eq_some.mpr ⟨null_inRange, stored⟩
    have empty : slab.inUse 0 = 0 := by rw [← free, refs_of_slab addressed]
    refine ⟨slab, Or.inl rfl, empty, ?_⟩
    -- The scan of slab zero stops at its first slot.
    have first : (List.range slabSize).find? (fun k => t.available ⟨0, k⟩) = some 0 := by
      rw [range_slabSize, List.find?_cons_of_pos]
      simp [available, free, unreserved]
    have searched : t.searchSlot create (List.range numSlabs) 0 = (.ok ⟨0, 0⟩, t) := by
      simp only [range_numSlabs, searchSlot, stored, first]
      rw [if_pos (count_lt_slabSize.mpr (room slab stored))]
    have marked := markAllocated_mortal addressed empty mortal
    rw [if_pos outside] at marked
    simp only [allocRaw, outside, List.isEmpty_nil, if_true, searched, marked]
    rfl

theorem initial_eq [Inhabited T] :
    (initial : Allocator T) = setSlab {} 0 ((Slab.fresh false).take 0) := by
  have start : ({} : Allocator T).slabs 0 = none := rfl
  obtain ⟨slab, stored | ⟨_, rfl⟩, _, took⟩ := allocRaw_null (t := ({} : Allocator T)) rfl
    (fun _ => ⟨rfl, rfl⟩) rfl (by simp [slotIsStaticImmortal]) (refs_of_absent start)
    (fun slab stored => by simp at stored) (fun _ => true)
  · simp at stored
  · rw [initial, took]

theorem initial_mortal [Inhabited T] (si : SlabId) :
    (initial : Allocator T).slotIsStaticImmortal si = false := by
  rw [initial_eq]
  by_cases at_ : si.first = 0 <;> simp [slotIsStaticImmortal, setSlab, at_, Slab.take, Slab.fresh]

theorem initial_settled [Inhabited T] : (initial : Allocator T).Settled := by
  rw [initial_eq]
  exact fun _ => ⟨rfl, rfl⟩

theorem initial_counts [Inhabited T] {related : Nat → Nat → Prop} (tally : Tally related) :
    (initial : Allocator T).CountsTally related := by
  have empty : ({} : Allocator T).CountsTally related := fun _ _ stored => by simp at stored
  refine empty.allocRaw tally (fun _ => ⟨rfl, rfl⟩) (fun si _ => ?_) (fun si slab _ addressed => ?_) _
  · simp [slotIsStaticImmortal]
  · simp [slabOf] at addressed

theorem Settled.of_sameButSlabs {s t : Allocator T} (settled : s.Settled)
    (same : SameButSlabs s t) : t.Settled := by
  rw [same]
  exact settled

theorem allocRaw_settled [Inhabited T] {s : Allocator T} (settled : s.Settled)
    (create : Nat → Bool) : (s.allocRaw create).2.Settled := by
  obtain ⟨mid, grown, result | ⟨si, result⟩⟩ := allocRaw_grown s create
  · rw [result]
    exact settled.of_sameButSlabs grown.rest
  · rw [result]
    have still : mid.Settled := settled.of_sameButSlabs grown.rest
    obtain ⟨rest, log⟩ := markAllocated_rest mid si
    intro outside
    rw [rest.checkpoints] at outside
    rw [log, if_pos outside, rest.reserved]
    exact still outside

theorem popCheckpoint_settled (s : Allocator T) : s.popCheckpoint.Settled := by
  intro outside
  simp only [popCheckpoint] at *
  split
  · exact ⟨rfl, rfl⟩
  · rename_i outstanding
    rw [if_neg outstanding] at outside
    exact absurd (List.isEmpty_iff.mpr outside) outstanding

theorem step_settled [Inhabited T] {traits : ArenaTraits T} {s next : Allocator T}
    {call : AllocatorCall T} (settled : s.Settled) (stepped : s.step traits call = some next) :
    next.Settled := by
  cases call with
  | allocRaw create =>
    cases stepped
    exact allocRaw_settled settled create
  | allocate create item =>
    cases stepped
    have raw := allocRaw_settled settled create
    unfold Allocator.allocate
    split
    · rename_i si r result
      rw [result] at raw
      unfold placeItem
      split
      · exact raw.of_sameButSlabs (SameButSlabs.setSlab r _ _)
      · exact raw
    · rename_i e r result
      rw [result] at raw
      exact raw
  | tryRetain si =>
    cases stepped
    exact settled.of_sameButSlabs (tryRetain_sameButSlabs s si)
  | modrefs si delta =>
    cases stepped
    exact settled.of_sameButSlabs (modrefs_sameButSlabs s si delta)
  | deallocate si =>
    cases stepped
    rcases deallocate_cases s si with ⟨same, _⟩ | ⟨slab, _, _, _, _, _, result⟩ | ⟨slab, freed⟩
    · rw [same]; exact settled
    · rw [result]; exact settled.of_sameButSlabs (SameButSlabs.setSlab s _ _)
    · intro outside
      rw [freed.checkpoints, List.map_eq_nil_iff] at outside
      rw [freed.reserved, if_pos outside, freed.allocationLog]
      exact settled outside
  | checkpoint =>
    cases stepped
    intro outside
    simp [Allocator.checkpoint] at outside
  | commit token =>
    cases stepped
    unfold Allocator.commit
    split
    · exact popCheckpoint_settled s
    · exact settled
  | rollback token =>
    cases stepped
    unfold Allocator.rollback
    split
    · exact settled
    · split
      · exact popCheckpoint_settled _
      · exact settled
  | markSlabStaticImmortal index =>
    cases stepped
    unfold Allocator.markSlabStaticImmortal
    split
    · split
      · exact settled
      · exact settled
    · exact settled
  | markSlotStaticImmortal si =>
    cases stepped
    unfold Allocator.markSlotStaticImmortal
    split
    · exact settled
    · exact settled
  | unmarkSlabStaticImmortal index =>
    obtain ⟨result, unmarked, rfl⟩ := Option.map_eq_some_iff.mp stepped
    unfold Allocator.unmarkSlabStaticImmortal at unmarked
    split at unmarked
    · cases unmarked; exact settled
    · split at unmarked
      · split at unmarked
        · cases unmarked; exact settled
        · simp at unmarked
      · cases unmarked; exact settled
  | unmarkSlotStaticImmortal si =>
    cases stepped
    unfold Allocator.unmarkSlotStaticImmortal
    split
    · exact settled
    · exact settled
  | setSlabBackingPolicy policy => cases stepped; exact settled
  | configureMmapFileBackedSlabs => cases stepped; exact settled
  | restoreSlabImages create images =>
    cases stepped
    unfold Allocator.restoreSlabImages
    split
    · exact settled
    · have filled : (restoreImages traits images s.clearSlabsOnly).2.Settled :=
        Settled.of_sameButSlabs (s := s.clearSlabsOnly) settled (restoreImages_sameButSlabs traits images _)
      split
      · rename_i r result
        rw [result] at filled
        exact filled
      · rename_i r result
        rw [result] at filled
        split
        · have taken := allocRaw_settled filled create
          split
          · rename_i si after allocated
            rw [allocated] at taken
            exact fun outside => ⟨(taken outside).1, rfl⟩
          · rename_i e after allocated
            rw [allocated] at taken
            exact taken
        · exact filled
  | restoreSlabFromFile index file =>
    cases stepped
    unfold Allocator.restoreSlabFromFile
    split
    · split <;> exact settled
    · exact settled
  | reattachFileBackedSlabs files =>
    cases stepped
    unfold Allocator.reattachFileBackedSlabs
    split
    · exact settled
    · exact settled.of_sameButSlabs (reattachSlabs_sameButSlabs files _ s)

end Allocator

end AgentC

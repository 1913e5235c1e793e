import AgentC.Alloc.StepLaws

/-! Runs of the allocator in which every slab's stored count is its number of live slots. -/

namespace AgentC

universe u

namespace Allocator

variable {T : Type u}

def CountsExact (s : Allocator T) : Prop :=
  s.CountsTally (· = ·)

/--
What a call other than a change of one reference count needs for the relation to survive it.

Changes of one reference count are judged separately.
-/
def CallCounts [Inhabited T] (related : Nat → Nat → Prop) (traits : ArenaTraits T)
    (s : Allocator T) : AllocatorCall T → Prop
  | .allocRaw _ => s.NextMortal ∧ s.NextCounted
  | .allocate _ _ => s.NextMortal ∧ s.NextCounted
  | .rollback token =>
    s.usesStrictReset traits token = true → s.StrictResetCounts related traits token.watermark
  | .restoreSlabImages _ images =>
    traits.supported = true →
      (∀ image ∈ images, image.Installs traits → related image.liveSlots image.count.toNat) ∧
        (s.imagesRestored traits images).NextMortal ∧ (s.imagesRestored traits images).NextCounted
  | .restoreSlabFromFile index file =>
    ∀ inUse slab, SlabFileRead.uncounted file = some inUse → s.slabs index = some slab →
      related ({ slab with inUse := inUse } : Slab T).liveSlots slab.count.toNat
  | .reattachFileBackedSlabs files =>
    s.backingPolicy = .mmapFile → ∀ index ∈ reachedFiles files,
      SlabFileMapping.Vacant (files index)
  | _ => True

theorem CountsTally.step [Inhabited T] {related : Nat → Nat → Prop} (tally : Tally related)
    {traits : ArenaTraits T} {s next : Allocator T} {call : AllocatorCall T} (settled : s.Settled)
    (counts : s.CountsTally related)
    (retained : ∀ si, call = .tryRetain si → (s.tryRetain si).2.CountsTally related)
    (changed : ∀ si delta, call = .modrefs si delta → (s.modrefs si delta).CountsTally related)
    (meets : s.CallCounts related traits call) (stepped : s.step traits call = some next) :
    next.CountsTally related := by
  cases call with
  | allocRaw create =>
    cases stepped
    exact counts.allocRaw tally settled meets.1 meets.2 create
  | allocate create item =>
    cases stepped
    exact counts.allocate tally settled meets.1 meets.2 create item
  | tryRetain si => cases stepped; exact retained si rfl
  | modrefs si delta => cases stepped; exact changed si delta rfl
  | deallocate si => cases stepped; exact counts.deallocate tally si
  | checkpoint => cases stepped; exact counts
  | commit token =>
    cases stepped
    unfold Allocator.commit
    split
    · exact counts.of_slabs (popCheckpoint_slabs s)
    · exact counts
  | rollback token => cases stepped; exact counts.rollback tally meets
  | markSlabStaticImmortal index =>
    cases stepped
    unfold Allocator.markSlabStaticImmortal
    split
    · split
      · rename_i slab stored
        have marked : (s.setSlab index { slab with staticImmortal := true }).CountsTally related :=
          EverySlab.setSlab counts (counts index slab stored)
        exact marked.of_slabs rfl
      · exact counts
    · exact counts
  | markSlotStaticImmortal si =>
    cases stepped
    unfold Allocator.markSlotStaticImmortal
    split <;> exact counts
  | unmarkSlabStaticImmortal index =>
    obtain ⟨result, unmarked, rfl⟩ := Option.map_eq_some_iff.mp stepped
    unfold Allocator.unmarkSlabStaticImmortal at unmarked
    split at unmarked
    · cases unmarked; exact counts
    · split at unmarked
      · split at unmarked
        · rename_i slab stored
          cases unmarked
          exact EverySlab.setSlab (counts.of_slabs rfl) (counts index slab stored)
        · simp at unmarked
      · cases unmarked; exact counts
  | unmarkSlotStaticImmortal si =>
    cases stepped
    unfold Allocator.unmarkSlotStaticImmortal
    split <;> exact counts
  | setSlabBackingPolicy policy => cases stepped; exact counts
  | configureMmapFileBackedSlabs => cases stepped; exact counts
  | restoreSlabImages create images =>
    cases stepped
    by_cases supported : traits.supported = true
    · obtain ⟨own, mortal, room⟩ := meets supported
      exact counts.restoreSlabImages tally settled create own mortal room
    · simpa [Allocator.restoreSlabImages, supported] using counts
  | restoreSlabFromFile index file =>
    cases stepped
    exact counts.restoreSlabFromFile tally index meets
  | reattachFileBackedSlabs files =>
    cases stepped
    exact counts.reattachFileBackedSlabs tally meets

def NoHoleBelow (s : Allocator T) (watermark : SlabId) : Prop :=
  ∀ offset, offset ≤ watermark.second → s.refs ⟨watermark.first, offset⟩ ≠ 0

/--
When a call leaves every slab's count exact.

An allocation must not land in an immortal slot. A change of one reference count must not free a
slot or revive a free one. A strict reset must find no hole below its watermark. Restored images and
cut-off slab files must fit the counts they come with, and reattached files must be empty.
-/
def CountsKept [Inhabited T] (traits : ArenaTraits T) (s : Allocator T) : AllocatorCall T → Prop
  | .allocRaw _ => s.NextMortal
  | .allocate _ _ => s.NextMortal
  | .tryRetain si => s.valid si = true → s.KeepsOccupancy si 1
  | .modrefs si delta => s.KeepsOccupancy si delta
  | .rollback token =>
    s.usesStrictReset traits token = true → token.watermark ≠ ⟨0, 0⟩ →
      s.slabs token.watermark.first ≠ none → s.NoHoleBelow token.watermark
  | .restoreSlabImages _ images =>
    traits.supported = true →
      (∀ image ∈ images, image.Installs traits → image.liveSlots = image.count.toNat) ∧
        (s.imagesRestored traits images).NextMortal
  | .restoreSlabFromFile index file =>
    ∀ inUse slab, SlabFileRead.uncounted file = some inUse → s.slabs index = some slab →
      ({ slab with inUse := inUse } : Slab T).liveSlots = slab.count.toNat
  | .reattachFileBackedSlabs files =>
    s.backingPolicy = .mmapFile → ∀ index ∈ reachedFiles files,
      SlabFileMapping.Vacant (files index)
  | _ => True

theorem strictResetCounts_of_noHole {s : Allocator T} (traits : ArenaTraits T) {watermark : SlabId}
    (full : s.slabs watermark.first ≠ none → s.NoHoleBelow watermark) :
    watermark ≠ ⟨0, 0⟩ → s.StrictResetCounts (· = ·) traits watermark := by
  intro _ _ slab stored
  have held := full (by simp [stored])
  -- The watermark itself is held, so it lies inside its slab.
  obtain ⟨_, addressed, _⟩ := slab_of_refs (held watermark.second le_rfl)
  obtain ⟨inside, _⟩ := slabOf_eq_some.mp addressed
  have below : watermark.second < slabSize := inside.2
  have full : ∀ k, k < watermark.second + 1 → slab.inUse k ≠ 0 := by
    intro k under
    have addressed : s.slabOf ⟨watermark.first, k⟩ = some slab :=
      slabOf_eq_some.mpr ⟨⟨inside.1, by simp only; omega⟩, stored⟩
    have counted := refs_of_slab addressed
    simp only at counted
    rw [← counted]
    exact held k (Nat.le_of_lt_succ under)
  rw [clearFrom_liveSlots traits (UInt64.ofNat (watermark.second + 1))
    (Nat.succ_le_of_lt below) full]
  simp only [slabSize] at below
  rw [UInt64.toNat_ofNat', Nat.mod_eq_of_lt (by omega)]

theorem step_countsExact [Inhabited T] {traits : ArenaTraits T} {s next : Allocator T}
    {call : AllocatorCall T} (settled : s.Settled) (counts : s.CountsExact)
    (kept : s.CountsKept traits call) (stepped : s.step traits call = some next) :
    next.CountsExact := by
  refine CountsTally.step Tally.exact_ settled counts ?_ ?_ ?_ stepped
  · rintro si rfl
    exact counts.tryRetain kept
  · rintro si delta rfl
    exact counts.modrefs kept
  · cases call with
    | allocRaw create => exact ⟨kept, counts.nextCounted⟩
    | allocate create item => exact ⟨kept, counts.nextCounted⟩
    | rollback token =>
      intro strict set
      exact strictResetCounts_of_noHole traits (kept strict set) set set
    | restoreSlabImages create images =>
      intro supported
      obtain ⟨own, mortal⟩ := kept supported
      exact ⟨own, mortal, (CountsTally.restoreImages own _ counts.clearSlabsOnly).nextCounted⟩
    | restoreSlabFromFile index file => exact kept
    | reattachFileBackedSlabs files => exact kept
    | _ => trivial

/-- Every state of a run whose calls all keep counts exact is counted exactly. -/
theorem countsExact_throughout [Inhabited T] (traits : ArenaTraits T)
    (calls : List (AllocatorCall T))
    (kept : StepsMeet (step traits) (CountsKept traits) initial calls) :
    Throughout (step traits) CountsExact initial calls := by
  -- The settled state is carried along because the free-slot search relies on it.
  have both : Throughout (step traits) (fun s => s.Settled ∧ s.CountsExact) initial calls := by
    refine throughout_of_stepsMeet ?_ calls initial
      ⟨initial_settled, initial_counts Tally.exact_⟩ kept
    intro s call next holds meets stepped
    exact ⟨step_settled holds.1 stepped, step_countsExact holds.1 holds.2 meets stepped⟩
  exact both.imp (fun _ holds => holds.2)

/-- Allocating and freeing a slot is a run that keeps counts exact. -/
theorem countsExact_throughout_allocate_deallocate :
    Throughout (step byteTraits) CountsExact initial
      [.allocate (fun _ => true) 7, .deallocate ⟨0, 1⟩] := by
  refine countsExact_throughout byteTraits _ fun next _ => ⟨fun si _ => initial_mortal si, ?_⟩
  exact fun _ _ => ⟨trivial, trivial⟩

set_option maxRecDepth 100000 in
/-- Rolling back past a freed slot counts one slot more than the slab holds. -/
theorem countsExact_fails_after_strict_rollback :
    ¬ ∀ final, runFrom (step byteTraits) initial
        [.allocate (fun _ => true) 7, .allocate (fun _ => true) 8, .deallocate ⟨0, 1⟩, .checkpoint,
          .rollback ⟨0, 1, true, ⟨0, 2⟩, true⟩] = some final → final.CountsExact := by
  intro every
  -- The null slot and the second payload are live, while the reset counts the hole between them too.
  have counted : (runFrom (step byteTraits) initial
      [.allocate (fun _ => true) 7, .allocate (fun _ => true) 8, .deallocate ⟨0, 1⟩, .checkpoint,
        .rollback ⟨0, 1, true, ⟨0, 2⟩, true⟩]).bind (fun final =>
          (final.slabs 0).map fun slab => (slab.liveSlots, slab.count.toNat)) = some (2, 3) := by
    decide +kernel
  obtain ⟨final, ran, inSlab⟩ := Option.bind_eq_some_iff.mp counted
  obtain ⟨slab, stored, numbers⟩ := Option.map_eq_some_iff.mp inSlab
  have exact_ := every final ran 0 slab stored
  simp only [Prod.mk.injEq] at numbers
  omega

end Allocator

end AgentC

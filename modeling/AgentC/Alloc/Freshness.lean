import AgentC.Alloc.ExactCounts

/-! Allocations return fresh slots, and neither they nor frees disturb any other slot. -/

namespace AgentC

universe u

namespace Allocator

variable {T : Type u}

/-- What an allocation that returns `si` promises about the states before and after it. -/
structure AllocatedFresh (s : Allocator T) (si : SlabId) (t : Allocator T) : Prop where
  offset : si.second < slabSize
  unused : s.valid si = false
  valid : t.valid si = true
  single : t.refs si = 1
  others : ∀ other, s.valid other = true → t.held other = s.held other

/-- Allocations are fresh, and frees leave every other slot alone. -/
def FreshAndFramed [Inhabited T] (s : Allocator T) : AllocatorCall T → Prop
  | .allocRaw create => ∀ si r, s.allocRaw create = (.ok si, r) → AllocatedFresh s si r
  | .allocate create item => ∀ si r, s.allocate create item = (.ok si, r) → AllocatedFresh s si r
  | .deallocate si =>
    ∀ other, other ≠ si → s.valid other = true → (s.deallocate si).2.held other = s.held other
  | _ => True

/-- A reference count may only rise from zero in a slab counted above its live slots. -/
def RevivesCounted (s : Allocator T) (si : SlabId) (delta : Int) : Prop :=
  ∀ slab, s.slabOf si = some slab → s.slotIsStaticImmortal si = false →
    slab.inUse si.second = 0 → slab.inUse si.second + UInt64.ofInt delta ≠ 0 →
      slab.liveSlots < slab.count.toNat

def CoverKept [Inhabited T] (traits : ArenaTraits T) (s : Allocator T) : AllocatorCall T → Prop
  | .allocRaw _ => s.NextMortal ∧ s.NextCounted ∧ ¬ s.NextSlot ⟨0, 0⟩
  | .allocate _ _ => s.NextMortal ∧ s.NextCounted ∧ ¬ s.NextSlot ⟨0, 0⟩
  | .modrefs si delta => s.RevivesCounted si delta
  | .rollback token => token.watermark.second < 2 ^ 16
  | .restoreSlabImages _ images =>
    traits.supported = true →
      (∀ image ∈ images, image.Installs traits → image.liveSlots ≤ image.count.toNat) ∧
        (s.imagesRestored traits images).NextMortal ∧ (s.imagesRestored traits images).NextCounted
  | .restoreSlabFromFile index file =>
    ∀ inUse slab, SlabFileRead.uncounted file = some inUse → s.slabs index = some slab →
      ({ slab with inUse := inUse } : Slab T).liveSlots ≤ slab.count.toNat
  | .reattachFileBackedSlabs files =>
    s.backingPolicy = .mmapFile → ∀ index ∈ reachedFiles files,
      SlabFileMapping.Vacant (files index)
  | _ => True

variable {s : Allocator T} {si : SlabId}

theorem CountsCover.setInUse (cover : s.CountsCover) {slab : Slab T} {value : UInt64}
    (addressed : s.slabOf si = some slab)
    (revives : slab.inUse si.second = 0 → value ≠ 0 → slab.liveSlots < slab.count.toNat) :
    (s.setSlab si.first (slab.setInUse si.second value)).CountsCover := by
  obtain ⟨inside, stored⟩ := slabOf_eq_some.mp addressed
  have before : slab.liveSlots ≤ slab.count.toNat := cover _ _ stored
  -- The four cases are whether the slot was held and whether it is held afterwards.
  by_cases free : slab.inUse si.second = 0
  · by_cases zero : value = 0
    · exact CountsTally.setInUse cover addressed (by simp [free, zero])
    · refine EverySlab.setSlab cover ?_
      rw [Slab.liveSlots_take inside.2 free zero]
      exact revives free zero
  · by_cases zero : value = 0
    · refine EverySlab.setSlab cover ?_
      have lowered := Slab.liveSlots_clear inside.2 free
      simp only [zero, Slab.setInUse_count]
      omega
    · exact CountsTally.setInUse cover addressed (by simp [free, zero])

theorem step_countsCover [Inhabited T] {traits : ArenaTraits T} {next : Allocator T}
    {call : AllocatorCall T} (settled : s.Settled) (cover : s.CountsCover)
    (kept : s.CoverKept traits call) (stepped : s.step traits call = some next) :
    next.CountsCover := by
  refine CountsTally.step Tally.cover settled cover ?_ ?_ ?_ stepped
  · rintro si rfl
    rcases tryRetain_cases s si with same | ⟨slab, addressed, _, held, _, result⟩
    · rw [same]; exact cover
    · rw [result]
      exact cover.setInUse addressed fun free _ => absurd free held
  · rintro si delta rfl
    rcases modrefs_cases s si delta with ⟨same, _⟩ | ⟨slab, addressed, mortal, result⟩
    · rw [same]; exact cover
    · rw [result]
      exact cover.setInUse addressed (kept slab addressed mortal)
  · cases call with
    | allocRaw create => exact ⟨kept.1, kept.2.1⟩
    | allocate create item => exact ⟨kept.1, kept.2.1⟩
    | rollback token =>
      intro _ _ slab _
      -- Only offsets up to the watermark survive, and that many are counted.
      have below : token.watermark.second < 2 ^ 16 := kept
      have live := clearFrom_liveSlots_le traits (token.watermark.second + 1)
        (UInt64.ofNat (token.watermark.second + 1)) slab
      rw [UInt64.toNat_ofNat', Nat.mod_eq_of_lt (by omega)]
      exact live
    | restoreSlabImages create images => exact kept
    | restoreSlabFromFile index file => exact kept
    | reattachFileBackedSlabs files => exact kept
    | _ => trivial

theorem allocRaw_fresh [Inhabited T] {r : Allocator T} {create : Nat → Bool} (settled : s.Settled)
    (cover : s.CountsCover) (mortal : s.NextMortal) (null : ¬ s.NextSlot ⟨0, 0⟩)
    (allocated : s.allocRaw create = (.ok si, r)) :
    AllocatedFresh s si r := by
  rcases allocRaw_cases settled cover create with ⟨e, r', result, _⟩ | ⟨si', slab, mid, result, found⟩
  · simp [result] at allocated
  · rw [result] at allocated
    simp only [Prod.mk.injEq, Except.ok.injEq] at allocated
    obtain ⟨rfl, rfl⟩ := allocated
    obtain ⟨inside, stored⟩ := slabOf_eq_some.mp found.addressed
    have set : si' ≠ ⟨0, 0⟩ := fun zero => null (zero ▸ found.next)
    -- The slot was free before, is counted and referenced once after, and nothing else is written.
    have marked := found.marked mortal
    have single : (mid.markAllocated si').refs si' = 1 := by
      rw [marked]
      exact (refs_setSlab_same _ inside).trans (slab.take_same si'.second)
    have free : s.refs si' = 0 := by
      rw [← found.grown.refs, refs_of_slab found.addressed, found.free]
    refine ⟨inside.2, ?_, ?_, single, ?_⟩
    · simp [valid, free]
    · exact valid_iff.mpr ⟨set, by rw [single]; decide⟩
    · intro other held
      have different : other ≠ si' := fun same => (valid_iff.mp held).2 (same ▸ free)
      rw [← found.grown.held other, marked]
      have framed : (mid.setSlab si'.first (slab.take si'.second)).held other = mid.held other :=
        held_setSlab stored fun at_ => ⟨slab.take_other (SlabId.second_ne different at_), rfl⟩
      -- The log is not part of what is observed of a slot.
      exact Eq.trans (held_of_slabs rfl) framed

theorem AllocatedFresh.placeItem {r : Allocator T} (fresh : AllocatedFresh s si r) (item : T) :
    AllocatedFresh s si (r.placeItem si item) := by
  obtain ⟨_, held⟩ := valid_iff.mp fresh.valid
  obtain ⟨slab, addressed, _⟩ := slab_of_refs held
  obtain ⟨inside, stored⟩ := slabOf_eq_some.mp addressed
  have placed : r.placeItem si item = r.setSlab si.first (slab.setItem si.second item) := by
    simp [Allocator.placeItem, stored]
  have same : (r.placeItem si item).refs si = r.refs si := by
    rw [placed, refs_setSlab_same _ inside, refs_of_slab addressed]
    rfl
  refine ⟨fresh.offset, fresh.unused, ?_, same.trans fresh.single, ?_⟩
  · simpa [Allocator.valid, same] using fresh.valid
  · intro other valid
    rw [← fresh.others other valid, placed]
    have different : other ≠ si := fun at_ => by
      have unused := fresh.unused
      rw [← at_, valid] at unused
      simp at unused
    refine held_setSlab stored fun at_ => ⟨rfl, ?_⟩
    simp [Slab.setItem, SlabId.second_ne different at_]

theorem deallocate_framed (cover : s.CountsCover) {other : SlabId} (different : other ≠ si)
    (valid : s.valid other = true) :
    (s.deallocate si).2.held other = s.held other := by
  rcases deallocate_cases s si with ⟨same, _⟩ | ⟨slab, addressed, _, _, _, _, result⟩ | ⟨slab, freed⟩
  · rw [same]
  · rw [result]
    exact held_setInUse_other addressed different _
  · refine freed.held_other different fun at_ emptied => ?_
    exact (valid_iff.mp valid).2 (freed.alone cover emptied different at_)

theorem freshAndFramed_of_coverKept [Inhabited T] {traits : ArenaTraits T} {call : AllocatorCall T}
    (settled : s.Settled) (cover : s.CountsCover) (kept : s.CoverKept traits call) :
    s.FreshAndFramed call := by
  cases call with
  | allocRaw create =>
    intro si r allocated
    exact allocRaw_fresh settled cover kept.1 kept.2.2 allocated
  | allocate create item =>
    intro si r allocated
    unfold Allocator.allocate at allocated
    split at allocated
    · rename_i si' r' raw
      simp only [Prod.mk.injEq, Except.ok.injEq] at allocated
      obtain ⟨rfl, rfl⟩ := allocated
      exact (allocRaw_fresh settled cover kept.1 kept.2.2 raw).placeItem item
    · simp at allocated
  | deallocate si =>
    intro other different valid
    exact deallocate_framed cover different valid
  | _ => trivial

/-- In a run whose calls all keep slabs covered, every allocation is fresh and every free framed. -/
theorem freshAndFramed_throughout [Inhabited T] (traits : ArenaTraits T)
    (calls : List (AllocatorCall T))
    (kept : StepsMeet (step traits) (CoverKept traits) initial calls) :
    StepsMeet (step traits) FreshAndFramed initial calls := by
  -- The invariant is a settled state whose slabs count all they hold.
  have judged : ∀ s call next, (s.Settled ∧ s.CountsCover) → CoverKept traits s call →
      step traits s call = some next →
      (next.Settled ∧ next.CountsCover) ∧ FreshAndFramed s call := by
    intro s call next holds meets stepped
    exact ⟨⟨step_settled holds.1 stepped, step_countsCover holds.1 holds.2 meets stepped⟩,
      freshAndFramed_of_coverKept holds.1 holds.2 meets⟩
  exact stepsMeet_of_invariant judged calls initial
    ⟨initial_settled, initial_counts Tally.cover⟩ kept

theorem initial_nextSlot_ne_null [Inhabited T] : ¬ (initial : Allocator T).NextSlot ⟨0, 0⟩ := by
  intro next
  have free := next.1.2.1
  rw [initial_eq] at free
  simp [available, refs, slabOf, numSlabs, slabSize] at free

/-- Allocating and freeing a slot is a run in which both are as promised. -/
theorem freshAndFramed_throughout_allocate_deallocate :
    StepsMeet (step byteTraits) FreshAndFramed initial
      [.allocate (fun _ => true) 7, .deallocate ⟨0, 1⟩] := by
  refine freshAndFramed_throughout byteTraits _ fun next _ => ⟨⟨fun si _ => initial_mortal si,
    (initial_counts Tally.exact_).nextCounted, initial_nextSlot_ne_null⟩, ?_⟩
  exact fun _ _ => ⟨trivial, trivial⟩

def twoHeldFile : Nat → SlabFileMapping UInt8
  | 0 => .mapped (fun k => if k ≤ 1 then 1 else 0) fun _ => 9
  | _ => .absent

set_option maxRecDepth 100000 in
/-- Freeing the one slot allocated in a reattached slab deletes the slab with its other slots. -/
theorem freshAndFramed_fails_after_reattach :
    ¬ StepsMeet (step byteTraits) FreshAndFramed initial
      [.configureMmapFileBackedSlabs, .reattachFileBackedSlabs twoHeldFile,
        .allocate (fun _ => true) 7, .deallocate ⟨0, 2⟩] := by
  intro meets
  have freed := ((((meets _ rfl).2 _ rfl).2 _ rfl).2 _ rfl).1
  -- The reattached slot is valid before the call and gone after it.
  have kept := congrArg Option.isSome (freed ⟨0, 1⟩ (by decide) (by decide +kernel))
  rw [held_isSome, held_isSome] at kept
  revert kept
  decide +kernel

end Allocator

end AgentC

import AgentC.Alloc.Bookkeeping

/-! What restoring images and slab files does to the slab table, and to the counts in it. -/

namespace AgentC

universe u

namespace ArenaSlabImage

def liveSlots (image : ArenaSlabImage) : Nat :=
  Nat.count (fun offset => image.inUse.getD offset 0 ≠ 0) slabSize

def Installs {T : Type u} (traits : ArenaTraits T) (image : ArenaSlabImage) : Prop :=
  image.slabIndex < numSlabs ∧ image.inUse.length = slabSize ∧ image.encoding = traits.encoding

end ArenaSlabImage

namespace Allocator

variable {T : Type u} {related : Nat → Nat → Prop} {s t : Allocator T}

theorem restoreSlots_slab (traits : ArenaTraits T) (image : ArenaSlabImage)
    (slots : List ArenaStructuredSlot) : ∀ (restored : List Nat) (slab : Slab T),
    (restoreSlots traits image slots restored slab).2.2.count = slab.count ∧
      (restoreSlots traits image slots restored slab).2.2.inUse = slab.inUse ∧
      (restoreSlots traits image slots restored slab).2.2.staticImmortal = slab.staticImmortal := by
  induction slots with
  | nil => intro restored slab; exact ⟨rfl, rfl, rfl⟩
  | cons slot rest ih =>
    intro restored slab
    rw [restoreSlots]
    split
    · exact ⟨rfl, rfl, rfl⟩
    · split
      · exact ⟨rfl, rfl, rfl⟩
      · rename_i item _
        exact ih _ (slab.setItem slot.offset item)

theorem restoreImage_cases [Inhabited T] (traits : ArenaTraits T) (s : Allocator T)
    (image : ArenaSlabImage) :
    restoreImage traits s image = (false, s) ∨
      image.Installs traits ∧ ∃ done slab,
        restoreImage traits s image = (done, s.setSlab image.slabIndex slab) ∧
        slab.count = image.count.toUInt64 ∧ slab.inUse = (fun k => image.inUse.getD k 0) ∧
        slab.staticImmortal = false := by
  by_cases refused : numSlabs ≤ image.slabIndex ∨ image.inUse.length ≠ slabSize ∨
      image.encoding ≠ traits.encoding
  · exact Or.inl (by simp only [restoreImage, refused, if_true])
  · have header : image.Installs traits := by
      simp only [not_or, not_le, not_not] at refused
      exact refused
    refine Or.inr ⟨header, ?_⟩
    unfold restoreImage
    rw [if_neg refused]
    simp only
    split
    · split
      · exact ⟨false, _, rfl, rfl, rfl, rfl⟩
      · exact ⟨true, _, rfl, rfl, rfl, rfl⟩
    · -- The structured slots only fill in payloads.
      exact ⟨_, _, rfl, restoreSlots_slab traits image image.structuredSlots [] _⟩

theorem restoreImage_sameButSlabs [Inhabited T] (traits : ArenaTraits T) (s : Allocator T)
    (image : ArenaSlabImage) : SameButSlabs s (restoreImage traits s image).2 := by
  rcases restoreImage_cases traits s image with result | ⟨_, done, slab, result, _⟩
  · rw [result]; exact SameButSlabs.refl s
  · rw [result]; exact SameButSlabs.setSlab s _ _

theorem restoreImages_sameButSlabs [Inhabited T] (traits : ArenaTraits T)
    (images : List ArenaSlabImage) :
    ∀ s : Allocator T, SameButSlabs s (restoreImages traits images s).2 := by
  induction images with
  | nil => intro s; exact SameButSlabs.refl s
  | cons image rest ih =>
    intro s
    have first := restoreImage_sameButSlabs traits s image
    rw [restoreImages]
    split
    · rename_i r result
      rw [result] at first
      exact first.trans (ih r)
    · rename_i r result
      rw [result] at first
      exact first

theorem CountsTally.restoreImage [Inhabited T] (counts : s.CountsTally related)
    {traits : ArenaTraits T} {image : ArenaSlabImage}
    (own : image.Installs traits → related image.liveSlots image.count.toNat) :
    (Allocator.restoreImage traits s image).2.CountsTally related := by
  rcases restoreImage_cases traits s image with
    result | ⟨header, done, slab, result, count, inUse, _⟩
  · rw [result]; exact counts
  · rw [result]
    refine EverySlab.setSlab counts ?_
    have live : slab.liveSlots = image.liveSlots := by
      simp only [Slab.liveSlots, ArenaSlabImage.liveSlots, inUse]
    rw [live, count]
    simpa using own header

theorem CountsTally.restoreImages [Inhabited T] {traits : ArenaTraits T}
    {images : List ArenaSlabImage}
    (own : ∀ image ∈ images, image.Installs traits → related image.liveSlots image.count.toNat) :
    ∀ s : Allocator T, s.CountsTally related →
      (Allocator.restoreImages traits images s).2.CountsTally related := by
  -- Each image contributes one slab, and a refused one ends the loop.
  induction images with
  | nil => intro s counts; exact counts
  | cons image rest ih =>
    intro s counts
    have first := counts.restoreImage (own image List.mem_cons_self)
    rw [Allocator.restoreImages]
    split
    · rename_i r result
      rw [result] at first
      exact ih (fun other member => own other (List.mem_cons_of_mem _ member)) r first
    · rename_i r result
      rw [result] at first
      exact first

theorem CountsTally.clearSlabsOnly (counts : s.CountsTally related) :
    s.clearSlabsOnly.CountsTally related := by
  intro k slab stored
  simp only [Allocator.clearSlabsOnly] at stored
  split at stored
  · simp at stored
  · exact counts k slab stored

/-- The state in which `restoreSlabImages` takes the null slot, when it has to. -/
def imagesRestored [Inhabited T] (traits : ArenaTraits T) (s : Allocator T)
    (images : List ArenaSlabImage) : Allocator T :=
  (Allocator.restoreImages traits images s.clearSlabsOnly).2

theorem CountsTally.restoreSlabImages [Inhabited T] (tally : Tally related)
    (counts : s.CountsTally related) (settled : s.Settled) {traits : ArenaTraits T}
    {images : List ArenaSlabImage} (create : Nat → Bool)
    (own : ∀ image ∈ images, image.Installs traits → related image.liveSlots image.count.toNat)
    (mortal : (s.imagesRestored traits images).NextMortal)
    (room : (s.imagesRestored traits images).NextCounted) :
    (s.restoreSlabImages traits create images).2.CountsTally related := by
  unfold Allocator.restoreSlabImages
  split
  · exact counts
  · have filled := CountsTally.restoreImages own _ counts.clearSlabsOnly
    have still : (s.imagesRestored traits images).Settled := by
      rw [imagesRestored, restoreImages_sameButSlabs traits images s.clearSlabsOnly]
      exact settled
    split
    · rename_i r result
      rw [result] at filled
      exact filled
    · rename_i r result
      simp only [imagesRestored, result] at mortal room still
      rw [result] at filled
      split
      · have taken := filled.allocRaw tally still mortal room create
        split
        · rename_i si after allocated
          rw [allocated] at taken
          exact taken.of_slabs rfl
        · rename_i e after allocated
          rw [allocated] at taken
          exact taken
      · exact filled

theorem recounted_related (tally : Tally related) (slab : Slab T) :
    related slab.liveSlots (UInt64.ofNat slab.liveSlots).toNat := by
  -- At most `slabSize` slots are live, which fits the stored word.
  have fits := slab.liveSlots_le
  simp only [slabSize] at fits
  rw [UInt64.toNat_ofNat', Nat.mod_eq_of_lt (by omega)]
  exact tally.same _

def SlabFileRead.uncounted : SlabFileRead T → Option (Nat → UInt64)
  | .shortInUse inUse => some inUse
  | .shortItems inUse _ => some inUse
  | .unavailable => none
  | .complete _ _ => none

theorem CountsTally.restoreSlabFromFile (tally : Tally related) (counts : s.CountsTally related)
    (index : Nat) {file : SlabFileRead T}
    (own : ∀ inUse slab, SlabFileRead.uncounted file = some inUse → s.slabs index = some slab →
      related ({ slab with inUse := inUse } : Slab T).liveSlots slab.count.toNat) :
    (s.restoreSlabFromFile index file).2.CountsTally related := by
  unfold Allocator.restoreSlabFromFile
  split
  · split
    · exact counts
    · exact counts
    · rename_i slab inUse stored
      exact EverySlab.setSlab counts (own inUse slab rfl stored)
    · rename_i slab inUse items stored
      refine EverySlab.setSlab counts ?_
      exact own inUse slab rfl stored
    · -- A complete file is counted again.
      refine EverySlab.setSlab counts ?_
      rename_i slab inUse items stored
      exact recounted_related tally ({ slab with inUse := inUse, items := items } : Slab T)
  · exact counts

def SlabFileMapping.Vacant : SlabFileMapping T → Prop
  | .mapped inUse _ => ∀ offset, offset < slabSize → inUse offset = 0
  | _ => True

def SlabFileMapping.fails : SlabFileMapping T → Bool
  | .failed => true
  | _ => false

def reachedFiles (files : Nat → SlabFileMapping T) : List Nat :=
  (List.range numSlabs).takeWhile fun index => !SlabFileMapping.fails (files index)

theorem reattachSlabs_sameButSlabs [Inhabited T] (files : Nat → SlabFileMapping T)
    (indices : List Nat) :
    ∀ s : Allocator T, SameButSlabs s (Allocator.reattachSlabs files indices s).2 := by
  induction indices with
  | nil => intro s; exact SameButSlabs.refl s
  | cons index rest ih =>
    intro s
    rw [Allocator.reattachSlabs]
    split
    · exact ih s
    · exact SameButSlabs.refl s
    · exact (SameButSlabs.setSlab s index _).trans (ih _)

theorem CountsTally.reattachSlabs [Inhabited T] (tally : Tally related)
    {files : Nat → SlabFileMapping T} (indices : List Nat) :
    ∀ s : Allocator T, s.CountsTally related →
      (∀ index ∈ indices.takeWhile fun k => !SlabFileMapping.fails (files k),
        SlabFileMapping.Vacant (files index)) →
      (Allocator.reattachSlabs files indices s).2.CountsTally related := by
  induction indices with
  | nil => intro s counts _; exact counts
  | cons index rest ih =>
    intro s counts vacant
    rw [List.takeWhile_cons] at vacant
    rw [Allocator.reattachSlabs]
    split
    · rename_i absent
      simp only [absent, SlabFileMapping.fails, Bool.not_false, if_true] at vacant
      exact ih s counts fun other member => vacant other (List.mem_cons_of_mem index member)
    · exact counts
    · rename_i inUse items mapped
      simp only [mapped, SlabFileMapping.fails, Bool.not_false, if_true] at vacant
      refine ih _ (EverySlab.setSlab counts ?_) fun other member =>
        vacant other (List.mem_cons_of_mem index member)
      -- The slab is counted empty, and is.
      have free := vacant index List.mem_cons_self
      rw [mapped] at free
      have none : ({ (Slab.fresh true : Slab T) with inUse := inUse, items := items }).liveSlots = 0 :=
        count_initial (Nat.zero_le _) fun k below =>
          iff_of_false (not_not.mpr (free k below)) (Nat.not_lt_zero k)
      rw [none]
      exact tally.empty

theorem CountsTally.reattachFileBackedSlabs [Inhabited T] (tally : Tally related)
    (counts : s.CountsTally related) {files : Nat → SlabFileMapping T}
    (vacant : s.backingPolicy = .mmapFile → ∀ index ∈ reachedFiles files,
      SlabFileMapping.Vacant (files index)) :
    (s.reattachFileBackedSlabs files).2.CountsTally related := by
  unfold Allocator.reattachFileBackedSlabs
  split
  · exact counts
  · rename_i policy
    exact CountsTally.reattachSlabs tally _ s counts (vacant policy)

end Allocator

end AgentC

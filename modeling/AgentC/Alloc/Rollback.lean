import AgentC.Alloc.ScopeLaws

/-! Rolling back a checkpoint undoes exactly what was allocated since it was taken. -/

namespace AgentC

universe u

namespace Allocator

variable {T : Type u} {s t x y z : Allocator T}

/-- Some slots are freed and no other slot is touched. -/
structure Discards (gone : SlabId → Prop) (x y : Allocator T) : Prop where
  cover : y.CountsCover
  immortal : ∀ si, y.slotIsStaticImmortal si = x.slotIsStaticImmortal si
  free : ∀ si, gone si → y.refs si = 0
  others : ∀ si, ¬ gone si → y.refs si = x.refs si ∧ y.getPtr si = x.getPtr si
  log : y.allocationLog = x.allocationLog
  frames : ∃ clean, y.checkpoints = framesAfter clean x.checkpoints
  reserved : x.rollbackProtectedFreeSlots ⊆ y.rollbackProtectedFreeSlots

namespace Discards

variable {gone : SlabId → Prop}

theorem refl (cover : x.CountsCover) (free : ∀ si, gone si → x.refs si = 0) :
    Discards gone x x :=
  ⟨cover, fun _ => rfl, free, fun _ _ => ⟨rfl, rfl⟩, rfl, ⟨true, rfl⟩, Finset.Subset.refl _⟩

theorem trans {gone' : SlabId → Prop} (first : Discards gone x y) (second : Discards gone' y z) :
    Discards (fun si => gone si ∨ gone' si) x z where
  cover := second.cover
  immortal := fun si => (second.immortal si).trans (first.immortal si)
  free := by
    intro si either
    by_cases later : gone' si
    · exact second.free si later
    · rw [(second.others si later).1]
      exact first.free si (either.resolve_right later)
  others := by
    intro si neither
    obtain ⟨early, late⟩ := not_or.mp neither
    obtain ⟨refs, payload⟩ := second.others si late
    obtain ⟨refs', payload'⟩ := first.others si early
    exact ⟨refs.trans refs', payload.trans payload'⟩
  log := second.log.trans first.log
  frames := by
    obtain ⟨clean, frames⟩ := first.frames
    obtain ⟨clean', frames'⟩ := second.frames
    refine ⟨clean && clean', ?_⟩
    rw [frames', frames]
    cases clean <;> cases clean' <;> simp [framesAfter, Function.comp_def]
  reserved := first.reserved.trans second.reserved

theorem congr {gone' : SlabId → Prop} (discards : Discards gone x y)
    (same : ∀ si, gone' si ↔ gone si) : Discards gone' x y :=
  { discards with
    free := fun si member => discards.free si ((same si).mp member)
    others := fun si member => discards.others si fun other => member ((same si).mpr other) }

theorem stays (discards : Discards gone x y) {si : SlabId} (free : x.refs si = 0) :
    y.refs si = 0 := by
  by_cases member : gone si
  · exact discards.free si member
  · rw [(discards.others si member).1, free]

end Discards

variable {si watermark : SlabId}

theorem rollbackAllocation_discards (cover : x.CountsCover) (set : si ≠ ⟨0, 0⟩)
    (mortal : x.refs si ≠ 0 → x.slotIsStaticImmortal si = false) :
    Discards (· = si) x (x.rollbackAllocation si) := by
  unfold Allocator.rollbackAllocation
  split
  · rename_i free
    exact Discards.refl cover fun other here => here ▸ free
  · rename_i holds
    -- With its count set to one, the slot is freed by the next `deallocate`.
    obtain ⟨slab, addressed, held⟩ := slab_of_refs holds
    obtain ⟨inside, stored⟩ := slabOf_eq_some.mp addressed
    have lowered : x.setRefs si 1 = x.setSlab si.first (slab.setInUse si.second 1) := by
      simp only [setRefs, addressed]
    have since : Since x (x.setSlab si.first (slab.setInUse si.second 1)) true [] [] [] :=
      Since.setInUse cover addressed held (by decide)
    rw [lowered]
    have one : (x.setSlab si.first (slab.setInUse si.second 1)).refs si = 1 := by
      rw [refs_setSlab_same _ inside, Slab.setInUse_same]
    have still := (since.immortal si).trans (mortal holds)
    rcases deallocate_cases (x.setSlab si.first (slab.setInUse si.second 1)) si with
      ⟨_, immortal | invalid⟩ | ⟨after, addressed', _, _, _, several, _⟩ | ⟨after, freed⟩
    · rw [still] at immortal
      simp at immortal
    · rw [valid_iff.mpr ⟨set, by rw [one]; decide⟩] at invalid
      simp at invalid
    · rw [refs_of_slab addressed'] at one
      exact absurd one several
    · refine ⟨CountsTally.deallocate Tally.cover since.cover si,
        fun other => (freed.immortal other).trans (since.immortal other), ?_, ?_, ?_, ?_, ?_⟩
      · rintro other rfl
        exact freed.refs_eq_zero
      · intro other different
        have written := refs_setInUse_other (s := x) 1 addressed different
        have refs := (freed.refs_other since.cover different).trans written
        refine ⟨refs, ?_⟩
        -- A held slot is observed as before, and a free one has no payload.
        by_cases free : x.refs other = 0
        · rw [getPtr_of_free free, getPtr_of_free (refs.trans free)]
        · by_cases null : other = ⟨0, 0⟩
          · subst null
            rfl
          · have valid : (x.setSlab si.first (slab.setInUse si.second 1)).valid other = true :=
              valid_iff.mpr ⟨null, by rwa [written]⟩
            exact (getPtr_of_held (deallocate_framed since.cover different valid)).trans
              (getPtr_of_held (held_setInUse_other addressed different 1))
      · exact freed.allocationLog
      · exact ⟨false, freed.checkpoints⟩
      · rw [freed.reserved]
        split
        · exact Finset.Subset.refl _
        · exact Finset.subset_insert si _

theorem rollbackLogged_discards (log : List SlabId) : ∀ x : Allocator T, x.CountsCover →
    (∀ si ∈ log, si ≠ ⟨0, 0⟩ ∧ (x.refs si ≠ 0 → x.slotIsStaticImmortal si = false)) →
    Discards (· ∈ log) x (log.foldl Allocator.rollbackAllocation x) := by
  -- Each entry discards its slot, and what is discarded stays discarded.
  induction log with
  | nil => intro x cover _; exact Discards.refl cover fun _ member => absurd member List.not_mem_nil
  | cons si rest ih =>
    intro x cover listed
    obtain ⟨set, mortal⟩ := listed si List.mem_cons_self
    have first := rollbackAllocation_discards cover set mortal
    have remaining := ih (x.rollbackAllocation si) first.cover fun other member => by
      obtain ⟨setOther, mortalOther⟩ := listed other (List.mem_cons_of_mem si member)
      refine ⟨setOther, fun holds => (first.immortal other).trans (mortalOther fun free => ?_)⟩
      exact holds (first.stays free)
    exact (first.trans remaining).congr fun other => List.mem_cons

def rank (si : SlabId) : Nat :=
  si.first * slabSize + si.second

theorem rank_previousSlot (inside : si.second < slabSize) (positive : 0 < rank si) :
    rank (previousSlot si) + 1 = rank si ∧ (previousSlot si).second < slabSize := by
  unfold previousSlot
  simp only [rank, slabSize] at *
  split <;> simp only <;> omega

theorem before_iff_rank {a b : SlabId} (insideA : a.second < slabSize) (insideB : b.second < slabSize) :
    a.Before b ↔ rank a < rank b := by
  simp only [SlabId.Before, rank, slabSize] at *
  omega

theorem rank_pos : 0 < rank si ↔ si ≠ ⟨0, 0⟩ := by
  rcases si with ⟨first, second⟩
  simp only [rank, slabSize, ne_eq, SlabId.mk.injEq]
  omega

theorem rank_inj {a b : SlabId} (insideA : a.second < slabSize) (insideB : b.second < slabSize)
    (same : rank a = rank b) : a = b := by
  rcases a with ⟨i, j⟩
  rcases b with ⟨k, l⟩
  simp only [rank, slabSize, SlabId.mk.injEq] at *
  omega

theorem past_iff_rank (insideW : watermark.second < slabSize) (inside : si.second < slabSize) :
    Past watermark si ↔ rank watermark < rank si := by
  unfold Past
  rw [before_iff_rank insideW inside, ← rank_pos]
  by_cases null : watermark = ⟨0, 0⟩
  · subst null
    simp [rank]
  · have positive := rank_pos.mpr null
    constructor
    · exact fun both => both.2 null
    · exact fun above => ⟨by omega, fun _ => above⟩

theorem rollbackDown_discards (insideW : watermark.second < slabSize) (remaining : Nat) :
    ∀ (current : SlabId) (x : Allocator T), x.CountsCover →
    rank current = remaining → current.second < slabSize → rank watermark ≤ rank current →
    (∀ si, rank watermark < rank si → x.refs si ≠ 0 → x.slotIsStaticImmortal si = false) →
    Discards (fun si => si.second < slabSize ∧ rank watermark < rank si ∧ rank si ≤ rank current) x
      (rollbackDown watermark remaining current x) := by
  -- The places left to visit go down by one with each step.
  induction remaining with
  | zero =>
    intro current x cover place _ above _
    exact Discards.refl cover fun si between => by omega
  | succ remaining ih =>
    intro current x cover place inside above mortal
    have set : current ≠ ⟨0, 0⟩ := rank_pos.mp (by omega)
    simp only [rollbackDown]
    by_cases arrived : current = watermark
    · rw [if_neg (by simp [arrived])]
      exact Discards.refl cover fun si between => by
        rw [arrived] at between
        omega
    · rw [if_pos (by simp [SlabId.isSet_iff.mpr set, arrived])]
      have apart : rank watermark ≠ rank current := fun same =>
        arrived (rank_inj inside insideW same.symm)
      obtain ⟨lower, insidePrevious⟩ := rank_previousSlot inside (by omega)
      have first := rollbackAllocation_discards cover set fun holds =>
        mortal current (by omega) holds
      have rest := ih (previousSlot current) (x.rollbackAllocation current) first.cover (by omega)
        insidePrevious (by omega) fun si past holds => (first.immortal si).trans
          (mortal si past fun free => holds (first.stays free))
      refine (first.trans rest).congr fun si => ?_
      constructor
      · rintro ⟨insideSi, low, high⟩
        by_cases top : rank si = rank current
        · exact Or.inl (rank_inj insideSi inside top)
        · exact Or.inr ⟨insideSi, low, by omega⟩
      · rintro (rfl | ⟨insideSi, low, high⟩)
        · exact ⟨inside, by omega, le_rfl⟩
        · exact ⟨insideSi, low, by omega⟩

theorem rollbackAppendOnly_discards (cover : x.CountsCover) (insideW : watermark.second < slabSize)
    (above : rank watermark ≤ rank x.currentHighWatermark)
    (mortal : ∀ si, rank watermark < rank si → x.refs si ≠ 0 → x.slotIsStaticImmortal si = false) :
    Discards (fun si => si.second < slabSize ∧ rank watermark < rank si) x
      (x.rollbackAppendOnlyFromWatermark watermark) := by
  have inside := (currentHighWatermark_inRange x).2
  have walked := rollbackDown_discards insideW _ x.currentHighWatermark x cover rfl inside above mortal
  refine ⟨walked.cover, walked.immortal, ?_, ?_, walked.log, walked.frames, walked.reserved⟩
  · intro si past
    by_cases below : rank si ≤ rank x.currentHighWatermark
    · exact walked.free si ⟨past.1, past.2, below⟩
    · -- Above the current watermark nothing was held to begin with.
      refine walked.stays ?_
      by_contra holds
      have last := currentHighWatermark_last holds
      rw [before_iff_rank inside past.1] at last
      omega
  · intro si outside
    refine walked.others si fun between => outside ⟨between.1, between.2.1⟩

def strictSlab (traits : ArenaTraits T) (watermark : SlabId) (index : Nat) (slab : Slab T) : Slab T :=
  if watermark.first < index ∧ index < numSlabs then clearFrom traits 0 0 slab
  else if index = watermark.first then
    if watermark.isSet then
      clearFrom traits (watermark.second + 1) (UInt64.ofNat (watermark.second + 1)) slab
    else clearPastNull slab
  else slab

theorem rollbackStrict_slabs (traits : ArenaTraits T) (x : Allocator T) (watermark : SlabId)
    (index : Nat) : (x.rollbackStrictAppendOnlyFromWatermark traits watermark).slabs index =
      (x.slabs index).map (strictSlab traits watermark index) := by
  unfold rollbackStrictAppendOnlyFromWatermark strictSlab
  simp only
  split
  · rfl
  · split
    · split <;> rfl
    · simp

theorem strictSlab_staticImmortal (traits : ArenaTraits T) (watermark : SlabId) (index : Nat)
    (slab : Slab T) : (strictSlab traits watermark index slab).staticImmortal = slab.staticImmortal := by
  unfold strictSlab
  split
  · rfl
  · split
    · split <;> rfl
    · rfl

theorem strictSlab_slot (traits : ArenaTraits T) (slab : Slab T) (inside : si.InRange) :
    (Past watermark si → (strictSlab traits watermark si.first slab).inUse si.second = 0) ∧
      (¬ Past watermark si →
        (strictSlab traits watermark si.first slab).inUse si.second = slab.inUse si.second ∧
          (strictSlab traits watermark si.first slab).items si.second = slab.items si.second) := by
  unfold strictSlab
  by_cases later : watermark.first < si.first
  · -- Later slabs are cleared whole, and all their slots are past the watermark.
    have past : Past watermark si := by
      refine ⟨fun null => ?_, fun _ => Or.inl later⟩
      rw [null] at later
      simp at later
    rw [if_pos ⟨later, inside.1⟩]
    exact ⟨fun _ => by simp [clearFrom], fun kept => absurd past kept⟩
  · rw [if_neg fun both => later both.1]
    by_cases own : si.first = watermark.first
    · rw [if_pos own]
      by_cases null : watermark = ⟨0, 0⟩
      · -- Without a watermark only the null slot is kept.
        rw [if_neg (by simp [null, SlabId.isSet])]
        have first : si.first = 0 := by rw [own, null]
        by_cases zero : si.second = 0
        · have isNull : si = ⟨0, 0⟩ := by cases si; simp_all
          refine ⟨fun past => absurd isNull past.1, fun _ => ⟨?_, rfl⟩⟩
          simp [clearPastNull, zero]
        · have past : Past watermark si :=
            ⟨fun isNull => zero (by rw [isNull]), fun set => absurd null set⟩
          refine ⟨fun _ => ?_, fun kept => absurd past kept⟩
          simp [clearPastNull, Nat.one_le_iff_ne_zero.mpr zero]
      · rw [if_pos (SlabId.isSet_iff.mpr null)]
        by_cases above : watermark.second + 1 ≤ si.second
        · have past : Past watermark si := by
            refine ⟨fun isNull => ?_, fun _ => Or.inr ⟨own.symm, by omega⟩⟩
            rw [isNull] at above
            simp at above
          exact ⟨fun _ => if_pos above, fun kept => absurd past kept⟩
        · have kept : ¬ Past watermark si := fun past => by
            rcases past.2 null with earlier | ⟨_, lower⟩
            · omega
            · omega
          exact ⟨fun past => absurd past kept,
            fun _ => ⟨if_neg above, if_neg fun both => above both.1⟩⟩
    · rw [if_neg own]
      have earlier : si.first < watermark.first := by omega
      have kept : ¬ Past watermark si := fun past => by
        have set : watermark ≠ ⟨0, 0⟩ := fun null => by
          rw [null] at earlier
          simp at earlier
        rcases past.2 set with after | ⟨same, _⟩ <;> omega
      exact ⟨fun past => absurd past kept, fun _ => ⟨rfl, rfl⟩⟩

theorem rollbackStrict_discards (traits : ArenaTraits T) (cover : x.CountsCover)
    (insideW : watermark.second < slabSize) :
    Discards (fun si => si.second < slabSize ∧ rank watermark < rank si) x
      (x.rollbackStrictAppendOnlyFromWatermark traits watermark) := by
  have own : x.StrictResetCounts (· ≤ ·) traits watermark := by
    intro _ slab _
    have live := clearFrom_liveSlots_le traits (watermark.second + 1)
      (UInt64.ofNat (watermark.second + 1)) slab
    simp only [slabSize] at insideW
    rw [UInt64.toNat_ofNat', Nat.mod_eq_of_lt (by omega)]
    exact live
  refine ⟨CountsTally.rollbackStrict Tally.cover cover own, ?_, ?_, ?_, rfl, ⟨true, rfl⟩,
    Finset.Subset.refl _⟩
  · intro si
    -- Every slab keeps its flag, and the marks are untouched.
    have flags : (x.rollbackStrictAppendOnlyFromWatermark traits watermark).slabs si.first =
        (x.slabs si.first).map (strictSlab traits watermark si.first) :=
      rollbackStrict_slabs traits x watermark si.first
    unfold slotIsStaticImmortal
    rw [flags]
    cases x.slabs si.first with
    | none => rfl
    | some slab =>
      simp only [Option.map_some, strictSlab_staticImmortal]
      rfl
  · rintro si ⟨inside, past⟩
    rw [← past_iff_rank insideW inside] at past
    unfold refs slabOf
    rw [rollbackStrict_slabs]
    by_cases range : si.first < numSlabs ∧ si.second < slabSize
    · rw [if_pos range]
      cases x.slabs si.first with
      | none => rfl
      | some slab => exact (strictSlab_slot traits slab range).1 past
    · rw [if_neg range]
  · intro si kept
    by_cases range : si.InRange
    · have unpast : ¬ Past watermark si := fun past =>
        kept ⟨range.2, (past_iff_rank insideW range.2).mp past⟩
      cases stored : x.slabs si.first with
      | none =>
        have free := refs_of_absent stored
        have gone : (x.rollbackStrictAppendOnlyFromWatermark traits watermark).refs si = 0 :=
          refs_of_absent (by rw [rollbackStrict_slabs, stored]; rfl)
        exact ⟨gone.trans free.symm, by rw [getPtr_of_free gone, getPtr_of_free free]⟩
      | some slab =>
        have before := slabOf_eq_some.mpr ⟨range, stored⟩
        have after : (x.rollbackStrictAppendOnlyFromWatermark traits watermark).slabOf si =
            some (strictSlab traits watermark si.first slab) :=
          slabOf_eq_some.mpr ⟨range, by rw [rollbackStrict_slabs, stored]; rfl⟩
        obtain ⟨count, item⟩ := (strictSlab_slot traits slab range).2 unpast
        exact ⟨by rw [refs_of_slab after, refs_of_slab before, count],
          getPtr_of_held (held_congr before after count item)⟩
    · have outside : ¬ (si.first < numSlabs ∧ si.second < slabSize) := range
      have free (r : Allocator T) : r.refs si = 0 := by simp [refs, slabOf, outside]
      exact ⟨by rw [free, free], by rw [getPtr_of_free (free _), getPtr_of_free (free _)]⟩

end Allocator

end AgentC

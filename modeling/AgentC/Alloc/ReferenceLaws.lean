import AgentC.Alloc.AllocatorLaws

/-! What `modrefs`, `tryRetain` and `deallocate` can do to a state, one case for each outcome. -/

namespace AgentC

universe u

/-- Adding minus one in `size_t` arithmetic is subtracting one. -/
theorem word_add_neg_one (x : UInt64) : x + UInt64.ofInt (-1) = x - 1 := by
  -- Subtraction is defined as adding the negated word, and the two constants are the same word.
  rw [UInt64.sub_eq_add_neg]
  rfl

variable {x : UInt64}

theorem word_sub_one_eq_zero : x - 1 = 0 ↔ x = 1 := by
  rw [UInt64.sub_eq_iff_eq_add]
  simp

theorem word_sub_one_toNat (positive : x ≠ 0) : (x - 1).toNat = x.toNat - 1 := by
  -- The word being positive excludes the borrow.
  have nonzero : x.toNat ≠ 0 := fun zero => positive (UInt64.toNat_inj.mp (by simpa using zero))
  have below : 1 ≤ x := UInt64.le_iff_toNat_le.mpr (by simp; omega)
  simp [UInt64.toNat_sub_of_le _ _ below]

theorem word_add_one_toNat (room : x.toNat + 1 < 2 ^ 64) :
    (x + 1).toNat = x.toNat + 1 := by
  simp [UInt64.toNat_add]
  omega

theorem word_add_one_ne_zero (room : x.toNat + 1 < 2 ^ 64) : x + 1 ≠ 0 := by
  intro zero
  have lengths := congrArg UInt64.toNat zero
  rw [word_add_one_toNat room] at lengths
  simp at lengths

namespace Allocator

variable {T : Type u}

theorem modrefs_cases (s : Allocator T) (si : SlabId) (delta : Int) :
    (s.modrefs si delta = s ∧ (s.slabOf si = none ∨ s.slotIsStaticImmortal si = true)) ∨
      ∃ slab, s.slabOf si = some slab ∧ s.slotIsStaticImmortal si = false ∧
        s.modrefs si delta = s.setSlab si.first
          (slab.setInUse si.second (slab.inUse si.second + UInt64.ofInt delta)) := by
  -- The cases are the two guards of the source.
  cases addressed : s.slabOf si with
  | none => exact Or.inl ⟨by simp [modrefs, addressed], Or.inl rfl⟩
  | some slab =>
    cases immortal : s.slotIsStaticImmortal si with
    | true => exact Or.inl ⟨by simp [modrefs, addressed, immortal], Or.inr rfl⟩
    | false => exact Or.inr ⟨slab, rfl, rfl, by simp [modrefs, addressed, immortal]⟩

theorem modrefs_sameButSlabs (s : Allocator T) (si : SlabId) (delta : Int) :
    SameButSlabs s (s.modrefs si delta) := by
  rcases modrefs_cases s si delta with ⟨same, _⟩ | ⟨slab, _, _, result⟩
  · rw [same]; exact SameButSlabs.refl s
  · rw [result]; exact SameButSlabs.setSlab s _ _

theorem tryRetain_cases (s : Allocator T) (si : SlabId) :
    (s.tryRetain si).2 = s ∨
      ∃ slab, s.slabOf si = some slab ∧ si ≠ ⟨0, 0⟩ ∧ slab.inUse si.second ≠ 0 ∧
        s.slotIsStaticImmortal si = false ∧
        s.tryRetain si = (true, s.setSlab si.first
          (slab.setInUse si.second (slab.inUse si.second + 1))) := by
  -- Only the last branch of the source writes anything.
  cases set : si.isSet with
  | false => exact Or.inl (by simp [tryRetain, set])
  | true =>
    cases addressed : s.slabOf si with
    | none => exact Or.inl (by simp [tryRetain, set, addressed])
    | some slab =>
      by_cases free : slab.inUse si.second = 0
      · exact Or.inl (by simp [tryRetain, set, addressed, free])
      · cases immortal : s.slotIsStaticImmortal si with
        | true => exact Or.inl (by simp [tryRetain, set, addressed, free, immortal])
        | false =>
          exact Or.inr ⟨slab, rfl, SlabId.isSet_iff.mp set, free, rfl,
            by simp [tryRetain, set, addressed, free, immortal]⟩

theorem tryRetain_sameButSlabs (s : Allocator T) (si : SlabId) :
    SameButSlabs s (s.tryRetain si).2 := by
  rcases tryRetain_cases s si with same | ⟨slab, _, _, _, _, result⟩
  · rw [same]; exact SameButSlabs.refl s
  · rw [result]; exact SameButSlabs.setSlab s _ _

theorem tryRetain_fst (s : Allocator T) (si : SlabId) : (s.tryRetain si).1 = s.valid si := by
  -- Both test that the id is set and that its slot is held.
  cases set : si.isSet with
  | false => simp [tryRetain, valid, set]
  | true =>
    cases addressed : s.slabOf si with
    | none => simp [tryRetain, valid, refs, set, addressed]
    | some slab =>
      by_cases free : slab.inUse si.second = 0
      · simp [tryRetain, valid, refs, set, addressed, free]
      · cases immortal : s.slotIsStaticImmortal si <;>
          simp [tryRetain, valid, refs, set, addressed, free, immortal]

/-- The state after the last reference to a slot is dropped. -/
structure Freed (s : Allocator T) (si : SlabId) (slab : Slab T) (t : Allocator T) : Prop where
  addressed : s.slabOf si = some slab
  set : si ≠ ⟨0, 0⟩
  mortal : s.slotIsStaticImmortal si = false
  last : slab.inUse si.second = 1
  slabs : t.slabs = fun k =>
    if k = si.first then
      if slab.count - 1 = 0 then none
      else some { slab.setInUse si.second 0 with count := slab.count - 1 }
    else s.slabs k
  allocationLog : t.allocationLog = s.allocationLog
  checkpoints : t.checkpoints = s.checkpoints.map fun frame => { frame with appendOnly := false }
  reserved : t.rollbackProtectedFreeSlots =
    if s.checkpoints = [] then s.rollbackProtectedFreeSlots
    else insert si s.rollbackProtectedFreeSlots
  immortalSlabs : t.staticImmortalSlabs = s.staticImmortalSlabs
  immortalSlots : t.staticImmortalSlots = s.staticImmortalSlots
  destructorRuns : t.destructorRuns = s.destructorRuns ++ [si]

theorem deallocate_cases (s : Allocator T) (si : SlabId) :
    (s.deallocate si = (false, s) ∧
        (s.slotIsStaticImmortal si = true ∨ s.valid si = false)) ∨
      (∃ slab, s.slabOf si = some slab ∧ si ≠ ⟨0, 0⟩ ∧ s.slotIsStaticImmortal si = false ∧
        slab.inUse si.second ≠ 0 ∧ slab.inUse si.second ≠ 1 ∧
        s.deallocate si = (false, s.setSlab si.first
          (slab.setInUse si.second (slab.inUse si.second - 1)))) ∨
      ∃ slab, Freed s si slab (s.deallocate si).2 := by
  cases immortal : s.slotIsStaticImmortal si with
  | true => exact Or.inl ⟨by simp [deallocate, immortal], Or.inl rfl⟩
  | false =>
    cases valid : s.valid si with
    | false => exact Or.inl ⟨by simp [deallocate, immortal, valid], Or.inr rfl⟩
    | true =>
      obtain ⟨set, holds⟩ := valid_iff.mp valid
      obtain ⟨slab, addressed, held⟩ := slab_of_refs holds
      obtain ⟨inside, stored⟩ := slabOf_eq_some.mp addressed
      -- The call reaches the decrement, whose result decides between the two remaining cases.
      have dropped : s.modrefs si (-1) = s.setSlab si.first
          (slab.setInUse si.second (slab.inUse si.second - 1)) := by
        simp only [modrefs, addressed, immortal, word_add_neg_one, Bool.false_eq_true, if_false]
      have left : (s.modrefs si (-1)).refs si = slab.inUse si.second - 1 := by
        rw [dropped, refs_setSlab_same _ inside, Slab.setInUse_same]
      have unfolded : s.deallocate si =
          if slab.inUse si.second - 1 = 0 then (s.modrefs si (-1)).freeSlot si
          else (false, s.modrefs si (-1)) := by
        simp [deallocate, immortal, valid, left]
      by_cases last : slab.inUse si.second = 1
      · refine Or.inr (Or.inr ⟨slab, ?_⟩)
        have zero : slab.inUse si.second - 1 = 0 := word_sub_one_eq_zero.mpr last
        rw [unfolded, if_pos zero, dropped, zero]
        -- Both ways of ending the free branch, inside and outside a checkpoint, leave these fields.
        refine ⟨addressed, set, immortal, last, ?_, ?_, ?_, ?_, ?_, ?_, ?_⟩
        all_goals
          by_cases outside : s.checkpoints = []
          · by_cases emptied : slab.count - 1 = 0 <;>
              simp [freeSlot, outside, emptied, dropSlab, setSlab] <;>
              (funext k; by_cases at_ : k = si.first <;> simp [at_])
          · by_cases emptied : slab.count - 1 = 0 <;>
              simp [freeSlot, outside, emptied, dropSlab, setSlab, protectSlot,
                invalidateCheckpointFastPath] <;>
              (funext k; by_cases at_ : k = si.first <;> simp [at_])
      · refine Or.inr (Or.inl ⟨slab, addressed, set, rfl, held, last, ?_⟩)
        rw [unfolded, if_neg fun zero => last (word_sub_one_eq_zero.mp zero), dropped]

variable {s t : Allocator T} {si other : SlabId} {slab : Slab T}

theorem Freed.refs_eq_zero (freed : Freed s si slab t) : t.refs si = 0 := by
  -- The slab is gone, or its table reads zero at the freed offset.
  cases found : t.slabOf si with
  | none => simp [refs, found]
  | some after =>
    have stored := (slabOf_eq_some.mp found).2
    rw [freed.slabs] at stored
    by_cases emptied : slab.count - 1 = 0
    · simp [emptied] at stored
    · simp only [emptied, if_true, if_false, Option.some.injEq] at stored
      rw [refs_of_slab found, ← stored]
      exact Slab.setInUse_same slab si.second 0

theorem Freed.held_other (freed : Freed s si slab t) (different : other ≠ si)
    (survives : other.first = si.first → slab.count - 1 ≠ 0) : t.held other = s.held other := by
  by_cases at_ : other.first = si.first
  · -- In the same slab, the offsets differ and the slab was kept.
    have kept := survives at_
    have offset := SlabId.second_ne different at_
    have stored : t.slabs other.first =
        some { slab.setInUse si.second 0 with count := slab.count - 1 } := by
      simp [freed.slabs, at_, kept]
    by_cases inside : other.InRange
    · have before : s.slabOf other = some slab :=
        slabOf_eq_some.mpr ⟨inside, at_ ▸ (slabOf_eq_some.mp freed.addressed).2⟩
      exact held_congr before (slabOf_eq_some.mpr ⟨inside, stored⟩)
        (Slab.setInUse_other slab 0 offset) rfl
    · rw [held_outside inside, held_outside inside]
  · exact held_of_slabs (by simp [freed.slabs, at_])

theorem held_setInUse_other (addressed : s.slabOf si = some slab) (different : other ≠ si)
    (value : UInt64) :
    (s.setSlab si.first (slab.setInUse si.second value)).held other = s.held other := by
  -- In the slot's own slab, the other offsets keep their counts and payloads.
  refine held_setSlab (slabOf_eq_some.mp addressed).2 fun at_ => ⟨?_, rfl⟩
  exact Slab.setInUse_other slab value (SlabId.second_ne different at_)

theorem refs_setInUse_other (value : UInt64) (addressed : s.slabOf si = some slab)
    (different : other ≠ si) :
    (s.setSlab si.first (slab.setInUse si.second value)).refs other = s.refs other :=
  refs_setSlab (slabOf_eq_some.mp addressed).2 fun at_ =>
    Slab.setInUse_other slab value (SlabId.second_ne different at_)

theorem Freed.immortal (freed : Freed s si slab t) (other : SlabId) :
    t.slotIsStaticImmortal other = s.slotIsStaticImmortal other := by
  simp only [slotIsStaticImmortal, freed.immortalSlabs, freed.immortalSlots]
  -- The surviving slab keeps its flag, and a deleted one did not have it.
  by_cases at_ : other.first = si.first
  · obtain ⟨_, stored⟩ := slabOf_eq_some.mp freed.addressed
    by_cases emptied : slab.count - 1 = 0
    · have mortal := freed.mortal
      simp only [slotIsStaticImmortal, Bool.or_eq_false_iff] at mortal
      have flag := mortal.1.1
      rw [stored] at flag
      simp only [freed.slabs, at_, if_true, emptied, stored, flag, Bool.and_false]
    · simp [freed.slabs, at_, emptied, stored]
  · simp [freed.slabs, at_]

end Allocator

end AgentC

import AgentC.Alloc.Scopes

/-! What each single call does to an allocator inside a checkpoint. -/

namespace AgentC

universe u

namespace Allocator

variable {T : Type u} {s t x y z : Allocator T}

variable {si : SlabId} {slab : Slab T}

theorem getPtr_of_held (same : t.held si = s.held si) : t.getPtr si = s.getPtr si := by
  have payload (r : Allocator T) : r.getPtr si = (r.held si).map Prod.snd := by
    simp [held, Function.comp_def]
  rw [payload, payload, same]

theorem getPtr_of_free (free : s.refs si = 0) : s.getPtr si = none := by
  simp [getPtr, valid, free]

theorem getPtr_setSlab {index : Nat} {before after : Slab T} (stored : s.slabs index = some before)
    (holds : s.refs si ≠ 0) (still : (s.setSlab index after).refs si ≠ 0)
    (same : after.items si.second = before.items si.second) :
    (s.setSlab index after).getPtr si = s.getPtr si := by
  obtain ⟨slab, addressed, _⟩ := slab_of_refs holds
  obtain ⟨inside, present⟩ := slabOf_eq_some.mp addressed
  have later : (s.setSlab index after).slabOf si =
      if si.InRange ∧ si.first = index then some after else s.slabOf si :=
    slabOf_setSlab index after
  -- Validity is the same, and so is the payload read.
  by_cases at_ : si.first = index
  · subst at_
    rw [stored] at present
    cases present
    rw [if_pos ⟨inside, rfl⟩] at later
    simp [getPtr, valid, holds, still, addressed, later, same]
  · rw [if_neg fun both => at_ both.2] at later
    simp [getPtr, valid, holds, still, later]

theorem Since.setInUse (cover : s.CountsCover) {value : UInt64}
    (addressed : s.slabOf si = some slab) (holds : slab.inUse si.second ≠ 0) (positive : value ≠ 0) :
    Since s (s.setSlab si.first (slab.setInUse si.second value)) true [] [] [] := by
  obtain ⟨inside, stored⟩ := slabOf_eq_some.mp addressed
  have own : (s.setSlab si.first (slab.setInUse si.second value)).refs si = value := by
    rw [refs_setSlab_same _ inside, Slab.setInUse_same]
  have others := fun other (different : other ≠ si) =>
    refs_setInUse_other value addressed different
  have before : s.refs si ≠ 0 := by rwa [refs_of_slab addressed]
  have still : ∀ other, s.refs other ≠ 0 →
      (s.setSlab si.first (slab.setInUse si.second value)).refs other ≠ 0 := by
    intro other heldOther
    by_cases here : other = si
    · rw [here, own]
      exact positive
    · rwa [others other here]
  have free : ∀ other, s.refs other = 0 →
      (s.setSlab si.first (slab.setInUse si.second value)).refs other = 0 := by
    intro other freeOther
    have apart : other ≠ si := fun here => before (here ▸ freeOther)
    rwa [others other apart]
  refine ⟨?_, fun other => ?_, (List.append_nil _).symm, rfl, Finset.Subset.refl _,
    fun other _ => free other, fun other heldOther => Or.inl ⟨still other heldOther, ?_⟩,
    fun other freeOther holdsOther => absurd (free other freeOther) holdsOther, fun _ member => member,
    fun _ member => absurd member List.not_mem_nil⟩
  · exact CountsTally.setInUse cover addressed (iff_of_true positive holds)
  · exact slotIsStaticImmortal_setSlab stored (slab.setInUse_staticImmortal si.second value) other
  · exact getPtr_setSlab stored heldOther (still other heldOther) rfl

theorem Since.tryRetain (cover : s.CountsCover) (keeps : s.valid si = true → s.KeepsOccupancy si 1) :
    Since s (s.tryRetain si).2 true [] [] [] := by
  rcases tryRetain_cases s si with same | ⟨slab, addressed, set, holds, mortal, result⟩
  · rw [same]
    exact Since.refl cover
  · rw [result]
    have valid := valid_iff.mpr ⟨set, by rwa [refs_of_slab addressed]⟩
    exact Since.setInUse cover addressed holds ((keeps valid slab addressed mortal).mpr holds)

theorem Since.release {clean : Bool} {added allocated released : List SlabId}
    (since : Since s t clean added allocated released) (more : List SlabId) :
    Since s t clean added allocated (released ++ more) :=
  { since with
    held := fun si holds => (since.held si holds).imp id fun gone =>
      ⟨gone.1, gone.2.1, gone.2.2.1, List.mem_append_left _ gone.2.2.2⟩ }

/-- Dropping a reference that is not the last one, by `modrefs`, happens without a trace. -/
theorem Since.dropReference (cover : s.CountsCover)
    (shared : s.valid si = true → s.slotIsStaticImmortal si = false → s.refs si ≠ 1) :
    Since s (if s.valid si then s.modrefs si (-1) else s) true [] [] [si] := by
  refine @Since.release T s _ true [] [] [] ?_ [si]
  split
  · rename_i valid
    rcases modrefs_cases s si (-1) with ⟨same, _⟩ | ⟨slab, addressed, mortal, result⟩
    · rw [same]
      exact Since.refl cover
    · rw [result, word_add_neg_one]
      have holds := (valid_iff.mp valid).2
      have several := shared valid mortal
      rw [refs_of_slab addressed] at holds several
      exact Since.setInUse cover addressed holds fun zero => several (word_sub_one_eq_zero.mp zero)
  · exact Since.refl cover

/-- Dropping a reference by `deallocate` either leaves another one, or frees and reserves the slot. -/
theorem Since.deallocate (cover : s.CountsCover) (inside : s.checkpoints ≠ []) (si : SlabId) :
    ∃ clean, Since s (s.deallocate si).2 clean [] [] [si] := by
  rcases deallocate_cases s si with ⟨same, _⟩ | ⟨slab, addressed, _, _, holds, several, result⟩ |
    ⟨slab, freed⟩
  · rw [same]
    exact ⟨true, (Since.refl cover).release [si]⟩
  · rw [result]
    refine ⟨true, @Since.release T s _ true [] [] [] ?_ [si]⟩
    exact Since.setInUse cover addressed holds fun zero => several (word_sub_one_eq_zero.mp zero)
  · have others := fun other (different : other ≠ si) => freed.refs_other cover different
    have reserved : (s.deallocate si).2.rollbackProtectedFreeSlots =
        insert si s.rollbackProtectedFreeSlots := by
      rw [freed.reserved, if_neg inside]
    refine ⟨false, CountsTally.deallocate Tally.cover cover si, freed.immortal, ?_, ?_, ?_, ?_, ?_, ?_,
      fun _ member => member, fun _ member => absurd member List.not_mem_nil⟩
    · rw [freed.allocationLog, List.append_nil]
    · rw [freed.checkpoints]
      rfl
    · rw [reserved]
      exact Finset.subset_insert si _
    · intro other _ free
      by_cases here : other = si
      · rw [here]
        exact freed.refs_eq_zero
      · rw [others other here, free]
    · intro other holds
      by_cases here : other = si
      · -- The freed slot is reserved, so nothing takes it while a checkpoint is outstanding.
        subst here
        exact Or.inr ⟨freed.refs_eq_zero, by rw [reserved]; exact Finset.mem_insert_self _ _, rfl,
          List.mem_singleton.mpr rfl⟩
      · refine Or.inl ⟨by rwa [others other here], ?_⟩
        by_cases null : other = ⟨0, 0⟩
        · subst null
          rfl
        · exact getPtr_of_held (deallocate_framed cover here (valid_iff.mpr ⟨null, holds⟩))
    · intro other free holds
      by_cases here : other = si
      · rw [here, freed.refs_eq_zero] at holds
        exact absurd rfl holds
      · rw [others other here, free] at holds
        exact absurd rfl holds

theorem Since.grown [Inhabited T] (cover : s.CountsCover) (grown : Grown s t) :
    Since s t true [] [] [] := by
  refine ⟨CountsTally.grown Tally.cover cover grown, grown.immortal, ?_, ?_, ?_, ?_, ?_, ?_,
    fun _ member => member, fun _ member => absurd member List.not_mem_nil⟩
  · rw [SameButSlabs.allocationLog grown.rest, List.append_nil]
  · exact SameButSlabs.checkpoints grown.rest
  · rw [SameButSlabs.reserved grown.rest]
  · intro si _ free
    rwa [grown.refs]
  · intro si holds
    exact Or.inl ⟨by rwa [grown.refs], getPtr_of_held (grown.held si)⟩
  · intro si free holds
    rw [grown.refs] at holds
    exact absurd free holds

theorem Found.marked_inside [Inhabited T] (found : Found s si slab t) (inside : s.checkpoints ≠ []) :
    ∃ after, t.markAllocated si = { t.setSlab si.first after with
        allocationLog := s.allocationLog ++ [si] } ∧
      after.count = slab.count + 1 ∧ after.items = slab.items ∧
      after.staticImmortal = slab.staticImmortal ∧ after.liveSlots ≤ slab.liveSlots + 1 ∧
      (∀ k, k ≠ si.second → after.inUse k = slab.inUse k) ∧
      (s.slotIsStaticImmortal si = true → after.inUse si.second = 0) := by
  have log : t.allocationLog = s.allocationLog := SameButSlabs.allocationLog found.grown.rest
  have still : t.checkpoints ≠ [] := by rwa [SameButSlabs.checkpoints found.grown.rest]
  have same := found.grown.immortal si
  have below := (slabOf_eq_some.mp found.addressed).1.2
  -- An immortal slot is counted without being referenced.
  cases immortal : s.slotIsStaticImmortal si with
  | true =>
    refine ⟨{ slab with count := slab.count + 1 }, ?_, rfl, rfl, rfl, ?_, fun _ _ => rfl,
      fun _ => found.free⟩
    · rw [markAllocated_immortal found.addressed (same.trans immortal), if_neg still, log]
    · exact Nat.le_succ _
  | false =>
    refine ⟨slab.take si.second, ?_, rfl, rfl, rfl, ?_, fun k other => slab.take_other other,
      fun wrong => by simp at wrong⟩
    · rw [markAllocated_mortal found.addressed found.free (same.trans immortal), if_neg still, log]
    · exact Nat.le_of_eq (Slab.take_liveSlots below found.free)

theorem Since.found [Inhabited T] (cover : s.CountsCover) (inside : s.checkpoints ≠ [])
    (room : s.NextCounted) (found : Found s si slab t) :
    Since s (t.markAllocated si) true [si] [si] [] := by
  obtain ⟨after, marked, count, items, flag, live, others, immortal⟩ := found.marked_inside inside
  obtain ⟨range, stored⟩ := slabOf_eq_some.mp found.addressed
  obtain ⟨_, available, past⟩ := found.next.1
  rw [if_neg inside] at past
  simp only [Allocator.available, Bool.and_eq_true, beq_iff_eq, decide_eq_true_eq] at available
  -- Every other slot reads as in the grown state, and so as in the first one.
  have refsOther : ∀ other, other ≠ si → (t.markAllocated si).refs other = s.refs other := by
    intro other different
    rw [marked, ← found.grown.refs other]
    exact refs_setSlab stored fun at_ => others _ (SlabId.second_ne different at_)
  have heldOther : ∀ other, other ≠ si → (t.markAllocated si).held other = s.held other := by
    intro other different
    rw [marked, ← found.grown.held other]
    have kept : (t.setSlab si.first after).held other = t.held other := held_setSlab stored
      fun at_ => ⟨others _ (SlabId.second_ne different at_), by rw [items]⟩
    exact Eq.trans (held_of_slabs rfl) kept
  refine ⟨?_, ?_, ?_, ?_, ?_, ?_, ?_, ?_, fun _ member => member, ?_⟩
  · have before : slab.liveSlots ≤ slab.count.toNat :=
      CountsTally.grown Tally.cover cover found.grown si.first slab stored
    have counted : after.count.toNat = slab.count.toNat + 1 := by
      rw [count]
      exact word_add_one_toNat (found.counted room)
    have covered : (t.setSlab si.first after).CountsCover :=
      EverySlab.setSlab (CountsTally.grown Tally.cover cover found.grown) (by omega)
    rw [marked]
    exact covered.of_slabs rfl
  · intro other
    rw [marked]
    exact (slotIsStaticImmortal_setSlab stored flag other).trans (found.grown.immortal other)
  · rw [marked]
  · rw [marked]
    show t.checkpoints = s.checkpoints
    exact SameButSlabs.checkpoints found.grown.rest
  · rw [marked]
    show s.rollbackProtectedFreeSlots ⊆ t.rollbackProtectedFreeSlots
    rw [SameButSlabs.reserved found.grown.rest]
  · intro other reserved free
    have different : other ≠ si := fun here => available.2 (here ▸ reserved)
    rwa [refsOther other different]
  · intro other holds
    have different : other ≠ si := fun here => holds (here ▸ available.1)
    exact Or.inl ⟨by rwa [refsOther other different], getPtr_of_held (heldOther other different)⟩
  · intro other free holds
    by_cases here : other = si
    · subst here
      refine ⟨List.mem_singleton.mpr rfl, ?_, fun _ => past⟩
      -- An immortal slot would have been left without a reference.
      by_contra notMortal
      have zero := immortal (by simpa using notMortal)
      rw [marked] at holds
      exact holds ((refs_setSlab_same after range).trans zero)
    · rw [refsOther other here, free] at holds
      exact absurd rfl holds
  · intro other member
    rw [List.mem_singleton.mp member]
    exact ⟨past.1, available.1, available.2⟩

/-- What a `run` of an allocation does, whether it succeeds or not. -/
theorem Since.allocRaw [Inhabited T] (cover : s.CountsCover) (inside : s.checkpoints ≠ [])
    (room : s.NextCounted) (create : Nat → Bool) :
    (∃ e r, s.allocRaw create = (.error e, r) ∧ Since s r true [] [] []) ∨
      ∃ si r, s.allocRaw create = (.ok si, r) ∧ Since s r true [si] [si] [] := by
  rcases allocRaw_cases (fun outside => absurd outside inside) cover create with
    ⟨e, r, result, grown⟩ | ⟨si, slab, mid, result, found⟩
  · exact Or.inl ⟨e, r, result, Since.grown cover grown⟩
  · exact Or.inr ⟨si, _, result, Since.found cover inside room found⟩

theorem Since.placeItem {clean : Bool} {added allocated released : List SlabId}
    (since : Since s t clean added allocated released) (free : s.refs si = 0) (item : T) :
    Since s (t.placeItem si item) clean added allocated released := by
  unfold Allocator.placeItem
  cases stored : t.slabs si.first with
  | none => exact since
  | some slab =>
    have refs (other : SlabId) :
        (t.setSlab si.first (slab.setItem si.second item)).refs other = t.refs other :=
      refs_setSlab stored fun _ => rfl
    have cover : (t.setSlab si.first (slab.setItem si.second item)).CountsCover := by
      refine EverySlab.setSlab since.cover ?_
      have before := since.cover _ _ stored
      exact before
    refine ⟨cover, fun other => ?_, since.log, since.frames, since.reserved, ?_, ?_, ?_,
      since.logged, since.allocatedFree⟩
    · have flag : (slab.setItem si.second item).staticImmortal = slab.staticImmortal := rfl
      exact (slotIsStaticImmortal_setSlab stored flag other).trans (since.immortal other)
    · intro other reserved unheld
      exact (refs other).trans (since.reservedFree other reserved unheld)
    · intro other holds
      rcases since.held other holds with ⟨still, same⟩ | gone
      · refine Or.inl ⟨by rwa [refs other], Eq.trans ?_ same⟩
        have different : other ≠ si := fun here => holds (here ▸ free)
        refine getPtr_of_held (held_setSlab stored fun at_ => ⟨rfl, ?_⟩)
        simp [Slab.setItem, SlabId.second_ne different at_]
      · exact Or.inr ⟨(refs other).trans gone.1, gone.2⟩
    · intro other unheld holds
      exact since.fresh other unheld (by rwa [refs other] at holds)

end Allocator

end AgentC

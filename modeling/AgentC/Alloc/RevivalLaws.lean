import AgentC.Alloc.RollbackExact
import AgentC.Alloc.Tokens

/-! An arena that is restored and allocated in, and that walking the log back takes the new slots away again. -/

namespace AgentC

universe u

namespace Allocator

variable {T : Type u}

def exportArenaMetadata (s : Allocator T) : ArenaCheckpointMetadata where
  version := 1
  slabSize := AgentC.slabSize
  checkpointLogStarts := s.logStarts.reverse

/-- Restoring metadata and images in a fresh allocator; nothing unless both calls return true. -/
def revive [Inhabited T] (traits : ArenaTraits T) (create : Nat → Bool)
    (metadata : ArenaCheckpointMetadata) (images : List ArenaSlabImage) : Option (Allocator T) :=
  match (initial : Allocator T).restoreArenaMetadata metadata with
  | (false, _) => none
  | (true, s) =>
    match s.restoreSlabImages traits create images with
    | (.ok true, s) => some s
    | _ => none

abbrev Request (T : Type u) := (Nat → Bool) × T

/-- Allocations one after the other, with the slots that they were given. -/
def allocateAll [Inhabited T] (s : Allocator T) : List (Request T) → List SlabId × Allocator T
  | [] => ([], s)
  | (create, item) :: rest =>
    match s.allocate create item with
    | (.ok si, s) => (si :: (allocateAll s rest).1, (allocateAll s rest).2)
    | (.error _, s) => allocateAll s rest

/-- Rolling back the innermost checkpoint after allocations, in the allocator that they leave. -/
def rollbackCurrent [Inhabited T] (traits : ArenaTraits T) (s : Allocator T)
    (requests : List (Request T)) : Bool × Allocator T :=
  (s.allocateAll requests).2.rollback traits (s.allocateAll requests).2.currentCheckpoint

/-- Rolling back takes away what was allocated, and keeps what was there. -/
structure RollsBack [Inhabited T] (traits : ArenaTraits T) (s : Allocator T)
    (requests : List (Request T)) : Prop where
  succeeds : (s.rollbackCurrent traits requests).1 = true
  undone : ∀ si ∈ (s.allocateAll requests).1, (s.rollbackCurrent traits requests).2.valid si = false
  kept : ∀ si, s.valid si = true → (s.rollbackCurrent traits requests).2.valid si = true ∧
    (s.rollbackCurrent traits requests).2.getPtr si = s.getPtr si

def countAt (s : Allocator T) (index : Nat) : Nat :=
  match s.slabs index with
  | some slab => slab.count.toNat
  | none => 0

def HasRoom (s : Allocator T) : Prop :=
  s.currentHighWatermark ≠ ⟨numSlabs - 1, slabSize - 1⟩

def LastCounted (s : Allocator T) : Prop :=
  s.currentHighWatermark ≠ ⟨0, 0⟩ → s.currentHighWatermark.second + 1 < slabSize →
    s.countAt s.currentHighWatermark.first ≠ 0

end Allocator

end AgentC

namespace AgentC

universe u

namespace Allocator

variable {T : Type u} {r s t : Allocator T} {added : List SlabId}

def lyingIn (slots : List SlabId) (index : Nat) : Nat :=
  slots.countP fun si => si.first = index

/--
One allocator has what another one has, and slots that were added past its watermark.

Slabs are counted as they were, with one more for every slot that was added.
-/
structure Added (r t : Allocator T) (added : List SlabId) : Prop where
  mortal : ∀ si, t.slotIsStaticImmortal si = false
  taken : ∀ si ∈ added, t.valid si = true ∧ r.valid si = false ∧ Past r.currentHighWatermark si
  others : ∀ si, si ∉ added → t.held si = r.held si
  distinct : added.Nodup
  counts : ∀ index, t.countAt index = r.countAt index + lyingIn added index

section Counting

theorem lyingIn_concat (slots : List SlabId) (si : SlabId) (index : Nat) :
    lyingIn (slots ++ [si]) index = lyingIn slots index + if si.first = index then 1 else 0 := by
  unfold lyingIn
  rw [List.countP_append, List.countP_singleton]
  simp only [decide_eq_true_eq]

theorem lyingIn_le {slots : List SlabId} (distinct : slots.Nodup) (inside : ∀ si ∈ slots, si.InRange)
    (index : Nat) : lyingIn slots index ≤ slabSize := by
  have own := distinct.filter fun si => decide (si.first = index)
  have offsets : ((slots.filter fun si => decide (si.first = index)).map SlabId.second).Nodup := by
    refine own.map_on ?_
    intro one isOne other isOther same
    have first := of_decide_eq_true (List.mem_filter.mp isOne).2
    have first' := of_decide_eq_true (List.mem_filter.mp isOther).2
    cases one
    cases other
    simp_all
  have below : ((slots.filter fun si => decide (si.first = index)).map SlabId.second) ⊆
      List.range slabSize := by
    intro offset member
    obtain ⟨si, isOwn, rfl⟩ := List.mem_map.mp member
    exact List.mem_range.mpr (inside si (List.mem_filter.mp isOwn).1).2
  have short := (offsets.subperm below).length_le
  rw [List.length_map, List.length_range, ← List.countP_eq_length_filter] at short
  exact short

theorem lyingIn_pos {slots : List SlabId} {si : SlabId} (member : si ∈ slots) :
    0 < lyingIn slots si.first :=
  List.countP_pos_iff.mpr ⟨si, member, decide_eq_true rfl⟩

theorem countAt_of_slabs {index : Nat} (same : t.slabs index = s.slabs index) :
    t.countAt index = s.countAt index := by
  unfold countAt
  rw [same]

theorem countAt_of_stored {index : Nat} {slab : Slab T} (stored : s.slabs index = some slab) :
    s.countAt index = slab.count.toNat := by
  unfold countAt
  rw [stored]

end Counting

section Growing

theorem inRange_of_valid {si : SlabId} (valid : s.valid si = true) : si.InRange := by
  obtain ⟨_, addressed, _⟩ := slab_of_refs (valid_iff.mp valid).2
  exact (slabOf_eq_some.mp addressed).1

theorem Added.refl (mortal : ∀ si, r.slotIsStaticImmortal si = false) : Added r r [] :=
  ⟨mortal, nofun, fun _ _ => rfl, List.nodup_nil, fun _ => rfl⟩

theorem Added.congr (holds : Added r s added) (slabs : t.slabs = s.slabs)
    (immortalSlabs : t.staticImmortalSlabs = s.staticImmortalSlabs)
    (immortalSlots : t.staticImmortalSlots = s.staticImmortalSlots) : Added r t added where
  mortal si := by
    have mortal := holds.mortal si
    unfold slotIsStaticImmortal at mortal ⊢
    rw [slabs, immortalSlabs, immortalSlots, mortal]
  taken si member := by
    obtain ⟨valid, rest⟩ := holds.taken si member
    refine ⟨?_, rest⟩
    rw [← held_isSome] at valid ⊢
    rwa [held_of_slabs (congrFun slabs si.first)]
  others si apart := (held_of_slabs (congrFun slabs si.first)).trans (holds.others si apart)
  distinct := holds.distinct
  counts index := (countAt_of_slabs (congrFun slabs index)).trans (holds.counts index)

theorem Added.grow [Inhabited T] (holds : Added r s added) (grown : Grown s t) : Added r t added where
  mortal si := (grown.immortal si).trans (holds.mortal si)
  taken si member := by
    obtain ⟨valid, rest⟩ := holds.taken si member
    refine ⟨?_, rest⟩
    rw [← held_isSome] at valid ⊢
    rwa [grown.held]
  others si apart := (grown.held si).trans (holds.others si apart)
  distinct := holds.distinct
  counts index := by
    rw [← holds.counts index]
    unfold countAt
    rcases grown.slabs index with same | ⟨absent, mapped, created⟩
    · rw [same]
    · rw [absent, created]
      rfl

theorem Added.past (holds : Added r s added) {si : SlabId} (past : Past s.currentHighWatermark si) :
    Past r.currentHighWatermark si := by
  refine ⟨past.1, ?_⟩
  intro set
  have valid : r.valid r.currentHighWatermark = true :=
    valid_iff.mpr ⟨set, (currentHighWatermark_held r).resolve_left set⟩
  have apart : r.currentHighWatermark ∉ added := by
    intro member
    rw [(holds.taken _ member).2.1] at valid
    cases valid
  have still : s.valid r.currentHighWatermark = true := by
    rw [← held_isSome, holds.others _ apart, held_isSome, valid]
  -- The first watermark is still held, so no later one lies before it.
  have bound := currentHighWatermark_last (valid_iff.mp still).2
  have moved : s.currentHighWatermark ≠ ⟨0, 0⟩ := by
    intro null
    rw [null] at bound
    rcases SlabId.before_or_before set with before | before
    · simp only [SlabId.Before] at before
      omega
    · exact bound before
  by_cases same : r.currentHighWatermark = s.currentHighWatermark
  · rw [same]
    exact past.2 moved
  · have before := (SlabId.before_or_before same).resolve_right bound
    exact before.trans (past.2 moved)

structure Logged (r t : Allocator T) (added : List SlabId) : Prop where
  additions : Added r t added
  checkpoints : t.checkpoints = r.checkpoints
  log : t.allocationLog = r.allocationLog ++ added

theorem Logged.grow [Inhabited T] (holds : Logged r s added) (grown : Grown s t) : Logged r t added where
  additions := holds.additions.grow grown
  checkpoints := by rw [grown.rest, holds.checkpoints]
  log := by rw [grown.rest, holds.log]

theorem Logged.mark [Inhabited T] (holds : Logged r s added) (inside : r.checkpoints ≠ [])
    (small : ∀ index, r.countAt index < 2 ^ 33) {si : SlabId} {slab : Slab T} {mid : Allocator T}
    (found : Found s si slab mid) : Logged r (mid.markAllocated si) (added ++ [si]) := by
  have inside' : s.checkpoints ≠ [] := holds.checkpoints ▸ inside
  have marked := found.marked (fun si _ => holds.additions.mortal si)
  rw [if_neg inside'] at marked
  obtain ⟨range, stored⟩ := slabOf_eq_some.mp found.addressed
  have before := holds.additions.grow found.grown
  have past := found.next.1.2.2
  rw [if_neg inside'] at past
  have free : mid.held si = none := by
    have invalid : mid.valid si = false := by
      rw [← Bool.not_eq_true, valid_iff, refs_of_slab found.addressed]
      exact fun both => both.2 found.free
    rw [← Option.not_isSome_iff_eq_none, held_isSome, invalid]
    exact Bool.false_ne_true
  have new : si ∉ added := by
    intro member
    have valid := (before.taken si member).1
    rw [← held_isSome, free] at valid
    cases valid
  have others : ∀ other, other ≠ si → (mid.markAllocated si).held other = mid.held other := by
    intro other different
    have framed : (mid.setSlab si.first (slab.take si.second)).held other = mid.held other :=
      held_setSlab stored fun at_ => ⟨slab.take_other (SlabId.second_ne different at_), rfl⟩
    rw [marked]
    exact Eq.trans (held_of_slabs rfl) framed
  have own : (mid.markAllocated si).refs si = 1 := by
    rw [marked]
    exact (refs_setSlab_same _ range).trans (slab.take_same si.second)
  -- The slab's count is far from where it would wrap.
  have count : slab.count.toNat + 1 < 2 ^ 64 := by
    have total := before.counts si.first
    have few := lyingIn_le before.distinct
      (fun other member => inRange_of_valid (before.taken other member).1) si.first
    have bound := small si.first
    rw [countAt_of_stored stored] at total
    simp only [slabSize] at few
    omega
  refine ⟨⟨?_, ?_, ?_, ?_, ?_⟩, ?_, ?_⟩
  · intro other
    have flag : (slab.take si.second).staticImmortal = slab.staticImmortal := rfl
    rw [marked]
    exact (slotIsStaticImmortal_setSlab stored flag other).trans (before.mortal other)
  · intro other member
    rcases List.mem_append.mp member with old | last
    · obtain ⟨valid, rest⟩ := before.taken other old
      refine ⟨?_, rest⟩
      rw [← held_isSome] at valid ⊢
      rwa [others other fun same => new (same ▸ old)]
    · obtain rfl := List.mem_singleton.mp last
      refine ⟨valid_iff.mpr ⟨past.1, by rw [own]; decide⟩, ?_, holds.additions.past past⟩
      rw [← held_isSome, ← before.others other new, free]
      rfl
  · intro other apart
    obtain ⟨old, last⟩ := not_or.mp (List.mem_append.not.mp apart)
    rw [others other fun same => last (List.mem_singleton.mpr same)]
    exact before.others other old
  · exact List.nodup_append.mpr ⟨before.distinct, List.nodup_singleton si, by
      intro one isOld other isLast same
      exact new (List.mem_singleton.mp isLast ▸ same ▸ isOld)⟩
  · intro index
    rw [lyingIn_concat, ← Nat.add_assoc, ← before.counts index, marked]
    by_cases at_ : si.first = index
    · subst at_
      have taken : (mid.setSlab si.first (slab.take si.second)).slabs si.first =
          some (slab.take si.second) := setSlab_same ..
      rw [if_pos rfl, countAt_of_stored stored]
      refine (countAt_of_stored taken).trans ?_
      rw [Slab.take_count, word_add_one_toNat count]
    · rw [if_neg at_, Nat.add_zero]
      exact countAt_of_slabs (setSlab_other _ _ _ (Ne.symm at_))
  · rw [marked]
    show mid.checkpoints = _
    rw [found.grown.rest, holds.checkpoints]
  · rw [marked]
    show s.allocationLog ++ [si] = _
    rw [holds.log, List.append_assoc]

theorem Logged.place (holds : Logged r s added) {si : SlabId} (member : si ∈ added) (item : T) :
    Logged r (s.placeItem si item) added := by
  have valid := (holds.additions.taken si member).1
  obtain ⟨slab, addressed, _⟩ := slab_of_refs (valid_iff.mp valid).2
  obtain ⟨range, stored⟩ := slabOf_eq_some.mp addressed
  have placed : s.placeItem si item = s.setSlab si.first (slab.setItem si.second item) := by
    unfold placeItem
    rw [stored]
  have refs := placeItem_refs s si
  rw [placed]
  refine ⟨⟨?_, ?_, ?_, holds.additions.distinct, ?_⟩, holds.checkpoints, holds.log⟩
  · intro other
    have flag : (slab.setItem si.second item).staticImmortal = slab.staticImmortal := rfl
    exact (slotIsStaticImmortal_setSlab stored flag other).trans (holds.additions.mortal other)
  · intro other isAdded
    obtain ⟨valid, rest⟩ := holds.additions.taken other isAdded
    obtain ⟨set, held⟩ := valid_iff.mp valid
    refine ⟨valid_iff.mpr ⟨set, ?_⟩, rest⟩
    rw [← placed, refs other item]
    exact held
  · intro other apart
    rw [← holds.additions.others other apart]
    have different : other ≠ si := fun same => apart (same ▸ member)
    refine held_setSlab stored fun at_ => ⟨rfl, ?_⟩
    exact if_neg (SlabId.second_ne different at_)
  · intro index
    rw [← holds.additions.counts index]
    by_cases at_ : index = si.first
    · subst at_
      have written : (s.setSlab si.first (slab.setItem si.second item)).slabs si.first =
          some (slab.setItem si.second item) := setSlab_same ..
      rw [countAt_of_stored stored, countAt_of_stored written]
      rfl
    · exact countAt_of_slabs (setSlab_other _ _ _ at_)

theorem Logged.allocate [Inhabited T] (holds : Logged r s added) (inside : r.checkpoints ≠ [])
    (small : ∀ index, r.countAt index < 2 ^ 33) (create : Nat → Bool) (item : T) :
    (∃ e t, s.allocate create item = (.error e, t) ∧ Logged r t added) ∨
      ∃ si t, s.allocate create item = (.ok si, t) ∧ s.NextSlot si ∧ Logged r t (added ++ [si]) := by
  have inside' : s.checkpoints ≠ [] := holds.checkpoints ▸ inside
  rcases allocRaw_cases_inside inside' create with ⟨e, t, result, grown⟩ | ⟨si, slab, mid, result, found⟩
  · refine Or.inl ⟨e, t, ?_, holds.grow grown⟩
    unfold Allocator.allocate
    rw [result]
  · have marked := holds.mark inside small found
    refine Or.inr ⟨si, (mid.markAllocated si).placeItem si item, ?_, found.next,
      marked.place (List.mem_append_right _ (List.mem_singleton.mpr rfl)) item⟩
    unfold Allocator.allocate
    rw [result]

theorem Logged.allocateAll [Inhabited T] (holds : Logged r s added) (inside : r.checkpoints ≠ [])
    (small : ∀ index, r.countAt index < 2 ^ 33) (requests : List (Request T)) :
    Logged r (s.allocateAll requests).2 (added ++ (s.allocateAll requests).1) := by
  -- The induction is on the requests that are left.
  induction requests generalizing s added with
  | nil =>
    rw [Allocator.allocateAll, List.append_nil]
    exact holds
  | cons request rest ih =>
    obtain ⟨create, item⟩ := request
    rw [Allocator.allocateAll]
    rcases holds.allocate inside small create item with ⟨e, t, result, after⟩ | ⟨si, t, result, _, after⟩
    · rw [result]
      exact ih after
    · have later := ih after
      rw [List.append_assoc, List.singleton_append] at later
      rw [result]
      exact later

end Growing

section Undoing

theorem currentHighWatermark_of_past {si other : SlabId} (past : Past r.currentHighWatermark si)
    (inside : si.InRange) (valid : r.valid other = true) (same : other.first = si.first) :
    r.currentHighWatermark ≠ ⟨0, 0⟩ ∧ r.currentHighWatermark.first = si.first ∧
      r.currentHighWatermark.second + 1 < slabSize := by
  obtain ⟨set, held⟩ := valid_iff.mp valid
  have bound := currentHighWatermark_last held
  have moved : r.currentHighWatermark ≠ ⟨0, 0⟩ := by
    intro null
    rw [null] at bound
    rcases SlabId.before_or_before set with before | before
    · simp only [SlabId.Before] at before
      omega
    · exact bound before
  have before := past.2 moved
  have range := inside.2
  simp only [SlabId.Before] at bound before
  refine ⟨moved, ?_, ?_⟩ <;> omega

theorem rollbackAllocation_freed {si : SlabId} (valid : s.valid si = true)
    (mortal : s.slotIsStaticImmortal si = false) :
    ∃ slab, s.slabOf si = some slab ∧
      Freed (s.setSlab si.first (slab.setInUse si.second 1)) si (slab.setInUse si.second 1)
        (s.rollbackAllocation si) := by
  obtain ⟨set, holds⟩ := valid_iff.mp valid
  obtain ⟨slab, addressed, _⟩ := slab_of_refs holds
  obtain ⟨inside, stored⟩ := slabOf_eq_some.mp addressed
  have flag : (slab.setInUse si.second 1).staticImmortal = slab.staticImmortal := rfl
  have still := (slotIsStaticImmortal_setSlab stored flag si).trans mortal
  have one : (s.setSlab si.first (slab.setInUse si.second 1)).refs si = 1 := by
    rw [refs_setSlab_same _ inside, Slab.setInUse_same]
  have own : (s.setSlab si.first (slab.setInUse si.second 1)).slabOf si =
      some (slab.setInUse si.second 1) := slabOf_eq_some.mpr ⟨inside, setSlab_same ..⟩
  refine ⟨slab, addressed, ?_⟩
  unfold rollbackAllocation setRefs
  rw [if_neg holds, addressed]
  dsimp only
  rcases deallocate_cases (s.setSlab si.first (slab.setInUse si.second 1)) si with
    ⟨_, immortal | invalid⟩ | ⟨after, addressed', _, _, _, several, _⟩ | ⟨after, freed⟩
  · rw [still] at immortal
    cases immortal
  · have valid' : (s.setSlab si.first (slab.setInUse si.second 1)).valid si = true :=
      valid_iff.mpr ⟨set, by rw [one]; decide⟩
    rw [valid'] at invalid
    cases invalid
  · rw [refs_of_slab addressed'] at one
    exact absurd one several
  · have same := Option.some.inj (own.symm.trans freed.addressed)
    rw [same]
    exact same ▸ freed

theorem Added.undo {si : SlabId} (holds : Added r s (added ++ [si])) (counted : r.LastCounted) :
    Added r (s.rollbackAllocation si) added := by
  obtain ⟨valid, wasFree, past⟩ :=
    holds.taken si (List.mem_append_right _ (List.mem_singleton.mpr rfl))
  have inside := inRange_of_valid valid
  obtain ⟨slab, addressed, freed⟩ := rollbackAllocation_freed valid (holds.mortal si)
  have stored := (slabOf_eq_some.mp addressed).2
  obtain ⟨distinct, _, apart⟩ := List.nodup_append.mp holds.distinct
  have new : ∀ other ∈ added, other ≠ si :=
    fun other member same => apart other member si (List.mem_singleton.mpr rfl) same
  -- The slab counts the slot, those added before it, and what it counted at first.
  have total : slab.count.toNat = r.countAt si.first + lyingIn added si.first + 1 := by
    have count := holds.counts si.first
    rw [countAt_of_stored stored, lyingIn_concat, if_pos rfl, ← Nat.add_assoc] at count
    exact count
  have emptied_iff : (slab.setInUse si.second 1).count - 1 = 0 ↔
      r.countAt si.first + lyingIn added si.first = 0 := by
    rw [Slab.setInUse_count, word_sub_one_eq_zero, ← UInt64.toNat_inj]
    show slab.count.toNat = 1 ↔ _
    omega
  have framed : ∀ other, other ≠ si → (other.first = si.first →
      r.countAt si.first + lyingIn added si.first ≠ 0) → (s.rollbackAllocation si).held other = s.held other := by
    intro other different survives
    have same := freed.held_other different fun at_ => emptied_iff.not.mpr (survives at_)
    exact same.trans (held_setInUse_other addressed different 1)
  have flag : (slab.setInUse si.second 1).staticImmortal = slab.staticImmortal := rfl
  refine ⟨?_, ?_, ?_, distinct, ?_⟩
  · intro other
    exact ((freed.immortal other).trans (slotIsStaticImmortal_setSlab stored flag other)).trans
      (holds.mortal other)
  · intro other member
    obtain ⟨valid', rest⟩ := holds.taken other (List.mem_append_left _ member)
    refine ⟨?_, rest⟩
    have survives : other.first = si.first → r.countAt si.first + lyingIn added si.first ≠ 0 := by
      intro at_
      have positive := lyingIn_pos member
      rw [at_] at positive
      omega
    rw [← held_isSome] at valid' ⊢
    rwa [framed other (new other member) survives]
  · intro other isOld
    by_cases same : other = si
    · subst same
      have gone : (s.rollbackAllocation other).valid other = false := by
        rw [← Bool.not_eq_true, valid_iff]
        exact fun both => both.2 freed.refs_eq_zero
      rw [← held_isSome, Option.isSome_eq_false_iff, Option.isNone_iff_eq_none] at gone wasFree
      rw [gone, wasFree]
    · have before := holds.others other (by
        rw [List.mem_append, List.mem_singleton]
        exact not_or.mpr ⟨isOld, same⟩)
      by_cases survives : other.first = si.first → r.countAt si.first + lyingIn added si.first ≠ 0
      · exact (framed other same survives).trans before
      · -- The slab is deleted, which counted nothing at first; then nothing of it was held.
        obtain ⟨at_, zero⟩ := Classical.not_imp.mp survives
        have zero := not_not.mp zero
        have unheld : r.valid other = false := by
          rw [← Bool.not_eq_true]
          intro valid'
          obtain ⟨moved, first, room⟩ := currentHighWatermark_of_past past inside valid' at_
          have base := counted moved room
          rw [first] at base
          omega
        have absent : (s.rollbackAllocation si).slabs other.first = none := by
          rw [freed.slabs]
          simp only [at_, if_true, emptied_iff.mpr zero]
        have gone : (s.rollbackAllocation si).valid other = false := by
          rw [← Bool.not_eq_true, valid_iff]
          exact fun both => both.2 (refs_of_absent absent)
        rw [← held_isSome, Option.isSome_eq_false_iff, Option.isNone_iff_eq_none] at gone unheld
        rw [gone, unheld]
  · intro index
    by_cases at_ : index = si.first
    · subst at_
      unfold countAt at total ⊢
      rw [freed.slabs]
      dsimp only
      rw [if_pos rfl]
      by_cases emptied : (slab.setInUse si.second 1).count - 1 = 0
      · rw [if_pos emptied]
        exact (emptied_iff.mp emptied).symm
      · have positive : slab.count ≠ 0 := by
          intro zero
          rw [zero] at total
          have none : (0 : UInt64).toNat = 0 := rfl
          omega
        rw [if_neg emptied]
        show (slab.count - 1).toNat = _
        rw [word_sub_one_toNat positive]
        omega
    · have count := holds.counts index
      rw [lyingIn_concat, if_neg (Ne.symm at_), Nat.add_zero] at count
      rw [← count]
      refine countAt_of_slabs ?_
      rw [freed.slabs]
      dsimp only
      rw [if_neg at_]
      exact setSlab_other _ _ _ at_

theorem Added.undoAll (holds : Added r s added) (counted : r.LastCounted) :
    Added r (added.reverse.foldl rollbackAllocation s) [] := by
  -- The induction takes slots off the end of the list, as the walk does.
  induction added using List.reverseRecOn generalizing s with
  | nil => exact holds
  | append_singleton rest si ih =>
    rw [List.reverse_append, List.reverse_singleton, List.singleton_append, List.foldl_cons]
    exact ih (holds.undo counted)

end Undoing

section Rolling

/-- What restoring leaves: checkpoints that use the log, an empty log, and nothing that is kept back. -/
structure Revived (r : Allocator T) : Prop where
  frames : ∀ frame ∈ r.checkpoints, frame.appendOnly = false
  log : r.allocationLog = []
  reserved : r.rollbackProtectedFreeSlots = ∅
  mortal : ∀ si, r.slotIsStaticImmortal si = false
  small : ∀ index, r.countAt index < 2 ^ 33

theorem Revived.rollback_walks [Inhabited T] (revived : Revived r) (traits : ArenaTraits T)
    {top : CheckpointFrame} {rest : List CheckpointFrame} (frames : r.checkpoints = top :: rest)
    (requests : List (Request T)) :
    (r.rollbackCurrent traits requests).1 = true ∧
      ∃ entered, Added r entered (r.allocateAll requests).1 ∧
        (r.rollbackCurrent traits requests).2.slabs =
          (((r.allocateAll requests).1.drop top.logStart).reverse.foldl rollbackAllocation entered).slabs := by
  have inside : r.checkpoints ≠ [] := by
    rw [frames]
    exact List.cons_ne_nil _ _
  have start : Logged r r [] := ⟨Added.refl revived.mortal, rfl, (List.append_nil _).symm⟩
  have logged := start.allocateAll inside revived.small requests
  rw [List.nil_append] at logged
  have uses : top.appendOnly = false := revived.frames top (frames ▸ List.mem_cons_self)
  have log := logged.log
  rw [revived.log, List.nil_append] at log
  have frames' := logged.checkpoints.trans frames
  have token : (r.allocateAll requests).2.currentCheckpoint =
      ⟨top.logStart, rest.length + 1, true, top.watermark, false⟩ := by
    unfold currentCheckpoint
    rw [frames']
    dsimp only
    rw [uses, List.length_cons]
  have accepted : (r.allocateAll requests).2.accepts
      ⟨top.logStart, rest.length + 1, true, top.watermark, false⟩ = true := by
    unfold accepts
    rw [frames']
    simp only [List.length_cons, beq_self_eq_true, Bool.and_self]
  let entered : Allocator T := { (r.allocateAll requests).2 with
    lastRollbackUsedFastPath := false
    lastRollbackUsedStrictFastPath := false }
  have walks : ∀ logged, logged = (r.allocateAll requests).1 →
      ((logged.drop top.logStart).reverse.foldl rollbackAllocation entered).slabs =
        (((r.allocateAll requests).1.drop top.logStart).reverse.foldl rollbackAllocation entered).slabs := by
    rintro _ rfl
    rfl
  unfold rollbackCurrent rollback
  rw [token, frames']
  dsimp only
  rw [if_pos accepted]
  refine ⟨rfl, entered, logged.additions.congr rfl rfl rfl, ?_⟩
  dsimp only
  rw [popCheckpoint_slabs]
  unfold discardSince
  rw [uses]
  dsimp only [Bool.false_and]
  rw [if_neg Bool.false_ne_true]
  exact walks _ log

theorem hasRoom_of_past {si : SlabId} (past : Past r.currentHighWatermark si) (inside : si.InRange) :
    r.HasRoom := by
  intro full
  have last : r.currentHighWatermark ≠ ⟨0, 0⟩ := by
    rw [full]
    simp [numSlabs, slabSize]
  have before := past.2 last
  rw [full] at before
  simp only [SlabId.Before, SlabId.InRange, numSlabs, slabSize] at before inside
  omega

theorem Revived.rollsBack [Inhabited T] (revived : Revived r) (traits : ArenaTraits T)
    {top : CheckpointFrame} {rest : List CheckpointFrame} (frames : r.checkpoints = top :: rest)
    (anew : r.HasRoom → top.logStart = 0) (counted : r.LastCounted) (requests : List (Request T)) :
    r.RollsBack traits requests := by
  obtain ⟨succeeds, entered, additions, slabs⟩ := revived.rollback_walks traits frames requests
  have all : (r.allocateAll requests).1.drop top.logStart = (r.allocateAll requests).1 := by
    cases given : (r.allocateAll requests).1 with
    | nil => exact List.drop_nil
    | cons si more =>
      obtain ⟨valid, _, past⟩ := additions.taken si (given ▸ List.mem_cons_self)
      rw [anew (hasRoom_of_past past (inRange_of_valid valid)), List.drop_zero]
  rw [all] at slabs
  have undone := additions.undoAll counted
  have same : ∀ si, (r.rollbackCurrent traits requests).2.held si = r.held si := by
    intro si
    exact (held_of_slabs (congrFun slabs si.first)).trans (undone.others si List.not_mem_nil)
  refine ⟨succeeds, ?_, ?_⟩
  · intro si member
    rw [← held_isSome, same, held_isSome]
    exact (additions.taken si member).2.1
  · intro si valid
    refine ⟨?_, getPtr_of_held (same si)⟩
    rw [← held_isSome, same, held_isSome, valid]

end Rolling

section Failing

theorem appendSlot_finds [Inhabited T] {candidate : SlabId} (inside : s.checkpoints ≠ [])
    (may : s.Candidate candidate) : ∀ width first, first + width = numSlabs → first ≤ candidate.first →
      (s.currentHighWatermark ≠ ⟨0, 0⟩ → s.currentHighWatermark.first ≤ first) →
      ∀ mid, Grown s mid → ∃ si t, appendSlot (fun _ => true) s.currentHighWatermark
        (List.range' first width) mid = (.ok si, t) := by
  -- The induction is on the slabs left to visit; the candidate's slab is one of them.
  intro width
  induction width with
  | zero =>
    intro first total bound
    have range := may.1.1
    omega
  | succ width ih =>
    intro first total bound reached mid grown
    obtain ⟨mid', grown', walk⟩ : ∃ mid', Grown s mid' ∧
        appendSlot (fun _ => true) s.currentHighWatermark (List.range' first (width + 1)) mid =
          appendIn (fun _ => true) s.currentHighWatermark first (List.range' (first + 1) width) mid' := by
      rw [List.range'_succ]
      rcases appendSlot_cons (fun _ => true) s.currentHighWatermark first
        (List.range' (first + 1) width) mid with ⟨_, same⟩ | ⟨_, failed, _⟩ | ⟨mapped, stored, _, same⟩
      · exact ⟨mid, grown, same⟩
      · -- The file of a slab can always be created here.
        unfold createOwnedSlab at failed
        cases policy : mid.backingPolicy <;> simp [policy] at failed
      · exact ⟨mid.setSlab first (Slab.fresh mapped), grown.setSlab stored, same⟩
    rw [walk]
    unfold appendIn
    cases scanned : (List.range slabSize).find? fun k =>
        decide (appendStart s.currentHighWatermark first ≤ k) &&
          (⟨first, k⟩ : SlabId).isSet && mid'.available ⟨first, k⟩ with
    | some k => exact ⟨_, _, rfl⟩
    | none =>
      have later : first ≠ candidate.first := by
        intro same
        have skipped := List.find?_range_eq_none.mp scanned candidate.second may.1.2
        have passes := (candidate_iff_scanned inside grown' (by omega : first < numSlabs) reached
          may.1.2).mp (by rw [same]; exact may)
        rw [passes] at skipped
        cases skipped
      exact ih (first + 1) (by omega) (by omega) (fun set => Nat.le_succ_of_le (reached set)) mid' grown'

theorem Revived.candidate (revived : Revived r) (inside : r.checkpoints ≠ []) {si : SlabId}
    (range : si.InRange) (behind : r.currentHighWatermark.Before si) : r.Candidate si := by
  have set : si ≠ ⟨0, 0⟩ := by
    rintro rfl
    simp only [SlabId.Before] at behind
    omega
  refine ⟨range, ?_, ?_⟩
  · have free : r.refs si = 0 := by
      by_contra held
      exact currentHighWatermark_last held behind
    unfold available
    rw [free, revived.reserved]
    rfl
  · rw [if_neg inside]
    exact ⟨set, fun _ => behind⟩

theorem Revived.exists_allocate [Inhabited T] (revived : Revived r) (inside : r.checkpoints ≠ [])
    (room : r.HasRoom) : ∃ si t, r.allocate (fun _ => true) default = (.ok si, t) ∧ r.NextSlot si ∧
      Logged r t [si] := by
  have range := currentHighWatermark_inRange r
  have start : Logged r r [] := ⟨Added.refl revived.mortal, rfl, (List.append_nil _).symm⟩
  obtain ⟨next, may⟩ : ∃ next, r.Candidate next := by
    by_cases same : r.currentHighWatermark.second + 1 < slabSize
    · exact ⟨⟨r.currentHighWatermark.first, r.currentHighWatermark.second + 1⟩,
        revived.candidate inside ⟨range.1, same⟩ (Or.inr ⟨rfl, Nat.lt_succ_self _⟩)⟩
    · have last : r.currentHighWatermark.second = slabSize - 1 := by
        have bound := range.2
        omega
      have more : r.currentHighWatermark.first + 1 < numSlabs := by
        have bound := range.1
        by_contra none
        refine room ?_
        cases given : r.currentHighWatermark with
        | mk first second =>
          rw [given] at last none bound
          simp only [SlabId.mk.injEq]
          dsimp only at last none bound
          omega
      exact ⟨⟨r.currentHighWatermark.first + 1, 0⟩,
        revived.candidate inside ⟨more, by simp [slabSize]⟩ (Or.inl (Nat.lt_succ_self _))⟩
  have bound := searchStart_le r
  obtain ⟨si, t, found⟩ := appendSlot_finds inside may (numSlabs - r.searchStart) r.searchStart
    (by omega) (searchStart_le_candidate inside may) (watermark_le_searchStart r) r (Grown.refl r)
  rw [← allocateAppendOnlyRaw_eq] at found
  rcases start.allocate inside revived.small (fun _ => true) default with
    ⟨e, after, result, _⟩ | ⟨si, after, result, next, logged⟩
  · -- The search found a slot, so the allocation does not fail.
    exfalso
    have raw : r.allocRaw (fun _ => true) = (.ok si, t.markAllocated si) := by
      simp [allocRaw, inside, found]
    unfold Allocator.allocate at result
    rw [raw] at result
    cases result
  · exact ⟨si, after, result, next, logged⟩

end Failing

end Allocator

end AgentC

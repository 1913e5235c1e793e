import AgentC.Library.Counting
import AgentC.Alloc.Allocator

/-! How each elementary write shows in the slab table, the reference counts and the payloads. -/

namespace AgentC

universe u

namespace SlabId

theorem isSet_iff {si : SlabId} : si.isSet = true ↔ si ≠ ⟨0, 0⟩ := by
  -- Either coordinate being positive separates the id from zero.
  rcases si with ⟨first, second⟩
  simp only [isSet, Bool.or_eq_true, bne_iff_ne, ne_eq, mk.injEq, not_and_or]

theorem before_or_before {left right : SlabId} (different : left ≠ right) :
    left.Before right ∨ right.Before left := by
  -- Equal coordinates would make the ids equal.
  rcases left with ⟨i, j⟩
  rcases right with ⟨k, l⟩
  simp only [ne_eq, mk.injEq] at different
  simp only [Before]
  omega

theorem second_ne {left right : SlabId} (different : left ≠ right)
    (slab : left.first = right.first) : left.second ≠ right.second := by
  intro same
  exact different (by cases left; cases right; simp_all)

theorem Before.trans {a b c : SlabId} (ab : a.Before b) (bc : b.Before c) : a.Before c := by
  -- Both comparisons are linear in the coordinates.
  simp only [Before] at *
  omega

theorem not_before_self (a : SlabId) : ¬ a.Before a := by
  -- Neither coordinate is below itself.
  simp only [Before]
  omega

end SlabId

namespace Slab

variable {T : Type u}

@[simp] theorem setInUse_count (slab : Slab T) (offset : Nat) (value : UInt64) :
    (slab.setInUse offset value).count = slab.count := rfl

@[simp] theorem setInUse_staticImmortal (slab : Slab T) (offset : Nat) (value : UInt64) :
    (slab.setInUse offset value).staticImmortal = slab.staticImmortal := rfl

@[simp] theorem setInUse_same (slab : Slab T) (offset : Nat) (value : UInt64) :
    (slab.setInUse offset value).inUse offset = value := by
  simp [setInUse]

variable {offset : Nat} {slab : Slab T}

theorem setInUse_other (slab : Slab T) {k : Nat} (value : UInt64) (other : k ≠ offset) :
    (slab.setInUse offset value).inUse k = slab.inUse k := by
  simp [setInUse, other]

theorem liveSlots_congr {left right : Slab T}
    (same : ∀ k, k < slabSize → (left.inUse k ≠ 0 ↔ right.inUse k ≠ 0)) :
    left.liveSlots = right.liveSlots :=
  count_congr_below same

theorem liveSlots_le (slab : Slab T) : slab.liveSlots ≤ slabSize :=
  Nat.count_le _

@[simp] theorem fresh_liveSlots [Inhabited T] (mapped : Bool) :
    (fresh mapped : Slab T).liveSlots = 0 := by
  -- Every reference count of a new slab is zero.
  refine Nat.count_iff_forall_not.mpr fun k _ => ?_
  simp [fresh]

theorem liveSlots_pos (inside : offset < slabSize) (held : slab.inUse offset ≠ 0) :
    0 < slab.liveSlots :=
  count_pos_of_held inside held

theorem liveSlots_take {value : UInt64} (inside : offset < slabSize) (free : slab.inUse offset = 0)
    (taken : value ≠ 0) :
    (slab.setInUse offset value).liveSlots = slab.liveSlots + 1 := by
  -- The written offset is the only one whose occupancy changes.
  refine count_fill inside (by simpa using free) (by simpa using taken) fun k other => ?_
  rw [setInUse_other slab value other]

theorem liveSlots_clear (inside : offset < slabSize) (held : slab.inUse offset ≠ 0) :
    slab.liveSlots = (slab.setInUse offset 0).liveSlots + 1 := by
  -- Read backwards, the held slot is the one the cleared table is missing.
  refine count_fill inside (by simp) held fun k other => ?_
  rw [setInUse_other slab 0 other]

theorem liveSlots_setInUse_same {value : UInt64} (same : value ≠ 0 ↔ slab.inUse offset ≠ 0) :
    (slab.setInUse offset value).liveSlots = slab.liveSlots := by
  -- Occupancy agrees at the written offset by hypothesis and elsewhere because nothing was written.
  refine liveSlots_congr fun k _ => ?_
  by_cases at_ : k = offset
  · subst at_; simpa using same
  · rw [setInUse_other slab value at_]

def take (slab : Slab T) (offset : Nat) : Slab T :=
  { slab.setInUse offset 1 with count := slab.count + 1 }

@[simp] theorem take_count (slab : Slab T) (offset : Nat) :
    (slab.take offset).count = slab.count + 1 := rfl

@[simp] theorem take_same (slab : Slab T) (offset : Nat) : (slab.take offset).inUse offset = 1 :=
  setInUse_same slab offset 1

theorem take_other (slab : Slab T) {k : Nat} (other : k ≠ offset) :
    (slab.take offset).inUse k = slab.inUse k :=
  setInUse_other slab 1 other

theorem take_liveSlots (inside : offset < slabSize) (free : slab.inUse offset = 0) :
    (slab.take offset).liveSlots = slab.liveSlots + 1 := by
  have taken : (slab.setInUse offset 1).liveSlots = slab.liveSlots + 1 :=
    liveSlots_take inside free (by decide)
  exact taken

theorem liveSlots_lt_of_free (inside : offset < slabSize) (free : slab.inUse offset = 0) :
    slab.liveSlots < slabSize := by
  -- Taking the free slot must still fit.
  have taken := take_liveSlots inside free
  have bounded := (slab.take offset).liveSlots_le
  omega

end Slab

namespace Allocator

variable {T : Type u}

section Writes

variable (s : Allocator T) (index : Nat) (slab : Slab T)

@[simp] theorem setSlab_same : (s.setSlab index slab).slabs index = some slab := by
  simp [setSlab]

theorem setSlab_other {k : Nat} (other : k ≠ index) :
    (s.setSlab index slab).slabs k = s.slabs k := by
  simp [setSlab, other]

@[simp] theorem setSlab_setSlab (later : Slab T) :
    (s.setSlab index slab).setSlab index later = s.setSlab index later := by
  simp only [setSlab, mk.injEq, and_true]
  funext k
  by_cases at_ : k = index <;> simp [at_]

@[simp] theorem setSlab_checkpoints : (s.setSlab index slab).checkpoints = s.checkpoints := rfl

@[simp] theorem setSlab_immortalSlabs :
    (s.setSlab index slab).staticImmortalSlabs = s.staticImmortalSlabs := rfl

@[simp] theorem setSlab_immortalSlots :
    (s.setSlab index slab).staticImmortalSlots = s.staticImmortalSlots := rfl

end Writes

def SameButSlabs (s t : Allocator T) : Prop :=
  t = { s with slabs := t.slabs }

namespace SameButSlabs

variable {s t r : Allocator T}

theorem refl (s : Allocator T) : SameButSlabs s s := rfl

theorem setSlab (s : Allocator T) (index : Nat) (slab : Slab T) :
    SameButSlabs s (s.setSlab index slab) := rfl

theorem trans (first : SameButSlabs s t) (second : SameButSlabs t r) : SameButSlabs s r := by
  rw [SameButSlabs] at *
  rw [second, first]

theorem checkpoints (same : SameButSlabs s t) : t.checkpoints = s.checkpoints := by
  rw [same]

theorem allocationLog (same : SameButSlabs s t) : t.allocationLog = s.allocationLog := by
  rw [same]

theorem reserved (same : SameButSlabs s t) :
    t.rollbackProtectedFreeSlots = s.rollbackProtectedFreeSlots := by
  rw [same]

theorem destructorRuns (same : SameButSlabs s t) : t.destructorRuns = s.destructorRuns := by
  rw [same]

end SameButSlabs

variable {s t : Allocator T} {si : SlabId} {slab before after : Slab T} {index : Nat}

theorem slabOf_eq_some :
    s.slabOf si = some slab ↔ si.InRange ∧ s.slabs si.first = some slab := by
  -- The range test guards the table lookup.
  unfold slabOf SlabId.InRange
  split
  · rename_i inside; simp [inside]
  · rename_i outside; simp [outside]

theorem refs_of_slab (addressed : s.slabOf si = some slab) : s.refs si = slab.inUse si.second := by
  simp [refs, addressed]

theorem slab_of_refs (held : s.refs si ≠ 0) :
    ∃ slab, s.slabOf si = some slab ∧ slab.inUse si.second ≠ 0 := by
  -- Outside every slab the count reads as zero.
  cases addressed : s.slabOf si with
  | none => simp [refs, addressed] at held
  | some slab => exact ⟨slab, rfl, by simpa [refs, addressed] using held⟩

theorem valid_iff :
    s.valid si = true ↔ si ≠ ⟨0, 0⟩ ∧ s.refs si ≠ 0 := by
  simp [valid, SlabId.isSet_iff]

def held (s : Allocator T) (si : SlabId) : Option (UInt64 × T) :=
  (s.getPtr si).map fun item => (s.refs si, item)

theorem held_of_valid (valid : s.valid si = true) (addressed : s.slabOf si = some slab) :
    s.held si = some (slab.inUse si.second, slab.items si.second) := by
  simp [held, getPtr, valid, addressed, refs_of_slab addressed]

theorem held_isSome : (s.held si).isSome = s.valid si := by
  -- A valid slot is held, so its slab exists and supplies a payload.
  cases valid : s.valid si with
  | false => simp [held, getPtr, valid]
  | true =>
    obtain ⟨slab, addressed, _⟩ := slab_of_refs (valid_iff.mp valid).2
    simp [held_of_valid valid addressed]

theorem held_outside (outside : ¬ si.InRange) :
    s.held si = none := by
  -- The range test of the table lookup fails.
  have absent : s.slabOf si = none := by
    simp only [slabOf]
    exact if_neg outside
  simp [held, getPtr, absent]

theorem held_congr (left : s.slabOf si = some before) (right : t.slabOf si = some after)
    (count : after.inUse si.second = before.inUse si.second)
    (item : after.items si.second = before.items si.second) : t.held si = s.held si := by
  -- Equal counts make both valid or neither, and the observation then reads equal fields.
  have same : t.refs si = s.refs si := by rw [refs_of_slab left, refs_of_slab right, count]
  simp [held, getPtr, valid, same, left, right, item]

theorem held_of_slabs (same : t.slabs si.first = s.slabs si.first) : t.held si = s.held si := by
  -- Every reading of the slot goes through its own slab.
  have addressed : t.slabOf si = s.slabOf si := by simp [slabOf, same]
  simp [held, getPtr, valid, refs, addressed]

theorem refs_of_slabs (same : t.slabs si.first = s.slabs si.first) : t.refs si = s.refs si := by
  simp [refs, slabOf, same]

theorem slabOf_setSlab (index : Nat) (slab : Slab T) :
    (s.setSlab index slab).slabOf si =
      if si.InRange ∧ si.first = index then some slab else s.slabOf si := by
  -- Only ids of the installed slab read something new.
  by_cases at_ : si.first = index
  · subst at_
    simp [slabOf, SlabId.InRange]
    split <;> rfl
  · simp [slabOf, at_, setSlab_other s index slab at_]

theorem refs_setSlab_same (slab : Slab T) (inside : si.InRange) :
    (s.setSlab si.first slab).refs si = slab.inUse si.second := by
  simp [refs, slabOf_setSlab, inside]

theorem held_setSlab (stored : s.slabs index = some before) {other : SlabId}
    (same : other.first = index → after.inUse other.second = before.inUse other.second ∧
      after.items other.second = before.items other.second) :
    (s.setSlab index after).held other = s.held other := by
  by_cases at_ : other.first = index
  · subst at_
    by_cases inside : other.InRange
    · exact held_congr (slabOf_eq_some.mpr ⟨inside, stored⟩)
        (slabOf_eq_some.mpr ⟨inside, setSlab_same ..⟩) (same rfl).1 (same rfl).2
    · rw [held_outside inside, held_outside inside]
  · exact held_of_slabs (setSlab_other _ _ _ at_)

theorem refs_setSlab (stored : s.slabs index = some before) {other : SlabId}
    (same : other.first = index → after.inUse other.second = before.inUse other.second) :
    (s.setSlab index after).refs other = s.refs other := by
  by_cases at_ : other.first = index
  · subst at_
    by_cases inside : other.InRange
    · rw [refs_setSlab_same after inside, refs_of_slab (slabOf_eq_some.mpr ⟨inside, stored⟩)]
      exact same rfl
    · have outside : ¬ (other.first < numSlabs ∧ other.second < slabSize) := inside
      simp [refs, slabOf, outside]
  · exact refs_of_slabs (setSlab_other _ _ _ at_)

theorem slotIsStaticImmortal_setSlab (stored : s.slabs index = some before)
    (flag : after.staticImmortal = before.staticImmortal) (si : SlabId) :
    (s.setSlab index after).slotIsStaticImmortal si = s.slotIsStaticImmortal si := by
  -- The replaced slab has the flag of the one before it.
  by_cases at_ : si.first = index
  · subst at_
    simp [slotIsStaticImmortal, stored, flag]
  · simp [slotIsStaticImmortal, setSlab_other s index after at_]

def EverySlab (property : Slab T → Prop) (s : Allocator T) : Prop :=
  ∀ index slab, s.slabs index = some slab → property slab

namespace EverySlab

variable {property : Slab T → Prop} {s t : Allocator T}

theorem of_slabs (every : EverySlab property s) (same : t.slabs = s.slabs) :
    EverySlab property t := by
  intro index slab stored
  exact every index slab (same ▸ stored)

theorem setSlab (every : EverySlab property s) {index : Nat} {slab : Slab T}
    (holds : property slab) : EverySlab property (s.setSlab index slab) := by
  -- The installed index reads the new slab, the others their old ones.
  intro k other stored
  by_cases at_ : k = index
  · subst at_
    rw [setSlab_same] at stored
    cases stored
    exact holds
  · rw [setSlab_other s index slab at_] at stored
    exact every k other stored

end EverySlab

end Allocator

end AgentC

import AgentC.Alloc.AllocationLaws
import AgentC.Alloc.Images

/-! Relations between a slab's stored count and its live slots that the operations keep. -/

namespace AgentC

universe u

/-- A relation between live and counted slots that follows both up and down together. -/
structure Tally (related : Nat → Nat → Prop) : Prop where
  empty : related 0 0
  take : ∀ {live count}, related live count → related (live + 1) (count + 1)
  free : ∀ {live count}, related (live + 1) (count + 1) → related live count
  covers : ∀ {live count}, related live count → live ≤ count

namespace Tally

theorem exact_ : Tally (· = ·) :=
  ⟨rfl, fun same => congrArg (· + 1) same, fun same => Nat.succ.inj same, fun same => same.le⟩

theorem cover : Tally (· ≤ ·) :=
  ⟨le_rfl, fun below => Nat.succ_le_succ below, fun below => Nat.le_of_succ_le_succ below, id⟩

theorem same {related : Nat → Nat → Prop} (tally : Tally related) (n : Nat) : related n n := by
  -- Both sides are counted up from the empty slab.
  induction n with
  | zero => exact tally.empty
  | succ n ih => exact tally.take ih

end Tally

namespace Allocator

variable {T : Type u} {related : Nat → Nat → Prop} {s t : Allocator T}

theorem CountsTally.of_slabs (counts : s.CountsTally related) (same : t.slabs = s.slabs) :
    t.CountsTally related :=
  EverySlab.of_slabs counts same

theorem CountsTally.covers (tally : Tally related) (counts : s.CountsTally related) :
    s.CountsCover :=
  fun index slab stored => tally.covers (counts index slab stored)

theorem CountsTally.grown [Inhabited T] (tally : Tally related) (counts : s.CountsTally related)
    (grown : Grown s t) : t.CountsTally related := by
  -- A new slab holds nothing and counts nothing.
  refine grown.everySlab (fun mapped => ?_) counts
  rw [Slab.fresh_liveSlots]
  exact tally.empty

variable {si : SlabId} {slab : Slab T}

theorem CountsTally.setInUse (counts : s.CountsTally related) {value : UInt64}
    (addressed : s.slabOf si = some slab) (same : value ≠ 0 ↔ slab.inUse si.second ≠ 0) :
    (s.setSlab si.first (slab.setInUse si.second value)).CountsTally related := by
  refine EverySlab.setSlab counts ?_
  rw [Slab.liveSlots_setInUse_same same, Slab.setInUse_count]
  exact counts _ _ (slabOf_eq_some.mp addressed).2

/-- Changing a count leaves a free slot free and a held slot held. -/
def KeepsOccupancy (s : Allocator T) (si : SlabId) (delta : Int) : Prop :=
  ∀ slab, s.slabOf si = some slab → s.slotIsStaticImmortal si = false →
    (slab.inUse si.second + UInt64.ofInt delta ≠ 0 ↔ slab.inUse si.second ≠ 0)

theorem CountsTally.modrefs (counts : s.CountsTally related) {delta : Int}
    (keeps : s.KeepsOccupancy si delta) : (s.modrefs si delta).CountsTally related := by
  rcases modrefs_cases s si delta with ⟨same, _⟩ | ⟨slab, addressed, mortal, result⟩
  · rw [same]; exact counts
  · rw [result]
    exact counts.setInUse addressed (keeps slab addressed mortal)

theorem CountsTally.tryRetain (counts : s.CountsTally related)
    (keeps : s.valid si = true → s.KeepsOccupancy si 1) :
    (s.tryRetain si).2.CountsTally related := by
  rcases tryRetain_cases s si with same | ⟨slab, addressed, set, held, mortal, result⟩
  · rw [same]; exact counts
  · rw [result]
    have valid := valid_iff.mpr ⟨set, by rwa [refs_of_slab addressed]⟩
    exact counts.setInUse addressed (keeps valid slab addressed mortal)

theorem CountsTally.deallocate (tally : Tally related) (counts : s.CountsTally related)
    (si : SlabId) : (s.deallocate si).2.CountsTally related := by
  rcases deallocate_cases s si with ⟨same, _⟩ | ⟨slab, addressed, _, _, held, shared, result⟩ |
    ⟨slab, freed⟩
  · rw [same]; exact counts
  · rw [result]
    refine counts.setInUse addressed (iff_of_true ?_ held)
    exact fun zero => shared (word_sub_one_eq_zero.mp zero)
  · -- Both the count and the live slots go down by one.
    obtain ⟨inside, stored⟩ := slabOf_eq_some.mp freed.addressed
    have before := counts _ _ stored
    have held : slab.inUse si.second ≠ 0 := by simp [freed.last]
    have live := Slab.liveSlots_clear inside.2 held
    have positive : slab.count ≠ 0 := fun zero => by
      have covered := tally.covers before
      rw [live, zero] at covered
      simp at covered
    have lowered : slab.count.toNat = (slab.count - 1).toNat + 1 := by
      have nonzero : slab.count.toNat ≠ 0 := fun zero => positive (UInt64.toNat_inj.mp (by simpa using zero))
      rw [word_sub_one_toNat positive]
      omega
    intro k after kept
    rw [freed.slabs] at kept
    by_cases at_ : k = si.first
    · by_cases emptied : slab.count - 1 = 0
      · simp [at_, emptied] at kept
      · simp only [at_, emptied, if_true, if_false, Option.some.injEq] at kept
        subst kept
        refine tally.free ?_
        rw [← lowered]
        exact live ▸ before
    · simp only [at_, if_false] at kept
      exact counts k after kept

theorem Freed.alone (cover : s.CountsCover) (freed : Freed s si slab t)
    (emptied : slab.count - 1 = 0) {other : SlabId} (different : other ≠ si)
    (same : other.first = si.first) : s.refs other = 0 := by
  -- Two held slots would be counted at least twice.
  by_contra held
  obtain ⟨slab', addressed', held'⟩ := slab_of_refs held
  obtain ⟨inside', stored'⟩ := slabOf_eq_some.mp addressed'
  obtain ⟨inside, stored⟩ := slabOf_eq_some.mp freed.addressed
  have equal : slab' = slab := Option.some.inj ((same ▸ stored').symm.trans stored)
  subst equal
  have lowered := Slab.liveSlots_clear inside.2 (by simp [freed.last] : slab'.inUse si.second ≠ 0)
  have still : (slab'.setInUse si.second 0).inUse other.second ≠ 0 := by
    rwa [Slab.setInUse_other slab' 0 (SlabId.second_ne different same)]
  have more := Slab.liveSlots_pos inside'.2 still
  have covered : slab'.liveSlots ≤ slab'.count.toNat := cover _ _ stored
  rw [word_sub_one_eq_zero.mp emptied] at covered
  simp at covered
  omega

theorem Freed.refs_other {other : SlabId} (cover : s.CountsCover) (freed : Freed s si slab t)
    (different : other ≠ si) : t.refs other = s.refs other := by
  by_cases at_ : other.first = si.first
  · by_cases emptied : slab.count - 1 = 0
    · have gone : t.slabs other.first = none := by simp [freed.slabs, at_, emptied]
      rw [refs_of_absent gone, freed.alone cover emptied different at_]
    · -- The slab was kept, and only the freed offset was written.
      have kept : t.slabs other.first =
          some { slab.setInUse si.second 0 with count := slab.count - 1 } := by
        simp [freed.slabs, at_, emptied]
      have before := (slabOf_eq_some.mp freed.addressed).2
      rw [← at_] at before
      by_cases inside : other.InRange
      · rw [refs_of_slab (slabOf_eq_some.mpr ⟨inside, kept⟩),
          refs_of_slab (slabOf_eq_some.mpr ⟨inside, before⟩)]
        exact Slab.setInUse_other slab 0 (SlabId.second_ne different at_)
      · have outside : ¬ (other.first < numSlabs ∧ other.second < slabSize) := inside
        simp [refs, slabOf, outside]
  · exact refs_of_slabs (by simp [freed.slabs, at_])

def NextMortal (s : Allocator T) : Prop :=
  ∀ si, s.NextSlot si → s.slotIsStaticImmortal si = false

def NextCounted (s : Allocator T) : Prop :=
  ∀ si slab, s.NextSlot si → s.slabOf si = some slab → slab.count.toNat + 1 < 2 ^ 64

theorem CountsTally.nextCounted (counts : s.CountsTally (· = ·)) : s.NextCounted := by
  intro si slab _ addressed
  have exact_ := counts _ _ (slabOf_eq_some.mp addressed).2
  have bounded := slab.liveSlots_le
  simp only [slabSize] at bounded
  omega

theorem Found.marked [Inhabited T] {mid : Allocator T} (found : Found s si slab mid)
    (mortal : s.NextMortal) :
    mid.markAllocated si = { mid.setSlab si.first (slab.take si.second) with
      allocationLog := if s.checkpoints = [] then s.allocationLog else s.allocationLog ++ [si] } := by
  -- Growing changed neither immortality nor the log.
  have still := (found.grown.immortal si).trans (mortal si found.next)
  rw [markAllocated_mortal found.addressed found.free still, found.grown.rest]

theorem Found.counted [Inhabited T] {mid : Allocator T} (found : Found s si slab mid)
    (room : s.NextCounted) : slab.count.toNat + 1 < 2 ^ 64 := by
  obtain ⟨inside, stored⟩ := slabOf_eq_some.mp found.addressed
  rcases found.grown.slabs si.first with same | ⟨_, mapped, created⟩
  · exact room si slab found.next (slabOf_eq_some.mpr ⟨inside, same ▸ stored⟩)
  · rw [created] at stored
    cases stored
    simp [Slab.fresh]

theorem CountsTally.allocRaw [Inhabited T] (tally : Tally related) (counts : s.CountsTally related)
    (settled : s.Settled) (mortal : s.NextMortal) (room : s.NextCounted) (create : Nat → Bool) :
    (s.allocRaw create).2.CountsTally related := by
  rcases allocRaw_cases settled (counts.covers tally) create with
    ⟨e, r, result, grown⟩ | ⟨si, slab, mid, result, found⟩
  · rw [result]; exact counts.grown tally grown
  · rw [result, found.marked mortal]
    obtain ⟨inside, stored⟩ := slabOf_eq_some.mp found.addressed
    have before := counts.grown tally found.grown si.first slab stored
    have counted : (slab.count + 1).toNat = slab.count.toNat + 1 :=
      word_add_one_toNat (found.counted room)
    have after : CountsTally related (mid.setSlab si.first (slab.take si.second)) := by
      refine EverySlab.setSlab (counts.grown tally found.grown) ?_
      rw [Slab.take_liveSlots inside.2 found.free, Slab.take_count, counted]
      exact tally.take before
    exact after.of_slabs rfl

theorem placeItem_refs (s : Allocator T) (si other : SlabId) (item : T) :
    (s.placeItem si item).refs other = s.refs other := by
  unfold placeItem
  split
  · rename_i slab stored
    exact refs_setSlab stored fun _ => rfl
  · rfl

theorem CountsTally.placeItem (counts : s.CountsTally related) (si : SlabId) (item : T) :
    (s.placeItem si item).CountsTally related := by
  unfold Allocator.placeItem
  split
  · rename_i slab stored
    have before := counts _ _ stored
    refine EverySlab.setSlab counts ?_
    exact before
  · exact counts

theorem CountsTally.allocate [Inhabited T] (tally : Tally related) (counts : s.CountsTally related)
    (settled : s.Settled) (mortal : s.NextMortal) (room : s.NextCounted) (create : Nat → Bool)
    (item : T) : (s.allocate create item).2.CountsTally related := by
  have raw := counts.allocRaw tally settled mortal room create
  unfold Allocator.allocate
  split
  · rename_i si r result
    rw [result] at raw
    exact raw.placeItem si item
  · rename_i e r result
    rw [result] at raw
    exact raw

theorem CountsTally.rollbackAllocation (tally : Tally related) (counts : s.CountsTally related)
    (si : SlabId) : (s.rollbackAllocation si).CountsTally related := by
  unfold Allocator.rollbackAllocation
  split
  · exact counts
  · rename_i held
    obtain ⟨slab, addressed, inUse⟩ := slab_of_refs held
    refine CountsTally.deallocate tally ?_ si
    simp only [setRefs, addressed]
    exact counts.setInUse addressed (by simpa using inUse)

theorem CountsTally.rollbackDown (tally : Tally related) (watermark : SlabId) (remaining : Nat) :
    ∀ (current : SlabId) (s : Allocator T), s.CountsTally related →
      (Allocator.rollbackDown watermark remaining current s).CountsTally related := by
  -- Each step of the walk discards one slot.
  induction remaining with
  | zero => intro current s counts; exact counts
  | succ remaining ih =>
    intro current s counts
    simp only [Allocator.rollbackDown]
    split
    · exact ih _ _ (counts.rollbackAllocation tally current)
    · exact counts

theorem CountsTally.rollbackLogged (tally : Tally related) (log : List SlabId) :
    ∀ s : Allocator T, s.CountsTally related →
      (log.foldl Allocator.rollbackAllocation s).CountsTally related := by
  -- Each entry of the log discards one slot.
  induction log with
  | nil => intro s counts; exact counts
  | cons si rest ih =>
    intro s counts
    exact ih _ (counts.rollbackAllocation tally si)


theorem clearFrom_liveSlots_le (traits : ArenaTraits T) (start : Nat) (count : UInt64)
    (slab : Slab T) : (clearFrom traits start count slab).liveSlots ≤ start := by
  refine count_le_of_below fun k _ held => ?_
  by_contra above
  simp [clearFrom, Nat.le_of_not_lt above] at held

theorem clearFrom_liveSlots (traits : ArenaTraits T) {start : Nat} (count : UInt64)
    (inside : start ≤ slabSize) (full : ∀ k, k < start → slab.inUse k ≠ 0) :
    (clearFrom traits start count slab).liveSlots = start := by
  refine count_initial inside fun k _ => ⟨fun held => ?_, fun below => ?_⟩
  · by_contra above
    simp [clearFrom, Nat.le_of_not_lt above] at held
  · simpa [clearFrom, Nat.not_le_of_lt below] using full k below

theorem clearPastNull_liveSlots (slab : Slab T) :
    (clearPastNull slab).liveSlots = (clearPastNull slab).count.toNat := by
  by_cases free : slab.inUse 0 = 0
  · -- Nothing is left.
    have none : (clearPastNull slab).liveSlots = 0 := by
      refine count_initial (Nat.zero_le _) fun k _ => iff_of_false ?_ (Nat.not_lt_zero k)
      rcases Nat.eq_zero_or_pos k with rfl | positive
      · simp [clearPastNull, free]
      · simp [clearPastNull, Nat.succ_le_of_lt positive]
    rw [none]
    simp [clearPastNull, free]
  · -- The null slot is the only one left.
    have one : (clearPastNull slab).liveSlots = 1 := by
      refine count_initial (by simp [slabSize]) fun k _ => ?_
      rcases Nat.eq_zero_or_pos k with rfl | positive
      · simp [clearPastNull, free]
      · simp [clearPastNull, Nat.succ_le_of_lt positive, Nat.ne_of_gt positive]
    rw [one]
    simp [clearPastNull, free]

def StrictResetCounts (related : Nat → Nat → Prop) (traits : ArenaTraits T) (s : Allocator T)
    (watermark : SlabId) : Prop :=
  watermark ≠ ⟨0, 0⟩ → ∀ slab, s.slabs watermark.first = some slab →
    related (clearFrom traits (watermark.second + 1) (UInt64.ofNat (watermark.second + 1)) slab).liveSlots
      (UInt64.ofNat (watermark.second + 1)).toNat

theorem CountsTally.rollbackStrict (tally : Tally related) (counts : s.CountsTally related)
    {traits : ArenaTraits T} {watermark : SlabId}
    (own : s.StrictResetCounts related traits watermark) :
    (s.rollbackStrictAppendOnlyFromWatermark traits watermark).CountsTally related := by
  intro k after stored
  simp only [rollbackStrictAppendOnlyFromWatermark] at stored
  split at stored
  · -- A slab past the watermark's is emptied and counted empty.
    obtain ⟨before, _, rfl⟩ := Option.map_eq_some_iff.mp stored
    have none := Nat.le_zero.mp (clearFrom_liveSlots_le traits 0 0 before)
    rw [none]
    exact tally.empty
  · split at stored
    · rename_i at_
      subst at_
      split at stored
      · rename_i set
        obtain ⟨before, present, rfl⟩ := Option.map_eq_some_iff.mp stored
        exact own (SlabId.isSet_iff.mp set) before present
      · obtain ⟨before, _, rfl⟩ := Option.map_eq_some_iff.mp stored
        rw [clearPastNull_liveSlots]
        exact tally.same _
    · exact counts k after stored

def usesStrictReset (traits : ArenaTraits T) (s : Allocator T) (token : Checkpoint) : Bool :=
  s.accepts token && s.currentCheckpoint.appendOnlyEligible && traits.strictEligible

theorem popCheckpoint_slabs (s : Allocator T) : s.popCheckpoint.slabs = s.slabs := by
  simp only [popCheckpoint]
  split <;> rfl

theorem CountsTally.rollback (tally : Tally related) (counts : s.CountsTally related)
    {traits : ArenaTraits T} {token : Checkpoint}
    (own : s.usesStrictReset traits token = true →
      s.StrictResetCounts related traits token.watermark) :
    (s.rollback traits token).2.CountsTally related := by
  have discarded (top : CheckpointFrame) (rest : List CheckpointFrame)
      (outstanding : s.checkpoints = top :: rest) (accepted : s.accepts token = true) :
      (s.discardSince traits top token).CountsTally related := by
    unfold discardSince
    split
    · rename_i eligible
      split
      · rename_i strict
        have used : s.usesStrictReset traits token = true := by
          simp [usesStrictReset, accepted, currentCheckpoint, outstanding, eligible, strict]
        exact CountsTally.rollbackStrict tally (counts.of_slabs rfl) (own used)
      · exact CountsTally.rollbackDown tally _ _ _ _ (counts.of_slabs rfl)
    · exact CountsTally.rollbackLogged tally _ _ (counts.of_slabs rfl)
  unfold Allocator.rollback
  split
  · exact counts
  · rename_i top rest outstanding
    split
    · rename_i accepted
      exact (discarded top rest outstanding accepted).of_slabs (popCheckpoint_slabs _)
    · exact counts

end Allocator

end AgentC

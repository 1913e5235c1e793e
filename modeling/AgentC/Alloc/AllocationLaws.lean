import AgentC.Alloc.ReferenceLaws

/-! Which slot an allocation takes, and what taking it changes. -/

namespace AgentC

universe u

namespace Allocator

variable {T : Type u}

/-- The downward scan returns the last held slot, or the null id when it finds none. -/
theorem watermarkBelow_spec (s : Allocator T) (bound : Nat) :
    (s.watermarkBelow bound = ⟨0, 0⟩ ∨
      (s.watermarkBelow bound).first < bound ∧ s.refs (s.watermarkBelow bound) ≠ 0) ∧
    ∀ si : SlabId, si.first < bound → s.refs si ≠ 0 →
      ¬ (s.watermarkBelow bound).Before si := by
  -- Each slab is either absent, or free throughout, or the one the scan stops in.
  induction bound with
  | zero => exact ⟨Or.inl rfl, fun si below => absurd below (Nat.not_lt_zero _)⟩
  | succ index ih =>
    obtain ⟨lower, last⟩ := ih
    have carried (free : ∀ offset, offset < slabSize → s.refs ⟨index, offset⟩ = 0)
        (same : s.watermarkBelow (index + 1) = s.watermarkBelow index) :
        (s.watermarkBelow (index + 1) = ⟨0, 0⟩ ∨
          (s.watermarkBelow (index + 1)).first < index + 1 ∧
            s.refs (s.watermarkBelow (index + 1)) ≠ 0) ∧
        ∀ si : SlabId, si.first < index + 1 → s.refs si ≠ 0 →
          ¬ (s.watermarkBelow (index + 1)).Before si := by
      rw [same]
      refine ⟨lower.imp id fun held => ⟨by omega, held.2⟩, fun si below held => ?_⟩
      -- A held slot cannot lie in the slab that the scan found free.
      refine last si ?_ held
      obtain ⟨_, addressed, _⟩ := slab_of_refs held
      have inside := (slabOf_eq_some.mp addressed).1
      by_contra top
      have at_ : si.first = index := by omega
      exact held (by cases si; subst at_; exact free _ inside.2)
    cases stored : s.slabs index with
    | none =>
      refine carried (fun offset _ => ?_) (by simp [watermarkBelow, stored])
      simp [refs, slabOf, stored]
    | some slab =>
      cases found : lastBelow (fun offset => s.refs ⟨index, offset⟩ != 0) slabSize with
      | none =>
        refine carried (fun offset below => ?_) (by simp [watermarkBelow, stored, found])
        simpa using lastBelow_eq_none found offset below
      | some offset =>
        obtain ⟨_, held, above⟩ := lastBelow_eq_some found
        have result : s.watermarkBelow (index + 1) = ⟨index, offset⟩ := by
          simp [watermarkBelow, stored, found]
        rw [result]
        refine ⟨Or.inr ⟨by simp, by simpa using held⟩, fun si below heldSi later => ?_⟩
        obtain ⟨_, addressed, _⟩ := slab_of_refs heldSi
        have inside := (slabOf_eq_some.mp addressed).1
        simp only [SlabId.Before] at later
        have at_ : si.first = index := by omega
        have free := above si.second (by omega) inside.2
        cases si
        subst at_
        simp at free
        exact heldSi free

theorem currentHighWatermark_held (s : Allocator T) :
    s.currentHighWatermark = ⟨0, 0⟩ ∨ s.refs s.currentHighWatermark ≠ 0 :=
  (watermarkBelow_spec s numSlabs).1.imp id And.right

variable {s : Allocator T} {si : SlabId} {create : Nat → Bool}

theorem currentHighWatermark_last (held : s.refs si ≠ 0) :
    ¬ s.currentHighWatermark.Before si := by
  obtain ⟨_, addressed, _⟩ := slab_of_refs held
  exact (watermarkBelow_spec s numSlabs).2 si (slabOf_eq_some.mp addressed).1.1 held

theorem currentHighWatermark_inRange (s : Allocator T) : s.currentHighWatermark.InRange := by
  rcases currentHighWatermark_held s with null | held
  · rw [null]; simp [SlabId.InRange, numSlabs, slabSize]
  · obtain ⟨_, addressed, _⟩ := slab_of_refs held
    exact (slabOf_eq_some.mp addressed).1

/-- The only difference is that some absent slabs have been created. -/
structure Grown [Inhabited T] (s t : Allocator T) : Prop where
  slabs : ∀ k, t.slabs k = s.slabs k ∨
    s.slabs k = none ∧ ∃ mapped, t.slabs k = some (Slab.fresh mapped)
  rest : t = { s with slabs := t.slabs }

namespace Grown

variable [Inhabited T] {s t : Allocator T}

theorem refl (s : Allocator T) : Grown s s :=
  ⟨fun _ => Or.inl rfl, rfl⟩

theorem setSlab (grown : Grown s t) {index : Nat} {mapped : Bool}
    (absent : t.slabs index = none) : Grown s (t.setSlab index (Slab.fresh mapped)) := by
  -- The created index was absent in the original state too.
  refine ⟨fun k => ?_, by rw [grown.rest]; rfl⟩
  by_cases at_ : k = index
  · subst at_
    have before : s.slabs k = none := by
      rcases grown.slabs k with same | ⟨none_, _⟩
      · rw [← same]; exact absent
      · exact none_
    exact Or.inr ⟨before, mapped, setSlab_same ..⟩
  · rw [setSlab_other _ _ _ at_]
    exact grown.slabs k

theorem refs (grown : Grown s t) (si : SlabId) : t.refs si = s.refs si := by
  rcases grown.slabs si.first with same | ⟨none_, mapped, created⟩
  · exact refs_of_slabs same
  · by_cases inside : si.first < numSlabs ∧ si.second < slabSize
    · simp [Allocator.refs, slabOf, none_, created, inside, Slab.fresh]
    · simp [Allocator.refs, slabOf, inside]

theorem held (grown : Grown s t) (si : SlabId) : t.held si = s.held si := by
  rcases grown.slabs si.first with same | ⟨none_, mapped, created⟩
  · exact held_of_slabs same
  · -- The slot was absent before and is free in the new slab.
    have free : s.refs si = 0 := by simp [Allocator.refs, slabOf, none_]
    have still := (grown.refs si).trans free
    simp [Allocator.held, getPtr, valid, free, still]

theorem immortal (grown : Grown s t) (si : SlabId) :
    t.slotIsStaticImmortal si = s.slotIsStaticImmortal si := by
  rw [grown.rest]
  rcases grown.slabs si.first with same | ⟨none_, mapped, created⟩
  · simp [slotIsStaticImmortal, same]
  · simp [slotIsStaticImmortal, none_, created, Slab.fresh]

theorem available (grown : Grown s t) (si : SlabId) : t.available si = s.available si := by
  have reserved : t.rollbackProtectedFreeSlots = s.rollbackProtectedFreeSlots := by
    rw [grown.rest]
  simp [Allocator.available, grown.refs, reserved]

theorem everySlab (grown : Grown s t) {property : Slab T → Prop}
    (created : ∀ mapped, property (Slab.fresh mapped)) (every : EverySlab property s) :
    EverySlab property t := by
  intro k slab stored
  rcases grown.slabs k with same | ⟨_, mapped, new⟩
  · exact every k slab (same ▸ stored)
  · rw [new] at stored
    cases stored
    exact created mapped

end Grown

/-- A slot the current mode of allocation may take. -/
def Candidate (s : Allocator T) (si : SlabId) : Prop :=
  si.InRange ∧ s.available si = true ∧
    if s.checkpoints = [] then
      ∀ slab, s.slabs si.first = some slab → slab.count.toNat < slabSize
    else si ≠ ⟨0, 0⟩ ∧ (s.currentHighWatermark ≠ ⟨0, 0⟩ → s.currentHighWatermark.Before si)

def NextSlot (s : Allocator T) (si : SlabId) : Prop :=
  s.Candidate si ∧ ∀ other, other.Before si → ¬ s.Candidate other

def CountsTally (related : Nat → Nat → Prop) (s : Allocator T) : Prop :=
  EverySlab (fun slab => related slab.liveSlots slab.count.toNat) s

def CountsCover (s : Allocator T) : Prop :=
  s.CountsTally (· ≤ ·)

def Settled (s : Allocator T) : Prop :=
  s.checkpoints = [] → s.rollbackProtectedFreeSlots = ∅ ∧ s.allocationLog = []

theorem count_lt_slabSize {count : UInt64} :
    count < UInt64.ofNat slabSize ↔ count.toNat < slabSize := by
  simp [UInt64.lt_iff_toNat_lt, slabSize]

theorem createOwnedSlab_fresh [Inhabited T] {index : Nat} {slab : Slab T}
    (created : s.createOwnedSlab create index = some slab) :
    ∃ mapped, slab = Slab.fresh mapped := by
  -- Both policies build the slab with the same constructor.
  unfold createOwnedSlab at created
  split at created
  · exact ⟨false, (Option.some.inj created).symm⟩
  · split at created
    · exact ⟨true, (Option.some.inj created).symm⟩
    · simp at created

theorem refs_of_absent (absent : s.slabs si.first = none) :
    s.refs si = 0 := by
  simp [refs, slabOf, absent]

theorem searchSlot_ok [Inhabited T] {r : Allocator T} (outside : s.checkpoints = [])
    (unreserved : s.rollbackProtectedFreeSlots = ∅) (cover : s.CountsCover) :
    ∀ width first, first + width = numSlabs → (∀ other, s.Candidate other → first ≤ other.first) →
      s.searchSlot create (List.range' first width) 0 = (.ok si, r) →
      Grown s r ∧ (∃ slab, r.slabs si.first = some slab) ∧ s.NextSlot si := by
  -- The induction is on the slabs left to visit, all earlier ones having been rejected.
  intro width
  induction width with
  | zero => intro first _ _ found; simp [searchSlot] at found
  | succ width ih =>
    intro first total rejected found
    rw [List.range'_succ] at found
    have advance (none_ : ∀ other, s.Candidate other → other.first ≠ first) :
        ∀ other, s.Candidate other → first + 1 ≤ other.first := fun other candidate => by
      have := rejected other candidate
      have := none_ other candidate
      omega
    cases stored : s.slabs first with
    | none =>
      -- An absent slab is created and its first slot taken.
      cases created : s.createOwnedSlab create first with
      | none => simp [searchSlot, stored, created] at found
      | some slab =>
        obtain ⟨mapped, rfl⟩ := createOwnedSlab_fresh created
        simp only [searchSlot, stored, created, Prod.mk.injEq, Except.ok.injEq] at found
        obtain ⟨rfl, rfl⟩ := found
        refine ⟨(Grown.refl s).setSlab stored, ⟨_, setSlab_same ..⟩, ⟨?_, ?_, ?_⟩, ?_⟩
        · exact ⟨by simp only; omega, by simp [slabSize]⟩
        · have free : s.refs ⟨first, 0⟩ = 0 := refs_of_absent stored
          simp [available, free, unreserved]
        · rw [if_pos outside]
          intro slab present
          simp [stored] at present
        · intro other earlier candidate
          have := rejected other candidate
          simp only [SlabId.Before] at earlier
          omega
    | some slab =>
      simp only [searchSlot, stored] at found
      split at found
      · rename_i below
        cases scanned : (List.range slabSize).find? fun k => s.available ⟨first, k⟩ with
        | none =>
          -- A count below the slab size leaves a free slot, which the scan would have taken.
          exfalso
          have short := Nat.lt_of_le_of_lt (cover first slab stored) (count_lt_slabSize.mp below)
          obtain ⟨k, inside, empty⟩ := exists_empty_of_count_lt short
          have passed := List.find?_range_eq_none.mp scanned k inside
          have free : s.refs ⟨first, k⟩ = 0 := by
            have addressed : s.slabOf ⟨first, k⟩ = some slab :=
              slabOf_eq_some.mpr ⟨⟨by simp only; omega, inside⟩, stored⟩
            rw [refs_of_slab addressed]
            simpa using empty
          simp [available, free, unreserved] at passed
        | some k =>
          simp only [scanned, Prod.mk.injEq, Except.ok.injEq] at found
          obtain ⟨rfl, rfl⟩ := found
          obtain ⟨passes, inside, earlier⟩ := List.find?_range_eq_some.mp scanned
          refine ⟨Grown.refl s, ⟨slab, stored⟩, ⟨⟨by simp only; omega, by simpa using inside⟩,
            passes, ?_⟩, ?_⟩
          · rw [if_pos outside]
            intro other present
            simp only [stored, Option.some.injEq] at present
            subst present
            exact count_lt_slabSize.mp below
          · intro other before candidate
            have := rejected other candidate
            simp only [SlabId.Before] at before
            have at_ : other.first = first := by omega
            have skipped := earlier other.second (by omega)
            cases other
            subst at_
            simp [candidate.2.1] at skipped
      · -- A slab counted as full is passed over.
        rename_i full
        refine ih (first + 1) (by omega) (advance fun other candidate at_ => ?_) found
        have open_ := candidate.2.2
        rw [if_pos outside] at open_
        exact full (count_lt_slabSize.mpr (open_ slab (at_ ▸ stored)))

theorem candidate_iff_scanned [Inhabited T] {mid : Allocator T} (inside_ : s.checkpoints ≠ [])
    (grown : Grown s mid) {first k : Nat} (visited : first < numSlabs)
    (reached : s.currentHighWatermark ≠ ⟨0, 0⟩ → s.currentHighWatermark.first ≤ first)
    (below : k < slabSize) :
    s.Candidate ⟨first, k⟩ ↔
      (decide (appendStart s.currentHighWatermark first ≤ k) &&
        (⟨first, k⟩ : SlabId).isSet && mid.available ⟨first, k⟩) = true := by
  rw [grown.available]
  simp only [Candidate, if_neg inside_, Bool.and_eq_true, decide_eq_true_eq, SlabId.isSet_iff]
  have range : (⟨first, k⟩ : SlabId).InRange := ⟨visited, below⟩
  have start : ((⟨first, k⟩ : SlabId) ≠ ⟨0, 0⟩ ∧
      (s.currentHighWatermark ≠ ⟨0, 0⟩ → s.currentHighWatermark.Before ⟨first, k⟩)) ↔
      appendStart s.currentHighWatermark first ≤ k ∧ (⟨first, k⟩ : SlabId) ≠ ⟨0, 0⟩ := by
    by_cases null : s.currentHighWatermark = ⟨0, 0⟩
    · have unset : s.currentHighWatermark.isSet = false := by rw [null]; rfl
      simp only [null, ne_eq, not_true, false_implies, and_true, appendStart]
      by_cases zero : first = 0
      · simp [zero, SlabId.isSet]; omega
      · simp [zero, SlabId.isSet]
    · have set : s.currentHighWatermark.isSet = true := SlabId.isSet_iff.mpr null
      have bound := reached null
      by_cases at_ : first = s.currentHighWatermark.first
      · simp [null, set, appendStart, SlabId.Before, at_]; omega
      · have later : s.currentHighWatermark.first < first := by omega
        simp [null, set, appendStart, SlabId.Before, at_, later]
  simp only [range, true_and, start]
  tauto

theorem appendSlot_cons [Inhabited T] (create : Nat → Bool) (watermark : SlabId) (index : Nat)
    (rest : List Nat) (s : Allocator T) :
    (∃ slab, s.slabs index = some slab) ∧
      appendSlot create watermark (index :: rest) s = appendIn create watermark index rest s ∨
    s.slabs index = none ∧ s.createOwnedSlab create index = none ∧
      appendSlot create watermark (index :: rest) s = (.error .slabBackingFailed, s) ∨
    ∃ mapped, s.slabs index = none ∧ s.createOwnedSlab create index = some (Slab.fresh mapped) ∧
      appendSlot create watermark (index :: rest) s =
        appendIn create watermark index rest (s.setSlab index (Slab.fresh mapped)) := by
  unfold appendIn
  cases stored : s.slabs index with
  | some slab => exact Or.inl ⟨⟨slab, rfl⟩, by simp only [appendSlot, stored]⟩
  | none =>
    refine Or.inr ?_
    cases created : s.createOwnedSlab create index with
    | none =>
      exact Or.inl ⟨rfl, rfl, by simp only [appendSlot, stored, created, Option.map_none]⟩
    | some slab =>
      obtain ⟨mapped, rfl⟩ := createOwnedSlab_fresh created
      exact Or.inr ⟨mapped, rfl, rfl, by simp only [appendSlot, stored, created, Option.map_some]⟩

theorem appendSlot_ok [Inhabited T] (inside_ : s.checkpoints ≠ []) :
    ∀ width first, first + width = numSlabs → (∀ other, s.Candidate other → first ≤ other.first) →
      (s.currentHighWatermark ≠ ⟨0, 0⟩ → s.currentHighWatermark.first ≤ first) →
      ∀ s₁ r, Grown s s₁ →
      appendSlot create s.currentHighWatermark (List.range' first width) s₁ = (.ok si, r) →
      Grown s r ∧ (∃ slab, r.slabs si.first = some slab) ∧ s.NextSlot si := by
  -- The induction is on the slabs left to visit. Earlier ones may have been created on the way.
  intro width
  induction width with
  | zero => intro first _ _ _ s₁ r _ found; simp [appendSlot] at found
  | succ width ih =>
    intro first total rejected reached s₁ r grown found
    rw [List.range'_succ] at found
    -- Whichever way the slab is ensured, the scan runs over a state that has only grown.
    obtain ⟨s₂, grown₂, ⟨slab, present⟩, scan⟩ : ∃ s₂, Grown s s₂ ∧
        (∃ slab, s₂.slabs first = some slab) ∧
        appendIn create s.currentHighWatermark first (List.range' (first + 1) width) s₂ =
          (.ok si, r) := by
      rcases appendSlot_cons create s.currentHighWatermark first (List.range' (first + 1) width) s₁
        with ⟨present, same⟩ | ⟨_, _, failed⟩ | ⟨mapped, stored, _, same⟩
      · exact ⟨s₁, grown, present, same ▸ found⟩
      · rw [failed] at found
        cases found
      · exact ⟨_, grown.setSlab stored, ⟨_, setSlab_same ..⟩, same ▸ found⟩
    unfold appendIn at scan
    -- In this slab the scan tests exactly the candidates.
    have candidate_iff := fun k (below : k < slabSize) =>
      candidate_iff_scanned inside_ grown₂ (by omega : first < numSlabs) reached below
    cases scanned : (List.range slabSize).find? fun k =>
        decide (appendStart s.currentHighWatermark first ≤ k) &&
          (⟨first, k⟩ : SlabId).isSet && s₂.available ⟨first, k⟩ with
    | none =>
      rw [scanned] at scan
      refine ih (first + 1) (by omega) (fun other candidate => ?_)
        (fun set => Nat.le_succ_of_le (reached set)) s₂ r grown₂ scan
      -- A candidate in this slab would have been taken.
      have lower := rejected other candidate
      by_contra stays
      have at_ : other.first = first := by omega
      have below := candidate.1.2
      have skipped := List.find?_range_eq_none.mp scanned other.second below
      cases other
      subst at_
      rw [(candidate_iff _ below).mp candidate] at skipped
      simp at skipped
    | some k =>
      rw [scanned] at scan
      simp only [Prod.mk.injEq, Except.ok.injEq] at scan
      obtain ⟨rfl, rfl⟩ := scan
      obtain ⟨passes, inside, earlier⟩ := List.find?_range_eq_some.mp scanned
      have below : k < slabSize := by simpa using inside
      refine ⟨grown₂, ⟨slab, present⟩, (candidate_iff k below).mpr passes, ?_⟩
      intro other before candidate
      have lower := rejected other candidate
      simp only [SlabId.Before] at before
      have at_ : other.first = first := by omega
      have skipped := earlier other.second (by omega)
      have range := candidate.1.2
      cases other
      subst at_
      rw [(candidate_iff _ range).mp candidate] at skipped
      simp at skipped

theorem searchSlot_grown [Inhabited T] (s : Allocator T) (create : Nat → Bool)
    (indices : List Nat) : ∀ offset, Grown s (s.searchSlot create indices offset).2 := by
  -- Only an absent slab changes the state, and the search ends there.
  induction indices with
  | nil => intro offset; exact Grown.refl s
  | cons index rest ih =>
    intro offset
    cases stored : s.slabs index with
    | some slab =>
      simp only [searchSlot, stored]
      split
      · split
        · exact Grown.refl s
        · exact ih slabSize
      · exact ih 0
    | none =>
      simp only [searchSlot, stored]
      cases created : s.createOwnedSlab create index with
      | none => exact Grown.refl s
      | some slab =>
        obtain ⟨mapped, rfl⟩ := createOwnedSlab_fresh created
        exact (Grown.refl s).setSlab stored

theorem appendSlot_grown [Inhabited T] (create : Nat → Bool) (watermark : SlabId)
    (indices : List Nat) : ∀ mid, Grown s mid →
      Grown s (appendSlot create watermark indices mid).2 := by
  -- Every visited slab is either present or created empty.
  induction indices with
  | nil => intro mid grown; exact grown
  | cons index rest ih =>
    intro mid grown
    have visit (next : Allocator T) (grown : Grown s next) :
        Grown s (appendIn create watermark index rest next).2 := by
      unfold appendIn
      split
      · exact grown
      · exact ih next grown
    rcases appendSlot_cons create watermark index rest mid
      with ⟨_, same⟩ | ⟨_, _, failed⟩ | ⟨mapped, stored, _, same⟩
    · exact same ▸ visit mid grown
    · exact failed ▸ grown
    · exact same ▸ visit _ (grown.setSlab stored)

theorem allocRaw_grown [Inhabited T] (s : Allocator T) (create : Nat → Bool) :
    ∃ mid, Grown s mid ∧
      ((s.allocRaw create).2 = mid ∨ ∃ si, (s.allocRaw create).2 = mid.markAllocated si) := by
  unfold allocRaw
  have grown : Grown s (if s.checkpoints.isEmpty then s.searchSlot create (List.range numSlabs) 0
      else s.allocateAppendOnlyRaw create).2 := by
    split
    · exact searchSlot_grown s create (List.range numSlabs) 0
    · exact appendSlot_grown create s.currentHighWatermark
        ((List.range numSlabs).drop
          (if s.currentHighWatermark.isSet then s.currentHighWatermark.first else 0)) s
        (Grown.refl s)
  -- Both searches leave the same two outcomes, so which one ran is forgotten here.
  generalize (if s.checkpoints.isEmpty then s.searchSlot create (List.range numSlabs) 0
    else s.allocateAppendOnlyRaw create) = found at grown ⊢
  rcases found with ⟨result, mid⟩
  cases result with
  | error e => exact ⟨mid, grown, Or.inl rfl⟩
  | ok si => exact ⟨mid, grown, Or.inr ⟨si, rfl⟩⟩

/-- The state between finding a slot and marking it allocated. -/
structure Found [Inhabited T] (s : Allocator T) (si : SlabId) (slab : Slab T) (mid : Allocator T) :
    Prop where
  grown : Grown s mid
  next : s.NextSlot si
  addressed : mid.slabOf si = some slab
  free : slab.inUse si.second = 0

theorem Grown.found [Inhabited T] {mid : Allocator T} (grown : Grown s mid)
    (present : ∃ slab, mid.slabs si.first = some slab) (next : s.NextSlot si) :
    ∃ slab, Found s si slab mid := by
  -- A candidate is in range and free, and growing changes neither.
  obtain ⟨slab, stored⟩ := present
  have addressed := slabOf_eq_some.mpr ⟨next.1.1, stored⟩
  refine ⟨slab, grown, next, addressed, ?_⟩
  have free := next.1.2.1
  simp only [Allocator.available, Bool.and_eq_true, beq_iff_eq] at free
  rw [← refs_of_slab addressed, grown.refs]
  exact free.1

def searchStart (s : Allocator T) : Nat :=
  if s.currentHighWatermark.isSet then s.currentHighWatermark.first else 0

theorem searchStart_le (s : Allocator T) : s.searchStart ≤ numSlabs := by
  have inside := (currentHighWatermark_inRange s).1
  unfold searchStart
  split <;> omega

theorem watermark_le_searchStart (s : Allocator T) (set : s.currentHighWatermark ≠ ⟨0, 0⟩) :
    s.currentHighWatermark.first ≤ s.searchStart := by
  unfold searchStart
  rw [if_pos (SlabId.isSet_iff.mpr set)]

theorem searchStart_le_candidate (inside : s.checkpoints ≠ []) (candidate : s.Candidate si) :
    s.searchStart ≤ si.first := by
  have past := candidate.2.2
  rw [if_neg inside] at past
  unfold searchStart
  split
  · rename_i set
    rcases past.2 (SlabId.isSet_iff.mp set) with later | ⟨same, _⟩ <;> omega
  · exact Nat.zero_le _

theorem allocateAppendOnlyRaw_eq [Inhabited T] (s : Allocator T) (create : Nat → Bool) :
    s.allocateAppendOnlyRaw create = appendSlot create s.currentHighWatermark
      (List.range' s.searchStart (numSlabs - s.searchStart)) s := by
  rw [allocateAppendOnlyRaw, List.range_eq_range', List.drop_range']
  unfold searchStart
  rw [Nat.zero_add, Nat.mul_one]

theorem allocRaw_cases_inside [Inhabited T] (inside : s.checkpoints ≠ []) (create : Nat → Bool) :
    (∃ e r, s.allocRaw create = (.error e, r) ∧ Grown s r) ∨
      ∃ si slab mid, s.allocRaw create = (.ok si, mid.markAllocated si) ∧ Found s si slab mid := by
  rcases searched : s.allocateAppendOnlyRaw create with ⟨result, mid⟩
  have walk := (allocateAppendOnlyRaw_eq s create).symm.trans searched
  have grown := appendSlot_grown create s.currentHighWatermark
    (List.range' s.searchStart (numSlabs - s.searchStart)) s (Grown.refl s)
  rw [walk] at grown
  cases result with
  | error e => exact Or.inl ⟨e, mid, by simp [allocRaw, inside, searched], grown⟩
  | ok si =>
    have entry : s.allocRaw create = (.ok si, mid.markAllocated si) := by
      simp [allocRaw, inside, searched]
    have bound := searchStart_le s
    obtain ⟨grown, present, next⟩ := appendSlot_ok inside (numSlabs - s.searchStart) s.searchStart
      (by omega) (fun _ => searchStart_le_candidate inside) (watermark_le_searchStart s) s mid
      (Grown.refl s) walk
    obtain ⟨slab, found⟩ := grown.found present next
    exact Or.inr ⟨si, slab, mid, entry, found⟩

theorem allocRaw_cases [Inhabited T] (settled : s.Settled) (cover : s.CountsCover)
    (create : Nat → Bool) :
    (∃ e r, s.allocRaw create = (.error e, r) ∧ Grown s r) ∨
      ∃ si slab mid, s.allocRaw create = (.ok si, mid.markAllocated si) ∧ Found s si slab mid := by
  by_cases outside : s.checkpoints = []
  · rcases searched : s.searchSlot create (List.range numSlabs) 0 with ⟨result, mid⟩
    have grown := searchSlot_grown s create (List.range numSlabs) 0
    rw [searched] at grown
    cases result with
    | error e => exact Or.inl ⟨e, mid, by simp [allocRaw, outside, searched], grown⟩
    | ok si =>
      have entry : s.allocRaw create = (.ok si, mid.markAllocated si) := by
        simp [allocRaw, outside, searched]
      rw [List.range_eq_range'] at searched
      obtain ⟨grown, present, next⟩ := searchSlot_ok outside (settled outside).1 cover numSlabs 0
        (Nat.zero_add _) (fun _ _ => Nat.zero_le _) searched
      obtain ⟨slab, found⟩ := grown.found present next
      exact Or.inr ⟨si, slab, mid, entry, found⟩
  · exact allocRaw_cases_inside outside create

/-- Reserving a slot leaves the null slot, the reserved slots and the checkpoints alone. -/
theorem markAllocated_rest (s : Allocator T) (si : SlabId) :
    SameButSlabs { s with allocationLog := (s.markAllocated si).allocationLog }
        (s.markAllocated si) ∧
      (s.markAllocated si).allocationLog =
        if s.checkpoints = [] then s.allocationLog else s.allocationLog ++ [si] := by
  -- Counting and referencing change slabs only, and the log grows inside a checkpoint.
  obtain ⟨counted, start, first⟩ : ∃ counted, SameButSlabs s counted ∧ s.markAllocated si =
      if (counted.modrefs si 1).checkpoints.isEmpty then counted.modrefs si 1
      else { counted.modrefs si 1 with
        allocationLog := (counted.modrefs si 1).allocationLog ++ [si] } := by
    cases stored : s.slabs si.first with
    | none => exact ⟨s, SameButSlabs.refl s, by simp only [markAllocated, stored]⟩
    | some slab =>
      exact ⟨_, SameButSlabs.setSlab s si.first { slab with count := slab.count + 1 },
        by simp only [markAllocated, stored]⟩
  have same := start.trans (modrefs_sameButSlabs counted si 1)
  by_cases outside : s.checkpoints = []
  · have result : s.markAllocated si = counted.modrefs si 1 := by
      rw [first, same.checkpoints, outside]; rfl
    rw [result, same, if_pos outside]
    exact ⟨rfl, rfl⟩
  · have result : s.markAllocated si = { counted.modrefs si 1 with
        allocationLog := s.allocationLog ++ [si] } := by
      rw [first, same.checkpoints, if_neg (by simpa using outside), same.allocationLog]
    rw [result, same, if_neg outside]
    exact ⟨rfl, rfl⟩

theorem markAllocated_slabs_other (s : Allocator T) {index : Nat} (other : index ≠ si.first) :
    (s.markAllocated si).slabs index = s.slabs index := by
  -- Both the count and the reference are written at the slot's slab.
  have referenced (t : Allocator T) : (t.modrefs si 1).slabs index = t.slabs index := by
    rcases modrefs_cases t si 1 with ⟨same, _⟩ | ⟨slab, _, _, result⟩
    · rw [same]
    · rw [result, setSlab_other _ _ _ other]
  cases stored : s.slabs si.first with
  | none =>
    simp only [markAllocated, stored]
    split <;> exact referenced s
  | some slab =>
    have counted := setSlab_other s si.first { slab with count := slab.count + 1 } other
    simp only [markAllocated, stored]
    split <;> exact (referenced _).trans counted

section Marking

variable {s : Allocator T} {si : SlabId} {slab : Slab T}

theorem markAllocated_mortal (addressed : s.slabOf si = some slab)
    (free : slab.inUse si.second = 0) (mortal : s.slotIsStaticImmortal si = false) :
    s.markAllocated si = { s.setSlab si.first (slab.take si.second) with
      allocationLog := if s.checkpoints = [] then s.allocationLog else s.allocationLog ++ [si] } := by
  obtain ⟨inside, stored⟩ := slabOf_eq_some.mp addressed
  have counted : (s.setSlab si.first { slab with count := slab.count + 1 }).slabOf si =
      some { slab with count := slab.count + 1 } := by simp [slabOf_setSlab, inside]
  have still : (s.setSlab si.first { slab with count := slab.count + 1 }).slotIsStaticImmortal si =
      false := by
    rw [slotIsStaticImmortal_setSlab (by exact stored) (by rfl), mortal]
  -- The two writes to the slab table are made at the same index, and come to taking the slot.
  have referenced : (s.setSlab si.first { slab with count := slab.count + 1 }).modrefs si 1 =
      s.setSlab si.first (slab.take si.second) := by
    simp only [modrefs, counted, still, free, setSlab_setSlab, Bool.false_eq_true, if_false]
    rfl
  simp only [markAllocated, stored, referenced, List.isEmpty_iff, setSlab_checkpoints]
  by_cases outside : s.checkpoints = []
  · rw [if_pos outside, if_pos outside]
    rfl
  · rw [if_neg outside, if_neg outside]
    rfl

theorem markAllocated_immortal (addressed : s.slabOf si = some slab)
    (immortal : s.slotIsStaticImmortal si = true) :
    s.markAllocated si = { s.setSlab si.first { slab with count := slab.count + 1 } with
      allocationLog := if s.checkpoints = [] then s.allocationLog else s.allocationLog ++ [si] } := by
  obtain ⟨inside, stored⟩ := slabOf_eq_some.mp addressed
  have counted : (s.setSlab si.first { slab with count := slab.count + 1 }).slabOf si =
      some { slab with count := slab.count + 1 } := by simp [slabOf_setSlab, inside]
  have still : (s.setSlab si.first { slab with count := slab.count + 1 }).slotIsStaticImmortal si =
      true := by
    rw [slotIsStaticImmortal_setSlab (by exact stored) (by rfl), immortal]
  -- The reference is not counted, because `modrefs` skips immortal slots.
  have skipped : (s.setSlab si.first { slab with count := slab.count + 1 }).modrefs si 1 =
      s.setSlab si.first { slab with count := slab.count + 1 } := by
    simp only [modrefs, counted, still, if_true]
  simp only [markAllocated, stored, skipped, List.isEmpty_iff, setSlab_checkpoints]
  by_cases outside : s.checkpoints = []
  · rw [if_pos outside, if_pos outside]
    rfl
  · rw [if_neg outside, if_neg outside]
    rfl

end Marking

end Allocator

end AgentC

import AgentC.Alloc.BlobLaws

/-! What nested checkpoints of the blob allocator know about the slabs since they were taken. -/

namespace AgentC

/-- A blob that can be read, from bytes in use. -/
structure BlobAllocator.Holds (s : BlobAllocator) (blob : Blob) : Prop where
  address : blob.1.isSet = true ∧ blob.1.first < numSlabs
  stored : ∃ slab, s.slabs blob.1.first = some slab ∧ blob.1.second + blob.2.length ≤ slab.count ∧
    (List.range blob.2.length).map (fun k => slab.bytes (blob.1.second + k)) = blob.2
  bytes : blob.2 ≠ []

def Blob.Apart (one other : Blob) : Prop :=
  one.1.first ≠ other.1.first ∨ one.1.second + one.2.length ≤ other.1.second ∨
    other.1.second + other.2.length ≤ one.1.second

namespace BlobAllocator

variable {s t u : BlobAllocator} {new more : List Blob}

/-- Slabs have only been filled further, and by the new blobs, since an earlier moment. -/
structure Since (s : BlobAllocator) (new : List Blob) (t : BlobAllocator) : Prop where
  slabs : ∀ i old, s.slabs i = some old → ∃ slab, t.slabs i = some slab ∧ old.count ≤ slab.count ∧
    (∀ k, k < old.count → slab.bytes k = old.bytes k) ∧
    (old.count < slab.count ↔ ∃ blob ∈ new, blob.1.first = i)

theorem Since.trans (first : Since s new t) (second : Since t more u) : Since s (more ++ new) u where
  slabs := fun i old found => by
    obtain ⟨slab, there, grown, same, filled⟩ := first.slabs i old found
    obtain ⟨last, there', grown', same', filled'⟩ := second.slabs i slab there
    refine ⟨last, there', by omega, fun k below => ?_, ?_⟩
    · rw [same' k (by omega), same k below]
    · -- A slab that is fuller at the end became so in one of the two parts.
      have either : old.count < last.count ↔ slab.count < last.count ∨ old.count < slab.count := by
        omega
      rw [either, filled, filled']
      simp only [List.mem_append, or_and_right, exists_or]

theorem Created.since (made : Created s t) : Since s [] t where
  slabs := fun i old found => by
    refine ⟨old, made.kept found, Nat.le_refl _, fun k _ => rfl, ?_⟩
    simp

variable {i : Nat} {slab : BlobSlab} {data : List UInt8}

theorem since_store (found : t.slabs i = some slab) (offset : Nat) (bytes : data ≠ []) :
    Since t [(⟨i, offset⟩, data)] (t.setSlab i (slab.store data)) where
  slabs := fun j old there => by
    have length := List.length_pos_of_ne_nil bytes
    by_cases here : j = i
    · -- The slab that was stored in.
      subst here
      rw [found] at there
      cases there
      refine ⟨slab.store data, slabs_setSlab_same j _, Nat.le_add_right _ _, fun k below => ?_, ?_⟩
      · exact BlobSlab.store_bytes_below below
      · show slab.count < slab.count + data.length ↔ _
        simp [length]
    · refine ⟨old, (slabs_setSlab_other here _).trans there, Nat.le_refl _, fun k _ => rfl, ?_⟩
      have other : ¬ i = j := fun same => here same.symm
      simp [other]

theorem Holds.since {blob : Blob} (holds : s.Holds blob) (since : Since s new t) :
    t.Holds blob where
  address := holds.address
  bytes := holds.bytes
  stored := by
    obtain ⟨old, there, within, same⟩ := holds.stored
    obtain ⟨slab, there', grown, kept, _⟩ := since.slabs _ old there
    refine ⟨slab, there', by omega, Eq.trans (List.map_congr_left fun k member => ?_) same⟩
    have below := List.mem_range.mp member
    exact kept _ (by omega)

theorem holds_store (sound : Sound t) (found : t.slabs i = some slab)
    (room : data.length ≤ BlobSlab.size - slab.count) (bytes : data ≠ []) :
    (t.setSlab i (slab.store data)).Holds (⟨i, slab.count % 65536⟩, data) := by
  have length := List.length_pos_of_ne_nil bytes
  -- There is room for a byte, so the offset fits in 16 bits.
  have offset : slab.count % 65536 = slab.count := by
    unfold BlobSlab.size at room
    omega
  refine ⟨⟨?_, sound.inRange i (by rw [found]; rfl)⟩,
    ⟨slab.store data, slabs_setSlab_same i _, ?_, ?_⟩, bytes⟩
  · -- The first byte of the first slab is never handed out.
    by_cases first : i = 0
    · have sentinel := sound.sentinel slab (first ▸ found)
      have set : slab.count ≠ 0 := by omega
      simp [SlabId.isSet, offset, set]
    · simp [SlabId.isSet, first]
  · show slab.count % 65536 + data.length ≤ slab.count + data.length
    omega
  · rw [offset]
    exact BlobSlab.store_bytes_data

theorem apart_store {blob : Blob} (found : t.slabs i = some slab)
    (room : data.length ≤ BlobSlab.size - slab.count) (bytes : data ≠ []) (holds : t.Holds blob) :
    Blob.Apart (⟨i, slab.count % 65536⟩, data) blob := by
  have length := List.length_pos_of_ne_nil bytes
  obtain ⟨other, there, within, _⟩ := holds.stored
  by_cases here : i = blob.1.first
  · rw [← here, found] at there
    cases there
    -- The blob ends where the slab's fill level was.
    refine Or.inr (Or.inr ?_)
    show blob.1.second + blob.2.length ≤ slab.count % 65536
    unfold BlobSlab.size at room
    omega
  · exact Or.inl here

theorem Allocated.recorded (blobs : List Blob) {result : Option SlabId × BlobAllocator}
    (allocated : Allocated s data result) (bytes : data ≠ []) :
    Sound result.2 ∧ result.2.checkpointWatermarks = s.checkpointWatermarks ∧
    ∃ new, BlobRun.record blobs data result.1 = new ++ blobs ∧ Since s new result.2 ∧
      (∀ blob ∈ new, result.2.Holds blob) ∧ new.Pairwise Blob.Apart ∧
      ∀ blob ∈ new, ∀ old, s.Holds old → Blob.Apart blob old := by
  cases allocated with
  | failed made sound id null =>
    refine ⟨sound, made.checkpoints, [], ?_, made.since, List.forall_mem_nil _,
      List.Pairwise.nil, List.forall_mem_nil _⟩
    cases id with
    | none => rfl
    | some si =>
      show (if si.isSet then _ else _) = _
      rw [null si rfl]
      rfl
  | @stored t i slab made sound found room =>
    have holds := holds_store sound found room bytes
    refine ⟨?_, made.checkpoints, [(⟨i, slab.count % 65536⟩, data)], ?_, ?_, ?_,
      List.pairwise_singleton _ _, ?_⟩
    · have inRange := sound.inRange i (by rw [found]; rfl)
      have fits := sound.within i slab found
      refine sound.setSlab inRange (fun j below => ?_) ?_ fun first => ?_
      · exact sound.contiguous j i below (by rw [found]; rfl)
      · show slab.count + data.length ≤ BlobSlab.size
        omega
      · have sentinel := sound.sentinel slab (first ▸ found)
        show 1 ≤ slab.count + data.length
        omega
    · show (if SlabId.isSet _ then _ else _) = _
      rw [holds.address.1]
      rfl
    · exact made.since.trans (since_store found _ bytes)
    · intro blob member
      cases List.mem_singleton.mp member
      exact holds
    · intro blob member old held
      cases List.mem_singleton.mp member
      exact apart_store found room bytes (held.since made.since)

theorem full_of_allocateFrom {create : Nat → Option (Nat → UInt8)} {id : SlabId} (bytes : data ≠ [])
    (null : id.isSet = false) :
    ∀ (left i : Nat) (s t : BlobAllocator), left + i = numSlabs → Sound s →
      (∀ j, j < i → (s.slabs j).isSome) → allocateFrom create data left i s = (some id, t) →
      ∀ j, i ≤ j → j < numSlabs → BlobSlab.size < s.fillLevel j + data.length := by
  intro left
  induction left with
  | zero =>
    intro i s t end_ _ _ _ j from_ below
    omega
  | succ left ih =>
    intro i s t end_ sound before result
    -- What the loop does with a slab that is there, or that has just been created.
    have visited : ∀ (r : BlobAllocator) (slab : BlobSlab), Sound r → r.slabs i = some slab →
        (∀ j, j < i → (r.slabs j).isSome) → allocateFrom create data (left + 1) i r = (some id, t) →
        ∀ j, i ≤ j → j < numSlabs → BlobSlab.size < r.fillLevel j + data.length := by
      intro r slab soundness found there visit j from_ below
      have level : r.fillLevel i = slab.count := by simp only [fillLevel, found]
      by_cases room : data.length ≤ BlobSlab.size - slab.count
      · rw [allocateFrom_room found room, Prod.mk.injEq, Option.some.injEq] at visit
        have set := (holds_store soundness found room bytes).address.1
        rw [visit.1, null] at set
        cases set
      · have full : BlobSlab.size - slab.count < data.length := Nat.lt_of_not_le room
        rw [allocateFrom_full found full] at visit
        rcases Nat.eq_or_lt_of_le from_ with here | later
        · subst here
          rw [level]
          omega
        · refine ih (i + 1) r t (by omega) soundness (fun k earlier => ?_) visit j later below
          rcases Nat.lt_succ_iff_lt_or_eq.mp earlier with less | same
          · exact there k less
          · rw [same, found]
            rfl
    cases found : s.slabs i with
    | some slab => exact visited s slab sound found before result
    | none =>
      cases made : create i with
      | none => simp only [allocateFrom, found, made, Prod.mk.injEq, reduceCtorEq, false_and] at result
      | some start =>
        rw [allocateFrom_create found made] at result
        have created : Created s (s.setSlab i (BlobSlab.created i start)) := by
          refine ⟨rfl, fun k => ?_⟩
          by_cases here : k = i
          · exact Or.inr ⟨here ▸ found, start, here ▸ slabs_setSlab_same _ _⟩
          · exact Or.inl (slabs_setSlab_other here _)
        have still : Sound (s.setSlab i (BlobSlab.created i start)) :=
          sound.setSlab (by omega) before (created_within i start) fun first => by
            rw [first]
            exact Nat.le_refl 1
        intro j from_ below
        rw [← created.fillLevel j]
        refine visited _ _ still (slabs_setSlab_same i _) (fun k earlier => ?_) result j from_ below
        rw [slabs_setSlab_other (Nat.ne_of_lt earlier)]
        exact before k earlier

theorem allocate_isSet_iff (sound : Sound s) {create : Nat → Option (Nat → UInt8)} {id : SlabId}
    (bytes : data ≠ []) (result : s.allocate create data = (some id, t)) :
    id.isSet = true ↔ ∃ i, i < numSlabs ∧ s.fillLevel i + data.length ≤ BlobSlab.size := by
  constructor
  · intro set
    have allocated := allocate_allocated sound create data
    rw [result] at allocated
    cases allocated with
    | failed made still id null =>
      rw [null _ rfl] at set
      cases set
    | @stored u i slab made still found room =>
      refine ⟨i, still.inRange i (by rw [found]; rfl), ?_⟩
      have within := still.within i slab found
      rw [← made.fillLevel i, fillLevel, found]
      show slab.count + data.length ≤ BlobSlab.size
      omega
  · rintro ⟨i, below, room⟩
    by_contra unset
    have null : id.isSet = false := Bool.eq_false_iff.mpr unset
    unfold allocate at result
    have length := List.length_pos_of_ne_nil bytes
    rw [if_neg (by omega)] at result
    have full := full_of_allocateFrom bytes null numSlabs 0 s t (Nat.add_zero _) sound
      (fun j before => absurd before (Nat.not_lt_zero j)) result i (Nat.zero_le i) below
    omega

end BlobAllocator

end AgentC

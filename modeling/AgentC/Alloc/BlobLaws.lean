import AgentC.Alloc.Blobs

/-! What the blob allocator's operations do to slabs and bytes. -/

namespace AgentC

namespace BlobSlab

variable {slab : BlobSlab} {data : List UInt8}

theorem store_bytes_below {k : Nat} (below : k < slab.count) :
    (slab.store data).bytes k = slab.bytes k :=
  if_neg fun within => absurd within.1 (by omega)

theorem store_bytes_data :
    (List.range data.length).map (fun k => (slab.store data).bytes (slab.count + k)) = data := by
  apply List.ext_getElem
  · simp
  · intro k left right
    have within : slab.count ≤ slab.count + k ∧ slab.count + k < slab.count + data.length :=
      ⟨by omega, by omega⟩
    rw [List.getElem_map, List.getElem_range]
    show (if _ then _ else _) = _
    rw [if_pos within, Nat.add_sub_cancel_left]
    simp [right]

end BlobSlab

namespace BlobAllocator

variable {s t : BlobAllocator} {data : List UInt8} {i : Nat} {slab : BlobSlab}

@[simp] theorem slabs_setSlab_same (index : Nat) (slab : BlobSlab) :
    (s.setSlab index slab).slabs index = some slab := by
  simp [setSlab]

@[simp] theorem slabs_setSlab_other {index other : Nat} (apart : other ≠ index) (slab : BlobSlab) :
    (s.setSlab index slab).slabs other = s.slabs other := by
  simp [setSlab, apart]

/-- Slabs are there from the first one on, filled within their size, with the null blob in place. -/
structure Sound (s : BlobAllocator) : Prop where
  contiguous : ∀ i j, i < j → (s.slabs j).isSome → (s.slabs i).isSome
  within : ∀ i slab, s.slabs i = some slab → slab.count ≤ BlobSlab.size
  sentinel : ∀ slab, s.slabs 0 = some slab → 1 ≤ slab.count
  inRange : ∀ i, (s.slabs i).isSome → i < numSlabs

theorem sound_initial : Sound initial :=
  ⟨fun _ _ _ => nofun, fun _ _ => nofun, fun _ => nofun, fun _ => nofun⟩

/-- The same allocator, with slabs that were created and nothing stored in them. -/
structure Created (s t : BlobAllocator) : Prop where
  checkpoints : t.checkpointWatermarks = s.checkpointWatermarks
  slabs : ∀ i, t.slabs i = s.slabs i ∨
    s.slabs i = none ∧ ∃ bytes, t.slabs i = some (BlobSlab.created i bytes)

theorem Created.refl (s : BlobAllocator) : Created s s :=
  ⟨rfl, fun _ => Or.inl rfl⟩

theorem Created.trans {u : BlobAllocator} (first : Created s t) (second : Created t u) :
    Created s u where
  checkpoints := second.checkpoints.trans first.checkpoints
  slabs := fun i => by
    rcases second.slabs i with same | ⟨missing, bytes, new⟩
    · rw [same]
      exact first.slabs i
    · rcases first.slabs i with same | ⟨_, _, there⟩
      · exact Or.inr ⟨same ▸ missing, bytes, new⟩
      · rw [missing] at there
        cases there

theorem Created.kept (made : Created s t) (found : s.slabs i = some slab) :
    t.slabs i = some slab := by
  rcases made.slabs i with same | ⟨missing, _⟩
  · rw [same, found]
  · rw [missing] at found
    cases found

theorem Created.fillLevel (made : Created s t) (i : Nat) : t.fillLevel i = s.fillLevel i := by
  unfold BlobAllocator.fillLevel
  rcases made.slabs i with same | ⟨missing, bytes, new⟩
  · rw [same]
  · rw [missing, new]
    rfl

theorem created_within (i : Nat) (bytes : Nat → UInt8) :
    (BlobSlab.created i bytes).count ≤ BlobSlab.size := by
  unfold BlobSlab.created BlobSlab.size
  dsimp only
  split <;> omega

theorem Sound.setSlab (sound : Sound s) (inRange : i < numSlabs)
    (before : ∀ j, j < i → (s.slabs j).isSome) (within : slab.count ≤ BlobSlab.size)
    (sentinel : i = 0 → 1 ≤ slab.count) : Sound (s.setSlab i slab) where
  contiguous := fun j k below there => by
    by_cases here : j = i
    · rw [here, slabs_setSlab_same]
      rfl
    · rw [slabs_setSlab_other here]
      by_cases top : k = i
      · exact before j (top ▸ below)
      · rw [slabs_setSlab_other top] at there
        exact sound.contiguous j k below there
  within := fun j other found => by
    by_cases here : j = i
    · rw [here, slabs_setSlab_same] at found
      cases found
      exact within
    · rw [slabs_setSlab_other here] at found
      exact sound.within j other found
  sentinel := fun other found => by
    by_cases here : 0 = i
    · rw [← here, slabs_setSlab_same] at found
      cases found
      exact sentinel here.symm
    · rw [slabs_setSlab_other here] at found
      exact sound.sentinel other found
  inRange := fun j there => by
    by_cases here : j = i
    · rw [here]
      exact inRange
    · rw [slabs_setSlab_other here] at there
      exact sound.inRange j there

/-- What an allocation does: it creates slabs, and stores the data in a slab with room or fails. -/
inductive Allocated (s : BlobAllocator) (data : List UInt8) :
    Option SlabId × BlobAllocator → Prop where
  | failed {t : BlobAllocator} (made : Created s t) (sound : Sound t) (id : Option SlabId)
      (null : ∀ si, id = some si → si.isSet = false) : Allocated s data (id, t)
  | stored {t : BlobAllocator} {i : Nat} {slab : BlobSlab} (made : Created s t) (sound : Sound t)
      (found : t.slabs i = some slab) (room : data.length ≤ BlobSlab.size - slab.count) :
      Allocated s data (some ⟨i, slab.count % 65536⟩, t.setSlab i (slab.store data))

variable {create : Nat → Option (Nat → UInt8)} {left : Nat} {bytes : Nat → UInt8}

theorem allocateFrom_room (found : s.slabs i = some slab)
    (room : data.length ≤ BlobSlab.size - slab.count) :
    allocateFrom create data (left + 1) i s =
      (some ⟨i, slab.count % 65536⟩, s.setSlab i (slab.store data)) := by
  simp only [allocateFrom, found, if_pos room]

theorem allocateFrom_full (found : s.slabs i = some slab)
    (full : BlobSlab.size - slab.count < data.length) :
    allocateFrom create data (left + 1) i s = allocateFrom create data left (i + 1) s := by
  simp only [allocateFrom, found, if_neg (Nat.not_le_of_lt full)]

theorem allocateFrom_create (missing : s.slabs i = none) (made : create i = some bytes) :
    allocateFrom create data (left + 1) i s =
      allocateFrom create data (left + 1) i (s.setSlab i (BlobSlab.created i bytes)) := by
  simp only [allocateFrom, missing, made, slabs_setSlab_same]

theorem allocateFrom_allocated (create : Nat → Option (Nat → UInt8)) (data : List UInt8) :
    ∀ (left i : Nat) (s : BlobAllocator), left + i = numSlabs → Sound s →
      (∀ j, j < i → (s.slabs j).isSome) → Allocated s data (allocateFrom create data left i s) := by
  -- The induction is on the slabs left, and each of them is stored in or passed by.
  intro left
  induction left with
  | zero =>
    intro i s _ sound _
    exact .failed (Created.refl s) sound _ fun si null => by
      cases null
      rfl
  | succ left ih =>
    intro i s total sound before
    have visit : ∀ (slab : BlobSlab) (t : BlobAllocator), Created s t → Sound t →
        t.slabs i = some slab → (∀ j, j < i → (t.slabs j).isSome) →
        Allocated s data (if data.length ≤ BlobSlab.size - slab.count then
            (some ⟨i, slab.count % 65536⟩, t.setSlab i (slab.store data))
          else allocateFrom create data left (i + 1) t) := by
      intro slab t made sound found before
      split
      · next room => exact .stored made sound found room
      · have passed : ∀ j, j < i + 1 → (t.slabs j).isSome := by
          intro j below
          by_cases here : j = i
          · rw [here, found]
            rfl
          · exact before j (by omega)
        generalize result : allocateFrom create data left (i + 1) t = found
        have rest := ih (i + 1) t (by omega) sound passed
        rw [result] at rest
        cases rest with
        | failed more soundMore id null => exact .failed (made.trans more) soundMore id null
        | stored more soundMore there room => exact .stored (made.trans more) soundMore there room
    rw [allocateFrom]
    cases found : s.slabs i with
    | some slab => exact visit slab s (Created.refl s) sound found before
    | none =>
      cases new : create i with
      | none =>
        exact .failed (Created.refl s) sound none fun si some => by cases some
      | some bytes =>
        refine visit _ _ ⟨rfl, fun j => ?_⟩ ?_ (slabs_setSlab_same i _) fun j below => ?_
        · by_cases here : j = i
          · exact Or.inr ⟨here ▸ found, bytes, by rw [here, slabs_setSlab_same]⟩
          · exact Or.inl (slabs_setSlab_other here _)
        · refine sound.setSlab (by omega) before (created_within i bytes) fun first => ?_
          simp [BlobSlab.created, first]
        · rw [slabs_setSlab_other (by omega)]
          exact before j below

theorem allocate_allocated (sound : Sound s) (create : Nat → Option (Nat → UInt8))
    (data : List UInt8) : Allocated s data (s.allocate create data) := by
  unfold allocate
  split
  · exact .failed (Created.refl s) sound _ fun si null => by
      cases null
      rfl
  · exact allocateFrom_allocated create data numSlabs 0 s (Nat.add_zero _) sound
      fun j below => absurd below (Nat.not_lt_zero j)

theorem allocate_nil (create : Nat → Option (Nat → UInt8)) :
    s.allocate create [] = (some ⟨0, 0⟩, s) := if_pos (Or.inl rfl)

theorem currentWatermark_cases (sound : Sound s) :
    ((∀ i, s.slabs i = none) ∧ s.currentWatermark = ⟨0, 0⟩) ∨
    ∃ i slab, s.slabs i = some slab ∧ (∀ j, i < j → s.slabs j = none) ∧
      s.currentWatermark = ⟨i, slab.count % 65536⟩ := by
  unfold currentWatermark
  cases found : lastBelow (fun i => (s.slabs i).isSome) numSlabs with
  | none =>
    refine Or.inl ⟨fun i => ?_, rfl⟩
    -- Slabs exist below the bound only, and none was found there.
    by_contra there
    have some := Option.isSome_iff_ne_none.mpr there
    have none := lastBelow_eq_none found i (sound.inRange i some)
    rw [some] at none
    cases none
  | some i =>
    obtain ⟨-, there, above⟩ := lastBelow_eq_some found
    obtain ⟨slab, same⟩ := Option.isSome_iff_exists.mp there
    refine Or.inr ⟨i, slab, same, fun j after => ?_, ?_⟩
    swap
    · show (⟨i, ((s.slabs i).map BlobSlab.count).getD 0 % 65536⟩ : SlabId) = _
      rw [same]
      rfl
    by_contra there'
    have some := Option.isSome_iff_ne_none.mpr there'
    have none := above j after (sound.inRange j some)
    rw [some] at none
    cases none

theorem currentWatermark_last (inRange : i < numSlabs) (found : s.slabs i = some slab)
    (above : ∀ j, i < j → s.slabs j = none) : s.currentWatermark = ⟨i, slab.count % 65536⟩ := by
  unfold currentWatermark
  cases result : lastBelow (fun i => (s.slabs i).isSome) numSlabs with
  | none =>
    have none := lastBelow_eq_none result i inRange
    rw [found] at none
    cases none
  | some last =>
    obtain ⟨-, there, after⟩ := lastBelow_eq_some result
    have same : last = i := by
      rcases Nat.lt_trichotomy last i with before | same | behind
      · have none := after i before inRange
        rw [found] at none
        cases none
      · exact same
      · rw [above last behind] at there
        cases there
    subst same
    show (⟨last, ((s.slabs last).map BlobSlab.count).getD 0 % 65536⟩ : SlabId) = _
    rw [found]
    rfl

theorem allocate_loop (s : BlobAllocator) (create : Nat → Option (Nat → UInt8))
    (bytes : 0 < data.length) (small : data.length ≤ 65536) :
    s.allocate create data = allocateFrom create data (4094 + 1 + 1) 0 s := by
  have slabs : numSlabs = 4094 + 1 + 1 := by unfold numSlabs; rfl
  unfold allocate BlobSlab.size
  rw [if_neg (by omega), slabs]

theorem allocate_first (missing : s.slabs 0 = none) (made : create 0 = some bytes)
    (some' : 0 < data.length) (small : data.length ≤ 65535) :
    s.allocate create data =
      (some ⟨0, 1⟩, s.setSlab 0 ((BlobSlab.created 0 bytes).store data)) := by
  rw [allocate_loop s create some' (by omega), allocateFrom_create missing made,
    allocateFrom_room (slabs_setSlab_same 0 _)]
  · have offset : (BlobSlab.created 0 bytes).count = 1 := rfl
    rw [offset]
    simp [setSlab]
  · show data.length ≤ BlobSlab.size - 1
    unfold BlobSlab.size
    exact small

theorem allocate_room (found : s.slabs 0 = some slab) (some' : 0 < data.length)
    (room : data.length ≤ 65536 - slab.count) :
    s.allocate create data = (some ⟨0, slab.count % 65536⟩, s.setSlab 0 (slab.store data)) := by
  rw [allocate_loop s create some' (by omega), allocateFrom_room found]
  unfold BlobSlab.size
  exact room

theorem allocate_second (found : s.slabs 0 = some slab) (full : 65536 - slab.count < data.length)
    (missing : s.slabs 1 = none) (made : create 1 = some bytes) (small : data.length ≤ 65536) :
    s.allocate create data =
      (some ⟨1, 0⟩, s.setSlab 1 ((BlobSlab.created 1 bytes).store data)) := by
  rw [allocate_loop s create (by omega) small, allocateFrom_full found,
    allocateFrom_create missing made, allocateFrom_room (slabs_setSlab_same 1 _)]
  · simp [setSlab, BlobSlab.created]
  · show data.length ≤ BlobSlab.size - 0
    unfold BlobSlab.size
    exact small
  · unfold BlobSlab.size
    exact full

end BlobAllocator

end AgentC

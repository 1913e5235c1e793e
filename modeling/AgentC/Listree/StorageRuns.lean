import AgentC.Alloc.Ownership
import AgentC.Alloc.ScopeLaws
import AgentC.Listree.StorageLaws

/-! What a value stores, it returns for as long as it lives. -/

namespace AgentC

namespace Allocator

universe u

variable {T : Type u} {s : Allocator T} {si other : SlabId}

theorem getPtr_tryRetain (valid : s.valid si = true)
    (still : (s.tryRetain other).2.valid si = true) :
    (s.tryRetain other).2.getPtr si = s.getPtr si := by
  rcases tryRetain_cases s other with same | ⟨slab, addressed, -, -, -, result⟩
  · rw [same]
  · rw [result] at still ⊢
    exact getPtr_setSlab (slabOf_eq_some.mp addressed).2 (valid_iff.mp valid).2
      (valid_iff.mp still).2 rfl

theorem getPtr_deallocate (cover : s.CountsCover) (valid : s.valid si = true)
    (still : (s.deallocate other).2.valid si = true) :
    (s.deallocate other).2.getPtr si = s.getPtr si := by
  by_cases same : si = other
  · subst same
    rcases deallocate_cases s si with ⟨unchanged, -⟩ | ⟨slab, addressed, -, -, -, -, result⟩ |
      ⟨slab, freed⟩
    · rw [unchanged]
    · rw [result] at still ⊢
      exact getPtr_setSlab (slabOf_eq_some.mp addressed).2 (valid_iff.mp valid).2
        (valid_iff.mp still).2 rfl
    · -- The last reference is gone, so the slot is not held afterwards.
      exact absurd freed.refs_eq_zero (valid_iff.mp still).2
  · exact getPtr_of_held (deallocate_framed cover same valid)

/-- Writing a payload into a held slot changes that payload only, and nothing that is counted. -/
theorem placeItem_spec (item : T) (valid : s.valid other = true) (plain : s.Plain) :
    (s.placeItem other item).Plain ∧ (∀ k, (s.placeItem other item).refs k = s.refs k) ∧
      (s.placeItem other item).getPtr other = some item ∧
      ∀ k, k ≠ other → (s.placeItem other item).getPtr k = s.getPtr k := by
  obtain ⟨slab, addressed, held⟩ := slab_of_refs (valid_iff.mp valid).2
  obtain ⟨inside, stored⟩ := slabOf_eq_some.mp addressed
  have placed : s.placeItem other item = s.setSlab other.first (slab.setItem other.second item) := by
    simp only [Allocator.placeItem, stored]
  have refs : ∀ k, (s.placeItem other item).refs k = s.refs k := by
    intro k
    rw [placed]
    exact refs_setSlab stored fun _ => rfl
  refine ⟨⟨?_, ?_, plain.exact_.placeItem other item, fun k => ?_, ?_⟩, refs, ?_,
    fun k different => ?_⟩
  · rw [placed]
    exact plain.outside
  · rw [placed]
    exact plain.settled
  · have flag : (slab.setItem other.second item).staticImmortal = slab.staticImmortal := rfl
    rw [placed]
    exact (slotIsStaticImmortal_setSlab stored flag k).trans (plain.mortal k)
  · rw [refs]
    exact plain.null
  · have still : (s.placeItem other item).valid other = true := by
      simpa only [Allocator.valid, refs] using valid
    rw [getPtr, if_pos still, placed, slabOf_setSlab, if_pos ⟨inside, rfl⟩]
    exact congrArg some (if_pos rfl)
  · refine getPtr_of_held ?_
    rw [placed]
    exact held_setSlab stored fun at_ => ⟨rfl, by
      simp [Slab.setItem, SlabId.second_ne different at_]⟩

theorem Plain.allocRaw_error [Inhabited T] {r : Allocator T} (plain : s.Plain)
    {create : Nat → Bool} {e : AllocError} (failed : s.allocRaw create = (.error e, r)) :
    r.Plain ∧ ∀ k, r.getPtr k = s.getPtr k := by
  have cover := CountsTally.covers Tally.exact_ plain.exact_
  have allocated : s.allocate create default = (.error e, r) := by
    simp only [Allocator.allocate, failed]
  constructor
  · obtain ⟨e', r', result, kept, -⟩ | ⟨si', r', took, -⟩ := plain.allocate create default
    · rw [allocated] at result
      cases result
      exact kept
    · rw [allocated] at took
      cases took
  · obtain ⟨e', r', result, grown⟩ | ⟨si', slab, mid, result, -⟩ :=
      allocRaw_cases plain.settled cover create
    · rw [failed] at result
      cases result
      exact fun k => getPtr_of_held (grown.held k)
    · rw [failed] at result
      cases result

end Allocator

namespace Storage

namespace ValueHeap

variable {h next : ValueHeap} {si : SlabId} {data : List UInt8}

/-- A heap whose values are counted as they should be, over blobs that are where they should be. -/
structure Sound (h : ValueHeap) : Prop where
  plain : h.values.Plain
  blobs : BlobAllocator.Sound h.blobs

/-- A heap that a call leaves behind: blobs were only added, and what still lives is as it was. -/
structure Follows (h next : ValueHeap) : Prop where
  sound : next.Sound
  blobs : ∃ new, BlobAllocator.Since h.blobs new next.blobs
  values : ∀ si value, h.Live si → next.Live si → h.values.getPtr si = some value →
    ∃ other, next.values.getPtr si = some other ∧ other.flags = value.flags ∧
      other.payload = value.payload

theorem Follows.of_values {values : Allocator ListreeValue} (sound : h.Sound) (plain : values.Plain)
    (same : ∀ si, h.values.valid si = true → values.valid si = true →
      values.getPtr si = h.values.getPtr si) : Follows h { h with values := values } where
  sound := ⟨plain, sound.blobs⟩
  blobs := ⟨[], (BlobAllocator.Created.refl _).since⟩
  values := fun si value live still found =>
    ⟨value, (same si live still).trans found, rfl, rfl⟩

theorem create_follows (sound : h.Sound) {env : Environment} {creation : Creation}
    {held : Option SlabId} (made : h.create env creation = (held, next)) :
    Follows h next ∧ ∀ si, held = some si → next.Live si ∧ ∃ value,
      creation.construct env.old env.blob h.blobs = (some value, next.blobs) ∧
        next.values.getPtr si = some value := by
  have cover := Allocator.CountsTally.covers Tally.exact_ sound.plain.exact_
  unfold create at made
  cases raw : h.values.allocRaw env.slab with
  | mk result values =>
    rw [raw] at made
    cases result with
    | error e =>
      cases made
      obtain ⟨plain, same⟩ := sound.plain.allocRaw_error raw
      exact ⟨.of_values sound plain fun si _ _ => same si, nofun⟩
    | ok si =>
      obtain ⟨plain, free, change⟩ := sound.plain.allocRaw raw
      have fresh := Allocator.allocRaw_fresh sound.plain.settled cover
        (fun other _ => sound.plain.mortal other) sound.plain.nextSlot_ne_null raw
      -- A slot that was held before is another one than the new one.
      have apart : ∀ k, h.values.valid k = true → k ≠ si ∧ values.getPtr k = h.values.getPtr k :=
        fun k live => by
          refine ⟨fun here => ?_, Allocator.getPtr_of_held (fresh.others k live)⟩
          rw [here, fresh.unused] at live
          cases live
      cases constructed : creation.construct env.old env.blob h.blobs with
      | mk result blobs =>
        obtain ⟨still, new, since⟩ := Creation.since_construct sound.blobs constructed
        rw [constructed] at made
        cases result with
        | none =>
          cases made
          refine ⟨⟨⟨plain, still⟩, ⟨new, since⟩, fun k value live _ found => ?_⟩, nofun⟩
          exact ⟨value, (apart k live).2.trans found, rfl, rfl⟩
        | some value =>
          obtain ⟨placed, refs, own, others⟩ :=
            Allocator.placeItem_spec value fresh.valid plain
          have valid : (values.placeItem si value).valid si = true := by
            simpa only [Allocator.valid, refs] using fresh.valid
          have one : ((values.placeItem si value).refs si).toNat + 1 < 2 ^ 64 := by
            rw [refs, change.own]
            decide
          obtain ⟨retained, count⟩ := placed.tryRetain valid one
          have taken : (values.placeItem si value).tryRetain si =
              (true, ((values.placeItem si value).tryRetain si).2) :=
            Prod.ext ((Allocator.tryRetain_fst _ si).trans valid) rfl
          have live : ((values.placeItem si value).tryRetain si).2.valid si = true := by
            refine Allocator.valid_iff.mpr ⟨(Allocator.valid_iff.mp valid).1, ?_⟩
            rw [count.own, refs, change.own]
            decide
          simp only [CPtr.fromSlabId] at made
          rw [taken] at made
          cases made
          have kept : ∀ k, (values.placeItem si value).valid k = true →
              ((values.placeItem si value).tryRetain si).2.valid k = true →
              ((values.placeItem si value).tryRetain si).2.getPtr k =
                (values.placeItem si value).getPtr k := fun k before after =>
            Allocator.getPtr_tryRetain before after
          refine ⟨⟨⟨retained, still⟩, ⟨new, since⟩, fun k other before after found => ?_⟩, ?_⟩
          · obtain ⟨different, same⟩ := apart k before
            have there : (values.placeItem si value).valid k = true := by
              rw [Allocator.valid, refs, ← Allocator.valid, ← Allocator.held_isSome,
                fresh.others k before, Allocator.held_isSome]
              exact before
            refine ⟨other, ?_, rfl, rfl⟩
            rw [kept k there after, others k different, same, found]
          · rintro k ⟨⟩
            exact ⟨live, value, rfl, (kept si valid live).trans own⟩

theorem repin_follows (sound : h.Sound) {change : Int32 → Int32}
    (stepped : h.repin si change = some next) : Follows h next := by
  obtain ⟨value, found, rfl⟩ := Option.map_eq_some_iff.mp stepped
  have valid : h.values.valid si = true := by
    by_contra free
    rw [Allocator.getPtr, if_neg free] at found
    cases found
  rw [sound.plain.mortal si]
  obtain ⟨plain, -, own, others⟩ :=
    Allocator.placeItem_spec { value with pinnedCount := change value.pinnedCount }
      valid sound.plain
  refine ⟨⟨plain, sound.blobs⟩, ⟨[], (BlobAllocator.Created.refl _).since⟩, ?_⟩
  intro k other live still there
  by_cases here : k = si
  · subst here
    obtain rfl : value = other := Option.some.inj (found.symm.trans there)
    exact ⟨_, own, rfl, rfl⟩
  · exact ⟨other, (others k here).trans there, rfl, rfl⟩

theorem step_follows (sound : h.Sound) {call : HeapCall} (stepped : h.step call = some next) :
    Follows h next := by
  cases call with
  | create env creation =>
    cases stepped
    exact (create_follows sound rfl).1
  | retain si =>
    simp only [step] at stepped
    split at stepped
    · next room =>
      cases stepped
      have result : (CPtr.fromSlabId h.values si).2 = (h.values.tryRetain si).2 := by
        unfold CPtr.fromSlabId
        split <;> next taken => rw [taken]
      rw [result]
      refine .of_values sound ?_ fun k live still => Allocator.getPtr_tryRetain live still
      cases valid : h.values.valid si with
      | true => exact (sound.plain.tryRetain valid room).1
      | false =>
        rw [Allocator.tryRetain_invalid valid]
        exact sound.plain
    · cases stepped
  | release si =>
    cases stepped
    unfold CPtr.destroy
    split
    · next valid =>
      have cover := Allocator.CountsTally.covers Tally.exact_ sound.plain.exact_
      exact .of_values sound (sound.plain.deallocate valid).1 fun k live still =>
        Allocator.getPtr_deallocate cover live still
    · exact .of_values sound sound.plain fun _ _ _ => rfl
  | pin si | unpin si =>
    rw [step] at stepped
    exact repin_follows sound stepped

theorem initial_sound : initial.Sound where
  plain := Allocator.initial_plain
  blobs := BlobAllocator.sound_initial

theorem sound_of_run {calls : List HeapCall} (ran : runFrom step initial calls = some h) :
    h.Sound := by
  have meets : StepsMeet step (fun _ _ => True) initial calls :=
    stepsMeet_of_forall _ _ fun _ _ _ => trivial
  exact (throughout_of_stepsMeet (fun _ _ _ sound _ stepped => (step_follows sound stepped).sound)
    _ _ initial_sound meets).last _ _ _ ran

theorem stores_of_run : ∀ (calls : List HeapCall) (h : ValueHeap), h.Sound →
    (∃ value, h.values.getPtr si = some value ∧ value.Stores h.blobs data) →
    Throughout step (Live si) h calls → ∀ last, runFrom step h calls = some last →
      ∃ value, last.values.getPtr si = some value ∧ value.Stores last.blobs data := by
  intro calls
  induction calls with
  | nil =>
    intro h _ stores _ last ran
    cases ran
    exact stores
  | cons call rest ih =>
    intro h sound stores lives last ran
    cases stepped : h.step call with
    | none => simp [runFrom, stepped] at ran
    | some next =>
      rw [runFrom_cons stepped] at ran
      have later := lives.2 next stepped
      obtain ⟨still, ⟨new, since⟩, kept⟩ := step_follows sound stepped
      obtain ⟨value, found, stored⟩ := stores
      obtain ⟨other, there, flags, payload⟩ := kept si value lives.1 later.first found
      exact ih next still ⟨other, there, (stored.congr flags payload).since since⟩ later last ran

end ValueHeap

/--
A value that is created in any state a program can reach returns its bytes, and their number, in
every later state up to which it lives, exactly when its bytes fit somewhere as it is created.
-/
theorem stored_for_life_iff {before : List HeapCall} {h next : ValueHeap} {env : Environment}
    {creation : Creation} {si : SlabId} {data : List UInt8}
    (ran : runFrom ValueHeap.step ValueHeap.initial before = some h)
    (bytes : creation.bytes = some data) (made : h.create env creation = (some si, next)) :
    (∀ calls last, runFrom ValueHeap.step next calls = some last →
      Throughout ValueHeap.step (ValueHeap.Live si) next calls → last.Returns si data) ↔
    creation.Fits h.blobs := by
  have sound := ValueHeap.sound_of_run ran
  obtain ⟨follows, holds⟩ := ValueHeap.create_follows sound made
  obtain ⟨live, value, constructed, found⟩ := holds si rfl
  obtain ⟨stores, lost⟩ := Creation.construct_spec sound.blobs bytes constructed
  constructor
  · -- The first of the later states is the one that the creation leaves behind.
    intro always
    by_contra unfit
    obtain ⟨other, there, returns⟩ := always [] next rfl live
    obtain rfl : value = other := Option.some.inj (found.symm.trans there)
    exact lost unfit returns
  · intro fits calls last ran lives
    obtain ⟨other, there, stored⟩ :=
      ValueHeap.stores_of_run calls next follows.sound ⟨value, found, stores fits⟩ lives last ran
    exact ⟨other, there, stored.returns⟩

def plenty : Environment where
  slab := fun _ => true
  blob := fun _ => some fun _ => 0
  old := ⟨List.replicate 16 0, by decide⟩

/-- Twenty bytes that fit into the first blob slab. -/
theorem stored_for_life_iff_twenty :
    (∀ calls last,
      runFrom ValueHeap.step
          (ValueHeap.initial.create plenty (.createBinaryValue 1 (List.replicate 20 7))).2 calls =
        some last →
      Throughout ValueHeap.step (ValueHeap.Live ⟨0, 1⟩)
          (ValueHeap.initial.create plenty (.createBinaryValue 1 (List.replicate 20 7))).2 calls →
      last.Returns ⟨0, 1⟩ (List.replicate 20 7)) ↔
    (Creation.createBinaryValue 1 (List.replicate 20 7)).Fits BlobAllocator.initial :=
  @stored_for_life_iff [] _ _ _ _ _ _ rfl rfl (Prod.ext (by decide +kernel) rfl)

/-- A value of 65537 bytes has its length and no bytes as soon as it is created. -/
theorem stored_for_life_fails :
    ¬ ∀ (before : List HeapCall) (h next : ValueHeap) (env : Environment) (creation : Creation)
      (si : SlabId) (data : List UInt8),
      runFrom ValueHeap.step ValueHeap.initial before = some h → creation.bytes = some data →
      h.create env creation = (some si, next) →
      ∀ calls last, runFrom ValueHeap.step next calls = some last →
        Throughout ValueHeap.step (ValueHeap.Live si) next calls → last.Returns si data := by
  intro always
  have long : (List.replicate 65537 (7 : UInt8)).length = 65537 := List.length_replicate
  -- The blob allocator refuses without a look at its slabs.
  have refused : BlobAllocator.initial.allocate plenty.blob (List.replicate 65537 7) =
      (some ⟨0, 0⟩, BlobAllocator.initial) := by
    unfold BlobAllocator.allocate BlobSlab.size
    rw [if_pos (Or.inr (by omega))]
  have constructed : (Creation.createBinaryValue 1 (List.replicate 65537 7)).construct plenty.old
      plenty.blob BlobAllocator.initial = (some (.ofBlob ⟨0, 0⟩ 65537
        { duplicate := true, own := true, binary := true }), BlobAllocator.initial) := by
    simp only [Creation.construct, ListreeValue.ofBuffer]
    rw [dif_neg (by omega), if_pos (by omega), if_pos (by decide), ListreeValue.overBlob, refused,
      long]
  have reserved : ((Allocator.initial : Allocator ListreeValue).allocRaw plenty.slab).1 =
      .ok ⟨0, 1⟩ := by decide +kernel
  obtain ⟨si, next, made⟩ : ∃ si next, ValueHeap.initial.create plenty
      (.createBinaryValue 1 (List.replicate 65537 7)) = (some si, next) := by
    have raw : (Allocator.initial : Allocator ListreeValue).allocRaw plenty.slab =
        (.ok ⟨0, 1⟩, ((Allocator.initial : Allocator ListreeValue).allocRaw plenty.slab).2) :=
      Prod.ext reserved rfl
    simp only [ValueHeap.create, ValueHeap.initial]
    rw [raw, constructed]
    exact ⟨_, _, rfl⟩
  obtain ⟨-, holds⟩ := ValueHeap.create_follows ValueHeap.initial_sound made
  obtain ⟨live, value, found, there⟩ := holds si rfl
  obtain ⟨other, same, returns⟩ :=
    always [] _ next plenty _ si _ rfl rfl made [] next rfl live
  obtain rfl : value = other := Option.some.inj (there.symm.trans same)
  refine (Creation.construct_spec ValueHeap.initial_sound.blobs rfl found).2 (fun fits => ?_) returns
  -- The bytes are neither short enough for the value itself nor for a slab.
  obtain short | ⟨-, i, -, room⟩ := fits _ rfl
  · omega
  · unfold BlobSlab.size at room
    omega

end Storage

end AgentC

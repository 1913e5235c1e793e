import AgentC.Alloc.Ownership

/-! The backing files of slabs, and how long an allocator that needs them keeps serving allocations. -/

namespace AgentC

universe u

/-- An allocator whose slabs are backed by files, with the slabs of which there is a file. -/
structure FiledArena (T : Type u) where
  allocator : Allocator T
  files : Nat → Bool

inductive FiledCall (T : Type u) where
  | allocRaw
  | allocate (item : T)
  | deallocate (si : SlabId)

namespace FiledArena

variable {T : Type u} [Inhabited T]

def start : FiledArena T where
  allocator := Allocator.initial.configureMmapFileBackedSlabs
  files := fun _ => false

section Calls

variable (arena : FiledArena T)

/-- A file is opened with `O_CREAT | O_EXCL`, so there must be none. -/
def create (index : Nat) : Bool :=
  !arena.files index

/-- A slab that was made has its file, and a slab that was deleted leaves it in the directory. -/
def behind (allocator : Allocator T) : FiledArena T where
  allocator := allocator
  files := fun index =>
    arena.files index || (arena.allocator.slabs index).isNone && (allocator.slabs index).isSome

def step : FiledCall T → Option (FiledArena T)
  | .allocRaw => some (arena.behind (arena.allocator.allocRaw arena.create).2)
  | .allocate item => some (arena.behind (arena.allocator.allocate arena.create item).2)
  | .deallocate si => some (arena.behind (arena.allocator.deallocate si).2)

/-- An allocation fails only when every slot is in use, and a slab that is not there can be made. -/
structure Serves : Prop where
  fails : ∀ e r, arena.allocator.allocRaw arena.create = (.error e, r) →
    ∀ si : SlabId, si.InRange → arena.allocator.refs si ≠ 0
  again : ∀ index < numSlabs, arena.allocator.slabs index = none →
    (arena.allocator.createOwnedSlab arena.create index).isSome = true

def Empties (si : SlabId) : Prop :=
  si ≠ ⟨0, 0⟩ ∧ ∃ slab, arena.allocator.slabOf si = some slab ∧ slab.inUse si.second = 1 ∧ slab.liveSlots = 1

def KeepsSlabs : FiledCall T → Prop
  | .deallocate si => ¬arena.Empties si
  | _ => True

/-- What holds of an allocator as long as no slab was emptied: only slab zero is without a file. -/
structure Filed : Prop where
  plain : arena.allocator.Plain
  policy : arena.allocator.backingPolicy = .mmapFile
  filed : ∀ index, index ≠ 0 → (arena.allocator.slabs index).isSome = true → arena.files index = true
  there : ∀ index, arena.files index = true → (arena.allocator.slabs index).isSome = true

end Calls

end FiledArena

namespace Allocator

variable {T : Type u} [Inhabited T] {s r : Allocator T} {create : Nat → Bool}

omit [Inhabited T] in
theorem isSome_markAllocated (si : SlabId) (index : Nat) :
    ((s.markAllocated si).slabs index).isSome = (s.slabs index).isSome := by
  by_cases at_ : index = si.first
  · subst at_
    have referenced (t : Allocator T) :
        ((t.modrefs si 1).slabs si.first).isSome = (t.slabs si.first).isSome := by
      rcases modrefs_cases t si 1 with ⟨same, -⟩ | ⟨slab, addressed, -, result⟩
      · rw [same]
      · rw [result, setSlab_same, (slabOf_eq_some.mp addressed).2]
        rfl
    unfold markAllocated
    dsimp only
    split
    · next slab stored =>
      have counted : ((s.setSlab si.first { slab with count := slab.count + 1 }).slabs si.first).isSome =
          (s.slabs si.first).isSome := by
        rw [setSlab_same, stored]
        rfl
      split <;> exact (referenced _).trans counted
    · split <;> exact referenced s
  · rw [markAllocated_slabs_other s at_]

theorem isSome_allocRaw {index : Nat} (there : (s.slabs index).isSome = true) :
    ((s.allocRaw create).2.slabs index).isSome = true := by
  obtain ⟨mid, grown, outcome⟩ := allocRaw_grown s create
  have kept : (mid.slabs index).isSome = true := by
    rcases grown.slabs index with same | ⟨absent, -⟩
    · rw [same, there]
    · rw [absent] at there
      cases there
  rcases outcome with same | ⟨si, marked⟩
  · rw [same, kept]
  · rw [marked, isSome_markAllocated, kept]

omit [Inhabited T] in
theorem isSome_placeItem (si : SlabId) (item : T) (index : Nat) :
    ((s.placeItem si item).slabs index).isSome = (s.slabs index).isSome := by
  unfold placeItem
  split
  · next slab stored =>
    by_cases at_ : index = si.first
    · rw [at_, setSlab_same, stored]
      rfl
    · rw [setSlab_other _ _ _ at_]
  · rfl

theorem isSome_allocate (item : T) (index : Nat) :
    ((s.allocate create item).2.slabs index).isSome = ((s.allocRaw create).2.slabs index).isSome := by
  unfold allocate
  split
  · next si r result => rw [result, isSome_placeItem]
  · next e r result => rw [result]

theorem backingPolicy_allocRaw : (s.allocRaw create).2.backingPolicy = s.backingPolicy := by
  obtain ⟨mid, grown, outcome⟩ := allocRaw_grown s create
  have same : mid.backingPolicy = s.backingPolicy := by rw [grown.rest]
  rcases outcome with result | ⟨si, result⟩
  · rw [result, same]
  · rw [result, (markAllocated_rest mid si).1]
    exact same

omit [Inhabited T] in
theorem backingPolicy_deallocate (si : SlabId) :
    (s.deallocate si).2.backingPolicy = s.backingPolicy := by
  have dropped : (s.modrefs si (-1)).backingPolicy = s.backingPolicy := by
    rw [modrefs_sameButSlabs s si (-1)]
  have freed : ∀ t : Allocator T, (t.freeSlot si).2.backingPolicy = t.backingPolicy := by
    intro t
    have reserved : (if t.checkpoints.isEmpty then t
        else (t.protectSlot si).invalidateCheckpointFastPath).backingPolicy = t.backingPolicy := by
      split <;> rfl
    unfold freeSlot
    dsimp only
    split
    · exact reserved
    · split <;> exact reserved
  unfold deallocate
  split
  · rfl
  split
  · dsimp only
    split
    · rw [freed, dropped]
    · exact dropped
  · rfl

theorem searchSlot_error (unreserved : s.rollbackProtectedFreeSlots = ∅)
    (exact_ : s.CountsExact)
    (again : ∀ index < numSlabs, s.slabs index = none → (s.createOwnedSlab create index).isSome = true)
    {e : AllocError} (indices : List Nat) : (∀ index ∈ indices, index < numSlabs) → ∀ offset,
      s.searchSlot create indices offset = (.error e, r) →
      ∀ si : SlabId, si.InRange → si.first ∈ indices → s.refs si ≠ 0 := by
  induction indices with
  | nil => exact fun _ _ _ si _ member => absurd member List.not_mem_nil
  | cons index rest ih =>
    intro bounds offset failed si inside member
    obtain ⟨bound, later⟩ := List.forall_mem_cons.mp bounds
    cases stored : s.slabs index with
    | none =>
      -- The slab is made, and its first slot is taken.
      obtain ⟨slab, made⟩ := Option.isSome_iff_exists.mp (again index bound stored)
      simp [searchSlot, stored, made] at failed
    | some slab =>
      have addressed : si.first = index → s.slabOf si = some slab :=
        fun at_ => slabOf_eq_some.mpr ⟨inside, at_ ▸ stored⟩
      have passed : (si.first = index → s.refs si ≠ 0) → (∃ offset,
          s.searchSlot create rest offset = (.error e, r)) → s.refs si ≠ 0 := by
        rintro here ⟨offset, failed⟩
        rcases List.mem_cons.mp member with at_ | behind
        · exact here at_
        · exact ih later offset failed si inside behind
      simp only [searchSlot, stored] at failed
      split at failed
      · cases scanned : (List.range slabSize).find? fun k => s.available ⟨index, k⟩ with
        | some k => simp [scanned] at failed
        | none =>
          refine passed (fun at_ free => ?_) ⟨_, by simpa only [scanned] using failed⟩
          have taken := List.find?_range_eq_none.mp scanned si.second inside.2
          have same : (⟨index, si.second⟩ : SlabId) = si := by rw [← at_]
          rw [same] at taken
          simp [available, free, unreserved] at taken
      · next full =>
        refine passed (fun at_ free => ?_) ⟨_, failed⟩
        -- A slab that counts as many slots as it has holds all of them.
        have empty : slab.inUse si.second = 0 := by rw [← refs_of_slab (addressed at_), free]
        have short := Slab.liveSlots_lt_of_free inside.2 empty
        have counted : slab.liveSlots = slab.count.toNat := exact_ index slab stored
        exact full (count_lt_slabSize.mpr (counted ▸ short))

theorem Plain.allocRaw_full (plain : s.Plain)
    (again : ∀ index < numSlabs, s.slabs index = none → (s.createOwnedSlab create index).isSome = true)
    {e : AllocError} (failed : s.allocRaw create = (.error e, r)) {si : SlabId} (inside : si.InRange) :
    s.refs si ≠ 0 := by
  rcases searched : s.searchSlot create (List.range numSlabs) 0 with ⟨result, mid⟩
  simp only [Allocator.allocRaw, plain.outside, List.isEmpty_nil, if_true, searched] at failed
  cases result with
  | ok si => simp at failed
  | error e =>
    exact searchSlot_error (plain.settled plain.outside).1 plain.exact_ again
      (List.range numSlabs) (fun index => List.mem_range.mp) 0 searched si inside
      (List.mem_range.mpr inside.1)

end Allocator

namespace FiledArena

variable {T : Type u} [Inhabited T] {arena next : FiledArena T} {call : FiledCall T} {si : SlabId}

omit [Inhabited T] in
theorem Filed.behind (filed : arena.Filed) {allocator : Allocator T} (plain : allocator.Plain)
    (policy : allocator.backingPolicy = arena.allocator.backingPolicy)
    (kept : ∀ index, (arena.allocator.slabs index).isSome = true → (allocator.slabs index).isSome = true) :
    (arena.behind allocator).Filed where
  plain := plain
  policy := policy.trans filed.policy
  filed := by
    intro index other there
    -- A slab that is there was there before, or was made just now.
    cases before : (arena.allocator.slabs index).isSome with
    | true => exact Bool.or_eq_true_iff.mpr (Or.inl (filed.filed index other before))
    | false =>
      have absent : (arena.allocator.slabs index).isNone = true := by
        rw [← Option.not_isSome, before]
        rfl
      exact Bool.or_eq_true_iff.mpr (Or.inr (Bool.and_eq_true_iff.mpr ⟨absent, there⟩))
  there := by
    intro index file
    rcases Bool.or_eq_true_iff.mp file with old | new
    · exact kept index (filed.there index old)
    · exact (Bool.and_eq_true_iff.mp new).2

theorem Filed.serves (filed : arena.Filed) : arena.Serves := by
  have again : ∀ index < numSlabs, arena.allocator.slabs index = none →
      (arena.allocator.createOwnedSlab arena.create index).isSome = true := by
    intro index _ absent
    have none_ : arena.files index = false := by
      refine Bool.eq_false_iff.mpr fun file => ?_
      have there := filed.there index file
      rw [absent] at there
      cases there
    simp [Allocator.createOwnedSlab, filed.policy, create, none_]
  exact ⟨fun e r failed si inside => filed.plain.allocRaw_full again failed inside, again⟩

theorem Filed.allocate (filed : arena.Filed) (item : T) :
    (arena.behind (arena.allocator.allocate arena.create item).2).Filed := by
  refine filed.behind ?_ ?_ ?_
  · rcases filed.plain.allocate arena.create item with ⟨e, r, result, plain, -⟩ | ⟨si, r, result, plain, -⟩
    · rw [result]
      exact plain
    · rw [result]
      exact plain
  · rw [← @Allocator.backingPolicy_allocRaw _ _ arena.allocator arena.create]
    unfold Allocator.allocate
    split
    · next si r result =>
      rw [result]
      unfold Allocator.placeItem
      split <;> rfl
    · next e r result => rw [result]
  · intro index there
    rw [Allocator.isSome_allocate]
    exact Allocator.isSome_allocRaw there

theorem Filed.allocRaw (filed : arena.Filed) :
    (arena.behind (arena.allocator.allocRaw arena.create).2).Filed := by
  refine filed.behind ?_ Allocator.backingPolicy_allocRaw fun index => Allocator.isSome_allocRaw
  rcases reserved : arena.allocator.allocRaw arena.create with ⟨result, r⟩
  cases result with
  | ok si => exact (filed.plain.allocRaw reserved).1
  | error e =>
    -- The payload would not be constructed either.
    have allocated : arena.allocator.allocate arena.create default = (.error e, r) := by
      simp only [Allocator.allocate, reserved]
    rcases filed.plain.allocate arena.create default with ⟨e, r', result, plain, -⟩ | ⟨si, r', result, -⟩
    · rw [allocated] at result
      cases result
      exact plain
    · rw [allocated] at result
      cases result

omit [Inhabited T] in
theorem Filed.first_ne_zero (filed : arena.Filed) (empties : arena.Empties si) : si.first ≠ 0 := by
  obtain ⟨set, slab, addressed, last, single⟩ := empties
  intro zero
  obtain ⟨inside, stored⟩ := Allocator.slabOf_eq_some.mp addressed
  have held : slab.inUse si.second ≠ 0 := by simp [last]
  have others := Slab.liveSlots_clear inside.2 held
  have null : slab.inUse 0 ≠ 0 := by
    have nullSlot : arena.allocator.slabOf ⟨0, 0⟩ = some slab :=
      Allocator.slabOf_eq_some.mpr ⟨Allocator.null_inRange, zero ▸ stored⟩
    have refs := filed.plain.null
    rwa [Allocator.refs_of_slab nullSlot] at refs
  -- The null slot would be a second one in use.
  have second : si.second ≠ 0 := fun same => set (by cases si; simp_all)
  have still : (slab.setInUse si.second 0).inUse 0 ≠ 0 := by
    rwa [Slab.setInUse_other slab 0 (Ne.symm second)]
  have more := Slab.liveSlots_pos (Nat.zero_lt_of_lt inside.2) still
  omega

omit [Inhabited T] in
theorem Filed.plain_deallocate (filed : arena.Filed) (si : SlabId) :
    (arena.allocator.deallocate si).2.Plain := by
  by_cases valid : arena.allocator.valid si = true
  · exact (filed.plain.deallocate valid).1
  · rcases Allocator.deallocate_cases arena.allocator si with
      ⟨same, -⟩ | ⟨slab, addressed, set, -, held, -⟩ | ⟨slab, freed⟩
    · rw [same]
      exact filed.plain
    · exact absurd (Allocator.valid_iff.mpr ⟨set, by rwa [Allocator.refs_of_slab addressed]⟩) valid
    · refine absurd (Allocator.valid_iff.mpr ⟨freed.set, ?_⟩) valid
      rw [Allocator.refs_of_slab freed.addressed, freed.last]
      decide

omit [Inhabited T] in
theorem Filed.deallocate_empties (filed : arena.Filed) (empties : arena.Empties si) :
    (arena.allocator.deallocate si).2.slabs si.first = none := by
  obtain ⟨set, slab, addressed, last, single⟩ := empties
  have counted : slab.liveSlots = slab.count.toNat :=
    filed.plain.exact_ _ slab (Allocator.slabOf_eq_some.mp addressed).2
  have one : slab.count = 1 := UInt64.toNat_inj.mp (by rw [← counted, single]; rfl)
  rcases Allocator.deallocate_cases arena.allocator si with
    ⟨-, immortal | invalid⟩ | ⟨other, addressed', -, -, -, shared, -⟩ | ⟨other, freed⟩
  · rw [filed.plain.mortal si] at immortal
    cases immortal
  · have valid : arena.allocator.valid si = true :=
      Allocator.valid_iff.mpr ⟨set, by rw [Allocator.refs_of_slab addressed, last]; decide⟩
    rw [invalid] at valid
    cases valid
  · obtain rfl := Option.some.inj (addressed.symm.trans addressed')
    exact absurd last shared
  · obtain rfl := Option.some.inj (addressed.symm.trans freed.addressed)
    rw [freed.slabs]
    dsimp only
    rw [if_pos rfl, one]
    rfl

omit [Inhabited T] in
theorem Filed.isSome_deallocate (filed : arena.Filed) (kept : ¬arena.Empties si) {index : Nat}
    (there : (arena.allocator.slabs index).isSome = true) :
    ((arena.allocator.deallocate si).2.slabs index).isSome = true := by
  rcases Allocator.deallocate_cases arena.allocator si with
    ⟨same, -⟩ | ⟨slab, -, -, -, -, -, result⟩ | ⟨slab, freed⟩
  · rw [same, there]
  · rw [result]
    by_cases at_ : index = si.first
    · rw [at_, Allocator.setSlab_same]
      rfl
    · rw [Allocator.setSlab_other _ _ _ at_, there]
  · rw [freed.slabs]
    dsimp only
    split
    · -- A slab that is counted down to nothing held one slot.
      have left : ¬slab.count - 1 = 0 := by
        intro emptied
        have counted : slab.liveSlots = slab.count.toNat :=
          filed.plain.exact_ _ slab (Allocator.slabOf_eq_some.mp freed.addressed).2
        refine kept ⟨freed.set, slab, freed.addressed, freed.last, ?_⟩
        rw [counted, word_sub_one_eq_zero.mp emptied]
        rfl
      rw [if_neg left]
      rfl
    · exact there

theorem Filed.step_iff (filed : arena.Filed) (stepped : arena.step call = some next) :
    (next.Serves ↔ arena.KeepsSlabs call) ∧ (arena.KeepsSlabs call → next.Filed) := by
  cases call with
  | allocRaw =>
    cases stepped
    exact ⟨iff_of_true filed.allocRaw.serves trivial, fun _ => filed.allocRaw⟩
  | allocate item =>
    cases stepped
    exact ⟨iff_of_true (filed.allocate item).serves trivial, fun _ => filed.allocate item⟩
  | deallocate si =>
    cases stepped
    have keeps : ¬arena.Empties si → (arena.behind (arena.allocator.deallocate si).2).Filed := fun kept =>
      filed.behind (filed.plain_deallocate si) (Allocator.backingPolicy_deallocate si)
        fun index => filed.isSome_deallocate kept
    refine ⟨⟨fun serves empties => ?_, fun kept => (keeps kept).serves⟩, keeps⟩
    -- The slab is gone and its file is still there.
    obtain ⟨-, slab, addressed, -⟩ := id empties
    obtain ⟨inside, stored⟩ := Allocator.slabOf_eq_some.mp addressed
    have file : arena.files si.first = true :=
      filed.filed si.first (filed.first_ne_zero empties) (by rw [stored]; rfl)
    have made := serves.again si.first inside.1 (filed.deallocate_empties empties)
    have policy : (arena.allocator.deallocate si).2.backingPolicy = .mmapFile :=
      (Allocator.backingPolicy_deallocate si).trans filed.policy
    have still : (arena.behind (arena.allocator.deallocate si).2).files si.first = true :=
      Bool.or_eq_true_iff.mpr (Or.inl file)
    have refused : (arena.behind (arena.allocator.deallocate si).2).create si.first = false := by
      unfold create
      rw [still]
      rfl
    unfold Allocator.createOwnedSlab at made
    rw [refused,
      show (arena.behind (arena.allocator.deallocate si).2).allocator.backingPolicy = _ from policy]
      at made
    cases made

theorem filed_start : (start : FiledArena T).Filed where
  plain :=
    { outside := by
        show (Allocator.initial : Allocator T).checkpoints = []
        rw [Allocator.initial_eq]
        rfl
      settled := Allocator.initial_settled
      exact_ := Allocator.initial_counts Tally.exact_
      mortal := Allocator.initial_mortal
      null := by
        show (Allocator.initial : Allocator T).refs ⟨0, 0⟩ ≠ 0
        rw [Allocator.initial_eq, Allocator.refs_setSlab_same _ Allocator.null_inRange, Slab.take_same]
        decide }
  policy := rfl
  filed := by
    intro index other there
    have absent : (start : FiledArena T).allocator.slabs index = none := by
      show (Allocator.initial : Allocator T).slabs index = none
      rw [Allocator.initial_eq, Allocator.setSlab_other _ _ _ other]
    rw [absent] at there
    cases there
  there := fun index file => Bool.noConfusion file

/--
An allocator whose slabs have files fails only when every slot is in use, and can make every slab that
is not there, exactly as long as no deallocation empties a slab.
-/
theorem serves_iff (calls : List (FiledCall T)) :
    Throughout step Serves (start : FiledArena T) calls ↔ StepsMeet step KeepsSlabs start calls := by
  have kept : ∀ (arena : FiledArena T) call next, arena.Filed → arena.Serves → arena.step call = some next →
      (next.Serves ↔ arena.KeepsSlabs call) ∧ (arena.KeepsSlabs call → next.Filed) :=
    fun _ _ _ filed _ stepped => filed.step_iff stepped
  exact throughout_iff_of_kept kept calls start filed_start filed_start.serves

theorem Filed.allocRaw_first (filed : arena.Filed) (inside : si.InRange)
    (free : arena.allocator.refs si = 0)
    (first : ∀ other : SlabId, other.InRange → other.Before si → arena.allocator.refs other ≠ 0) :
    ∃ r, arena.allocator.allocRaw arena.create = (.ok si, r) ∧ Allocator.Recounted arena.allocator si 1 r := by
  have settled := filed.plain.settled filed.plain.outside
  have cover := Allocator.CountsTally.covers Tally.exact_ filed.plain.exact_
  rcases Allocator.allocRaw_cases filed.plain.settled cover arena.create with
    ⟨e, r, failed, -⟩ | ⟨taken, slab, mid, result, found⟩
  · exact absurd free (filed.serves.fails e r failed si inside)
  · have candidate : arena.allocator.Candidate si := by
      refine ⟨inside, by simp [Allocator.available, free, settled.1], ?_⟩
      rw [if_pos filed.plain.outside]
      intro slab stored
      have empty : slab.inUse si.second = 0 := by
        rw [← Allocator.refs_of_slab (Allocator.slabOf_eq_some.mpr ⟨inside, stored⟩), free]
      have counted : slab.liveSlots = slab.count.toNat := filed.plain.exact_ _ slab stored
      exact counted ▸ Slab.liveSlots_lt_of_free inside.2 empty
    obtain rfl : taken = si := by
      by_contra different
      rcases SlabId.before_or_before different with before | before
      · -- No slot before it is free.
        have held := first taken found.next.1.1 before
        have available := found.next.1.2.1
        simp only [Allocator.available, Bool.and_eq_true, beq_iff_eq] at available
        exact held available.1
      · exact found.next.2 si before candidate
    exact ⟨_, result, (filed.plain.allocRaw result).2.2⟩

/-- The slots of slab zero up to an offset are in use, and no others. -/
structure Filling (offset : Nat) (arena : FiledArena T) : Prop where
  filed : arena.Filed
  front : ∀ k, k ≤ offset → arena.allocator.refs ⟨0, k⟩ ≠ 0
  rest : ∀ other : SlabId, other.first ≠ 0 ∨ offset < other.second → arena.allocator.refs other = 0

theorem filling_start : (start : FiledArena T).Filling 0 where
  filed := filed_start
  front := by
    intro k first
    rw [Nat.le_zero.mp first]
    exact filed_start.plain.null
  rest := by
    intro other behind
    show (Allocator.initial : Allocator T).refs other = 0
    rw [Allocator.initial_eq]
    by_cases here : other.first = 0
    · have later : other.second ≠ 0 := by omega
      by_cases inside : other.InRange
      · obtain ⟨first, second⟩ := other
        obtain rfl : first = 0 := here
        rw [Allocator.refs_setSlab_same _ inside, Slab.take_other _ later]
        rfl
      · have outside : ¬(other.first < numSlabs ∧ other.second < slabSize) := inside
        simp [Allocator.refs, Allocator.slabOf, outside]
    · exact Allocator.refs_of_absent (Allocator.setSlab_other _ _ _ here)

theorem Filling.step {offset : Nat} (filling : arena.Filling offset) (room : offset + 1 < slabSize) :
    ∃ next, arena.step .allocRaw = some next ∧ next.Filling (offset + 1) := by
  have inside : (⟨0, offset + 1⟩ : SlabId).InRange := ⟨Allocator.null_inRange.1, room⟩
  obtain ⟨r, result, recounted⟩ := filling.filed.allocRaw_first inside
    (filling.rest _ (Or.inr (Nat.lt_succ_self _))) (by
      intro other _ before
      obtain ⟨first, second⟩ := other
      obtain ⟨rfl, earlier⟩ : first = 0 ∧ second < offset + 1 := by
        simp only [SlabId.Before] at before
        omega
      exact filling.front second (Nat.le_of_lt_succ earlier))
  refine ⟨_, rfl, filling.filed.allocRaw, ?_, ?_⟩
  · intro k upTo
    show (arena.allocator.allocRaw arena.create).2.refs ⟨0, k⟩ ≠ 0
    rw [result]
    by_cases last : k = offset + 1
    · rw [last, recounted.own]
      decide
    · rw [recounted.others _ (by simpa using last)]
      exact filling.front k (by omega)
  · intro other behind
    show (arena.allocator.allocRaw arena.create).2.refs other = 0
    rw [result]
    have different : other ≠ ⟨0, offset + 1⟩ := by
      rintro rfl
      simp at behind
    rw [recounted.others _ different]
    exact filling.rest other (by omega)

theorem filling_replicate (offset : Nat) (room : offset < slabSize) :
    ∃ arena, runFrom step (start : FiledArena T) (List.replicate offset .allocRaw) = some arena ∧
      arena.Filling offset := by
  induction offset with
  | zero => exact ⟨_, rfl, filling_start⟩
  | succ offset ih =>
    obtain ⟨arena, ran, filling⟩ := ih (Nat.lt_of_succ_lt room)
    obtain ⟨next, stepped, filling'⟩ := filling.step room
    refine ⟨next, ?_, filling'⟩
    rw [List.replicate_succ', runFrom_append, ran, Option.bind_some, runFrom, stepped]
    rfl

/-- The slab that is made then and emptied again cannot be made once more. -/
theorem serves_fails : ¬Throughout step Serves (start : FiledArena UInt8)
    (List.replicate (slabSize - 1) .allocRaw ++ [.allocRaw, .deallocate ⟨1, 0⟩]) := by
  have some_ : 0 < slabSize := Allocator.null_inRange.2
  obtain ⟨arena, ran, filling⟩ := @filling_replicate UInt8 _ (slabSize - 1) (by omega)
  have inside : (⟨1, 0⟩ : SlabId).InRange := ⟨by simp [numSlabs], some_⟩
  obtain ⟨r, result, recounted⟩ :=
    filling.filed.allocRaw_first inside (filling.rest _ (Or.inl (by simp))) (by
    intro other within before
    obtain ⟨first, second⟩ := other
    have bound : second < slabSize := within.2
    obtain rfl : first = 0 := by
      simp only [SlabId.Before] at before
      omega
    exact filling.front second (by omega))
  -- The one slot in use of slab one is freed.
  have empties : (arena.behind (arena.allocator.allocRaw arena.create).2).Empties ⟨1, 0⟩ := by
    unfold behind Empties
    dsimp only
    rw [result]
    have held : r.refs ⟨1, 0⟩ ≠ 0 := by
      rw [recounted.own]
      decide
    obtain ⟨slab, addressed, -⟩ := Allocator.slab_of_refs held
    refine ⟨by simp, slab, addressed, (Allocator.refs_of_slab addressed).symm.trans recounted.own, ?_⟩
    refine count_initial some_ fun k bound => ?_
    have slot : r.slabOf ⟨1, k⟩ = some slab :=
      Allocator.slabOf_eq_some.mpr ⟨⟨inside.1, bound⟩, (Allocator.slabOf_eq_some.mp addressed).2⟩
    have refs : slab.inUse k = r.refs ⟨1, k⟩ := (Allocator.refs_of_slab slot).symm
    rw [refs]
    by_cases first : k = 0
    · rw [first]
      exact iff_of_true held Nat.zero_lt_one
    · rw [recounted.others _ (by simpa using first), filling.rest _ (Or.inl (by simp))]
      exact iff_of_false (fun ne => ne rfl) (by omega)
  intro throughout
  let made := arena.behind (arena.allocator.allocRaw arena.create).2
  have ended : runFrom step (start : FiledArena UInt8)
      (List.replicate (slabSize - 1) .allocRaw ++ [.allocRaw, .deallocate ⟨1, 0⟩]) =
        some (made.behind (made.allocator.deallocate ⟨1, 0⟩).2) := by
    rw [runFrom_append, ran]
    rfl
  have freed : made.step (.deallocate ⟨1, 0⟩) = some (made.behind (made.allocator.deallocate ⟨1, 0⟩).2) := rfl
  exact (filling.filed.allocRaw.step_iff freed).1.mp (throughout.last _ _ _ ended) empties

end FiledArena

end AgentC

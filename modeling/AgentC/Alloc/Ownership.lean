import AgentC.Alloc.Pointers
import AgentC.Alloc.Freshness

/-! Reference counts, holders and destructor runs of slots owned by `CPtr`. -/

namespace AgentC

universe u

namespace Allocator

variable {T : Type u}

def storedCount (s : Allocator T) (index : Nat) : UInt64 :=
  match s.slabs index with
  | some slab => slab.count
  | none => 0

/-- An allocator outside checkpoints, counted exactly, with nothing immortal and its null slot held. -/
structure Plain (s : Allocator T) : Prop where
  outside : s.checkpoints = []
  settled : s.Settled
  exact_ : s.CountsExact
  mortal : ∀ si, s.slotIsStaticImmortal si = false
  null : s.refs ⟨0, 0⟩ ≠ 0

/-- A slot with one more or one less reference, everything else being as before. -/
structure Recounted (s : Allocator T) (si : SlabId) (value : UInt64) (t : Allocator T) : Prop where
  own : t.refs si = value
  others : ∀ other, other ≠ si → t.refs other = s.refs other
  runs : t.destructorRuns = s.destructorRuns

variable {s : Allocator T} {si : SlabId}

theorem Plain.recount (plain : s.Plain) {slab : Slab T} {value : UInt64}
    (addressed : s.slabOf si = some slab) (held : slab.inUse si.second ≠ 0) (positive : value ≠ 0)
    (set : si ≠ ⟨0, 0⟩) :
    (s.setSlab si.first (slab.setInUse si.second value)).Plain ∧
      Recounted s si value (s.setSlab si.first (slab.setInUse si.second value)) := by
  obtain ⟨inside, stored⟩ := slabOf_eq_some.mp addressed
  have others := fun other (different : other ≠ si) =>
    refs_setInUse_other value addressed different
  refine ⟨⟨plain.outside, plain.settled, ?_, fun other => ?_, ?_⟩, ?_, others, rfl⟩
  · exact CountsTally.setInUse plain.exact_ addressed (iff_of_true positive held)
  · have flag := slotIsStaticImmortal_setSlab stored
      (slab.setInUse_staticImmortal si.second value) other
    exact flag.trans (plain.mortal other)
  · rw [others ⟨0, 0⟩ (Ne.symm set)]
    exact plain.null
  · rw [refs_setSlab_same _ inside, Slab.setInUse_same]

theorem Plain.tryRetain (plain : s.Plain) (valid : s.valid si = true)
    (room : (s.refs si).toNat + 1 < 2 ^ 64) :
    (s.tryRetain si).2.Plain ∧ Recounted s si (s.refs si + 1) (s.tryRetain si).2 := by
  obtain ⟨set, holds⟩ := valid_iff.mp valid
  rcases tryRetain_cases s si with same | ⟨slab, addressed, _, held, _, result⟩
  · -- A valid mortal slot is always written to.
    obtain ⟨slab, addressed, held⟩ := slab_of_refs holds
    have written : (s.tryRetain si).2 = s.setSlab si.first
        (slab.setInUse si.second (slab.inUse si.second + 1)) := by
      simp [Allocator.tryRetain, SlabId.isSet_iff.mpr set, addressed, held, plain.mortal si]
    rw [refs_of_slab addressed] at room ⊢
    rw [written]
    exact plain.recount addressed held (word_add_one_ne_zero room) set
  · rw [result]
    rw [refs_of_slab addressed] at room ⊢
    exact plain.recount addressed held (word_add_one_ne_zero room) set

/-- Dropping a reference by `modrefs` keeps the allocator plain while another one is left. -/
theorem Plain.modrefs (plain : s.Plain) (valid : s.valid si = true) (shared : s.refs si ≠ 1) :
    (s.modrefs si (-1)).Plain ∧ Recounted s si (s.refs si - 1) (s.modrefs si (-1)) := by
  obtain ⟨set, holds⟩ := valid_iff.mp valid
  obtain ⟨slab, addressed, held⟩ := slab_of_refs holds
  have written : s.modrefs si (-1) = s.setSlab si.first
      (slab.setInUse si.second (slab.inUse si.second - 1)) := by
    simp only [Allocator.modrefs, addressed, plain.mortal si, word_add_neg_one, Bool.false_eq_true,
      if_false]
  rw [refs_of_slab addressed] at shared ⊢
  rw [written]
  exact plain.recount addressed held (fun zero => shared (word_sub_one_eq_zero.mp zero)) set

/-- A slot whose last reference is gone: destroyed once, free, and no longer counted. -/
structure Destroyed (s : Allocator T) (si : SlabId) (t : Allocator T) : Prop where
  own : t.refs si = 0
  others : ∀ other, other ≠ si → t.refs other = s.refs other
  runs : t.destructorRuns = s.destructorRuns ++ [si]
  count : t.storedCount si.first = s.storedCount si.first - 1

/-- Dropping a reference by `deallocate` destroys the payload exactly when it was the last one. -/
theorem Plain.deallocate (plain : s.Plain) (valid : s.valid si = true) :
    (s.deallocate si).2.Plain ∧
      if s.refs si = 1 then Destroyed s si (s.deallocate si).2
      else Recounted s si (s.refs si - 1) (s.deallocate si).2 := by
  have cover := CountsTally.covers Tally.exact_ plain.exact_
  rcases deallocate_cases s si with ⟨_, immortal | invalid⟩ |
    ⟨slab, addressed, set, _, held, shared, result⟩ | ⟨slab, freed⟩
  · simp [plain.mortal si] at immortal
  · simp [valid] at invalid
  · -- Another reference is left.
    rw [refs_of_slab addressed, if_neg shared, result]
    exact plain.recount addressed held (fun zero => shared (word_sub_one_eq_zero.mp zero)) set
  · rw [refs_of_slab freed.addressed, if_pos freed.last]
    have others := fun other (different : other ≠ si) => freed.refs_other cover different
    obtain ⟨inside, stored⟩ := slabOf_eq_some.mp freed.addressed
    refine ⟨⟨?_, ?_, ?_, fun other => ?_, ?_⟩, ⟨freed.refs_eq_zero, others, freed.destructorRuns, ?_⟩⟩
    · rw [freed.checkpoints, plain.outside]
      rfl
    · intro _
      rw [freed.reserved, if_pos plain.outside, freed.allocationLog]
      exact plain.settled plain.outside
    · exact CountsTally.deallocate Tally.exact_ plain.exact_ si
    · exact (freed.immortal other).trans (plain.mortal other)
    · rw [others ⟨0, 0⟩ (Ne.symm freed.set)]
      exact plain.null
    · by_cases emptied : slab.count - 1 = 0
      · simp [storedCount, freed.slabs, stored, emptied]
      · simp [storedCount, freed.slabs, stored, emptied]

/-- A free null slot is what `NextSlot` would have to offer, so a held one is never taken. -/
theorem Plain.nextSlot_ne_null (plain : s.Plain) : ¬ s.NextSlot ⟨0, 0⟩ := by
  intro next
  have free := next.1.2.1
  simp only [available, Bool.and_eq_true, beq_iff_eq] at free
  exact plain.null free.1

theorem Found.placed [Inhabited T] {mid : Allocator T} {slab : Slab T} (found : Found s si slab mid)
    (plain : s.Plain) (item : T) :
    (mid.markAllocated si).placeItem si item =
      { mid.setSlab si.first ((slab.take si.second).setItem si.second item) with
        allocationLog := s.allocationLog } := by
  have marked : mid.markAllocated si = { mid.setSlab si.first (slab.take si.second) with
      allocationLog := s.allocationLog } := by
    rw [found.marked fun other _ => plain.mortal other, if_pos plain.outside]
  have stored : (mid.markAllocated si).slabs si.first = some (slab.take si.second) := by
    rw [marked]
    exact setSlab_same ..
  -- The payload is written to the slab that was just counted.
  have installed : (mid.markAllocated si).placeItem si item =
      (mid.markAllocated si).setSlab si.first ((slab.take si.second).setItem si.second item) := by
    simp only [placeItem, stored]
  rw [installed, marked]
  simp only [setSlab, mk.injEq, and_true]
  funext k
  by_cases at_ : k = si.first <;> simp [at_]

theorem Plain.allocate [Inhabited T] (plain : s.Plain) (create : Nat → Bool) (item : T) :
    (∃ e r, s.allocate create item = (.error e, r) ∧ r.Plain ∧ (∀ si, r.refs si = s.refs si) ∧
        r.destructorRuns = s.destructorRuns) ∨
      ∃ si r, s.allocate create item = (.ok si, r) ∧ r.Plain ∧ si ≠ ⟨0, 0⟩ ∧ s.refs si = 0 ∧
        Recounted s si 1 r := by
  have cover := CountsTally.covers Tally.exact_ plain.exact_
  rcases allocRaw_cases plain.settled cover create with
    ⟨e, r, result, grown⟩ | ⟨si, slab, mid, result, found⟩
  · -- Only empty slabs may have been created.
    refine Or.inl ⟨e, r, by simp only [Allocator.allocate, result], ⟨?_, ?_, ?_, ?_, ?_⟩, grown.refs, ?_⟩
    · rw [SameButSlabs.checkpoints grown.rest, plain.outside]
    · exact plain.settled.of_sameButSlabs grown.rest
    · exact CountsTally.grown Tally.exact_ plain.exact_ grown
    · exact fun other => (grown.immortal other).trans (plain.mortal other)
    · rw [grown.refs]
      exact plain.null
    · exact SameButSlabs.destructorRuns grown.rest
  · obtain ⟨inside, stored⟩ := slabOf_eq_some.mp found.addressed
    have free : s.refs si = 0 := by
      rw [← found.grown.refs, refs_of_slab found.addressed, found.free]
    have set : si ≠ ⟨0, 0⟩ := fun zero => plain.null (zero ▸ free)
    have allocated : s.allocate create item =
        (.ok si, (mid.markAllocated si).placeItem si item) := by
      simp only [Allocator.allocate, result]
    have exact_ := CountsTally.allocate Tally.exact_ plain.exact_ plain.settled
      (fun other _ => plain.mortal other) (CountsTally.nextCounted plain.exact_) create item
    rw [allocated, found.placed plain item] at exact_
    rw [found.placed plain item] at allocated
    -- What is read of the new state is read of the slab with the slot taken.
    let after := (slab.take si.second).setItem si.second item
    have own : (mid.setSlab si.first after).refs si = 1 :=
      (refs_setSlab_same after inside).trans (slab.take_same si.second)
    have others : ∀ other, other ≠ si → (mid.setSlab si.first after).refs other = s.refs other := by
      intro other different
      rw [← found.grown.refs other]
      exact refs_setSlab stored fun at_ => slab.take_other (SlabId.second_ne different at_)
    refine Or.inr ⟨si, _, allocated, ⟨?_, ?_, exact_, ?_, ?_⟩, set, free, own, others, ?_⟩
    · exact (SameButSlabs.checkpoints found.grown.rest).trans plain.outside
    · intro _
      exact ⟨(SameButSlabs.reserved found.grown.rest).trans (plain.settled plain.outside).1,
        (plain.settled plain.outside).2⟩
    · intro other
      have flag : after.staticImmortal = slab.staticImmortal := rfl
      exact (slotIsStaticImmortal_setSlab stored flag other).trans ((found.grown.immortal other).trans (plain.mortal other))
    · exact (others ⟨0, 0⟩ (Ne.symm set)).symm ▸ plain.null
    · show mid.destructorRuns = s.destructorRuns
      exact SameButSlabs.destructorRuns found.grown.rest

theorem Plain.allocRaw [Inhabited T] {r : Allocator T} (plain : s.Plain) {create : Nat → Bool}
    (reserved : s.allocRaw create = (.ok si, r)) :
    r.Plain ∧ s.refs si = 0 ∧ Recounted s si 1 r := by
  -- Constructing in the slot the payload that is there already changes nothing.
  obtain ⟨item, same⟩ : ∃ item, r.placeItem si item = r := by
    cases stored : r.slabs si.first with
    | none => exact ⟨default, by simp only [Allocator.placeItem, stored]⟩
    | some slab =>
      refine ⟨slab.items si.second, ?_⟩
      have slot : slab.setItem si.second (slab.items si.second) = slab := by
        simp only [Slab.setItem]
        congr
        funext k
        split
        · next here => rw [here]
        · rfl
      have table : r.setSlab si.first slab = r := by
        unfold Allocator.setSlab
        congr
        funext k
        split
        · next here => rw [here, stored]
        · rfl
      simp only [Allocator.placeItem, stored, slot, table]
  have allocated : s.allocate create item = (.ok si, r) := by
    simp only [Allocator.allocate, reserved, same]
  obtain ⟨e, r', failed, -⟩ | ⟨si', r', took, kept, -, free, change⟩ := plain.allocate create item
  · rw [allocated] at failed
    cases failed
  · rw [allocated] at took
    cases took
    exact ⟨kept, free, change⟩

theorem tryRetain_invalid (invalid : s.valid si = false) :
    s.tryRetain si = (false, s) := by
  have refused := tryRetain_fst s si
  rw [invalid] at refused
  rcases tryRetain_cases s si with same | ⟨slab, _, _, _, _, result⟩
  · exact Prod.ext refused same
  · rw [result] at refused
    simp at refused

theorem initial_plain [Inhabited T] : (initial : Allocator T).Plain := by
  refine ⟨?_, initial_settled, initial_counts Tally.exact_, initial_mortal, ?_⟩
  · rw [initial_eq]
    rfl
  · rw [initial_eq, refs_setSlab_same _ null_inRange, Slab.take_same]
    decide

end Allocator

namespace CPtrs

variable {T : Type u}

/-- Every pointer lives below the next number, and every slot is referenced once for each holder. -/
structure Owned (w : CPtrs T) : Prop where
  plain : w.arena.Plain
  living : ∀ k si, w.slabId k = some si → k < w.next
  counted : ∀ si, si ≠ ⟨0, 0⟩ → (w.arena.refs si).toNat = w.holders si

/--
What one operation may do to slots and payloads.

Reference counts are holder counts. Destructors run, once each, for exactly the slots that lost
their last holder, and each of these is then free and no longer counted.
-/
structure Lawful (w w' : CPtrs T) : Prop where
  counted : ∀ si, si ≠ ⟨0, 0⟩ → (w'.arena.refs si).toNat = w'.holders si
  destroyed : ∃ gone : List SlabId,
    w'.arena.destructorRuns = w.arena.destructorRuns ++ gone ∧ gone.Nodup ∧
      (∀ si, si ∈ gone ↔ si ≠ ⟨0, 0⟩ ∧ 0 < w.holders si ∧ w'.holders si = 0) ∧
      ∀ si ∈ gone, w'.arena.valid si = false ∧
        w'.arena.storedCount si.first = w.arena.storedCount si.first - 1

section Holders

variable (w : CPtrs T)

theorem holders_push (held si : SlabId) :
    (w.push held).holders si = w.holders si + if held = si then 1 else 0 := by
  -- The earlier pointers are as before, and the new one is counted last.
  have earlier : Nat.count (fun k => (w.push held).slabId k = some si) w.next = w.holders si := by
    refine count_congr_below fun k below => ?_
    simp [push, Nat.ne_of_lt below]
  show Nat.count (fun k => (w.push held).slabId k = some si) (w.next + 1) = _
  rw [Nat.count_succ, earlier]
  simp [push]

variable {w}

variable {k : Nat}

theorem holders_set (living : k < w.next) (held : Option SlabId) (si : SlabId) :
    (w.set k held).holders si + (if w.slabId k = some si then 1 else 0) =
      w.holders si + if held = some si then 1 else 0 := by
  have swapped := count_swap (p := fun j => w.slabId j = some si)
    (q := fun j => (w.set k held).slabId j = some si) living fun j other => by simp [set, other]
  simpa [set, holders] using swapped

theorem holders_pos {si : SlabId} (living : k < w.next) (holds : w.slabId k = some si) :
    0 < w.holders si :=
  count_pos_of_held living holds

theorem holders_two {j : Nat} {si : SlabId} (different : j ≠ k) (first : j < w.next)
    (second : k < w.next) (left : w.slabId j = some si) (right : w.slabId k = some si) :
    2 ≤ w.holders si := by
  -- Ending the second pointer leaves the first one.
  have ended := holders_set second none si
  have remaining : 0 < (w.set k none).holders si :=
    holders_pos (w := w.set k none) first (by simp [set, different, left])
  simp only [right, if_true, reduceCtorEq, if_false, Nat.add_zero] at ended
  omega

end Holders

section Laws

variable {w w' : CPtrs T}

theorem living_push (living : ∀ k si, w.slabId k = some si → k < w.next) (held : SlabId) :
    ∀ k si, (w.push held).slabId k = some si → k < (w.push held).next := by
  intro k si holds
  simp only [push] at holds ⊢
  split at holds
  · omega
  · have := living k si holds
    omega

theorem living_set (living : ∀ k si, w.slabId k = some si → k < w.next) {j : Nat}
    (inside : j < w.next) (held : Option SlabId) :
    ∀ k si, (w.set j held).slabId k = some si → k < (w.set j held).next := by
  intro k si holds
  simp only [set] at holds ⊢
  split at holds
  · omega
  · exact living k si holds

theorem lawful_of_kept (plain : w'.arena.Plain)
    (runs : w'.arena.destructorRuns = w.arena.destructorRuns)
    (living : ∀ k si, w'.slabId k = some si → k < w'.next)
    (counted : ∀ si, si ≠ ⟨0, 0⟩ → (w'.arena.refs si).toNat = w'.holders si)
    (kept : ∀ si, si ≠ ⟨0, 0⟩ → 0 < w.holders si → 0 < w'.holders si) :
    w'.Owned ∧ Lawful w w' := by
  refine ⟨⟨plain, living, counted⟩, counted, [], by simp [runs], List.nodup_nil, ?_, by simp⟩
  intro si
  refine iff_of_false List.not_mem_nil ?_
  rintro ⟨set, before, after⟩
  have := kept si set before
  omega

theorem Owned.valid (owned : w.Owned) {k : Nat} {si : SlabId} (holds : w.slabId k = some si)
    (set : si ≠ ⟨0, 0⟩) : w.arena.valid si = true := by
  have positive := holders_pos (owned.living k si holds) holds
  refine Allocator.valid_iff.mpr ⟨set, fun zero => ?_⟩
  have counted := owned.counted si set
  rw [zero] at counted
  simp at counted
  omega

/-- Dropping what one pointer held, by `deallocate`, is lawful. -/
theorem Owned.drop (owned : w.Owned) {k : Nat} {old : SlabId} (holds : w.slabId k = some old)
    (arena : w'.arena = if w.arena.valid old then (w.arena.deallocate old).2 else w.arena)
    (living : ∀ k si, w'.slabId k = some si → k < w'.next)
    (holders : ∀ si, si ≠ ⟨0, 0⟩ →
      w'.holders si + (if old = si then 1 else 0) = w.holders si) :
    w'.Owned ∧ Lawful w w' := by
  by_cases set : old = ⟨0, 0⟩
  · -- An empty pointer drops nothing.
    have same : w'.arena = w.arena := by rw [arena, set]; rfl
    have still : ∀ si, si ≠ ⟨0, 0⟩ → w'.holders si = w.holders si := by
      intro si other
      have moved := holders si other
      rwa [set, if_neg (Ne.symm other), Nat.add_zero] at moved
    refine lawful_of_kept (same ▸ owned.plain) (by rw [same]) living ?_ ?_
    · intro si other
      rw [same, still si other, owned.counted si other]
    · intro si other before
      rwa [still si other]
  · have valid := owned.valid holds set
    rw [if_pos valid] at arena
    obtain ⟨plain, change⟩ := owned.plain.deallocate valid
    rw [← arena] at plain change
    have own := holders old set
    have counted := owned.counted old set
    rw [if_pos rfl] at own
    by_cases last : w.arena.refs old = 1
    · -- The last holder is gone, and with it the slot.
      rw [if_pos last] at change
      rw [last] at counted
      have one : w.holders old = 1 := counted.symm
      have none : w'.holders old = 0 := by omega
      have counts : ∀ si, si ≠ ⟨0, 0⟩ → (w'.arena.refs si).toNat = w'.holders si := by
        intro si other
        by_cases here : si = old
        · subst here
          rw [change.own, none]
          rfl
        · have moved := holders si other
          rw [if_neg (Ne.symm here), Nat.add_zero] at moved
          rw [change.others si here, moved, owned.counted si other]
      refine ⟨⟨plain, living, counts⟩, counts, [old], change.runs, List.nodup_singleton old, ?_, ?_⟩
      · intro si
        rw [List.mem_singleton]
        constructor
        · rintro rfl
          exact ⟨set, by omega, none⟩
        · rintro ⟨other, before, after⟩
          by_contra here
          have moved := holders si other
          rw [if_neg (Ne.symm here)] at moved
          omega
      · intro si member
        rw [List.mem_singleton.mp member]
        exact ⟨by simp [Allocator.valid, change.own], change.count⟩
    · -- Another holder is left.
      rw [if_neg last] at change
      have positive : w.arena.refs old ≠ 0 := (Allocator.valid_iff.mp valid).2
      have lowered := word_sub_one_toNat positive
      have several : w.holders old ≠ 1 := fun one => last (UInt64.toNat_inj.mp (by simpa [one] using counted))
      have counts : ∀ si, si ≠ ⟨0, 0⟩ → (w'.arena.refs si).toNat = w'.holders si := by
        intro si other
        by_cases here : si = old
        · subst here
          rw [change.own, lowered]
          omega
        · have moved := holders si other
          rw [if_neg (Ne.symm here), Nat.add_zero] at moved
          rw [change.others si here, moved, owned.counted si other]
      refine lawful_of_kept plain change.runs living counts fun si other before => ?_
      by_cases here : old = si
      · subst here
        omega
      · have moved := holders si other
        rw [if_neg here] at moved
        omega

end Laws

def Room (arena : Allocator T) (si : SlabId) : Prop :=
  arena.valid si = true → (arena.refs si).toNat + 1 < 2 ^ 64

/--
When an operation treats references and payloads as it should.

No reference count may overflow, and no copy assignment may overwrite the last pointer to a slot.
-/
def Sound (w : CPtrs T) : CPtrCall T → Prop
  | .copyConstruct other => ∀ source, w.slabId other = some source → Room w.arena source
  | .copyAssign target other =>
    ∀ old source, w.slabId target = some old → w.slabId other = some source → target ≠ other →
      (old ≠ ⟨0, 0⟩ → w.arena.refs old ≠ 1) ∧ (old ≠ source → Room w.arena source)
  | _ => True

section Steps

variable {w w' : CPtrs T}

theorem fromSlabId_cases {arena : Allocator T} (plain : arena.Plain) (source : SlabId)
    (room : Room arena source) :
    (arena.valid source = false ∧ CPtr.fromSlabId arena source = (⟨0, 0⟩, arena)) ∨
      ∃ next, CPtr.fromSlabId arena source = (source, next) ∧ next.Plain ∧
        Allocator.Recounted arena source (arena.refs source + 1) next ∧
        (arena.refs source + 1).toNat = (arena.refs source).toNat + 1 := by
  cases valid : arena.valid source with
  | false =>
    refine Or.inl ⟨rfl, ?_⟩
    simp only [CPtr.fromSlabId, Allocator.tryRetain_invalid valid]
  | true =>
    obtain ⟨kept, change⟩ := plain.tryRetain valid (room valid)
    refine Or.inr ⟨(arena.tryRetain source).2, ?_, kept, change, word_add_one_toNat (room valid)⟩
    have taken : arena.tryRetain source = (true, (arena.tryRetain source).2) :=
      Prod.ext ((Allocator.tryRetain_fst arena source).trans valid) rfl
    simp only [CPtr.fromSlabId]
    rw [taken]

theorem step_make [Inhabited T] (owned : w.Owned) {create : Nat → Bool} {item : T}
    (stepped : w.step (.make create item) = some w') : w'.Owned ∧ Lawful w w' := by
  rcases owned.plain.allocate create item with
    ⟨e, r, failed, plain, refs, runs⟩ | ⟨si, r, took, plain, set, free, change⟩
  · -- A failed construction makes no pointer.
    simp only [step, failed, Option.some.injEq] at stepped
    subst stepped
    refine lawful_of_kept plain runs owned.living (fun o other => ?_) fun _ _ before => before
    show (r.refs o).toNat = _
    rw [refs o, owned.counted o other]
    rfl
  · simp only [step, took, Option.some.injEq] at stepped
    subst stepped
    -- The slot was free, so nobody held it, and the new pointer is its one holder.
    have unheld : w.holders si = 0 := by rw [← owned.counted si set, free]; rfl
    have pushed := fun o => holders_push ({ w with arena := r } : CPtrs T) si o
    refine lawful_of_kept plain change.runs (living_push owned.living si) ?_ ?_
    · intro o other
      rw [pushed o]
      show (r.refs o).toNat = w.holders o + _
      by_cases here : o = si
      · subst here
        rw [change.own, unheld, if_pos rfl]
        rfl
      · rw [change.others o here, if_neg (Ne.symm here), owned.counted o other]
        rfl
    · intro o _ before
      rw [pushed o]
      exact Nat.lt_of_lt_of_le before (Nat.le_add_right _ _)

variable {other target : Nat} {source : SlabId}

theorem step_copyConstruct [Inhabited T] (owned : w.Owned) (sound : w.Sound (.copyConstruct other))
    (stepped : w.step (.copyConstruct other) = some w') : w'.Owned ∧ Lawful w w' := by
  obtain ⟨source, holds, rfl⟩ := Option.map_eq_some_iff.mp stepped
  rcases fromSlabId_cases owned.plain source (sound source holds) with
    ⟨invalid, result⟩ | ⟨next, result, plain, change, counted⟩
  · -- Only an empty pointer has nothing to retain.
    simp only [CPtr.copyConstruct, result]
    have pushed := fun o => holders_push w ⟨0, 0⟩ o
    refine lawful_of_kept owned.plain rfl (living_push owned.living _) ?_ ?_
    · intro o set
      show (w.arena.refs o).toNat = (w.push ⟨0, 0⟩).holders o
      rw [pushed o, if_neg (Ne.symm set), Nat.add_zero, owned.counted o set]
    · intro o set before
      show 0 < (w.push ⟨0, 0⟩).holders o
      rw [pushed o]
      omega
  · simp only [CPtr.copyConstruct, result]
    have pushed : ∀ o, (({ w with arena := next } : CPtrs T).push source).holders o =
        w.holders o + if source = o then 1 else 0 :=
      fun o => holders_push ({ w with arena := next } : CPtrs T) source o
    have living := living_push (w := { w with arena := next }) owned.living source
    refine lawful_of_kept plain change.runs living ?_ ?_
    · intro o set
      rw [pushed o]
      show (next.refs o).toNat = _
      by_cases here : o = source
      · subst here
        rw [change.own, counted, if_pos rfl, owned.counted o set]
      · rw [change.others o here, if_neg (Ne.symm here), owned.counted o set]
        rfl
    · intro o _ before
      rw [pushed o]
      omega

theorem step_transfer (owned : w.Owned) (holds : w.slabId other = some source) :
    ((w.set other (some ⟨0, 0⟩)).push source).Owned ∧
      Lawful w ((w.set other (some ⟨0, 0⟩)).push source) := by
  have inside := owned.living other source holds
  -- The slot loses one holder and gains one.
  have moved : ∀ o, o ≠ ⟨0, 0⟩ →
      ((w.set other (some ⟨0, 0⟩)).push source).holders o = w.holders o := by
    intro o set
    have left := holders_set inside (some ⟨0, 0⟩) o
    have none : ¬ ((some ⟨0, 0⟩ : Option SlabId) = some o) := by
      simpa using Ne.symm set
    rw [holders, if_neg none, Nat.add_zero] at left
    rw [holders_push]
    simp only [holds, Option.some.injEq] at left
    exact left
  have living := living_push (living_set owned.living inside (some ⟨0, 0⟩)) source
  refine lawful_of_kept owned.plain rfl living ?_ ?_
  · intro o set
    rw [moved o set]
    exact owned.counted o set
  · intro o set before
    rwa [moved o set]

theorem step_moveAssign [Inhabited T] (owned : w.Owned)
    (stepped : w.step (.moveAssign target other) = some w') : w'.Owned ∧ Lawful w w' := by
  cases left : w.slabId target with
  | none => simp [step, left] at stepped
  | some old =>
    cases right : w.slabId other with
    | none => simp [step, left, right] at stepped
    | some source =>
      by_cases same : target = other
      · -- Self-assignment does nothing.
        simp only [step, right, same, if_true, Option.some.injEq] at stepped
        subst stepped
        exact lawful_of_kept owned.plain rfl owned.living owned.counted fun _ _ before => before
      · simp only [step, left, right, same, if_false, Option.some.injEq] at stepped
        subst stepped
        let arena := if w.arena.valid old then (w.arena.deallocate old).2 else w.arena
        let first : CPtrs T := ({ w with arena := arena } : CPtrs T).set target (some source)
        have insideTarget := owned.living target old left
        have insideOther := owned.living other source right
        have livingFirst := living_set (w := { w with arena := arena }) owned.living insideTarget
          (some source)
        refine owned.drop left rfl (living_set (w := first) livingFirst insideOther _) ?_
        -- The target's slot loses a holder. The source's slot gains one and loses one.
        intro o set
        have one := holders_set (w := { w with arena := arena }) insideTarget (some source) o
        have two := holders_set (w := first) insideOther (some ⟨0, 0⟩) o
        have still : first.slabId other = some source := by
          simp [first, CPtrs.set, Ne.symm same, right]
        have none : ¬ ((some ⟨0, 0⟩ : Option SlabId) = some o) := by
          simpa using Ne.symm set
        rw [still, if_neg none] at two
        simp only [left, Option.some.injEq] at one two
        show (first.set other (some ⟨0, 0⟩)).holders o + _ = w.holders o
        have base : ({ w with arena := arena } : CPtrs T).holders o = w.holders o := rfl
        have firstIs : first.holders o =
            (({ w with arena := arena } : CPtrs T).set target (some source)).holders o := rfl
        omega

theorem step_destroy [Inhabited T] (owned : w.Owned) (stepped : w.step (.destroy target) = some w') :
    w'.Owned ∧ Lawful w w' := by
  obtain ⟨held, holds, rfl⟩ := Option.map_eq_some_iff.mp stepped
  have inside := owned.living target held holds
  refine owned.drop holds rfl
    (living_set (w := { w with arena := CPtr.destroy w.arena held }) owned.living inside none) ?_
  intro o _
  have ended := holders_set (w := { w with arena := CPtr.destroy w.arena held }) inside none o
  simp only [holds, Option.some.injEq, reduceCtorEq, if_false, Nat.add_zero] at ended
  exact ended

def dropped (arena : Allocator T) (old : SlabId) : Allocator T :=
  if arena.valid old then arena.modrefs old (-1) else arena

/-- Dropping a reference by `modrefs` destroys nothing. -/
theorem dropped_runs (arena : Allocator T) (old : SlabId) :
    (dropped arena old).destructorRuns = arena.destructorRuns := by
  unfold dropped
  split
  · exact (Allocator.modrefs_sameButSlabs arena old (-1)).destructorRuns
  · rfl

theorem Owned.dropped (owned : w.Owned) {old : SlabId} (holds : w.slabId target = some old)
    (shared : old ≠ ⟨0, 0⟩ → w.arena.refs old ≠ 1) :
    (CPtrs.dropped w.arena old).Plain ∧
      ∀ o, o ≠ ⟨0, 0⟩ →
        ((CPtrs.dropped w.arena old).refs o).toNat + (if old = o then 1 else 0) = w.holders o := by
  by_cases set : old = ⟨0, 0⟩
  · -- An empty pointer holds nothing to drop.
    have same : CPtrs.dropped w.arena old = w.arena := by rw [set]; rfl
    rw [same]
    refine ⟨owned.plain, fun o other => ?_⟩
    rw [set, if_neg (Ne.symm other), Nat.add_zero, owned.counted o other]
  · have valid := owned.valid holds set
    have result : CPtrs.dropped w.arena old = w.arena.modrefs old (-1) := if_pos valid
    obtain ⟨plain, change⟩ := owned.plain.modrefs valid (shared set)
    rw [result]
    refine ⟨plain, fun o other => ?_⟩
    by_cases here : old = o
    · subst here
      have positive := (Allocator.valid_iff.mp valid).2
      have lowered := word_sub_one_toNat positive
      have counted := owned.counted old set
      have held := holders_pos (owned.living target old holds) holds
      rw [change.own, lowered, if_pos rfl]
      omega
    · rw [change.others o (Ne.symm here), if_neg here, Nat.add_zero, owned.counted o other]

theorem copyAssign_eq [Inhabited T] {old si : SlabId} {next : Allocator T}
    (left : w.slabId target = some old) (right : w.slabId other = some source)
    (different : target ≠ other)
    (result : CPtr.fromSlabId (dropped w.arena old) source = (si, next))
    (stepped : w.step (.copyAssign target other) = some w') :
    w' = ({ w with arena := next } : CPtrs T).set target (some si) := by
  have assigned : CPtr.copyAssign w.arena old source = (si, next) := result
  simp only [step, left, right, different, if_false, assigned, Option.some.injEq] at stepped
  exact stepped.symm

theorem step_copyAssign [Inhabited T] (owned : w.Owned) (sound : w.Sound (.copyAssign target other))
    (stepped : w.step (.copyAssign target other) = some w') : w'.Owned ∧ Lawful w w' := by
  cases left : w.slabId target with
  | none => simp [step, left] at stepped
  | some old =>
    cases right : w.slabId other with
    | none => simp [step, left, right] at stepped
    | some source =>
      by_cases same : target = other
      · -- Self-assignment does nothing.
        simp only [step, right, same, if_true, Option.some.injEq] at stepped
        subst stepped
        exact lawful_of_kept owned.plain rfl owned.living owned.counted fun _ _ before => before
      · obtain ⟨shared, room⟩ := sound old source left right same
        have inside := owned.living target old left
        obtain ⟨plain, counted⟩ := owned.dropped left shared
        -- What the other pointer holds still has a reference, with room for one more.
        have roomy : Room (dropped w.arena old) source := by
          by_cases apart : old = source
          · intro valid
            subst apart
            obtain ⟨set, _⟩ := Allocator.valid_iff.mp valid
            have before := counted old set
            have bounded := (w.arena.refs old).toNat_lt
            rw [if_pos rfl, ← owned.counted old set] at before
            omega
          · intro valid
            obtain ⟨set, _⟩ := Allocator.valid_iff.mp valid
            have before := counted source set
            rw [if_neg apart, Nat.add_zero, ← owned.counted source set] at before
            rw [before]
            exact room apart (owned.valid right set)
        have kept : ∀ o, o ≠ ⟨0, 0⟩ → 0 < w.holders o → old = o → 2 ≤ w.holders o := by
          rintro o set before rfl
          have exact_ := owned.counted old set
          by_contra few
          have one : w.holders old = 1 := by omega
          exact shared set (UInt64.toNat_inj.mp (by simpa [one] using exact_))
        rcases fromSlabId_cases plain source roomy with
          ⟨invalid, result⟩ | ⟨next, result, plainNext, change, grown⟩
        · -- Only an empty pointer has nothing to retain.
          have empty : source = ⟨0, 0⟩ := by
            by_contra set
            have before := counted source set
            have positive := holders_pos (owned.living other source right) right
            have several : old = source → 2 ≤ w.holders source := fun at_ =>
              holders_two same inside (owned.living other source right) (at_ ▸ left) right
            have free : (dropped w.arena old).refs source = 0 := by
              by_contra held
              rw [Allocator.valid_iff.mpr ⟨set, held⟩] at invalid
              simp at invalid
            rw [free] at before
            split at before
            · rename_i at_
              have := several at_
              simp at before
              omega
            · simp at before
              omega
          have final : w' = ({ w with arena := dropped w.arena old } : CPtrs T).set target
              (some ⟨0, 0⟩) := copyAssign_eq left right same result stepped
          rw [final]
          have moved : ∀ o, o ≠ ⟨0, 0⟩ → (({ w with arena := dropped w.arena old } : CPtrs T).set
              target (some ⟨0, 0⟩)).holders o + (if old = o then 1 else 0) = w.holders o := by
            intro o set
            have change := holders_set (w := { w with arena := dropped w.arena old }) inside
              (some ⟨0, 0⟩) o
            have none : ¬ ((some ⟨0, 0⟩ : Option SlabId) = some o) := by simpa using Ne.symm set
            rw [if_neg none, Nat.add_zero] at change
            simp only [left, Option.some.injEq] at change
            exact change
          refine lawful_of_kept plain (dropped_runs _ _)
            (living_set (w := { w with arena := dropped w.arena old }) owned.living inside _) ?_ ?_
          · intro o set
            have before := counted o set
            have after := moved o set
            show ((dropped w.arena old).refs o).toNat = _
            omega
          · intro o set before
            have after := moved o set
            have several := kept o set before
            split at after
            · rename_i here
              have := several here
              omega
            · omega
        · have final := copyAssign_eq left right same result stepped
          rw [final]
          have moved : ∀ o, (({ w with arena := next } : CPtrs T).set target (some source)).holders o +
              (if old = o then 1 else 0) = w.holders o + if source = o then 1 else 0 := by
            intro o
            have change := holders_set (w := { w with arena := next }) inside (some source) o
            simp only [left, Option.some.injEq] at change
            exact change
          refine lawful_of_kept plainNext (change.runs.trans (dropped_runs _ _))
            (living_set (w := { w with arena := next }) owned.living inside _) ?_ ?_
          · intro o set
            have before := counted o set
            have after := moved o
            show (next.refs o).toNat = _
            by_cases here : source = o
            · subst here
              rw [change.own, grown]
              rw [if_pos rfl] at after
              omega
            · rw [change.others o (Ne.symm here)]
              rw [if_neg here] at after
              omega
          · intro o set before
            have after := moved o
            have several := kept o set before
            by_cases here : old = o
            · have := several here
              rw [if_pos here] at after
              omega
            · rw [if_neg here] at after
              omega

theorem fromSlabId_overflow {arena : Allocator T} (plain : arena.Plain)
    (valid : arena.valid source = true) (full : ¬ (arena.refs source).toNat + 1 < 2 ^ 64) :
    ∃ next, CPtr.fromSlabId arena source = (source, next) ∧ next.refs source = 0 := by
  obtain ⟨set, holds⟩ := Allocator.valid_iff.mp valid
  obtain ⟨slab, addressed, held⟩ := Allocator.slab_of_refs holds
  have bounded := (arena.refs source).toNat_lt
  have wrapped : slab.inUse source.second + 1 = 0 := by
    rw [← Allocator.refs_of_slab addressed]
    apply UInt64.toNat_inj.mp
    rw [UInt64.toNat_add]
    have last : (arena.refs source).toNat = 2 ^ 64 - 1 := by omega
    rw [last]
    decide
  have taken : arena.tryRetain source = (true, arena.setSlab source.first
      (slab.setInUse source.second 0)) := by
    simp [Allocator.tryRetain, SlabId.isSet_iff.mpr set, addressed, held, plain.mortal source,
      wrapped]
  refine ⟨arena.setSlab source.first (slab.setInUse source.second 0), ?_, ?_⟩
  · simp only [CPtr.fromSlabId, taken]
  rw [Allocator.refs_setSlab_same _ (Allocator.slabOf_eq_some.mp addressed).1, Slab.setInUse_same]

theorem sound_copyConstruct [Inhabited T] (owned : w.Owned)
    (stepped : w.step (.copyConstruct other) = some w') (lawful : Lawful w w') :
    w.Sound (.copyConstruct other) := by
  intro source holds valid
  by_contra full
  obtain ⟨next, result, zero⟩ := fromSlabId_overflow owned.plain valid full
  simp only [step, holds, Option.map_some, CPtr.copyConstruct, result, Option.some.injEq] at stepped
  -- The slot would have no reference while the new pointer holds it.
  have counted := lawful.counted source (Allocator.valid_iff.mp valid).1
  rw [← stepped, holders_push] at counted
  change (next.refs source).toNat = _ at counted
  rw [zero, if_pos rfl] at counted
  simp at counted

theorem sound_copyAssign [Inhabited T] (owned : w.Owned)
    (stepped : w.step (.copyAssign target other) = some w') (lawful : Lawful w w') :
    w.Sound (.copyAssign target other) := by
  intro old source left right different
  have inside := owned.living target old left
  -- Whatever is retained, the result is the other pointer's slot or the null slot.
  obtain ⟨si, next, result, final⟩ : ∃ si next,
      CPtr.fromSlabId (dropped w.arena old) source = (si, next) ∧
        w' = ({ w with arena := next } : CPtrs T).set target (some si) := by
    rcases result : CPtr.fromSlabId (dropped w.arena old) source with ⟨si, next⟩
    exact ⟨si, next, rfl, copyAssign_eq left right different result stepped⟩
  have moved := fun o => holders_set (w := { w with arena := next }) inside (some si) o
  simp only [left, Option.some.injEq] at moved
  have shared : old ≠ ⟨0, 0⟩ → w.arena.refs old ≠ 1 := by
    intro set last
    have one : w.holders old = 1 := by
      rw [← owned.counted old set, last]
      rfl
    have apart : si ≠ old := by
      intro same
      -- The other pointer would be a second holder, and the null slot is not `old`.
      have retained : si = source ∨ si = ⟨0, 0⟩ := by
        have unfolded := result
        unfold CPtr.fromSlabId at unfolded
        split at unfolded
        · exact Or.inl (congrArg Prod.fst unfolded).symm
        · exact Or.inr (congrArg Prod.fst unfolded).symm
      rcases retained with here | null
      · have several := holders_two different inside (owned.living other source right) left
          (by rw [right, ← here, same])
        omega
      · exact set (same.symm.trans null)
    have gone : w'.holders old = 0 := by
      have after := moved old
      rw [if_pos rfl, if_neg apart] at after
      rw [final]
      change _ + 1 = w.holders old + 0 at after
      omega
    -- The payload should be destroyed, but neither half of the assignment destroys anything.
    have silent : w'.arena.destructorRuns = w.arena.destructorRuns := by
      rw [final]
      show next.destructorRuns = _
      have kept : next = ((dropped w.arena old).tryRetain source).2 := by
        have unfolded := result
        unfold CPtr.fromSlabId at unfolded
        split at unfolded
        · rename_i taken
          rw [taken]
          exact (congrArg Prod.snd unfolded).symm
        · rename_i refused
          rw [refused]
          exact (congrArg Prod.snd unfolded).symm
      rw [kept, (Allocator.tryRetain_sameButSlabs _ source).destructorRuns, dropped_runs]
    obtain ⟨list, runs, _, members, _⟩ := lawful.destroyed
    rw [silent] at runs
    have none : list = [] := by simpa using runs
    have member := (members old).mpr ⟨set, by omega, gone⟩
    simp [none] at member
  refine ⟨shared, fun apart valid => ?_⟩
  by_contra full
  obtain ⟨set, _⟩ := Allocator.valid_iff.mp valid
  obtain ⟨plain, counted⟩ := owned.dropped left shared
  have same : ((dropped w.arena old).refs source).toNat = (w.arena.refs source).toNat := by
    have before := counted source set
    rw [if_neg apart, Nat.add_zero] at before
    rw [before, owned.counted source set]
  have still : (dropped w.arena old).valid source = true := by
    refine Allocator.valid_iff.mpr ⟨set, fun zero => ?_⟩
    rw [zero] at same
    exact (Allocator.valid_iff.mp valid).2 (UInt64.toNat_inj.mp same.symm)
  obtain ⟨next', result', zero⟩ := fromSlabId_overflow plain still (by rwa [same])
  rw [result] at result'
  simp only [Prod.mk.injEq] at result'
  obtain ⟨rfl, rfl⟩ := result'
  -- The slot would have no reference while the target holds it.
  have wrong := lawful.counted si set
  have after := moved si
  rw [if_neg apart, if_pos rfl, Nat.add_zero] at after
  rw [final] at wrong
  change (next.refs si).toNat = _ at wrong
  rw [zero, after] at wrong
  simp at wrong

theorem lawful_iff_sound [Inhabited T] (owned : w.Owned) {call : CPtrCall T}
    (stepped : w.step call = some w') : Lawful w w' ↔ w.Sound call := by
  cases call with
  | make create item => exact iff_of_true (step_make owned stepped).2 trivial
  | copyConstruct other =>
    exact ⟨sound_copyConstruct owned stepped, fun sound => (step_copyConstruct owned sound stepped).2⟩
  | moveConstruct other =>
    obtain ⟨source, holds, rfl⟩ := Option.map_eq_some_iff.mp stepped
    exact iff_of_true (step_transfer owned holds).2 trivial
  | copyAssign target other =>
    exact ⟨sound_copyAssign owned stepped, fun sound => (step_copyAssign owned sound stepped).2⟩
  | moveAssign target other => exact iff_of_true (step_moveAssign owned stepped).2 trivial
  | readopt other =>
    obtain ⟨source, holds, rfl⟩ := Option.map_eq_some_iff.mp stepped
    exact iff_of_true (step_transfer owned holds).2 trivial
  | destroy target => exact iff_of_true (step_destroy owned stepped).2 trivial

theorem owned_of_sound [Inhabited T] (owned : w.Owned) {call : CPtrCall T} (sound : w.Sound call)
    (stepped : w.step call = some w') : w'.Owned := by
  cases call with
  | make create item => exact (step_make owned stepped).1
  | copyConstruct other => exact (step_copyConstruct owned sound stepped).1
  | moveConstruct other =>
    obtain ⟨source, holds, rfl⟩ := Option.map_eq_some_iff.mp stepped
    exact (step_transfer owned holds).1
  | copyAssign target other => exact (step_copyAssign owned sound stepped).1
  | moveAssign target other => exact (step_moveAssign owned stepped).1
  | readopt other =>
    obtain ⟨source, holds, rfl⟩ := Option.map_eq_some_iff.mp stepped
    exact (step_transfer owned holds).1
  | destroy target => exact (step_destroy owned stepped).1

end Steps

section Runs

variable [Inhabited T]

theorem initial_owned : (initial : CPtrs T).Owned := by
  refine ⟨Allocator.initial_plain, fun k si holds => by simp [initial] at holds, ?_⟩
  intro si set
  have none : (initial : CPtrs T).holders si = 0 := rfl
  have free : (initial : CPtrs T).arena.refs si = 0 := by
    show (Allocator.initial : Allocator T).refs si = 0
    rw [Allocator.initial_eq]
    by_cases at_ : si.first = 0
    · have elsewhere : si.second ≠ 0 := fun zero => set (by cases si; simp_all)
      by_cases inside : si.InRange
      · have stored := Allocator.refs_setSlab_same (s := ({} : Allocator T))
          ((Slab.fresh false : Slab T).take 0) inside
        rw [at_, Slab.take_other _ elsewhere] at stored
        exact stored
      · have outside : ¬ (si.first < numSlabs ∧ si.second < slabSize) := inside
        simp [Allocator.refs, Allocator.slabOf, outside]
    · exact Allocator.refs_of_absent (by simp [Allocator.setSlab, at_])
  rw [free, none]
  rfl

def StepLawful (w : CPtrs T) (call : CPtrCall T) : Prop :=
  ∀ w', w.step call = some w' → Lawful w w'

/-- In a run every operation is lawful exactly when every operation is sound. -/
theorem lawful_throughout_iff (calls : List (CPtrCall T)) :
    StepsMeet step StepLawful (initial : CPtrs T) calls ↔
      StepsMeet step Sound (initial : CPtrs T) calls := by
  have judged : ∀ (w : CPtrs T) call w', w.Owned → w.step call = some w' →
      (StepLawful w call ↔ w.Sound call) := by
    intro w call w' owned stepped
    constructor
    · intro lawful
      exact (lawful_iff_sound owned stepped).mp (lawful w' stepped)
    · intro sound w'' stepped'
      exact (lawful_iff_sound owned stepped').mpr sound
  exact stepsMeet_iff judged (fun w call w' owned sound stepped => owned_of_sound owned sound stepped)
    calls initial initial_owned

end Runs

set_option maxRecDepth 100000 in
/-- Copy assignment over the last pointer to a slot frees the slot without destroying its payload. -/
theorem lawful_fails_for_last_copyAssign :
    ¬ StepsMeet step StepLawful (initial : CPtrs UInt8)
      [.make (fun _ => true) 7, .make (fun _ => true) 8, .copyAssign 0 1] := by
  intro lawful
  -- No destructor has run before or after the assignment, which takes the first slot's only holder.
  have facts : (runFrom step (initial : CPtrs UInt8)
      [.make (fun _ => true) 7, .make (fun _ => true) 8]).bind (fun w =>
        (w.step (.copyAssign 0 1)).map fun w' => (w.arena.destructorRuns, w'.arena.destructorRuns,
          w.holders ⟨0, 1⟩, w'.holders ⟨0, 1⟩)) = some ([], [], 1, 0) := by
    decide +kernel
  obtain ⟨w, ran, assigned⟩ := Option.bind_eq_some_iff.mp facts
  obtain ⟨w', stepped, values⟩ := Option.map_eq_some_iff.mp assigned
  simp only [Prod.mk.injEq] at values
  have last : StepsMeet step StepLawful w [.copyAssign 0 1] := StepsMeet.drop
    [.make (fun _ => true) 7, .make (fun _ => true) 8] initial lawful ran
  obtain ⟨gone, runs, _, members, _⟩ := ((last w' stepped).1 w' stepped).destroyed
  have none : gone = [] := by
    rw [values.1, values.2.1] at runs
    simpa using runs.symm
  have member := (members ⟨0, 1⟩).mpr ⟨by decide, by omega, values.2.2.2⟩
  simp [none] at member

end CPtrs

end AgentC

import AgentC.Alloc.RevivalLaws

/-! Exactly when the checkpoint of a restored arena takes back what is allocated after restoring. -/

namespace AgentC

universe u

namespace Allocator

variable {T : Type u} {r s t : Allocator T}

section Failing

theorem Revived.starts_log [Inhabited T] (revived : Revived r) (traits : ArenaTraits T)
    {top : CheckpointFrame} {rest : List CheckpointFrame} (frames : r.checkpoints = top :: rest)
    (rolls : ∀ requests, r.RollsBack traits requests) (room : r.HasRoom) : top.logStart = 0 := by
  have inside : r.checkpoints ≠ [] := by
    rw [frames]
    exact List.cons_ne_nil _ _
  obtain ⟨si, t, given, _, _⟩ := revived.exists_allocate inside room
  have taken : (r.allocateAll [(fun _ => true, default)]).1 = [si] := by
    rw [allocateAll, given]
    rfl
  obtain ⟨_, entered, additions, slabs⟩ := revived.rollback_walks traits frames [(fun _ => true, default)]
  by_contra later
  have undone := (rolls [(fun _ => true, default)]).undone si (by rw [taken]; exact List.mem_singleton.mpr rfl)
  have nothing : [si].drop top.logStart = [] := List.drop_of_length_le (by
    rw [List.length_singleton]
    omega)
  rw [taken, nothing] at slabs
  have valid := (additions.taken si (by rw [taken]; exact List.mem_singleton.mpr rfl)).1
  rw [← held_isSome] at valid undone
  rw [held_of_slabs (congrFun slabs si.first)] at undone
  rw [List.reverse_nil, List.foldl_nil, valid] at undone
  cases undone

theorem Revived.counted [Inhabited T] (revived : Revived r) (traits : ArenaTraits T)
    {top : CheckpointFrame} {rest : List CheckpointFrame} (frames : r.checkpoints = top :: rest)
    (rolls : ∀ requests, r.RollsBack traits requests) : r.LastCounted := by
  intro set more uncounted
  have inside : r.checkpoints ≠ [] := by
    rw [frames]
    exact List.cons_ne_nil _ _
  have range := currentHighWatermark_inRange r
  have room : r.HasRoom := by
    intro full
    rw [full] at more
    simp only [slabSize] at more
    omega
  obtain ⟨si, t, given, next, _⟩ := revived.exists_allocate inside room
  have behind : r.Candidate ⟨r.currentHighWatermark.first, r.currentHighWatermark.second + 1⟩ :=
    revived.candidate inside ⟨range.1, more⟩ (Or.inr ⟨rfl, Nat.lt_succ_self _⟩)
  -- The next slot is the one directly behind the watermark, so it lies in the watermark's slab.
  have own : si.first = r.currentHighWatermark.first := by
    have past := next.1.2.2
    rw [if_neg inside] at past
    have after := past.2 set
    by_contra other
    refine next.2 _ ?_ behind
    simp only [SlabId.Before] at after ⊢
    omega
  have taken : (r.allocateAll [(fun _ => true, default)]).1 = [si] := by
    rw [allocateAll, given]
    rfl
  obtain ⟨_, entered, additions, slabs⟩ := revived.rollback_walks traits frames [(fun _ => true, default)]
  rw [revived.starts_log traits frames rolls room, List.drop_zero, taken, List.reverse_singleton,
    List.foldl_cons, List.foldl_nil] at slabs
  rw [taken] at additions
  obtain ⟨valid, _, _⟩ := additions.taken si (List.mem_singleton.mpr rfl)
  obtain ⟨slab, addressed, freed⟩ := rollbackAllocation_freed valid (additions.mortal si)
  have stored := (slabOf_eq_some.mp addressed).2
  have count : slab.count.toNat = 1 := by
    have total := additions.counts si.first
    rw [countAt_of_stored stored, own, uncounted] at total
    have alone : lyingIn [si] r.currentHighWatermark.first = 1 := by
      have only := lyingIn_concat [] si r.currentHighWatermark.first
      rw [if_pos own] at only
      exact only
    rw [alone] at total
    exact total
  have deleted : (entered.rollbackAllocation si).slabs r.currentHighWatermark.first = none := by
    have emptied : (slab.setInUse si.second 1).count - 1 = 0 :=
      word_sub_one_eq_zero.mpr (UInt64.toNat_inj.mp count)
    rw [freed.slabs, ← own]
    simp only [if_true, emptied]
  have held : r.valid r.currentHighWatermark = true :=
    valid_iff.mpr ⟨set, (currentHighWatermark_held r).resolve_left set⟩
  have kept := ((rolls [(fun _ => true, default)]).kept _ held).1
  have gone := refs_of_absent ((congrFun slabs _).trans deleted)
  exact (valid_iff.mp kept).2 gone

end Failing

section Restoring

def Light (slab : Slab T) : Prop :=
  slab.staticImmortal = false ∧ slab.count.toNat < 2 ^ 32

theorem restoreImage_light [Inhabited T] (traits : ArenaTraits T) (image : ArenaSlabImage)
    (light : EverySlab Light s) : EverySlab Light (restoreImage traits s image).2 := by
  rcases restoreImage_cases traits s image with refused | ⟨_, done, slab, result, count, _, mortal⟩
  · rw [refused]
    exact light
  · rw [result]
    refine light.setSlab ⟨mortal, ?_⟩
    rw [count, UInt32.toNat_toUInt64]
    exact image.count.toNat_lt

theorem restoreImages_light [Inhabited T] (traits : ArenaTraits T) (images : List ArenaSlabImage) :
    ∀ s : Allocator T, EverySlab Light s → EverySlab Light (restoreImages traits images s).2 := by
  induction images with
  | nil => exact fun _ light => light
  | cons image rest ih =>
    intro s light
    have one := restoreImage_light traits image light
    rw [restoreImages]
    rcases given : restoreImage traits s image with ⟨done, after⟩
    rw [given] at one
    cases done with
    | false => exact one
    | true => exact ih after one

theorem revived_of_slabs (slabs : EverySlab (fun slab => slab.staticImmortal = false ∧ slab.count.toNat < 2 ^ 33) r)
    (rest : r = { slabs := r.slabs, checkpoints := r.checkpoints })
    (frames : ∀ frame ∈ r.checkpoints, frame.appendOnly = false) : Revived r where
  frames := frames
  log := by rw [rest]
  reserved := by rw [rest]
  mortal si := by
    have slabs' : r.staticImmortalSlabs si.first = 0 := by rw [rest]
    have slots' : r.staticImmortalSlots si = 0 := by rw [rest]
    unfold slotIsStaticImmortal
    rw [slabs', slots']
    cases stored : r.slabs si.first with
    | none => simp
    | some slab => simp [(slabs si.first slab stored).1]
  small index := by
    cases stored : r.slabs index with
    | none =>
      unfold countAt
      rw [stored]
      show 0 < 2 ^ 33
      decide
    | some slab =>
      rw [countAt_of_stored stored]
      exact (slabs index slab stored).2

theorem noUserSlots_initial [Inhabited T] : (initial : Allocator T).noUserSlots = true := by
  refine List.all_eq_true.mpr fun index _ => List.all_eq_true.mpr fun offset _ => ?_
  by_cases null : (⟨index, offset⟩ : SlabId) = ⟨0, 0⟩
  · rw [null]
    rfl
  · have free : (initial : Allocator T).refs ⟨index, offset⟩ = 0 := by
      rw [initial_eq]
      unfold refs slabOf setSlab
      split
      · rename_i slab found
        split at found
        · dsimp only at found
          split at found
          · rename_i zero
            have other : offset ≠ 0 := fun same => null (by rw [zero, same])
            cases found
            exact Slab.take_other (Slab.fresh false) other
          · cases found
        · cases found
      · rfl
    rw [free]
    simp

def reopened [Inhabited T] (starts : List Nat) : Allocator T where
  slabs := (initial : Allocator T).slabs
  checkpoints := starts.reverse.map fun start => ⟨start, {}, false⟩

theorem restoreArenaMetadata_exported (starts : List Nat) (user : s.noUserSlots = true)
    (whole : s = { slabs := s.slabs }) :
    s.restoreArenaMetadata ⟨1, AgentC.slabSize, starts⟩ =
      (true, { slabs := s.slabs, checkpoints := starts.reverse.map fun start => ⟨start, {}, false⟩ }) := by
  have checkpoints : s.checkpoints = [] := by rw [whole]
  have log : s.allocationLog = [] := by rw [whole]
  unfold restoreArenaMetadata
  rw [if_pos ⟨rfl, rfl, user, checkpoints, log⟩, whole]

theorem restoreArenaMetadata_initial [Inhabited T] (starts : List Nat) :
    (initial : Allocator T).restoreArenaMetadata ⟨1, AgentC.slabSize, starts⟩ = (true, reopened starts) := by
  have whole : (initial : Allocator T) = { slabs := (initial : Allocator T).slabs } := by
    rw [initial_eq]
    rfl
  exact restoreArenaMetadata_exported starts noUserSlots_initial whole

theorem revive_of_restored [Inhabited T] {traits : ArenaTraits T} {create : Nat → Bool}
    {metadata : ArenaCheckpointMetadata} {images : List ArenaSlabImage}
    (restored : (initial : Allocator T).restoreArenaMetadata metadata = (true, s)) :
    revive traits create metadata images = some r ↔
      s.restoreSlabImages traits create images = (.ok true, r) := by
  unfold revive
  rw [restored]
  dsimp only
  generalize s.restoreSlabImages traits create images = given
  match given with
  | (.ok true, after) => simp
  | (.ok false, after) => simp
  | (.error _, after) => simp

theorem revive_eq_some [Inhabited T] {traits : ArenaTraits T} {create : Nat → Bool} {starts : List Nat}
    {images : List ArenaSlabImage} : revive traits create ⟨1, AgentC.slabSize, starts⟩ images = some r ↔
      (reopened starts).restoreSlabImages traits create images = (.ok true, r) :=
  revive_of_restored (restoreArenaMetadata_initial starts)

theorem restoreSlabImages_checkpoints [Inhabited T] (traits : ArenaTraits T) (create : Nat → Bool)
    (images : List ArenaSlabImage) (s : Allocator T) :
    (s.restoreSlabImages traits create images).2.checkpoints = s.checkpoints := by
  have same := (restoreImages_sameButSlabs traits images s.clearSlabsOnly).checkpoints
  unfold restoreSlabImages
  split
  · rfl
  · rcases given : restoreImages traits images s.clearSlabsOnly with ⟨done, t⟩
    rw [given] at same
    have same : t.checkpoints = s.checkpoints := same
    cases done with
    | false => exact same
    | true =>
      dsimp only
      split
      · obtain ⟨mid, grown, result⟩ := allocRaw_grown t create
        have kept : (t.allocRaw create).2.checkpoints = s.checkpoints := by
          have before : mid.checkpoints = s.checkpoints := (grown.rest ▸ rfl : mid.checkpoints = t.checkpoints).trans same
          rcases result with result | ⟨si, result⟩
          · rw [result, before]
          · rw [result, (markAllocated_rest mid si).1.checkpoints]
            exact before
        split
        · rename_i given
          rw [given] at kept
          exact kept
        · rename_i given
          rw [given] at kept
          exact kept
      · exact same

theorem restoreSlabImages_revived [Inhabited T] (traits : ArenaTraits T) (create : Nat → Bool)
    (images : List ArenaSlabImage) (rest : s = { slabs := s.slabs, checkpoints := s.checkpoints })
    (light : EverySlab Light s) (inside : s.checkpoints ≠ [])
    (frames : ∀ frame ∈ s.checkpoints, frame.appendOnly = false)
    (restored : s.restoreSlabImages traits create images = (.ok true, r)) : Revived r := by
  have cleared : EverySlab Light s.clearSlabsOnly := by
    intro index slab stored
    unfold clearSlabsOnly at stored
    dsimp only at stored
    split at stored
    · cases stored
    · exact light index slab stored
  have filled := restoreImages_light traits images s.clearSlabsOnly cleared
  have same : SameButSlabs s (restoreImages traits images s.clearSlabsOnly).2 :=
    restoreImages_sameButSlabs traits images s.clearSlabsOnly
  have light {slab : Slab T} (light : Light slab) : slab.staticImmortal = false ∧ slab.count.toNat < 2 ^ 33 :=
    ⟨light.1, light.2.trans (by decide)⟩
  unfold restoreSlabImages at restored
  split at restored
  · cases restored
  · rcases given : restoreImages traits images s.clearSlabsOnly with ⟨done, t⟩
    rw [given] at restored filled same
    cases done with
    | false => cases restored
    | true =>
      have same : SameButSlabs s t := same
      have rest' : t = { slabs := t.slabs, checkpoints := t.checkpoints } := by
        refine Eq.trans same ?_
        rw [same.checkpoints, rest]
      dsimp only at restored
      split at restored
      · -- The null slot is not in the images, and one more slot is taken.
        have outstanding : t.checkpoints ≠ [] := same.checkpoints ▸ inside
        have before : Revived t := revived_of_slabs (fun index slab stored => light (filled index slab stored))
          rest' (same.checkpoints ▸ frames)
        rcases allocRaw_cases_inside outstanding create with ⟨e, u, result, _⟩ | ⟨si, slab, mid, result, found⟩
        · rw [result] at restored
          cases restored
        · have marked := found.marked fun si _ => before.mortal si
          have stored := (slabOf_eq_some.mp found.addressed).2
          have grown : EverySlab Light mid :=
            found.grown.everySlab (fun _ => ⟨rfl, show 0 < 2 ^ 32 by decide⟩) filled
          have own := grown si.first slab stored
          rw [result, marked, found.grown.rest] at restored
          cases restored
          refine revived_of_slabs ?_ ?_ (same.checkpoints ▸ frames)
          · have slabs : EverySlab (fun slab => slab.staticImmortal = false ∧ slab.count.toNat < 2 ^ 33)
                (mid.setSlab si.first (slab.take si.second)) := by
              refine EverySlab.setSlab (fun index slab stored => light (grown index slab stored)) ⟨own.1, ?_⟩
              rw [Slab.take_count, word_add_one_toNat (by have bound := own.2; omega)]
              have bound := own.2
              omega
            exact slabs
          · rw [rest']
            rfl
      · cases restored
        exact revived_of_slabs (fun index slab stored => light (filled index slab stored))
          rest' (same.checkpoints ▸ frames)

theorem reopened_light [Inhabited T] (starts : List Nat) :
    EverySlab Light (reopened starts : Allocator T) := by
  intro index slab stored
  unfold reopened at stored
  dsimp only at stored
  rw [initial_eq] at stored
  unfold setSlab at stored
  dsimp only at stored
  split at stored
  · cases stored
    exact ⟨rfl, show 1 < 2 ^ 32 by decide⟩
  · cases stored

end Restoring

/--
The restored checkpoint takes back all that is allocated afterwards exactly in these states.

A checkpoint was outstanding when the arena was saved. The innermost one had been opened before
anything was logged, unless no slot can be allocated. The slab in which the next slot lies has a count.
-/
theorem rollsBack_iff [Inhabited T] (traits : ArenaTraits T) (create : Nat → Bool) (s r : Allocator T)
    (revived : revive traits create s.exportArenaMetadata (s.exportSlabImages traits) = some r) :
    (∀ requests, r.RollsBack traits requests) ↔
      (∃ top rest, s.checkpoints = top :: rest ∧ (r.HasRoom → top.logStart = 0)) ∧
        (r.checkpoints ≠ [] → r.LastCounted) := by
  have restored := revive_eq_some.mp revived
  have frames : r.checkpoints = s.checkpoints.map fun frame => ⟨frame.logStart, {}, false⟩ := by
    have kept := restoreSlabImages_checkpoints traits create (s.exportSlabImages traits)
      (reopened s.logStarts.reverse : Allocator T)
    rw [restored] at kept
    rw [kept]
    show (s.logStarts.reverse.reverse.map _) = _
    rw [List.reverse_reverse, logStarts, List.map_map]
    rfl
  have logged : ∀ frame ∈ r.checkpoints, frame.appendOnly = false := by
    intro frame member
    rw [frames] at member
    obtain ⟨before, _, rfl⟩ := List.mem_map.mp member
    rfl
  cases given : s.checkpoints with
  | nil =>
    rw [given] at frames
    -- Without a checkpoint there is nothing to roll back.
    refine iff_of_false ?_ ?_
    · intro rolls
      have succeeds := (rolls []).succeeds
      unfold rollbackCurrent rollback at succeeds
      rw [allocateAll, frames] at succeeds
      cases succeeds
    · rintro ⟨⟨top, rest, outstanding, _⟩, _⟩
      cases outstanding
  | cons top rest =>
    rw [given, List.map_cons] at frames
    have inside : r.checkpoints ≠ [] := by
      rw [frames]
      exact List.cons_ne_nil _ _
    have same : (reopened s.logStarts.reverse : Allocator T).checkpoints =
        r.checkpoints := by
      have kept := restoreSlabImages_checkpoints traits create (s.exportSlabImages traits)
        (reopened s.logStarts.reverse : Allocator T)
      rw [restored] at kept
      exact kept.symm
    have revived := restoreSlabImages_revived traits create (s.exportSlabImages traits) rfl
      (reopened_light _) (same ▸ inside) (same ▸ logged) restored
    constructor
    · intro rolls
      have anew : r.HasRoom → top.logStart = 0 := by
        intro room
        have starts := revived.starts_log traits frames rolls room
        exact starts
      exact ⟨⟨top, rest, rfl, anew⟩, fun _ => revived.counted traits frames rolls⟩
    · rintro ⟨⟨_, _, outstanding, anew⟩, counted⟩ requests
      cases outstanding
      exact revived.rollsBack traits frames anew (counted inside) requests

set_option maxRecDepth 100000 in
/-- An arena saved with one checkpoint and nothing else is restored with that checkpoint. -/
theorem rollsBack_iff_opened : ∃ r, revive byteTraits (fun _ => true)
      (initial : Allocator UInt8).checkpoint.2.exportArenaMetadata
      ((initial : Allocator UInt8).checkpoint.2.exportSlabImages byteTraits) = some r ∧
    ((∀ requests, r.RollsBack byteTraits requests) ↔
      (∃ top rest, (initial : Allocator UInt8).checkpoint.2.checkpoints = top :: rest ∧
        (r.HasRoom → top.logStart = 0)) ∧ (r.checkpoints ≠ [] → r.LastCounted)) := by
  have starts : (initial : Allocator UInt8).checkpoint.2.logStarts.reverse = [0] := by decide +kernel
  have images : (initial : Allocator UInt8).checkpoint.2.exportSlabImages byteTraits = [] :=
    List.isEmpty_iff.mp (by decide +kernel)
  have done : ((reopened [0] : Allocator UInt8).restoreSlabImages byteTraits
      (fun _ => true) []).1.toOption = some true := by decide +kernel
  rcases restored : (reopened [0] : Allocator UInt8).restoreSlabImages byteTraits (fun _ => true) []
    with ⟨answer, r⟩
  rw [restored] at done
  cases answer with
  | error _ => cases done
  | ok succeeded =>
    cases done
    have revived : revive byteTraits (fun _ => true)
        (initial : Allocator UInt8).checkpoint.2.exportArenaMetadata
        ((initial : Allocator UInt8).checkpoint.2.exportSlabImages byteTraits) = some r := by
      rw [images, exportArenaMetadata, starts]
      exact revive_eq_some.mpr restored
    exact ⟨r, revived, rollsBack_iff byteTraits _ _ r revived⟩

def loggedCalls : List (AllocatorCall UInt8) :=
  [.checkpoint, .allocate (fun _ => true) 7, .deallocate ⟨0, 1⟩, .checkpoint]

set_option maxRecDepth 100000 in
/-- What is allocated first under the checkpoint that is restored after these calls survives its rollback. -/
theorem rollsBack_fails_behind_log : ∃ s r, runFrom (step byteTraits) initial loggedCalls = some s ∧
    revive byteTraits (fun _ => true) s.exportArenaMetadata (s.exportSlabImages byteTraits) = some r ∧
    ¬ r.RollsBack byteTraits [(fun _ => true, 9)] := by
  have saved : (runFrom (step byteTraits) initial loggedCalls).map (fun s =>
      (s.logStarts.reverse, (s.exportSlabImages byteTraits).isEmpty)) = some ([0, 1], true) := by
    decide +kernel
  obtain ⟨s, ran, exported⟩ := Option.map_eq_some_iff.mp saved
  obtain ⟨starts, images⟩ := Prod.mk.inj exported
  have facts : (let given := (reopened [0, 1] : Allocator UInt8).restoreSlabImages byteTraits (fun _ => true) []
      (given.1.toOption, (given.2.allocateAll [(fun _ => true, 9)]).1,
        (given.2.rollbackCurrent byteTraits [(fun _ => true, 9)]).2.valid ⟨0, 2⟩)) =
      (some true, [⟨0, 2⟩], true) := by
    decide +kernel
  rcases restored : (reopened [0, 1] : Allocator UInt8).restoreSlabImages byteTraits (fun _ => true) [] with
    ⟨done, r⟩
  rw [restored] at facts
  obtain ⟨succeeded, facts⟩ := Prod.mk.inj facts
  obtain ⟨given, survives⟩ := Prod.mk.inj facts
  refine ⟨s, r, ran, ?_, fun rolls => ?_⟩
  · rw [List.isEmpty_iff.mp images, exportArenaMetadata, starts]
    refine revive_eq_some.mpr (restored.trans ?_)
    cases done with
    | error _ => cases succeeded
    | ok done =>
      cases succeeded
      rfl
  · have undone := rolls.undone ⟨0, 2⟩ (by rw [given]; exact List.mem_singleton.mpr rfl)
    rw [survives] at undone
    cases undone

end Allocator

end AgentC

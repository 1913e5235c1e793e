import AgentC.Alloc.Rollback
import AgentC.Alloc.StepLaws

/-! Rollback is exact: it frees what its scope allocated and keeps what its scope left alone. -/

namespace AgentC

universe u

namespace Allocator

variable {T : Type u} {s t x y : Allocator T} {clean : Bool}
  {added allocated released : List SlabId}

theorem Discards.widen {gone gone' : SlabId → Prop} (discards : Discards gone x y)
    (more : ∀ si, gone si → gone' si) (unheld : ∀ si, gone' si → ¬ gone si → x.refs si = 0) :
    Discards gone' x y :=
  { discards with
    free := fun si member => by
      by_cases was : gone si
      · exact discards.free si was
      · exact discards.stays (unheld si member was)
    others := fun si other => discards.others si fun was => other (more si was) }

@[simp] theorem currentHighWatermark_checkpoint (t : Allocator T) :
    t.checkpoint.2.currentHighWatermark = t.currentHighWatermark := by
  -- The watermark is read from the slabs, which a checkpoint does not touch.
  have below : ∀ index, t.checkpoint.2.watermarkBelow index = t.watermarkBelow index := by
    intro index
    induction index with
    | zero => rfl
    | succ index ih =>
      unfold watermarkBelow
      rw [ih]
      rfl
  exact below numSlabs

theorem Since.top (since : Since t.checkpoint.2 x clean added allocated released) :
    x.checkpoints = ⟨t.allocationLog.length, t.currentHighWatermark, clean⟩ ::
      framesAfter clean t.checkpoints := by
  rw [since.frames]
  cases clean <;> rfl

theorem Since.accepts (since : Since t.checkpoint.2 x clean added allocated released) :
    x.accepts t.checkpoint.1 = true := by
  unfold Allocator.accepts
  rw [since.top]
  cases clean <;> simp [checkpoint, framesAfter]

theorem Since.mortal (since : Since s x clean added allocated released) {si : SlabId}
    (free : s.refs si = 0) (holds : x.refs si ≠ 0) : x.slotIsStaticImmortal si = false :=
  (since.immortal si).trans (since.fresh si free holds).2.1

theorem free_of_past {si : SlabId} (inside : si.second < slabSize)
    (past : rank t.currentHighWatermark < rank si) : t.refs si = 0 := by
  by_contra holds
  have last := currentHighWatermark_last holds
  rw [before_iff_rank (currentHighWatermark_inRange t).2 inside] at last
  exact last past

theorem Since.watermark_le (since : Since t.checkpoint.2 x true added allocated released) :
    rank t.currentHighWatermark ≤ rank x.currentHighWatermark := by
  rcases currentHighWatermark_held t with null | holds
  · rw [null]
    simp [rank]
  · -- Nothing was freed, so the first watermark is still held and cannot lie past the last one.
    have still : x.refs t.currentHighWatermark ≠ 0 := by
      rcases since.held _ holds with ⟨stays, _⟩ | ⟨_, _, unclean, _⟩
      · exact stays
      · simp at unclean
    have last := currentHighWatermark_last still
    rw [before_iff_rank (currentHighWatermark_inRange x).2 (currentHighWatermark_inRange t).2] at last
    omega

theorem Since.past_widen (since : Since t.checkpoint.2 x true added allocated released)
    (discards : Discards (fun si => si.second < slabSize ∧ rank t.currentHighWatermark < rank si) x y) :
    Discards (fun si => t.refs si = 0) x y := by
  refine discards.widen (fun si past => free_of_past past.1 past.2) fun si free kept => ?_
  -- Were the slot held, it would have been allocated past the watermark.
  by_contra holds
  obtain ⟨_, addressed, _⟩ := slab_of_refs holds
  have inside := (slabOf_eq_some.mp addressed).1.2
  have past := (since.fresh si free holds).2.2 rfl
  rw [currentHighWatermark_checkpoint, past_iff_rank (currentHighWatermark_inRange t).2 inside] at past
  exact kept ⟨inside, past⟩

theorem Since.log_discards (since : Since t.checkpoint.2 x clean added allocated released) :
    Discards (fun si => t.refs si = 0) x (added.reverse.foldl Allocator.rollbackAllocation x) := by
  have free : ∀ si ∈ added, t.refs si = 0 := fun si member =>
    (since.allocatedFree si (since.logged si member)).2.1
  have replayed := rollbackLogged_discards added.reverse x since.cover fun si member => by
    have entry := List.mem_reverse.mp member
    exact ⟨(since.allocatedFree si (since.logged si entry)).1, since.mortal (free si entry)⟩
  -- Every slot taken inside the scope is in the log.
  refine replayed.widen (fun si member => free si (List.mem_reverse.mp member)) fun si unheld other => ?_
  by_contra holds
  exact other (List.mem_reverse.mpr (since.fresh si unheld holds).1)

theorem Since.walk_discards (since : Since t.checkpoint.2 x true added allocated released) :
    Discards (fun si => t.refs si = 0) x
      (x.rollbackAppendOnlyFromWatermark t.currentHighWatermark) := by
  refine since.past_widen (rollbackAppendOnly_discards since.cover
    (currentHighWatermark_inRange t).2 since.watermark_le fun si past holds => ?_)
  obtain ⟨_, addressed, _⟩ := slab_of_refs holds
  have free : t.refs si = 0 := free_of_past (slabOf_eq_some.mp addressed).1.2 past
  exact since.mortal free holds

theorem Since.discardSince (traits : ArenaTraits T)
    (since : Since t.checkpoint.2 x clean added allocated released) :
    Discards (fun si => t.refs si = 0) x
      (x.discardSince traits ⟨t.allocationLog.length, t.currentHighWatermark, clean⟩
        t.checkpoint.1) := by
  -- Only the two flags that report the choice are written before the reset.
  let entered : Allocator T := { x with
    lastRollbackUsedFastPath := clean
    lastRollbackUsedStrictFastPath := clean && traits.strictEligible }
  have flags : Since t.checkpoint.2 entered clean added allocated released :=
    ⟨since.cover, since.immortal, since.log, since.frames, since.reserved, since.reservedFree,
      since.held, since.fresh, since.logged, since.allocatedFree⟩
  suffices reset : Discards (fun si => t.refs si = 0) entered
      (x.discardSince traits ⟨t.allocationLog.length, t.currentHighWatermark, clean⟩
        t.checkpoint.1) from
    ⟨reset.cover, reset.immortal, reset.free, reset.others, reset.log, reset.frames, reset.reserved⟩
  show Discards (fun si => t.refs si = 0) entered
    (if clean then
      if traits.strictEligible then
        entered.rollbackStrictAppendOnlyFromWatermark traits t.currentHighWatermark
      else entered.rollbackAppendOnlyFromWatermark t.currentHighWatermark
    else (entered.allocationLog.drop t.allocationLog.length).reverse.foldl rollbackAllocation entered)
  cases clean with
  | true =>
    rw [if_pos rfl]
    split
    · exact flags.past_widen
        (rollbackStrict_discards traits flags.cover (currentHighWatermark_inRange t).2)
    · exact flags.walk_discards
  | false =>
    -- The entries past the token's log position are the scope's own.
    have own : entered.allocationLog.drop t.allocationLog.length = added := by
      rw [flags.log]
      exact List.drop_left
    rw [if_neg (by decide), own]
    exact flags.log_discards

theorem Since.rollback_eq (traits : ArenaTraits T)
    (since : Since t.checkpoint.2 x clean added allocated released) :
    ∃ reset, Discards (fun si => t.refs si = 0) x reset ∧
      x.rollback traits t.checkpoint.1 =
        (true, popCheckpoint { reset with allocationLog := t.allocationLog }) := by
  refine ⟨_, since.discardSince traits, ?_⟩
  -- The reset leaves the log alone, so cutting it off at the token's position restores it.
  have cut : resizeLog (x.discardSince traits
      ⟨t.allocationLog.length, t.currentHighWatermark, clean⟩ t.checkpoint.1).allocationLog
      t.checkpoint.1.logStart = t.allocationLog := by
    rw [(since.discardSince traits).log, since.log]
    simp [resizeLog, checkpoint]
  unfold rollback
  rw [since.top]
  simp only [since.accepts, if_true, cut]

theorem popCheckpoint_getPtr (s : Allocator T) (si : SlabId) :
    s.popCheckpoint.getPtr si = s.getPtr si :=
  getPtr_of_held (held_of_slabs (congrFun (popCheckpoint_slabs s) si.first))

theorem popCheckpoint_refs (s : Allocator T) (si : SlabId) : s.popCheckpoint.refs si = s.refs si :=
  refs_of_slabs (congrFun (popCheckpoint_slabs s) si.first)

theorem popCheckpoint_nested {frame : CheckpointFrame} {rest : List CheckpointFrame}
    (outstanding : s.checkpoints = frame :: rest) (nested : rest ≠ []) :
    s.popCheckpoint = { s with checkpoints := rest } := by
  simp [popCheckpoint, outstanding, nested]

theorem framesAfter_ne_nil {frames : List CheckpointFrame} (clean : Bool) (some_ : frames ≠ []) :
    framesAfter clean frames ≠ [] := by
  cases clean <;> simpa [framesAfter] using some_

theorem Since.commit (inside : t.checkpoints ≠ [])
    (since : Since t.checkpoint.2 x clean added allocated released) :
    Since t (x.commit t.checkpoint.1).2 clean added allocated released := by
  have popped := popCheckpoint_nested since.top (framesAfter_ne_nil clean inside)
  have committed : (x.commit t.checkpoint.1).2 = { x with
      checkpoints := framesAfter clean t.checkpoints
      lastRollbackUsedStrictFastPath := false } := by
    unfold Allocator.commit
    rw [if_pos since.accepts, popped]
  rw [committed]
  refine ⟨since.cover, since.immortal, since.log, rfl, since.reserved, since.reservedFree,
    since.held, fun si free holds => ?_, since.logged, since.allocatedFree⟩
  obtain ⟨member, mortal, past⟩ := since.fresh si free holds
  refine ⟨member, mortal, fun tidy => ?_⟩
  rw [← currentHighWatermark_checkpoint t]
  exact past tidy

theorem Since.rollback (traits : ArenaTraits T) (inside : t.checkpoints ≠ [])
    (since : Since t.checkpoint.2 x clean added allocated released) :
    ∃ clean', Since t (x.rollback traits t.checkpoint.1).2 clean' [] allocated released := by
  obtain ⟨reset, discards, rolled⟩ := since.rollback_eq traits
  obtain ⟨tidy, frames⟩ := discards.frames
  -- Both the scope and its rollback may have freed slots.
  have outstanding : reset.checkpoints =
      ⟨t.allocationLog.length, t.currentHighWatermark, clean && tidy⟩ ::
        framesAfter (clean && tidy) t.checkpoints := by
    rw [frames, since.top]
    cases clean <;> cases tidy <;> simp [framesAfter, Function.comp_def]
  rw [rolled, popCheckpoint_nested (s := { reset with allocationLog := t.allocationLog })
    outstanding (framesAfter_ne_nil _ inside)]
  refine ⟨clean && tidy, discards.cover, fun si => (discards.immortal si).trans (since.immortal si),
    (List.append_nil _).symm, rfl, since.reserved.trans discards.reserved,
    fun si _ free => discards.free si free, fun si holds => ?_,
    fun si free holds => absurd (discards.free si free) holds,
    fun si member => absurd member List.not_mem_nil, since.allocatedFree⟩
  -- What was held at the checkpoint is as the scope left it.
  obtain ⟨refs, payload⟩ := discards.others si holds
  rcases since.held si holds with ⟨stays, same⟩ | ⟨free, reserved, unclean, gone⟩
  · exact Or.inl ⟨fun zero => stays (refs.symm.trans zero), payload.trans same⟩
  · exact Or.inr ⟨refs.trans free, discards.reserved reserved, by simp [unclean], gone⟩

theorem Since.run [Inhabited T] (traits : ArenaTraits T) (body : ScopeBody T) :
    ∀ s : Allocator T, s.CountsCover → s.checkpoints ≠ [] → body.Sound traits s →
      ∃ clean added, Since s (body.run traits s).1 clean added (body.run traits s).2 body.released := by
  -- One case for each form of body, nested scopes included.
  induction body with
  | skip => exact fun s cover _ _ => ⟨true, [], Since.refl cover⟩
  | seq first second ihFirst ihSecond =>
    intro s cover inside sound
    obtain ⟨clean, added, before⟩ := ihFirst s cover inside sound.1
    have still : (first.run traits s).1.checkpoints ≠ [] := by
      rw [before.frames]
      exact framesAfter_ne_nil clean inside
    obtain ⟨clean', added', after⟩ := ihSecond _ before.cover still sound.2
    exact ⟨clean && clean', added ++ added', before.trans after⟩
  | allocRaw create =>
    intro s cover inside room
    rcases Since.allocRaw cover inside room create with ⟨e, r, result, since⟩ | ⟨si, r, result, since⟩
    · exact ⟨true, [], by simpa [ScopeBody.run, ScopeBody.released, result] using since⟩
    · exact ⟨true, [si], by simpa [ScopeBody.run, ScopeBody.released, result] using since⟩
  | allocate create item =>
    intro s cover inside room
    rcases Since.allocRaw cover inside room create with ⟨e, r, result, since⟩ | ⟨si, r, result, since⟩
    · exact ⟨true, [], by
        simpa [ScopeBody.run, ScopeBody.released, Allocator.allocate, result] using since⟩
    · have free := (since.allocatedFree si List.mem_cons_self).2.1
      exact ⟨true, [si], by
        simpa [ScopeBody.run, ScopeBody.released, Allocator.allocate, result] using
          since.placeItem free item⟩
  | deallocate si =>
    intro s cover inside _
    obtain ⟨clean, since⟩ := Since.deallocate cover inside si
    exact ⟨clean, [], since⟩
  | tryRetain si =>
    intro s cover _ keeps
    exact ⟨true, [], Since.tryRetain cover keeps⟩
  | dropReference si =>
    intro s cover _ shared
    exact ⟨true, [], Since.dropReference cover shared⟩
  | nested body commits ih =>
    intro s cover inside sound
    have opened : s.checkpoint.2.checkpoints ≠ [] := by simp [checkpoint]
    obtain ⟨clean, added, since⟩ := ih s.checkpoint.2 cover opened sound
    cases commits with
    | true => exact ⟨clean, added, since.commit inside⟩
    | false =>
      obtain ⟨clean', rolled⟩ := since.rollback traits inside
      exact ⟨clean', [], rolled⟩

def RollbackExact [Inhabited T] (traits : ArenaTraits T) (s : Allocator T) (body : ScopeBody T) :
    Prop :=
  let (token, opened) := s.checkpoint
  let (ended, allocated) := body.run traits opened
  let (succeeded, final) := ended.rollback traits token
  succeeded = true ∧ (∀ si ∈ allocated, final.valid si = false) ∧
    ∀ si, s.valid si = true → si ∉ body.released →
      final.valid si = true ∧ final.getPtr si = s.getPtr si

/-- From a state whose slabs count all they hold, every sound body is rolled back exactly. -/
theorem rollbackExact_of_sound [Inhabited T] (traits : ArenaTraits T) (s : Allocator T)
    (body : ScopeBody T) (cover : s.CountsCover) (sound : body.Sound traits s.checkpoint.2) :
    s.RollbackExact traits body := by
  have opened : s.checkpoint.2.checkpoints ≠ [] := by simp [checkpoint]
  obtain ⟨clean, added, since⟩ := Since.run traits body s.checkpoint.2 cover opened sound
  obtain ⟨reset, discards, rolled⟩ := since.rollback_eq traits
  unfold RollbackExact
  simp only [rolled, true_and]
  constructor
  · intro si member
    have free : s.refs si = 0 := (since.allocatedFree si member).2.1
    simp only [valid, popCheckpoint_refs]
    simp [refs_of_slabs (s := reset) (t := { reset with allocationLog := s.allocationLog }) rfl,
      discards.free si free]
  · intro si valid unreleased
    obtain ⟨set, holds⟩ := valid_iff.mp valid
    obtain ⟨refs, payload⟩ := discards.others si holds
    -- A slot held at the checkpoint is gone only if it was released.
    obtain ⟨stays, same⟩ := (since.held si holds).resolve_right fun gone => unreleased gone.2.2.2
    refine ⟨valid_iff.mpr ⟨set, ?_⟩, ?_⟩
    · rw [popCheckpoint_refs]
      exact fun zero => stays (refs.symm.trans zero)
    · rw [popCheckpoint_getPtr]
      exact payload.trans same

def allocatingBody : ScopeBody UInt8 :=
  .seq (.allocate (fun _ => true) 7) (.seq (.deallocate ⟨0, 1⟩) (.nested .skip false))

/-- From the first state such a scope is rolled back exactly. -/
theorem rollbackExact_of_sound_initial : initial.RollbackExact byteTraits allocatingBody := by
  refine rollbackExact_of_sound byteTraits initial allocatingBody (initial_counts Tally.cover) ?_
  have counts : (initial : Allocator UInt8).checkpoint.2.CountsTally (· = ·) :=
    initial_counts Tally.exact_
  exact ⟨counts.nextCounted, trivial, trivial⟩

def overwritingBody : ScopeBody UInt8 :=
  .seq (.dropReference ⟨0, 1⟩) (.allocate (fun _ => true) 8)

set_option maxRecDepth 100000 in
/-- A slot that a copy assignment emptied is handed out again, and survives the rollback. -/
theorem rollbackExact_fails_after_last_copyAssign :
    ¬ ∀ s, runFrom (step byteTraits) initial [.allocate (fun _ => true) 7] = some s →
      s.RollbackExact byteTraits overwritingBody := by
  intro every
  -- The slot lies at the watermark, which the strict reset keeps.
  have survives : (runFrom (step byteTraits) initial [.allocate (fun _ => true) 7]).map (fun s =>
      let (token, opened) := s.checkpoint
      let (ended, allocated) := overwritingBody.run byteTraits opened
      (allocated, (ended.rollback byteTraits token).2.valid ⟨0, 1⟩)) = some ([⟨0, 1⟩], true) := by
    decide +kernel
  obtain ⟨s, ran, both⟩ := Option.map_eq_some_iff.mp survives
  simp only [Prod.mk.injEq] at both
  have member : (⟨0, 1⟩ : SlabId) ∈ (overwritingBody.run byteTraits s.checkpoint.2).2 := by
    rw [both.1]
    exact List.mem_singleton.mpr rfl
  exact absurd (both.2.symm.trans ((every s ran).2.1 ⟨0, 1⟩ member)) (by decide)

end Allocator

end AgentC

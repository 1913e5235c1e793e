import AgentC.Alloc.Freshness

/-! What runs between a checkpoint and its rollback, and what such a run keeps. -/

namespace AgentC

universe u

/--
What a program does between taking a checkpoint and rolling it back.

Checkpoints taken in between are closed in between, by a commit or a rollback.
-/
inductive ScopeBody (T : Type u) where
  | skip
  | seq (first second : ScopeBody T)
  | allocRaw (create : Nat → Bool)
  | allocate (create : Nat → Bool) (item : T)
  | deallocate (si : SlabId)
  | tryRetain (si : SlabId)
  /-- What `CPtr`'s copy assignment does with the slot it overwrites. -/
  | dropReference (si : SlabId)
  | nested (body : ScopeBody T) (commits : Bool)

namespace ScopeBody

variable {T : Type u}

/-- The state a body leaves behind, with the slots that its allocations returned. -/
def run [Inhabited T] (traits : ArenaTraits T) :
    ScopeBody T → Allocator T → Allocator T × List SlabId
  | .skip, s => (s, [])
  | .seq first second, s =>
    let (middle, before) := first.run traits s
    let (final, after) := second.run traits middle
    (final, before ++ after)
  | .allocRaw create, s =>
    match s.allocRaw create with
    | (.ok si, s) => (s, [si])
    | (.error _, s) => (s, [])
  | .allocate create item, s =>
    match s.allocate create item with
    | (.ok si, s) => (s, [si])
    | (.error _, s) => (s, [])
  | .deallocate si, s => ((s.deallocate si).2, [])
  | .tryRetain si, s => ((s.tryRetain si).2, [])
  | .dropReference si, s => (if s.valid si then s.modrefs si (-1) else s, [])
  | .nested body commits, s =>
    let (token, opened) := s.checkpoint
    let (final, allocated) := body.run traits opened
    (if commits then (final.commit token).2 else (final.rollback traits token).2, allocated)

def released : ScopeBody T → List SlabId
  | .seq first second => first.released ++ second.released
  | .deallocate si => [si]
  | .dropReference si => [si]
  | .nested body _ => body.released
  | _ => []

def Sound [Inhabited T] (traits : ArenaTraits T) : ScopeBody T → Allocator T → Prop
  | .seq first second, s => first.Sound traits s ∧ second.Sound traits (first.run traits s).1
  | .allocRaw _, s => s.NextCounted
  | .allocate _ _, s => s.NextCounted
  | .tryRetain si, s => s.valid si = true → s.KeepsOccupancy si 1
  | .dropReference si, s => s.valid si = true → s.slotIsStaticImmortal si = false → s.refs si ≠ 1
  | .nested body _, s => body.Sound traits s.checkpoint.2
  | _, _ => True

end ScopeBody

namespace Allocator

variable {T : Type u}

def Past (watermark si : SlabId) : Prop :=
  si ≠ ⟨0, 0⟩ ∧ (watermark ≠ ⟨0, 0⟩ → watermark.Before si)

def framesAfter (clean : Bool) (frames : List CheckpointFrame) : List CheckpointFrame :=
  if clean then frames else frames.map fun frame => { frame with appendOnly := false }

/--
What has happened to an allocator since an earlier state, inside the checkpoints outstanding then.

`clean` says that nothing was freed. `added` are the log entries since, `allocated` all slots
allocated since, and `released` the slots that references were released to.
-/
structure Since (s t : Allocator T) (clean : Bool) (added allocated released : List SlabId) : Prop where
  cover : t.CountsCover
  immortal : ∀ si, t.slotIsStaticImmortal si = s.slotIsStaticImmortal si
  log : t.allocationLog = s.allocationLog ++ added
  frames : t.checkpoints = framesAfter clean s.checkpoints
  reserved : s.rollbackProtectedFreeSlots ⊆ t.rollbackProtectedFreeSlots
  reservedFree : ∀ si ∈ s.rollbackProtectedFreeSlots, s.refs si = 0 → t.refs si = 0
  held : ∀ si, s.refs si ≠ 0 → (t.refs si ≠ 0 ∧ t.getPtr si = s.getPtr si) ∨
    (t.refs si = 0 ∧ si ∈ t.rollbackProtectedFreeSlots ∧ clean = false ∧ si ∈ released)
  fresh : ∀ si, s.refs si = 0 → t.refs si ≠ 0 → si ∈ added ∧ s.slotIsStaticImmortal si = false ∧
    (clean = true → Past s.currentHighWatermark si)
  logged : ∀ si ∈ added, si ∈ allocated
  allocatedFree : ∀ si ∈ allocated,
    si ≠ ⟨0, 0⟩ ∧ s.refs si = 0 ∧ si ∉ s.rollbackProtectedFreeSlots

namespace Since

variable {s t u : Allocator T} {clean clean' : Bool}
  {added added' allocated allocated' released released' : List SlabId}

theorem refl (cover : s.CountsCover) : Since s s true [] [] [] where
  cover := cover
  immortal := fun _ => rfl
  log := (List.append_nil _).symm
  frames := rfl
  reserved := Finset.Subset.refl _
  reservedFree := fun _ _ free => free
  held := fun _ holds => Or.inl ⟨holds, rfl⟩
  fresh := fun _ free holds => absurd free holds
  logged := fun _ member => member
  allocatedFree := fun _ member => absurd member List.not_mem_nil

theorem past_of_past (since : Since s t true added allocated released) {si : SlabId}
    (past : Past t.currentHighWatermark si) : Past s.currentHighWatermark si := by
  refine ⟨past.1, fun set => ?_⟩
  -- The earlier watermark is still held, so the later one is not before it.
  have before := (currentHighWatermark_held s).resolve_left set
  have still : t.refs s.currentHighWatermark ≠ 0 := by
    rcases since.held _ before with ⟨holds, _⟩ | ⟨_, _, unclean, _⟩
    · exact holds
    · simp at unclean
  have last := currentHighWatermark_last still
  by_cases same : s.currentHighWatermark = t.currentHighWatermark
  · rw [same] at set ⊢
    exact past.2 set
  · rcases SlabId.before_or_before same with earlier | later
    · have setLater : t.currentHighWatermark ≠ ⟨0, 0⟩ := by
        intro null
        rw [null] at earlier
        simp [SlabId.Before] at earlier
      exact earlier.trans (past.2 setLater)
    · exact absurd later last

/-- What happened in two stretches happened in the whole. -/
theorem trans (first : Since s t clean added allocated released)
    (second : Since t u clean' added' allocated' released') :
    Since s u (clean && clean') (added ++ added') (allocated ++ allocated')
      (released ++ released') where
  cover := second.cover
  immortal := fun si => (second.immortal si).trans (first.immortal si)
  log := by rw [second.log, first.log, List.append_assoc]
  frames := by
    rw [second.frames, first.frames]
    cases clean <;> cases clean' <;> simp [framesAfter, Function.comp_def]
  reserved := first.reserved.trans second.reserved
  reservedFree := fun si member free =>
    second.reservedFree si (first.reserved member) (first.reservedFree si member free)
  held := by
    intro si holds
    rcases first.held si holds with ⟨still, same⟩ | ⟨free, reserved, unclean, gone⟩
    · -- The slot survived the first stretch, so the second one decides.
      rcases second.held si still with ⟨stays, same'⟩ | ⟨free, reserved, unclean, gone⟩
      · exact Or.inl ⟨stays, same'.trans same⟩
      · exact Or.inr ⟨free, reserved, by simp [unclean], List.mem_append_right _ gone⟩
    · exact Or.inr ⟨second.reservedFree si reserved free, second.reserved reserved,
        by simp [unclean], List.mem_append_left _ gone⟩
  fresh := by
    intro si free holds
    by_cases between : t.refs si = 0
    · -- The slot was taken in the second stretch.
      obtain ⟨member, mortal, past⟩ := second.fresh si between holds
      refine ⟨List.mem_append_right _ member, (first.immortal si).symm.trans mortal, ?_⟩
      intro both
      simp only [Bool.and_eq_true] at both
      obtain ⟨rfl, rfl⟩ := both
      exact first.past_of_past (past rfl)
    · obtain ⟨member, mortal, past⟩ := first.fresh si free between
      refine ⟨List.mem_append_left _ member, mortal, ?_⟩
      intro both
      simp only [Bool.and_eq_true] at both
      exact past both.1
  logged := by
    intro si member
    rcases List.mem_append.mp member with earlier | later
    · exact List.mem_append_left _ (first.logged si earlier)
    · exact List.mem_append_right _ (second.logged si later)
  allocatedFree := by
    intro si member
    rcases List.mem_append.mp member with earlier | later
    · exact first.allocatedFree si earlier
    · obtain ⟨set, free, unreserved⟩ := second.allocatedFree si later
      refine ⟨set, ?_, fun reserved => unreserved (first.reserved reserved)⟩
      -- Had the slot been held before, it would have been reserved when it was freed.
      by_contra holds
      rcases first.held si holds with ⟨still, _⟩ | ⟨_, reserved, _, _⟩
      · exact still free
      · exact unreserved reserved

end Since

end Allocator

end AgentC

import AgentC.Alloc.StepLaws

/-! The tokens an allocator has returned, beside the checkpoints that are still outstanding. -/

namespace AgentC

universe u

/-- What `restoreArenaMetadata` reads of exported metadata. The outermost checkpoint comes first. -/
structure ArenaCheckpointMetadata where
  version : Nat
  slabSize : Nat
  checkpointLogStarts : List Nat
  deriving DecidableEq, Repr

namespace Allocator

variable {T : Type u}

/-- Whether no slot but the null slot is held, as `exportArenaMetadata` counts them. -/
def noUserSlots (s : Allocator T) : Bool :=
  (List.range numSlabs).all fun index => (List.range AgentC.slabSize).all fun offset =>
    !(⟨index, offset⟩ : SlabId).isSet || s.refs ⟨index, offset⟩ == 0

def restoreArenaMetadata (s : Allocator T) (metadata : ArenaCheckpointMetadata) :
    Bool × Allocator T :=
  if metadata.version = 1 ∧ metadata.slabSize = slabSize ∧ s.noUserSlots = true ∧
      s.checkpoints = [] ∧ s.allocationLog = [] then
    (true, { s with
      -- No token is returned for these, and none of them may use the watermark.
      checkpoints := metadata.checkpointLogStarts.reverse.map fun start => ⟨start, {}, false⟩
      lastRollbackUsedFastPath := false
      lastRollbackUsedStrictFastPath := false })
  else (false, s)

def logStarts (s : Allocator T) : List Nat :=
  s.checkpoints.map CheckpointFrame.logStart

end Allocator

/-- A call of the allocator, or the restoring of its checkpoints. -/
inductive HistoryCall (T : Type u) where
  | call (operation : AllocatorCall T)
  | restoreArenaMetadata (metadata : ArenaCheckpointMetadata)

/--
An allocator with the tokens that it has returned, in order.

`outstanding` says which token each outstanding checkpoint was returned as, the innermost first.
A restored checkpoint was not returned as any.
-/
structure CheckpointHistory (T : Type u) where
  allocator : Allocator T
  issued : List Checkpoint
  outstanding : List (Option Nat)

namespace CheckpointHistory

variable {T : Type u}

def start [Inhabited T] : CheckpointHistory T where
  allocator := .initial
  issued := []
  outstanding := []

def step [Inhabited T] (traits : ArenaTraits T) (h : CheckpointHistory T) :
    HistoryCall T → Option (CheckpointHistory T)
  | .call operation =>
    (h.allocator.step traits operation).map fun next =>
      match operation with
      | .checkpoint =>
        { allocator := next
          issued := h.issued ++ [h.allocator.checkpoint.1]
          outstanding := some h.issued.length :: h.outstanding }
      | .commit token =>
        { h with
          allocator := next
          outstanding :=
            if (h.allocator.commit token).1 then h.outstanding.tail else h.outstanding }
      | .rollback token =>
        { h with
          allocator := next
          outstanding :=
            if (h.allocator.rollback traits token).1 then h.outstanding.tail else h.outstanding }
      | _ => { h with allocator := next }
  | .restoreArenaMetadata metadata =>
    let (restored, next) := h.allocator.restoreArenaMetadata metadata
    some { h with
      allocator := next
      outstanding :=
        if restored then metadata.checkpointLogStarts.map fun _ => none else h.outstanding }

/-- Every returned token is accepted when it is the innermost checkpoint's, and changes nothing else. -/
def Disciplined (traits : ArenaTraits T) (h : CheckpointHistory T) : Prop :=
  ∀ serial token, h.issued[serial]? = some token →
    ((h.allocator.commit token).1 = true ↔ h.outstanding.head? = some (some serial)) ∧
    ((h.allocator.rollback traits token).1 = true ↔ h.outstanding.head? = some (some serial)) ∧
    ((h.allocator.commit token).1 = false → (h.allocator.commit token).2 = h.allocator) ∧
    ((h.allocator.rollback traits token).1 = false →
      (h.allocator.rollback traits token).2 = h.allocator)

def Unused (h : CheckpointHistory T) (depth logStart : Nat) : Prop :=
  ∀ token ∈ h.issued, ¬(token.depth = depth ∧ token.logStart = logStart)

def OpensAnew (h : CheckpointHistory T) : HistoryCall T → Prop
  | .call .checkpoint =>
    h.Unused (h.allocator.checkpoints.length + 1) h.allocator.allocationLog.length
  | .restoreArenaMetadata metadata =>
    ∀ depth logStart, metadata.checkpointLogStarts[depth]? = some logStart →
      h.Unused (depth + 1) logStart
  | _ => True

end CheckpointHistory

namespace Allocator

variable {T : Type u} {s t : Allocator T}

theorem SameButSlabs.logStarts (same : SameButSlabs s t) : t.logStarts = s.logStarts :=
  congrArg (List.map CheckpointFrame.logStart) same.checkpoints

theorem accepts_iff {token : Checkpoint} :
    s.accepts token = true ↔ token.valid = true ∧ token.depth = s.logStarts.length ∧
      s.logStarts.head? = some token.logStart := by
  unfold accepts logStarts
  cases s.checkpoints with
  | nil => simp
  | cons top rest =>
    simp only [Bool.and_eq_true, beq_iff_eq, List.length_map, List.map_cons, List.head?_cons,
      Option.some.injEq, List.length_cons, and_assoc]
    exact and_congr_right fun _ => and_congr_right fun _ => eq_comm

theorem deallocate_logStarts (s : Allocator T) (si : SlabId) :
    (s.deallocate si).2.logStarts = s.logStarts := by
  rcases deallocate_cases s si with ⟨same, _⟩ | ⟨slab, _, _, _, _, _, result⟩ | ⟨slab, freed⟩
  · rw [same]
  · rw [result]
    exact (SameButSlabs.setSlab s _ _).logStarts
  · unfold logStarts
    rw [freed.checkpoints, List.map_map]
    rfl

theorem rollbackAllocation_logStarts (s : Allocator T) (si : SlabId) :
    (s.rollbackAllocation si).logStarts = s.logStarts := by
  unfold rollbackAllocation
  split
  · rfl
  · rw [deallocate_logStarts]
    unfold setRefs
    split
    · exact (SameButSlabs.setSlab s _ _).logStarts
    · rfl

theorem rollbackDown_logStarts (watermark : SlabId) (remaining : Nat) (current : SlabId)
    (s : Allocator T) : (rollbackDown watermark remaining current s).logStarts = s.logStarts := by
  induction remaining generalizing current s with
  | zero => rfl
  | succ remaining ih =>
    unfold rollbackDown
    split
    · rw [ih, rollbackAllocation_logStarts]
    · rfl

theorem foldl_rollbackAllocation_logStarts (log : List SlabId) (s : Allocator T) :
    (log.foldl rollbackAllocation s).logStarts = s.logStarts := by
  induction log generalizing s with
  | nil => rfl
  | cons si rest ih =>
    show (rest.foldl rollbackAllocation (s.rollbackAllocation si)).logStarts = _
    rw [ih, rollbackAllocation_logStarts]

theorem discardSince_logStarts (traits : ArenaTraits T) (s : Allocator T) (top : CheckpointFrame)
    (token : Checkpoint) : (s.discardSince traits top token).logStarts = s.logStarts := by
  unfold discardSince
  dsimp only
  split
  · split
    · rfl
    · exact rollbackDown_logStarts _ _ _ _
  · exact foldl_rollbackAllocation_logStarts _ _

theorem popCheckpoint_logStarts (s : Allocator T) : s.popCheckpoint.logStarts = s.logStarts.tail := by
  unfold popCheckpoint logStarts
  dsimp only
  rw [← List.map_tail]
  split <;> rfl

theorem commit_logStarts (s : Allocator T) (token : Checkpoint) :
    (s.commit token).1 = s.accepts token ∧
      (s.commit token).2.logStarts =
        if s.accepts token then s.logStarts.tail else s.logStarts := by
  unfold commit
  split <;> rename_i accepted
  · exact ⟨accepted.symm, popCheckpoint_logStarts s⟩
  · exact ⟨(Bool.eq_false_iff.mpr accepted).symm, rfl⟩

theorem rollback_logStarts (traits : ArenaTraits T) (s : Allocator T) (token : Checkpoint) :
    (s.rollback traits token).1 = s.accepts token ∧
      (s.rollback traits token).2.logStarts =
        if s.accepts token then s.logStarts.tail else s.logStarts := by
  unfold rollback
  cases outstanding : s.checkpoints with
  | nil => simp [accepts, outstanding]
  | cons top rest =>
    dsimp only
    split <;> rename_i accepted
    · refine ⟨accepted.symm, ?_⟩
      rw [popCheckpoint_logStarts]
      exact congrArg List.tail (discardSince_logStarts traits s top token)
    · exact ⟨(Bool.eq_false_iff.mpr accepted).symm, rfl⟩

theorem refused_unchanged (traits : ArenaTraits T) {token : Checkpoint}
    (refused : s.accepts token = false) :
    s.commit token = (false, s) ∧ s.rollback traits token = (false, s) := by
  have not : ¬s.accepts token = true := by simp [refused]
  refine ⟨if_neg not, ?_⟩
  unfold rollback
  split
  · rfl
  · exact if_neg not

theorem allocRaw_logStarts [Inhabited T] (s : Allocator T) (create : Nat → Bool) :
    (s.allocRaw create).2.logStarts = s.logStarts := by
  obtain ⟨mid, grown, result | ⟨si, result⟩⟩ := allocRaw_grown s create
  · rw [result]
    exact SameButSlabs.logStarts grown.rest
  · rw [result, ← SameButSlabs.logStarts grown.rest]
    exact congrArg (List.map CheckpointFrame.logStart) (markAllocated_rest mid si).1.checkpoints

def MovesCheckpoints : AllocatorCall T → Prop
  | .checkpoint | .commit _ | .rollback _ => True
  | _ => False

theorem step_logStarts [Inhabited T] {traits : ArenaTraits T} {call : AllocatorCall T}
    (other : ¬MovesCheckpoints call) (stepped : s.step traits call = some t) :
    t.logStarts = s.logStarts := by
  cases call with
  | allocRaw create =>
    cases stepped
    exact allocRaw_logStarts s create
  | allocate create item =>
    cases stepped
    have raw := allocRaw_logStarts s create
    unfold Allocator.allocate
    cases result : s.allocRaw create with
    | mk found r =>
      rw [result] at raw
      cases found with
      | error e => exact raw
      | ok si =>
        dsimp only
        unfold placeItem
        split
        · exact (SameButSlabs.setSlab r _ _).logStarts.trans raw
        · exact raw
  | tryRetain si =>
    cases stepped
    exact (tryRetain_sameButSlabs s si).logStarts
  | modrefs si delta =>
    cases stepped
    exact (modrefs_sameButSlabs s si delta).logStarts
  | deallocate si =>
    cases stepped
    exact deallocate_logStarts s si
  | checkpoint => exact absurd trivial other
  | commit token => exact absurd trivial other
  | rollback token => exact absurd trivial other
  | markSlabStaticImmortal index =>
    cases stepped
    unfold Allocator.markSlabStaticImmortal
    split
    · split <;> rfl
    · rfl
  | markSlotStaticImmortal si =>
    cases stepped
    unfold Allocator.markSlotStaticImmortal
    split <;> rfl
  | unmarkSlabStaticImmortal index =>
    obtain ⟨result, unmarked, rfl⟩ := Option.map_eq_some_iff.mp stepped
    unfold Allocator.unmarkSlabStaticImmortal at unmarked
    split at unmarked
    · cases unmarked; rfl
    · split at unmarked
      · split at unmarked
        · cases unmarked; rfl
        · cases unmarked
      · cases unmarked; rfl
  | unmarkSlotStaticImmortal si =>
    cases stepped
    unfold Allocator.unmarkSlotStaticImmortal
    split <;> rfl
  | setSlabBackingPolicy policy => cases stepped; rfl
  | configureMmapFileBackedSlabs => cases stepped; rfl
  | restoreSlabImages create images =>
    cases stepped
    unfold Allocator.restoreSlabImages
    split
    · rfl
    · have filled : (restoreImages traits images s.clearSlabsOnly).2.logStarts = s.logStarts :=
        (restoreImages_sameButSlabs traits images _).logStarts
      split
      · rename_i r result
        rw [result] at filled
        exact filled
      · rename_i r result
        rw [result] at filled
        split
        · have taken := allocRaw_logStarts r create
          split
          · rename_i si after allocated
            rw [allocated] at taken
            exact taken.trans filled
          · rename_i e after allocated
            rw [allocated] at taken
            exact taken.trans filled
        · exact filled
  | restoreSlabFromFile index file =>
    cases stepped
    unfold Allocator.restoreSlabFromFile
    split
    · split <;> rfl
    · rfl
  | reattachFileBackedSlabs files =>
    cases stepped
    unfold Allocator.reattachFileBackedSlabs
    split
    · rfl
    · exact (reattachSlabs_sameButSlabs files _ s).logStarts

end Allocator

namespace CheckpointHistory

variable {T : Type u} {h : CheckpointHistory T} {issued : List Checkpoint}
  {outstanding : List (Option Nat)} {starts : List Nat}

def Named (issued : List Checkpoint) : List (Option Nat) → List Nat → Prop
  | [], [] => True
  | name :: outer, start :: starts =>
    (∀ serial token, issued[serial]? = some token →
      (token.depth = starts.length + 1 ∧ token.logStart = start ↔ name = some serial)) ∧
    (∀ serial, name = some serial → serial < issued.length) ∧ Named issued outer starts
  | _, _ => False

/-- What tells returned tokens apart from one another. -/
structure Sound (h : CheckpointHistory T) : Prop where
  valid : ∀ token ∈ h.issued, token.valid = true
  named : Named h.issued h.outstanding h.allocator.logStarts

theorem Named.tail (named : Named issued outstanding starts) :
    Named issued outstanding.tail starts.tail := by
  cases outstanding with
  | nil => cases starts with
    | nil => trivial
    | cons _ _ => exact named.elim
  | cons name outer => cases starts with
    | nil => exact named.elim
    | cons start starts => exact named.2.2

theorem Named.issue {token : Checkpoint} (named : Named issued outstanding starts)
    (deeper : starts.length < token.depth) : Named (issued ++ [token]) outstanding starts := by
  induction outstanding generalizing starts with
  | nil => cases starts with
    | nil => trivial
    | cons _ _ => exact named.elim
  | cons name outer ih => cases starts with
    | nil => exact named.elim
    | cons start starts =>
      obtain ⟨own, inside, rest⟩ := named
      rw [List.length_cons] at deeper
      refine ⟨?_, ?_, ih rest (by omega)⟩
      · intro serial found at_serial
        rcases Nat.lt_or_ge serial issued.length with old | new
        · rw [List.getElem?_append_left old] at at_serial
          exact own serial found at_serial
        · -- The new token is the only one at or past the old ones.
          rw [List.getElem?_append_right new] at at_serial
          obtain ⟨_, rfl⟩ := List.getElem?_eq_some_iff.mp at_serial
          rw [List.getElem_singleton]
          constructor
          · rintro ⟨same, -⟩
            omega
          · intro same
            have smaller := inside serial same
            omega
      · intro serial same
        have smaller := inside serial same
        rw [List.length_append]
        omega

theorem Sound.disciplined (traits : ArenaTraits T) (sound : h.Sound) : h.Disciplined traits := by
  intro serial token issued
  have valid := sound.valid token (List.mem_of_getElem? issued)
  have accepted : h.allocator.accepts token = true ↔ h.outstanding.head? = some (some serial) := by
    rw [Allocator.accepts_iff]
    have named := sound.named
    cases names : h.outstanding with
    | nil =>
      rw [names] at named
      cases starts : h.allocator.logStarts with
      | nil => simp
      | cons _ _ =>
        rw [starts] at named
        exact named.elim
    | cons name outer =>
      rw [names] at named
      cases starts : h.allocator.logStarts with
      | nil =>
        rw [starts] at named
        exact named.elim
      | cons start rest =>
        rw [starts] at named
        rw [List.length_cons, List.head?_cons, List.head?_cons, Option.some.injEq,
          Option.some.injEq, ← named.1 serial token issued]
        exact ⟨fun all => ⟨all.2.1, all.2.2.symm⟩, fun same => ⟨valid, same.1, same.2.symm⟩⟩
  rw [(h.allocator.commit_logStarts token).1, (h.allocator.rollback_logStarts traits token).1]
  refine ⟨accepted, accepted, fun refused => ?_, fun refused => ?_⟩
  · rw [(Allocator.refused_unchanged traits refused).1]
  · rw [(Allocator.refused_unchanged traits refused).2]

theorem step_other [Inhabited T] (traits : ArenaTraits T) (h : CheckpointHistory T)
    {operation : AllocatorCall T} (other : ¬Allocator.MovesCheckpoints operation) :
    h.step traits (.call operation) =
      (h.allocator.step traits operation).map fun next => { h with allocator := next } := by
  cases operation <;> first | rfl | exact absurd trivial other

theorem Sound.close {next : Allocator T} {closed : Bool} (sound : h.Sound)
    (starts : next.logStarts = if closed then h.allocator.logStarts.tail else h.allocator.logStarts) :
    Sound { h with
      allocator := next
      outstanding := if closed then h.outstanding.tail else h.outstanding } := by
  refine ⟨sound.valid, ?_⟩
  show Named h.issued (if closed then _ else _) next.logStarts
  rw [starts]
  cases closed with
  | true => exact sound.named.tail
  | false => exact sound.named

theorem Sound.open [Inhabited T] {traits : ArenaTraits T} {next : CheckpointHistory T}
    (sound : h.Sound)
    (unused : h.Unused (h.allocator.checkpoints.length + 1) h.allocator.allocationLog.length)
    (stepped : h.step traits (.call .checkpoint) = some next) : next.Sound := by
  cases stepped
  have depth : h.allocator.logStarts.length = h.allocator.checkpoints.length := List.length_map _
  refine ⟨?_, ?_, ?_, ?_⟩
  · intro token member
    rcases List.mem_append.mp member with old | new
    · exact sound.valid token old
    · rw [List.mem_singleton.mp new]
      rfl
  · intro serial token issued
    rcases Nat.lt_or_ge serial h.issued.length with old | new
    · -- An older token has another depth or another log position.
      rw [List.getElem?_append_left old] at issued
      constructor
      · intro same
        rw [List.length_map] at same
        exact absurd same (unused token (List.mem_of_getElem? issued))
      · intro same
        have newest := Option.some.inj same
        omega
    · rw [List.getElem?_append_right new] at issued
      obtain ⟨inside, rfl⟩ := List.getElem?_eq_some_iff.mp issued
      rw [List.length_singleton] at inside
      have newest : h.issued.length = serial := by omega
      rw [List.getElem_singleton]
      refine ⟨fun _ => congrArg some newest, fun _ => ⟨?_, rfl⟩⟩
      rw [List.length_map]
      rfl
  · intro serial same
    have newest := Option.some.inj same
    rw [List.length_append, List.length_singleton]
    omega
  · exact sound.named.issue (by rw [depth]; exact Nat.lt_succ_self _)

theorem named_restored (starts : List Nat)
    (unused : ∀ depth logStart, starts[depth]? = some logStart →
      ∀ token ∈ issued, ¬(token.depth = depth + 1 ∧ token.logStart = logStart)) :
    Named issued (starts.map fun _ => none) starts.reverse := by
  -- The induction takes the innermost of the restored checkpoints away.
  induction starts using List.reverseRecOn with
  | nil => trivial
  | append_singleton outer start ih =>
    have swap : (outer ++ [start]).map (fun _ => (none : Option Nat)) =
        none :: outer.map fun _ => none := by
      rw [List.map_const', List.map_const', List.length_append, List.length_singleton]
      rfl
    rw [swap, List.reverse_append, List.reverse_singleton, List.singleton_append]
    refine ⟨?_, nofun, ih ?_⟩
    · intro serial token found
      have last := unused outer.length start (by simp) token (List.mem_of_getElem? found)
      rw [List.length_reverse]
      exact ⟨fun same => absurd same last, nofun⟩
    · intro depth logStart found
      obtain ⟨inside, _⟩ := List.getElem?_eq_some_iff.mp found
      exact unused depth logStart (by rw [List.getElem?_append_left inside]; exact found)

theorem Sound.step [Inhabited T] {traits : ArenaTraits T} {next : CheckpointHistory T}
    {call : HistoryCall T} (sound : h.Sound) (anew : h.OpensAnew call)
    (stepped : h.step traits call = some next) : next.Sound := by
  cases call with
  | call operation =>
    by_cases moves : Allocator.MovesCheckpoints operation
    · cases operation with
      | checkpoint => exact sound.open anew stepped
      | commit token =>
        cases stepped
        have popped := h.allocator.commit_logStarts token
        exact sound.close (popped.1 ▸ popped.2)
      | rollback token =>
        cases stepped
        have popped := h.allocator.rollback_logStarts traits token
        exact sound.close (popped.1 ▸ popped.2)
      | _ => exact moves.elim
    · rw [step_other traits h moves] at stepped
      obtain ⟨allocator, ran, rfl⟩ := Option.map_eq_some_iff.mp stepped
      exact ⟨sound.valid, (Allocator.step_logStarts moves ran).symm ▸ sound.named⟩
  | restoreArenaMetadata metadata =>
    unfold CheckpointHistory.step Allocator.restoreArenaMetadata at stepped
    dsimp only at stepped
    split at stepped
    · cases stepped
      refine ⟨sound.valid, ?_⟩
      have starts : (metadata.checkpointLogStarts.reverse.map fun start =>
          (⟨start, {}, false⟩ : CheckpointFrame)).map CheckpointFrame.logStart =
            metadata.checkpointLogStarts.reverse := by
        rw [List.map_map]
        exact List.map_id _
      show Named h.issued _ (List.map _ _)
      rw [starts]
      exact named_restored metadata.checkpointLogStarts anew
    · cases stepped
      exact ⟨sound.valid, sound.named⟩

/-- Where no checkpoint is opened at a used depth and log position, every token is told apart. -/
theorem disciplined_of_opensAnew [Inhabited T] (traits : ArenaTraits T)
    (calls : List (HistoryCall T))
    (anew : StepsMeet (CheckpointHistory.step traits) OpensAnew start calls) :
    Throughout (CheckpointHistory.step traits) (Disciplined traits) start calls := by
  have first : (start : CheckpointHistory T).Sound := by
    refine ⟨fun _ member => absurd member List.not_mem_nil, ?_⟩
    show Named [] [] (Allocator.initial : Allocator T).logStarts
    rw [Allocator.initial_eq]
    trivial
  exact (throughout_of_stepsMeet (fun _ _ _ sound anew stepped => Sound.step sound anew stepped)
    calls start first anew).imp (fun _ => Sound.disciplined traits) calls start

def nestedCalls : List (HistoryCall UInt8) :=
  [.call .checkpoint, .call (.allocate (fun _ => true) 7), .call .checkpoint]

/-- Nested checkpoints are told apart. -/
theorem disciplined_of_opensAnew_nested :
    Throughout (CheckpointHistory.step byteTraits) (Disciplined byteTraits) start nestedCalls := by
  refine disciplined_of_opensAnew byteTraits nestedCalls ?_
  rintro opened stepped
  cases stepped
  refine ⟨fun _ member => absurd member List.not_mem_nil, ?_⟩
  rintro held stepped
  cases stepped
  refine ⟨trivial, ?_⟩
  rintro inner stepped
  refine ⟨?_, trivial⟩
  -- The only token so far is of depth one.
  intro token member
  rw [List.mem_singleton.mp member]
  rintro ⟨depth, -⟩
  exact absurd depth (by decide +kernel)

/-- A second outermost checkpoint accepts the token of the first one. -/
theorem disciplined_fails_after_commit :
    ¬Throughout (CheckpointHistory.step byteTraits) (Disciplined byteTraits) start
      [.call .checkpoint, .call (.commit (Allocator.initial (T := UInt8)).checkpoint.1),
        .call .checkpoint] := by
  intro through
  have last := ((through.2 _ rfl).2 _ rfl).2 _ rfl
  have accepted := (last 0 _ rfl).1.mp (by decide +kernel)
  exact absurd accepted (by decide +kernel)

end CheckpointHistory

end AgentC

import AgentC.Edict.AwaitTable

/-! What the await scheduler takes over from a saved form, and what loads of other values leave. -/

namespace AgentC.Edict

open Listree (ListreeValue)
open Root1 (ParticipantId)

namespace Root1AwaitScheduler

variable {s : Root1AwaitScheduler} {parks order : List Root1ContinuationHandle}

def ownedBy (s : Root1AwaitScheduler) (p : ParticipantId) (h : Root1ContinuationHandle) : Bool :=
  match s.continuations h with
  | some c => c.participant = p
  | none => false

def restoredEntry (s : Root1AwaitScheduler) (h : Root1ContinuationHandle) : ParkedContinuation :=
  ((s.continuations h).getD {}).restored

theorem restoredEntry_handle (listed : s.Listed parks) {h : Root1ContinuationHandle}
    (known : h ∈ parks) : (s.restoredEntry h).handle = h := by
  obtain ⟨c, entry⟩ := Option.isSome_iff_exists.mp ((listed.keys h).mp known)
  rw [restoredEntry, entry]
  exact (listed.named h c entry).1

theorem map_restored_entries (known : ∀ h ∈ order, (s.continuations h).isSome = true) :
    (order.filterMap s.continuations).map (·.restored) = order.map s.restoredEntry := by
  rw [List.map_filterMap, ← List.filterMap_eq_map]
  refine List.filterMap_congr fun h member => ?_
  obtain ⟨c, entry⟩ := Option.isSome_iff_exists.mp (known h member)
  simp [entry, restoredEntry]

theorem saved_entries (listed : s.Listed parks) :
    ((order.filterMap s.continuations).filter fun c => c.state ≠ .invalid) =
      order.filterMap s.continuations := by
  rw [List.filter_eq_self]
  intro c member
  obtain ⟨h, -, entry⟩ := List.mem_filterMap.mp member
  simpa using (listed.named h c entry).2

theorem find?_restored (listed : s.Listed parks) (visited : order.Perm parks)
    (h : Root1ContinuationHandle) :
    ((order.map s.restoredEntry).find? fun c => c.handle = h) =
      (s.continuations h).map (·.restored) := by
  cases found : (order.map s.restoredEntry).find? fun c => c.handle = h with
  | none =>
    cases entry : s.continuations h with
    | none => rfl
    | some c =>
      -- An entry of the table is visited, so it would have been found.
      have known : h ∈ parks := (listed.keys h).mpr (by rw [entry]; rfl)
      have missed := List.find?_eq_none.mp found (s.restoredEntry h)
        (List.mem_map_of_mem (visited.mem_iff.mpr known))
      exact absurd (decide_eq_true (restoredEntry_handle listed known)) missed
  | some c =>
    obtain ⟨other, member, rfl⟩ := List.mem_map.mp (List.mem_of_find?_eq_some found)
    have known := visited.mem_iff.mp member
    have named : (s.restoredEntry other).handle = h := by simpa using List.find?_some found
    obtain rfl : other = h := (restoredEntry_handle listed known).symm.trans named
    obtain ⟨c, entry⟩ := Option.isSome_iff_exists.mp ((listed.keys other).mp known)
    simp [entry, restoredEntry]

theorem owned_restored (listed : s.Listed parks) (visited : order.Perm parks) (p : ParticipantId) :
    ((order.map s.restoredEntry).filter fun c => c.participant = p).map (·.handle) =
      order.filter (s.ownedBy p) := by
  have owned : ∀ h ∈ order,
      ((fun c => decide (c.participant = p)) ∘ s.restoredEntry) h = s.ownedBy p h := by
    intro h member
    obtain ⟨c, entry⟩ :=
      Option.isSome_iff_exists.mp ((listed.keys h).mp (visited.mem_iff.mp member))
    simp [restoredEntry, ownedBy, entry, ParkedContinuation.restored]
  rw [List.filter_map, List.map_map, List.filter_congr owned]
  refine (List.map_congr_left fun h member => ?_).trans (List.map_id _)
  exact restoredEntry_handle listed (visited.mem_iff.mp (List.mem_filter.mp member).1)

theorem loaded (listed : s.Listed parks) (visited : order.Perm parks) (t : Root1AwaitScheduler) :
    let next := (t.loadState (some (s.saveState order))).1
    next.Listed parks ∧ (∀ h, next.continuations h = (s.continuations h).map (·.restored)) ∧
      ∀ p, next.byParticipant p = order.filter (s.ownedBy p) := by
  have known : ∀ h ∈ order, h ∈ parks := fun h member => visited.mem_iff.mp member
  have handles : (order.map s.restoredEntry).map (·.handle) = order := by
    rw [List.map_map]
    refine (List.map_congr_left fun h member => ?_).trans (List.map_id _)
    exact restoredEntry_handle listed (known h member)
  dsimp only
  rw [loadState_saveState, saved_entries listed,
    map_restored_entries fun h member => (listed.keys h).mp (known h member)]
  obtain ⟨keys, table⟩ := addAll_table (order.map s.restoredEntry) { nextId := s.nextId }
    (by rw [handles]; exact visited.nodup_iff.mpr listed.distinct) fun _ _ => rfl
  have entries (h : Root1ContinuationHandle) : (({ nextId := s.nextId } :
      Root1AwaitScheduler).addAll (order.map s.restoredEntry)).continuations h =
        (s.continuations h).map (·.restored) := by
    rw [table h, find?_restored listed visited, Option.or_none]
  refine ⟨⟨fun h => ?_, listed.distinct, ?_, fun h c entry => ?_⟩, entries, fun p => ?_⟩
  · rw [entries h, listed.keys h, Option.isSome_map]
  · rw [keys, handles]
    exact visited
  · rw [entries h] at entry
    obtain ⟨old, found, rfl⟩ := Option.map_eq_some_iff.mp entry
    exact listed.named h old found
  · rw [byParticipant_addAll p]
    exact owned_restored listed visited p

end Root1AwaitScheduler

/-- What changes a scheduler between two loads. -/
inductive AwaitCall where
  | park (participant : ParticipantId) (resume : Bool)
  | cancel (handle : Root1ContinuationHandle)
  | drop (handle : Root1ContinuationHandle)
  | timeOut (handles : List Root1ContinuationHandle)
  | take (participant : ParticipantId)
  /-- A poll delivers events, or the callback that it ran has returned. -/
  | deliver (handle : Root1ContinuationHandle) (lastEvents : Option ListreeValue) (eventsDelivered : UInt64)
      (resumeState : Int32) (state : Root1ContinuationState) (valid : state ≠ .invalid)

def AwaitCall.parks : AwaitCall → Bool
  | .park participant _ => participant ≠ 0
  | _ => false

namespace Root1AwaitScheduler

variable {s t : Root1AwaitScheduler}

def perform (s : Root1AwaitScheduler) : AwaitCall → Root1AwaitScheduler
  | .park participant resume => (s.park participant resume).2
  | .cancel handle => (s.cancel handle).2
  | .drop handle => (s.drop handle).2
  | .timeOut handles => (s.timeOut handles).2
  | .take participant => { s with byParticipant := Function.update s.byParticipant participant [] }
  | .deliver handle lastEvents eventsDelivered resumeState state _ =>
    match s.continuations handle with
    | some c => s.store handle { c with lastEvents, eventsDelivered, resumeState, state }
    | none => s

/-- The states that a scheduler can come into, by calls and by loads of any values. -/
inductive Reached : Root1AwaitScheduler → Prop
  | initial : Reached {}
  | call (s : Root1AwaitScheduler) (call : AwaitCall) (reached : Reached s) : Reached (s.perform call)
  | load (s : Root1AwaitScheduler) (state : Option ListreeValue) (reached : Reached s) :
      Reached (s.loadState state).1

def issued (s : Root1AwaitScheduler) : List AwaitCall → List Root1ContinuationHandle
  | [] => []
  | call :: calls =>
    let issued := (s.perform call).issued calls
    if call.parks then s.nextId :: issued else issued

/-- A scheduler takes over what `s` saves: all of its continuations, with what a caller is told of them. -/
def Restores (s : Root1AwaitScheduler) (order : List Root1ContinuationHandle)
    (t : Root1AwaitScheduler) : Prop :=
  (t.loadState (some (s.saveState order))).2 = some true ∧
    ∀ h, ((t.loadState (some (s.saveState order))).1.continuations h).isSome = (s.continuations h).isSome ∧
      (t.loadState (some (s.saveState order))).1.status h = s.status h

/-- The handles issued after that name none of the continuations that were restored. -/
def Fresh (s : Root1AwaitScheduler) (order : List Root1ContinuationHandle) (calls : List AwaitCall)
    (t : Root1AwaitScheduler) : Prop :=
  ∀ h ∈ (t.loadState (some (s.saveState order))).1.issued calls, s.continuations h = none

def Atomic (value : Option ListreeValue) (t : Root1AwaitScheduler) : Prop :=
  (t.loadState value).2 ≠ some true → (t.loadState value).1 = t

/-- The numbers that an entry gives can be read, as far as they are asked for. -/
def Legible (cv : ListreeValue) : Prop :=
  ∀ handle, (find cv "handle").bind getData = some handle → (stoull handle).isSome = true ∧
    ∀ participant, find cv "participant" = some participant →
      (stoull ((getData participant).getD [])).isSome = true ∧
      (∀ text, (find cv "events_delivered").bind getData = some text → (stoull text).isSome = true) ∧
      ∀ text, (find cv "resume_state").bind getData = some text → (stoi text).isSome = true

/-- A value whose next handle can be read has entries that can be read. -/
def Whole (value : Option ListreeValue) : Prop :=
  ∀ state text children, value = some state → (find state "next_id").bind getData = some text →
    (stoull text).isSome = true → find state "continuations" = some (.list children) →
      ∀ cv ∈ children, Legible cv

def Ahead (s : Root1AwaitScheduler) (calls : List AwaitCall) : Prop :=
  ∀ h, (s.continuations h).isSome = true → calls.countP AwaitCall.parks ≤ (h - s.nextId).toNat

theorem nextId_perform (s : Root1AwaitScheduler) (call : AwaitCall) :
    (s.perform call).nextId = if call.parks then s.nextId + 1 else s.nextId := by
  have ended (s : Root1AwaitScheduler) (h : Root1ContinuationHandle) (state : Root1ContinuationState) :
      (s.markTerminal h state).2.nextId = s.nextId := by
    unfold markTerminal
    split
    · split <;> rfl
    · rfl
  cases call with
  | park participant resume =>
    by_cases none_ : participant = 0
    · simp [perform, Root1AwaitScheduler.park, AwaitCall.parks, none_]
    · simp [perform, Root1AwaitScheduler.park, AwaitCall.parks, none_, add]
  | cancel handle => exact ended s handle .cancelled
  | drop handle =>
    show (s.drop handle).2.nextId = s.nextId
    unfold Root1AwaitScheduler.drop
    split <;> rfl
  | timeOut handles =>
    show (s.timeOut handles).2.nextId = s.nextId
    induction handles generalizing s with
    | nil => rfl
    | cons handle rest ih => exact (ih _).trans (ended s handle .timeout)
  | take participant => rfl
  | deliver handle lastEvents eventsDelivered resumeState state valid =>
    unfold perform
    dsimp only
    split <;> rfl

theorem mem_issued (calls : List AwaitCall) (s : Root1AwaitScheduler) (h : Root1ContinuationHandle) :
    h ∈ s.issued calls ↔ (h - s.nextId).toNat < calls.countP AwaitCall.parks := by
  -- Each call that issues a handle moves the next one ahead by one.
  induction calls generalizing s with
  | nil => simp [issued]
  | cons call calls ih =>
    have next := nextId_perform s call
    cases parks : call.parks with
    | false =>
      rw [parks, if_neg Bool.false_ne_true] at next
      simp only [issued, parks, Bool.false_eq_true, if_false]
      rw [ih, next, List.countP_cons_of_neg (by simp [parks])]
    | true =>
      rw [parks, if_pos rfl] at next
      simp only [issued, parks, if_true, List.mem_cons]
      rw [ih, next, List.countP_cons_of_pos parks]
      by_cases here : h = s.nextId
      · subst here
        simp
      · have apart : h - s.nextId ≠ 0 := fun same => here (by
          rw [← sub_eq_zero]
          exact same)
        have positive : (h - s.nextId).toNat ≠ 0 := fun zero => apart (UInt64.toNat_inj.mp zero)
        have less : (h - (s.nextId + 1)).toNat = (h - s.nextId).toNat - 1 := by
          rw [← sub_sub, UInt64.toNat_sub_of_le]
          · rfl
          · rw [UInt64.le_iff_toNat_le]
            exact Nat.one_le_iff_ne_zero.mpr positive
        rw [less]
        simp only [here, false_or]
        omega

theorem readContinuation_isSome (cv : ListreeValue) : (readContinuation cv).isSome = true ↔ Legible cv := by
  have behind {α : Type} (number : Option α) (rest : Bool) :
      number.any (fun _ => rest) = (number.isSome && rest) := by
    cases number <;> rfl
  unfold readContinuation Legible
  cases handle : (find cv "handle").bind getData with
  | none => simp
  | some handleText =>
    cases participant : find cv "participant" with
    | none => simp [Option.isSome_bind, behind]
    | some participantVal =>
      -- The counts are read last, each only if it is there.
      cases (find cv "events_delivered").bind getData <;> cases (find cv "resume_state").bind getData <;>
        simp [Option.isSome_bind, behind]

theorem readContinuation_valid {cv : ListreeValue} {c : ParkedContinuation}
    (read : readContinuation cv = some (some c)) : c.state ≠ .invalid := by
  have named (name : List UInt8) : namedState name ≠ .invalid := by
    unfold namedState
    split_ifs <;> exact Root1ContinuationState.noConfusion
  unfold readContinuation at read
  split at read
  · cases read
  · obtain ⟨handle, -, read⟩ := Option.bind_eq_some_iff.mp read
    split at read
    · cases read
    · obtain ⟨participant, -, read⟩ := Option.bind_eq_some_iff.mp read
      obtain ⟨eventsDelivered, -, read⟩ := Option.bind_eq_some_iff.mp read
      obtain ⟨resumeState, -, same⟩ := Option.map_eq_some_iff.mp read
      cases same
      exact named _

theorem loadContinuations_finished (children : List ListreeValue) (s : Root1AwaitScheduler) :
    (s.loadContinuations children).2 = true ↔ ∀ cv ∈ children, Legible cv := by
  induction children generalizing s with
  | nil => simp [loadContinuations]
  | cons cv children ih =>
    have head := readContinuation_isSome cv
    rw [loadContinuations, List.forall_mem_cons]
    cases read : readContinuation cv with
    | none =>
      rw [read] at head
      simp only [Bool.false_eq_true, false_iff, not_and]
      exact fun legible => absurd (head.mpr legible) Bool.false_ne_true
    | some entry =>
      rw [read] at head
      cases entry with
      | none => rw [ih, and_iff_right (head.mp rfl)]
      | some continuation => rw [ih, and_iff_right (head.mp rfl)]

theorem listed_loadContinuations (children : List ListreeValue) {s : Root1AwaitScheduler}
    {parks : List Root1ContinuationHandle} (listed : s.Listed parks) :
    ∃ parks', (s.loadContinuations children).1.Listed parks' := by
  induction children generalizing s parks with
  | nil => exact ⟨parks, listed⟩
  | cons cv children ih =>
    rw [loadContinuations]
    cases read : readContinuation cv with
    | none => exact ⟨parks, listed⟩
    | some entry =>
      cases entry with
      | none => exact ih listed
      | some continuation =>
        have valid := readContinuation_valid read
        cases taken : s.continuations continuation.handle with
        | none => exact ih (listed.add taken valid)
        | some c => exact ih (listed.add_taken (by rw [taken]; rfl))

theorem loadState_cases (value : Option ListreeValue) :
    (∀ t : Root1AwaitScheduler, (t.loadState value).1 = t ∧ (t.loadState value).2 ≠ some true) ∨
    (∃ nextId, ∀ t : Root1AwaitScheduler, t.loadState value = ({ nextId }, some true)) ∨
    ∃ state text nextId children, value = some state ∧ (find state "next_id").bind getData = some text ∧
      stoull text = some nextId ∧ find state "continuations" = some (.list children) ∧
      ∀ t : Root1AwaitScheduler, t.loadState value =
        ((({ nextId } : Root1AwaitScheduler).loadContinuations children).1,
          if (({ nextId } : Root1AwaitScheduler).loadContinuations children).2 then some true else none) := by
  cases value with
  | none => exact .inl fun t => ⟨rfl, by simp [loadState]⟩
  | some state =>
    cases given : (find state "next_id").bind getData with
    | none => exact .inl fun t => by simp [loadState, given]
    | some text =>
      cases read : stoull text with
      | none => exact .inl fun t => by simp [loadState, given, read]
      | some nextId =>
        cases listed : find state "continuations" with
        | none => exact .inr (.inl ⟨nextId, fun t => by simp [loadState, given, read, listed]⟩)
        | some continuations =>
          cases continuations with
          | list children =>
            exact .inr (.inr ⟨state, text, nextId, children, rfl, given, read, listed, fun t => by
              simp [loadState, given, read, listed]⟩)
          | _ => exact .inr (.inl ⟨nextId, fun t => by simp [loadState, given, read, listed]⟩)

/-- Every state that a scheduler can come into has a table whose entries know their handles. -/
theorem Reached.listed (reached : Reached s) : ∃ parks, s.Listed parks := by
  induction reached with
  | initial => exact ⟨[], fun h => by simp, List.nodup_nil, List.Perm.refl _, fun h c entry => by cases entry⟩
  | call s call reached ih =>
    obtain ⟨parks, listed⟩ := ih
    cases call with
    | park participant resume =>
      show ∃ parks, (s.park participant resume).2.Listed parks
      unfold Root1AwaitScheduler.park
      split
      · exact ⟨parks, listed⟩
      · have next : { s with nextId := s.nextId + 1 }.Listed parks :=
          ⟨listed.keys, listed.distinct, listed.handles, listed.named⟩
        cases taken : s.continuations s.nextId with
        | none => exact ⟨_, next.add taken Root1ContinuationState.noConfusion⟩
        | some c => exact ⟨parks, next.add_taken (by show (s.continuations s.nextId).isSome = true; rw [taken]; rfl)⟩
    | cancel handle => exact ⟨parks, listed.markTerminal handle (by decide)⟩
    | drop handle => exact ⟨_, listed.drop handle⟩
    | timeOut handles => exact ⟨parks, listed.timeOut handles⟩
    | take participant => exact ⟨parks, listed.reindexed _⟩
    | deliver handle lastEvents eventsDelivered resumeState state valid =>
      refine ⟨parks, ?_⟩
      unfold perform
      dsimp only
      split
      · rename_i c entry
        exact listed.store entry (listed.named handle c entry).1 valid
      · exact listed
  | load s value reached ih =>
    obtain ⟨parks, listed⟩ := ih
    have cleared (nextId : UInt64) : ({ nextId } : Root1AwaitScheduler).Listed [] :=
      ⟨fun h => by simp, List.nodup_nil, List.Perm.refl _, fun h c entry => by cases entry⟩
    rcases loadState_cases value with same | ⟨nextId, empty⟩ | ⟨_, _, nextId, children, _, _, _, _, read⟩
    · rw [(same s).1]
      exact ⟨parks, listed⟩
    · rw [empty]
      exact ⟨[], cleared nextId⟩
    · rw [read]
      exact listed_loadContinuations children (cleared nextId)

theorem atomic_iff (value : Option ListreeValue) : (∀ t, Reached t → Atomic value t) ↔ Whole value := by
  constructor
  · rintro atomic state text children rfl next read listed
    obtain ⟨nextId, read⟩ := Option.isSome_iff_exists.mp read
    have load (t : Root1AwaitScheduler) : t.loadState (some state) =
        ((({ nextId } : Root1AwaitScheduler).loadContinuations children).1,
          if (({ nextId } : Root1AwaitScheduler).loadContinuations children).2 then some true else none) := by
      simp [loadState, next, read, listed]
    rw [← loadContinuations_finished children { nextId }]
    by_contra stopped
    rw [Bool.not_eq_true] at stopped
    -- What is left does not depend on the scheduler, so it is not what each of two was.
    have left (t : Root1AwaitScheduler) (reached : Reached t) :
        (({ nextId } : Root1AwaitScheduler).loadContinuations children).1 = t := by
      have same := atomic t reached
      unfold Atomic at same
      rw [load, stopped, if_neg Bool.false_ne_true] at same
      exact same (Option.some_ne_none true).symm
    have both := (left {} .initial).symm.trans (left _ (.call {} (.park 1 false) .initial))
    exact absurd (congrArg Root1AwaitScheduler.nextId both) (by decide)
  · intro whole t _ rejected
    rcases loadState_cases value with same | ⟨nextId, empty⟩ | ⟨state, text, nextId, children, given, next, read, listed, load⟩
    · exact (same t).1
    · exact absurd (by rw [empty]) rejected
    · have finished := (loadContinuations_finished children { nextId }).mpr
        (whole state text children given next (by rw [read]; rfl) listed)
      exact absurd (by rw [load, finished]; rfl) rejected

theorem fresh_iff (calls : List AwaitCall) (order : List Root1ContinuationHandle)
    (t : Root1AwaitScheduler) :
    Fresh s order calls t ↔ Ahead s calls := by
  have next : (t.loadState (some (s.saveState order))).1.nextId = s.nextId := by
    have added (cs : List ParkedContinuation) (s : Root1AwaitScheduler) : (s.addAll cs).nextId = s.nextId := by
      induction cs generalizing s with
      | nil => rfl
      | cons c cs ih => exact ih (s.add c)
    rw [loadState_saveState, added]
  unfold Fresh Ahead
  refine forall_congr' fun h => ?_
  rw [mem_issued, next, ← Nat.not_lt, ← Option.not_isSome_iff_eq_none]
  exact ⟨fun fresh known near => fresh near known, fun ahead near known => ahead known near⟩

/--
What is saved is restored by every load. Handles issued afterwards are new, and a rejected value leaves
every scheduler as it was, exactly if the next handle is far enough and the value's entries can be read.
-/
theorem transfers_iff (reached : Reached s) {order : List Root1ContinuationHandle}
    (visited : order.Perm s.handles) (calls : List AwaitCall) (value : Option ListreeValue) :
    (∀ t, Reached t → Restores s order t ∧ Fresh s order calls t ∧ Atomic value t) ↔
      Ahead s calls ∧ Whole value := by
  obtain ⟨parks, listed⟩ := reached.listed
  have restores (t : Root1AwaitScheduler) : Restores s order t := by
    obtain ⟨-, entries, -⟩ := loaded listed (visited.trans listed.handles) t
    refine ⟨by rw [loadState_saveState], fun h => ⟨?_, ?_⟩⟩
    · rw [entries, Option.isSome_map]
    · unfold status
      rw [entries]
      cases s.continuations h <;> rfl
  constructor
  · intro transfers
    exact ⟨(fresh_iff calls order {}).mp (transfers {} .initial).2.1,
      (atomic_iff value).mp fun t reached => (transfers t reached).2.2⟩
  · rintro ⟨ahead, whole⟩ t reached
    exact ⟨restores t, (fresh_iff calls order t).mpr ahead, (atomic_iff value).mpr whole t reached⟩

/-- Two continuations are saved and taken over, and a third is parked, while a value without a number is rejected. -/
theorem transfers_iff_parked :
    let parked := (({} : Root1AwaitScheduler).perform (.park 5 false)).perform (.park 7 true)
    Fresh parked [2, 1] [.park 9 false] {} ∧ Atomic (some (object [(ascii "next_id", .text (ascii "x"))])) parked := by
  intro parked
  have reached : Reached parked := .call _ _ (.call _ _ .initial)
  have visited : [2, 1].Perm parked.handles := List.Perm.swap 1 2 []
  have ahead : Ahead parked [.park 9 false] := by
    intro h known
    have listed : h = 1 ∨ h = 2 := by
      by_contra other
      rw [not_or] at other
      simp [parked, perform, Root1AwaitScheduler.park, add, other.1, other.2] at known
    rcases listed with rfl | rfl <;> decide
  have whole : Whole (some (object [(ascii "next_id", .text (ascii "x"))])) := by
    rintro state text children given next read
    cases given
    have same : (find (object [(ascii "next_id", .text (ascii "x"))]) "next_id").bind getData = some (ascii "x") := by
      decide
    rw [same] at next
    cases next
    exact absurd read (by decide)
  have transfers := (transfers_iff reached visited [.park 9 false] _).mpr ⟨ahead, whole⟩
  exact ⟨(transfers {} .initial).2.1, (transfers parked reached).2.2⟩

/-- A value with a handle that is no number is rejected after the next handle and the table were replaced. -/
theorem transfers_fails : ¬∀ (s : Root1AwaitScheduler) (order : List Root1ContinuationHandle)
    (calls : List AwaitCall) (value : Option ListreeValue), Reached s → order.Perm s.handles →
      ∀ t, Reached t → Restores s order t ∧ Fresh s order calls t ∧ Atomic value t := by
  intro transfers
  let value := object [(ascii "next_id", .text (ascii "7")),
    (ascii "continuations", .list [object [(ascii "handle", .text (ascii "x"))]])]
  have rejected := (transfers {} [] [] (some value) .initial (List.Perm.refl _) {} .initial).2.2
  have read : ((({} : Root1AwaitScheduler).loadState (some value)).2,
      (({} : Root1AwaitScheduler).loadState (some value)).1.nextId) = (none, 7) := by decide
  obtain ⟨thrown, next⟩ := Prod.mk.inj read
  have same := congrArg Root1AwaitScheduler.nextId (rejected (by rw [thrown]; exact (Option.some_ne_none true).symm))
  rw [next] at same
  exact absurd same (by decide)

end Root1AwaitScheduler

end AgentC.Edict

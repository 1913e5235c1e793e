import AgentC.Edict.AwaitState

/-! The table of the await scheduler beside its index of participants. -/

namespace AgentC.Edict

open Root1 (ParticipantId)

variable {s : Root1AwaitScheduler} {parks : List Root1ContinuationHandle}

namespace Root1AwaitScheduler

def parkedFor (s : Root1AwaitScheduler) (p : ParticipantId) (h : Root1ContinuationHandle) : Bool :=
  match s.continuations h with
  | some c => c.state = .parked && c.participant = p
  | none => false

/-- The handles are those of the table, each once, and every entry knows its handle and a state. -/
structure Listed (s : Root1AwaitScheduler) (parks : List Root1ContinuationHandle) : Prop where
  keys : ∀ h, h ∈ parks ↔ (s.continuations h).isSome = true
  distinct : parks.Nodup
  handles : s.handles.Perm parks
  named : ∀ h c, s.continuations h = some c → c.handle = h ∧ c.state ≠ .invalid

def Lists (s : Root1AwaitScheduler) (parks : List Root1ContinuationHandle)
    (taken : ParticipantId → List Root1ContinuationHandle) : Prop :=
  ∀ p, taken p ++ s.byParticipant p = parks.filter (s.parkedFor p)

def nothingTaken : ParticipantId → List Root1ContinuationHandle :=
  fun _ => []

section Entries

variable {p : ParticipantId} {h : Root1ContinuationHandle} {c : ParkedContinuation}

theorem parkedFor_of_entry (entry : s.continuations h = some c) :
    s.parkedFor p h = (decide (c.state = .parked) && decide (c.participant = p)) := by
  rw [parkedFor, entry]

theorem entry_of_parkedFor (parked : s.parkedFor p h = true) :
    ∃ c, s.continuations h = some c ∧ c.state = .parked ∧ c.participant = p := by
  unfold parkedFor at parked
  cases entry : s.continuations h with
  | none => rw [entry] at parked; cases parked
  | some c =>
    rw [entry, Bool.and_eq_true, decide_eq_true_eq, decide_eq_true_eq] at parked
    exact ⟨c, rfl, parked⟩

theorem owner_of_parkedFor (entry : s.continuations h = some c) (parked : s.parkedFor p h = true) :
    c.participant = p := by
  rw [parkedFor_of_entry entry, Bool.and_eq_true] at parked
  exact of_decide_eq_true parked.2

theorem filter_absent {hs : List Root1ContinuationHandle} (absent : h ∉ hs) :
    hs.filter (· ≠ h) = hs := by
  rw [List.filter_eq_self]
  intro other member
  have apart : other ≠ h := fun same => absent (same ▸ member)
  simpa using apart

theorem parkedFor_store_other {other : Root1ContinuationHandle} (apart : other ≠ h)
    (c : ParkedContinuation) :
    (s.store h c).parkedFor p other = s.parkedFor p other := by
  simp [parkedFor, store, apart]

theorem parkedFor_store_same (h : Root1ContinuationHandle) (c : ParkedContinuation) :
    (s.store h c).parkedFor p h = (decide (c.state = .parked) && decide (c.participant = p)) :=
  parkedFor_of_entry (by simp [store])

theorem parkedFor_store_told (entry : s.continuations h = some c) (told : ParkedContinuation)
    (state : told.state = c.state) (participant : told.participant = c.participant)
    (p : ParticipantId) :
    (s.store h told).parkedFor p = s.parkedFor p := by
  funext other
  by_cases same : other = h
  · subst same
    rw [parkedFor_store_same, parkedFor_of_entry entry, state, participant]
  · exact parkedFor_store_other same told

theorem parkedFor_store_ended {ended : ParkedContinuation} (state : ended.state ≠ .parked)
    (p : ParticipantId) (other : Root1ContinuationHandle) :
    (s.store h ended).parkedFor p other = (decide (other ≠ h) && s.parkedFor p other) := by
  by_cases same : other = h
  · subst same
    rw [parkedFor_store_same]
    simp [state]
  · rw [parkedFor_store_other same]
    simp [same]

theorem filter_ended {t : Root1AwaitScheduler}
    (ended : ∀ other, t.parkedFor p other = (decide (other ≠ h) && s.parkedFor p other)) :
    parks.filter (t.parkedFor p) = (parks.filter (s.parkedFor p)).filter (· ≠ h) := by
  rw [List.filter_filter]
  exact List.filter_congr fun other _ => ended other

end Entries

namespace Listed

variable {c : ParkedContinuation}

theorem store (listed : s.Listed parks) {h : Root1ContinuationHandle} {new : ParkedContinuation}
    (entry : s.continuations h = some c) (handle : new.handle = h) (valid : new.state ≠ .invalid) :
    (s.store h new).Listed parks where
  distinct := listed.distinct
  handles := listed.handles
  keys other := by
    by_cases same : other = h
    · subst same
      simp [listed.keys, Root1AwaitScheduler.store, entry]
    · simp [listed.keys, Root1AwaitScheduler.store, same]
  named other found kept := by
    by_cases same : other = h
    · subst same
      obtain rfl : new = found := by simpa [Root1AwaitScheduler.store] using kept
      exact ⟨handle, valid⟩
    · exact listed.named other found (by simpa [Root1AwaitScheduler.store, same] using kept)

theorem reindexed (listed : s.Listed parks) (index : ParticipantId → List Root1ContinuationHandle) :
    { s with byParticipant := index }.Listed parks :=
  ⟨listed.keys, listed.distinct, listed.handles, listed.named⟩

theorem markTerminal (listed : s.Listed parks) (h : Root1ContinuationHandle)
    {state : Root1ContinuationState} (valid : state ≠ .invalid) :
    (s.markTerminal h state).2.Listed parks := by
  unfold Root1AwaitScheduler.markTerminal
  cases entry : s.continuations h with
  | none => exact listed
  | some c =>
    dsimp only
    split
    · exact (listed.reindexed _).store entry (listed.named h c entry).1 valid
    · exact listed

theorem timeOut : ∀ (found : List Root1ContinuationHandle) {s : Root1AwaitScheduler},
    s.Listed parks → (s.timeOut found).2.Listed parks := by
  intro found
  induction found with
  | nil => intro s listed; exact listed
  | cons h rest ih =>
    intro s listed
    exact ih (listed.markTerminal h (by decide))

theorem drop (listed : s.Listed parks) (h : Root1ContinuationHandle) :
    (s.drop h).2.Listed (parks.filter (· ≠ h)) := by
  unfold Root1AwaitScheduler.drop
  cases entry : s.continuations h with
  | none =>
    -- A handle without an entry was not among the handles.
    have absent : h ∉ parks := by simp [listed.keys, entry]
    rw [filter_absent absent]
    exact listed
  | some c =>
    refine ⟨fun other => ?_, listed.distinct.filter _, listed.handles.filter _, ?_⟩
    · by_cases same : other = h
      · subst same
        simp
      · simp [listed.keys, removeFromParticipantIndex, same]
    · intro other found kept
      by_cases same : other = h
      · subst same
        simp at kept
      · exact listed.named other found (by simpa [removeFromParticipantIndex, same] using kept)

theorem add (listed : s.Listed parks) (free : s.continuations c.handle = none)
    (valid : c.state ≠ .invalid) :
    (s.add c).Listed (parks ++ [c.handle]) := by
  have absent : c.handle ∉ parks := by simp [listed.keys, free]
  refine ⟨fun other => ?_, ?_, ?_, ?_⟩
  · by_cases same : other = c.handle
    · subst same
      simp [Root1AwaitScheduler.add, free]
    · simp [Root1AwaitScheduler.add, free, listed.keys, same]
  · rw [List.nodup_append]
    refine ⟨listed.distinct, List.nodup_singleton _, fun other member new => ?_⟩
    rintro inNew rfl
    exact absent (List.mem_singleton.mp inNew ▸ member)
  · have handles : (s.add c).handles = s.handles ++ [c.handle] := by
      simp [Root1AwaitScheduler.add, free]
    rw [handles]
    exact listed.handles.append_right _
  · intro other found kept
    by_cases same : other = c.handle
    · subst same
      obtain rfl : c = found := by simpa [Root1AwaitScheduler.add, free] using kept
      exact ⟨rfl, valid⟩
    · exact listed.named other found (by simpa [Root1AwaitScheduler.add, free, same] using kept)

theorem add_taken (listed : s.Listed parks) (taken : (s.continuations c.handle).isSome = true) :
    (s.add c).Listed parks := by
  simp only [Root1AwaitScheduler.add, taken, if_true]
  exact listed.reindexed _

end Listed

namespace Lists

variable {taken : ParticipantId → List Root1ContinuationHandle}

variable {h : Root1ContinuationHandle} {c : ParkedContinuation}

theorem parked (lists : s.Lists parks taken) {p : ParticipantId}
    (member : h ∈ taken p ++ s.byParticipant p) : s.parkedFor p h = true := by
  rw [lists p] at member
  exact (List.mem_filter.mp member).2

theorem removed (lists : s.Lists parks nothingTaken) (entry : s.continuations h = some c)
    (p : ParticipantId) :
    (s.removeFromParticipantIndex h c.participant).byParticipant p =
      (parks.filter (s.parkedFor p)).filter (· ≠ h) := by
  have index : s.byParticipant p = parks.filter (s.parkedFor p) := lists p
  by_cases same : p = c.participant
  · subst same
    simp [removeFromParticipantIndex, index]
  · -- In the entry of another participant it was not.
    have elsewhere : (s.removeFromParticipantIndex h c.participant).byParticipant p =
        s.byParticipant p := by
      simp [removeFromParticipantIndex, same]
    have absent : h ∉ s.byParticipant p := fun member =>
      same (owner_of_parkedFor entry (lists.parked (List.mem_append_right _ member))).symm
    rw [elsewhere, ← index, filter_absent absent]

theorem markTerminal (lists : s.Lists parks nothingTaken) (h : Root1ContinuationHandle)
    {state : Root1ContinuationState} (ended : state ≠ .parked) :
    (s.markTerminal h state).2.Lists parks nothingTaken := by
  unfold Root1AwaitScheduler.markTerminal
  cases entry : s.continuations h with
  | none => exact lists
  | some c =>
    dsimp only
    split
    · intro p
      have kept : parks.filter ((s.store h { c with state }).parkedFor p) =
          (parks.filter (s.parkedFor p)).filter (· ≠ h) :=
        filter_ended (parkedFor_store_ended ended p)
      exact (lists.removed entry p).trans kept.symm
    · exact lists

theorem timeOut : ∀ (found : List Root1ContinuationHandle) {s : Root1AwaitScheduler},
    s.Lists parks nothingTaken → (s.timeOut found).2.Lists parks nothingTaken := by
  intro found
  induction found with
  | nil => intro s lists; exact lists
  | cons h rest ih =>
    intro s lists
    exact ih (lists.markTerminal h (by decide))

theorem drop (lists : s.Lists parks nothingTaken) (listed : s.Listed parks)
    (h : Root1ContinuationHandle) :
    (s.drop h).2.Lists (parks.filter (· ≠ h)) nothingTaken := by
  intro p
  unfold Root1AwaitScheduler.drop
  cases entry : s.continuations h with
  | none =>
    have absent : h ∉ parks := by simp [listed.keys, entry]
    rw [filter_absent absent]
    exact lists p
  | some c =>
    refine (lists.removed entry p).trans ?_
    -- Both sides leave out the handle and what is not parked on the participant.
    rw [List.filter_filter, List.filter_filter]
    refine List.filter_congr fun other _ => ?_
    by_cases same : other = h
    · simp [same]
    · simp [parkedFor, removeFromParticipantIndex, same]

theorem add (lists : s.Lists parks taken) (free : s.continuations c.handle = none)
    (absent : c.handle ∉ parks) (parked : c.state = .parked) :
    (s.add c).Lists (parks ++ [c.handle]) taken := by
  intro p
  have others : ∀ other ∈ parks, (s.add c).parkedFor p other = s.parkedFor p other := by
    intro other member
    have apart : other ≠ c.handle := fun same => absent (same ▸ member)
    simp [parkedFor, Root1AwaitScheduler.add, free, apart]
  have own : (s.add c).parkedFor p c.handle = decide (c.participant = p) := by
    simp [parkedFor, Root1AwaitScheduler.add, free, parked]
  have index : (s.add c).byParticipant p =
      s.byParticipant p ++ if c.participant = p then [c.handle] else [] := by
    by_cases same : c.participant = p
    · subst same
      simp [Root1AwaitScheduler.add]
    · have apart : p ≠ c.participant := Ne.symm same
      simp [Root1AwaitScheduler.add, same, apart]
  rw [List.filter_append, List.filter_congr others, ← lists p, index, List.append_assoc,
    List.filter_singleton, own]
  by_cases same : c.participant = p <;> simp [same]

theorem ended (lists : s.Lists parks taken) (listed : s.Listed parks)
    (entry : s.continuations h = some c) (new : ParkedContinuation) (state : new.state ≠ .parked)
    {q : ParticipantId} {rest : List Root1ContinuationHandle} (first : taken q = h :: rest) :
    (s.store h new).Lists parks (Function.update taken q rest) := by
  intro p
  have kept : parks.filter ((s.store h new).parkedFor p) =
      (parks.filter (s.parkedFor p)).filter (· ≠ h) :=
    filter_ended (parkedFor_store_ended state p)
  rw [kept, ← lists p]
  show _ ++ s.byParticipant p = _
  have owner : c.participant = q :=
    owner_of_parkedFor entry (lists.parked (List.mem_append_left _ (first ▸ List.mem_cons_self)))
  by_cases same : p = q
  · subst same
    have once : (h :: (rest ++ s.byParticipant p)).Nodup := by
      rw [← List.cons_append, ← first, lists p]
      exact listed.distinct.filter _
    have unlisted := (List.nodup_cons.mp once).1
    rw [first, Function.update_self, List.cons_append, List.filter_cons]
    simp only [ne_eq, not_true_eq_false, decide_false, Bool.false_eq_true, if_false]
    exact (filter_absent unlisted).symm
  · -- The entries of other participants do not have the handle.
    have absent : h ∉ taken p ++ s.byParticipant p := fun member =>
      same ((owner_of_parkedFor entry (lists.parked member)).symm.trans owner)
    rw [Function.update_of_ne same]
    exact (filter_absent absent).symm

end Lists

end Root1AwaitScheduler

end AgentC.Edict

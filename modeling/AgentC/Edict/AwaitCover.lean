import AgentC.Edict.AwaitIndex

/-! What the await index has in every run: all that is parked, and nothing of other participants. -/

namespace AgentC.Edict

open Root1 (ParticipantId)
open Root1AwaitScheduler (nothingTaken)

namespace Root1AwaitScheduler

variable {s : Root1AwaitScheduler} {taken : ParticipantId → List Root1ContinuationHandle}
  {h : Root1ContinuationHandle} {c : ParkedContinuation}

/--
The index, behind the handles that were taken from it, has every parked continuation, and it lists
handles only for the participants their continuations belong to, and once.
-/
structure Covers (s : Root1AwaitScheduler)
    (taken : ParticipantId → List Root1ContinuationHandle) : Prop where
  covered : ∀ p h, s.parkedFor p h = true → h ∈ taken p ++ s.byParticipant p
  owned : ∀ p h, h ∈ taken p ++ s.byParticipant p → s.ownedBy p h = true
  once : ∀ p, (taken p ++ s.byParticipant p).Nodup

variable {p : ParticipantId} {other : Root1ContinuationHandle}

theorem owner_unique {q : ParticipantId} (first : s.ownedBy p h = true)
    (second : s.ownedBy q h = true) : p = q := by
  unfold ownedBy at first second
  cases entry : s.continuations h with
  | none => rw [entry] at first; cases first
  | some c =>
    rw [entry] at first second
    exact (of_decide_eq_true first).symm.trans (of_decide_eq_true second)

theorem ownedBy_store (entry : s.continuations h = some c) (new : ParkedContinuation)
    (participant : new.participant = c.participant) (p : ParticipantId) :
    (s.store h new).ownedBy p = s.ownedBy p := by
  funext other
  by_cases same : other = h
  · subst same
    simp [ownedBy, store, entry, participant]
  · simp [ownedBy, store, same]

theorem parkedFor_of_markTerminal {state : Root1ContinuationState} (ended : state ≠ .parked)
    (waits : (s.markTerminal h state).2.parkedFor p other = true) : s.parkedFor p other = true := by
  unfold markTerminal at waits
  split at waits
  · next c entry =>
    split at waits
    · change (s.store h { c with state }).parkedFor p other = true at waits
      rw [parkedFor_store_ended ended p other, Bool.and_eq_true] at waits
      exact waits.2
    · exact waits
  · exact waits

theorem parkedFor_of_timeOut :
    ∀ (found : List Root1ContinuationHandle) {s : Root1AwaitScheduler},
      (s.timeOut found).2.parkedFor p other = true → s.parkedFor p other = true := by
  intro found
  induction found with
  | nil => intro s waits; exact waits
  | cons h rest ih =>
    intro s waits
    have marked : (s.markTerminal h .timeout).2.parkedFor p other = true := ih waits
    have ended : Root1ContinuationState.timeout ≠ .parked := by decide
    exact parkedFor_of_markTerminal ended marked

theorem parkedFor_of_drop (waits : (s.drop h).2.parkedFor p other = true) :
    s.parkedFor p other = true := by
  unfold drop at waits
  split at waits
  · by_cases same : other = h
    · simp [parkedFor, same] at waits
    · simpa [parkedFor, removeFromParticipantIndex, same] using waits
  · exact waits

namespace Covers

theorem store (covers : s.Covers taken) (entry : s.continuations h = some c)
    (new : ParkedContinuation) (participant : new.participant = c.participant)
    (parked : new.state = .parked → c.state = .parked) : (s.store h new).Covers taken where
  covered p other waits := by
    refine covers.covered p other ?_
    by_cases same : other = h
    · subst same
      rw [parkedFor_store_same, Bool.and_eq_true, decide_eq_true_eq, decide_eq_true_eq] at waits
      rw [parkedFor_of_entry entry, Bool.and_eq_true, decide_eq_true_eq, decide_eq_true_eq]
      exact ⟨parked waits.1, participant.symm.trans waits.2⟩
    · rwa [parkedFor_store_other same] at waits
  owned p other member := by
    rw [ownedBy_store entry new participant]
    exact covers.owned p other member
  once := covers.once

theorem shrink {q : ParticipantId} {rest : List Root1ContinuationHandle}
    (covers : s.Covers (Function.update nothingTaken q (h :: rest)))
    (ended : ∀ p, s.parkedFor p h = false) : s.Covers (Function.update nothingTaken q rest) := by
  have sublist : ∀ p, List.Sublist (Function.update nothingTaken q rest p ++ s.byParticipant p)
      (Function.update nothingTaken q (h :: rest) p ++ s.byParticipant p) := by
    intro p
    by_cases same : p = q
    · subst same
      rw [Function.update_self, Function.update_self]
      exact List.sublist_cons_self h _
    · rw [Function.update_of_ne same, Function.update_of_ne same]
  refine ⟨fun p other waits => ?_, fun p other member => ?_, fun p => ?_⟩
  · have listed := covers.covered p other waits
    have apart : other ≠ h := by
      rintro rfl
      rw [ended p] at waits
      cases waits
    by_cases same : p = q
    · subst same
      rw [Function.update_self] at listed ⊢
      exact (List.mem_cons.mp listed).resolve_left apart
    · rwa [Function.update_of_ne same] at listed ⊢
  · exact covers.owned p other ((sublist p).subset member)
  · exact (covers.once p).sublist (sublist p)

theorem without (covers : s.Covers nothingTaken) (entry : s.continuations h = some c)
    {t : Root1AwaitScheduler}
    (index : t.byParticipant = (s.removeFromParticipantIndex h c.participant).byParticipant)
    (waits : ∀ p other, t.parkedFor p other = true → other ≠ h ∧ s.parkedFor p other = true)
    (owners : ∀ p other, other ≠ h → s.ownedBy p other = true → t.ownedBy p other = true) :
    t.Covers nothingTaken := by
  -- In the entries of other participants the handle was not.
  have filtered : ∀ p, t.byParticipant p = (s.byParticipant p).filter (· ≠ h) := by
    intro p
    rw [index]
    by_cases same : p = c.participant
    · subst same
      simp [removeFromParticipantIndex]
    · have absent : h ∉ s.byParticipant p := by
        intro member
        have owner : s.ownedBy c.participant h = true := by simp [ownedBy, entry]
        exact same (owner_unique (covers.owned p h member) owner)
      rw [filter_absent absent]
      simp [removeFromParticipantIndex, same]
  refine ⟨fun p other parked => ?_, fun p other member => ?_, fun p => ?_⟩
  · obtain ⟨apart, was⟩ := waits p other parked
    show other ∈ t.byParticipant p
    rw [filtered p]
    exact List.mem_filter.mpr ⟨covers.covered p other was, by simpa using apart⟩
  · change other ∈ t.byParticipant p at member
    rw [filtered p] at member
    obtain ⟨listed, apart⟩ := List.mem_filter.mp member
    exact owners p other (by simpa using apart) (covers.owned p other listed)
  · show (t.byParticipant p).Nodup
    rw [filtered p]
    exact (covers.once p).filter _

theorem markTerminal (covers : s.Covers nothingTaken) (h : Root1ContinuationHandle)
    {state : Root1ContinuationState} (ended : state ≠ .parked) :
    (s.markTerminal h state).2.Covers nothingTaken := by
  unfold Root1AwaitScheduler.markTerminal
  cases entry : s.continuations h with
  | none => exact covers
  | some c =>
    dsimp only
    split
    · refine covers.without entry rfl (fun p other waits => ?_) fun p other _ owned => ?_
      · change (s.store h { c with state }).parkedFor p other = true at waits
        rw [parkedFor_store_ended ended p other, Bool.and_eq_true] at waits
        exact ⟨of_decide_eq_true waits.1, waits.2⟩
      · exact (congrFun (ownedBy_store entry { c with state } rfl p) other).trans owned
    · exact covers

theorem timeOut : ∀ (found : List Root1ContinuationHandle) {s : Root1AwaitScheduler},
    s.Covers nothingTaken → (s.timeOut found).2.Covers nothingTaken := by
  intro found
  induction found with
  | nil => intro s covers; exact covers
  | cons h rest ih =>
    intro s covers
    exact ih (covers.markTerminal h Root1ContinuationState.noConfusion)

theorem drop (covers : s.Covers nothingTaken) (h : Root1ContinuationHandle) :
    (s.drop h).2.Covers nothingTaken := by
  unfold Root1AwaitScheduler.drop
  cases entry : s.continuations h with
  | none => exact covers
  | some c =>
    refine covers.without entry rfl (fun p other waits => ?_) fun p other apart owned => ?_
    · by_cases same : other = h
      · simp [parkedFor, same] at waits
      · exact ⟨same, by simpa [parkedFor, removeFromParticipantIndex, same] using waits⟩
    · simpa [ownedBy, removeFromParticipantIndex, apart] using owned

theorem add (covers : s.Covers taken) (free : s.continuations c.handle = none) :
    (s.add c).Covers taken := by
  have unlisted : ∀ p, c.handle ∉ taken p ++ s.byParticipant p := by
    intro p member
    have owned := covers.owned p _ member
    simp [ownedBy, free] at owned
  have index : ∀ p, taken p ++ (s.add c).byParticipant p =
      (taken p ++ s.byParticipant p) ++ if c.participant = p then [c.handle] else [] := by
    intro p
    rw [List.append_assoc]
    by_cases same : c.participant = p
    · subst same
      simp [Root1AwaitScheduler.add]
    · have apart : p ≠ c.participant := Ne.symm same
      simp [Root1AwaitScheduler.add, same, apart]
  refine ⟨fun p other waits => ?_, fun p other member => ?_, fun p => ?_⟩
  · rw [index p, List.mem_append]
    by_cases same : other = c.handle
    · subst same
      have owner : c.participant = p :=
        owner_of_parkedFor (by simp [Root1AwaitScheduler.add, free]) waits
      exact Or.inr (by simp [owner])
    · refine Or.inl (covers.covered p other ?_)
      simpa [parkedFor, Root1AwaitScheduler.add, free, same] using waits
  · rw [index p, List.mem_append] at member
    rcases member with old | new
    · have apart : other ≠ c.handle := fun same => unlisted p (same ▸ old)
      simpa [ownedBy, Root1AwaitScheduler.add, free, apart] using covers.owned p other old
    · by_cases same : c.participant = p
      · rw [if_pos same, List.mem_singleton] at new
        subst new
        simp [ownedBy, Root1AwaitScheduler.add, free, same]
      · simp [same] at new
  · rw [index p]
    split
    · refine List.nodup_append.mpr ⟨covers.once p, List.nodup_singleton _, ?_⟩
      intro other member new inNew same
      exact unlisted p (List.mem_singleton.mp inNew ▸ same ▸ member)
    · rw [List.append_nil]
      exact covers.once p

end Covers

end Root1AwaitScheduler

end AgentC.Edict

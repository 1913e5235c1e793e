import AgentC.Root1.Mailboxes

/-! The wake signals of participants, which the broker raises with every descriptor. -/

namespace AgentC.Root1

namespace Broker

def signalled (b : Broker) (p : ParticipantId) : Bool :=
  match b.participants p with
  | some record => 0 < record.eventFd
  | none => false

/--
From one broker to the next a participant loses no signal, and its ring changes only with a signal.
-/
structure Signals (p : ParticipantId) (b c : Broker) : Prop where
  kept : b.signalled p = true → c.signalled p = true
  told : c.undrained p = b.undrained p ∨ c.signalled p = true

namespace Signals

variable {p : ParticipantId} {b c d : Broker}

theorem refl (p : ParticipantId) (b : Broker) : Signals p b b :=
  ⟨id, Or.inl rfl⟩

theorem trans (first : Signals p b c) (second : Signals p c d) : Signals p b d where
  kept := second.kept ∘ first.kept
  told := by
    -- A signal raised by the first change outlives the second.
    rcases second.told with same | raised
    · exact first.told.imp same.trans second.kept
    · exact Or.inr raised

theorem of_participants (same : c.participants = b.participants) : Signals p b c := by
  have rings : c.undrained p = b.undrained p := by simp only [undrained, same]
  have signals : c.signalled p = b.signalled p := by simp only [signalled, same]
  exact ⟨fun was => signals.trans was, Or.inl rings⟩

theorem setParticipant {q : ParticipantId} {record : ParticipantRecord}
    (kept : b.signalled q = true → 0 < record.eventFd)
    (told : record.descriptorMailbox = b.undrained q ∨ 0 < record.eventFd) :
    Signals p b (b.setParticipant q record) := by
  by_cases same : p = q
  · subst same
    have raised : (b.setParticipant p record).signalled p = decide (0 < record.eventFd) := by
      simp [signalled, Broker.setParticipant]
    refine ⟨fun was => by rw [raised, decide_eq_true_eq]; exact kept was, ?_⟩
    rw [raised, decide_eq_true_eq, undrained_setParticipant_same]
    exact told
  · have other : (b.setParticipant q record).signalled p = b.signalled p := by
      simp [signalled, Broker.setParticipant, same]
    exact ⟨fun was => other.trans was, Or.inl (undrained_setParticipant_other same record)⟩

theorem modifyParticipant {q : ParticipantId} {change : ParticipantRecord → ParticipantRecord}
    (rises : ∀ record, record.eventFd ≤ (change record).eventFd)
    (tells : ∀ record, (change record).descriptorMailbox = record.descriptorMailbox ∨
      record.eventFd < (change record).eventFd) :
    Signals p b (b.modifyParticipant q change) := by
  unfold Broker.modifyParticipant
  cases found : b.participants q with
  | none => exact refl p b
  | some record =>
    have more := rises record
    refine setParticipant (fun was => ?_) ?_
    · have positive : 0 < record.eventFd := by
        simpa only [signalled, found, decide_eq_true_eq] using was
      omega
    · rw [undrained_of_record found]
      exact (tells record).imp_right fun raised => by omega

theorem modifyParticipant_other {q : ParticipantId} (apart : p ≠ q)
    (change : ParticipantRecord → ParticipantRecord) :
    Signals p b (b.modifyParticipant q change) := by
  have record : (b.modifyParticipant q change).participants p = b.participants p := by
    unfold Broker.modifyParticipant
    split
    · simp [Broker.setParticipant, apart]
    · rfl
  have signals : (b.modifyParticipant q change).signalled p = b.signalled p := by
    simp only [signalled, record]
  exact ⟨fun was => signals.trans was, Or.inl (undrained_modifyParticipant_other apart change)⟩

theorem pushDescriptorLocked (q : ParticipantId) (descriptor : MailboxDescriptor) :
    Signals p b (b.pushDescriptorLocked q descriptor) := by
  refine modifyParticipant (fun record => ?_) fun record => ?_
  · split
    · exact Nat.le_succ _
    · exact Nat.le_refl _
  · split
    · exact Or.inr (Nat.lt_succ_self _)
    · exact Or.inl rfl

theorem pushEventLocked (q : ParticipantId) (event : BrokerEvent) :
    Signals p b (b.pushEventLocked q event) :=
  modifyParticipant (fun _ => Nat.le_succ _) fun _ => Or.inl rfl

theorem pushGrant (key : ResourceKey) (next : ParticipantId) :
    Signals p b (b.pushGrant key next) := by
  have counted : Signals p b { b with nextGrantToken := b.nextGrantToken + 1 } :=
    of_participants rfl
  rw [Broker.pushGrant]
  exact (counted.trans (pushDescriptorLocked next _)).trans (pushEventLocked next _)

theorem handOff (key : ResourceKey) (owner : ParticipantId) (cause : Cause) (reason : Bytes) :
    Signals p b (b.handOff key owner cause reason).shared := by
  unfold Broker.handOff
  cases b.nextWaiter (b.waiters key) with
  | none =>
    dsimp only
    split <;> exact of_participants rfl
  | some passed =>
    obtain ⟨next, rest⟩ := passed
    dsimp only
    have taken : Signals p b (b.passTo key next rest) := of_participants rfl
    split
    · exact taken.trans (pushGrant key next)
    · -- A revocation tells of the owner before, then of the grant, and forgets the lease.
      let granted := ((b.passTo key next rest).pushOwnerDied key next owner reason).pushGrant key next
      refine trans (c := granted) ?_ (of_participants rfl)
      exact (taken.trans (pushDescriptorLocked next _)).trans (pushGrant key next)

theorem reportDown (q : ParticipantId) (order : List ResourceKey) :
    Signals p b (b.reportDown q order).shared := by
  rw [Broker.reportDown]
  cases found : b.participants q with
  | none => exact refl p b
  | some record =>
    dsimp only
    split
    · exact refl p b
    · refine trans (setParticipant (fun was => ?_) ?_) (pushDescriptorLocked q _)
      · simpa only [signalled, found, decide_eq_true_eq] using was
      · exact Or.inl (undrained_of_record found).symm

end Signals

end Broker

def Work.sends : Work → Bool
  | .drainEventFd _ | .drainDescriptors _ => false
  | .register ring => (ring.getD []).isEmpty
  | .reconstruct _ ring notifyPending => ring.isEmpty || notifyPending
  | _ => true

open Broker (Signals)

theorem perform_signals (b : Broker) {item : Work} (sends : item.sends = true) (p : ParticipantId) :
    Signals p b (perform b item).shared := by
  cases item with
  | tryAcquire key q | acquireFast key q | retryAcquire key q =>
    simp only [perform, Broker.tryAcquireUnlocked]
    by_cases free : b.words key = 0
    · simp only [if_pos free]
      exact .of_participants rfl
    · simp only [if_neg free]
      exact .refl p b
  | checkOwner key q =>
    simp only [perform]
    split
    · exact .refl p b
    · split <;> exact .refl p b
  | enqueue key q =>
    simp only [perform]
    split <;> exact .of_participants rfl
  | checkTenure key owner cause reason =>
    simp only [perform]
    split <;> exact .refl p b
  | handOff key owner cause reason => exact .handOff key owner cause reason
  | registerLease key owner tick =>
    simp only [perform, Broker.registerLease]
    split <;> exact .of_participants rfl
  | renewLease key owner tick =>
    simp only [perform, Broker.renewLease]
    split
    · split <;> exact .of_participants rfl
    · exact .refl p b
  | recoverLease key reason =>
    simp only [perform]
    split <;> exact .refl p b
  | heartbeatLeases | collectExpired | recoverLeases => exact .of_participants rfl
  | register ring =>
    simp only [perform, Broker.register]
    split
    · next ring absent =>
      -- The new participant has nothing to be told of.
      have empty : ring = [] := List.isEmpty_iff.mp sends
      refine Signals.trans (c := { b with nextParticipant := b.nextParticipant + 1 })
        (.of_participants rfl) (.setParticipant (fun was => ?_) (Or.inl ?_))
      · simp [Broker.signalled, absent] at was
      · rw [empty]
        exact (Broker.undrained_of_none absent).symm
    · exact .of_participants rfl
  | reconstruct q ring notifyPending =>
    rw [perform, Broker.reconstruct]
    split
    · exact .refl p b
    · next unknown =>
      have absent : b.participants q = none := by
        simpa [Broker.isValidParticipantLocked] using unknown
      refine Signals.trans (.setParticipant (q := q) (fun was => ?_) ?_) (.of_participants rfl)
      · simp [Broker.signalled, absent] at was
      · rw [Broker.undrained_of_none absent]
        rcases (Bool.or_eq_true _ _).mp sends with empty | pending
        · exact Or.inl (List.isEmpty_iff.mp empty)
        · cases ring with
          | nil => exact Or.inl rfl
          | cons _ _ => exact Or.inr (by simp [pending])
  | attachPid q | drainMailbox q =>
    exact .modifyParticipant (fun _ => Nat.le_refl _) fun _ => Or.inl rfl
  | reportDown q order => exact .reportDown q order
  | sendMessage q payload sequence =>
    exact (Signals.pushDescriptorLocked q _).trans (.pushEventLocked q _)
  | sendDescriptor q descriptor => exact .pushDescriptorLocked q descriptor
  | drainEventFd q | drainDescriptors q => cases sends

theorem undrained_sends (b : Broker) {item : Work} (sends : item.sends = true) (p : ParticipantId) :
    b.undrained p <+: (perform b item).shared.undrained p := by
  have grows := perform_undrained b item p
  cases item <;> first | exact grows | cases sends

theorem undrained_drainEventFd (b : Broker) (p q : ParticipantId) :
    (perform b (.drainEventFd q)).shared.undrained p = b.undrained p := by
  by_cases same : p = q
  · subst same
    cases found : b.participants p with
    | none => simp only [perform, Broker.modifyParticipant, found]
    | some record =>
      rw [Broker.undrained_of_record found, perform]
      exact Broker.undrained_modifyParticipant_same found
  · exact Broker.undrained_modifyParticipant_other same _

theorem undrained_drainDescriptors (b : Broker) (p : ParticipantId) :
    (perform b (.drainDescriptors p)).shared.undrained p = [] := by
  cases found : b.participants p with
  | none =>
    simp only [perform, Broker.modifyParticipant, found]
    exact Broker.undrained_of_none found
  | some record => exact Broker.undrained_modifyParticipant_same found

def Work.depth : Work → Nat
  | .retryAcquire .. | .checkTenure .. | .heartbeatLeases .. => 1
  | .checkOwner .. | .recoverLease .. => 2
  | .recoverLeases .. => 3
  | .reportDown .. => 4
  | _ => 0

theorem more_of_perform {b : Broker} {item next : Work} (member : next ∈ (perform b item).more) :
    next.sends = true ∧ next.depth < item.depth := by
  cases item with
  | tryAcquire key q | acquireFast key q =>
    simp only [perform] at member
    split at member <;> cases member
  | retryAcquire key q =>
    simp only [perform] at member
    split at member
    · cases member
    · rw [List.mem_singleton.mp member]
      exact ⟨rfl, Nat.lt_succ_self _⟩
  | checkOwner key q =>
    simp only [perform] at member
    split at member
    · cases member
    · split at member
      · cases member
      · rw [List.mem_singleton.mp member]
        exact ⟨rfl, Nat.lt_succ_self _⟩
  | enqueue key q =>
    simp only [perform] at member
    split at member <;> cases member
  | checkTenure key owner cause reason =>
    simp only [perform] at member
    split at member
    · rw [List.mem_singleton.mp member]
      exact ⟨rfl, Nat.lt_succ_self _⟩
    · cases member
  | handOff key owner cause reason =>
    simp only [perform, Broker.handOff] at member
    split at member <;> cases member
  | registerLease key owner tick =>
    simp only [perform, Broker.registerLease] at member
    split at member <;> cases member
  | renewLease key owner tick =>
    simp only [perform, Broker.renewLease] at member
    split at member
    · split at member <;> cases member
    · cases member
  | heartbeatLeases owner tick order | recoverLeases owner reason order =>
    obtain ⟨entry, -, rfl⟩ := List.mem_map.mp member
    exact ⟨rfl, Nat.lt_succ_self _⟩
  | recoverLease key reason =>
    simp only [perform] at member
    split at member
    · rw [List.mem_singleton.mp member]
      exact ⟨rfl, Nat.lt_succ_self _⟩
    · cases member
  | reportDown q order =>
    simp only [perform, Broker.reportDown] at member
    split at member
    · split at member
      · cases member
      · rw [List.mem_singleton.mp member]
        exact ⟨rfl, Nat.lt_succ_self _⟩
    · cases member
  | collectExpired | register | reconstruct | attachPid | drainEventFd | sendMessage
  | sendDescriptor | drainMailbox | drainDescriptors => cases member

end AgentC.Root1

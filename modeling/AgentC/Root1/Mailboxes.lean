import Mathlib.Data.List.Infix
import AgentC.Root1.BrokerLaws

/-! What the accesses of the broker put into the descriptor rings and take out of them. -/

namespace AgentC.Root1

namespace Broker

def undrained (b : Broker) (p : ParticipantId) : List MailboxDescriptor :=
  match b.participants p with
  | some record => record.descriptorMailbox
  | none => []

variable {b : Broker}

variable {p : ParticipantId}

theorem undrained_of_record {record : ParticipantRecord} (found : b.participants p = some record) :
    b.undrained p = record.descriptorMailbox := by
  simp only [undrained, found]

theorem undrained_of_none (absent : b.participants p = none) :
    b.undrained p = [] := by
  simp only [undrained, absent]

@[simp] theorem undrained_setParticipant_same (p : ParticipantId) (record : ParticipantRecord) :
    (b.setParticipant p record).undrained p = record.descriptorMailbox := by
  simp [undrained, setParticipant]

@[simp] theorem undrained_setParticipant_other {other : ParticipantId} (apart : other ≠ p)
    (record : ParticipantRecord) :
    (b.setParticipant p record).undrained other = b.undrained other := by
  simp [undrained, setParticipant, apart]

@[simp] theorem undrained_eraseLease (key : ResourceKey) :
    (b.eraseLease key).undrained = b.undrained := rfl

theorem undrained_modifyParticipant_same {change : ParticipantRecord → ParticipantRecord}
    {record : ParticipantRecord} (found : b.participants p = some record) :
    (b.modifyParticipant p change).undrained p = (change record).descriptorMailbox := by
  simp only [modifyParticipant, found, undrained_setParticipant_same]

theorem undrained_modifyParticipant_other {other : ParticipantId} (apart : other ≠ p)
    (change : ParticipantRecord → ParticipantRecord) :
    (b.modifyParticipant p change).undrained other = b.undrained other := by
  unfold modifyParticipant
  cases b.participants p with
  | none => rfl
  | some record => exact undrained_setParticipant_other apart _

theorem undrained_modifyParticipant_prefix {change : ParticipantRecord → ParticipantRecord}
    (adds : ∀ record, record.descriptorMailbox <+: (change record).descriptorMailbox)
    (p q : ParticipantId) : b.undrained p <+: (b.modifyParticipant q change).undrained p := by
  by_cases same : p = q
  · subst same
    cases found : b.participants p with
    | none => exact undrained_of_none found ▸ List.nil_prefix
    | some record =>
      rw [undrained_of_record found, undrained_modifyParticipant_same found]
      exact adds record
  · rw [undrained_modifyParticipant_other same]

@[simp] theorem undrained_pushEventLocked (p q : ParticipantId) (event : BrokerEvent) :
    (b.pushEventLocked q event).undrained p = b.undrained p := by
  by_cases same : p = q
  · subst same
    cases found : b.participants p with
    | none => simp only [pushEventLocked, modifyParticipant, found]
    | some record =>
      rw [undrained_of_record found]
      exact undrained_modifyParticipant_same found
  · exact undrained_modifyParticipant_other same _

theorem undrained_pushDescriptorLocked_front (p q : ParticipantId)
    (descriptor : MailboxDescriptor) :
    b.undrained p <+: (b.pushDescriptorLocked q descriptor).undrained p :=
  undrained_modifyParticipant_prefix (fun record => by
    split
    · exact List.prefix_append _ _
    · exact List.prefix_rfl) p q

theorem undrained_pushDescriptorLocked (registered : b.isValidParticipantLocked p)
    (descriptor : MailboxDescriptor) :
    (b.pushDescriptorLocked p descriptor).undrained p =
      if (b.undrained p).length < kMailboxRingCapacity then b.undrained p ++ [descriptor]
      else b.undrained p := by
  obtain ⟨record, found⟩ := Option.isSome_iff_exists.mp registered
  rw [undrained_of_record found, pushDescriptorLocked, undrained_modifyParticipant_same found]
  split <;> rfl

theorem undrained_pushGrant {next : ParticipantId} (registered : b.isValidParticipantLocked next)
    (key : ResourceKey) :
    (b.pushGrant key next).undrained next =
      if (b.undrained next).length < kMailboxRingCapacity then
        b.undrained next ++ [{ eventKind := .ownershipGranted, resource := key
                               grantToken := b.nextGrantToken, sequence := b.nextGrantToken }]
      else b.undrained next := by
  rw [pushGrant, undrained_pushEventLocked]
  exact undrained_pushDescriptorLocked (b := { b with nextGrantToken := b.nextGrantToken + 1 })
    registered _

theorem undrained_pushGrant_front (key : ResourceKey) (next p : ParticipantId) :
    b.undrained p <+: (b.pushGrant key next).undrained p := by
  rw [pushGrant, undrained_pushEventLocked]
  exact undrained_pushDescriptorLocked_front
    (b := { b with nextGrantToken := b.nextGrantToken + 1 }) p next _

theorem undrained_handOff_prefix (b : Broker) (key : ResourceKey) (owner : ParticipantId)
    (cause : Cause) (reason : Bytes) (p : ParticipantId) :
    b.undrained p <+: (b.handOff key owner cause reason).shared.undrained p := by
  unfold handOff
  cases b.nextWaiter (b.waiters key) with
  | none =>
    dsimp only
    split <;> exact List.prefix_rfl
  | some passed =>
    obtain ⟨next, rest⟩ := passed
    dsimp only
    split
    · exact undrained_pushGrant_front (b := b.passTo key next rest) key next p
    · -- A revocation tells of the owner before, and then of the grant.
      rw [undrained_eraseLease]
      exact (undrained_pushDescriptorLocked_front (b := b.passTo key next rest) p next _).trans
        (undrained_pushGrant_front key next p)

end Broker

def Work.takes (b : Broker) (p : ParticipantId) : Work → List MailboxDescriptor
  | .drainDescriptors participant => if participant = p then b.undrained p else []
  | _ => []

/-- No access loses a descriptor: what leaves a ring is taken, and what is new comes last. -/
theorem perform_undrained (b : Broker) (item : Work) (p : ParticipantId) :
    b.undrained p <+: item.takes b p ++ (perform b item).shared.undrained p := by
  cases item with
  | tryAcquire key q | acquireFast key q | retryAcquire key q =>
    simp only [perform, Broker.tryAcquireUnlocked]
    by_cases free : b.words key = 0
    · simp only [if_pos free]
      exact List.prefix_rfl
    · simp only [if_neg free]
      exact List.prefix_rfl
  | checkOwner key q =>
    simp only [perform]
    split
    · exact List.prefix_rfl
    · split <;> exact List.prefix_rfl
  | enqueue key q =>
    simp only [perform]
    split <;> exact List.prefix_rfl
  | checkTenure key owner cause reason =>
    simp only [perform]
    split <;> exact List.prefix_rfl
  | handOff key owner cause reason => exact b.undrained_handOff_prefix key owner cause reason p
  | registerLease key owner tick =>
    simp only [perform, Broker.registerLease]
    split <;> exact List.prefix_rfl
  | renewLease key owner tick =>
    simp only [perform, Broker.renewLease]
    split
    · split <;> exact List.prefix_rfl
    · exact List.prefix_rfl
  | recoverLease key reason =>
    simp only [perform]
    split <;> exact List.prefix_rfl
  | heartbeatLeases | collectExpired | recoverLeases => exact List.prefix_rfl
  | register ring =>
    -- A new participant brings its ring with it, where there was none.
    simp only [perform, Broker.register]
    split
    · next ring absent =>
      by_cases same : p = b.nextParticipant
      · subst same
        rw [Broker.undrained_of_none absent]
        exact List.nil_prefix
      · rw [Broker.undrained_setParticipant_other same]
        exact List.prefix_rfl
    · exact List.prefix_rfl
  | reconstruct q ring notifyPending =>
    rw [perform, Broker.reconstruct]
    split
    · exact List.prefix_rfl
    · next absent =>
      by_cases same : p = q
      · subst same
        rw [Broker.undrained_of_none (by simpa [Broker.isValidParticipantLocked] using absent)]
        exact List.nil_prefix
      · show _ <+: (b.setParticipant q _).undrained p
        rw [Broker.undrained_setParticipant_other same]
  | attachPid q | drainEventFd q | drainMailbox q =>
    refine Broker.undrained_modifyParticipant_prefix ?_ p q
    exact fun _ => List.prefix_rfl
  | reportDown q order =>
    rw [perform, Broker.reportDown]
    cases found : b.participants q with
    | none => exact List.prefix_rfl
    | some record =>
      dsimp only
      split
      · exact List.prefix_rfl
      · refine List.IsPrefix.trans ?_ (Broker.undrained_pushDescriptorLocked_front p q _)
        by_cases same : p = q
        · subst same
          rw [Broker.undrained_of_record found, Broker.undrained_setParticipant_same]
        · rw [Broker.undrained_setParticipant_other same]
  | sendMessage q payload sequence =>
    rw [perform]
    show _ <+: Broker.undrained (Broker.pushEventLocked _ _ _) p
    rw [Broker.undrained_pushEventLocked]
    exact Broker.undrained_pushDescriptorLocked_front p q _
  | sendDescriptor q descriptor => exact Broker.undrained_pushDescriptorLocked_front p q descriptor
  | drainDescriptors q =>
    -- Draining takes the whole ring, so nothing is left to be behind it.
    simp only [Work.takes, perform]
    by_cases same : q = p
    · rw [if_pos same]
      exact List.prefix_append _ _
    · rw [if_neg same, Broker.undrained_modifyParticipant_other (Ne.symm same)]
      exact List.prefix_rfl

end AgentC.Root1

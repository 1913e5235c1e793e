import AgentC.Root1.Mailboxes

/-! A mailbox message and the two views of it: the event queue and the descriptor ring. -/

namespace AgentC.Root1

/-- A mailbox message, as a receiver sees it. -/
structure Message where
  sequence : UInt64
  payload : Bytes
  deriving DecidableEq, Repr

def BrokerEvent.message? (event : BrokerEvent) : Option Message :=
  if event.kind = .mailboxMessage then some ⟨event.sequence, event.payload⟩ else none

def MailboxDescriptor.message? (descriptor : MailboxDescriptor) : Option Message :=
  if descriptor.eventKind = .message then some ⟨descriptor.sequence, descriptor.inline⟩ else none

namespace Broker

/-- Sending a message under the mutex: the answer, and the broker afterwards. -/
def sendMailboxMessage (b : Broker) (participant : ParticipantId) (payload : Bytes)
    (sequence : UInt64) : Bool × Broker :=
  if b.isValidParticipantLocked participant then
    (true, (perform b (.sendMessage participant payload sequence)).shared)
  else (false, b)

def queued (b : Broker) (p : ParticipantId) : List BrokerEvent :=
  match b.participants p with
  | some record => record.mailbox
  | none => []

/-- The messages that `drainMailbox` will deliver to a participant. -/
def queuedMessages (b : Broker) (p : ParticipantId) : List Message :=
  (b.queued p).filterMap BrokerEvent.message?

/-- The messages that `drainMailboxDescriptors` will deliver to a participant. -/
def ringMessages (b : Broker) (p : ParticipantId) : List Message :=
  (b.undrained p).filterMap MailboxDescriptor.message?

/-- A message is in both views after the answer true, and in neither after the answer false. -/
def AllOrNothing (b : Broker) (participant : ParticipantId) (message : Message) : Prop :=
  let sent := b.sendMailboxMessage participant message.payload message.sequence
  if sent.1 then
    sent.2.queuedMessages participant = b.queuedMessages participant ++ [message] ∧
      sent.2.ringMessages participant = b.ringMessages participant ++ [message]
  else
    sent.2.queuedMessages participant = b.queuedMessages participant ∧
      sent.2.ringMessages participant = b.ringMessages participant

variable {b : Broker} {p : ParticipantId}

theorem queued_of_record {record : ParticipantRecord} (found : b.participants p = some record) :
    b.queued p = record.mailbox := by
  simp only [queued, found]

theorem queued_modifyParticipant {change : ParticipantRecord → ParticipantRecord}
    {record : ParticipantRecord} (found : b.participants p = some record) :
    (b.modifyParticipant p change).queued p = (change record).mailbox := by
  simp only [modifyParticipant, found, queued, setParticipant, Function.update_self]

theorem isValid_modifyParticipant (registered : b.isValidParticipantLocked p)
    (change : ParticipantRecord → ParticipantRecord) :
    (b.modifyParticipant p change).isValidParticipantLocked p := by
  obtain ⟨record, found⟩ := Option.isSome_iff_exists.mp registered
  simp [isValidParticipantLocked, modifyParticipant, found, setParticipant]

theorem queued_pushEventLocked (registered : b.isValidParticipantLocked p) (event : BrokerEvent) :
    (b.pushEventLocked p event).queued p = b.queued p ++ [event] := by
  obtain ⟨record, found⟩ := Option.isSome_iff_exists.mp registered
  rw [pushEventLocked, queued_modifyParticipant found, queued_of_record found]

theorem queued_pushDescriptorLocked (registered : b.isValidParticipantLocked p)
    (descriptor : MailboxDescriptor) :
    (b.pushDescriptorLocked p descriptor).queued p = b.queued p := by
  obtain ⟨record, found⟩ := Option.isSome_iff_exists.mp registered
  rw [pushDescriptorLocked, queued_modifyParticipant found, queued_of_record found]
  split <;> rfl

theorem queuedMessages_sendMailboxMessage (registered : b.isValidParticipantLocked p)
    (message : Message) :
    (b.sendMailboxMessage p message.payload message.sequence).2.queuedMessages p =
      b.queuedMessages p ++ [message] := by
  -- The descriptor is pushed first, and keeps the participant registered.
  rw [sendMailboxMessage, if_pos registered]
  simp only [perform, queuedMessages]
  have still : (b.pushDescriptorLocked p (setInlinePayload
      { eventKind := .message, sequence := message.sequence } message.payload)
      ).isValidParticipantLocked p := isValid_modifyParticipant registered _
  rw [queued_pushEventLocked still, queued_pushDescriptorLocked registered, List.filterMap_append]
  rfl

theorem ringMessages_sendMailboxMessage (registered : b.isValidParticipantLocked p)
    (message : Message) :
    (b.sendMailboxMessage p message.payload message.sequence).2.ringMessages p =
      if (b.undrained p).length < kMailboxRingCapacity then
        b.ringMessages p ++ [⟨message.sequence,
          if message.payload.length ≤ kMailboxInlineBytes then message.payload else []⟩]
      else b.ringMessages p := by
  rw [sendMailboxMessage, if_pos registered]
  simp only [perform, ringMessages]
  rw [undrained_pushEventLocked, undrained_pushDescriptorLocked registered]
  -- A payload that is too long leaves the descriptor of the message as it was made.
  by_cases room : (b.undrained p).length < kMailboxRingCapacity
  · rw [if_pos room, if_pos room, List.filterMap_append]
    by_cases short : message.payload.length ≤ kMailboxInlineBytes
    · simp [setInlinePayload, MailboxDescriptor.message?, short]
    · simp [setInlinePayload, MailboxDescriptor.message?, short]
  · rw [if_neg room, if_neg room]

/--
A message is in both views or in neither exactly when it is refused, or has a payload that a
descriptor holds and comes to a ring with room.
-/
theorem sendMailboxMessage_allOrNothing_iff (b : Broker) (participant : ParticipantId)
    (message : Message) :
    b.AllOrNothing participant message ↔
      (b.isValidParticipantLocked participant →
        message.payload.length ≤ kMailboxInlineBytes ∧
          (b.undrained participant).length < kMailboxRingCapacity) := by
  rw [AllOrNothing]
  by_cases registered : b.isValidParticipantLocked participant
  · -- The answer is true, and the queue has the message, so that only the ring decides.
    have answered :
        (b.sendMailboxMessage participant message.payload message.sequence).1 = true := by
      rw [sendMailboxMessage, if_pos registered]
    rw [if_pos answered, queuedMessages_sendMailboxMessage registered,
      ringMessages_sendMailboxMessage registered]
    simp only [registered, true_and, true_implies]
    by_cases room : (b.undrained participant).length < kMailboxRingCapacity
    · by_cases short : message.payload.length ≤ kMailboxInlineBytes
      · simp only [room, short, if_true, and_self]
      · -- Without its payload, the descriptor tells another message.
        have other : message.payload ≠ [] := by
          intro empty
          rw [empty] at short
          exact short (Nat.zero_le _)
        simp only [room, short, if_true, if_false, false_and, iff_false,
          List.append_cancel_left_eq]
        intro same
        exact other (congrArg Message.payload (List.cons.inj same).1).symm
    · -- In a full ring, there is nothing new.
      simp only [room, if_false, and_false, iff_false]
      intro same
      exact absurd (congrArg List.length same) (by simp)
  · -- The answer is false, and the broker is as before.
    have refused : b.sendMailboxMessage participant message.payload message.sequence =
        (false, b) := by
      rw [sendMailboxMessage, if_neg registered]
    simp [refused, registered]

def alone : Broker :=
  initial.register (some [])

/-- A payload of 97 bytes is answered with true, and the ring tells of an empty one. -/
theorem sendMailboxMessage_long :
    (alone.sendMailboxMessage 1 (List.replicate 97 0) 7).1 = true ∧
      (alone.sendMailboxMessage 1 (List.replicate 97 0) 7).2.ringMessages 1 = [⟨7, []⟩] ∧
      ¬ alone.AllOrNothing 1 ⟨7, List.replicate 97 0⟩ := by
  rw [AllOrNothing]
  decide

end Broker

end AgentC.Root1

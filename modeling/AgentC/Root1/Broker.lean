import Mathlib.Data.UInt
import Mathlib.Data.List.Dedup
import AgentC.Library.Threads

/-! The resource broker: owner words, waiting queues, leases and mailboxes. -/

namespace AgentC.Root1

abbrev ParticipantId := UInt64

/-- The bytes of a `std::string`. -/
abbrev Bytes := List UInt8

/-- The identity of a resource. -/
structure ResourceKey where
  layerId : UInt32 := 0
  slabId : UInt32 := 0
  offset : UInt32 := 0
  allocatorKind : UInt16 := 0
  fieldId : UInt16 := 0
  generation : UInt64 := 0
  deriving DecidableEq, Repr

def kContendedBit : UInt64 := 0x8000000000000000

def kOwnerMask : UInt64 := ~~~kContendedBit

def ownerOf (word : UInt64) : ParticipantId :=
  word &&& kOwnerMask

/-- The answer to a request for a resource. -/
inductive AcquireStatus where
  | acquired
  | queued
  | invalidParticipant
  deriving DecidableEq, Repr

/-- What a mailbox descriptor tells. -/
inductive MailboxEventKind where
  | none
  | message
  | ownershipGranted
  | progress
  | complete
  | error
  | cancelled
  | backpressure
  | ownerDied
  deriving DecidableEq, Repr

/-- How a mailbox descriptor carries its payload. -/
inductive MailboxPayloadKind where
  | none
  | inlineBytes
  | json
  | publishedSlab
  | blobHandle
  deriving DecidableEq, Repr

/-- A place in a published slab. -/
structure SlabPayloadHandle where
  layerId : UInt32 := 0
  slabId : UInt32 := 0
  offset : UInt32 := 0
  generation : UInt64 := 0
  deriving DecidableEq, Repr

def kMailboxInlineBytes : Nat := 96

def kMailboxRingCapacity : Nat := 64

/-- One entry of a mailbox ring. `inline` is the `inlineSize` first bytes of `inlineBytes`. -/
structure MailboxDescriptor where
  sequence : UInt64 := 0
  correlationId : UInt64 := 0
  grantToken : UInt64 := 0
  resource : ResourceKey := {}
  payloadHandle : SlabPayloadHandle := {}
  eventKind : MailboxEventKind := .none
  payloadKind : MailboxPayloadKind := .none
  flags : UInt32 := 0
  inline : Bytes := []
  deriving DecidableEq, Repr

/-- Storing a payload in the descriptor itself, which leaves it alone when there is no room. -/
def setInlinePayload (descriptor : MailboxDescriptor) (payload : Bytes) : MailboxDescriptor :=
  if payload.length ≤ kMailboxInlineBytes then
    { descriptor with inline := payload, payloadKind := .inlineBytes }
  else descriptor

inductive BrokerEventKind where
  | ownershipGranted
  | mailboxMessage
  deriving DecidableEq, Repr

/-- One entry of a participant's event queue. -/
structure BrokerEvent where
  kind : BrokerEventKind := .mailboxMessage
  resource : ResourceKey := {}
  grantToken : UInt64 := 0
  sequence : UInt64 := 0
  payload : Bytes := []
  deriving DecidableEq, Repr

/-- What the broker keeps of a participant. `eventFd` counts the notifications not yet drained. -/
structure ParticipantRecord where
  eventFd : Nat := 0
  mailbox : List BrokerEvent := []
  descriptorMailbox : List MailboxDescriptor := []
  pidFd : Bool := false
  pidDeathReported : Bool := false
  deriving DecidableEq, Repr

/-- What the broker keeps of a lease. -/
structure LeaseRecord where
  owner : ParticipantId
  expiresAtTick : UInt64
  deriving DecidableEq, Repr

/--
The broker with the words of the resources it is asked about.

`waiters` is empty for a resource without an entry, and `leases` lists the entries of the map.
-/
structure Broker where
  words : ResourceKey → UInt64
  nextParticipant : ParticipantId
  nextGrantToken : UInt64
  participants : ParticipantId → Option ParticipantRecord
  waiters : ResourceKey → List ParticipantId
  leases : List (ResourceKey × LeaseRecord)

namespace Broker

def initial : Broker where
  words := fun _ => 0
  nextParticipant := 1
  nextGrantToken := 1
  participants := fun _ => none
  waiters := fun _ => []
  leases := []

def owner (b : Broker) (key : ResourceKey) : ParticipantId :=
  ownerOf (b.words key)

def setWord (b : Broker) (key : ResourceKey) (word : UInt64) : Broker :=
  { b with words := Function.update b.words key word }

def setWaiters (b : Broker) (key : ResourceKey) (queue : List ParticipantId) : Broker :=
  { b with waiters := Function.update b.waiters key queue }

def setParticipant (b : Broker) (participant : ParticipantId) (record : ParticipantRecord) :
    Broker :=
  { b with participants := Function.update b.participants participant (some record) }

def isValidParticipantLocked (b : Broker) (participant : ParticipantId) : Bool :=
  (b.participants participant).isSome

def modifyParticipant (b : Broker) (participant : ParticipantId)
    (change : ParticipantRecord → ParticipantRecord) : Broker :=
  match b.participants participant with
  | some record => b.setParticipant participant (change record)
  | none => b

def pushEventLocked (b : Broker) (participant : ParticipantId) (event : BrokerEvent) : Broker :=
  b.modifyParticipant participant fun record =>
    { record with mailbox := record.mailbox ++ [event], eventFd := record.eventFd + 1 }

/-- Adding a descriptor to a participant's ring, with a notification, unless the ring is full. -/
def pushDescriptorLocked (b : Broker) (participant : ParticipantId)
    (descriptor : MailboxDescriptor) : Broker :=
  b.modifyParticipant participant fun record =>
    if record.descriptorMailbox.length < kMailboxRingCapacity then
      { record with descriptorMailbox := record.descriptorMailbox ++ [descriptor]
                    eventFd := record.eventFd + 1 }
    else record

def tryAcquireUnlocked (b : Broker) (key : ResourceKey) (participant : ParticipantId) :
    Option Broker :=
  if b.words key = 0 then some (b.setWord key participant) else none

def nextWaiter (b : Broker) : List ParticipantId → Option (ParticipantId × List ParticipantId)
  | [] => none
  | next :: rest =>
    -- Participants that are not registered are dropped on the way.
    if b.isValidParticipantLocked next then some (next, rest) else b.nextWaiter rest

/-- The descriptor and the event that tell a participant that it owns a resource. -/
def pushGrant (b : Broker) (key : ResourceKey) (next : ParticipantId) : Broker :=
  let token := b.nextGrantToken
  let grant : MailboxDescriptor :=
    { eventKind := .ownershipGranted, resource := key, grantToken := token, sequence := token }
  let event : BrokerEvent :=
    { kind := .ownershipGranted, resource := key, grantToken := token, sequence := token }
  ({ b with nextGrantToken := token + 1 }.pushDescriptorLocked next grant).pushEventLocked next event

/-- The descriptor that tells a participant that the owner before it was revoked. -/
def pushOwnerDied (b : Broker) (key : ResourceKey) (next abandonedOwner : ParticipantId)
    (reason : Bytes) : Broker :=
  let ownerDied : MailboxDescriptor :=
    { eventKind := .ownerDied, resource := key, correlationId := abandonedOwner
      sequence := b.nextGrantToken }
  b.pushDescriptorLocked next (setInlinePayload ownerDied reason)

def eraseLease (b : Broker) (key : ResourceKey) : Broker :=
  { b with leases := b.leases.filter fun entry => entry.1 ≠ key }

def setLease (b : Broker) (key : ResourceKey) (lease : LeaseRecord) : Broker :=
  { b with leases := (key, lease) :: (b.eraseLease key).leases }

/-- Passing a resource to a participant, which others may still wait behind. -/
def passTo (b : Broker) (key : ResourceKey) (next : ParticipantId) (rest : List ParticipantId) :
    Broker :=
  (b.setWaiters key rest).setWord key ((if rest.isEmpty then 0 else kContendedBit) ||| next)

def clear (b : Broker) (key : ResourceKey) : Broker :=
  (b.setWaiters key []).setWord key 0

/-- The map's entries in some order: first those the order names, then the others. -/
def leasesInOrder (b : Broker) (order : List ResourceKey) : List (ResourceKey × LeaseRecord) :=
  order.dedup.filterMap (fun key => (b.leases.lookup key).map (key, ·)) ++
    b.leases.filter fun entry => entry.1 ∉ order

end Broker

def text (s : String) : Bytes :=
  s.toList.map fun c => UInt8.ofNat c.toNat

def reasonOr (reason : Bytes) (default : String) : Bytes :=
  if reason.isEmpty then text default else reason

/-- Why an owner loses a resource. -/
inductive Cause where
  | released
  | abandoned
  /-- The owner's lease was found to have expired at a tick. -/
  | expired (nowTick : UInt64)
  deriving DecidableEq, Repr

/-- One access of a broker call: it reads or writes at most one owner word. -/
inductive Work where
  | tryAcquire (key : ResourceKey) (participant : ParticipantId)
  | acquireFast (key : ResourceKey) (participant : ParticipantId)
  | checkOwner (key : ResourceKey) (participant : ParticipantId)
  | retryAcquire (key : ResourceKey) (participant : ParticipantId)
  | enqueue (key : ResourceKey) (participant : ParticipantId)
  | checkTenure (key : ResourceKey) (owner : ParticipantId) (cause : Cause) (reason : Bytes)
  | handOff (key : ResourceKey) (owner : ParticipantId) (cause : Cause) (reason : Bytes)
  | registerLease (key : ResourceKey) (owner : ParticipantId) (expiresAtTick : UInt64)
  | renewLease (key : ResourceKey) (owner : ParticipantId) (expiresAtTick : UInt64)
  | heartbeatLeases (owner : ParticipantId) (expiresAtTick : UInt64) (order : List ResourceKey)
  | collectExpired (nowTick : UInt64) (reason : Bytes) (order : List ResourceKey)
  | recoverLeases (owner : ParticipantId) (reason : Bytes) (order : List ResourceKey)
  | recoverLease (key : ResourceKey) (reason : Bytes)
  | register (ring : Option (List MailboxDescriptor))
  | reconstruct (participant : ParticipantId) (ring : List MailboxDescriptor) (notifyPending : Bool)
  | attachPid (participant : ParticipantId)
  | reportDown (participant : ParticipantId) (order : List ResourceKey)
  | drainEventFd (participant : ParticipantId)
  | sendMessage (participant : ParticipantId) (payload : Bytes) (sequence : UInt64)
  | sendDescriptor (participant : ParticipantId) (descriptor : MailboxDescriptor)
  | drainMailbox (participant : ParticipantId)
  | drainDescriptors (participant : ParticipantId)
  deriving DecidableEq, Repr

/-- What the participants can observe of the broker's past. -/
inductive Event where
  | acquired (key : ResourceKey) (participant : ParticipantId)
  | enqueued (key : ResourceKey) (participant : ParticipantId)
  | answered (key : ResourceKey) (participant : ParticipantId) (status : AcquireStatus)
  | granted (key : ResourceKey) (owner next : ParticipantId) (cause : Cause)
  | freed (key : ResourceKey) (owner : ParticipantId) (cause : Cause)
  | leased (key : ResourceKey) (owner : ParticipantId) (expiresAtTick : UInt64)
  | renewed (key : ResourceKey) (owner : ParticipantId) (expiresAtTick : UInt64)
  | reportedDown (participant : ParticipantId)
  deriving DecidableEq, Repr

namespace Broker

/-- The end of a tenure: the next waiter is granted the resource, or nobody owns it. -/
def handOff (b : Broker) (key : ResourceKey) (owner : ParticipantId) (cause : Cause)
    (reason : Bytes) : Outcome Broker Work Event :=
  match b.nextWaiter (b.waiters key) with
  | some (next, rest) =>
    let passed := b.passTo key next rest
    { shared :=
        -- A release says nothing about the owner before, and leaves its lease alone.
        if cause = .released then passed.pushGrant key next
        else ((passed.pushOwnerDied key next owner reason).pushGrant key next).eraseLease key
      events := [.granted key owner next cause] }
  | none =>
    { shared := if cause = .released then b.clear key else (b.clear key).eraseLease key
      events := [.freed key owner cause] }

def registerLease (b : Broker) (key : ResourceKey) (owner : ParticipantId)
    (expiresAtTick : UInt64) : Outcome Broker Work Event :=
  if b.isValidParticipantLocked owner ∧ b.owner key = owner then
    { shared := b.setLease key ⟨owner, expiresAtTick⟩
      events := [.leased key owner expiresAtTick] }
  else { shared := b }

/-- Moving the deadline of a lease, which only the owner that registered it can do. -/
def renewLease (b : Broker) (key : ResourceKey) (owner : ParticipantId)
    (expiresAtTick : UInt64) : Outcome Broker Work Event :=
  match b.leases.lookup key with
  | some lease =>
    if lease.owner = owner ∧ b.owner key = owner then
      { shared := b.setLease key ⟨owner, expiresAtTick⟩
        events := [.renewed key owner expiresAtTick] }
    else { shared := b }
  | none => { shared := b }

/-- Taking the expired leases out of the table, to be revoked one by one afterwards. -/
def collectExpired (b : Broker) (nowTick : UInt64) (reason : Bytes) (order : List ResourceKey) :
    Outcome Broker Work Event :=
  let expired := (b.leasesInOrder order).filter fun entry => entry.2.expiresAtTick ≤ nowTick
  { shared := { b with leases := b.leases.filter fun entry => ¬ entry.2.expiresAtTick ≤ nowTick }
    later := expired.map fun entry =>
      .locked [.checkTenure entry.1 entry.2.owner (.expired nowTick) reason] }

/-- Admitting a new participant, unless the operating system or the slab refuses. -/
def register (b : Broker) (ring : Option (List MailboxDescriptor)) : Broker :=
  let id := b.nextParticipant
  -- The identity is used up in either case.
  let next := { b with nextParticipant := id + 1 }
  match ring, b.participants id with
  | some ring, none => next.setParticipant id { descriptorMailbox := ring }
  | _, _ => next

/-- Admitting a participant that a slab already names. -/
def reconstruct (b : Broker) (participant : ParticipantId) (ring : List MailboxDescriptor)
    (notifyPending : Bool) : Broker :=
  if b.isValidParticipantLocked participant then b
  else
    let eventFd := if notifyPending && !ring.isEmpty then 1 else 0
    { b.setParticipant participant { descriptorMailbox := ring, eventFd := eventFd } with
      nextParticipant :=
        if b.nextParticipant ≤ participant then participant + 1 else b.nextParticipant }

/-- The report of an exited process, followed by the recovery of its leases. -/
def reportDown (b : Broker) (participant : ParticipantId) (order : List ResourceKey) :
    Outcome Broker Work Event :=
  match b.participants participant with
  | some record =>
    if record.pidDeathReported then { shared := b }
    else
      let exited := text "participant process exited"
      let ownerDied : MailboxDescriptor := { eventKind := .ownerDied, correlationId := participant }
      let marked := b.setParticipant participant { record with pidDeathReported := true }
      { shared := marked.pushDescriptorLocked participant (setInlinePayload ownerDied exited)
        more := [.recoverLeases participant exited order]
        events := [.reportedDown participant] }
  | none => { shared := b }

end Broker

/-- What one access does to the broker. -/
def perform (b : Broker) : Work → Outcome Broker Work Event
  | .tryAcquire key participant =>
    match b.tryAcquireUnlocked key participant with
    | some taken => { shared := taken, events := [.acquired key participant] }
    | none => { shared := b }
  | .acquireFast key participant =>
    match b.tryAcquireUnlocked key participant with
    | some taken =>
      { shared := taken, events := [.acquired key participant, .answered key participant .acquired] }
    -- The request goes on under the mutex.
    | none => { shared := b, later := [.locked [.checkOwner key participant]] }
  | .checkOwner key participant =>
    if !b.isValidParticipantLocked participant then
      { shared := b, events := [.answered key participant .invalidParticipant] }
    else if b.owner key = participant then
      { shared := b, events := [.answered key participant .acquired] }
    else { shared := b, more := [.retryAcquire key participant] }
  | .retryAcquire key participant =>
    match b.tryAcquireUnlocked key participant with
    | some taken =>
      { shared := taken, events := [.acquired key participant, .answered key participant .acquired] }
    | none => { shared := b, more := [.enqueue key participant] }
  | .enqueue key participant =>
    let queue := b.waiters key
    let contended := b.words key ||| kContendedBit
    if participant ∈ queue then
      { shared := b.setWord key contended, events := [.answered key participant .queued] }
    else
      { shared := (b.setWaiters key (queue ++ [participant])).setWord key contended
        events := [.enqueued key participant, .answered key participant .queued] }
  | .checkTenure key owner cause reason =>
    if owner ≠ 0 ∧ b.owner key = owner then
      { shared := b, more := [.handOff key owner cause reason] }
    else { shared := b }
  | .handOff key owner cause reason => b.handOff key owner cause reason
  | .registerLease key owner expiresAtTick => b.registerLease key owner expiresAtTick
  | .renewLease key owner expiresAtTick => b.renewLease key owner expiresAtTick
  | .heartbeatLeases owner expiresAtTick order =>
    -- Each lease is looked at in turn, and the words may change in between.
    { shared := b
      more := (b.leasesInOrder order).map fun entry => .renewLease entry.1 owner expiresAtTick }
  | .collectExpired nowTick reason order => b.collectExpired nowTick reason order
  | .recoverLeases owner reason order =>
    { shared := b
      more := ((b.leasesInOrder order).filter fun entry => entry.2.owner = owner).map
        fun entry => .recoverLease entry.1 reason }
  | .recoverLease key reason =>
    match b.leases.lookup key with
    | some lease => { shared := b, more := [.checkTenure key lease.owner .abandoned reason] }
    | none => { shared := b }
  | .register ring => { shared := b.register ring }
  | .reconstruct participant ring notifyPending =>
    { shared := b.reconstruct participant ring notifyPending }
  | .attachPid participant =>
    { shared := b.modifyParticipant participant fun record =>
        { record with pidFd := true, pidDeathReported := false } }
  | .reportDown participant order => b.reportDown participant order
  | .drainEventFd participant =>
    { shared := b.modifyParticipant participant fun record => { record with eventFd := 0 } }
  | .sendMessage participant payload sequence =>
    let descriptor : MailboxDescriptor := { eventKind := .message, sequence := sequence }
    let event : BrokerEvent := { kind := .mailboxMessage, sequence := sequence, payload := payload }
    { shared := (b.pushDescriptorLocked participant
        (setInlinePayload descriptor payload)).pushEventLocked participant event }
  | .sendDescriptor participant descriptor =>
    { shared := b.pushDescriptorLocked participant descriptor }
  | .drainMailbox participant =>
    { shared := b.modifyParticipant participant fun record => { record with mailbox := [] } }
  | .drainDescriptors participant =>
    { shared := b.modifyParticipant participant fun record =>
        { record with descriptorMailbox := [] } }

/--
A call of one broker operation, with what its environment answers.

The environment says whether the operating system and the slab go along, which descriptors a slab's
ring already holds, which events `epoll_wait` returns, and in which order a map is visited.
-/
inductive BrokerCall where
  | registerParticipant (admitted : Bool)
  | registerParticipantOnSlab (ring : Option (List MailboxDescriptor))
  | reconstructParticipantFromSlab (participant : ParticipantId)
      (ring : Option (List MailboxDescriptor)) (notifyPending : Bool)
  | attachParticipantPid (participant : ParticipantId) (opened : Bool)
  | tryAcquire (key : ResourceKey) (participant : ParticipantId)
  | acquireOrQueue (key : ResourceKey) (participant : ParticipantId)
  | release (key : ResourceKey) (owner : ParticipantId)
  | recoverAbandonedResource (key : ResourceKey) (abandonedOwner : ParticipantId) (reason : Bytes)
  | registerLease (key : ResourceKey) (owner : ParticipantId) (expiresAtTick : UInt64)
  | renewLease (key : ResourceKey) (owner : ParticipantId) (expiresAtTick : UInt64)
  | heartbeatParticipant (owner : ParticipantId) (expiresAtTick : UInt64) (order : List ResourceKey)
  | recoverExpiredLeases (nowTick : UInt64) (reason : Bytes) (order : List ResourceKey)
  | recoverParticipantLeases (owner : ParticipantId) (reason : Bytes) (order : List ResourceKey)
  | sendMailboxMessage (participant : ParticipantId) (payload : Bytes) (sequence : UInt64)
  | sendMailboxDescriptor (participant : ParticipantId) (descriptor : MailboxDescriptor)
  | pollReadyParticipants (events : List (ParticipantId × Bool)) (order : List ResourceKey)
  | drainMailbox (participant : ParticipantId)
  | drainMailboxDescriptors (participant : ParticipantId)
  deriving DecidableEq, Repr

namespace BrokerCall

def guarded (argument : ParticipantId) (work : List Work) : List (Segment Work) :=
  if argument = 0 then [] else [.locked work]

/-- What a call makes its thread do. -/
def body : BrokerCall → List (Segment Work)
  | .registerParticipant admitted =>
    [.locked [.register (if admitted then some [] else none)]]
  | .registerParticipantOnSlab ring => [.locked [.register ring]]
  | .reconstructParticipantFromSlab participant ring notifyPending =>
    match ring with
    | some ring => guarded participant [.reconstruct participant ring notifyPending]
    | none => []
  | .attachParticipantPid participant opened =>
    if opened then guarded participant [.attachPid participant] else []
  | .tryAcquire key participant =>
    if participant = 0 then [] else [.free (.tryAcquire key participant)]
  | .acquireOrQueue key participant =>
    if participant = 0 then [] else [.free (.acquireFast key participant)]
  | .release key owner => guarded owner [.checkTenure key owner .released []]
  | .recoverAbandonedResource key abandonedOwner reason =>
    guarded abandonedOwner [.checkTenure key abandonedOwner .abandoned
      (reasonOr reason "resource owner abandoned")]
  | .registerLease key owner expiresAtTick => guarded owner [.registerLease key owner expiresAtTick]
  | .renewLease key owner expiresAtTick => guarded owner [.renewLease key owner expiresAtTick]
  | .heartbeatParticipant owner expiresAtTick order =>
    guarded owner [.heartbeatLeases owner expiresAtTick order]
  | .recoverExpiredLeases nowTick reason order =>
    [.locked [.collectExpired nowTick (reasonOr reason "resource lease expired") order]]
  | .recoverParticipantLeases owner reason order =>
    [.locked [.recoverLeases owner (reasonOr reason "participant owner abandoned") order]]
  | .sendMailboxMessage participant payload sequence =>
    [.locked [.sendMessage participant payload sequence]]
  | .sendMailboxDescriptor participant descriptor =>
    [.locked [.sendDescriptor participant descriptor]]
  | .pollReadyParticipants events order =>
    -- Without an event the call returns before it takes the mutex.
    if events.isEmpty then []
    else [.locked (events.map fun event =>
      if event.2 then .reportDown event.1 order else .drainEventFd event.1)]
  | .drainMailbox participant => [.locked [.drainMailbox participant]]
  | .drainMailboxDescriptors participant => [.locked [.drainDescriptors participant]]

end BrokerCall

abbrev System (τ : Type) := Threads Broker Work Event τ

def System.step {τ : Type} [DecidableEq τ] (s : System τ) (turn : Turn τ BrokerCall) :
    Option (System τ) :=
  Threads.step perform BrokerCall.body s turn

end AgentC.Root1

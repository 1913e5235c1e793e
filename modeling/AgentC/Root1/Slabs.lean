import Mathlib.Data.List.FinRange
import Mathlib.Logic.Function.Basic
import AgentC.Root1.Broker

/-! A coordination slab, and the brokers that keep mailboxes of their participants in its slots. -/

namespace AgentC.Root1

def kCoordinationParticipantSlots : Nat := 16

abbrev SlotIndex := Fin kCoordinationParticipantSlots

/-- A participant slot, which is free while its identity is zero. -/
structure CoordinationParticipantSlot where
  participantId : ParticipantId := 0
  generation : UInt64 := 0
  mailbox : List MailboxDescriptor := []
  deriving DecidableEq, Repr

/-- The part of a slab that participants use. -/
structure CoordinationSlab where
  participants : SlotIndex → CoordinationParticipantSlot := fun _ => {}

namespace CoordinationSlab

def slotBearing (slab : CoordinationSlab) (id : ParticipantId) : Option SlotIndex :=
  (List.finRange _).find? fun index => (slab.participants index).participantId = id

def findParticipantSlot (slab : CoordinationSlab) (participant : ParticipantId) :
    Option SlotIndex :=
  if participant = 0 then none else slab.slotBearing participant

def setSlot (slab : CoordinationSlab) (index : SlotIndex) (slot : CoordinationParticipantSlot) :
    CoordinationSlab where
  participants := Function.update slab.participants index slot

/-- The slot for a participant: the one that bears its identity, or else a free one, which is reset. -/
def allocateParticipantSlot (slab : CoordinationSlab) (participant : ParticipantId) :
    Option SlotIndex × CoordinationSlab :=
  if participant = 0 then (none, slab)
  else
    match slab.findParticipantSlot participant with
    | some existing => (some existing, slab)
    | none =>
      match slab.slotBearing 0 with
      | some free =>
        (some free, slab.setSlot free
          { participantId := participant
            generation := (slab.participants free).generation + 1
            mailbox := [] })
      | none => (none, slab)

def setMailbox (slab : CoordinationSlab) (index : SlotIndex) (mailbox : List MailboxDescriptor) :
    CoordinationSlab :=
  slab.setSlot index { slab.participants index with mailbox }

end CoordinationSlab

/-- Where the descriptors of a participant are: in the broker itself, or in a slot of the slab. -/
inductive DescriptorMailbox where
  | owned (ring : List MailboxDescriptor)
  | mapped (slot : SlotIndex)
  deriving DecidableEq, Repr

def tryPush (ring : List MailboxDescriptor) (descriptor : MailboxDescriptor) :
    Bool × List MailboxDescriptor :=
  if ring.length < kMailboxRingCapacity then (true, ring ++ [descriptor]) else (false, ring)

/-- What a broker knows of its participants, as far as their mailboxes go. -/
structure SlabBroker where
  nextParticipant : ParticipantId := 1
  participants : ParticipantId → Option DescriptorMailbox := fun _ => none

namespace SlabBroker

/-- `participants_.emplace`, which keeps a record that is there. -/
def emplace (b : SlabBroker) (id : ParticipantId) (mailbox : DescriptorMailbox) : SlabBroker :=
  if (b.participants id).isSome then b
  else { b with participants := Function.update b.participants id (some mailbox) }

/--
Registering a participant with a mailbox of its own. Without `added`, `epoll_ctl` has failed and the
call throws, when the identity is used up.
-/
def registerParticipant (b : SlabBroker) (added : Bool) : Option ParticipantId × SlabBroker :=
  let id := b.nextParticipant
  let b := { b with nextParticipant := id + 1 }
  if added then (some id, b.emplace id (.owned [])) else (none, b)

def registerParticipantOnSlab (b : SlabBroker) (slab : CoordinationSlab) (added : Bool) :
    Option ParticipantId × CoordinationSlab × SlabBroker :=
  let id := b.nextParticipant
  let b := { b with nextParticipant := id + 1 }
  match slab.allocateParticipantSlot id with
  | (none, slab) => (none, slab, b)
  | (some slot, slab) =>
    if added then (some id, slab, b.emplace id (.mapped slot)) else (none, slab, b)

def reconstructParticipantFromSlab (b : SlabBroker) (slab : CoordinationSlab)
    (participant : ParticipantId) (added : Bool) : Bool × SlabBroker :=
  if participant = 0 then (false, b)
  else
    match slab.findParticipantSlot participant with
    | none => (false, b)
    | some slot =>
      if (b.participants participant).isSome then (true, b)
      else if added then
        let b := b.emplace participant (.mapped slot)
        (true, if b.nextParticipant ≤ participant then { b with nextParticipant := participant + 1 }
          else b)
      else (false, b)

/-- Pushing a descriptor for a participant, which has to be registered and to have room. -/
def sendMailboxDescriptor (b : SlabBroker) (slab : CoordinationSlab) (participant : ParticipantId)
    (descriptor : MailboxDescriptor) : Bool × CoordinationSlab × SlabBroker :=
  match b.participants participant with
  | none => (false, slab, b)
  | some (.owned ring) =>
    let pushed := tryPush ring descriptor
    (pushed.1, slab, { b with
      participants := Function.update b.participants participant (some (.owned pushed.2)) })
  | some (.mapped slot) =>
    let pushed := tryPush (slab.participants slot).mailbox descriptor
    (pushed.1, slab.setMailbox slot pushed.2, b)

def drainMailboxDescriptors (b : SlabBroker) (slab : CoordinationSlab)
    (participant : ParticipantId) : List MailboxDescriptor × CoordinationSlab × SlabBroker :=
  match b.participants participant with
  | none => ([], slab, b)
  | some (.owned ring) =>
    (ring, slab, { b with
      participants := Function.update b.participants participant (some (.owned [])) })
  | some (.mapped slot) => ((slab.participants slot).mailbox, slab.setMailbox slot [], b)

end SlabBroker

/-- What happens to a slab and the brokers over it. Reopening a slab changes nothing in it. -/
inductive SlabEvent where
  | openBroker (broker : Nat)
  | closeBroker (broker : Nat)
  | registerParticipant (broker : Nat) (added : Bool)
  | registerParticipantOnSlab (broker : Nat) (added : Bool)
  | reconstructParticipantFromSlab (broker : Nat) (participant : ParticipantId) (added : Bool)
  | sendMailboxDescriptor (broker : Nat) (participant : ParticipantId)
      (descriptor : MailboxDescriptor)
  | drainMailboxDescriptors (broker : Nat) (participant : ParticipantId)
  deriving DecidableEq, Repr

/-- A slab with the brokers that are open over it. -/
structure SlabSite where
  slab : CoordinationSlab := {}
  brokers : Nat → Option SlabBroker := fun _ => none

namespace SlabSite

def setBroker (site : SlabSite) (index : Nat) (broker : Option SlabBroker) : SlabSite :=
  { site with brokers := Function.update site.brokers index broker }

def step (site : SlabSite) : SlabEvent → Option SlabSite
  | .openBroker i =>
    match site.brokers i with
    | none => some (site.setBroker i (some {}))
    | some _ => none
  | .closeBroker i => (site.brokers i).map fun _ => site.setBroker i none
  | .registerParticipant i added => (site.brokers i).map fun b =>
    site.setBroker i (some (b.registerParticipant added).2)
  | .registerParticipantOnSlab i added => (site.brokers i).map fun b =>
    let done := b.registerParticipantOnSlab site.slab added
    { site with slab := done.2.1 }.setBroker i (some done.2.2)
  | .reconstructParticipantFromSlab i participant added => (site.brokers i).map fun b =>
    site.setBroker i (some (b.reconstructParticipantFromSlab site.slab participant added).2)
  | .sendMailboxDescriptor i participant descriptor => (site.brokers i).map fun b =>
    let done := b.sendMailboxDescriptor site.slab participant descriptor
    { site with slab := done.2.1 }.setBroker i (some done.2.2)
  | .drainMailboxDescriptors i participant => (site.brokers i).map fun b =>
    let done := b.drainMailboxDescriptors site.slab participant
    { site with slab := done.2.1 }.setBroker i (some done.2.2)

def mailboxOf (site : SlabSite) (i : Nat) (participant : ParticipantId) :
    Option DescriptorMailbox :=
  (site.brokers i).bind fun b => b.participants participant

end SlabSite

end AgentC.Root1

namespace AgentC.Root1

namespace CoordinationSlab

variable {slab : CoordinationSlab} {id : ParticipantId} {slot other : SlotIndex}

theorem slotBearing_eq_some (found : slab.slotBearing id = some slot) :
    (slab.participants slot).participantId = id := by
  have bears := List.find?_some found
  exact of_decide_eq_true bears

theorem findParticipantSlot_eq_some (found : slab.findParticipantSlot id = some slot) :
    id ≠ 0 ∧ (slab.participants slot).participantId = id := by
  unfold findParticipantSlot at found
  by_cases zero : id = 0
  · rw [if_pos zero] at found
    cases found
  · rw [if_neg zero] at found
    exact ⟨zero, slotBearing_eq_some found⟩

@[simp] theorem participants_setSlot_same (changed : CoordinationParticipantSlot) :
    (slab.setSlot slot changed).participants slot = changed :=
  Function.update_self ..

theorem participants_setSlot_other (apart : other ≠ slot) (changed : CoordinationParticipantSlot) :
    (slab.setSlot slot changed).participants other = slab.participants other :=
  Function.update_of_ne apart ..

@[simp] theorem participantId_setMailbox (mailbox : List MailboxDescriptor) :
    ((slab.setMailbox slot mailbox).participants other).participantId =
      (slab.participants other).participantId := by
  by_cases same : other = slot
  · subst same
    rw [setMailbox, participants_setSlot_same]
  · rw [setMailbox, participants_setSlot_other same]

@[simp] theorem mailbox_setMailbox_same (mailbox : List MailboxDescriptor) :
    ((slab.setMailbox slot mailbox).participants slot).mailbox = mailbox := by
  rw [setMailbox, participants_setSlot_same]

theorem participants_setMailbox_other (apart : other ≠ slot) (mailbox : List MailboxDescriptor) :
    (slab.setMailbox slot mailbox).participants other = slab.participants other :=
  participants_setSlot_other apart _

theorem setMailbox_self : slab.setMailbox slot (slab.participants slot).mailbox = slab := by
  simp [setMailbox, setSlot]

theorem allocateParticipantSlot_of_none (none_ : (slab.allocateParticipantSlot id).1 = none) :
    (slab.allocateParticipantSlot id).2 = slab := by
  unfold allocateParticipantSlot at none_ ⊢
  split_ifs at none_ ⊢ with zero
  · rfl
  · cases found : slab.findParticipantSlot id with
    | some existing => simp [found] at none_
    | none =>
      cases free : slab.slotBearing 0 with
      | some index => simp [found, free] at none_
      | none => rfl

theorem allocateParticipantSlot_cases (takes : (slab.allocateParticipantSlot id).1 = some slot) :
    id ≠ 0 ∧
      (slab.findParticipantSlot id = some slot ∧ (slab.allocateParticipantSlot id).2 = slab ∨
        slab.findParticipantSlot id = none ∧ (slab.participants slot).participantId = 0 ∧
          (slab.allocateParticipantSlot id).2 = slab.setSlot slot
            { participantId := id
              generation := (slab.participants slot).generation + 1
              mailbox := [] }) := by
  unfold allocateParticipantSlot at takes ⊢
  split_ifs at takes ⊢ with zero
  refine ⟨zero, ?_⟩
  cases found : slab.findParticipantSlot id with
  | some existing =>
    simp only [found, Option.some.injEq] at takes
    exact Or.inl ⟨congrArg some takes, rfl⟩
  | none =>
    cases free : slab.slotBearing 0 with
    | some index =>
      simp only [found, free, Option.some.injEq] at takes
      subst takes
      exact Or.inr ⟨rfl, slotBearing_eq_some free, rfl⟩
    | none => simp [found, free] at takes

def HasSlotFor (slab : CoordinationSlab) (id : ParticipantId) : Prop :=
  id ≠ 0 ∧ ((slab.slotBearing id).isSome ∨ (slab.slotBearing 0).isSome)

theorem hasSlotFor_of_takes (takes : (slab.allocateParticipantSlot id).1 = some slot) :
    slab.HasSlotFor id := by
  unfold allocateParticipantSlot at takes
  split_ifs at takes with zero
  refine ⟨zero, ?_⟩
  cases found : slab.slotBearing id with
  | some existing => exact Or.inl rfl
  | none =>
    cases free : slab.slotBearing 0 with
    | some index => exact Or.inr rfl
    | none => simp [findParticipantSlot, zero, found, free] at takes

theorem takes_of_hasSlotFor (has : slab.HasSlotFor id) :
    ∃ slot, (slab.allocateParticipantSlot id).1 = some slot := by
  obtain ⟨nonzero, found⟩ := has
  unfold allocateParticipantSlot
  rw [if_neg nonzero, findParticipantSlot, if_neg nonzero]
  cases isBorne : slab.slotBearing id with
  | some existing => exact ⟨existing, rfl⟩
  | none =>
    simp only [isBorne, Option.isSome_none, Bool.false_eq_true, false_or] at found
    obtain ⟨free, isFree⟩ := Option.isSome_iff_exists.mp found
    exact ⟨free, by simp only [isFree]⟩

end CoordinationSlab

namespace SlabSite

def Vacant (site : SlabSite) (slot : SlotIndex) : Prop :=
  ∀ i p, site.mailboxOf i p ≠ some (.mapped slot)

def registration (site : SlabSite) (i : Nat) (added : Bool) : Option (ParticipantId × SlotIndex) :=
  (site.brokers i).bind fun b =>
    (b.registerParticipantOnSlab site.slab added).1.bind fun id =>
      (site.slab.allocateParticipantSlot b.nextParticipant).1.map fun slot => (id, slot)

variable {site : SlabSite} {i j : Nat} {p q : ParticipantId} {b : SlabBroker}

@[simp] theorem mailboxOf_setBroker_same (broker : Option SlabBroker) :
    (site.setBroker i broker).mailboxOf i p = broker.bind fun b => b.participants p := by
  simp [mailboxOf, setBroker]

theorem mailboxOf_setBroker_other (apart : j ≠ i) (broker : Option SlabBroker) :
    (site.setBroker i broker).mailboxOf j p = site.mailboxOf j p := by
  simp [mailboxOf, setBroker, apart]

theorem mailboxOf_of_open (isOpen : site.brokers i = some b) :
    site.mailboxOf i p = b.participants p := by
  rw [mailboxOf, isOpen, Option.bind_some]

theorem registration_of_takes {slot : SlotIndex} (isOpen : site.brokers i = some b)
    (takes : (site.slab.allocateParticipantSlot b.nextParticipant).1 = some slot) :
    site.registration i true = some (b.nextParticipant, slot) := by
  cases taken : site.slab.allocateParticipantSlot b.nextParticipant with
  | mk first slab =>
    rw [taken] at takes
    cases takes
    simp [registration, isOpen, SlabBroker.registerParticipantOnSlab, taken]

theorem registration_eq_some {added : Bool} {id : ParticipantId} {slot : SlotIndex}
    (registers : site.registration i added = some (id, slot)) :
    ∃ b, site.brokers i = some b ∧ added = true ∧ id = b.nextParticipant ∧
      (site.slab.allocateParticipantSlot b.nextParticipant).1 = some slot := by
  obtain ⟨b, isOpen, registers⟩ := Option.bind_eq_some_iff.mp registers
  obtain ⟨id', returned, registers⟩ := Option.bind_eq_some_iff.mp registers
  obtain ⟨slot', takes, pair⟩ := Option.map_eq_some_iff.mp registers
  cases pair
  refine ⟨b, isOpen, ?_⟩
  cases taken : site.slab.allocateParticipantSlot b.nextParticipant with
  | mk first slab =>
    rw [taken] at takes
    cases takes
    cases added with
    | false => simp [SlabBroker.registerParticipantOnSlab, taken] at returned
    | true =>
      simp only [SlabBroker.registerParticipantOnSlab, taken, if_true, Option.some.injEq] at returned
      exact ⟨rfl, returned.symm, rfl⟩

theorem step_of_takes {slot : SlotIndex} (isOpen : site.brokers i = some b)
    (takes : (site.slab.allocateParticipantSlot b.nextParticipant).1 = some slot) :
    site.step (.registerParticipantOnSlab i true) =
      some ({ site with slab := (site.slab.allocateParticipantSlot b.nextParticipant).2 }.setBroker i
        (some ({ b with nextParticipant := b.nextParticipant + 1 }.emplace b.nextParticipant
          (.mapped slot)))) := by
  cases taken : site.slab.allocateParticipantSlot b.nextParticipant with
  | mk first slab =>
    rw [taken] at takes
    cases takes
    simp only [step, isOpen, Option.map_some, SlabBroker.registerParticipantOnSlab, taken, if_true]

theorem mapped_setBroker {broker : Option SlabBroker} {slot : SlotIndex}
    (fewer : ∀ p slot, (broker.bind fun b => b.participants p) = some (.mapped slot) →
      site.mailboxOf i p = some (.mapped slot))
    (mapped : (site.setBroker i broker).mailboxOf j p = some (.mapped slot)) :
    site.mailboxOf j p = some (.mapped slot) := by
  by_cases same : j = i
  · subst same
    rw [mailboxOf_setBroker_same] at mapped
    exact fewer p slot mapped
  · rwa [mailboxOf_setBroker_other same] at mapped

end SlabSite

theorem SlabBroker.participants_emplace {b : SlabBroker} {id p : ParticipantId}
    {mailbox found : DescriptorMailbox} (has : (b.emplace id mailbox).participants p = some found) :
    b.participants p = some found ∨ p = id ∧ found = mailbox := by
  unfold emplace at has
  by_cases known : (b.participants id).isSome = true
  · rw [if_pos known] at has
    exact Or.inl has
  · rw [if_neg known] at has
    by_cases same : p = id
    · subst same
      simp only [Function.update_self, Option.some.injEq] at has
      exact Or.inr ⟨rfl, has.symm⟩
    · exact Or.inl (by simpa [same] using has)

theorem SlabBroker.participants_emplace_new {b : SlabBroker} {id : ParticipantId}
    (absent : b.participants id = none) (mailbox : DescriptorMailbox) :
    (b.emplace id mailbox).participants id = some mailbox := by
  simp [emplace, absent]

end AgentC.Root1

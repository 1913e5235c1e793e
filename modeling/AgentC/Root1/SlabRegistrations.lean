import AgentC.Library.Runs
import AgentC.Root1.Slabs

/-! Which participants of a slab start with an empty mailbox of their own, and what they receive. -/

namespace AgentC.Root1

namespace SlabSite

def StartsCleanAndAlone (site : SlabSite) : SlabEvent → Prop
  | .registerParticipantOnSlab i added =>
    ∀ id slot, site.registration i added = some (id, slot) →
      ∃ next, site.step (.registerParticipantOnSlab i added) = some next ∧
        next.mailboxOf i id = some (.mapped slot) ∧
        (next.slab.participants slot).mailbox = [] ∧ site.Vacant slot
  | _ => True

/--
A registration on the slab does not come upon another participant: its identity is new to the
broker, and a slot that bears it already has been drained and given up.
-/
def Separate (site : SlabSite) : SlabEvent → Prop
  | .registerParticipantOnSlab i added =>
    ∀ b, site.brokers i = some b → added = true → site.slab.HasSlotFor b.nextParticipant →
      b.participants b.nextParticipant = none ∧
        ∀ slot, site.slab.findParticipantSlot b.nextParticipant = some slot →
          (site.slab.participants slot).mailbox = [] ∧ site.Vacant slot
  | _ => True

end SlabSite

def setEntry {α β γ : Type} [DecidableEq α] [DecidableEq β] (table : α → β → γ) (a : α) (b : β)
    (entry : γ) : α → β → γ :=
  fun x y => if x = a ∧ y = b then entry else table x y

section setEntry

variable {α β γ : Type} [DecidableEq α] [DecidableEq β] {table : α → β → γ} {a x : α} {b y : β}

@[simp] theorem setEntry_same (entry : γ) : setEntry table a b entry a b = entry :=
  if_pos ⟨rfl, rfl⟩

theorem setEntry_other (entry : γ) (apart : ¬ (x = a ∧ y = b)) :
    setEntry table a b entry x y = table x y :=
  if_neg apart

end setEntry

/--
A site with the participants that were registered on each slot, counted from one.

`who` says which of them a participant of a broker is, and `sent` and `received` tell what was sent
to each and taken by it.
-/
structure Chronicle where
  site : SlabSite := {}
  registered : SlotIndex → Nat := fun _ => 0
  who : Nat → ParticipantId → Nat := fun _ _ => 0
  sent : SlotIndex → Nat → List MailboxDescriptor := fun _ _ => []
  received : SlotIndex → Nat → List MailboxDescriptor := fun _ _ => []

namespace Chronicle

def note (c : Chronicle) : SlabEvent → Chronicle
  | .registerParticipantOnSlab i added =>
    match c.site.registration i added with
    | none => c
    | some (id, slot) => { c with
        registered := Function.update c.registered slot (c.registered slot + 1)
        who := setEntry c.who i id (c.registered slot + 1) }
  | .reconstructParticipantFromSlab i p _ =>
    match c.site.mailboxOf i p, c.site.slab.findParticipantSlot p with
    | none, some slot => { c with who := setEntry c.who i p (c.registered slot) }
    | _, _ => c
  | .sendMailboxDescriptor i p descriptor =>
    match c.site.mailboxOf i p with
    | some (.mapped slot) =>
      if (tryPush (c.site.slab.participants slot).mailbox descriptor).1 then
        { c with
          sent := setEntry c.sent slot (c.who i p) (c.sent slot (c.who i p) ++ [descriptor]) }
      else c
    | _ => c
  | .drainMailboxDescriptors i p =>
    match c.site.mailboxOf i p with
    | some (.mapped slot) =>
      { c with
        received := setEntry c.received slot (c.who i p)
          (c.received slot (c.who i p) ++ (c.site.slab.participants slot).mailbox) }
    | _ => c
  | _ => c

def step (c : Chronicle) (event : SlabEvent) : Option Chronicle :=
  (c.site.step event).map fun site => { c.note event with site }

/--
Participants that share a slot are the same participant, and each of them has received, or has in
its mailbox, exactly what was sent to it.
-/
def ReceivesExactly (c : Chronicle) : Prop :=
  ∀ i p slot, c.site.mailboxOf i p = some (.mapped slot) →
    (∀ j q, c.site.mailboxOf j q = some (.mapped slot) → q = p ∧ c.who j q = c.who i p) ∧
      c.received slot (c.who i p) ++ (c.site.slab.participants slot).mailbox =
        c.sent slot (c.who i p)

/-- What holds of a chronicle while registrations are separate. -/
structure Kept (c : Chronicle) : Prop where
  named : ∀ i p slot, c.site.mailboxOf i p = some (.mapped slot) →
    p ≠ 0 ∧ (c.site.slab.participants slot).participantId = p
  current : ∀ i p slot, c.site.mailboxOf i p = some (.mapped slot) → c.who i p = c.registered slot
  exact_ : ∀ slot, c.received slot (c.registered slot) ++ (c.site.slab.participants slot).mailbox =
    c.sent slot (c.registered slot)
  blank : ∀ slot, (c.site.slab.participants slot).participantId = 0 →
    c.sent slot (c.registered slot) = []
  unborn : ∀ slot n, c.registered slot < n → c.sent slot n = [] ∧ c.received slot n = []

variable {c d : Chronicle} {i : Nat} {p : ParticipantId} {slot : SlotIndex}

namespace Kept

theorem fewer (kept : Kept c) (slab : d.site.slab = c.site.slab)
    (registered : d.registered = c.registered) (sent : d.sent = c.sent)
    (received : d.received = c.received)
    (stays : ∀ i p slot, d.site.mailboxOf i p = some (.mapped slot) →
      c.site.mailboxOf i p = some (.mapped slot) ∧ d.who i p = c.who i p) : Kept d where
  named i p slot mapped := by
    rw [slab]
    exact kept.named i p slot (stays i p slot mapped).1
  current i p slot mapped := by
    obtain ⟨was, same⟩ := stays i p slot mapped
    rw [same, registered]
    exact kept.current i p slot was
  exact_ slot := by
    rw [slab, registered, sent, received]
    exact kept.exact_ slot
  blank slot := by
    rw [slab, registered, sent]
    exact kept.blank slot
  unborn slot n := by
    rw [registered, sent, received]
    exact kept.unborn slot n

theorem setMailbox (kept : Kept c) {mailbox : List MailboxDescriptor}
    {sent received : SlotIndex → Nat → List MailboxDescriptor}
    (used : (c.site.slab.participants slot).participantId ≠ 0)
    (sentOther : ∀ s n, ¬ (s = slot ∧ n = c.registered slot) → sent s n = c.sent s n)
    (receivedOther : ∀ s n, ¬ (s = slot ∧ n = c.registered slot) → received s n = c.received s n)
    (noted : received slot (c.registered slot) ++ mailbox = sent slot (c.registered slot)) :
    Kept { c with
      site := { c.site with slab := c.site.slab.setMailbox slot mailbox }
      sent := sent
      received := received } where
  named i p other mapped := by
    rw [CoordinationSlab.participantId_setMailbox]
    exact kept.named i p other mapped
  current := kept.current
  exact_ other := by
    by_cases same : other = slot
    · subst same
      rw [CoordinationSlab.mailbox_setMailbox_same]
      exact noted
    · have apart : ¬ (other = slot ∧ c.registered other = c.registered slot) := fun both =>
        same both.1
      dsimp only
      rw [CoordinationSlab.participants_setMailbox_other same, sentOther _ _ apart,
        receivedOther _ _ apart]
      exact kept.exact_ other
  blank other := by
    rw [CoordinationSlab.participantId_setMailbox]
    intro free
    have apart : ¬ (other = slot ∧ c.registered other = c.registered slot) := by
      rintro ⟨rfl, -⟩
      exact used free
    dsimp only
    rw [sentOther _ _ apart]
    exact kept.blank other free
  unborn other n later := by
    -- What is noted is noted for a participant that has been registered.
    have apart : ¬ (other = slot ∧ n = c.registered slot) := by
      rintro ⟨rfl, rfl⟩
      exact Nat.lt_irrefl _ later
    dsimp only
    rw [sentOther _ _ apart, receivedOther _ _ apart]
    exact kept.unborn other n later

theorem vacant_of_free (kept : Kept c) (free : (c.site.slab.participants slot).participantId = 0) :
    c.site.Vacant slot := by
  intro i p mapped
  obtain ⟨nonzero, bears⟩ := kept.named i p slot mapped
  exact nonzero (bears.symm.trans free)

theorem allocate (kept : Kept c) {id : ParticipantId}
    (takes : (c.site.slab.allocateParticipantSlot id).1 = some slot) :
    Kept { c with site := { c.site with slab := (c.site.slab.allocateParticipantSlot id).2 } } := by
  obtain ⟨nonzero, ⟨-, same⟩ | ⟨-, free, reset⟩⟩ :=
    CoordinationSlab.allocateParticipantSlot_cases takes
  · rw [same]
    exact kept
  · -- A free slot is in nobody's use, and nothing was sent to it.
    rw [reset]
    have vacant := kept.vacant_of_free free
    have nothing := kept.blank slot free
    constructor
    · intro i p other mapped
      have apart : other ≠ slot := by
        rintro rfl
        exact vacant i p mapped
      rw [CoordinationSlab.participants_setSlot_other apart]
      exact kept.named i p other mapped
    · exact kept.current
    · intro other
      by_cases same : other = slot
      · subst same
        have before := kept.exact_ other
        rw [nothing, List.append_eq_nil_iff] at before
        rw [CoordinationSlab.participants_setSlot_same]
        show c.received other _ ++ [] = c.sent other _
        rw [nothing, before.1, List.append_nil]
      · rw [CoordinationSlab.participants_setSlot_other same]
        exact kept.exact_ other
    · intro other
      by_cases same : other = slot
      · subst same
        rw [CoordinationSlab.participants_setSlot_same]
        exact fun zero => absurd zero nonzero
      · rw [CoordinationSlab.participants_setSlot_other same]
        exact kept.blank other
    · exact kept.unborn

theorem register (kept : Kept c) {id : ParticipantId} {broker : SlabBroker}
    (bears : (c.site.slab.participants slot).participantId = id) (nonzero : id ≠ 0)
    (empty : (c.site.slab.participants slot).mailbox = []) (vacant : c.site.Vacant slot)
    (absent : c.site.mailboxOf i id = none)
    (maps : ∀ p s, broker.participants p = some (.mapped s) →
      c.site.mailboxOf i p = some (.mapped s) ∨ p = id ∧ s = slot) :
    Kept { c with
      site := c.site.setBroker i (some broker)
      registered := Function.update c.registered slot (c.registered slot + 1)
      who := setEntry c.who i id (c.registered slot + 1) } := by
  -- The new participant has the slot, and every other one has another.
  have split (j : Nat) (p : ParticipantId) (s : SlotIndex)
      (mapped : (c.site.setBroker i (some broker)).mailboxOf j p = some (.mapped s)) :
      j = i ∧ p = id ∧ s = slot ∨
        s ≠ slot ∧ ¬ (j = i ∧ p = id) ∧ c.site.mailboxOf j p = some (.mapped s) := by
    have other (was : c.site.mailboxOf j p = some (.mapped s)) :
        s ≠ slot ∧ ¬ (j = i ∧ p = id) ∧ c.site.mailboxOf j p = some (.mapped s) := by
      refine ⟨?_, ?_, was⟩
      · rintro rfl
        exact vacant j p was
      · rintro ⟨rfl, rfl⟩
        rw [absent] at was
        cases was
    by_cases same : j = i
    · subst same
      rw [SlabSite.mailboxOf_setBroker_same] at mapped
      rcases maps p s mapped with was | new
      · exact Or.inr (other was)
      · exact Or.inl ⟨rfl, new⟩
    · rw [SlabSite.mailboxOf_setBroker_other same] at mapped
      exact Or.inr (other mapped)
  have unheard := kept.unborn slot (c.registered slot + 1) (Nat.lt_succ_self _)
  constructor
  · intro j p s mapped
    obtain ⟨-, rfl, rfl⟩ | ⟨-, -, was⟩ := split j p s mapped
    · exact ⟨nonzero, bears⟩
    · exact kept.named j p s was
  · intro j p s mapped
    obtain ⟨rfl, rfl, rfl⟩ | ⟨apart, other, was⟩ := split j p s mapped
    · simp
    · dsimp only
      rw [setEntry_other _ other, Function.update_of_ne apart]
      exact kept.current j p s was
  · intro s
    dsimp only
    by_cases same : s = slot
    · subst same
      rw [Function.update_self, unheard.1, unheard.2]
      exact empty
    · rw [Function.update_of_ne same]
      exact kept.exact_ s
  · intro s free
    dsimp only
    by_cases same : s = slot
    · subst same
      exact absurd (bears.symm.trans free) nonzero
    · rw [Function.update_of_ne same]
      exact kept.blank s free
  · intro s n later
    refine kept.unborn s n (lt_of_le_of_lt ?_ later)
    dsimp only
    by_cases same : s = slot
    · subst same
      rw [Function.update_self]
      exact Nat.le_succ _
    · rw [Function.update_of_ne same]

theorem setBroker (kept : Kept c) {broker : Option SlabBroker}
    (maps : ∀ p s, (broker.bind fun b => b.participants p) = some (.mapped s) →
      c.site.mailboxOf i p = some (.mapped s)) :
    Kept { c with site := c.site.setBroker i broker } :=
  kept.fewer rfl rfl rfl rfl fun _ _ _ mapped =>
    ⟨SlabSite.mapped_setBroker maps mapped, rfl⟩

theorem registerParticipant (kept : Kept c) {b : SlabBroker} (isOpen : c.site.brokers i = some b)
    (added : Bool) :
    Kept { c with site := c.site.setBroker i (some (b.registerParticipant added).2) } := by
  refine kept.setBroker fun p s mapped => ?_
  rw [SlabSite.mailboxOf_of_open isOpen]
  simp only [Option.bind_some, SlabBroker.registerParticipant] at mapped
  cases added with
  | false => exact mapped
  | true =>
    rcases SlabBroker.participants_emplace mapped with was | ⟨-, owned⟩
    · exact was
    · cases owned

theorem registerParticipantOnSlab (kept : Kept c) {added : Bool}
    (separate : c.site.Separate (.registerParticipantOnSlab i added))
    (stepped : c.step (.registerParticipantOnSlab i added) = some d) : Kept d := by
  obtain ⟨b, isOpen, rfl⟩ : ∃ b, c.site.brokers i = some b ∧
      { c.note (.registerParticipantOnSlab i added) with
        site := { c.site with
          slab := (b.registerParticipantOnSlab c.site.slab added).2.1 }.setBroker i
            (some (b.registerParticipantOnSlab c.site.slab added).2.2) } = d := by
    simpa [Chronicle.step, SlabSite.step, Option.map_eq_some_iff] using stepped
  have known (p : ParticipantId) : c.site.mailboxOf i p = b.participants p :=
    SlabSite.mailboxOf_of_open isOpen
  cases taken : c.site.slab.allocateParticipantSlot b.nextParticipant with
  | mk takes slab =>
    cases takes with
    | none =>
      -- Without a slot for it, there is no participant.
      have same : slab = c.site.slab := by
        have none_ : (c.site.slab.allocateParticipantSlot b.nextParticipant).1 = none := by
          rw [taken]
        have unchanged := CoordinationSlab.allocateParticipantSlot_of_none none_
        rwa [taken] at unchanged
      subst same
      have nobody : c.site.registration i added = none := by
        simp [SlabSite.registration, isOpen, SlabBroker.registerParticipantOnSlab, taken]
      simp only [note, nobody, SlabBroker.registerParticipantOnSlab, taken]
      exact kept.setBroker fun p s mapped => (known p).trans mapped
    | some slot =>
      have takes : (c.site.slab.allocateParticipantSlot b.nextParticipant).1 = some slot := by
        rw [taken]
      have allocated := kept.allocate takes
      rw [taken] at allocated
      cases added with
      | false =>
        -- The identity and the slot are used up, but there is no participant.
        have nobody : c.site.registration i false = none := by
          simp [SlabSite.registration, isOpen, SlabBroker.registerParticipantOnSlab, taken]
        simp only [note, nobody, SlabBroker.registerParticipantOnSlab, taken, Bool.false_eq_true,
          if_false]
        exact allocated.setBroker fun p s mapped => (known p).trans mapped
      | true =>
        have somebody := SlabSite.registration_of_takes isOpen takes
        simp only [note, somebody, SlabBroker.registerParticipantOnSlab, taken, if_true]
        obtain ⟨new, alone⟩ := separate b isOpen rfl (CoordinationSlab.hasSlotFor_of_takes takes)
        -- The slot is drained and given up, or free and reset.
        obtain ⟨nonzero, ⟨found, same⟩ | ⟨-, free, reset⟩⟩ :=
          CoordinationSlab.allocateParticipantSlot_cases takes
        · rw [taken] at same
          subst same
          obtain ⟨empty, vacant⟩ := alone slot found
          exact kept.register (CoordinationSlab.findParticipantSlot_eq_some found).2 nonzero empty
            vacant ((known _).trans new) fun p s mapped =>
              (SlabBroker.participants_emplace mapped).imp ((known p).trans ·)
                fun pair => ⟨pair.1, DescriptorMailbox.mapped.inj pair.2⟩
        · rw [taken] at reset
          subst reset
          refine allocated.register ?_ nonzero ?_ (kept.vacant_of_free free)
            ((known _).trans new) fun p s mapped =>
              (SlabBroker.participants_emplace mapped).imp ((known p).trans ·)
                fun pair => ⟨pair.1, DescriptorMailbox.mapped.inj pair.2⟩
          · simp
          · simp

theorem join (kept : Kept c) {broker : SlabBroker} (nonzero : p ≠ 0)
    (bears : (c.site.slab.participants slot).participantId = p)
    (absent : c.site.mailboxOf i p = none)
    (maps : ∀ q s, broker.participants q = some (.mapped s) →
      c.site.mailboxOf i q = some (.mapped s) ∨ q = p ∧ s = slot) :
    Kept { c with
      site := c.site.setBroker i (some broker)
      who := setEntry c.who i p (c.registered slot) } := by
  have split (j : Nat) (q : ParticipantId) (s : SlotIndex)
      (mapped : (c.site.setBroker i (some broker)).mailboxOf j q = some (.mapped s)) :
      j = i ∧ q = p ∧ s = slot ∨
        ¬ (j = i ∧ q = p) ∧ c.site.mailboxOf j q = some (.mapped s) := by
    have other (was : c.site.mailboxOf j q = some (.mapped s)) :
        ¬ (j = i ∧ q = p) ∧ c.site.mailboxOf j q = some (.mapped s) := by
      refine ⟨?_, was⟩
      rintro ⟨rfl, rfl⟩
      rw [absent] at was
      cases was
    by_cases same : j = i
    · subst same
      rw [SlabSite.mailboxOf_setBroker_same] at mapped
      rcases maps q s mapped with was | new
      · exact Or.inr (other was)
      · exact Or.inl ⟨rfl, new⟩
    · rw [SlabSite.mailboxOf_setBroker_other same] at mapped
      exact Or.inr (other mapped)
  constructor
  · intro j q s mapped
    obtain ⟨-, rfl, rfl⟩ | ⟨-, was⟩ := split j q s mapped
    · exact ⟨nonzero, bears⟩
    · exact kept.named j q s was
  · intro j q s mapped
    obtain ⟨rfl, rfl, rfl⟩ | ⟨other, was⟩ := split j q s mapped
    · exact setEntry_same _
    · exact (setEntry_other _ other).trans (kept.current j q s was)
  · exact kept.exact_
  · exact kept.blank
  · exact kept.unborn

theorem reconstructParticipantFromSlab (kept : Kept c) {added : Bool}
    (stepped : c.step (.reconstructParticipantFromSlab i p added) = some d) : Kept d := by
  obtain ⟨b, isOpen, rfl⟩ : ∃ b, c.site.brokers i = some b ∧
      { c.note (.reconstructParticipantFromSlab i p added) with
        site := c.site.setBroker i
          (some (b.reconstructParticipantFromSlab c.site.slab p added).2) } = d := by
    simpa [Chronicle.step, SlabSite.step, Option.map_eq_some_iff] using stepped
  have known (q : ParticipantId) : c.site.mailboxOf i q = b.participants q :=
    SlabSite.mailboxOf_of_open isOpen
  cases found : c.site.slab.findParticipantSlot p with
  | none =>
    have same : (b.reconstructParticipantFromSlab c.site.slab p added).2 = b := by
      simp [SlabBroker.reconstructParticipantFromSlab, found]
    have nothing : c.note (.reconstructParticipantFromSlab i p added) = c := by
      cases record : c.site.mailboxOf i p <;> simp only [note, found, record]
    rw [nothing, same]
    exact kept.setBroker fun q s mapped => (known q).trans mapped
  | some slot =>
    obtain ⟨nonzero, bears⟩ := CoordinationSlab.findParticipantSlot_eq_some found
    simp only [note, found, known, SlabBroker.reconstructParticipantFromSlab, if_neg nonzero]
    cases record : b.participants p with
    | some mailbox =>
      simp only [Option.isSome_some, if_true]
      exact kept.setBroker fun q s mapped => (known q).trans mapped
    | none =>
      simp only [Option.isSome_none, Bool.false_eq_true, if_false]
      refine kept.join nonzero bears ((known p).trans record) fun q s mapped => ?_
      cases added with
      | false => exact Or.inl ((known q).trans mapped)
      | true =>
        have has : (b.emplace p (.mapped slot)).participants q = some (.mapped s) := by
          simp only [if_true] at mapped
          split_ifs at mapped with small
          · exact mapped
          · exact mapped
        exact (SlabBroker.participants_emplace has).imp ((known q).trans ·)
          fun pair => ⟨pair.1, DescriptorMailbox.mapped.inj pair.2⟩

theorem owned_maps {b : SlabBroker} (isOpen : c.site.brokers i = some b) (p : ParticipantId)
    (ring : List MailboxDescriptor) (q : ParticipantId) (s : SlotIndex)
    (mapped : Function.update b.participants p (some (.owned ring)) q = some (.mapped s)) :
    c.site.mailboxOf i q = some (.mapped s) := by
  rw [SlabSite.mailboxOf_of_open isOpen]
  by_cases same : q = p
  · subst same
    rw [Function.update_self] at mapped
    cases mapped
  · rwa [Function.update_of_ne same] at mapped

theorem sendMailboxDescriptor (kept : Kept c) {descriptor : MailboxDescriptor}
    (stepped : c.step (.sendMailboxDescriptor i p descriptor) = some d) : Kept d := by
  obtain ⟨b, isOpen, rfl⟩ : ∃ b, c.site.brokers i = some b ∧
      { c.note (.sendMailboxDescriptor i p descriptor) with
        site := { c.site with
          slab := (b.sendMailboxDescriptor c.site.slab p descriptor).2.1 }.setBroker i
            (some (b.sendMailboxDescriptor c.site.slab p descriptor).2.2) } = d := by
    simpa [Chronicle.step, SlabSite.step, Option.map_eq_some_iff] using stepped
  have known (q : ParticipantId) : c.site.mailboxOf i q = b.participants q :=
    SlabSite.mailboxOf_of_open isOpen
  cases record : b.participants p with
  | none =>
    simp only [note, known, record, SlabBroker.sendMailboxDescriptor]
    exact kept.setBroker fun q s mapped => (known q).trans mapped
  | some mailbox =>
    cases mailbox with
    | owned ring =>
      simp only [note, known, record, SlabBroker.sendMailboxDescriptor]
      exact kept.setBroker (owned_maps isOpen p _)
    | mapped slot =>
      have used := kept.named i p slot ((known p).trans record)
      have current := kept.current i p slot ((known p).trans record)
      simp only [note, known, record, SlabBroker.sendMailboxDescriptor, tryPush]
      by_cases room : (c.site.slab.participants slot).mailbox.length < kMailboxRingCapacity
      · simp only [if_pos room, if_true]
        have stored : Kept { c with
            site := { c.site with
              slab := c.site.slab.setMailbox slot
                ((c.site.slab.participants slot).mailbox ++ [descriptor]) }
            sent := setEntry c.sent slot (c.who i p) (c.sent slot (c.who i p) ++ [descriptor])
            received := c.received } := by
          refine kept.setMailbox (by rw [used.2]; exact used.1) ?_ (fun _ _ _ => rfl) ?_
          · intro s n apart
            rw [current]
            exact setEntry_other _ apart
          · rw [current, setEntry_same, ← List.append_assoc, kept.exact_]
        exact stored.setBroker fun q s mapped => (known q).trans mapped
      · -- A full ring takes nothing, and nothing is noted.
        simp only [if_neg room, Bool.false_eq_true, if_false, CoordinationSlab.setMailbox_self]
        exact kept.setBroker fun q s mapped => (known q).trans mapped

theorem drainMailboxDescriptors (kept : Kept c)
    (stepped : c.step (.drainMailboxDescriptors i p) = some d) : Kept d := by
  obtain ⟨b, isOpen, rfl⟩ : ∃ b, c.site.brokers i = some b ∧
      { c.note (.drainMailboxDescriptors i p) with
        site := { c.site with
          slab := (b.drainMailboxDescriptors c.site.slab p).2.1 }.setBroker i
            (some (b.drainMailboxDescriptors c.site.slab p).2.2) } = d := by
    simpa [Chronicle.step, SlabSite.step, Option.map_eq_some_iff] using stepped
  have known (q : ParticipantId) : c.site.mailboxOf i q = b.participants q :=
    SlabSite.mailboxOf_of_open isOpen
  cases record : b.participants p with
  | none =>
    simp only [note, known, record, SlabBroker.drainMailboxDescriptors]
    exact kept.setBroker fun q s mapped => (known q).trans mapped
  | some mailbox =>
    cases mailbox with
    | owned ring =>
      simp only [note, known, record, SlabBroker.drainMailboxDescriptors]
      exact kept.setBroker (owned_maps isOpen p _)
    | mapped slot =>
      have used := kept.named i p slot ((known p).trans record)
      have current := kept.current i p slot ((known p).trans record)
      simp only [note, known, record, SlabBroker.drainMailboxDescriptors]
      have stored : Kept { c with
          site := { c.site with slab := c.site.slab.setMailbox slot [] }
          sent := c.sent
          received := setEntry c.received slot (c.who i p)
            (c.received slot (c.who i p) ++ (c.site.slab.participants slot).mailbox) } := by
        refine kept.setMailbox (by rw [used.2]; exact used.1) (fun _ _ _ => rfl) ?_ ?_
        · intro s n apart
          rw [current]
          exact setEntry_other _ apart
        · rw [current, setEntry_same, List.append_nil, kept.exact_]
      exact stored.setBroker fun q s mapped => (known q).trans mapped

theorem step (kept : Kept c) {event : SlabEvent} (separate : c.site.Separate event)
    (stepped : c.step event = some d) : Kept d := by
  cases event with
  | openBroker i =>
    obtain ⟨-, rfl⟩ : c.site.brokers i = none ∧
        { c with site := c.site.setBroker i (some {}) } = d := by
      cases taken : c.site.brokers i with
      | none => simpa [Chronicle.step, SlabSite.step, taken, note] using stepped
      | some b => simp [Chronicle.step, SlabSite.step, taken] at stepped
    refine kept.setBroker fun p s mapped => ?_
    cases mapped
  | closeBroker i =>
    obtain ⟨b, -, rfl⟩ : ∃ b, c.site.brokers i = some b ∧
        { c with site := c.site.setBroker i none } = d := by
      simpa [Chronicle.step, SlabSite.step, Option.map_eq_some_iff, note] using stepped
    refine kept.setBroker fun p s mapped => ?_
    cases mapped
  | registerParticipant i added =>
    obtain ⟨b, isOpen, rfl⟩ : ∃ b, c.site.brokers i = some b ∧
        { c with site := c.site.setBroker i (some (b.registerParticipant added).2) } = d := by
      simpa [Chronicle.step, SlabSite.step, Option.map_eq_some_iff, note] using stepped
    exact kept.registerParticipant isOpen added
  | registerParticipantOnSlab i added => exact kept.registerParticipantOnSlab separate stepped
  | reconstructParticipantFromSlab i p added => exact kept.reconstructParticipantFromSlab stepped
  | sendMailboxDescriptor i p descriptor => exact kept.sendMailboxDescriptor stepped
  | drainMailboxDescriptors i p => exact kept.drainMailboxDescriptors stepped

theorem start : Kept {} where
  named i p slot mapped := by cases mapped
  current i p slot mapped := by cases mapped
  exact_ slot := rfl
  blank slot _ := rfl
  unborn slot n _ := ⟨rfl, rfl⟩

theorem receivesExactly (kept : Kept c) : c.ReceivesExactly := by
  intro i p slot mapped
  have current := kept.current i p slot mapped
  refine ⟨fun j q other => ?_, ?_⟩
  · exact ⟨(kept.named j q slot other).2.symm.trans (kept.named i p slot mapped).2,
      (kept.current j q slot other).trans current.symm⟩
  · rw [current]
    exact kept.exact_ slot

theorem starts_iff (kept : Kept c) {event : SlabEvent} (stepped : c.step event = some d) :
    c.site.StartsCleanAndAlone event ↔ c.site.Separate event := by
  cases event with
  | registerParticipantOnSlab i added =>
    have isOpen : (c.site.brokers i).isSome := by
      cases taken : c.site.brokers i with
      | none => simp [Chronicle.step, SlabSite.step, taken] at stepped
      | some b => rfl
    obtain ⟨b, isOpen⟩ := Option.isSome_iff_exists.mp isOpen
    have known (p : ParticipantId) : c.site.mailboxOf i p = b.participants p :=
      SlabSite.mailboxOf_of_open isOpen
    constructor
    · intro starts b' isOpen' isAdded has
      rw [isOpen, Option.some.injEq] at isOpen'
      subst isOpen' isAdded
      obtain ⟨slot, takes⟩ := CoordinationSlab.takes_of_hasSlotFor has
      obtain ⟨next, isNext, isMapped, empty, vacant⟩ :=
        starts b.nextParticipant slot (SlabSite.registration_of_takes isOpen takes)
      rw [SlabSite.step_of_takes isOpen takes, Option.some.injEq] at isNext
      subst isNext
      constructor
      · -- A record that was there before is kept, and then has the slot before.
        cases record : b.participants b.nextParticipant with
        | none => rfl
        | some mailbox =>
          rw [SlabSite.mailboxOf_setBroker_same, Option.bind_some, SlabBroker.emplace,
            if_pos (by simp [record])] at isMapped
          exact absurd ((known _).trans isMapped) (vacant i b.nextParticipant)
      · intro slot' found
        obtain ⟨-, ⟨isFound, same⟩ | ⟨absent, -⟩⟩ :=
          CoordinationSlab.allocateParticipantSlot_cases takes
        · rw [isFound, Option.some.injEq] at found
          subst found
          refine ⟨?_, vacant⟩
          rw [← same]
          exact empty
        · rw [absent] at found
          cases found
    · intro separate id slot registers
      obtain ⟨b', isOpen', rfl, rfl, takes⟩ := SlabSite.registration_eq_some registers
      rw [isOpen, Option.some.injEq] at isOpen'
      subst isOpen'
      obtain ⟨new, alone⟩ := separate b isOpen rfl (CoordinationSlab.hasSlotFor_of_takes takes)
      refine ⟨_, SlabSite.step_of_takes isOpen takes, ?_, ?_⟩
      · rw [SlabSite.mailboxOf_setBroker_same, Option.bind_some]
        exact SlabBroker.participants_emplace_new
          (b := { b with nextParticipant := b.nextParticipant + 1 }) new _
      · show ((c.site.slab.allocateParticipantSlot _).2.participants slot).mailbox = [] ∧ _
        obtain ⟨-, ⟨found, same⟩ | ⟨-, free, reset⟩⟩ :=
          CoordinationSlab.allocateParticipantSlot_cases takes
        · rw [same]
          exact alone slot found
        · rw [reset, CoordinationSlab.participants_setSlot_same]
          exact ⟨rfl, kept.vacant_of_free free⟩
  | openBroker | closeBroker | registerParticipant | reconstructParticipantFromSlab |
    sendMailboxDescriptor | drainMailboxDescriptors => exact Iff.rfl

end Kept

end Chronicle

/--
In a history of a slab, every participant registered on it starts with an empty mailbox of its own
and receives exactly what is sent to it, exactly when no registration comes upon another participant.
-/
theorem slab_registrations_iff (events : List SlabEvent) :
    StepsMeet Chronicle.step (fun c event => c.site.StartsCleanAndAlone event) {} events ∧
        Throughout Chronicle.step Chronicle.ReceivesExactly {} events ↔
      StepsMeet Chronicle.step (fun c event => c.site.Separate event) {} events := by
  -- While registrations are separate, the invariant judges the next one.
  have starts : StepsMeet Chronicle.step (fun c event => c.site.StartsCleanAndAlone event) {} events ↔
      StepsMeet Chronicle.step (fun c event => c.site.Separate event) {} events :=
    stepsMeet_iff (fun _ _ _ (kept : Chronicle.Kept _) stepped => kept.starts_iff stepped)
      (fun _ _ _ kept separate stepped => kept.step separate stepped) events _ .start
  rw [starts, and_iff_left_iff_imp]
  intro separate
  have kept : Throughout Chronicle.step Chronicle.Kept {} events :=
    throughout_of_stepsMeet (fun _ _ _ kept separate stepped => kept.step separate stepped)
      events _ .start separate
  exact Throughout.imp (fun _ kept => kept.receivesExactly) events _ kept

def reopenedHistory : List SlabEvent :=
  [.openBroker 0, .registerParticipantOnSlab 0 true, .sendMailboxDescriptor 0 1 {}, .closeBroker 0,
    .openBroker 1, .registerParticipantOnSlab 1 true]

/-- The participant of the new broker finds what was sent to the one of the old broker. -/
theorem slab_registrations_fail :
    ((runFrom SlabSite.step {} reopenedHistory).map fun site =>
        (site.mailboxOf 1 1, (site.slab.participants ⟨0, by decide⟩).mailbox)) =
      some (some (.mapped ⟨0, by decide⟩), [{}]) ∧
      ¬ StepsMeet Chronicle.step (fun c event => c.site.StartsCleanAndAlone event) {}
        reopenedHistory := by
  refine ⟨by decide, fun starts => ?_⟩
  -- Only the last registration is unclean.
  have last := ((((((starts _ rfl).2 _ rfl).2 _ rfl).2 _ rfl).2 _ rfl).2 _ rfl).1
  obtain ⟨next, isNext, -, empty, -⟩ := last 1 ⟨0, by decide⟩ rfl
  cases isNext
  exact absurd empty (by decide)

end AgentC.Root1

import AgentC.Root1.Mailboxes

/-! Whoever is granted a resource finds the grant in its descriptor ring, while that ring has room. -/

namespace AgentC.Root1

def grantsTo (p : ParticipantId) (past : List Event) : List ResourceKey :=
  past.filterMap fun
    | .granted key _ next _ => if next = p then some key else none
    | _ => none

def grantsIn (descriptors : List MailboxDescriptor) : List ResourceKey :=
  descriptors.filterMap fun descriptor =>
    if descriptor.eventKind = .ownershipGranted then some descriptor.resource else none

theorem grantsTo_append (p : ParticipantId) (past events : List Event) :
    grantsTo p (past ++ events) = grantsTo p past ++ grantsTo p events :=
  List.filterMap_append

theorem grantsIn_append (front back : List MailboxDescriptor) :
    grantsIn (front ++ back) = grantsIn front ++ grantsIn back :=
  List.filterMap_append

theorem grantsIn_front {front whole : List MailboxDescriptor} (isFront : front <+: whole) :
    (grantsIn front).Sublist (grantsIn whole) :=
  isFront.sublist.filterMap _

/-- The last descriptor of a ring tells a participant of a grant, behind those that were there. -/
def Delivered (b c : Broker) (key : ResourceKey) (next : ParticipantId) : Prop :=
  ∃ told grant, c.undrained next = b.undrained next ++ (told ++ [grant]) ∧
    grant.eventKind = .ownershipGranted ∧ grant.resource = key

def Cause.descriptors : Cause → Nat
  | .released => 1
  -- The next owner is first told that the owner before it was revoked.
  | .abandoned | .expired _ => 2

def Work.Roomy (b : Broker) : Work → Prop
  | .handOff key _ cause _ => ∀ next rest, b.nextWaiter (b.waiters key) = some (next, rest) →
      (b.undrained next).length + cause.descriptors ≤ kMailboxRingCapacity
  | _ => True

variable {b : Broker} {key : ResourceKey} {next : ParticipantId}

theorem delivered_iff_room {c : Broker} (registered : b.isValidParticipantLocked next)
    (ring : c.undrained next = (b.pushGrant key next).undrained next) :
    Delivered b c key next ↔ (b.undrained next).length < kMailboxRingCapacity := by
  rw [Broker.undrained_pushGrant registered] at ring
  constructor
  · rintro ⟨told, grant, behind, -, -⟩
    by_contra full
    rw [if_neg full] at ring
    -- A ring that was left alone has nothing behind itself.
    have length := congrArg List.length (ring.symm.trans behind)
    simp only [List.length_append, List.length_singleton] at length
    omega
  · intro room
    rw [if_pos room] at ring
    exact ⟨[], _, ring, rfl, rfl⟩

theorem delivered_iff_room_revoked {c : Broker} {owner : ParticipantId} {reason : Bytes}
    (registered : b.isValidParticipantLocked next) (ring : c.undrained next =
      ((b.pushOwnerDied key next owner reason).pushGrant key next).undrained next) :
    Delivered b c key next ↔ (b.undrained next).length + 2 ≤ kMailboxRingCapacity := by
  have still : (b.pushOwnerDied key next owner reason).isValidParticipantLocked next :=
    (Broker.undisturbed_modifyParticipant _ _).known next registered
  have noticed := Broker.undrained_pushDescriptorLocked registered
    (setInlinePayload { eventKind := .ownerDied, resource := key, correlationId := owner
                        sequence := b.nextGrantToken } reason)
  rw [Broker.undrained_pushGrant still] at ring
  -- The notice is put into the ring first, and may take the last place in it.
  change (b.pushOwnerDied key next owner reason).undrained next = _ at noticed
  rw [noticed] at ring
  by_cases room : (b.undrained next).length < kMailboxRingCapacity
  · simp only [if_pos room, List.length_append, List.length_singleton] at ring
    by_cases both : (b.undrained next).length + 1 < kMailboxRingCapacity
    · rw [if_pos both, List.append_assoc] at ring
      exact iff_of_true ⟨[_], _, ring, rfl, rfl⟩ (by omega)
    · rw [if_neg both] at ring
      refine iff_of_false ?_ (by omega)
      rintro ⟨told, grant, behind, kind, -⟩
      -- Only the notice is new, and it tells of no grant.
      have new := List.append_cancel_left (ring.symm.trans behind)
      obtain ⟨-, same⟩ := List.append_inj' ((List.nil_append _).trans new) rfl
      rw [← List.singleton_inj.mp same] at kind
      unfold setInlinePayload at kind
      split at kind <;> cases kind
  · simp only [if_neg room] at ring
    refine iff_of_false ?_ (by omega)
    rintro ⟨told, grant, behind, -, -⟩
    have length := congrArg List.length (ring.symm.trans behind)
    simp only [List.length_append, List.length_singleton] at length
    omega

theorem handOff_delivers_iff (b : Broker) (key : ResourceKey) (owner : ParticipantId)
    (cause : Cause) (reason : Bytes) :
    (∀ at_ from_ next why, .granted at_ from_ next why ∈ (b.handOff key owner cause reason).events →
      Delivered b (b.handOff key owner cause reason).shared at_ next) ↔
    (Work.handOff key owner cause reason).Roomy b := by
  simp only [Work.Roomy, Broker.handOff]
  cases found : b.nextWaiter (b.waiters key) with
  | none =>
    -- Nobody is granted anything.
    refine iff_of_true (fun at_ from_ next why member => ?_) nofun
    cases List.mem_singleton.mp member
  | some passed =>
    obtain ⟨next, rest⟩ := passed
    have registered : (b.passTo key next rest).isValidParticipantLocked next :=
      (Broker.nextWaiter_mem found).2.1
    have only : ∀ c : Broker, (Delivered b c key next ↔
        (b.undrained next).length + cause.descriptors ≤ kMailboxRingCapacity) →
        ((∀ at_ from_ p why, .granted at_ from_ p why ∈ [Event.granted key owner next cause] →
          Delivered b c at_ p) ↔
        ∀ p others, some (next, rest) = some (p, others) →
          (b.undrained p).length + cause.descriptors ≤ kMailboxRingCapacity) := by
      intro c exact_
      constructor
      · intro delivered p others same
        cases same
        exact exact_.mp (delivered key owner next cause List.mem_cons_self)
      · intro room at_ from_ p why member
        cases List.mem_singleton.mp member
        exact exact_.mpr (room next rest rfl)
    refine only _ ?_
    cases cause with
    | released => exact delivered_iff_room (b := b.passTo key next rest) registered rfl
    | abandoned => exact delivered_iff_room_revoked (b := b.passTo key next rest) registered rfl
    | expired tick => exact delivered_iff_room_revoked (b := b.passTo key next rest) registered rfl

theorem granted_of_perform {item : Work} {owner : ParticipantId} {cause : Cause}
    (granted : .granted key owner next cause ∈ (perform b item).events) :
    ∃ at_ from_ why reason, item = .handOff at_ from_ why reason := by
  cases decides : item.decides with
  | false => cases (perform_aside b decides).quiet _ granted
  | true =>
    cases item with
    | handOff at_ from_ why reason => exact ⟨at_, from_, why, reason, rfl⟩
    | tryAcquire at_ p | acquireFast at_ p | retryAcquire at_ p =>
      simp only [perform, Broker.tryAcquireUnlocked] at granted
      by_cases free : b.words at_ = 0
      · simp [if_pos free] at granted
      · simp [if_neg free] at granted
    | checkOwner at_ p =>
      simp only [perform] at granted
      split at granted
      · simp at granted
      · split at granted <;> simp at granted
    | enqueue at_ p =>
      simp only [perform] at granted
      split at granted <;> simp at granted
    | checkTenure at_ from_ why reason =>
      simp only [perform] at granted
      split at granted <;> cases granted
    | registerLease | renewLease | heartbeatLeases | collectExpired | recoverLeases |
      recoverLease | register | reconstruct | attachPid | reportDown | drainEventFd |
      sendMessage | sendDescriptor | drainMailbox | drainDescriptors => cases decides

theorem perform_delivers_iff (b : Broker) (item : Work) :
    (∀ key owner next cause, .granted key owner next cause ∈ (perform b item).events →
      Delivered b (perform b item).shared key next) ↔ item.Roomy b := by
  by_cases ends : ∃ key owner cause reason, item = .handOff key owner cause reason
  · obtain ⟨key, owner, cause, reason, rfl⟩ := ends
    exact handOff_delivers_iff b key owner cause reason
  · refine iff_of_true (fun _ _ _ _ granted => absurd (granted_of_perform granted) ends) ?_
    cases item with
    | handOff key owner cause reason => exact absurd ⟨key, owner, cause, reason, rfl⟩ ends
    | _ => trivial

variable {τ : Type} [DecidableEq τ]

/-- The broker's threads, with the descriptors that each participant has drained so far. -/
structure Listening (τ : Type) where
  system : System τ
  drained : ParticipantId → List MailboxDescriptor

namespace Listening

def idle : Listening τ where
  system := Threads.idle Broker.initial
  drained := fun _ => []

def taken (l : Listening τ) (turn : Turn τ BrokerCall) (p : ParticipantId) :
    List MailboxDescriptor :=
  match turn with
  | .call _ _ => []
  | .advance t => ((l.system.current t).map (Work.takes l.system.shared p)).getD []

def step (l : Listening τ) (turn : Turn τ BrokerCall) : Option (Listening τ) :=
  (l.system.step turn).map fun next =>
    { system := next, drained := fun p => l.drained p ++ l.taken turn p }

def received (l : Listening τ) (p : ParticipantId) : List MailboxDescriptor :=
  l.drained p ++ l.system.shared.undrained p

def Informed (l : Listening τ) : Prop :=
  ∀ p, (grantsTo p l.system.trace).Sublist (grantsIn (l.received p))

/-- A turn that grants a resource puts the grant behind all that the new owner has not drained. -/
def Delivers (l : Listening τ) (turn : Turn τ BrokerCall) : Prop :=
  ∀ next, l.step turn = some next → ∀ events, next.system.trace = l.system.trace ++ events →
    ∀ key owner p cause, .granted key owner p cause ∈ events →
      Delivered l.system.shared next.system.shared key p

def Roomy (l : Listening τ) : Turn τ BrokerCall → Prop
  | .call _ _ => True
  | .advance t => ∀ item, l.system.current t = some item → item.Roomy l.system.shared

variable {l next : Listening τ} {turn : Turn τ BrokerCall}

theorem step_cases (stepped : l.step turn = some next) :
    (∃ t item, turn = .advance t ∧ l.system.current t = some item ∧
      next.system.shared = (perform l.system.shared item).shared ∧
      next.system.trace = l.system.trace ++ (perform l.system.shared item).events ∧
      ∀ p, next.drained p = l.drained p ++ item.takes l.system.shared p) ∨
    ((∀ t, turn = .advance t → l.system.current t = none) ∧
      next.system.shared = l.system.shared ∧ next.system.trace = l.system.trace ∧
      ∀ p, next.drained p = l.drained p) := by
  obtain ⟨after, moved, rfl⟩ := Option.map_eq_some_iff.mp stepped
  obtain ⟨t, item, rfl, current, shared, trace⟩ | ⟨none, shared, trace⟩ :=
    Threads.step_access moved
  · refine Or.inl ⟨t, item, rfl, current, shared, trace, fun p => ?_⟩
    simp only [taken, current, Option.map_some, Option.getD_some]
  · refine Or.inr ⟨none, shared, trace, fun p => ?_⟩
    cases turn with
    | call t op => exact List.append_nil _
    | advance t => simp [taken, none t rfl]

theorem delivers_iff_roomy (stepped : l.step turn = some next) :
    l.Delivers turn ↔ l.Roomy turn := by
  obtain ⟨t, item, rfl, current, shared, trace, -⟩ | ⟨none, shared, trace, -⟩ := step_cases stepped
  · have roomy : l.Roomy (.advance t) ↔ item.Roomy l.system.shared := by
      constructor
      · exact fun roomy => roomy item current
      · intro room other same
        obtain rfl : item = other := Option.some.inj (current.symm.trans same)
        exact room
    rw [roomy, ← perform_delivers_iff]
    constructor
    · intro delivers key owner p cause granted
      rw [← shared]
      exact delivers next stepped _ trace key owner p cause granted
    · intro delivered again moved events split key owner p cause granted
      obtain rfl : next = again := Option.some.inj (stepped.symm.trans moved)
      rw [List.append_cancel_left (split.symm.trans trace)] at granted
      rw [shared]
      exact delivered key owner p cause granted
  · -- Without an access nothing is granted.
    refine iff_of_true (fun again moved events split key owner p cause granted => ?_) ?_
    · obtain rfl : next = again := Option.some.inj (stepped.symm.trans moved)
      rw [trace] at split
      rw [List.self_eq_append_right.mp split] at granted
      cases granted
    · cases turn with
      | call t op => trivial
      | advance t =>
        intro item current
        rw [none t rfl] at current
        cases current

omit [DecidableEq τ] in
theorem Informed.access {item : Work} (informed : l.Informed) (room : item.Roomy l.system.shared)
    (shared : next.system.shared = (perform l.system.shared item).shared)
    (trace : next.system.trace = l.system.trace ++ (perform l.system.shared item).events)
    (drained : ∀ p, next.drained p = l.drained p ++ item.takes l.system.shared p) :
    next.Informed := by
  intro p
  have kept := perform_undrained l.system.shared item p
  rw [trace, grantsTo_append, received, drained, shared, List.append_assoc]
  by_cases ends : ∃ key owner cause reason, item = .handOff key owner cause reason
  · obtain ⟨key, owner, cause, reason, rfl⟩ := ends
    have delivered := (handOff_delivers_iff l.system.shared key owner cause reason).mpr room
    obtain ⟨next, rest, -, -, -, -, -, events⟩ | ⟨-, -, -, -, -, events⟩ :=
      l.system.shared.handOff_cases key owner cause reason
    · rw [perform, events]
      rw [events] at delivered
      by_cases same : next = p
      · -- The one event is the grant, and its descriptor is the last of the ring.
        subst same
        obtain ⟨told, grant, ring, kind, resource⟩ :=
          delivered key owner next cause List.mem_cons_self
        have sameGrant : grantsTo next [.granted key owner next cause] = grantsIn [grant] := by
          simp [grantsTo, grantsIn, kind, resource]
        have untaken : (Work.handOff key owner cause reason).takes l.system.shared next = [] := rfl
        rw [sameGrant, untaken, List.nil_append, ring, ← List.append_assoc, ← List.append_assoc,
          grantsIn_append (_ ++ told)]
        refine List.Sublist.append ?_ (List.Sublist.refl _)
        exact (informed next).trans (grantsIn_front (List.prefix_append _ _))
      · have elsewhere : grantsTo p [.granted key owner next cause] = [] := by
          simp [grantsTo, same]
        rw [elsewhere, List.append_nil]
        exact (informed p).trans (grantsIn_front ((List.prefix_append_right_inj _).mpr kept))
    · rw [perform, events]
      show (grantsTo p l.system.trace ++ []).Sublist _
      rw [List.append_nil]
      exact (informed p).trans (grantsIn_front ((List.prefix_append_right_inj _).mpr kept))
  · -- No other access grants anything, and none loses a descriptor.
    have nothing : grantsTo p (perform l.system.shared item).events = [] := by
      refine List.filterMap_eq_nil_iff.mpr fun event member => ?_
      cases event with
      | granted key owner next cause => exact absurd (granted_of_perform member) ends
      | _ => rfl
    rw [nothing, List.append_nil]
    exact (informed p).trans (grantsIn_front ((List.prefix_append_right_inj _).mpr kept))

theorem Informed.step (informed : l.Informed) (roomy : l.Roomy turn)
    (stepped : l.step turn = some next) : next.Informed := by
  obtain ⟨t, item, rfl, current, shared, trace, drained⟩ | ⟨-, shared, trace, drained⟩ :=
    step_cases stepped
  · exact informed.access (roomy item current) shared trace drained
  · intro p
    rw [trace, received, drained, shared]
    exact informed p

end Listening

/--
In every run of any number of threads, each grant is delivered behind what its new owner has not
drained, and everyone learns of all its grants by draining, exactly when every ring that a grant
goes to has room for what its owner is to be told.
-/
theorem grants_delivered_iff (turns : List (Turn τ BrokerCall)) :
    (StepsMeet Listening.step Listening.Delivers (Listening.idle : Listening τ) turns ∧
      Throughout Listening.step Listening.Informed (Listening.idle : Listening τ) turns) ↔
    StepsMeet Listening.step Listening.Roomy (Listening.idle : Listening τ) turns := by
  have informed : (Listening.idle : Listening τ).Informed := fun _ => List.Sublist.refl _
  have judged : StepsMeet Listening.step Listening.Delivers (Listening.idle : Listening τ) turns ↔
      StepsMeet Listening.step Listening.Roomy (Listening.idle : Listening τ) turns :=
    stepsMeet_iff (fun _ _ _ _ stepped => Listening.delivers_iff_roomy stepped)
      (fun _ _ _ informed roomy stepped => informed.step roomy stepped) turns _ informed
  constructor
  · exact fun delivered => judged.mp delivered.1
  · intro roomy
    exact ⟨judged.mpr roomy, throughout_of_stepsMeet
      (fun _ _ _ informed roomy stepped => informed.step roomy stepped) turns _ informed roomy⟩

/-- A second participant queues behind the first, its ring is filled, and the first releases. -/
def releaseToFullRing : List (Turn Nat BrokerCall) :=
  [.call 0 (.registerParticipant true), .advance 0, .advance 0, .advance 0,
    .call 0 (.registerParticipant true), .advance 0, .advance 0, .advance 0,
    .call 0 (.acquireOrQueue {} 1), .advance 0,
    .call 0 (.acquireOrQueue {} 2), .advance 0, .advance 0, .advance 0, .advance 0, .advance 0,
    .advance 0] ++
  (List.replicate kMailboxRingCapacity
    [.call 0 (.sendMailboxDescriptor 2 {}), .advance 0, .advance 0, .advance 0]).flatten ++
  [.call 0 (.release {} 1), .advance 0, .advance 0, .advance 0, .advance 0]

/-- The new owner finds 64 messages in its ring, and not the grant that it waits for. -/
theorem grants_delivered_fails :
    ¬ ∀ turns : List (Turn Nat BrokerCall),
      StepsMeet Listening.step Listening.Delivers (Listening.idle : Listening Nat) turns ∧
        Throughout Listening.step Listening.Informed (Listening.idle : Listening Nat) turns := by
  intro always
  have last : (runFrom Listening.step (Listening.idle : Listening Nat) releaseToFullRing).map
      (fun final => (grantsTo 2 final.system.trace, grantsIn (final.received 2))) =
      some ([{}], []) := by
    decide +kernel
  obtain ⟨final, ran, told⟩ := Option.map_eq_some_iff.mp last
  obtain ⟨granted, received⟩ := Prod.mk.inj told
  have informed := (always releaseToFullRing).2.last _ _ final ran 2
  rw [granted, received] at informed
  cases informed

end AgentC.Root1

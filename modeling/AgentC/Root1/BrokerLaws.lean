import AgentC.Root1.Broker

/-! What the accesses of the broker's calls do to owner words, queues and registrations. -/

namespace AgentC.Root1

theorem toNat_kOwnerMask : kOwnerMask.toNat = 2 ^ 63 - 1 := by decide

theorem ownerOf_id {participant : ParticipantId} (small : participant < kOwnerMask) :
    ownerOf participant = participant := by
  -- Masking with all low bits is the remainder by a power of two, which changes nothing here.
  have below : participant.toNat < kOwnerMask.toNat := UInt64.lt_iff_toNat_lt.mp small
  rw [toNat_kOwnerMask] at below
  apply UInt64.toNat_inj.mp
  unfold ownerOf
  rw [UInt64.toNat_and, toNat_kOwnerMask, Nat.and_two_pow_sub_one_eq_mod]
  exact Nat.mod_eq_of_lt (by omega)

theorem ownerOf_or (left right : UInt64) :
    ownerOf (left ||| right) = ownerOf left ||| ownerOf right := by
  unfold ownerOf
  apply UInt64.toNat_inj.mp
  simp only [UInt64.toNat_and, UInt64.toNat_or]
  exact Nat.and_or_distrib_right _ _ _

theorem ownerOf_kContendedBit : ownerOf kContendedBit = 0 := by decide

@[simp] theorem ownerOf_zero : ownerOf 0 = 0 := by decide

theorem ownerOf_mark (word : UInt64) : ownerOf (word ||| kContendedBit) = ownerOf word := by
  rw [ownerOf_or, ownerOf_kContendedBit, UInt64.or_zero]

theorem ownerOf_pass {participant : ParticipantId} (small : participant < kOwnerMask)
    (waiting : Bool) : ownerOf ((if waiting then 0 else kContendedBit) ||| participant) = participant := by
  rw [ownerOf_or, ownerOf_id small]
  -- Both values of the first operand name nobody.
  cases waiting with
  | true => exact UInt64.zero_or
  | false =>
    show ownerOf kContendedBit ||| participant = participant
    rw [ownerOf_kContendedBit, UInt64.zero_or]

namespace Broker

variable {b : Broker}

@[simp] theorem owner_setWord_same (key : ResourceKey) (word : UInt64) :
    (b.setWord key word).owner key = ownerOf word := by
  simp [owner, setWord]

variable {key other : ResourceKey} {queue : List ParticipantId}

@[simp] theorem owner_setWord_other (apart : other ≠ key) (word : UInt64) :
    (b.setWord key word).owner other = b.owner other := by
  simp [owner, setWord, apart]

@[simp] theorem words_setWord_same (key : ResourceKey) (word : UInt64) :
    (b.setWord key word).words key = word := by
  simp [setWord]

@[simp] theorem words_setWord_other (apart : other ≠ key) (word : UInt64) :
    (b.setWord key word).words other = b.words other := by
  simp [setWord, apart]

@[simp] theorem waiters_setWord (key : ResourceKey) (word : UInt64) :
    (b.setWord key word).waiters = b.waiters := rfl

@[simp] theorem waiters_setWaiters_same (key : ResourceKey) (queue : List ParticipantId) :
    (b.setWaiters key queue).waiters key = queue := by
  simp [setWaiters]

@[simp] theorem waiters_setWaiters_other (apart : other ≠ key) (queue : List ParticipantId) :
    (b.setWaiters key queue).waiters other = b.waiters other := by
  simp [setWaiters, apart]

theorem tryAcquireUnlocked_free (free : b.words key = 0) (participant : ParticipantId) :
    b.tryAcquireUnlocked key participant = some (b.setWord key participant) := if_pos free

theorem tryAcquireUnlocked_taken (taken : b.words key ≠ 0) (participant : ParticipantId) :
    b.tryAcquireUnlocked key participant = none := if_neg taken

/-- A state with the same owner words, queues and leases, and with every participant still there. -/
structure Undisturbed (b c : Broker) : Prop where
  words : c.words = b.words
  waiters : c.waiters = b.waiters
  leases : c.leases = b.leases
  known : ∀ participant, b.isValidParticipantLocked participant →
    c.isValidParticipantLocked participant

theorem Undisturbed.refl (b : Broker) : Undisturbed b b :=
  ⟨rfl, rfl, rfl, fun _ known => known⟩

theorem Undisturbed.trans {c d : Broker} (first : Undisturbed b c) (second : Undisturbed c d) :
    Undisturbed b d :=
  ⟨second.words.trans first.words, second.waiters.trans first.waiters,
    second.leases.trans first.leases,
    fun participant known => second.known participant (first.known participant known)⟩

theorem undisturbed_setParticipant (participant : ParticipantId) (record : ParticipantRecord) :
    Undisturbed b (b.setParticipant participant record) := by
  refine ⟨rfl, rfl, rfl, fun other known => ?_⟩
  unfold isValidParticipantLocked setParticipant at *
  by_cases same : other = participant
  · simp [same]
  · simpa [same] using known

theorem undisturbed_modifyParticipant (participant : ParticipantId)
    (change : ParticipantRecord → ParticipantRecord) :
    Undisturbed b (b.modifyParticipant participant change) := by
  unfold modifyParticipant
  -- A participant that is not registered has no record to change.
  cases b.participants participant with
  | none => exact Undisturbed.refl b
  | some record => exact undisturbed_setParticipant participant (change record)

theorem undisturbed_pushGrant (key : ResourceKey) (next : ParticipantId) :
    Undisturbed b (b.pushGrant key next) := by
  -- The token is drawn first, then the two messages are pushed.
  have drawn : Undisturbed b { b with nextGrantToken := b.nextGrantToken + 1 } :=
    ⟨rfl, rfl, rfl, fun _ known => known⟩
  exact (drawn.trans (undisturbed_modifyParticipant _ _)).trans (undisturbed_modifyParticipant _ _)

theorem undisturbed_register (ring : Option (List MailboxDescriptor)) :
    Undisturbed b (b.register ring) := by
  have counted : Undisturbed b { b with nextParticipant := b.nextParticipant + 1 } :=
    ⟨rfl, rfl, rfl, fun _ known => known⟩
  -- Only the first branch stores a record.
  simp only [register]
  split
  · exact counted.trans (undisturbed_setParticipant _ _)
  · exact counted

theorem undisturbed_reconstruct (participant : ParticipantId) (ring : List MailboxDescriptor)
    (notifyPending : Bool) : Undisturbed b (b.reconstruct participant ring notifyPending) := by
  unfold reconstruct
  split
  · exact Undisturbed.refl b
  · have stored := undisturbed_setParticipant (b := b) participant
      { descriptorMailbox := ring, eventFd := if notifyPending && !ring.isEmpty then 1 else 0 }
    exact ⟨stored.words, stored.waiters, stored.leases, stored.known⟩

theorem undisturbed_reportDown (participant : ParticipantId) (order : List ResourceKey) :
    Undisturbed b (b.reportDown participant order).shared := by
  unfold reportDown
  cases b.participants participant with
  | none => exact Undisturbed.refl b
  | some record =>
    dsimp only
    split
    · exact Undisturbed.refl b
    · exact (undisturbed_setParticipant _ _).trans (undisturbed_modifyParticipant _ _)

theorem nextWaiter_of_known {rest : List ParticipantId} {next : ParticipantId}
    (known : ∀ participant ∈ queue, b.isValidParticipantLocked participant)
    (found : b.nextWaiter queue = some (next, rest)) : queue = next :: rest := by
  -- The search stops at the first participant, since it is registered.
  cases queue with
  | nil => cases found
  | cons first others =>
    rw [nextWaiter, if_pos (known first List.mem_cons_self)] at found
    cases found
    rfl

theorem eq_nil_of_nextWaiter (known : ∀ participant ∈ queue, b.isValidParticipantLocked participant)
    (found : b.nextWaiter queue = none) : queue = [] := by
  cases queue with
  | nil => rfl
  | cons first others =>
    rw [nextWaiter, if_pos (known first List.mem_cons_self)] at found
    cases found

theorem nextWaiter_mem {rest : List ParticipantId} {next : ParticipantId}
    (found : b.nextWaiter queue = some (next, rest)) :
    next ∈ queue ∧ b.isValidParticipantLocked next ∧ ∀ p ∈ rest, p ∈ queue := by
  induction queue with
  | nil => cases found
  | cons first others ih =>
    simp only [nextWaiter] at found
    by_cases valid : b.isValidParticipantLocked first = true
    · rw [if_pos valid] at found
      cases found
      exact ⟨List.mem_cons_self, valid, fun p member => List.mem_cons_of_mem _ member⟩
    · rw [if_neg valid] at found
      obtain ⟨member, registered, behind⟩ := ih found
      exact ⟨List.mem_cons_of_mem _ member, registered,
        fun p inRest => List.mem_cons_of_mem _ (behind p inRest)⟩

theorem handOff_cases (b : Broker) (key : ResourceKey) (owner : ParticipantId) (cause : Cause)
    (reason : Bytes) :
    (∃ next rest, b.nextWaiter (b.waiters key) = some (next, rest) ∧
      (b.handOff key owner cause reason).shared.words = (b.passTo key next rest).words ∧
      (b.handOff key owner cause reason).shared.waiters = (b.passTo key next rest).waiters ∧
      (∀ p, b.isValidParticipantLocked p →
        (b.handOff key owner cause reason).shared.isValidParticipantLocked p) ∧
      (b.handOff key owner cause reason).shared.leases =
        (if cause = .released then b else b.eraseLease key).leases ∧
      (b.handOff key owner cause reason).events = [.granted key owner next cause]) ∨
    (b.nextWaiter (b.waiters key) = none ∧
      (b.handOff key owner cause reason).shared.words = (b.clear key).words ∧
      (b.handOff key owner cause reason).shared.waiters = (b.clear key).waiters ∧
      (∀ p, b.isValidParticipantLocked p →
        (b.handOff key owner cause reason).shared.isValidParticipantLocked p) ∧
      (b.handOff key owner cause reason).shared.leases =
        (if cause = .released then b else b.eraseLease key).leases ∧
      (b.handOff key owner cause reason).events = [.freed key owner cause]) := by
  unfold handOff
  cases found : b.nextWaiter (b.waiters key) with
  | none =>
    -- Nobody is left to own the resource.
    refine Or.inr ⟨rfl, ?_⟩
    dsimp only
    by_cases given : cause = .released
    · rw [if_pos given, if_pos given]
      exact ⟨rfl, rfl, fun _ known => known, rfl, rfl⟩
    · rw [if_neg given, if_neg given]
      exact ⟨rfl, rfl, fun _ known => known, rfl, rfl⟩
  | some passed =>
    obtain ⟨next, rest⟩ := passed
    refine Or.inl ⟨next, rest, rfl, ?_⟩
    -- The messages disturb nothing, and only a revocation forgets the lease.
    dsimp only
    by_cases given : cause = .released
    · rw [if_pos given, if_pos given]
      have told := undisturbed_pushGrant (b := b.passTo key next rest) key next
      exact ⟨told.words, told.waiters, told.known, told.leases, rfl⟩
    · rw [if_neg given, if_neg given]
      have died : Undisturbed (b.passTo key next rest)
          ((b.passTo key next rest).pushOwnerDied key next owner reason) :=
        undisturbed_modifyParticipant _ _
      have told := died.trans (undisturbed_pushGrant key next)
      refine ⟨told.words, told.waiters, told.known, ?_, rfl⟩
      show List.filter _ _ = List.filter _ b.leases
      rw [told.leases]
      rfl

theorem handOff_ends (b : Broker) (key : ResourceKey) (owner : ParticipantId) (cause : Cause)
    (reason : Bytes) : (b.handOff key owner cause reason).more = [] ∧
      (b.handOff key owner cause reason).later = [] := by
  unfold handOff
  cases b.nextWaiter (b.waiters key) <;> exact ⟨rfl, rfl⟩

end Broker

def Work.decides : Work → Bool
  | .tryAcquire _ _ | .acquireFast _ _ | .checkOwner _ _ | .retryAcquire _ _ | .enqueue _ _
  | .checkTenure _ _ _ _ | .handOff _ _ _ _ => true
  | _ => false

def Event.quiet : Event → Bool
  | .leased _ _ _ | .renewed _ _ _ | .reportedDown _ => true
  | .answered _ _ status => status ≠ .queued
  | _ => false

/-- What an access leads to when it neither reads a queue nor decides an owner. -/
structure Aside (b : Broker) (out : Outcome Broker Work Event) : Prop where
  words : out.shared.words = b.words
  waiters : out.shared.waiters = b.waiters
  known : ∀ participant, b.isValidParticipantLocked participant →
    out.shared.isValidParticipantLocked participant
  quiet : ∀ event ∈ out.events, event.quiet
  /-- The accesses it asks for are again such ones, or look whether a lease's owner still owns. -/
  more : ∀ item ∈ out.more, item.decides = false ∨
    ∃ key owner reason, item = .checkTenure key owner .abandoned reason
  later : ∀ segment ∈ out.later, ∃ key owner now reason,
    segment = .locked [.checkTenure key owner (.expired now) reason]

theorem Aside.of_undisturbed {b c : Broker} (same : Broker.Undisturbed b c) :
    Aside b { shared := c } :=
  ⟨same.words, same.waiters, same.known, List.forall_mem_nil _, List.forall_mem_nil _, List.forall_mem_nil _⟩

theorem perform_aside (b : Broker) {item : Work} (other : item.decides = false) :
    Aside b (perform b item) := by
  cases item with
  | tryAcquire | acquireFast | checkOwner | retryAcquire | enqueue | checkTenure | handOff =>
    cases other
  | registerLease key owner expiresAtTick =>
    -- Only the table of leases may change.
    simp only [perform, Broker.registerLease]
    split
    · exact ⟨rfl, rfl, fun _ known => known, by simp [Event.quiet], List.forall_mem_nil _, List.forall_mem_nil _⟩
    · exact Aside.of_undisturbed (Broker.Undisturbed.refl b)
  | renewLease key owner expiresAtTick =>
    simp only [perform, Broker.renewLease]
    cases b.leases.lookup key with
    | none => exact Aside.of_undisturbed (Broker.Undisturbed.refl b)
    | some lease =>
      dsimp only
      split
      · exact ⟨rfl, rfl, fun _ known => known, by simp [Event.quiet], List.forall_mem_nil _, List.forall_mem_nil _⟩
      · exact Aside.of_undisturbed (Broker.Undisturbed.refl b)
  | heartbeatLeases owner expiresAtTick order =>
    rw [perform]
    refine ⟨rfl, rfl, fun _ known => known, List.forall_mem_nil _, fun item member => ?_,
      List.forall_mem_nil _⟩
    obtain ⟨entry, -, rfl⟩ := List.mem_map.mp member
    exact Or.inl rfl
  | collectExpired now reason order =>
    rw [perform]
    refine ⟨rfl, rfl, fun _ known => known, List.forall_mem_nil _, List.forall_mem_nil _,
      fun segment member => ?_⟩
    obtain ⟨entry, -, rfl⟩ := List.mem_map.mp member
    exact ⟨entry.1, entry.2.owner, now, reason, rfl⟩
  | recoverLeases owner reason order =>
    rw [perform]
    refine ⟨rfl, rfl, fun _ known => known, List.forall_mem_nil _, fun item member => ?_,
      List.forall_mem_nil _⟩
    obtain ⟨entry, -, rfl⟩ := List.mem_map.mp member
    exact Or.inl rfl
  | recoverLease key reason =>
    simp only [perform]
    cases b.leases.lookup key with
    | none => exact Aside.of_undisturbed (Broker.Undisturbed.refl b)
    | some lease =>
      refine ⟨rfl, rfl, fun _ known => known, List.forall_mem_nil _, fun item member => ?_,
        List.forall_mem_nil _⟩
      exact Or.inr ⟨key, lease.owner, reason, List.mem_singleton.mp member⟩
  | register ring =>
    rw [perform]
    exact Aside.of_undisturbed (Broker.undisturbed_register ring)
  | reconstruct participant ring notifyPending =>
    rw [perform]
    exact Aside.of_undisturbed (Broker.undisturbed_reconstruct participant ring notifyPending)
  | attachPid participant =>
    rw [perform]
    exact Aside.of_undisturbed (Broker.undisturbed_modifyParticipant _ _)
  | reportDown participant order =>
    have same := Broker.undisturbed_reportDown (b := b) participant order
    rw [perform]
    refine ⟨same.words, same.waiters, same.known, ?_, ?_, ?_⟩ <;>
      simp only [Broker.reportDown] <;>
      cases b.participants participant with
      | none => simp
      | some record => dsimp only; split <;> simp [Event.quiet, Work.decides]
  | drainEventFd participant =>
    rw [perform]
    exact Aside.of_undisturbed (Broker.undisturbed_modifyParticipant _ _)
  | sendMessage participant payload sequence =>
    rw [perform]
    exact Aside.of_undisturbed
      ((Broker.undisturbed_modifyParticipant _ _).trans (Broker.undisturbed_modifyParticipant _ _))
  | sendDescriptor participant descriptor =>
    rw [perform]
    exact Aside.of_undisturbed (Broker.undisturbed_modifyParticipant _ _)
  | drainMailbox participant =>
    rw [perform]
    exact Aside.of_undisturbed (Broker.undisturbed_modifyParticipant _ _)
  | drainDescriptors participant =>
    rw [perform]
    exact Aside.of_undisturbed (Broker.undisturbed_modifyParticipant _ _)

end AgentC.Root1

import AgentC.Root1.Tenure

/-! When an expiry hits only the tenure that its lease was registered in. -/

namespace AgentC.Root1

def Work.Calm : Work → Prop
  | .handOff _ _ _ _ => False
  | .registerLease _ owner _ => owner ≠ 0
  | _ => True

/-- A section that ends a tenure only as its next access, and only while the owner still owns. -/
def Tending (b : Broker) : List Work → Prop
  | [] => True
  | item :: rest => (match item with
      | .handOff key owner _ _ => owner ≠ 0 ∧ b.owner key = owner
      | other => other.Calm) ∧ ∀ later ∈ rest, later.Calm

def Unbegun : Segment Work → Prop
  | .free item => ∃ key p, item = .tryAcquire key p ∨ item = .acquireFast key p
  | .locked work => ∀ item ∈ work, item.Calm

theorem tending_of_calm {work : List Work} (calm : ∀ item ∈ work, item.Calm) (b : Broker) :
    Tending b work := by
  cases work with
  | nil => trivial
  | cons item rest =>
    have first := calm item List.mem_cons_self
    refine ⟨?_, fun later member => calm later (List.mem_cons_of_mem _ member)⟩
    cases item with
    | handOff => exact first.elim
    | _ => exact first

variable {b : Broker} {past : List Event} {item : Work} {key : ResourceKey} {owner : ParticipantId}

theorem Aside.calm {out : Outcome Broker Work Event} (aside : Aside b out)
    (leases : ∀ item ∈ out.more, ∀ key owner expiresAtTick,
      item ≠ .registerLease key owner expiresAtTick) : ∀ item ∈ out.more, item.Calm := by
  intro item member
  rcases aside.more item member with other | ⟨key, owner, reason, rfl⟩
  · cases item with
    | registerLease key owner expiresAtTick => exact absurd rfl (leases _ member _ _ _)
    | handOff => cases other
    | _ => trivial
  · trivial

theorem more_ne_registerLease (b : Broker) (item : Work) : ∀ asked ∈ (perform b item).more,
    ∀ key owner expiresAtTick, asked ≠ .registerLease key owner expiresAtTick := by
  intro asked member key owner expiresAtTick same
  subst same
  cases item with
  | tryAcquire at_ p | acquireFast at_ p | retryAcquire at_ p =>
    rw [perform] at member
    split at member <;> simp at member
  | checkOwner at_ p =>
    rw [perform] at member
    split at member
    · simp at member
    · split at member <;> simp at member
  | enqueue | checkTenure | recoverLease | renewLease | registerLease | reportDown =>
    simp only [perform, Broker.renewLease, Broker.registerLease, Broker.reportDown] at member
    repeat' split at member
    all_goals simp at member
  | handOff at_ former cause reason =>
    rw [perform, (b.handOff_ends at_ former cause reason).1] at member
    cases member
  | heartbeatLeases | recoverLeases => simp [perform] at member
  | collectExpired | register | reconstruct | attachPid | drainEventFd | sendMessage |
    sendDescriptor | drainMailbox | drainDescriptors => cases member

/-- Tenures end only after their owner was looked at, in every run. -/
theorem tendingRules : Threads.Rules perform (fun _ _ => True) Tending Unbegun fun _ _ _ => True where
  enter := fun _ calm => tending_of_calm calm _
  free := by
    intro b past item _ fresh _
    obtain ⟨key, p, which⟩ := fresh
    refine ⟨trivial, ?_, ?_⟩
    · rcases which with rfl | rfl <;> rw [perform] <;> split <;> simp [Unbegun, Work.Calm]
    · -- Taking a free resource leaves every other owner in place.
      intro work tending
      have taken : (perform b item).shared = b ∨
          b.words key = 0 ∧ (perform b item).shared = b.setWord key p := by
        by_cases free : b.words key = 0
        · rcases which with rfl | rfl <;>
            · rw [perform, Broker.tryAcquireUnlocked_free free]
              exact Or.inr ⟨free, rfl⟩
        · rcases which with rfl | rfl <;>
            · rw [perform, Broker.tryAcquireUnlocked_taken free]
              exact Or.inl rfl
      rcases taken with same | ⟨free, same⟩
      · rw [same]
        exact tending
      · rw [same]
        cases work with
        | nil => trivial
        | cons next rest =>
          refine ⟨?_, tending.2⟩
          have first := tending.1
          cases next with
          | handOff at_ owner cause reason =>
            have apart : at_ ≠ key := fun equal => first.1 (by
              rw [← first.2, equal]
              exact (congrArg ownerOf free).trans ownerOf_zero)
            exact ⟨first.1, (Broker.owner_setWord_other apart p).trans first.2⟩
          | _ => exact first
  inside := by
    intro b past item work _ tending _
    have behind := tending.2
    cases decides : item.decides with
    | false =>
      have aside := perform_aside b decides
      refine ⟨trivial, fun segment member => ?_, tending_of_calm ?_ _⟩
      · obtain ⟨key, owner, now, reason, rfl⟩ := aside.later segment member
        intro only inside
        rw [List.mem_singleton.mp inside]
        trivial
      · intro next member
        rcases List.mem_append.mp member with asked | later
        · exact aside.calm (more_ne_registerLease b item) next asked
        · exact behind next later
    | true =>
      refine ⟨trivial, ?_, ?_⟩
      · -- Only the failure of the fast attempt leads to another section.
        cases item with
        | acquireFast key p => rw [perform]; split <;> simp [Unbegun, Work.Calm]
        | tryAcquire | retryAcquire => rw [perform]; split <;> exact List.forall_mem_nil _
        | checkOwner => rw [perform]; split <;> [skip; split] <;> exact List.forall_mem_nil _
        | enqueue | checkTenure => rw [perform]; split <;> exact List.forall_mem_nil _
        | handOff key owner cause reason =>
          rw [perform, (b.handOff_ends key owner cause reason).2]
          exact List.forall_mem_nil _
        | registerLease | renewLease | heartbeatLeases | collectExpired | recoverLeases |
          recoverLease | register | reconstruct | attachPid | reportDown | drainEventFd |
          sendMessage | sendDescriptor | drainMailbox | drainDescriptors => cases decides
      · cases item with
        | checkTenure key owner cause reason =>
          rw [perform]
          split
          · next owns => exact ⟨owns, behind⟩
          · exact tending_of_calm behind _
        | checkOwner key p =>
          rw [perform]
          split
          · exact tending_of_calm behind _
          · split
            · exact tending_of_calm behind _
            · exact ⟨trivial, behind⟩
        | retryAcquire key p =>
          rw [perform]
          split
          · exact tending_of_calm behind _
          · exact ⟨trivial, behind⟩
        | tryAcquire | acquireFast => rw [perform]; split <;> exact tending_of_calm behind _
        | enqueue => rw [perform]; split <;> exact tending_of_calm behind _
        | handOff key owner cause reason =>
          rw [perform, (b.handOff_ends key owner cause reason).1]
          exact tending_of_calm behind _
        | registerLease | renewLease | heartbeatLeases | collectExpired | recoverLeases |
          recoverLease | register | reconstruct | attachPid | reportDown | drainEventFd |
          sendMessage | sendDescriptor | drainMailbox | drainDescriptors => cases decides

theorem Leased.perform (leased : Leased b past) (tends : Tending b [item])
    (settled : item.Settled b) :
    Leased (Root1.perform b item).shared (past ++ (Root1.perform b item).events) := by
  have still : Leased b (past ++ []) := by rwa [List.append_nil]
  -- Most accesses change neither an owner nor the table.
  have idle : ∀ {c : Broker} {events : List Event}, c.leases = b.leases → c.words = b.words →
      (∀ event ∈ events, ∀ other, event.Leaves other) → Leased c (past ++ events) :=
    fun leases words leaves => leased.shrink (leases ▸ List.Sublist.refl _)
      (fun key _ _ => congrArg ownerOf (congrFun words key)) fun key _ _ event member =>
        leaves event member key
  cases item with
  | tryAcquire key p =>
    by_cases free : b.words key = 0
    · rw [Root1.perform, Broker.tryAcquireUnlocked_free free]
      exact leased.attempt free (List.forall_mem_nil _)
    · rw [Root1.perform, Broker.tryAcquireUnlocked_taken free]
      exact still
  | acquireFast key p | retryAcquire key p =>
    by_cases free : b.words key = 0
    · rw [Root1.perform, Broker.tryAcquireUnlocked_free free]
      exact leased.attempt free (by simp [Event.Leaves])
    · rw [Root1.perform, Broker.tryAcquireUnlocked_taken free]
      exact still
  | checkOwner key p =>
    rw [Root1.perform]
    split
    · exact idle rfl rfl (by simp [Event.Leaves])
    · split
      · exact idle rfl rfl (by simp [Event.Leaves])
      · exact still
  | enqueue key p =>
    -- Marking a word as contended keeps its owner.
    have marked : ∀ (c : Broker) (events : List Event), c.leases = b.leases → c.words = b.words →
        (∀ event ∈ events, ∀ other, event.Leaves other) →
        Leased (c.setWord key (b.words key ||| kContendedBit)) (past ++ events) := by
      intro c events leases words leaves
      refine leased.shrink (leases ▸ List.Sublist.refl _) (fun other lease member => ?_)
        fun other _ _ event member => leaves event member other
      by_cases same : other = key
      · rw [same, Broker.owner_setWord_same, ownerOf_mark]
        rfl
      · rw [Broker.owner_setWord_other same]
        exact congrArg ownerOf (congrFun words other)
    rw [Root1.perform]
    split
    · exact marked b _ rfl rfl (by simp [Event.Leaves])
    · exact marked _ _ rfl rfl (by simp [Event.Leaves])
  | checkTenure key owner cause reason =>
    rw [Root1.perform]
    split <;> exact still
  | handOff key owner cause reason =>
    obtain ⟨fewer, gone⟩ := Broker.leases_handOff reason settled.2.2
    obtain ⟨event, events, leaves, -⟩ := b.handOff_event key owner cause reason
    have apart : ∀ other lease, (other, lease) ∈ (b.handOff key owner cause reason).shared.leases →
        other ≠ key := fun other lease member same => gone lease (same ▸ member)
    rw [Root1.perform, events]
    refine leased.shrink fewer (fun other lease member => ?_) fun other lease member found only => ?_
    · exact b.owner_handOff_other (apart other lease member) owner cause reason
    · rw [List.mem_singleton.mp only]
      exact leaves other (apart other lease member)
  | registerLease key owner expiresAtTick =>
    rw [Root1.perform, Broker.registerLease]
    split
    · next owns =>
      exact leased.store tends.1 owns.2 (if_pos rfl) fun other apart => Ne.symm apart
    · exact still
  | renewLease key owner expiresAtTick =>
    rw [Root1.perform, Broker.renewLease]
    cases found : b.leases.lookup key with
    | none => exact still
    | some lease =>
      dsimp only
      split
      · next owns =>
        -- The table says that the lease was set in this tenure.
        obtain ⟨nonzero, -, due⟩ := leased.current key lease (Broker.mem_of_lookup found)
        refine leased.store (owns.1 ▸ nonzero) owns.2 ?_ fun other apart => Ne.symm apart
        show (if key = key then _ else _) = _
        rw [if_pos rfl, due]
        rfl
      · exact still
  | heartbeatLeases | recoverLeases => exact still
  | recoverLease key reason =>
    rw [Root1.perform]
    split <;> exact still
  | collectExpired nowTick reason order =>
    exact leased.shrink List.filter_sublist (fun _ _ _ => rfl) fun _ _ _ => List.forall_mem_nil _
  | register ring =>
    have same := Broker.undisturbed_register (b := b) ring
    exact idle same.leases same.words (List.forall_mem_nil _)
  | reconstruct participant ring notifyPending =>
    have same := Broker.undisturbed_reconstruct (b := b) participant ring notifyPending
    exact idle same.leases same.words (List.forall_mem_nil _)
  | reportDown participant order =>
    have same := Broker.undisturbed_reportDown (b := b) participant order
    refine idle same.leases same.words ?_
    rw [Root1.perform, Broker.reportDown]
    cases b.participants participant with
    | none => exact List.forall_mem_nil _
    | some record =>
      dsimp only
      split
      · exact List.forall_mem_nil _
      · simp [Event.Leaves]
  | attachPid | drainEventFd | sendDescriptor | drainMailbox | drainDescriptors =>
    have same := Broker.undisturbed_modifyParticipant (b := b)
    exact idle (same _ _).leases (same _ _).words (List.forall_mem_nil _)
  | sendMessage participant payload sequence =>
    have same : Broker.Undisturbed b (Root1.perform b
        (.sendMessage participant payload sequence)).shared :=
      (Broker.undisturbed_modifyParticipant _ _).trans (Broker.undisturbed_modifyParticipant _ _)
    exact idle same.leases same.words (List.forall_mem_nil _)

theorem Collected.perform {nowTick : UInt64} (collected : Collected b past key owner nowTick)
    (spares : item.Spares key) :
    Collected (Root1.perform b item).shared (past ++ (Root1.perform b item).events) key owner
      nowTick := by
  -- It is enough that the owner, the missing lease and the deadline stay.
  have stays : ∀ {c : Broker} {events : List Event}, c.owner key = b.owner key →
      (∀ lease, (key, lease) ∈ c.leases → (key, lease) ∈ b.leases) →
      (∀ event ∈ events, event.Leaves key) → Collected c (past ++ events) key owner nowTick :=
    fun owns fewer leaves => ⟨collected.nonzero, owns.trans collected.owns,
      fun lease member => collected.gone lease (fewer lease member),
      by rw [deadline_leaves leaves]; exact collected.due⟩
  have idle : Collected b (past ++ []) key owner nowTick :=
    stays rfl (fun _ member => member) (List.forall_mem_nil _)
  have taken : ∀ {at_ : ResourceKey} {p : ParticipantId} {answers : List Event}, b.words at_ = 0 →
      (∀ event ∈ answers, event.Leaves key) →
      Collected (b.setWord at_ p) (past ++ .acquired at_ p :: answers) key owner nowTick := by
    intro at_ p answers free quiet
    have apart : key ≠ at_ := fun same => collected.nonzero (by
      rw [← collected.owns, same]
      exact (congrArg ownerOf free).trans ownerOf_zero)
    refine stays (Broker.owner_setWord_other apart p) (fun _ member => member) ?_
    intro event member
    rcases List.mem_cons.mp member with rfl | answer
    · exact Ne.symm apart
    · exact quiet event answer
  have stored : ∀ {at_ : ResourceKey} {lease : LeaseRecord} {event : Event}, at_ ≠ key →
      event.Leaves key → Collected (b.setLease at_ lease) (past ++ [event]) key owner nowTick := by
    intro at_ lease event apart leaves
    refine stays rfl (fun other member => ?_) (by simpa using leaves)
    rcases List.mem_cons.mp member with new | old
    · exact absurd (congrArg Prod.fst new).symm apart
    · exact (List.mem_filter.mp old).1
  cases item with
  | tryAcquire at_ p =>
    by_cases free : b.words at_ = 0
    · rw [Root1.perform, Broker.tryAcquireUnlocked_free free]
      exact taken free (List.forall_mem_nil _)
    · rw [Root1.perform, Broker.tryAcquireUnlocked_taken free]
      exact idle
  | acquireFast at_ p | retryAcquire at_ p =>
    by_cases free : b.words at_ = 0
    · rw [Root1.perform, Broker.tryAcquireUnlocked_free free]
      exact taken free (by simp [Event.Leaves])
    · rw [Root1.perform, Broker.tryAcquireUnlocked_taken free]
      exact idle
  | checkOwner at_ p =>
    rw [Root1.perform]
    split
    · exact stays rfl (fun _ member => member) (by simp [Event.Leaves])
    · split
      · exact stays rfl (fun _ member => member) (by simp [Event.Leaves])
      · exact idle
  | enqueue at_ p =>
    have marked : ∀ c : Broker, c.words = b.words →
        (c.setWord at_ (b.words at_ ||| kContendedBit)).owner key = b.owner key := by
      intro c words
      by_cases same : key = at_
      · rw [same, Broker.owner_setWord_same, ownerOf_mark]
        rfl
      · rw [Broker.owner_setWord_other same]
        exact congrArg ownerOf (congrFun words key)
    rw [Root1.perform]
    split
    · exact stays (marked b rfl) (fun _ member => member) (by simp [Event.Leaves])
    · exact stays (marked _ rfl) (fun _ member => member) (by simp [Event.Leaves])
  | checkTenure at_ former cause reason =>
    rw [Root1.perform]
    split <;> exact idle
  | handOff at_ former cause reason =>
    obtain ⟨event, events, leaves, -⟩ := b.handOff_event at_ former cause reason
    have fewer : (b.handOff at_ former cause reason).shared.leases.Sublist b.leases := by
      obtain ⟨_, _, -, -, -, -, same, -⟩ | ⟨-, -, -, -, same, -⟩ :=
        b.handOff_cases at_ former cause reason <;> rw [same] <;> split
      all_goals first | exact List.Sublist.refl _ | exact List.filter_sublist
    rw [Root1.perform, events]
    refine stays (b.owner_handOff_other (Ne.symm spares) former cause reason)
      (fun _ member => fewer.subset member) fun found only => ?_
    rw [List.mem_singleton.mp only]
    exact leaves key (Ne.symm spares)
  | registerLease at_ former expiresAtTick =>
    rw [Root1.perform, Broker.registerLease]
    split
    · exact stored spares spares
    · exact idle
  | renewLease at_ former expiresAtTick =>
    rw [Root1.perform, Broker.renewLease]
    cases found : b.leases.lookup at_ with
    | none => exact idle
    | some lease =>
      -- The resource has no lease that could be moved.
      have apart : at_ ≠ key := fun same =>
        collected.gone lease (same ▸ Broker.mem_of_lookup found)
      dsimp only
      split
      · exact stored apart apart
      · exact idle
  | heartbeatLeases | recoverLeases => exact idle
  | recoverLease at_ reason =>
    rw [Root1.perform]
    split <;> exact idle
  | collectExpired now reason order =>
    exact stays rfl (fun _ member => (List.mem_filter.mp member).1) (List.forall_mem_nil _)
  | register ring =>
    have same := Broker.undisturbed_register (b := b) ring
    exact stays (congrArg ownerOf (congrFun same.words key))
      (fun _ member => same.leases ▸ member) (List.forall_mem_nil _)
  | reconstruct participant ring notifyPending =>
    have same := Broker.undisturbed_reconstruct (b := b) participant ring notifyPending
    exact stays (congrArg ownerOf (congrFun same.words key))
      (fun _ member => same.leases ▸ member) (List.forall_mem_nil _)
  | reportDown participant order =>
    have same := Broker.undisturbed_reportDown (b := b) participant order
    refine stays (congrArg ownerOf (congrFun same.words key))
      (fun _ member => same.leases ▸ member) ?_
    rw [Root1.perform, Broker.reportDown]
    cases b.participants participant with
    | none => exact List.forall_mem_nil _
    | some record =>
      dsimp only
      split
      · exact List.forall_mem_nil _
      · simp [Event.Leaves]
  | attachPid | drainEventFd | sendDescriptor | drainMailbox | drainDescriptors =>
    have same := Broker.undisturbed_modifyParticipant (b := b)
    exact stays (congrArg ownerOf (congrFun (same _ _).words key))
      (fun _ member => (same _ _).leases ▸ member) (List.forall_mem_nil _)
  | sendMessage participant payload sequence =>
    have same : Broker.Undisturbed b (Root1.perform b
        (.sendMessage participant payload sequence)).shared :=
      (Broker.undisturbed_modifyParticipant _ _).trans (Broker.undisturbed_modifyParticipant _ _)
    exact stays (congrArg ownerOf (congrFun same.words key))
      (fun _ member => same.leases ▸ member) (List.forall_mem_nil _)

/-- A program that will look whether the owner of an expired lease still owns the resource. -/
def Ahead (program : List (Segment Work)) (key : ResourceKey) (owner : ParticipantId)
    (nowTick : UInt64) : Prop :=
  ∃ work reason, .locked work ∈ program ∧ .checkTenure key owner (.expired nowTick) reason ∈ work

/-- What a sweep takes out of the table, and will look at, belongs to the current tenure. -/
theorem Leased.collected {nowTick : UInt64} (leased : Leased b past)
    (ahead : Ahead (Root1.perform b item).later key owner nowTick) :
    Collected (Root1.perform b item).shared (past ++ (Root1.perform b item).events) key owner
      nowTick := by
  obtain ⟨work, reason, later, inside⟩ := ahead
  cases item with
  | collectExpired now text order =>
    rw [Root1.perform] at later
    obtain ⟨entry, expired, same⟩ := List.mem_map.mp later
    obtain rfl := Segment.locked.inj same
    cases List.mem_singleton.mp inside
    obtain ⟨visited, past_due⟩ := List.mem_filter.mp expired
    have member := Broker.mem_of_mem_leasesInOrder visited
    obtain ⟨nonzero, owns, due⟩ := leased.current entry.1 entry.2 member
    refine ⟨nonzero, owns, fun lease kept => ?_, entry.2.expiresAtTick, ?_, by simpa using past_due⟩
    · -- The table has one lease for each resource, and this one was taken out.
      obtain ⟨stayed, notDue⟩ := List.mem_filter.mp kept
      have same := List.inj_on_of_nodup_map leased.distinct stayed member rfl
      rw [← same] at past_due
      simp only [decide_eq_true_eq] at past_due notDue
      exact notDue past_due
    · show deadline entry.1 (past ++ []) = _
      rw [List.append_nil]
      exact due
  | acquireFast at_ p =>
    rw [Root1.perform] at later
    split at later
    · cases later
    · cases List.mem_singleton.mp later
      simp at inside
  | tryAcquire | retryAcquire =>
    rw [Root1.perform] at later
    split at later <;> cases later
  | handOff at_ former cause text =>
    rw [Root1.perform, (b.handOff_ends at_ former cause text).2] at later
    cases later
  | checkOwner | enqueue | checkTenure | registerLease | renewLease | recoverLease | reportDown =>
    simp only [Root1.perform, Broker.renewLease, Broker.registerLease, Broker.reportDown] at later
    repeat' split at later
    all_goals cases later
  | heartbeatLeases | recoverLeases | register | reconstruct | attachPid | drainEventFd |
    sendMessage | sendDescriptor | drainMailbox | drainDescriptors => cases later

theorem more_not_ahead (b : Broker) (item : Work) : ∀ asked ∈ (perform b item).more,
    ∀ key owner nowTick reason, asked ≠ .checkTenure key owner (.expired nowTick) reason := by
  intro asked member key owner nowTick reason same
  subst same
  cases decides : item.decides with
  | false =>
    rcases (perform_aside b decides).more _ member with other | ⟨_, _, _, abandoned⟩
    · cases other
    · cases abandoned
  | true =>
    cases item with
    | tryAcquire | acquireFast | retryAcquire =>
      rw [perform] at member
      split at member <;> simp at member
    | checkOwner | enqueue | checkTenure =>
      simp only [perform] at member
      repeat' split at member
      all_goals simp at member
    | handOff at_ former cause text =>
      rw [perform, (b.handOff_ends at_ former cause text).1] at member
      cases member
    | registerLease | renewLease | heartbeatLeases | collectExpired | recoverLeases |
      recoverLease | register | reconstruct | attachPid | reportDown | drainEventFd |
      sendMessage | sendDescriptor | drainMailbox | drainDescriptors => cases decides

theorem expiry_of_not_handOff
    (other : ∀ key owner cause reason, item ≠ .handOff key owner cause reason) :
    ∀ event ∈ (perform b item).events, event.expiry = none := by
  intro event member
  cases decides : item.decides with
  | false =>
    have quiet := (perform_aside b decides).quiet event member
    cases event with
    | granted | freed => cases quiet
    | _ => rfl
  | true =>
    cases item with
    | tryAcquire | acquireFast | retryAcquire | checkOwner | enqueue | checkTenure =>
      simp only [perform] at member
      repeat' split at member
      all_goals simp only [List.mem_cons, List.not_mem_nil, or_false] at member
      all_goals rcases member with rfl | rfl <;> rfl
    | handOff key owner cause reason => exact absurd rfl (other key owner cause reason)
    | registerLease | renewLease | heartbeatLeases | collectExpired | recoverLeases |
      recoverLease | register | reconstruct | attachPid | reportDown | drainEventFd |
      sendMessage | sendDescriptor | drainMailbox | drainDescriptors => cases decides

theorem Timely.perform (timely : Timely past)
    (due : ∀ key owner nowTick reason, item = .handOff key owner (.expired nowTick) reason →
      ∃ due, deadline key past = some due ∧ due ≤ nowTick) :
    Timely (past ++ (Root1.perform b item).events) := by
  cases item with
  | handOff key owner cause reason =>
    obtain ⟨event, events, -, expiry⟩ := b.handOff_event key owner cause reason
    rw [Root1.perform, events]
    refine timely.append [] (List.forall_mem_nil _) fun at_ nowTick found => ?_
    obtain ⟨rfl, rfl⟩ := expiry at_ nowTick found
    exact due at_ owner nowTick reason rfl
  | _ => exact timely.append_none (expiry_of_not_handOff (by simp))

theorem unbegun_body (op : BrokerCall) : ∀ segment ∈ op.body, Unbegun segment := by
  have guarded : ∀ {argument : ParticipantId} {work : List Work},
      (argument ≠ 0 → ∀ item ∈ work, item.Calm) →
      ∀ segment ∈ BrokerCall.guarded argument work, Unbegun segment := by
    intro argument work calm segment member
    unfold BrokerCall.guarded at member
    split at member
    · cases member
    · next nonzero =>
      rw [List.mem_singleton.mp member]
      exact calm nonzero
  cases op with
  | tryAcquire key p =>
    simp only [BrokerCall.body]
    split <;> simp [Unbegun]
  | acquireOrQueue key p =>
    simp only [BrokerCall.body]
    split <;> simp [Unbegun]
  | reconstructParticipantFromSlab p ring notifyPending =>
    cases ring with
    | none => exact List.forall_mem_nil _
    | some ring => exact guarded (by simp [Work.Calm])
  | attachParticipantPid p opened =>
    simp only [BrokerCall.body]
    split
    · exact guarded (by simp [Work.Calm])
    · exact List.forall_mem_nil _
  | pollReadyParticipants events order =>
    simp only [BrokerCall.body]
    split
    · exact List.forall_mem_nil _
    · intro segment member
      rw [List.mem_singleton.mp member]
      intro item among
      obtain ⟨event, -, rfl⟩ := List.mem_map.mp among
      split <;> trivial
  | registerLease key owner expiresAtTick =>
    exact guarded fun nonzero item only => by
      rw [List.mem_singleton.mp only]
      exact nonzero
  | release | recoverAbandonedResource | renewLease | heartbeatParticipant =>
    exact guarded (by simp [Work.Calm])
  | registerParticipant | registerParticipantOnSlab | recoverExpiredLeases |
    recoverParticipantLeases | sendMailboxMessage | sendMailboxDescriptor | drainMailbox |
    drainMailboxDescriptors =>
    simp [BrokerCall.body, Unbegun, Work.Calm]

theorem body_not_ahead (op : BrokerCall) (key : ResourceKey) (owner : ParticipantId)
    (nowTick : UInt64) : ¬ Ahead op.body key owner nowTick := by
  rintro ⟨work, reason, member, inside⟩
  cases op with
  | pollReadyParticipants events order =>
    simp only [BrokerCall.body] at member
    split at member
    · cases member
    · obtain rfl := Segment.locked.inj (List.mem_singleton.mp member)
      obtain ⟨event, -, same⟩ := List.mem_map.mp inside
      split at same <;> cases same
  | reconstructParticipantFromSlab p ring notifyPending =>
    cases ring with
    | none => cases member
    | some ring =>
      simp only [BrokerCall.body, BrokerCall.guarded] at member
      split at member
      · cases member
      · obtain rfl := Segment.locked.inj (List.mem_singleton.mp member)
        simp at inside
  | attachParticipantPid p opened =>
    simp only [BrokerCall.body, BrokerCall.guarded] at member
    split at member
    · split at member
      · cases member
      · obtain rfl := Segment.locked.inj (List.mem_singleton.mp member)
        simp at inside
    · cases member
  | tryAcquire | acquireOrQueue =>
    simp only [BrokerCall.body] at member
    split at member
    · cases member
    · cases List.mem_singleton.mp member
  | release | recoverAbandonedResource | registerLease | renewLease | heartbeatParticipant =>
    simp only [BrokerCall.body, BrokerCall.guarded] at member
    split at member
    · cases member
    · obtain rfl := Segment.locked.inj (List.mem_singleton.mp member)
      simp at inside
  | registerParticipant | registerParticipantOnSlab | recoverExpiredLeases |
    recoverParticipantLeases | sendMailboxMessage | sendMailboxDescriptor | drainMailbox |
    drainMailboxDescriptors =>
    obtain rfl := Segment.locked.inj (List.mem_singleton.mp member)
    simp at inside

variable {τ : Type} [DecidableEq τ]

/-- The threads, with leases and sweeps that belong to the current tenures. -/
structure Tended (s : System τ) : Prop where
  safe : Threads.Safe (fun _ _ => True) Tending Unbegun s
  leased : Leased s.shared s.trace
  timely : Timely s.trace
  ahead : ∀ t key owner nowTick, Ahead (s.program t) key owner nowTick →
    Collected s.shared s.trace key owner nowTick
  acting : ∀ t key owner nowTick reason work rest, s.holder = some t →
    s.program t = .locked (.handOff key owner (.expired nowTick) reason :: work) :: rest →
    Collected s.shared s.trace key owner nowTick

/--
A turn that does not reach the defect: no tenure ends and no lease is registered on a resource whose
collected lease a sweep still has to look at, and no owner releases a resource with a lease on it.
-/
def SoundLease (s : System τ) : Turn τ BrokerCall → Prop
  | .call _ _ => True
  | .advance t => ∀ item, s.current t = some item →
    (∀ u key owner nowTick, Ahead (s.program u) key owner nowTick → item.Spares key) ∧
    ∀ key owner reason, item = .handOff key owner .released reason →
      ∀ lease, (key, lease) ∉ s.shared.leases

theorem checkTenure_of_more_handOff {cause : Cause} {reason : Bytes}
    (asked : .handOff key owner cause reason ∈ (perform b item).more) :
    item = .checkTenure key owner cause reason := by
  cases decides : item.decides with
  | false =>
    rcases (perform_aside b decides).more _ asked with other | ⟨_, _, _, same⟩
    · cases other
    · cases same
  | true =>
    cases item with
    | checkTenure at_ former why text =>
      rw [perform] at asked
      split at asked
      · cases List.mem_singleton.mp asked
        rfl
      · cases asked
    | tryAcquire | acquireFast | retryAcquire =>
      rw [perform] at asked
      split at asked <;> simp at asked
    | checkOwner | enqueue =>
      simp only [perform] at asked
      repeat' split at asked
      all_goals simp at asked
    | handOff at_ former why text =>
      rw [perform, (b.handOff_ends at_ former why text).1] at asked
      cases asked
    | registerLease | renewLease | heartbeatLeases | collectExpired | recoverLeases |
      recoverLease | register | reconstruct | attachPid | reportDown | drainEventFd |
      sendMessage | sendDescriptor | drainMailbox | drainDescriptors => cases decides

namespace Tended

omit [DecidableEq τ] in
theorem idle : Tended (Threads.idle Broker.initial : System τ) where
  safe := Threads.safe_idle trivial
  leased := Leased.initial
  timely := fun before event after key nowTick split => by simp [Threads.idle] at split
  ahead := fun t key owner nowTick ahead => by
    obtain ⟨_, _, member, -⟩ := ahead
    cases member
  acting := fun t _ _ _ _ _ _ held => nomatch held

variable {s : System τ}

variable {t : τ} {item : Work}

theorem access (tended : Tended s) (now : s.current t = some item) (tends : Tending s.shared [item])
    (sound : SoundLease s (.advance t))
    (acts : ∀ key owner nowTick reason, item = .handOff key owner (.expired nowTick) reason →
      Collected s.shared s.trace key owner nowTick) :
    Leased (perform s.shared item).shared (s.trace ++ (perform s.shared item).events) ∧
    Timely (s.trace ++ (perform s.shared item).events) ∧
    (∀ u key owner nowTick, Ahead (s.program u) key owner nowTick →
      Collected (perform s.shared item).shared (s.trace ++ (perform s.shared item).events) key
        owner nowTick) := by
  obtain ⟨spares, released⟩ := sound item now
  refine ⟨tended.leased.perform tends ?_, tended.timely.perform ?_, ?_⟩
  · -- A release finds no lease, by the condition.
    cases item with
    | handOff key owner cause reason =>
      refine ⟨tends.1.1, tends.1.2, fun given => ?_⟩
      subst given
      exact released key owner reason rfl
    | _ => trivial
  · exact fun key owner nowTick reason same => (acts key owner nowTick reason same).due
  · intro u key owner nowTick ahead
    exact (tended.ahead u key owner nowTick ahead).perform (spares u key owner nowTick ahead)

theorem call (tended : Tended s) {op : BrokerCall} (begun : s.program t = [])
    (safe : Threads.Safe (fun _ _ => True) Tending Unbegun
      { s with program := Function.update s.program t op.body }) :
    Tended { s with program := Function.update s.program t op.body } := by
  refine ⟨safe, tended.leased, tended.timely, fun u key owner nowTick ahead => ?_, ?_⟩
  · by_cases same : u = t
    · subst same
      simp only [Function.update_self] at ahead
      exact absurd ahead (body_not_ahead op key owner nowTick)
    · simp only [Function.update_of_ne same] at ahead
      exact tended.ahead u key owner nowTick ahead
  · intro u key owner nowTick reason work rest held at_
    -- The thread that calls is idle, so it is not the holder.
    have other : u ≠ t := fun same => by
      obtain ⟨_, _, begun', -⟩ := tended.safe.inside u held
      rw [same, begun] at begun'
      cases begun'
    simp only [Function.update_of_ne other] at at_
    exact tended.acting u key owner nowTick reason work rest held at_

theorem attempt (tended : Tended s) {rest : List (Segment Work)}
    (begun : s.program t = .free item :: rest) (sound : SoundLease s (.advance t))
    (safe : Threads.Safe (fun _ _ => True) Tending Unbegun
      (s.record t (perform s.shared item) ((perform s.shared item).later ++ rest))) :
    Tended (s.record t (perform s.shared item) ((perform s.shared item).later ++ rest)) := by
  have apart : s.holder ≠ some t := fun mine => by
    obtain ⟨_, _, begun', -⟩ := tended.safe.inside t mine
    rw [begun] at begun'
    cases begun'
  have unbegun := tended.safe.waiting t apart
  rw [begun] at unbegun
  obtain ⟨at_, p, which⟩ := unbegun _ List.mem_cons_self
  have calm : ∀ asked ∈ [item], asked.Calm := by
    rcases which with rfl | rfl <;> simp [Work.Calm]
  obtain ⟨leased, timely, still⟩ := tended.access (by simp only [Threads.current, begun])
    (tending_of_calm calm _) sound
    fun _ _ _ _ same => by rcases which with rfl | rfl <;> cases same
  refine ⟨safe, leased, timely, fun u key owner nowTick ahead => ?_, ?_⟩
  · by_cases same : u = t
    · subst same
      simp only [Threads.record, Function.update_self] at ahead
      obtain ⟨work, reason, member, inside⟩ := ahead
      rcases List.mem_append.mp member with new | old
      · exact tended.leased.collected ⟨work, reason, new, inside⟩
      · refine still u key owner nowTick ⟨work, reason, ?_, inside⟩
        rw [begun]
        exact List.mem_cons_of_mem _ old
    · simp only [Threads.record, Function.update_of_ne same] at ahead
      exact still u key owner nowTick ahead
  · intro u key owner nowTick reason work rest' held at_
    have other : u ≠ t := fun same => apart (same ▸ held)
    simp only [Threads.record, Function.update_of_ne other] at at_
    refine (tended.acting u key owner nowTick reason work rest' held at_).perform ?_
    rcases which with rfl | rfl <;> trivial

/-- An access under the mutex ends a tenure only when it should. -/
theorem inside (tended : Tended s) {work : List Work} {rest : List (Segment Work)}
    (begun : s.program t = .locked (item :: work) :: rest) (held : s.holder = some t)
    (sound : SoundLease s (.advance t)) (safe : Threads.Safe (fun _ _ => True) Tending Unbegun
      (s.record t (perform s.shared item) (.locked ((perform s.shared item).more ++ work) ::
        ((perform s.shared item).later ++ rest)))) :
    Tended (s.record t (perform s.shared item) (.locked ((perform s.shared item).more ++ work) ::
      ((perform s.shared item).later ++ rest))) := by
  obtain ⟨work', rest', begun', tending, -⟩ := tended.safe.inside t held
  rw [begun] at begun'
  cases begun'
  obtain ⟨leased, timely, still⟩ := tended.access
    (by simp only [Threads.current, begun, held, if_true])
    ⟨tending.1, List.forall_mem_nil _⟩ sound fun key owner nowTick reason same =>
      tended.acting t key owner nowTick reason work rest held (same ▸ begun)
  refine ⟨safe, leased, timely, fun u key owner nowTick ahead => ?_, ?_⟩
  · by_cases same : u = t
    · subst same
      simp only [Threads.record, Function.update_self] at ahead
      obtain ⟨section_, reason, member, inside⟩ := ahead
      rcases List.mem_cons.mp member with first | tail
      · -- The section goes on with what was ahead before.
        obtain rfl := Segment.locked.inj first
        rcases List.mem_append.mp inside with asked | later
        · exact absurd rfl (more_not_ahead s.shared item _ asked key owner nowTick reason)
        · refine still u key owner nowTick ⟨item :: work, reason, ?_, List.mem_cons_of_mem _ later⟩
          rw [begun]
          exact List.mem_cons_self
      · rcases List.mem_append.mp tail with new | old
        · exact tended.leased.collected ⟨section_, reason, new, inside⟩
        · refine still u key owner nowTick ⟨section_, reason, ?_, inside⟩
          rw [begun]
          exact List.mem_cons_of_mem _ old
    · simp only [Threads.record, Function.update_of_ne same] at ahead
      exact still u key owner nowTick ahead
  · intro u key owner nowTick reason next rest' mine at_
    have same : t = u := Option.some.inj (held.symm.trans mine)
    subst same
    simp only [Threads.record, Function.update_self] at at_
    have sections := Segment.locked.inj (List.cons.inj at_).1
    -- The end of a tenure comes next only after the look at its owner.
    cases asked : (perform s.shared item).more with
    | nil =>
      rw [asked, List.nil_append] at sections
      have calm := tending.2 (.handOff key owner (.expired nowTick) reason)
        (sections ▸ List.mem_cons_self)
      exact calm.elim
    | cons first others =>
      rw [asked, List.cons_append] at sections
      obtain ⟨rfl, -⟩ := List.cons.inj sections
      have looked := checkTenure_of_more_handOff (asked ▸ List.mem_cons_self)
      refine still t key owner nowTick ⟨item :: work, reason, ?_, looked ▸ List.mem_cons_self⟩
      rw [begun]
      exact List.mem_cons_self

theorem step (tended : Tended s) {turn : Turn τ BrokerCall} {next : System τ}
    (sound : SoundLease s turn) (stepped : s.step turn = some next) : Tended next := by
  have conforms : Threads.Conforms BrokerCall.body Unbegun (fun _ _ _ => True) s turn := by
    cases turn with
    | call t op => exact unbegun_body op
    | advance t => exact fun _ _ => trivial
  have safe := tendingRules.step_safe tended.safe conforms stepped
  obtain ⟨t, op, rfl, begun, rfl⟩ | ⟨t, item, rest, rfl, begun, rfl⟩ |
    ⟨t, work, rest, rfl, begun, held, rfl⟩ | ⟨t, rest, rfl, begun, held, rfl⟩ |
    ⟨t, item, work, rest, rfl, begun, held, rfl⟩ := Threads.step_cases stepped
  · exact tended.call begun safe
  · exact tended.attempt begun sound safe
  · -- The mutex is taken: the section it opens cannot begin with the end of a tenure.
    refine ⟨safe, tended.leased, tended.timely, tended.ahead, ?_⟩
    intro u key owner nowTick reason next rest' mine at_
    have same : t = u := Option.some.inj mine
    subst same
    have unbegun := tended.safe.waiting t (by rw [held]; exact nofun)
    rw [show s.program t = _ from at_] at unbegun
    exact (unbegun _ List.mem_cons_self _ List.mem_cons_self).elim
  · -- The mutex is given back: what is ahead was ahead before.
    refine ⟨safe, tended.leased, tended.timely, fun u key owner nowTick ahead => ?_,
      fun u _ _ _ _ _ _ mine => nomatch mine⟩
    by_cases same : u = t
    · subst same
      simp only [Function.update_self] at ahead
      obtain ⟨work, reason, member, inside⟩ := ahead
      refine tended.ahead u key owner nowTick ⟨work, reason, ?_, inside⟩
      rw [begun]
      exact List.mem_cons_of_mem _ member
    · simp only [Function.update_of_ne same] at ahead
      exact tended.ahead u key owner nowTick ahead
  · exact tended.inside begun held sound safe

end Tended

end AgentC.Root1

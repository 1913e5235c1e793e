import AgentC.Root1.Handoff

/-! Exclusive ownership and first-come handoff in every run of any number of threads. -/

namespace AgentC.Root1

theorem attempt_ordered {b : Broker} {past : List Event} {item : Work} {key : ResourceKey}
    {p : ParticipantId} (which : item = .tryAcquire key p ∨ item = .acquireFast key p)
    (nonzero : p ≠ 0) (small : p < kOwnerMask) (ordered : AllOrdered b past) :
    AllOrdered (perform b item).shared (past ++ (perform b item).events) ∧
      (∀ segment ∈ (perform b item).later, Fresh segment) ∧ (perform b item).more = [] ∧
      ((perform b item).shared = b ∨
        b.words key = 0 ∧ (perform b item).shared = b.setWord key p) := by
  -- The two differ in what they answer, and in what follows a failure.
  rcases which with rfl | rfl
  · by_cases free : b.words key = 0
    · rw [perform, Broker.tryAcquireUnlocked_free free]
      exact ⟨ordered.acquired free nonzero small, List.forall_mem_nil _, rfl, Or.inr ⟨free, rfl⟩⟩
    · rw [perform, Broker.tryAcquireUnlocked_taken free]
      exact ⟨(List.append_nil past).symm ▸ ordered, List.forall_mem_nil _, rfl, Or.inl rfl⟩
  · by_cases free : b.words key = 0
    · rw [perform, Broker.tryAcquireUnlocked_free free]
      exact ⟨ordered.acquiredAnswered free nonzero small, List.forall_mem_nil _, rfl,
        Or.inr ⟨free, rfl⟩⟩
    · rw [perform, Broker.tryAcquireUnlocked_taken free]
      refine ⟨(List.append_nil past).symm ▸ ordered, fun segment member => ?_, rfl, Or.inl rfl⟩
      rw [List.mem_singleton.mp member]
      intro item only
      rw [List.mem_singleton.mp only]
      exact ⟨nonzero, small⟩

theorem rules : Threads.Rules perform AllOrdered Ready Fresh fun _ _ _ => True where
  enter := fun _ fresh => ready_of_anytime fresh _
  free := by
    intro b past item ordered fresh _
    obtain ⟨key, p, which, nonzero, small⟩ := fresh
    obtain ⟨kept, later, -, same | ⟨free, taken⟩⟩ := attempt_ordered which nonzero small ordered
    · exact ⟨kept, later, fun work ready => by rw [same]; exact ready⟩
    · exact ⟨kept, later, fun work ready => by rw [taken]; exact ready.setWord free p⟩
  inside := by
    intro b past item work ordered ready _
    have due := ready.1
    have behind : ∀ later ∈ work, later.Anytime := ready.2
    have goesOn := fun c => ready_of_anytime behind c
    cases decides : item.decides with
    | false =>
      -- The access reads no queue and decides no owner.
      have aside := perform_aside b decides
      refine ⟨ordered.aside aside, fun segment member => ?_, ready_of_anytime ?_ _⟩
      · obtain ⟨key, owner, now, reason, rfl⟩ := aside.later segment member
        intro item only
        rw [List.mem_singleton.mp only]
        trivial
      · intro next member
        rcases List.mem_append.mp member with asked | later
        · rcases aside.more next asked with other | ⟨key, owner, reason, rfl⟩
          · exact Work.anytime_of_not_decides other
          · trivial
        · exact behind next later
    | true =>
      cases item with
      | tryAcquire key p =>
        obtain ⟨kept, later, more, -⟩ := attempt_ordered (Or.inl rfl) due.1 due.2 ordered
        rw [more]
        exact ⟨kept, later, goesOn _⟩
      | acquireFast key p =>
        obtain ⟨kept, later, more, -⟩ := attempt_ordered (Or.inr rfl) due.1 due.2 ordered
        rw [more]
        exact ⟨kept, later, goesOn _⟩
      | checkOwner key p =>
        rw [perform]
        split
        · exact ⟨ordered.answered (by decide), List.forall_mem_nil _, goesOn _⟩
        · next valid =>
          split
          · exact ⟨ordered.answered (by decide), List.forall_mem_nil _, goesOn _⟩
          · -- The participant is registered, and its second attempt comes next.
            rw [List.append_nil]
            exact ⟨ordered, List.forall_mem_nil _, ⟨by simpa using valid, due⟩, behind⟩
      | retryAcquire key p =>
        obtain ⟨valid, nonzero, small⟩ := due
        simp only [perform, Broker.tryAcquireUnlocked]
        by_cases free : b.words key = 0
        · simp only [if_pos free]
          exact ⟨ordered.acquiredAnswered free nonzero small, List.forall_mem_nil _, goesOn _⟩
        · -- The word names an owner, who cannot leave while this thread holds the mutex.
          simp only [if_neg free, List.append_nil]
          exact ⟨ordered, List.forall_mem_nil _,
            ⟨fun unowned => free ((ordered key).clean unowned), valid, nonzero, small⟩, behind⟩
      | enqueue key p =>
        obtain ⟨owned, valid, nonzero, small⟩ := due
        refine ⟨ordered.enqueue owned valid nonzero small, ?_, ?_⟩
        · simp only [perform]
          split <;> exact List.forall_mem_nil _
        · simp only [perform]
          split <;> exact goesOn _
      | checkTenure key owner cause reason =>
        rw [perform]
        split
        · next owns =>
          rw [List.append_nil]
          exact ⟨ordered, List.forall_mem_nil _, owns, behind⟩
        · rw [List.append_nil]
          exact ⟨ordered, List.forall_mem_nil _, goesOn _⟩
      | handOff key owner cause reason =>
        obtain ⟨more, later⟩ := b.handOff_ends key owner cause reason
        rw [perform, more, later]
        exact ⟨ordered.handOff due.1 due.2 cause reason, List.forall_mem_nil _, goesOn _⟩
      | registerLease | renewLease | heartbeatLeases | collectExpired | recoverLeases |
        recoverLease | register | reconstruct | attachPid | reportDown | drainEventFd |
        sendMessage | sendDescriptor | drainMailbox | drainDescriptors => cases decides

def BrokerCall.Obliged : BrokerCall → Prop
  | .tryAcquire _ participant | .acquireOrQueue _ participant => participant < kOwnerMask
  | _ => True

def Obliged {τ : Type} : Turn τ BrokerCall → Prop
  | .call _ op => op.Obliged
  | .advance _ => True

theorem fresh_guarded {argument : ParticipantId} {work : List Work}
    (anytime : ∀ item ∈ work, item.Anytime) :
    ∀ segment ∈ BrokerCall.guarded argument work, Fresh segment := by
  unfold BrokerCall.guarded
  split
  · exact List.forall_mem_nil _
  · intro segment member
    rw [List.mem_singleton.mp member]
    exact anytime

theorem fresh_body {op : BrokerCall} (obliged : op.Obliged) :
    ∀ segment ∈ op.body, Fresh segment := by
  cases op with
  | tryAcquire key p =>
    simp only [BrokerCall.body]
    split
    · exact List.forall_mem_nil _
    · next nonzero =>
      intro segment member
      rw [List.mem_singleton.mp member]
      exact ⟨key, p, Or.inl rfl, nonzero, obliged⟩
  | acquireOrQueue key p =>
    simp only [BrokerCall.body]
    split
    · exact List.forall_mem_nil _
    · next nonzero =>
      intro segment member
      rw [List.mem_singleton.mp member]
      exact ⟨key, p, Or.inr rfl, nonzero, obliged⟩
  | reconstructParticipantFromSlab p ring notifyPending =>
    cases ring with
    | none => exact List.forall_mem_nil _
    | some ring => exact fresh_guarded (by simp [Work.Anytime])
  | attachParticipantPid p opened =>
    simp only [BrokerCall.body]
    split
    · exact fresh_guarded (by simp [Work.Anytime])
    · exact List.forall_mem_nil _
  | pollReadyParticipants events order =>
    simp only [BrokerCall.body]
    split
    · exact List.forall_mem_nil _
    · intro segment member
      rw [List.mem_singleton.mp member]
      intro item among
      obtain ⟨event, -, rfl⟩ := List.mem_map.mp among
      split <;> trivial
  | release | recoverAbandonedResource | registerLease | renewLease | heartbeatParticipant =>
    exact fresh_guarded (by simp [Work.Anytime])
  | registerParticipant | registerParticipantOnSlab | recoverExpiredLeases |
    recoverParticipantLeases | sendMailboxMessage | sendMailboxDescriptor | drainMailbox |
    drainMailboxDescriptors =>
    simp [BrokerCall.body, Fresh, Work.Anytime]

theorem owner_perform {b : Broker} {item : Work} (due : item.Due b) {key : ResourceKey}
    (changed : (perform b item).shared.owner key ≠ b.owner key) :
    (b.owner key = 0 ∧ ∃ answers, (perform b item).events =
      .acquired key ((perform b item).shared.owner key) :: answers) ∨
    ∃ cause reason, item = .handOff key (b.owner key) cause reason := by
  have attempt : ∀ {at_ : ResourceKey} {p : ParticipantId} {answers : List Event},
      b.words at_ = 0 → p < kOwnerMask → (b.setWord at_ p).owner key ≠ b.owner key →
      b.owner key = 0 ∧ ∃ rest, .acquired at_ p :: answers =
        .acquired key ((b.setWord at_ p).owner key) :: rest := by
    intro at_ p answers free small differs
    by_cases same : key = at_
    · subst same
      rw [Broker.owner_setWord_same, ownerOf_id small]
      exact ⟨(congrArg ownerOf free).trans ownerOf_zero, answers, rfl⟩
    · exact absurd (Broker.owner_setWord_other same p) differs
  cases decides : item.decides with
  | false => exact absurd (congrArg ownerOf (congrFun (perform_aside b decides).words key)) changed
  | true =>
    cases item with
    | tryAcquire at_ p | acquireFast at_ p | retryAcquire at_ p =>
      have small : p < kOwnerMask := by
        first | exact due.2 | exact due.2.2
      simp only [perform, Broker.tryAcquireUnlocked] at changed ⊢
      by_cases free : b.words at_ = 0
      · simp only [if_pos free] at changed ⊢
        exact Or.inl (attempt free small changed)
      · simp only [if_neg free] at changed
        exact absurd rfl changed
    | checkOwner at_ p =>
      rw [perform] at changed
      split at changed
      · exact absurd rfl changed
      · split at changed <;> exact absurd rfl changed
    | enqueue at_ p =>
      -- Marking a word as contended keeps its owner.
      have marked : ∀ c : Broker, c.words = b.words →
          (c.setWord at_ (b.words at_ ||| kContendedBit)).owner key = b.owner key := by
        intro c words
        by_cases same : key = at_
        · rw [same, Broker.owner_setWord_same, ownerOf_mark]
          rfl
        · rw [Broker.owner_setWord_other same]
          exact congrArg ownerOf (congrFun words key)
      rw [perform] at changed
      split at changed
      · exact absurd (marked b rfl) changed
      · exact absurd (marked _ rfl) changed
    | checkTenure at_ owner cause reason =>
      rw [perform] at changed
      split at changed <;> exact absurd rfl changed
    | handOff at_ owner cause reason =>
      by_cases same : key = at_
      · subst same
        exact Or.inr ⟨cause, reason, by rw [due.2]⟩
      · -- A tenure ends on one resource only.
        rw [perform] at changed
        obtain ⟨next, rest, -, words, -⟩ | ⟨-, words, -⟩ := b.handOff_cases at_ owner cause reason
        · refine absurd (congrArg ownerOf ((congrFun words key).trans ?_)) changed
          exact Broker.words_setWord_other same _
        · refine absurd (congrArg ownerOf ((congrFun words key).trans ?_)) changed
          exact Broker.words_setWord_other same _
    | registerLease | renewLease | heartbeatLeases | collectExpired | recoverLeases |
      recoverLease | register | reconstruct | attachPid | reportDown | drainEventFd |
      sendMessage | sendDescriptor | drainMailbox | drainDescriptors => cases decides

variable {τ : Type} [DecidableEq τ]

/-- How a resource is owned and waited for. -/
structure Exclusive (s : System τ) (key : ResourceKey) : Prop where
  one_owner : holders key s.trace = if s.shared.owner key = 0 then [] else [s.shared.owner key]
  /-- The grants so far, followed by the queue, are everything that was ever queued, in order. -/
  fifo : enqueuedOn key s.trace = grantedOn key s.trace ++ s.shared.waiters key
  once : ∀ p, (s.shared.waiters key).count p ≤ 1
  /-- A participant told that it is queued has one grant to come, and waits until it comes. -/
  answered : ∀ before after p, s.trace = before ++ .answered key p .queued :: after →
    (enqueuedOn key before).count p = (grantedOn key before).count p + 1 ∧
      ((s.shared.waiters key).count p = 1 ∨ p ∈ grantedOn key after)
  never_stranded : s.shared.waiters key ≠ [] → s.shared.owner key ≠ 0

/-- A turn changes an owner by taking a free resource, or by the release or revocation of the owner. -/
def OwnerMoves (s : System τ) (turn : Turn τ BrokerCall) : Prop :=
  ∀ next, s.step turn = some next → ∀ key, next.shared.owner key ≠ s.shared.owner key →
    (s.shared.owner key = 0 ∧ ∃ answers, next.trace =
      s.trace ++ .acquired key (next.shared.owner key) :: answers) ∨
    ∃ t cause reason, turn = .advance t ∧
      s.current t = some (.handOff key (s.shared.owner key) cause reason)

omit [DecidableEq τ] in
theorem Ordered.exclusive {s : System τ} {key : ResourceKey}
    (ordered : Ordered s.shared s.trace key) : Exclusive s key where
  one_owner := ordered.held
  fifo := ordered.queue
  once := List.nodup_iff_count_le_one.mp ordered.distinct
  answered := fun before after p split => by
    obtain ⟨one, now⟩ := ordered.answered before after p split
    exact ⟨one, now.imp_left (List.count_eq_one_of_mem ordered.distinct)⟩
  never_stranded := ordered.busy

theorem ownerMoves_of_safe {s : System τ} {turn : Turn τ BrokerCall}
    (safe : Threads.Safe AllOrdered Ready Fresh s) : OwnerMoves s turn := by
  intro next stepped key changed
  obtain ⟨t, op, rfl, begun, rfl⟩ | ⟨t, item, rest, rfl, begun, rfl⟩ |
    ⟨t, work, rest, rfl, begun, held, rfl⟩ | ⟨t, rest, rfl, begun, held, rfl⟩ |
    ⟨t, item, work, rest, rfl, begun, held, rfl⟩ := Threads.step_cases stepped
  · exact absurd rfl changed
  · -- A lock-free access: its thread does not hold the mutex.
    have apart : s.holder ≠ some t := fun mine => by
      obtain ⟨work, rest', begun', -⟩ := safe.inside t mine
      rw [begun] at begun'
      cases begun'
    have ahead := safe.waiting t apart
    rw [begun] at ahead
    obtain ⟨at_, p, which, nonzero, small⟩ := ahead _ List.mem_cons_self
    have due : item.Due s.shared := by
      rcases which with rfl | rfl <;> exact ⟨nonzero, small⟩
    obtain ⟨unowned, answers, events⟩ | ⟨cause, reason, rfl⟩ := owner_perform due changed
    · exact Or.inl ⟨unowned, answers, congrArg (s.trace ++ ·) events⟩
    · rcases which with same | same <;> cases same
  · exact absurd rfl changed
  · exact absurd rfl changed
  · -- An access under the mutex.
    obtain ⟨work', rest', begun', ready, -⟩ := safe.inside t held
    rw [begun] at begun'
    cases begun'
    obtain ⟨unowned, answers, events⟩ | ⟨cause, reason, rfl⟩ :=
      owner_perform ready.1 changed
    · exact Or.inl ⟨unowned, answers, congrArg (s.trace ++ ·) events⟩
    · exact Or.inr ⟨t, cause, reason, rfl, by simp only [Threads.current, begun, held, if_true]⟩

theorem conforms_of_obliged {s : System τ} {turn : Turn τ BrokerCall} (obliged : Obliged turn) :
    Threads.Conforms BrokerCall.body Fresh (fun _ _ _ => True) s turn := by
  cases turn with
  | call t op => exact fresh_body obliged
  | advance t => exact fun _ _ => trivial

/--
In every run of any number of threads, each resource has at most one owner, its owner changes only
by taking it while free, by release or by revocation, and its waiters are granted it in order.
-/
theorem ownership_exclusive (turns : List (Turn τ BrokerCall))
    (obliged : ∀ turn ∈ turns, Obliged turn) :
    Throughout System.step (fun s : System τ => ∀ key, Exclusive s key)
      (Threads.idle Broker.initial) turns ∧
    StepsMeet System.step OwnerMoves (Threads.idle Broker.initial : System τ) turns := by
  have safe : Threads.Safe AllOrdered Ready Fresh (Threads.idle Broker.initial : System τ) :=
    Threads.safe_idle Ordered.initial
  have meets : StepsMeet System.step
      (Threads.Conforms BrokerCall.body Fresh fun _ _ _ => True)
      (Threads.idle Broker.initial : System τ) turns :=
    stepsMeet_of_forall turns _ fun turn member _ => conforms_of_obliged (obliged turn member)
  refine ⟨(rules.run_safe turns _ safe meets).imp fun s safe key => (safe.holds key).exclusive, ?_⟩
  exact stepsMeet_of_invariant (fun s turn next safe conforms stepped =>
    ⟨rules.step_safe safe conforms stepped, ownerMoves_of_safe safe⟩) turns _ safe meets

/-- A participant that queues behind another one is granted the resource by its release. -/
theorem ownership_exclusive_queued :
    Throughout System.step (fun s : System Nat => ∀ key, Exclusive s key)
      (Threads.idle Broker.initial)
      [.call 0 (.registerParticipant true), .advance 0, .advance 0, .advance 0,
        .call 1 (.registerParticipant true), .advance 1, .advance 1, .advance 1,
        .call 0 (.acquireOrQueue {} 1), .advance 0,
        .call 1 (.acquireOrQueue {} 2), .advance 1, .advance 1, .advance 1, .advance 1, .advance 1,
        .advance 1, .call 0 (.release {} 1), .advance 0, .advance 0, .advance 0, .advance 0] ∧
    StepsMeet System.step OwnerMoves (Threads.idle Broker.initial : System Nat)
      [.call 0 (.registerParticipant true), .advance 0, .advance 0, .advance 0,
        .call 1 (.registerParticipant true), .advance 1, .advance 1, .advance 1,
        .call 0 (.acquireOrQueue {} 1), .advance 0,
        .call 1 (.acquireOrQueue {} 2), .advance 1, .advance 1, .advance 1, .advance 1, .advance 1,
        .advance 1, .call 0 (.release {} 1), .advance 0, .advance 0, .advance 0, .advance 0] :=
  ownership_exclusive _ (by
    have small : (1 : ParticipantId) < kOwnerMask ∧ (2 : ParticipantId) < kOwnerMask := by decide
    simpa [Obliged, BrokerCall.Obliged] using small)

end AgentC.Root1

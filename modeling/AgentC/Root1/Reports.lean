import AgentC.Root1.BrokerLaws

/-! What becomes of participants whose process was reported to have exited. -/

namespace AgentC.Root1

def Event.newOwner : Event → Option ParticipantId
  | .acquired _ participant => some participant
  | .granted _ _ next _ => some next
  | _ => none

/-- Reported participants are in no queue, and none became an owner after its report. -/
structure Buried (b : Broker) (past : List Event) : Prop where
  unqueued : ∀ p, .reportedDown p ∈ past → ∀ key, p ∉ b.waiters key
  unowning : ∀ before after p, past = before ++ .reportedDown p :: after →
    ∀ event ∈ after, event.newOwner ≠ some p

/--
An access that does not reach the defect: nobody acquires for a reported participant, and nobody is
reported while it waits.
-/
def Work.Sound (b : Broker) (past : List Event) : Work → Prop
  | .tryAcquire _ p | .acquireFast _ p | .retryAcquire _ p | .enqueue _ p => .reportedDown p ∉ past
  | .reportDown p _ => ∀ key, p ∉ b.waiters key
  | _ => True

namespace Buried

variable {b c : Broker} {past events : List Event}

theorem initial : Buried Broker.initial [] where
  unqueued := fun _ reported => nomatch reported
  unowning := fun before after p split => by simp at split

theorem extend (buried : Buried b past)
    (queues : ∀ key p, p ∈ c.waiters key → .reportedDown p ∉ past ++ events)
    (owners : ∀ event ∈ events, ∀ p, event.newOwner = some p → .reportedDown p ∉ past ++ events) :
    Buried c (past ++ events) := by
  refine ⟨fun p reported key waits => queues key p waits reported, ?_⟩
  intro before after p split event member owns
  -- The report lies in the past, with the event after it in the past or new, or it is new.
  have reported : .reportedDown p ∈ past ++ events := by
    rw [split]
    exact List.mem_append_right _ List.mem_cons_self
  rcases List.append_eq_append_iff.mp split with ⟨front, -, rest⟩ | ⟨front, earlier, rest⟩
  · have new : event ∈ events := by
      rw [rest]
      exact List.mem_append_right _ (List.mem_cons_of_mem _ member)
    exact owners event new p owns reported
  · cases front with
    | nil =>
      rw [List.nil_append] at rest
      exact owners event (rest ▸ List.mem_cons_of_mem _ member) p owns reported
    | cons first mid =>
      obtain ⟨rfl, rfl⟩ := List.cons.inj rest
      rcases List.mem_append.mp member with old | new
      · exact buried.unowning before mid p earlier event old owns
      · exact owners event new p owns reported

theorem keep (buried : Buried b past) (unreported : ∀ p, .reportedDown p ∉ events)
    (queues : ∀ key p, p ∈ c.waiters key → p ∈ b.waiters key ∨ .reportedDown p ∉ past)
    (owners : ∀ event ∈ events, ∀ p, event.newOwner = some p → .reportedDown p ∉ past) :
    Buried c (past ++ events) := by
  refine buried.extend (fun key p waits reported => ?_) fun event member p owns reported => ?_
  · have old := (List.mem_append.mp reported).resolve_right (unreported p)
    rcases queues key p waits with waited | notReported
    · exact buried.unqueued p old key waited
    · exact notReported old
  · exact owners event member p owns
      ((List.mem_append.mp reported).resolve_right (unreported p))

theorem attempt (buried : Buried b past) {key : ResourceKey} {p : ParticipantId}
    (alive : .reportedDown p ∉ past) {answers : List Event}
    (quiet : answers = [] ∨ answers = [.answered key p .acquired]) :
    Buried (b.setWord key p) (past ++ .acquired key p :: answers) := by
  refine buried.keep (fun q => ?_) (fun _ _ waits => Or.inl waits) fun event member q owns => ?_
  · rcases quiet with rfl | rfl <;> simp
  · rcases quiet with rfl | rfl
    · obtain rfl := List.mem_singleton.mp member
      obtain rfl : p = q := Option.some.inj owns
      exact alive
    · rcases List.mem_cons.mp member with rfl | answer
      · obtain rfl : p = q := Option.some.inj owns
        exact alive
      · rw [List.mem_singleton.mp answer] at owns
        cases owns

theorem perform (buried : Buried b past) {item : Work} (sound : item.Sound b past) :
    Buried (Root1.perform b item).shared (past ++ (Root1.perform b item).events) := by
  have still : Buried b (past ++ []) := by rw [List.append_nil]; exact buried
  cases decides : item.decides with
  | true =>
    cases item with
    | tryAcquire key p =>
      by_cases free : b.words key = 0
      · rw [Root1.perform, Broker.tryAcquireUnlocked_free free]
        exact buried.attempt sound (Or.inl rfl)
      · rw [Root1.perform, Broker.tryAcquireUnlocked_taken free]
        exact still
    | acquireFast key p | retryAcquire key p =>
      by_cases free : b.words key = 0
      · rw [Root1.perform, Broker.tryAcquireUnlocked_free free]
        exact buried.attempt sound (Or.inr rfl)
      · rw [Root1.perform, Broker.tryAcquireUnlocked_taken free]
        exact still
    | checkOwner key p =>
      have answered : ∀ status, Buried b (past ++ [.answered key p status]) := fun status =>
        buried.keep (by simp) (fun _ _ waits => Or.inl waits) (by simp [Event.newOwner])
      rw [Root1.perform]
      split
      · exact answered _
      · split
        · exact answered _
        · exact still
    | enqueue key p =>
      rw [Root1.perform]
      split
      · exact buried.keep (by simp) (fun _ _ waits => Or.inl waits) (by simp [Event.newOwner])
      · refine buried.keep (by simp) (fun other q waits => ?_) (by simp [Event.newOwner])
        -- Only the participant that was not reported is new in the queue.
        by_cases same : other = key
        · subst same
          change q ∈ (b.setWaiters other (b.waiters other ++ [p])).waiters other at waits
          rw [Broker.waiters_setWaiters_same] at waits
          exact (List.mem_append.mp waits).imp_right fun last => by
            rw [List.mem_singleton.mp last]
            exact sound
        · change q ∈ (b.setWaiters key (b.waiters key ++ [p])).waiters other at waits
          rw [Broker.waiters_setWaiters_other same] at waits
          exact Or.inl waits
    | checkTenure key owner cause reason =>
      rw [Root1.perform]
      split <;> exact still
    | handOff key owner cause reason =>
      obtain ⟨next, rest, found, -, waiters, -, -, events⟩ | ⟨-, -, waiters, -, -, events⟩ :=
        b.handOff_cases key owner cause reason
      · -- The new owner comes out of the queue, where no reported participant is.
        obtain ⟨waited, -, behind⟩ := Broker.nextWaiter_mem found
        rw [Root1.perform, events]
        refine buried.keep (by simp) (fun other q waits => Or.inl ?_) fun event member q owns => ?_
        · rw [waiters] at waits
          by_cases same : other = key
          · subst same
            simp only [Broker.passTo, Broker.waiters_setWord, Broker.waiters_setWaiters_same] at waits
            exact behind q waits
          · simpa only [Broker.passTo, Broker.waiters_setWord,
              Broker.waiters_setWaiters_other same] using waits
        · rw [List.mem_singleton.mp member] at owns
          obtain rfl : next = q := Option.some.inj owns
          exact fun reported => buried.unqueued next reported key waited
      · rw [Root1.perform, events]
        refine buried.keep (by simp) (fun other q waits => Or.inl ?_) (by simp [Event.newOwner])
        rw [waiters] at waits
        by_cases same : other = key
        · subst same
          simp [Broker.clear] at waits
        · simpa only [Broker.clear, Broker.waiters_setWord,
            Broker.waiters_setWaiters_other same] using waits
    | registerLease | renewLease | heartbeatLeases | collectExpired | recoverLeases |
      recoverLease | register | reconstruct | attachPid | reportDown | drainEventFd |
      sendMessage | sendDescriptor | drainMailbox | drainDescriptors => cases decides
  | false =>
    have aside := perform_aside b decides
    -- Quiet events make nobody an owner, but one of them may be a report.
    have owners : ∀ event ∈ (Root1.perform b item).events, event.newOwner = none := by
      intro event member
      have quiet := aside.quiet event member
      cases event with
      | acquired | granted => cases quiet
      | _ => rfl
    have reports : ∀ p, .reportedDown p ∈ (Root1.perform b item).events →
        ∀ key, p ∉ b.waiters key := by
      intro p member
      cases item with
      | reportDown q order =>
        rw [Root1.perform, Broker.reportDown] at member
        cases found : b.participants q with
        | none => simp [found] at member
        | some record =>
          simp only [found] at member
          split at member
          · cases member
          · cases List.mem_singleton.mp member
            exact sound
      | registerLease key owner expiresAtTick =>
        rw [Root1.perform, Broker.registerLease] at member
        split at member <;> simp at member
      | renewLease key owner expiresAtTick =>
        rw [Root1.perform, Broker.renewLease] at member
        split at member
        · split at member <;> simp at member
        · simp at member
      | recoverLease key reason =>
        rw [Root1.perform] at member
        split at member <;> simp at member
      | heartbeatLeases | collectExpired | recoverLeases | register | reconstruct | attachPid |
        drainEventFd | sendMessage | sendDescriptor | drainMailbox | drainDescriptors =>
        cases member
      | tryAcquire | acquireFast | checkOwner | retryAcquire | enqueue | checkTenure | handOff =>
        cases decides
    refine buried.extend (fun key p waits reported => ?_) fun event member p owns => ?_
    · rw [aside.waiters] at waits
      rcases List.mem_append.mp reported with old | new
      · exact buried.unqueued p old key waits
      · exact reports p new key waits
    · rw [owners event member] at owns
      cases owns

end Buried

variable {τ : Type} [DecidableEq τ]

end AgentC.Root1

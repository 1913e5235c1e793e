import AgentC.Edict.AwaitCover

/-! In which runs nobody is parked on a mailbox whose wake signal is gone. -/

namespace AgentC.Edict

open Root1 (Broker MailboxDescriptor ParticipantId Work)
open Root1.Broker (Signals)
open Root1AwaitScheduler (nothingTaken)

namespace PollPhase

def toServe : PollPhase → List ParticipantId
  | .taking _ _ _ ready => ready
  | .serving left | .delivering _ _ _ left | .resuming _ _ _ _ left => left
  | _ => []

def work : PollPhase → List Work
  | .taking _ _ work _ => work
  | _ => []

end PollPhase

def ParkedContinuation.told (c : ParkedContinuation) (descriptors : List MailboxDescriptor) :
    ParkedContinuation :=
  { c with
    lastEvents := some (descriptorsToList descriptors)
    eventsDelivered := UInt64.ofNat (eventCount (some (descriptorsToList descriptors))) }

def ParkedContinuation.readied (c : ParkedContinuation) (descriptors : List MailboxDescriptor) :
    ParkedContinuation :=
  { c.told descriptors with state := .ready }

namespace AwaitWorld

def Heard (w : AwaitWorld) (p : ParticipantId) : Prop :=
  w.broker.undrained p = [] ∨ w.broker.signalled p = true ∨ p ∈ w.phase.toServe

instance (w : AwaitWorld) (p : ParticipantId) : Decidable (w.Heard p) :=
  inferInstanceAs (Decidable (_ ∨ _ ∨ _))

/--
A step that does not reach the defect: a continuation is parked, or restored as parked, only while
its participant's mailbox is empty or its wake signal is there, and under a handle that is free.
-/
def ParksHeard (w : AwaitWorld) : AwaitEvent → Prop
  | .park participant _ => participant = 0 ∨
      (w.scheduler.continuations w.scheduler.nextId).isNone = true ∧ w.Heard participant
  | .load index => ∀ n ∈ w.saves[index]?, ∀ c ∈ n.order.filterMap n.scheduler.continuations,
      c.state = .parked → w.Heard c.participant
  | _ => True

instance (w : AwaitWorld) : ∀ event, Decidable (w.ParksHeard event)
  | .park participant _ => inferInstanceAs (Decidable (participant = 0 ∨
      (w.scheduler.continuations w.scheduler.nextId).isNone = true ∧ w.Heard participant))
  | .load index => inferInstanceAs (Decidable (∀ n ∈ w.saves[index]?,
      ∀ c ∈ n.order.filterMap n.scheduler.continuations, c.state = .parked → w.Heard c.participant))
  | .access _ | .cancel _ | .drop _ | .poll .. | .advance | .returns _ | .save _ => isTrue trivial

/-- What holds as long as nobody was parked on a mailbox without a wake signal. -/
structure Attentive (w : AwaitWorld) : Prop where
  sound : w.Sound
  covers : w.scheduler.Covers w.phase.taken
  working : ∀ item ∈ w.phase.work,
    item.sends = true ∨ ∃ p ∈ w.phase.toServe, item = .drainEventFd p
  heard : ∀ p h, w.scheduler.parkedFor p h = true → w.Heard p

variable {w next : AwaitWorld}

theorem serve_cases (w : AwaitWorld) (participant : ParticipantId) (left : List ParticipantId) :
    let drained := (Root1.perform w.broker (.drainDescriptors participant)).shared
    (w.scheduler.byParticipant participant = [] ∧
      w.serve participant left = { w with phase := .serving left }) ∨
    (w.scheduler.byParticipant participant ≠ [] ∧ w.broker.undrained participant = [] ∧
      w.serve participant left = { w with broker := drained, phase := .serving left }) ∨
    (w.scheduler.byParticipant participant ≠ [] ∧ w.broker.undrained participant ≠ [] ∧
      w.serve participant left = { w with
        broker := drained
        scheduler := { w.scheduler with
          byParticipant := Function.update w.scheduler.byParticipant participant [] }
        phase := .delivering (w.broker.undrained participant) participant
          (w.scheduler.byParticipant participant) left }) := by
  dsimp only
  unfold serve
  by_cases empty : w.scheduler.byParticipant participant = []
  · exact Or.inl ⟨empty, by simp [empty]⟩
  · by_cases drained : w.broker.undrained participant = []
    · exact Or.inr (Or.inl ⟨empty, drained, by simp [empty, drained]⟩)
    · exact Or.inr (Or.inr ⟨empty, drained, by simp [empty, drained]⟩)

theorem deliver_cases (w : AwaitWorld) (descriptors : List MailboxDescriptor)
    (participant : ParticipantId) (handle : Root1ContinuationHandle)
    (handles : List Root1ContinuationHandle) (left : List ParticipantId) :
    (w.scheduler.isParked handle = false ∧ w.deliver descriptors participant handle handles left =
      { w with phase := .delivering descriptors participant handles left }) ∨
    (∃ c, w.scheduler.continuations handle = some c ∧ c.state = .parked ∧ c.resume = true ∧
      w.deliver descriptors participant handle handles left = { w with
        scheduler := w.scheduler.store handle (c.told descriptors)
        phase := .resuming descriptors participant handle handles left }) ∨
    (∃ c, w.scheduler.continuations handle = some c ∧ c.state = .parked ∧ c.resume = false ∧
      w.deliver descriptors participant handle handles left = { w with
        scheduler := w.scheduler.store handle (c.readied descriptors)
        phase := .delivering descriptors participant handles left
        result := { w.result with readyContinuations := w.result.readyContinuations + 1 } }) := by
  unfold deliver
  cases entry : w.scheduler.continuations handle with
  | none => exact Or.inl ⟨by simp [Root1AwaitScheduler.isParked, entry], rfl⟩
  | some c =>
    by_cases state : c.state = .parked
    · cases resume : c.resume with
      | true =>
        exact Or.inr (Or.inl ⟨c, rfl, state, resume, by simp [state, resume, ParkedContinuation.told]⟩)
      | false =>
        exact Or.inr (Or.inr ⟨c, rfl, state, resume,
          by simp [state, resume, ParkedContinuation.readied, ParkedContinuation.told]⟩)
    · exact Or.inl ⟨by simp [Root1AwaitScheduler.isParked, entry, state], by simp [state]⟩

theorem Heard.kept {p : ParticipantId} (heard : w.Heard p)
    (signals : Signals p w.broker next.broker)
    (serves : p ∈ w.phase.toServe → p ∈ next.phase.toServe) : next.Heard p := by
  rcases heard with empty | signalled | served
  · rcases signals.told with same | told
    · exact Or.inl (same.trans empty)
    · exact Or.inr (Or.inl told)
  · exact Or.inr (Or.inl (signals.kept signalled))
  · exact Or.inr (Or.inr (serves served))

theorem Heard.same {p : ParticipantId} (heard : w.Heard p) (broker : next.broker = w.broker)
    (serves : p ∈ w.phase.toServe → p ∈ next.phase.toServe) : next.Heard p :=
  heard.kept (.of_participants (by rw [broker])) serves

theorem no_work (none_ : w.phase.work = []) :
    ∀ item ∈ w.phase.work, item.sends = true ∨ ∃ p ∈ w.phase.toServe, item = .drainEventFd p := by
  rw [none_]
  exact fun _ member => absurd member List.not_mem_nil

namespace Attentive

theorem settle (attentive : w.Attentive) (taken : w.phase.taken = nothingTaken)
    (timeoutMs : Int) (order : List Root1ContinuationHandle) {ready : List ParticipantId}
    (serves : ∀ p ∈ w.phase.toServe, p ∈ ready) : (w.settle timeoutMs order ready).Attentive := by
  have sound := attentive.sound
  have covers := taken ▸ attentive.covers
  unfold AwaitWorld.settle
  dsimp only
  split
  · next none_ =>
    -- Whoever was parked has timed out, or stays parked as it was.
    have empty : ready = [] := List.isEmpty_iff.mp none_.1
    refine ⟨⟨sound.listed.timeOut _, sound.saved⟩, covers.timeOut _, no_work rfl, fun p h waits => ?_⟩
    refine Heard.same (w := w) (attentive.heard p h ?_) rfl fun member => ?_
    · exact Root1AwaitScheduler.parkedFor_of_timeOut _ waits
    · have := serves p member
      rw [empty] at this
      cases this
  · refine ⟨⟨sound.listed, sound.saved⟩, covers, no_work rfl, fun p h waits => ?_⟩
    exact Heard.same (w := w) (attentive.heard p h waits) rfl (serves p)

theorem serve (attentive : w.Attentive) {participant : ParticipantId} {left : List ParticipantId}
    (phase : w.phase = .serving (participant :: left)) :
    (w.serve participant left).Attentive := by
  have sound := attentive.sound
  have covers : w.scheduler.Covers nothingTaken := by
    have := attentive.covers
    rwa [phase] at this
  have others (p : ParticipantId) (apart : p ≠ participant) (member : p ∈ w.phase.toServe) :
      p ∈ left := by
    rw [phase] at member
    exact (List.mem_cons.mp member).resolve_left apart
  -- Draining concerns the participant alone.
  have drained (next : AwaitWorld) (serves : next.phase.toServe = left)
      (broker : next.broker = (Root1.perform w.broker (.drainDescriptors participant)).shared)
      (p : ParticipantId) (heard : w.Heard p) : next.Heard p := by
    by_cases same : p = participant
    · subst same
      exact Or.inl (by rw [broker]; exact Root1.undrained_drainDescriptors w.broker p)
    · refine heard.kept ?_ fun member => serves ▸ others p same member
      rw [broker]
      exact .modifyParticipant_other same _
  rcases w.serve_cases participant left with ⟨empty, eq⟩ | ⟨-, -, eq⟩ | ⟨-, -, eq⟩ <;> rw [eq]
  · refine ⟨⟨sound.listed, sound.saved⟩, covers, no_work rfl, fun p h waits => ?_⟩
    have apart : p ≠ participant := by
      rintro rfl
      have listed : h ∈ w.scheduler.byParticipant p := covers.covered p h waits
      rw [empty] at listed
      cases listed
    exact (attentive.heard p h waits).same rfl (others p apart)
  · refine ⟨⟨sound.listed, sound.saved⟩, covers, no_work rfl, fun p h waits => ?_⟩
    exact drained _ rfl rfl p (attentive.heard p h waits)
  · refine ⟨⟨sound.listed.reindexed _, sound.saved⟩, ?_, no_work rfl, fun p h waits => ?_⟩
    · -- The entry is in the hands of the poll now.
      have moved (p : ParticipantId) :
          Function.update nothingTaken participant (w.scheduler.byParticipant participant) p ++
            Function.update w.scheduler.byParticipant participant [] p =
              w.scheduler.byParticipant p := by
        by_cases same : p = participant
        · subst same
          simp
        · simp [same, nothingTaken]
      refine ⟨fun p h waits => ?_, fun p h member => ?_, fun p => ?_⟩
      · exact (moved p).symm ▸ covers.covered p h waits
      · exact covers.owned p h ((moved p) ▸ member)
      · exact (moved p).symm ▸ covers.once p
    · exact drained _ rfl rfl p (attentive.heard p h waits)

theorem deliver (attentive : w.Attentive) {descriptors : List MailboxDescriptor}
    {participant : ParticipantId} {handle : Root1ContinuationHandle}
    {handles : List Root1ContinuationHandle} {left : List ParticipantId}
    (phase : w.phase = .delivering descriptors participant (handle :: handles) left) :
    (w.deliver descriptors participant handle handles left).Attentive := by
  have covers : w.scheduler.Covers (Function.update nothingTaken participant (handle :: handles)) := by
    have := attentive.covers
    rwa [phase] at this
  have kept (next : AwaitWorld) (broker : next.broker = w.broker)
      (serves : next.phase.toServe = left) (p : ParticipantId) (heard : w.Heard p) : next.Heard p :=
    heard.same broker fun member => by rw [phase] at member; exact serves ▸ member
  have sound := attentive.sound
  rcases w.deliver_cases descriptors participant handle handles left with
    ⟨unparked, eq⟩ | ⟨c, entry, -, -, eq⟩ | ⟨c, entry, -, -, eq⟩ <;> rw [eq]
  · refine ⟨⟨sound.listed, sound.saved⟩, covers.shrink fun p => ?_, no_work rfl, fun p h waits => ?_⟩
    · exact Bool.eq_false_iff.mpr fun waits =>
        Bool.false_ne_true (unparked.symm.trans (Root1AwaitScheduler.isParked_of_parkedFor waits))
    · refine kept _ ?_ ?_ p (attentive.heard p h waits) <;> rfl
  · have valid := (sound.listed.named handle c entry).2
    refine ⟨⟨w.told_valid sound entry rfl valid, sound.saved⟩, covers.store entry _ rfl id, no_work rfl,
      fun p h waits => ?_⟩
    refine kept _ ?_ ?_ p (attentive.heard p h ?_)
    · rfl
    · rfl
    · rwa [Root1AwaitScheduler.parkedFor_store_told entry (c.told descriptors) rfl rfl p] at waits
  · have ended : (c.readied descriptors).state ≠ .parked :=
      Root1ContinuationState.noConfusion
    have ends (p : ParticipantId) (other : Root1ContinuationHandle) :=
      Root1AwaitScheduler.parkedFor_store_ended (s := w.scheduler) (h := handle) ended p other
    have shrunk := (covers.store entry (c.readied descriptors) rfl fun same =>
      absurd same ended).shrink fun p => by rw [ends p handle]; simp
    refine ⟨⟨w.told_valid sound entry rfl Root1ContinuationState.noConfusion, sound.saved⟩, shrunk,
      no_work rfl, fun p h waits => ?_⟩
    refine kept _ ?_ ?_ p (attentive.heard p h ?_)
    · rfl
    · rfl
    · rw [ends p h, Bool.and_eq_true] at waits
      exact waits.2

theorem returns (attentive : w.Attentive) {code : Int32} (stepped : w.returns code = some next) :
    next.Attentive := by
  have sound := attentive.sound.returns stepped
  unfold AwaitWorld.returns at stepped
  cases phase : w.phase with
  | idle | waited | taking | serving | delivering => simp [phase] at stepped
  | resuming descriptors participant handle handles left =>
    have covers : w.scheduler.Covers
        (Function.update nothingTaken participant (handle :: handles)) := by
      have := attentive.covers
      rwa [phase] at this
    have kept (next : AwaitWorld) (broker : next.broker = w.broker)
        (serves : next.phase.toServe = left) (p : ParticipantId) (heard : w.Heard p) :
        next.Heard p :=
      heard.same broker fun member => by rw [phase] at member; exact serves ▸ member
    rw [phase] at stepped
    dsimp only at stepped
    cases entry : w.scheduler.continuations handle with
    | none =>
      rw [entry] at stepped
      cases stepped
      refine ⟨sound, covers.shrink fun p => ?_, no_work rfl, fun p h waits => ?_⟩
      · simp [Root1AwaitScheduler.parkedFor, entry]
      · refine kept _ ?_ ?_ p (attentive.heard p h waits) <;> rfl
    | some c =>
      rw [entry] at stepped
      cases stepped
      let resumed : ParkedContinuation := { c with resumeState := code, state := .resumed }
      have ended : resumed.state ≠ .parked := Root1ContinuationState.noConfusion
      have ends (p : ParticipantId) (other : Root1ContinuationHandle) :=
        Root1AwaitScheduler.parkedFor_store_ended (s := w.scheduler) (h := handle) ended p other
      have shrunk := (covers.store entry resumed rfl fun same => absurd same ended).shrink fun p => by
        rw [ends p handle]; simp
      refine ⟨sound, shrunk, no_work rfl, fun p h waits => ?_⟩
      refine kept _ ?_ ?_ p (attentive.heard p h ?_)
      · rfl
      · rfl
      · have was := (ends p h).symm.trans waits
        exact ((Bool.and_eq_true _ _).mp was).2

/-- A step of the poll passes over nobody who is parked, and makes only the accesses it is for. -/
theorem advance (attentive : w.Attentive) (stepped : w.advance = some next) : next.Attentive := by
  have sound := attentive.sound
  have covers := attentive.covers
  unfold AwaitWorld.advance at stepped
  cases phase : w.phase with
  | idle | resuming => simp [phase] at stepped
  | waited timeoutMs events keys order =>
    have nobody : ∀ p, p ∉ w.phase.toServe := by rw [phase]; exact fun _ => List.not_mem_nil
    rw [phase] at stepped covers
    dsimp only at stepped
    split at stepped
    · cases stepped
      exact attentive.settle (by rw [phase]; rfl) _ _ fun p member => absurd member (nobody p)
    · cases stepped
      refine ⟨⟨sound.listed, sound.saved⟩, covers, fun item member => ?_, fun p h waits => ?_⟩
      · obtain ⟨event, known, rfl⟩ := List.mem_map.mp member
        split
        · exact Or.inl rfl
        · exact Or.inr ⟨event.1, List.mem_map_of_mem known, rfl⟩
      · exact (attentive.heard p h waits).same rfl fun member => absurd member (nobody p)
  | taking timeoutMs order work ready =>
    have working := attentive.working
    rw [phase] at stepped covers working
    cases work with
    | nil =>
      cases stepped
      exact attentive.settle (by rw [phase]; rfl) _ _ fun p member => by rwa [phase] at member
    | cons item rest =>
      cases stepped
      refine ⟨⟨sound.listed, sound.saved⟩, covers, fun later member => ?_, fun p h waits => ?_⟩
      · rcases List.mem_append.mp member with more | old
        · exact Or.inl (Root1.more_of_perform more).1
        · exact working later (List.mem_cons_of_mem _ old)
      · have heard := attentive.heard p h waits
        have serves : p ∈ w.phase.toServe → p ∈ ready := fun member => by rwa [phase] at member
        rcases working item List.mem_cons_self with sends | ⟨q, served, rfl⟩
        · exact heard.kept (Root1.perform_signals w.broker sends p) serves
        · -- The signal that is consumed is the signal of somebody who will be served.
          by_cases same : p = q
          · exact Or.inr (Or.inr (same ▸ served))
          · exact heard.kept (.modifyParticipant_other same _) serves
  | serving left =>
    cases left with
    | nil =>
      rw [phase] at stepped covers
      cases stepped
      refine ⟨⟨sound.listed, sound.saved⟩, covers, no_work rfl, fun p h waits => ?_⟩
      exact (attentive.heard p h waits).same rfl fun member => by rwa [phase] at member
    | cons participant left =>
      rw [phase] at stepped
      cases stepped
      exact attentive.serve phase
  | delivering descriptors participant handles left =>
    cases handles with
    | nil =>
      rw [phase] at stepped covers
      cases stepped
      refine ⟨⟨sound.listed, sound.saved⟩, ?_, no_work rfl, fun p h waits => ?_⟩
      · have none_ : Function.update nothingTaken participant [] = nothingTaken :=
          Function.update_eq_self ..
        rwa [PollPhase.taken, none_] at covers
      · exact (attentive.heard p h waits).same rfl fun member => by rwa [phase] at member
    | cons handle handles =>
      rw [phase] at stepped
      cases stepped
      exact attentive.deliver phase

theorem park (attentive : w.Attentive) {participant : ParticipantId} {resume : Bool}
    (met : w.ParksHeard (.park participant resume)) : (w.park participant resume).Attentive := by
  have sound := attentive.sound.park participant resume
  revert sound
  unfold AwaitWorld.park Root1AwaitScheduler.park
  by_cases zero : participant = 0
  · simp only [zero, if_true, ne_eq, not_true_eq_false, false_and, if_false]
    intro sound
    exact ⟨sound, attentive.covers, attentive.working,
      fun p h waits => (attentive.heard p h waits).same rfl id⟩
  · obtain ⟨free, heard⟩ := met.resolve_left zero
    rw [Option.isNone_iff_eq_none] at free
    simp only [zero, if_false]
    intro sound
    have counted : { w.scheduler with nextId := w.scheduler.nextId + 1 }.Covers w.phase.taken :=
      ⟨attentive.covers.covered, attentive.covers.owned, attentive.covers.once⟩
    refine ⟨sound, counted.add free, attentive.working, fun p h waits => ?_⟩
    by_cases same : h = w.scheduler.nextId
    · subst same
      -- The new continuation is parked on the participant that is heard.
      have owner : participant = p :=
        Root1AwaitScheduler.owner_of_parkedFor (by simp [Root1AwaitScheduler.add, free]; rfl) waits
      exact (owner ▸ heard).same rfl id
    · refine (attentive.heard p h ?_).same rfl id
      simpa [Root1AwaitScheduler.parkedFor, Root1AwaitScheduler.add, free, same] using waits

theorem load (attentive : w.Attentive) {n : Snapshot} (saved : n ∈ w.saves)
    (idle : w.phase.isIdle = true)
    (met : ∀ c ∈ n.order.filterMap n.scheduler.continuations, c.state = .parked →
      w.Heard c.participant) :
    { w with scheduler := (w.scheduler.loadState (some n.value)).1, parks := n.parks }.Attentive := by
  obtain ⟨listed, visited⟩ := attentive.sound.saved n saved
  obtain ⟨kept, table, index⟩ := Root1AwaitScheduler.loaded listed visited w.scheduler
  have taken := taken_of_idle idle
  have owners (p : ParticipantId) : (w.scheduler.loadState (some n.value)).1.ownedBy p =
      n.scheduler.ownedBy p := by
    funext h
    simp only [Root1AwaitScheduler.ownedBy, Snapshot.value, table h]
    cases n.scheduler.continuations h <;> rfl
  have parked (p : ParticipantId) (h : Root1ContinuationHandle) :
      (w.scheduler.loadState (some n.value)).1.parkedFor p h = n.scheduler.parkedFor p h :=
    Root1AwaitScheduler.parkedFor_restored table
  have visits {p : ParticipantId} {h : Root1ContinuationHandle}
      (waits : n.scheduler.parkedFor p h = true) : h ∈ n.order := by
    obtain ⟨c, entry, -⟩ := Root1AwaitScheduler.entry_of_parkedFor waits
    exact visited.mem_iff.mpr ((listed.keys h).mpr (by rw [entry]; rfl))
  refine ⟨⟨kept, attentive.sound.saved⟩, ?_, attentive.working, fun p h waits => ?_⟩
  · show Root1AwaitScheduler.Covers _ w.phase.taken
    rw [taken]
    have lists (p : ParticipantId) :
        nothingTaken p ++ (w.scheduler.loadState (some n.value)).1.byParticipant p =
          n.order.filter (n.scheduler.ownedBy p) := index p
    refine ⟨fun p h waits => ?_, fun p h member => ?_, fun p => ?_⟩
    · rw [parked p h] at waits
      rw [lists p]
      exact List.mem_filter.mpr ⟨visits waits, Root1AwaitScheduler.ownedBy_of_parkedFor waits⟩
    · rw [lists p] at member
      rw [owners p]
      exact (List.mem_filter.mp member).2
    · rw [lists p]
      exact (visited.nodup_iff.mpr listed.distinct).filter _
  · change (w.scheduler.loadState (some n.value)).1.parkedFor p h = true at waits
    rw [parked p h] at waits
    obtain ⟨c, entry, state, owner⟩ := Root1AwaitScheduler.entry_of_parkedFor waits
    have heard := met c (List.mem_filterMap.mpr ⟨h, visits waits, entry⟩) state
    exact (owner ▸ heard).same rfl id

theorem step {event : AwaitEvent} (attentive : w.Attentive) (met : w.ParksHeard event)
    (stepped : w.step event = some next) : next.Attentive := by
  have sound := attentive.sound.step stepped
  cases event with
  | access item =>
    simp only [AwaitWorld.step, Option.ite_none_right_eq_some] at stepped
    obtain ⟨⟨sends, -⟩, ⟨rfl⟩⟩ := stepped
    exact ⟨sound, attentive.covers, attentive.working, fun p h waits =>
      (attentive.heard p h waits).kept (Root1.perform_signals w.broker sends p) id⟩
  | park participant resume =>
    simp only [AwaitWorld.step, Option.ite_none_right_eq_some] at stepped
    obtain ⟨-, ⟨rfl⟩⟩ := stepped
    exact attentive.park met
  | cancel handle =>
    simp only [AwaitWorld.step, Option.ite_none_right_eq_some] at stepped
    obtain ⟨quiet, ⟨rfl⟩⟩ := stepped
    have ended : Root1ContinuationState.cancelled ≠ .parked := by decide
    have covers := taken_of_idle quiet ▸ attentive.covers
    refine ⟨sound, ?_, attentive.working, fun p h waits => ?_⟩
    · show Root1AwaitScheduler.Covers _ w.phase.taken
      rw [taken_of_idle quiet]
      exact covers.markTerminal handle ended
    · exact (attentive.heard p h (Root1AwaitScheduler.parkedFor_of_markTerminal ended waits)).same
        rfl id
  | drop handle =>
    simp only [AwaitWorld.step, Option.ite_none_right_eq_some] at stepped
    obtain ⟨quiet, ⟨rfl⟩⟩ := stepped
    have covers := taken_of_idle quiet ▸ attentive.covers
    refine ⟨sound, ?_, attentive.working, fun p h waits => ?_⟩
    · show Root1AwaitScheduler.Covers _ w.phase.taken
      rw [taken_of_idle quiet]
      exact covers.drop handle
    · exact (attentive.heard p h (Root1AwaitScheduler.parkedFor_of_drop waits)).same rfl id
  | poll timeoutMs events keys order =>
    simp only [AwaitWorld.step, Option.ite_none_right_eq_some] at stepped
    obtain ⟨⟨quiet, -⟩, ⟨rfl⟩⟩ := stepped
    have covers := taken_of_idle quiet ▸ attentive.covers
    refine ⟨sound, covers, no_work rfl, fun p h waits => ?_⟩
    refine (attentive.heard p h waits).same rfl fun member => ?_
    -- Before the poll there was nobody left to serve.
    cases phase : w.phase with
    | idle => rw [phase] at member; cases member
    | waited | taking | serving | delivering | resuming => rw [phase] at quiet; cases quiet
  | advance => exact attentive.advance stepped
  | returns code => exact attentive.returns stepped
  | save order =>
    simp only [AwaitWorld.step, Option.ite_none_right_eq_some] at stepped
    obtain ⟨-, ⟨rfl⟩⟩ := stepped
    exact ⟨sound, attentive.covers, attentive.working,
      fun p h waits => (attentive.heard p h waits).same rfl id⟩
  | load index =>
    simp only [AwaitWorld.step] at stepped
    cases found : w.saves[index]? with
    | none => rw [found] at stepped; cases stepped
    | some n =>
      rw [found] at stepped
      simp only [Option.ite_none_right_eq_some] at stepped
      obtain ⟨quiet, ⟨rfl⟩⟩ := stepped
      exact attentive.load (List.mem_of_getElem? found) quiet (met n found)

end Attentive

end AwaitWorld

end AgentC.Edict

import AgentC.Edict.AwaitSignals

/-! In which runs a poll resumes everybody who is parked on a mailbox that is not empty. -/

namespace AgentC.Edict

open Root1 (Broker MailboxDescriptor ParticipantId Work)
open Root1AwaitScheduler (nothingTaken)

/-- What a poll does until it has returned, with whatever happens meanwhile under the condition. -/
inductive Round : AwaitWorld → AwaitWorld → Prop where
  | returned {w : AwaitWorld} (idle : w.phase.isIdle = true) : Round w w
  | goes {w next final : AwaitWorld} {event : AwaitEvent} (busy : w.phase.isIdle = false)
      (met : w.ParksHeard event) (stepped : w.step event = some next) (rest : Round next final) :
      Round w final

namespace AwaitWorld

/-- The continuation was resumed, or is ready, with the descriptors before any others. -/
def Delivered (w : AwaitWorld) (h : Root1ContinuationHandle)
    (descriptors : List MailboxDescriptor) : Prop :=
  ∃ c, w.scheduler.continuations h = some c ∧ (c.state = .resumed ∨ c.state = .ready) ∧
    ∃ received, descriptors <+: received ∧ c.lastEvents = some (descriptorsToList received)

/--
The next poll resumes every continuation that is parked on a mailbox with descriptors in it, with
these descriptors, and it returns. The poll is one whose `epoll_wait` has room for all that is ready.
-/
def Wakes (w : AwaitWorld) : Prop :=
  ∀ p h, w.scheduler.parkedFor p h = true → w.broker.undrained p ≠ [] →
    ∀ timeoutMs events keys order next, w.step (.poll timeoutMs events keys order) = some next →
      (∀ q, w.broker.signalled q = true → (q, false) ∈ events) →
        (∃ final, Round next final) ∧
          ∀ final, Round next final → final.Delivered h (w.broker.undrained p)

variable {w next : AwaitWorld}

section Ends

theorem ends_of_step {event : AwaitEvent} (busy : w.phase.isIdle = false)
    (stepped : w.step event = some next) (met : w.ParksHeard event)
    (ends : ∃ final, Round next final) : ∃ final, Round w final :=
  ends.imp fun _ => Round.goes busy met stepped

theorem ends_delivering {left : List ParticipantId}
    (after : ∀ w : AwaitWorld, w.phase = .serving left → ∃ final, Round w final)
    (descriptors : List MailboxDescriptor) (participant : ParticipantId) :
    ∀ (handles : List Root1ContinuationHandle) (w : AwaitWorld),
      w.phase = .delivering descriptors participant handles left → ∃ final, Round w final := by
  intro handles
  induction handles with
  | nil =>
    intro w phase
    have busy : w.phase.isIdle = false := by rw [phase]; rfl
    have stepped : w.step .advance = some { w with phase := .serving left } := by
      simp only [step, advance, phase]
    exact ends_of_step busy stepped trivial (after _ rfl)
  | cons handle handles ih =>
    intro w phase
    have busy : w.phase.isIdle = false := by rw [phase]; rfl
    have stepped : w.step .advance = some (w.deliver descriptors participant handle handles left) := by
      simp only [step, advance, phase]
    refine ends_of_step busy stepped trivial ?_
    rcases w.deliver_cases descriptors participant handle handles left with
      ⟨-, eq⟩ | ⟨c, entry, -, -, eq⟩ | ⟨c, -, -, -, eq⟩ <;> rw [eq]
    · exact ih _ rfl
    · -- The callback is called, and returns.
      let told := w.scheduler.store handle (c.told descriptors)
      let resuming : PollPhase := .resuming descriptors participant handle handles left
      let calling : AwaitWorld := { w with scheduler := told, phase := resuming }
      obtain ⟨after, returned, loops⟩ : ∃ after, calling.step (.returns 0) = some after ∧
          after.phase = .delivering descriptors participant handles left := by
        simp only [step, returns, calling, resuming]
        split <;> exact ⟨_, rfl, rfl⟩
      exact ends_of_step (w := calling) rfl returned trivial (ih after loops)
    · exact ih _ rfl

theorem ends_serving : ∀ (left : List ParticipantId) (w : AwaitWorld),
    w.phase = .serving left → ∃ final, Round w final := by
  intro left
  induction left with
  | nil =>
    intro w phase
    have busy : w.phase.isIdle = false := by rw [phase]; rfl
    have stepped : w.step .advance = some { w with phase := .idle } := by
      simp only [step, advance, phase]
    exact ends_of_step busy stepped trivial ⟨_, .returned rfl⟩
  | cons participant left ih =>
    intro w phase
    have busy : w.phase.isIdle = false := by rw [phase]; rfl
    have stepped : w.step .advance = some (w.serve participant left) := by
      simp only [step, advance, phase]
    refine ends_of_step busy stepped trivial ?_
    rcases w.serve_cases participant left with ⟨-, eq⟩ | ⟨-, -, eq⟩ | ⟨-, -, eq⟩ <;> rw [eq]
    · exact ih _ rfl
    · exact ih _ rfl
    · exact ends_delivering ih _ _ _ _ rfl

theorem ends_settle (timeoutMs : Int) (order : List Root1ContinuationHandle)
    (ready : List ParticipantId) : ∃ final, Round (w.settle timeoutMs order ready) final := by
  unfold settle
  dsimp only
  split
  · exact ⟨_, .returned rfl⟩
  · exact ends_serving ready _ rfl

/-- The accesses under the mutex come to an end, since each leads only to less deep ones. -/
theorem ends_taking {timeoutMs : Int} {order : List Root1ContinuationHandle}
    {ready : List ParticipantId} : ∀ (depth : Nat) (work rest : List Work),
      (∀ item ∈ work, item.depth < depth) →
      (∀ w : AwaitWorld, w.phase = .taking timeoutMs order rest ready → ∃ final, Round w final) →
      ∀ w : AwaitWorld, w.phase = .taking timeoutMs order (work ++ rest) ready →
        ∃ final, Round w final := by
  -- The induction is on the depth, and within it on the list of accesses.
  intro depth
  induction depth with
  | zero =>
    intro work rest shallow after w phase
    cases work with
    | nil => exact after w phase
    | cons item _ => exact absurd (shallow item List.mem_cons_self) (Nat.not_lt_zero _)
  | succ depth ih =>
    intro work
    induction work with
    | nil => intro rest _ after w phase; exact after w phase
    | cons item work within =>
      intro rest shallow after w phase
      have busy : w.phase.isIdle = false := by rw [phase]; rfl
      have stepped : w.step .advance = some { w with
          broker := (Root1.perform w.broker item).shared
          phase := .taking timeoutMs order
            ((Root1.perform w.broker item).more ++ (work ++ rest)) ready } := by
        simp only [step, advance, phase, List.cons_append]
      refine ends_of_step busy stepped trivial (ih _ (work ++ rest) (fun later member => ?_) ?_ _ rfl)
      · have below := (Root1.more_of_perform member).2
        have own := shallow item List.mem_cons_self
        omega
      · exact within rest (fun later member => shallow later (List.mem_cons_of_mem _ member)) after

theorem poll_ends {timeoutMs : Int} {events : List EpollEvent}
    {keys : List Root1.ResourceKey} {order : List Root1ContinuationHandle}
    (phase : w.phase = .waited timeoutMs events keys order) : ∃ final, Round w final := by
  have busy : w.phase.isIdle = false := by rw [phase]; rfl
  by_cases empty : events.isEmpty = true
  · have stepped : w.step .advance = some (w.settle timeoutMs order []) := by
      simp only [step, advance, phase, empty, if_true]
    exact ends_of_step busy stepped trivial (ends_settle _ _ _)
  · obtain ⟨next, work, ready, stepped, taking⟩ : ∃ next work ready, w.step .advance = some next ∧
        next.phase = .taking timeoutMs order work ready := by
      simp only [step, advance, phase, empty, Bool.false_eq_true, if_false]
      exact ⟨_, _, _, rfl, rfl⟩
    refine ends_of_step busy stepped trivial ?_
    have shallow : ∀ item ∈ work, item.depth < 5 := fun item _ => by
      cases item <;> simp [Root1.Work.depth]
    refine ends_taking 5 work [] shallow (fun w phase => ?_) next (by rw [taking, List.append_nil])
    have busy : w.phase.isIdle = false := by rw [phase]; rfl
    have stepped : w.step .advance = some (w.settle timeoutMs order ready) := by
      simp only [step, advance, phase]
    exact ends_of_step busy stepped trivial (ends_settle _ _ _)

end Ends

section Promises

/-- A continuation that is still parked and listed, on a mailbox that has the descriptors. -/
structure Pending (w : AwaitWorld) (p : ParticipantId) (h : Root1ContinuationHandle)
    (descriptors : List MailboxDescriptor) : Prop where
  parked : w.scheduler.parkedFor p h = true
  listed : h ∈ w.scheduler.byParticipant p
  waiting : descriptors <+: w.broker.undrained p

/-- How a poll that is under way comes to deliver the descriptors. -/
inductive Promised (w : AwaitWorld) (p : ParticipantId) (h : Root1ContinuationHandle)
    (descriptors : List MailboxDescriptor) : Prop where
  | delivered (done : w.Delivered h descriptors)
  /-- `epoll_wait` has reported the participant. -/
  | reported {timeoutMs : Int} {events : List EpollEvent} {keys : List Root1.ResourceKey}
      {order : List Root1ContinuationHandle} (phase : w.phase = .waited timeoutMs events keys order)
      (member : (p, false) ∈ events) (pending : w.Pending p h descriptors)
  | serves (member : p ∈ w.phase.toServe) (pending : w.Pending p h descriptors)
  | queued {received : List MailboxDescriptor} {participant : ParticipantId}
      {handles : List Root1ContinuationHandle} {left : List ParticipantId}
      (phase : w.phase = .delivering received participant handles left)
      (front : descriptors <+: received) (member : h ∈ handles)
      (parked : w.scheduler.isParked h = true)
  /-- Another handle's callback runs before the handle's turn. -/
  | next {received : List MailboxDescriptor} {participant : ParticipantId}
      {handle : Root1ContinuationHandle} {handles : List Root1ContinuationHandle}
      {left : List ParticipantId}
      (phase : w.phase = .resuming received participant handle handles left)
      (front : descriptors <+: received) (member : h ∈ handles)
      (parked : w.scheduler.isParked h = true)
  /-- The callback of the handle runs with the descriptors. -/
  | called {received : List MailboxDescriptor} {participant : ParticipantId}
      {handles : List Root1ContinuationHandle} {left : List ParticipantId} {c : ParkedContinuation}
      (phase : w.phase = .resuming received participant h handles left)
      (front : descriptors <+: received) (entry : w.scheduler.continuations h = some c)
      (told : c.lastEvents = some (descriptorsToList received))

variable {p : ParticipantId} {h : Root1ContinuationHandle} {descriptors : List MailboxDescriptor}

theorem Promised.kept (promised : w.Promised p h descriptors) (idle : w.phase.isIdle = true) :
    w.Delivered h descriptors := by
  have quiet : w.phase = .idle := by
    cases phase : w.phase with
    | idle => rfl
    | waited | taking | serving | delivering | resuming => rw [phase] at idle; cases idle
  cases promised with
  | delivered done => exact done
  | serves member _ => rw [quiet] at member; cases member
  | reported phase _ _ | queued phase _ _ _ | next phase _ _ _ | called phase _ _ _ =>
    rw [quiet] at phase
    cases phase

theorem Promised.aside (promised : w.Promised p h descriptors) (phase : next.phase = w.phase)
    (entries : ∀ c, w.scheduler.continuations h = some c → next.scheduler.continuations h = some c)
    (index : ∀ p, h ∈ w.scheduler.byParticipant p → h ∈ next.scheduler.byParticipant p)
    (rings : ∀ p, w.broker.undrained p <+: next.broker.undrained p) :
    next.Promised p h descriptors := by
  have pends (pending : w.Pending p h descriptors) : next.Pending p h descriptors := by
    obtain ⟨c, entry, state, owner⟩ := Root1AwaitScheduler.entry_of_parkedFor pending.parked
    refine ⟨?_, index p pending.listed, pending.waiting.trans (rings p)⟩
    rw [Root1AwaitScheduler.parkedFor_of_entry (entries c entry), state, owner]
    simp
  have parks (parked : w.scheduler.isParked h = true) : next.scheduler.isParked h = true := by
    cases entry : w.scheduler.continuations h with
    | none => simp [Root1AwaitScheduler.isParked, entry] at parked
    | some c =>
      simpa [Root1AwaitScheduler.isParked, entry, entries c entry] using parked
  cases promised with
  | delivered done =>
    obtain ⟨c, entry, rest⟩ := done
    exact .delivered ⟨c, entries c entry, rest⟩
  | reported was member pending => exact .reported (phase.trans was) member (pends pending)
  | serves member pending => exact .serves (phase ▸ member) (pends pending)
  | queued was front member parked => exact .queued (phase.trans was) front member (parks parked)
  | next was front member parked => exact .next (phase.trans was) front member (parks parked)
  | called was front entry told =>
    exact .called (phase.trans was) front (entries _ entry) told

variable {participant : ParticipantId} {handle : Root1ContinuationHandle}

theorem park_aside {resume : Bool} (met : w.ParksHeard (.park participant resume)) :
    (∀ c, w.scheduler.continuations h = some c →
      (w.park participant resume).scheduler.continuations h = some c) ∧
    ∀ p, h ∈ w.scheduler.byParticipant p →
      h ∈ (w.park participant resume).scheduler.byParticipant p := by
  unfold park Root1AwaitScheduler.park
  by_cases zero : participant = 0
  · simp only [zero, if_true]
    exact ⟨fun _ entry => entry, fun _ listed => listed⟩
  · have free := Option.isNone_iff_eq_none.mp (met.resolve_left zero).1
    simp only [zero, if_false]
    constructor
    · intro c entry
      have apart : h ≠ w.scheduler.nextId := by
        rintro rfl
        rw [free] at entry
        cases entry
      simpa [Root1AwaitScheduler.add, free, apart] using entry
    · intro p listed
      by_cases same : p = participant
      · subst same
        simp [Root1AwaitScheduler.add, listed]
      · simpa [Root1AwaitScheduler.add, same] using listed

theorem entry_timeOut {c : ParkedContinuation} (ended : c.state ≠ .parked) :
    ∀ (found : List Root1ContinuationHandle) {s : Root1AwaitScheduler},
      s.continuations h = some c → (s.timeOut found).2.continuations h = some c := by
  intro found
  induction found with
  | nil => intro s entry; exact entry
  | cons other rest ih =>
    intro s entry
    refine ih ?_
    split
    · next d held =>
      split
      · next state =>
        have apart : h ≠ other := by
          rintro rfl
          obtain rfl : d = c := Option.some.inj (held.symm.trans entry)
          exact ended state
        simpa [Root1AwaitScheduler.store, Root1AwaitScheduler.removeFromParticipantIndex, apart]
          using entry
      · exact entry
    · exact entry

theorem Delivered.congr (done : w.Delivered h descriptors)
    (entries : ∀ c, w.scheduler.continuations h = some c → c.state ≠ .parked →
      next.scheduler.continuations h = some c) : next.Delivered h descriptors := by
  obtain ⟨c, entry, state, rest⟩ := done
  have ended : c.state ≠ .parked := by
    rcases state with resumed | ready
    · rw [resumed]; decide
    · rw [ready]; decide
  exact ⟨c, entries c entry ended, state, rest⟩

theorem apart_of_listed (attentive : w.Attentive) {q : ParticipantId}
    (taken : handle ∈ w.phase.taken q) (pending : w.Pending p h descriptors) : h ≠ handle := by
  rintro rfl
  have own := attentive.covers.owned q h (List.mem_append_left _ taken)
  have also := attentive.covers.owned p h (List.mem_append_right _ pending.listed)
  obtain rfl := Root1AwaitScheduler.owner_unique own also
  exact List.disjoint_of_nodup_append (attentive.covers.once q) taken pending.listed

theorem Pending.store (pending : w.Pending p h descriptors) (apart : h ≠ handle)
    (new : ParkedContinuation) {result : Root1AwaitPollResult} {phase : PollPhase} :
    { w with scheduler := w.scheduler.store handle new, result, phase }.Pending p h descriptors :=
  ⟨(Root1AwaitScheduler.parkedFor_store_other apart new).trans pending.parked, pending.listed,
    pending.waiting⟩

theorem isParked_store_other {s : Root1AwaitScheduler} (apart : h ≠ handle)
    (new : ParkedContinuation) :
    (s.store handle new).isParked h = s.isParked h := by
  simp [Root1AwaitScheduler.isParked, Root1AwaitScheduler.store, apart]

theorem promised_settle (timeoutMs : Int) (order : List Root1ContinuationHandle)
    {ready : List ParticipantId}
    (promised : w.Delivered h descriptors ∨ p ∈ ready ∧ w.Pending p h descriptors) :
    (w.settle timeoutMs order ready).Promised p h descriptors := by
  unfold settle
  dsimp only
  rcases promised with done | ⟨member, pending⟩
  · refine .delivered (done.congr fun c entry ended => ?_)
    split
    · exact entry_timeOut ended _ entry
    · exact entry
  · have some_ : ready.isEmpty = false := by
      cases ready with
      | nil => cases member
      | cons _ _ => rfl
    rw [if_neg (by simp [some_])]
    exact .serves member ⟨pending.parked, pending.listed, pending.waiting⟩

theorem promised_serve {left : List ParticipantId} (some_ : descriptors ≠ [])
    (promised : w.Delivered h descriptors ∨
      p ∈ participant :: left ∧ w.Pending p h descriptors) :
    (w.serve participant left).Promised p h descriptors := by
  rcases promised with done | ⟨member, pending⟩
  · refine .delivered (done.congr fun c entry _ => ?_)
    rcases w.serve_cases participant left with ⟨-, eq⟩ | ⟨-, -, eq⟩ | ⟨-, -, eq⟩ <;> rw [eq] <;>
      exact entry
  · -- Whoever waits on the participant itself is served now, the others keep their turn.
    have later : p ≠ participant → p ∈ left := (List.mem_cons.mp member).resolve_left
    have rings (apart : p ≠ participant) : descriptors <+:
        (Root1.perform w.broker (.drainDescriptors participant)).shared.undrained p := by
      rw [Root1.perform, Broker.undrained_modifyParticipant_other apart]
      exact pending.waiting
    rcases w.serve_cases participant left with ⟨empty, eq⟩ | ⟨-, empty, eq⟩ | ⟨-, -, eq⟩ <;> rw [eq]
    · have apart : p ≠ participant := by
        rintro rfl
        have listed := pending.listed
        rw [empty] at listed
        cases listed
      exact .serves (later apart) ⟨pending.parked, pending.listed, pending.waiting⟩
    · have apart : p ≠ participant := by
        rintro rfl
        exact some_ (List.prefix_nil.mp (empty ▸ pending.waiting))
      exact .serves (later apart) ⟨pending.parked, pending.listed, rings apart⟩
    · by_cases same : p = participant
      · subst same
        exact .queued rfl pending.waiting pending.listed
          (Root1AwaitScheduler.isParked_of_parkedFor pending.parked)
      · refine .serves (later same) ⟨pending.parked, ?_, rings same⟩
        simpa [same] using pending.listed

theorem promised_deliver (attentive : w.Attentive) {received : List MailboxDescriptor}
    {handles : List Root1ContinuationHandle} {left : List ParticipantId}
    (phase : w.phase = .delivering received participant (handle :: handles) left)
    (promised : w.Promised p h descriptors) :
    (w.deliver received participant handle handles left).Promised p h descriptors := by
  have taken : handle ∈ w.phase.taken participant := by
    rw [phase, PollPhase.taken, Function.update_self]
    exact List.mem_cons_self
  have turn : w.Delivered h descriptors ∨ (p ∈ left ∧ w.Pending p h descriptors) ∨
      (descriptors <+: received ∧ h ∈ handle :: handles ∧ w.scheduler.isParked h = true) := by
    cases promised with
    | delivered done => exact Or.inl done
    | serves member pending => rw [phase] at member; exact Or.inr (Or.inl ⟨member, pending⟩)
    | queued was front member parked =>
      rw [phase] at was
      cases was
      exact Or.inr (Or.inr ⟨front, member, parked⟩)
    | reported was _ _ | next was _ _ _ | called was _ _ _ => rw [phase] at was; cases was
  -- A continuation that something was delivered to is parked no more, so it is not this one.
  have ended {c : ParkedContinuation} (entry : w.scheduler.continuations handle = some c)
      (state : c.state = .parked) (new : ParkedContinuation) (c' : ParkedContinuation)
      (held : w.scheduler.continuations h = some c') (over' : c'.state ≠ .parked) :
      (w.scheduler.store handle new).continuations h = some c' := by
    have apart : h ≠ handle := by
      rintro rfl
      obtain rfl : c = c' := Option.some.inj (entry.symm.trans held)
      exact over' state
    simpa [Root1AwaitScheduler.store, apart] using held
  rcases w.deliver_cases received participant handle handles left with
    ⟨unparked, eq⟩ | ⟨c, entry, state, -, eq⟩ | ⟨c, entry, state, -, eq⟩ <;> rw [eq]
  · rcases turn with done | ⟨member, pending⟩ | ⟨front, member, parked⟩
    · exact .delivered (done.congr fun _ held _ => held)
    · exact .serves member ⟨pending.parked, pending.listed, pending.waiting⟩
    · have apart : h ≠ handle := by
        rintro rfl
        exact Bool.false_ne_true (unparked.symm.trans parked)
      exact .queued rfl front ((List.mem_cons.mp member).resolve_left apart) parked
  · rcases turn with done | ⟨member, pending⟩ | ⟨front, member, parked⟩
    · exact .delivered (done.congr (ended entry state _))
    · exact .serves member (pending.store (apart_of_listed attentive taken pending) _)
    · by_cases same : h = handle
      · subst same
        exact .called rfl front (c := c.told received) (by simp [Root1AwaitScheduler.store]) rfl
      · exact .next rfl front ((List.mem_cons.mp member).resolve_left same)
          ((isParked_store_other same _).trans parked)
  · rcases turn with done | ⟨member, pending⟩ | ⟨front, member, parked⟩
    · exact .delivered (done.congr (ended entry state _))
    · exact .serves member (pending.store (apart_of_listed attentive taken pending) _)
    · by_cases same : h = handle
      · subst same
        exact .delivered ⟨c.readied received, by simp [Root1AwaitScheduler.store], Or.inr rfl,
          received, front, rfl⟩
      · exact .queued rfl front ((List.mem_cons.mp member).resolve_left same)
          ((isParked_store_other same _).trans parked)

theorem promised_returns (attentive : w.Attentive) {code : Int32}
    (stepped : w.returns code = some next) (promised : w.Promised p h descriptors) :
    next.Promised p h descriptors := by
  unfold returns at stepped
  cases phase : w.phase with
  | idle | waited | taking | serving | delivering => simp [phase] at stepped
  | resuming received participant handle handles left =>
    have own : w.phase.taken participant = handle :: handles := by
      rw [phase, PollPhase.taken, Function.update_self]
    have once := (List.nodup_append.mp (attentive.covers.once participant)).1
    rw [own] at once
    have taken : handle ∈ w.phase.taken participant := own ▸ List.mem_cons_self
    rw [phase] at stepped
    dsimp only at stepped
    -- The callback's own continuation is resumed, and the entries of others stay.
    obtain ⟨scheduler, eq, others, resumed, index⟩ : ∃ scheduler,
        next = { w with
          scheduler
          phase := .delivering received participant handles left
          result := { w.result with resumedContinuations := w.result.resumedContinuations + 1 } } ∧
        (∀ other, other ≠ handle → scheduler.continuations other = w.scheduler.continuations other) ∧
        (∀ c, w.scheduler.continuations handle = some c →
          scheduler.continuations handle = some { c with resumeState := code, state := .resumed }) ∧
        scheduler.byParticipant = w.scheduler.byParticipant := by
      cases entry : w.scheduler.continuations handle with
      | none =>
        rw [entry] at stepped
        cases stepped
        exact ⟨w.scheduler, rfl, fun _ _ => rfl, (fun _ held => by cases held), rfl⟩
      | some c =>
        rw [entry] at stepped
        cases stepped
        refine ⟨_, rfl, fun other apart => ?_, fun c' held => ?_, rfl⟩
        · simp [Root1AwaitScheduler.store, apart]
        · cases held
          simp [Root1AwaitScheduler.store]
    subst eq
    have kept {apart : h ≠ handle} : scheduler.continuations h = w.scheduler.continuations h :=
      others h apart
    cases promised with
    | delivered done =>
      obtain ⟨c, entry, state, given⟩ := done
      by_cases same : h = handle
      · subst same
        exact .delivered ⟨_, resumed c entry, Or.inl rfl, given⟩
      · exact .delivered ⟨c, (others h same).trans entry, state, given⟩
    | serves member pending =>
      have apart := apart_of_listed attentive taken pending
      rw [phase] at member
      refine .serves member ⟨?_, ?_, pending.waiting⟩
      · simpa only [Root1AwaitScheduler.parkedFor, others h apart] using pending.parked
      · show h ∈ scheduler.byParticipant p
        rw [index]
        exact pending.listed
    | next was front member parked =>
      rw [phase] at was
      cases was
      have apart : h ≠ handle := fun same => (List.nodup_cons.mp once).1 (same ▸ member)
      refine .queued rfl front member ?_
      simpa only [Root1AwaitScheduler.isParked, others h apart] using parked
    | called was front entry told =>
      rw [phase] at was
      cases was
      exact .delivered ⟨_, resumed _ entry, Or.inl rfl, received, front, told⟩
    | reported was _ _ | queued was _ _ _ => rw [phase] at was; cases was

theorem promised_advance (attentive : w.Attentive) (some_ : descriptors ≠ [])
    (stepped : w.advance = some next) (promised : w.Promised p h descriptors) :
    next.Promised p h descriptors := by
  unfold advance at stepped
  cases phase : w.phase with
  | idle | resuming => simp [phase] at stepped
  | waited timeoutMs events keys order =>
    rw [phase] at stepped
    dsimp only at stepped
    cases promised with
    | delivered done =>
      split at stepped
      · cases stepped
        exact promised_settle _ _ (Or.inl done)
      · cases stepped
        exact .delivered (done.congr fun _ entry _ => entry)
    | reported was member pending =>
      rw [phase] at was
      cases was
      -- The participant is registered, since its mailbox is not empty.
      have registered : w.broker.isValidParticipantLocked p = true := by
        cases known : w.broker.participants p with
        | none =>
          have waiting := pending.waiting
          rw [Broker.undrained_of_none known] at waiting
          exact absurd (List.prefix_nil.mp waiting) some_
        | some _ => simp [Broker.isValidParticipantLocked, known]
      have some' : events.isEmpty = false := by
        cases events with
        | nil => cases member
        | cons _ _ => rfl
      rw [if_neg (by simp [some'])] at stepped
      cases stepped
      refine .serves ?_ ⟨pending.parked, pending.listed, pending.waiting⟩
      exact List.mem_map.mpr ⟨(p, false), List.mem_filter.mpr ⟨member, registered⟩, rfl⟩
    | serves member _ => rw [phase] at member; cases member
    | queued was _ _ _ | next was _ _ _ | called was _ _ _ => rw [phase] at was; cases was
  | taking timeoutMs order work ready =>
    have turn : w.Delivered h descriptors ∨ p ∈ ready ∧ w.Pending p h descriptors := by
      cases promised with
      | delivered done => exact Or.inl done
      | serves member pending => rw [phase] at member; exact Or.inr ⟨member, pending⟩
      | reported was _ _ | queued was _ _ _ | next was _ _ _ | called was _ _ _ =>
        rw [phase] at was
        cases was
    have working := attentive.working
    rw [phase] at stepped working
    cases work with
    | nil =>
      cases stepped
      exact promised_settle _ _ turn
    | cons item rest =>
      cases stepped
      rcases turn with done | ⟨member, pending⟩
      · exact .delivered (done.congr fun _ entry _ => entry)
      · refine .serves member ⟨pending.parked, pending.listed, ?_⟩
        rcases working item List.mem_cons_self with sends | ⟨q, -, rfl⟩
        · exact pending.waiting.trans (Root1.undrained_sends w.broker sends p)
        · show descriptors <+: (Root1.perform w.broker (.drainEventFd q)).shared.undrained p
          rw [Root1.undrained_drainEventFd]
          exact pending.waiting
  | serving left =>
    have turn : w.Delivered h descriptors ∨ p ∈ left ∧ w.Pending p h descriptors := by
      cases promised with
      | delivered done => exact Or.inl done
      | serves member pending => rw [phase] at member; exact Or.inr ⟨member, pending⟩
      | reported was _ _ | queued was _ _ _ | next was _ _ _ | called was _ _ _ =>
        rw [phase] at was
        cases was
    rw [phase] at stepped
    cases left with
    | nil =>
      cases stepped
      rcases turn with done | ⟨member, -⟩
      · exact .delivered (done.congr fun _ entry _ => entry)
      · cases member
    | cons participant left =>
      cases stepped
      exact promised_serve some_ turn
  | delivering received participant handles left =>
    cases handles with
    | nil =>
      rw [phase] at stepped
      cases stepped
      cases promised with
      | delivered done => exact .delivered (done.congr fun _ entry _ => entry)
      | serves member pending =>
        rw [phase] at member
        exact .serves member ⟨pending.parked, pending.listed, pending.waiting⟩
      | queued was front member _ =>
        rw [phase] at was
        cases was
        cases member
      | reported was _ _ | next was _ _ _ | called was _ _ _ => rw [phase] at was; cases was
    | cons handle handles =>
      rw [phase] at stepped
      cases stepped
      exact promised_deliver attentive phase promised

theorem promised_step {event : AwaitEvent} (attentive : w.Attentive) (some_ : descriptors ≠ [])
    (busy : w.phase.isIdle = false) (met : w.ParksHeard event) (stepped : w.step event = some next)
    (promised : w.Promised p h descriptors) : next.Promised p h descriptors := by
  cases event with
  | access item =>
    simp only [step, Option.ite_none_right_eq_some] at stepped
    obtain ⟨⟨sends, -⟩, ⟨rfl⟩⟩ := stepped
    exact promised.aside rfl (fun _ entry => entry) (fun _ listed => listed)
      fun p => Root1.undrained_sends w.broker sends p
  | park participant resume =>
    simp only [step, Option.ite_none_right_eq_some] at stepped
    obtain ⟨-, ⟨rfl⟩⟩ := stepped
    obtain ⟨entries, index⟩ := park_aside met
    exact promised.aside rfl entries index fun p => List.prefix_rfl
  | advance => exact promised_advance attentive some_ stepped promised
  | returns code => exact promised_returns attentive stepped promised
  | cancel | drop | poll | save =>
    -- These need that no poll is under way.
    simp [step, busy] at stepped
  | load index =>
    simp only [step] at stepped
    split at stepped <;> simp [busy] at stepped

theorem delivered_of_round {final : AwaitWorld} (round : Round w final) (attentive : w.Attentive)
    (some_ : descriptors ≠ []) (promised : w.Promised p h descriptors) :
    final.Delivered h descriptors := by
  -- The induction follows the round, with the promise as the invariant.
  induction round with
  | returned idle => exact promised.kept idle
  | goes busy met stepped _ ih =>
    exact ih (attentive.step met stepped)
      (promised_step attentive some_ busy met stepped promised)

end Promises

theorem Attentive.wakes (attentive : w.Attentive) : w.Wakes := by
  intro p h parked some_ timeoutMs events keys order next stepped complete
  have met : w.ParksHeard (.poll timeoutMs events keys order) := trivial
  have after := attentive.step met stepped
  simp only [AwaitWorld.step, Option.ite_none_right_eq_some] at stepped
  obtain ⟨⟨quiet, -⟩, ⟨rfl⟩⟩ := stepped
  refine ⟨poll_ends rfl, fun final round => delivered_of_round (p := p) round after some_ ?_⟩
  have idle : w.phase = .idle := by
    cases phase : w.phase with
    | idle => rfl
    | waited | taking | serving | delivering | resuming => rw [phase] at quiet; cases quiet
  -- Its signal is there, so it is reported.
  have signalled : w.broker.signalled p = true := by
    rcases attentive.heard p h parked with empty | signalled | served
    · exact absurd empty some_
    · exact signalled
    · rw [idle] at served
      cases served
  have listed : h ∈ w.scheduler.byParticipant p := by
    have covered := attentive.covers.covered p h parked
    rwa [idle] at covered
  exact .reported rfl (complete p signalled) ⟨parked, listed, List.prefix_rfl⟩

theorem initial_attentive : Attentive {} where
  sound := initial_sound
  covers := ⟨nofun, nofun, fun _ => List.nodup_nil⟩
  working := nofun
  heard := nofun

/--
In every run in which continuations are parked only where the mailbox is empty or its wake signal
was not consumed, the next poll resumes whoever is parked on a mailbox with descriptors.
-/
theorem next_poll_resumes (events : List AwaitEvent) (met : StepsMeet step ParksHeard {} events) :
    Throughout step Wakes {} events :=
  have kept : ∀ w event next, Attentive w → ParksHeard w event → w.step event = some next →
      Attentive next :=
    fun _ _ _ attentive met stepped => attentive.step met stepped
  Throughout.imp (fun _ => Attentive.wakes) events _
    (throughout_of_stepsMeet kept events _ initial_attentive met)

/-- A message that comes after the parking, and one that comes before it without a poll between. -/
def heardRun : List AwaitEvent :=
  [.access (.register (some [])), .park 1 true, .access (.sendMessage 1 [120] 7),
    .poll 0 [(1, false)] [] [1], .advance, .advance, .advance, .advance, .advance, .returns 3,
    .advance, .advance, .access (.sendMessage 1 [121] 8), .park 1 false]

theorem next_poll_resumes_heard : Throughout step Wakes {} heardRun :=
  next_poll_resumes heardRun (by decide +kernel)

def unheardRun : List AwaitEvent :=
  [.access (.register (some [])), .access (.sendMessage 1 [120] 7), .poll 0 [(1, false)] [] [],
    .advance, .advance, .advance, .advance, .advance, .park 1 false]

theorem unheardRun_ends : ∃ w, runFrom step {} unheardRun = some w ∧ w.phase = .idle ∧
    w.scheduler.parkedFor 1 1 = true ∧ (w.broker.undrained 1).length = 1 ∧
    w.scheduler.handles = [1] ∧ ∀ q, w.broker.signalled q = false := by
  have reached : (runFrom step {} unheardRun).map (fun w => (w.phase.isIdle,
      w.scheduler.parkedFor 1 1, (w.broker.undrained 1).length, w.scheduler.handles)) =
        some (true, true, 1, [1]) := by decide +kernel
  obtain ⟨w, ran, facts⟩ := Option.map_eq_some_iff.mp reached
  simp only [Prod.mk.injEq] at facts
  obtain ⟨quiet, parked, one, handles⟩ := facts
  -- The only participant has a record whose counter was drained.
  have records : (runFrom step {} unheardRun).map (fun w => w.broker.participants) = some
      (Function.update (Function.update (Function.update (Function.update (fun _ => none)
        1 (some {}))
        1 (some {
          descriptorMailbox := [Root1.setInlinePayload { eventKind := .message, sequence := 7 } [120]]
          eventFd := 1 }))
        1 (some {
          descriptorMailbox := [Root1.setInlinePayload { eventKind := .message, sequence := 7 } [120]]
          eventFd := 2, mailbox := [{ sequence := 7, payload := [120] }] }))
        1 (some {
          descriptorMailbox := [Root1.setInlinePayload { eventKind := .message, sequence := 7 } [120]]
          eventFd := 0, mailbox := [{ sequence := 7, payload := [120] }] })) := by
    with_unfolding_all rfl
  rw [ran, Option.map_some, Option.some.injEq, Function.update_idem, Function.update_idem,
    Function.update_idem] at records
  refine ⟨w, ran, ?_, parked, one, handles, fun q => ?_⟩
  · cases phase : w.phase with
    | idle => rfl
    | waited | taking | serving | delivering | resuming => rw [phase] at quiet; cases quiet
  · rw [Broker.signalled, records]
    by_cases same : q = 1
    · subst same
      rfl
    · rw [Function.update_of_ne same]

/-- Whoever parks once a poll has consumed the wake signal is not resumed with what is there. -/
theorem next_poll_misses_undrained : ∃ w, runFrom step {} unheardRun = some w ∧
    w.phase.isIdle = true ∧ w.scheduler.parkedFor 1 1 = true ∧
    (w.broker.undrained 1).length = 1 ∧ ¬ w.Wakes := by
  obtain ⟨w, ran, idle, parked, one, handles, silent⟩ := unheardRun_ends
  refine ⟨w, ran, by rw [idle]; rfl, parked, one, fun wakes => ?_⟩
  have some_ : w.broker.undrained 1 ≠ [] := by
    rw [← List.length_pos_iff, one]
    exact Nat.one_pos
  -- A poll finds nobody ready, and returns with nothing delivered.
  let polling : AwaitWorld := { w with phase := .waited 0 [] [] [1], result := {} }
  have stepped : w.step (.poll 0 [] [] [1]) = some polling := by
    simp [step, idle, handles, PollPhase.isIdle, polling]
  obtain ⟨-, delivers⟩ := wakes 1 1 parked some_ 0 [] [] [1] polling stepped fun q signalled => by
    rw [silent q] at signalled
    cases signalled
  have round : Round polling { w with phase := .idle, result := {} } :=
    @Round.goes _ _ _ .advance rfl trivial rfl
      (@Round.goes _ _ _ .advance rfl trivial rfl (.returned rfl))
  obtain ⟨c, entry, state, -⟩ := delivers _ round
  obtain ⟨d, held, waits, -⟩ := Root1AwaitScheduler.entry_of_parkedFor parked
  obtain rfl : d = c := Option.some.inj (held.symm.trans entry)
  rcases state with resumed | ready
  · rw [waits] at resumed
    cases resumed
  · rw [waits] at ready
    cases ready

end AwaitWorld

end AgentC.Edict

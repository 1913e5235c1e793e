import AgentC.Edict.AwaitScheduler
import AgentC.Library.Runs
import AgentC.Root1.Signals

/-! Poll rounds of the await scheduler, between which and during which others use the broker. -/

namespace AgentC.Edict

open Listree (ListreeValue)
open Root1 (Broker MailboxDescriptor ParticipantId ResourceKey Work)

/-- What `pollAndResume` returns. -/
structure Root1AwaitPollResult where
  readyParticipants : List ParticipantId := []
  readyContinuations : Nat := 0
  resumedContinuations : Nat := 0
  timedOutContinuations : Nat := 0
  deriving DecidableEq, Repr

/--
An event of `epoll_wait`: a participant, and whether its process exited rather than its counter rose.
-/
abbrev EpollEvent := ParticipantId × Bool

/-- How far `pollAndResume` has come. -/
inductive PollPhase where
  | idle
  /-- `epoll_wait` has returned. -/
  | waited (timeoutMs : Int) (events : List EpollEvent) (keys : List ResourceKey)
      (order : List Root1ContinuationHandle)
  | taking (timeoutMs : Int) (order : List Root1ContinuationHandle) (work : List Work)
      (ready : List ParticipantId)
  | serving (left : List ParticipantId)
  | delivering (descriptors : List MailboxDescriptor) (participant : ParticipantId)
      (handles : List Root1ContinuationHandle) (left : List ParticipantId)
  | resuming (descriptors : List MailboxDescriptor) (participant : ParticipantId)
      (handle : Root1ContinuationHandle) (handles : List Root1ContinuationHandle)
      (left : List ParticipantId)

/-- A saved scheduler. The code keeps its value alone, not the order in which handles were parked. -/
structure Snapshot where
  scheduler : Root1AwaitScheduler
  order : List Root1ContinuationHandle
  parks : List Root1ContinuationHandle

def Snapshot.value (n : Snapshot) : ListreeValue :=
  n.scheduler.saveState n.order

/--
A scheduler with the broker that it polls. `parks` lists the handles of the table as they were
parked, which the code does not keep.
-/
structure AwaitWorld where
  broker : Broker := Broker.initial
  scheduler : Root1AwaitScheduler := {}
  phase : PollPhase := .idle
  result : Root1AwaitPollResult := {}
  parks : List Root1ContinuationHandle := []
  saves : List Snapshot := []

/-- What can happen. The orders are those in which maps are visited. -/
inductive AwaitEvent where
  /-- Another thread has an access to the broker. -/
  | access (item : Work)
  | park (participant : ParticipantId) (resume : Bool)
  | cancel (handle : Root1ContinuationHandle)
  | drop (handle : Root1ContinuationHandle)
  | poll (timeoutMs : Int) (events : List EpollEvent) (keys : List ResourceKey)
      (order : List Root1ContinuationHandle)
  /-- The poll goes on. -/
  | advance
  /-- The callback that runs returns. -/
  | returns (code : Int32)
  | save (order : List Root1ContinuationHandle)
  | load (index : Nat)

def maxEvents : Nat := 16

def lockFree : Work → Bool
  | .tryAcquire _ _ | .acquireFast _ _ => true
  | _ => false

/-- Whether an event can be reported: a counter above zero, or a process that was not yet reported. -/
def reports (b : Broker) (event : EpollEvent) : Bool :=
  if event.2 then
    match b.participants event.1 with
    | some record => record.pidFd && !record.pidDeathReported
    | none => false
  else b.signalled event.1

namespace PollPhase

def callerRuns : PollPhase → Bool
  | .idle | .resuming .. => true
  | _ => false

def isIdle : PollPhase → Bool
  | .idle => true
  | _ => false

def holdsMutex : PollPhase → Bool
  | .taking .. => true
  | _ => false

end PollPhase

namespace AwaitWorld

/-- Parking, by the caller or by a callback. -/
def park (w : AwaitWorld) (participant : ParticipantId) (resume : Bool) : AwaitWorld :=
  let (handle, scheduler) := w.scheduler.park participant resume
  -- A handle that is taken is not parked again.
  let new := participant ≠ 0 ∧ (w.scheduler.continuations handle).isNone
  { w with scheduler, parks := if new then w.parks ++ [handle] else w.parks }

/-- After the mutex is released: nobody was ready in the time that there was, or the loop begins. -/
def settle (w : AwaitWorld) (timeoutMs : Int) (order : List Root1ContinuationHandle)
    (ready : List ParticipantId) : AwaitWorld :=
  let result := { w.result with readyParticipants := ready }
  if ready.isEmpty ∧ 0 < timeoutMs then
    let (count, scheduler) := w.scheduler.timeOut (order.filter w.scheduler.isParked)
    { w with scheduler, phase := .idle, result := { result with timedOutContinuations := count } }
  else { w with phase := .serving ready, result }

def serve (w : AwaitWorld) (participant : ParticipantId) (left : List ParticipantId) : AwaitWorld :=
  let entry := w.scheduler.byParticipant participant
  if entry.isEmpty then { w with phase := .serving left }
  else
    let descriptors := w.broker.undrained participant
    let broker := (Root1.perform w.broker (.drainDescriptors participant)).shared
    if descriptors.isEmpty then { w with broker, phase := .serving left }
    else
      -- The entry is moved out of the index before its handles are looked at.
      { w with
        broker
        scheduler := { w.scheduler with
          byParticipant := Function.update w.scheduler.byParticipant participant [] }
        phase := .delivering descriptors participant entry left }

def deliver (w : AwaitWorld) (descriptors : List MailboxDescriptor) (participant : ParticipantId)
    (handle : Root1ContinuationHandle) (handles : List Root1ContinuationHandle)
    (left : List ParticipantId) : AwaitWorld :=
  let after := { w with phase := .delivering descriptors participant handles left }
  match w.scheduler.continuations handle with
  | none => after
  | some c =>
    if c.state ≠ .parked then after
    else
      let lastEvents := some (descriptorsToList descriptors)
      let told := { c with lastEvents, eventsDelivered := UInt64.ofNat (eventCount lastEvents) }
      if c.resume then
        { w with
          scheduler := w.scheduler.store handle told
          phase := .resuming descriptors participant handle handles left }
      else
        { after with
          scheduler := w.scheduler.store handle { told with state := .ready }
          result := { w.result with readyContinuations := w.result.readyContinuations + 1 } }

/-- The poll goes on by one step of its own. -/
def advance (w : AwaitWorld) : Option AwaitWorld :=
  match w.phase with
  | .idle | .resuming .. => none
  | .waited timeoutMs events keys order =>
    if events.isEmpty then some (w.settle timeoutMs order [])
    else
      -- Events of participants that are not registered are passed over.
      let known := events.filter fun event => w.broker.isValidParticipantLocked event.1
      let work := known.map fun event =>
        if event.2 then Work.reportDown event.1 keys else .drainEventFd event.1
      some { w with phase := .taking timeoutMs order work (known.map (·.1)) }
  | .taking timeoutMs order [] ready => some (w.settle timeoutMs order ready)
  | .taking timeoutMs order (item :: rest) ready =>
    let outcome := Root1.perform w.broker item
    some { w with
      broker := outcome.shared, phase := .taking timeoutMs order (outcome.more ++ rest) ready }
  | .serving [] => some { w with phase := .idle }
  | .serving (participant :: left) => some (w.serve participant left)
  | .delivering _ _ [] left => some { w with phase := .serving left }
  | .delivering descriptors participant (handle :: handles) left =>
    some (w.deliver descriptors participant handle handles left)

/-- The return of the callback that runs. -/
def returns (w : AwaitWorld) (code : Int32) : Option AwaitWorld :=
  match w.phase with
  | .resuming descriptors participant handle handles left =>
    let result := { w.result with resumedContinuations := w.result.resumedContinuations + 1 }
    let after := { w with phase := .delivering descriptors participant handles left, result }
    match w.scheduler.continuations handle with
    | some c => some { after with
        scheduler := w.scheduler.store handle { c with resumeState := code, state := .resumed } }
    | none => some after
  | _ => none

/-- Reports are looked at one by one. -/
instance (broker : Root1.Broker) (events : List EpollEvent) :
    Decidable (∀ event ∈ events, reports broker event = true) :=
  List.decidableBAll _ events

/-- What an event does, where it can happen. -/
def step (w : AwaitWorld) : AwaitEvent → Option AwaitWorld
  | .access item =>
    if item.sends ∧ (w.phase.holdsMutex → lockFree item) then
      some { w with broker := (Root1.perform w.broker item).shared }
    else none
  | .park participant resume => if w.phase.callerRuns then some (w.park participant resume) else none
  | .cancel handle =>
    if w.phase.isIdle then some { w with scheduler := (w.scheduler.cancel handle).2 } else none
  | .drop handle =>
    if w.phase.isIdle then
      some { w with
        scheduler := (w.scheduler.drop handle).2, parks := w.parks.filter (· ≠ handle) }
    else none
  | .poll timeoutMs events keys order =>
    -- `epoll_wait` reports only what there is, once each, and no more than it has room for.
    if w.phase.isIdle ∧ events.length ≤ maxEvents ∧ events.Nodup ∧
        (∀ event ∈ events, reports w.broker event) ∧ order.Perm w.scheduler.handles then
      some { w with phase := .waited timeoutMs events keys order, result := {} }
    else none
  | .advance => w.advance
  | .returns code => w.returns code
  | .save order =>
    if w.phase.isIdle ∧ order.Perm w.scheduler.handles then
      some { w with saves := w.saves ++ [⟨w.scheduler, order, w.parks⟩] }
    else none
  | .load index =>
    match w.saves[index]? with
    | some n =>
      if w.phase.isIdle then
        some { w with scheduler := (w.scheduler.loadState (some n.value)).1, parks := n.parks }
      else none
    | none => none

end AwaitWorld

end AgentC.Edict

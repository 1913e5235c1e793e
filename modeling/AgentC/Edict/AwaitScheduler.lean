import AgentC.Cartographer.Boxing
import AgentC.Root1.Mailboxes

/-! The await scheduler: its table of continuations, its index of participants, and its saved form. -/

namespace AgentC.Edict

open Cartographer (decimal parseSigned parseUnsigned)
open Listree (ListreeValue createNullValue createStringValue finishObject)
open Root1 (MailboxDescriptor MailboxEventKind ParticipantId)

abbrev Root1ContinuationHandle := UInt64

/-- How far a continuation has come. -/
inductive Root1ContinuationState where
  | invalid
  | parked
  | ready
  | resumed
  | timeout
  | cancelled
  deriving DecidableEq, Repr

section Values

def object (fields : List (Name × ListreeValue)) : ListreeValue :=
  finishObject (fields.foldl (fun items field => items.addNamedItem field.1 field.2) AATree.new_)

def find (value : ListreeValue) (name : String) : Option ListreeValue :=
  match value with
  | .dict fields => fields.lookup (ascii name)
  | _ => none

def getData : ListreeValue → Option (List UInt8)
  | .text bytes => some bytes
  | _ => none

def descriptorEventName : MailboxEventKind → String
  | .none => "none"
  | .message => "message"
  | .ownershipGranted => "ownership_granted"
  | .progress => "progress"
  | .complete => "complete"
  | .error => "error"
  | .cancelled => "cancelled"
  | .backpressure => "backpressure"
  | .ownerDied => "owner_died"

def numberValue (n : Int) : ListreeValue :=
  createStringValue (decimal n)

def descriptorToValue (descriptor : MailboxDescriptor) : ListreeValue :=
  object [(ascii "kind", createStringValue (ascii (descriptorEventName descriptor.eventKind))),
    (ascii "sequence", numberValue descriptor.sequence.toNat),
    (ascii "correlation_id", numberValue descriptor.correlationId.toNat),
    (ascii "grant_token", numberValue descriptor.grantToken.toNat),
    (ascii "payload", if descriptor.inline.isEmpty then createNullValue
      else createStringValue descriptor.inline)]

def descriptorsToList (descriptors : List MailboxDescriptor) : ListreeValue :=
  .list (descriptors.map descriptorToValue)

def eventCount : Option ListreeValue → Nat
  | some (.list children) => children.length
  | _ => 0

/-- The function `std::stoull`, which may throw. -/
def stoull (text : List UInt8) : Option UInt64 :=
  (parseUnsigned text).map UInt64.ofInt

/-- The function `std::stoi`, which may throw. -/
def stoi (text : List UInt8) : Option Int32 :=
  (parseSigned 32 text).map Int32.ofInt

end Values

/-- What the table keeps of a continuation. `resume` says whether there is a callback. -/
structure ParkedContinuation where
  handle : Root1ContinuationHandle := 0
  participant : ParticipantId := 0
  state : Root1ContinuationState := .invalid
  eventsDelivered : UInt64 := 0
  resumeState : Int32 := 0
  lastEvents : Option ListreeValue := none
  resume : Bool := false
  deriving Repr

/-- What a caller is told about a continuation. -/
structure Root1ContinuationStatus where
  handle : Root1ContinuationHandle := 0
  participant : ParticipantId := 0
  state : Root1ContinuationState := .invalid
  eventsDelivered : UInt64 := 0
  resumeState : Int32 := 0
  deriving DecidableEq, Repr

/--
The scheduler. `handles` lists the keys of the table as they were added, which is not the order in
which the table is visited. The index has no handles for a participant without an entry.
-/
structure Root1AwaitScheduler where
  nextId : UInt64 := 1
  handles : List Root1ContinuationHandle := []
  continuations : Root1ContinuationHandle → Option ParkedContinuation := fun _ => none
  byParticipant : ParticipantId → List Root1ContinuationHandle := fun _ => []

namespace Root1AwaitScheduler

/-- Adding a continuation to the table, unless its handle is taken, and to the index in any case. -/
def add (s : Root1AwaitScheduler) (continuation : ParkedContinuation) : Root1AwaitScheduler :=
  let handle := continuation.handle
  let participant := continuation.participant
  -- `emplace` leaves an entry alone that is already there.
  let taken := (s.continuations handle).isSome
  { s with
    handles := if taken then s.handles else s.handles ++ [handle]
    continuations :=
      if taken then s.continuations else Function.update s.continuations handle (some continuation)
    byParticipant :=
      Function.update s.byParticipant participant (s.byParticipant participant ++ [handle]) }

def park (s : Root1AwaitScheduler) (participant : ParticipantId) (resume : Bool) :
    Root1ContinuationHandle × Root1AwaitScheduler :=
  if participant = 0 then (0, s)
  else
    let handle := s.nextId
    (handle, { s with nextId := handle + 1 }.add { handle, participant, state := .parked, resume })

def status (s : Root1AwaitScheduler) (handle : Root1ContinuationHandle) : Root1ContinuationStatus :=
  match s.continuations handle with
  | some c => { handle := c.handle, participant := c.participant, state := c.state
                eventsDelivered := c.eventsDelivered, resumeState := c.resumeState }
  | none => {}

def removeFromParticipantIndex (s : Root1AwaitScheduler) (handle : Root1ContinuationHandle)
    (participant : ParticipantId) : Root1AwaitScheduler :=
  { s with
    byParticipant := Function.update s.byParticipant participant
      ((s.byParticipant participant).filter (· ≠ handle)) }

/-- Changing what the table keeps under a handle. -/
def store (s : Root1AwaitScheduler) (handle : Root1ContinuationHandle)
    (continuation : ParkedContinuation) : Root1AwaitScheduler :=
  { s with continuations := Function.update s.continuations handle (some continuation) }

def isParked (s : Root1AwaitScheduler) (handle : Root1ContinuationHandle) : Bool :=
  match s.continuations handle with
  | some c => c.state = .parked
  | none => false

/-- Ending a continuation that is parked. -/
def markTerminal (s : Root1AwaitScheduler) (handle : Root1ContinuationHandle)
    (state : Root1ContinuationState) : Bool × Root1AwaitScheduler :=
  match s.continuations handle with
  | some c =>
    if c.state = .parked then
      (true, (s.removeFromParticipantIndex handle c.participant).store handle { c with state })
    else (false, s)
  | none => (false, s)

def cancel (s : Root1AwaitScheduler) (handle : Root1ContinuationHandle) : Bool × Root1AwaitScheduler :=
  s.markTerminal handle .cancelled

def drop (s : Root1AwaitScheduler) (handle : Root1ContinuationHandle) : Bool × Root1AwaitScheduler :=
  match s.continuations handle with
  | some c =>
    let rest := s.removeFromParticipantIndex handle c.participant
    (true, { rest with
      handles := rest.handles.filter (· ≠ handle)
      continuations := Function.update rest.continuations handle none })
  | none => (false, s)

/-- Timing out the handles that were found parked, with the number that were. -/
def timeOut (s : Root1AwaitScheduler) : List Root1ContinuationHandle → Nat × Root1AwaitScheduler
  | [] => (0, s)
  | handle :: rest =>
    let (marked, next) := s.markTerminal handle .timeout
    let (count, final) := next.timeOut rest
    (if marked then count + 1 else count, final)

section State

/-- The name of a state in the saved form. -/
def stateName : Root1ContinuationState → String
  | .parked => "parked"
  | .ready => "ready"
  | .resumed => "resumed"
  | .timeout => "timeout"
  | .cancelled => "cancelled"
  | .invalid => "invalid"

/-- The state that a saved name stands for. What is not known is taken as parked. -/
def namedState (name : List UInt8) : Root1ContinuationState :=
  if name = ascii "ready" then .ready
  else if name = ascii "resumed" then .resumed
  else if name = ascii "timeout" then .timeout
  else if name = ascii "cancelled" then .cancelled
  else .parked

def saveContinuation (c : ParkedContinuation) : ListreeValue :=
  object [(ascii "handle", numberValue c.handle.toNat),
    (ascii "participant", numberValue c.participant.toNat),
    (ascii "state", createStringValue (ascii (stateName c.state))),
    (ascii "events_delivered", numberValue c.eventsDelivered.toNat),
    (ascii "resume_state", numberValue c.resumeState.toInt)]

/-- The saved form of the scheduler, whose table is visited in the order. -/
def saveState (s : Root1AwaitScheduler) (order : List Root1ContinuationHandle) : ListreeValue :=
  let saved := (order.filterMap s.continuations).filter fun c => c.state ≠ .invalid
  object [(ascii "next_id", numberValue s.nextId.toNat),
    (ascii "continuations", .list (saved.map saveContinuation))]

/--
Reading a saved continuation. Nothing is returned when a number cannot be read, which throws; an
entry without a handle or a participant is passed over.
-/
def readContinuation (cv : ListreeValue) : Option (Option ParkedContinuation) :=
  match (find cv "handle").bind getData, find cv "participant" with
  | none, _ => some none
  | some handleText, participantItem =>
    (stoull handleText).bind fun handle =>
      match participantItem with
      | none => some none
      | some participantVal =>
        -- A value without data is read as an empty string, or throws at once.
        (stoull ((getData participantVal).getD [])).bind fun participant =>
          let stateStr := ((find cv "state").bind getData).getD []
          let eventsDelivered := match (find cv "events_delivered").bind getData with
            | some text => stoull text
            | none => some 0
          let resumeState := match (find cv "resume_state").bind getData with
            | some text => stoi text
            | none => some 0
          eventsDelivered.bind fun eventsDelivered => resumeState.map fun resumeState =>
            some { handle, participant, state := namedState stateStr, eventsDelivered, resumeState }

/-- The loop over the saved continuations, and whether it came to its end without throwing. -/
def loadContinuations (s : Root1AwaitScheduler) : List ListreeValue → Root1AwaitScheduler × Bool
  | [] => (s, true)
  | cv :: rest =>
    match readContinuation cv with
    | none => (s, false)
    | some none => s.loadContinuations rest
    | some (some continuation) => (s.add continuation).loadContinuations rest

/-- Taking over a saved form. The second part is what is returned, unless something throws. -/
def loadState (s : Root1AwaitScheduler) (state : Option ListreeValue) :
    Root1AwaitScheduler × Option Bool :=
  match state with
  | none => (s, some false)
  | some state =>
    match (find state "next_id").bind getData with
    | none => (s, some false)
    | some text =>
      match stoull text with
      | none => (s, none)
      | some nextId =>
        let cleared : Root1AwaitScheduler := { nextId }
        match find state "continuations" with
        | some (.list children) =>
          let (loaded, finished) := cleared.loadContinuations children
          (loaded, if finished then some true else none)
        | _ => (cleared, some true)

end State

end Root1AwaitScheduler

end AgentC.Edict

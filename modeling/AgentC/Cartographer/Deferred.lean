import AgentC.Library.Runs
import AgentC.Cartographer.Protocol

/-! Deferred imports: requests for a worker process, its responses, and what is answered about them. -/

namespace AgentC.Cartographer

abbrev RequestId := List UInt8

section Statuses

def statusQueued : List UInt8 := ascii "queued"
def statusRunning : List UInt8 := ascii "running"
def statusReady : List UInt8 := ascii "ready"
def statusImportFailed : List UInt8 := ascii "import_failed"
def statusStartupFailed : List UInt8 := ascii "startup_failed"
def statusTransportFailed : List UInt8 := ascii "transport_failed"
def statusWorkerDecodeFailed : List UInt8 := ascii "worker_decode_failed"

def isPendingStatus (status : List UInt8) : Bool :=
  status = statusQueued || status = statusRunning

def isReadyStatus (status : List UInt8) : Bool :=
  status = statusReady

end Statuses

section Answers

/-- What the definitions of an answer are made of. -/
inductive Definitions where
  | none
  | handle (request : ImportRequest)
  | imported (description : ParseDescription) (request : ImportRequest)

/-- The answer to a call. -/
structure ImportAnswer where
  result : ImportResult
  definitions : Definitions

def createStatusResult (request : ImportRequest) (status : List UInt8) (error : List UInt8 := [])
    (symbolCount : UInt64 := 0) : ImportAnswer where
  result := { ok := isPendingStatus status || isReadyStatus status, error, symbolCount
              executionMode := request.executionMode, status, requestId := request.requestId }
  definitions := .handle request

def ImportAnswer.failed (answer : ImportAnswer) : ImportAnswer :=
  { answer with result := { answer.result with ok := false } }

def materializedCount (description : ParseDescription) : UInt64 :=
  UInt64.ofNat (AATree.dictionary (materializeChildren description)).entries.length

end Answers

section States

/-- What the service keeps under a name. -/
structure DeferredState where
  request : ImportRequest
  requestMessage : List UInt8
  responseMessage : List UInt8
  status : List UInt8
  error : List UInt8
  description : ParseDescription
  symbolCount : UInt64

namespace DeferredState

def queued (request : ImportRequest) : DeferredState where
  request := request
  requestMessage := Protocol.encodeImportRequest request
  responseMessage :=
    Protocol.encodeImportStatus request (createStatusResult request statusQueued).result none
  status := statusQueued
  error := []
  description := []
  symbolCount := 0

def respond (state : DeferredState) (responseMessage : List UInt8) (response : ImportResult)
    (description : ParseDescription) : DeferredState :=
  { state with
    responseMessage, status := response.status, error := response.error
    symbolCount := response.symbolCount
    description := if response.status = statusReady then description else state.description }

/-- What it means for a request that is still pending that the worker has gone. -/
def disconnect (state : DeferredState) : DeferredState :=
  if isReadyStatus state.status || !isPendingStatus state.status then state
  else
    let failed : ImportResult :=
      { executionMode := .Deferred, requestId := state.request.requestId
        status := statusTransportFailed, error := ascii "Cartographer subprocess disconnected" }
    { state with
      status := failed.status, error := failed.error
      responseMessage := Protocol.encodeImportStatus state.request failed none }

/-- What it means for a request that it could not be passed on. -/
def fail (state : DeferredState) (request : ImportRequest) (status error : List UInt8) :
    DeferredState :=
  let failed := (createStatusResult request status error).failed.result
  { state with
    status := failed.status, error := failed.error
    responseMessage := Protocol.encodeImportStatus request failed none }

end DeferredState

abbrev Requests := RequestId → Option DeferredState

def missingAnswer (requestId : RequestId) : ImportAnswer where
  result := { executionMode := .Deferred, requestId, status := ascii "missing"
              error := ascii "Unknown cartographer request id: " ++ requestId }
  definitions := .none

def undecodedAnswer (state : DeferredState) (decodeError : List UInt8) : ImportAnswer :=
  (createStatusResult state.request statusTransportFailed
    (ascii "Failed to decode Cartographer protocol status: " ++ decodeError) state.symbolCount).failed

def importStatus (requests : Requests) (requestId : RequestId) : ImportAnswer :=
  match requests requestId with
  | none => missingAnswer requestId
  | some state =>
    match Protocol.decodeImportStatus false state.responseMessage with
    | .error decodeError => undecodedAnswer state decodeError
    | .ok (request, result, _) => ⟨result, .handle request⟩

def collect (requests : Requests) (requestId : RequestId) : ImportAnswer :=
  match requests requestId with
  | none => missingAnswer requestId
  | some state =>
    match Protocol.decodeImportStatus false state.responseMessage with
    | .error decodeError => undecodedAnswer state decodeError
    | .ok (request, statusResult, _) =>
      if !isPendingStatus statusResult.status && !isReadyStatus statusResult.status then
        (createStatusResult request statusResult.status statusResult.error
          statusResult.symbolCount).failed
      else if !isReadyStatus statusResult.status then
        (createStatusResult request statusResult.status
          (ascii "Cartographer deferred import not ready") statusResult.symbolCount).failed
      else
        { result := { ok := true, executionMode := .Deferred, requestId := request.requestId
                      status := statusReady, symbolCount := materializedCount state.description }
          definitions := .imported state.description request }

end States

section Worker

def workerResult (request : ImportRequest) (loaded : Bool)
    (parsed : Except (List UInt8) ParseDescription) : ImportResult × Option ParseDescription :=
  let result : ImportResult := { executionMode := .Deferred, requestId := request.requestId }
  if request.libraryPath = [] then
    ({ result with
        status := statusImportFailed
        error := ascii "Cartographer import requires a library path" }, none)
  else if request.headerPath = [] then
    ({ result with
        status := statusImportFailed
        error := ascii "Cartographer import requires a header path" }, none)
  else if !loaded then
    ({ result with
        status := statusImportFailed
        error := ascii "Failed to load library: " ++ request.libraryPath }, none)
  else
    match parsed with
    | .error parseError => ({ result with status := statusImportFailed, error := parseError }, none)
    | .ok description =>
      ({ result with
          ok := true, status := statusReady
          symbolCount := UInt64.ofNat description.length }, some description)

/-- What the worker says when it begins with a request. -/
def runningMessage (request : ImportRequest) : List UInt8 :=
  Protocol.encodeImportStatus request
    { ok := true, executionMode := .Deferred, requestId := request.requestId, status := statusRunning }
    none

/-- What the worker says when it is done with a request. -/
def resultMessage (request : ImportRequest) (loaded : Bool)
    (parsed : Except (List UInt8) ParseDescription) : List UInt8 :=
  let (result, description) := workerResult request loaded parsed
  Protocol.encodeImportStatus request result description

/-- What the worker says about a message that it cannot decode. -/
def undecodedMessage (decodeError : List UInt8) : List UInt8 :=
  Protocol.encodeImportStatus { executionMode := .Deferred }
    { executionMode := .Deferred, status := statusWorkerDecodeFailed
      error := ascii "Failed to decode Cartographer protocol request: " ++ decodeError } none

end Worker

section Service

/-- What a call that queues a request reads of the subprocess. -/
structure Flags where
  childAvailable : Bool
  childExited : Bool
  /-- `childPid` is positive. -/
  childStarted : Bool
  /-- `toChildFd` is not negative. -/
  toChildOpen : Bool
  deriving DecidableEq, Repr

def Flags.failureStatus (flags : Flags) : List UInt8 :=
  if flags.childExited || flags.childStarted then statusTransportFailed else statusStartupFailed

def failureError (failureStatus : List UInt8) : List UInt8 :=
  if failureStatus = statusTransportFailed then
    ascii "Cartographer subprocess transport is unavailable"
  else ascii "Cartographer subprocess failed to start"

/-- Where the calling thread is. A request comes with its number among all that were queued. -/
inductive Caller where
  | idle
  | queued (request : ImportRequest) (number : Nat)
  | flagged (request : ImportRequest) (number : Nat) (flags : Flags)
  | failing (request : ImportRequest) (number : Nat) (flags : Flags)
  /-- In `terminateSubprocess`, waiting for the reader to end. -/
  | joining

/-- What the worker process is doing. -/
inductive Worker where
  | waiting
  | handling (request : ImportRequest) (number : Nat)
  /-- It has ended, or it could not be started. -/
  | gone

/-- What a request would be kept as if it had a state for itself. -/
structure Queued where
  /-- Its name was made by `nextRequestId`. -/
  generated : Bool
  state : DeferredState

/--
The service with its worker and the pipes between them.

A message has with it the number of the request that it is about. The numbers, `own` and `latest`
are only there to be spoken of: nothing that happens depends on them.
-/
structure CartographerService where
  requests : Requests := fun _ => none
  nextDeferredRequestId : UInt64 := 1
  flags : Flags
  caller : Caller := .idle
  toChild : List (List UInt8 × Nat) := []
  worker : Worker
  fromChild : List (List UInt8 × Nat) := []
  /-- All requests that were queued, in their order. -/
  own : List Queued := []
  /-- The last request that was queued under a name. -/
  latest : RequestId → Option Nat := fun _ => none

/-- What happens: steps of the calling thread, of the worker, and of the thread that reads. -/
inductive DeferredEvent where
  | importDeferred (request : ImportRequest)
  | readFlags
  | write
  | recordFailure
  | terminateSubprocess
  | join
  | receive
  | finish (loaded : Bool) (parsed : Except (List UInt8) ParseDescription)
  /-- The worker ends, whatever the reason. -/
  | exit
  | deliver
  | disconnect

namespace CartographerService

def start (forked : Bool) : CartographerService where
  flags := ⟨forked, false, forked, forked⟩
  worker := if forked then .waiting else .gone

def alone (s : CartographerService) : Requests := fun requestId =>
  (s.latest requestId).bind fun number => s.own[number]?.map Queued.state

/-- Changes the state that a request would have for itself. -/
def note (s : CartographerService) (number : Nat) (change : DeferredState → DeferredState) :
    CartographerService :=
  { s with own := s.own.modify number fun own => { own with state := change own.state } }

/-- Changes the state under a name, if there is one. -/
def alter (s : CartographerService) (requestId : RequestId) (change : DeferredState → DeferredState) :
    CartographerService :=
  { s with requests := Function.update s.requests requestId ((s.requests requestId).map change) }

/-- The name that `nextRequestId` makes. -/
def generatedId (next : UInt64) : RequestId :=
  ascii "cartographer-request-" ++ decimalDigits next.toNat

def queuedRequest (s : CartographerService) (request : ImportRequest) : ImportRequest :=
  { request with
    executionMode := .Deferred
    requestId := if request.requestId = [] then generatedId s.nextDeferredRequestId
      else request.requestId }

/-- The first part of `queueDeferredImport`, where the state is set. -/
def queue (s : CartographerService) (request : ImportRequest) : CartographerService :=
  let generated : Bool := request.requestId = []
  let queued := s.queuedRequest request
  { s with
    nextDeferredRequestId := if generated then s.nextDeferredRequestId + 1 else s.nextDeferredRequestId
    requests := Function.update s.requests queued.requestId (some (.queued queued))
    caller := .queued queued s.own.length
    own := s.own ++ [⟨generated, .queued queued⟩]
    latest := Function.update s.latest queued.requestId (some s.own.length) }

/-- The last part of `queueDeferredImport`, where the request could not be written. -/
def recordFailure (s : CartographerService) (request : ImportRequest) (number : Nat) (flags : Flags) :
    CartographerService :=
  let change := fun state : DeferredState =>
    state.fail request flags.failureStatus (failureError flags.failureStatus)
  { (s.alter request.requestId change).note number change with caller := .idle }

/-- The reader takes in a response. -/
def respond (s : CartographerService) (message : List UInt8) (number : Nat) : CartographerService :=
  match Protocol.decodeImportStatus true message with
  | .error _ => s
  | .ok (_, response, description) =>
    let change := fun state : DeferredState => state.respond message response description
    (s.alter response.requestId change).note number change

/-- The reader finds the pipe closed. -/
def disconnect (s : CartographerService) : CartographerService :=
  { s with
    flags := { s.flags with childAvailable := false, childExited := true }
    requests := fun requestId => (s.requests requestId).map DeferredState.disconnect
    own := s.own.map fun own => { own with state := own.state.disconnect } }

/-- What happens; nothing when it cannot happen. -/
def step (s : CartographerService) : DeferredEvent → Option CartographerService
  | .importDeferred request =>
    match s.caller with
    | .idle =>
      -- Such a request is answered at once, and none of this remembers it.
      if request.libraryPath = [] ∨ request.headerPath = [] then some s else some (s.queue request)
    | _ => none
  | .readFlags =>
    match s.caller with
    | .queued request number => some { s with caller := .flagged request number s.flags }
    | _ => none
  | .write =>
    match s.caller with
    | .flagged request number flags =>
      if flags.childAvailable && flags.toChildOpen then
        match s.worker with
        -- Nobody can read what would be written.
        | .gone => some { s with caller := .failing request number flags }
        | .waiting | .handling _ _ =>
          some { s with
            caller := .idle
            toChild := s.toChild ++ [(Protocol.encodeImportRequest request, number)] }
      else some { s with caller := .failing request number flags }
    | _ => none
  | .recordFailure =>
    match s.caller with
    | .failing request number flags => some (s.recordFailure request number flags)
    | _ => none
  | .terminateSubprocess =>
    match s.caller with
    | .idle => some { s with caller := .joining, flags := { s.flags with toChildOpen := false } }
    | _ => none
  | .join =>
    match s.caller with
    | .joining =>
      -- The reader has ended, or there never was one.
      if s.flags.childAvailable then none
      else some { s with caller := .idle, flags := { s.flags with childStarted := false } }
    | _ => none
  | .receive =>
    match s.worker, s.toChild with
    | .waiting, (message, number) :: rest =>
      match Protocol.decodeImportRequest message with
      | .error decodeError =>
        some { s with toChild := rest, fromChild := s.fromChild ++ [(undecodedMessage decodeError, number)] }
      | .ok request =>
        some { s with
          toChild := rest, worker := .handling request number
          fromChild := s.fromChild ++ [(runningMessage request, number)] }
    | _, _ => none
  | .finish loaded parsed =>
    match s.worker with
    | .handling request number =>
      some { s with
        worker := .waiting
        fromChild := s.fromChild ++ [(resultMessage request loaded parsed, number)] }
    | _ => none
  | .exit =>
    match s.worker with
    | .gone => none
    -- What has not been read of the requests is lost.
    | _ => some { s with worker := .gone, toChild := [] }
  | .deliver =>
    match s.flags.childAvailable, s.fromChild with
    | true, (message, number) :: rest => some { s.respond message number with fromChild := rest }
    | _, _ => none
  | .disconnect =>
    match s.flags.childAvailable, s.worker, s.fromChild with
    | true, .gone, [] => some s.disconnect
    | _, _, _ => none

end CartographerService

end Service

end AgentC.Cartographer

import AgentC.Library.Runs
import Mathlib.Data.List.Sort
import Mathlib.Logic.Function.Basic

/-! Intern jobs: the manager's table and counters, the workers, and the calls that are under way. -/

namespace AgentC.Edict

universe u

structure InternWorkerOutcome where
  ok : Bool := false
  vmState : Int := 0
  resultJson : String := "null"
  errorCode : String := ""
  errorMessage : String := ""
  deriving DecidableEq, Repr

inductive WorkerPhase where
  | launching
  | running
  /-- The thread has read whether the job was abandoned, and has not counted its completion. -/
  | sampled (abandoned : Bool)
  | recorded
  deriving DecidableEq, Repr

structure AsyncInternJob where
  numericId : Nat
  slot : Option InternWorkerOutcome := none
  cancelRequested : Bool := false
  abandoned : Bool := false
  terminalObserved : Bool := false
  terminalSequence : Nat := 0
  worker : WorkerPhase := .launching
  deriving DecidableEq, Repr

namespace AsyncInternJob

def ready (job : AsyncInternJob) : Bool :=
  job.slot.isSome

def active (job : AsyncInternJob) : Bool :=
  !job.ready && !job.abandoned

end AsyncInternJob

/-- What a collection tells about a job that was found. -/
structure WorkerCollectStatus where
  terminal : Bool
  cancelRequested : Bool
  cancelled : Bool
  workerOk : Bool
  result : Option String
  errorCode : String
  errorMessage : String
  deriving DecidableEq, Repr

/-- The status of a job, of which `outcome` is there when its slot was ready. -/
def buildWorkerCollectStatus (cancelRequested : Bool) : Option InternWorkerOutcome → WorkerCollectStatus
  | none =>
    { terminal := false, cancelRequested, cancelled := false, workerOk := false, result := none,
      errorCode := "", errorMessage := "" }
  | some outcome =>
    if cancelRequested then
      { terminal := true, cancelRequested := false, cancelled := true, workerOk := false, result := none,
        errorCode := "cancelled", errorMessage := "intern job was cancelled before result collection" }
    else
      { terminal := true, cancelRequested := false, cancelled := false, workerOk := outcome.ok,
        result := some outcome.resultJson,
        errorCode := if outcome.ok then "" else
          if outcome.errorCode.isEmpty then "worker_failed" else outcome.errorCode,
        errorMessage := if outcome.ok then "" else outcome.errorMessage }

/--
A call of the manager, with what it goes on with. A job is named by its place in the heap.

`seen` is how many jobs had been started when the limit of a start was checked. The code does not
keep it.
-/
inductive InternCall where
  | idle
  /-- The loop of `activeCountLocked`, with the jobs it has not read, and the count so far. -/
  | counting (limit : Nat) (left : List Nat) (active : Nat)
  | admitted (limit seen : Nat)
  /-- `nextJobId_` has been read for its increment. -/
  | numbering (limit seen numericId : Nat)
  | numbered (limit seen numericId : Nat)
  | launching (job : Nat)
  /-- Under the mutex, after the slot of the job was found ready or not. -/
  | dropping (jobId job : Nat) (ready : Bool)
  | cancelling (job : Nat)
  | requesting (job : Nat)
  | collecting (job : Nat)
  | polling (job : Nat) (ready : Bool)
  | loading (job : Nat) (cancelRequested : Bool)
  | observing (job : Nat) (cancelRequested : Bool) (outcome : Option InternWorkerOutcome)
  deriving DecidableEq, Repr

def InternCall.limit : InternCall → Option Nat
  | .counting limit _ _ | .admitted limit _ | .numbering limit _ _ | .numbered limit _ _ => some limit
  | _ => none

/--
The manager, with the calls of its threads.

`heap` has every job there ever was, as the workers and the calls share them. `reports` lists what
collections have told, in order, with the job's number.
-/
structure InternJobManager (τ : Type u) where
  holder : Option τ := none
  nextJobId : Nat := 1
  nextTerminalSequence : Nat := 1
  abandonedRunningJobs : Nat := 0
  totalStartedJobs : Nat := 0
  totalFinishedJobs : Nat := 0
  totalAbandonedJobs : Nat := 0
  totalDroppedTerminalJobs : Nat := 0
  totalSweptTerminalJobs : Nat := 0
  jobs : List (Nat × Nat) := []
  heap : List AsyncInternJob := []
  calls : τ → InternCall := fun _ => .idle
  reports : List (Nat × WorkerCollectStatus) := []

/-- A choice of the scheduler. A worker is named by its job. -/
inductive InternEvent (τ : Type u) where
  | start (t : τ) (limit : Nat)
  | drop (t : τ) (jobId : Nat)
  | cancel (t : τ) (jobId : Nat)
  | collect (t : τ) (jobId : Nat)
  | query (t : τ)
  /-- A thread goes on with its call. -/
  | advance (t : τ)
  | launchFails (t : τ) (outcome : InternWorkerOutcome)
  | store (job : Nat) (outcome : InternWorkerOutcome)
  /-- A worker that has an outcome goes on. -/
  | work (job : Nat)
  deriving Repr

namespace InternJobManager

variable {τ : Type u}

def internJobManager : InternJobManager τ := {}

def maxRetainedTerminalJobs : Nat := 64

def isJob (s : InternJobManager τ) (p : AsyncInternJob → Bool) (job : Nat) : Bool :=
  s.heap[job]?.any p

def activeCount (s : InternJobManager τ) : Nat :=
  s.jobs.countP fun entry => s.isJob AsyncInternJob.active entry.2

def find (s : InternJobManager τ) (jobId : Nat) : Option Nat :=
  s.jobs.lookup jobId

def modifyJob (s : InternJobManager τ) (job : Nat) (f : AsyncInternJob → AsyncInternJob) :
    InternJobManager τ :=
  { s with heap := s.heap.modify job f }

/-- The counters as a query reports them. -/
structure WorkerLifecycleStatus where
  activeJobs : Nat
  trackedJobs : Nat
  retainedTerminalJobs : Nat
  abandonedRunningJobs : Nat
  totalStartedJobs : Nat
  totalFinishedJobs : Nat
  totalAbandonedJobs : Nat
  totalDroppedTerminalJobs : Nat
  totalSweptTerminalJobs : Nat
  deriving DecidableEq, Repr

def retained (s : InternJobManager τ) (entry : Nat × Nat) : Bool :=
  s.isJob (fun job => job.terminalObserved && job.ready) entry.2

/-- What `lifecycleStatus` reports. -/
def lifecycleStatus (s : InternJobManager τ) : WorkerLifecycleStatus where
  activeJobs := s.activeCount
  trackedJobs := s.jobs.length
  retainedTerminalJobs := s.jobs.countP s.retained
  abandonedRunningJobs := s.abandonedRunningJobs
  totalStartedJobs := s.totalStartedJobs
  totalFinishedJobs := s.totalFinishedJobs
  totalAbandonedJobs := s.totalAbandonedJobs
  totalDroppedTerminalJobs := s.totalDroppedTerminalJobs
  totalSweptTerminalJobs := s.totalSweptTerminalJobs

def sequenceOf (s : InternJobManager τ) (entry : Nat × Nat) : Nat :=
  (s.heap[entry.2]?.map AsyncInternJob.terminalSequence).getD 0

/-- Erasing the terminal jobs that were observed first, as long as too many are kept. -/
def sweepRetainedTerminalJobs (s : InternJobManager τ) : InternJobManager τ :=
  let terminalJobs := (s.jobs.filter s.retained).mergeSort fun lhs rhs =>
    s.sequenceOf lhs ≤ s.sequenceOf rhs
  let erased := terminalJobs.take (terminalJobs.length - maxRetainedTerminalJobs)
  { s with
    jobs := s.jobs.filter fun entry => !erased.contains entry
    totalSweptTerminalJobs := s.totalSweptTerminalJobs + erased.length }

/-- The critical section of a collection that found its job ready. -/
def observeTerminal (s : InternJobManager τ) (jobId : Nat) : InternJobManager τ :=
  match s.find jobId with
  | none => s
  | some job =>
    let first := s.isJob (fun job => job.terminalSequence == 0) job
    let s' := s.modifyJob job fun job => { job with
      terminalObserved := true
      terminalSequence := if first then s.nextTerminalSequence else job.terminalSequence }
    sweepRetainedTerminalJobs
      { s' with nextTerminalSequence :=
          if first then s.nextTerminalSequence + 1 else s.nextTerminalSequence }

/-- The critical section of `launchJob`, by which a new job gets its place in the table. -/
def insertJob (s : InternJobManager τ) (numericId : Nat) : InternJobManager τ :=
  { s with
    -- A job that has the same id is replaced.
    jobs := (numericId, s.heap.length) :: s.jobs.filter fun entry => entry.1 != numericId
    heap := s.heap ++ [{ numericId }]
    totalStartedJobs := s.totalStartedJobs + 1 }

/-- The critical section of `drop` behind the test of the slot. -/
def dropJob (s : InternJobManager τ) (jobId job : Nat) (ready : Bool) : InternJobManager τ :=
  let erased := { s with jobs := s.jobs.filter fun entry => entry.1 != jobId }
  if ready then { erased with totalDroppedTerminalJobs := s.totalDroppedTerminalJobs + 1 }
  else { erased.modifyJob job fun job => { job with abandoned := true } with
    abandonedRunningJobs := s.abandonedRunningJobs + 1
    totalAbandonedJobs := s.totalAbandonedJobs + 1 }

/-- The critical section in which a worker counts its completion. -/
def recordFinished (s : InternJobManager τ) (job : Nat) (abandoned : Bool) : InternJobManager τ :=
  { s.modifyJob job fun job => { job with worker := .recorded } with
    totalFinishedJobs := s.totalFinishedJobs + 1
    abandonedRunningJobs :=
      if abandoned && 0 < s.abandonedRunningJobs then s.abandonedRunningJobs - 1
      else s.abandonedRunningJobs }

variable [DecidableEq τ]

def setCall (s : InternJobManager τ) (t : τ) (call : InternCall) : InternJobManager τ :=
  { s with calls := Function.update s.calls t call }

/-- What a collection tells is added to the reports. -/
def report (s : InternJobManager τ) (job : Nat) (cancelRequested : Bool)
    (outcome : Option InternWorkerOutcome) : InternJobManager τ :=
  let status := buildWorkerCollectStatus cancelRequested outcome
  { s with reports := s.reports ++ [((s.heap[job]?.map AsyncInternJob.numericId).getD 0, status)] }

/-- The next step of a thread's call. A critical section waits until the mutex is free. -/
def advance (s : InternJobManager τ) (t : τ) : Option (InternJobManager τ) :=
  match s.calls t with
  | .idle => none
  | .counting limit (job :: left) active =>
    let active := if s.isJob AsyncInternJob.active job then active + 1 else active
    some (s.setCall t (.counting limit left active))
  | .counting limit [] active =>
    -- The mutex is given back before the job is added.
    let s := { s with holder := none }
    if limit ≤ active then some (s.setCall t .idle)
    else some (s.setCall t (.admitted limit s.totalStartedJobs))
  | .admitted limit seen => some (s.setCall t (.numbering limit seen s.nextJobId))
  | .numbering limit seen numericId =>
    some { s.setCall t (.numbered limit seen numericId) with nextJobId := numericId + 1 }
  | .numbered _ _ numericId =>
    if s.holder.isNone then
      some ((s.insertJob numericId).setCall t (.launching s.heap.length))
    else none
  | .launching job =>
    some ((s.modifyJob job fun job => { job with worker := .running }).setCall t .idle)
  | .dropping jobId job ready =>
    some ({ s.dropJob jobId job ready with holder := none }.setCall t .idle)
  | .cancelling job =>
    some (s.setCall t (if s.isJob AsyncInternJob.ready job then .idle else .requesting job))
  | .requesting job =>
    some ((s.modifyJob job fun job => { job with cancelRequested := true }).setCall t .idle)
  | .collecting job => some (s.setCall t (.polling job (s.isJob AsyncInternJob.ready job)))
  | .polling job ready =>
    let cancelRequested := s.isJob AsyncInternJob.cancelRequested job
    if ready then some (s.setCall t (.loading job cancelRequested))
    else some ((s.report job cancelRequested none).setCall t .idle)
  | .loading job cancelRequested =>
    some (s.setCall t (.observing job cancelRequested (s.heap[job]?.bind AsyncInternJob.slot)))
  | .observing job cancelRequested outcome =>
    if s.holder.isNone then
      let numericId := (s.heap[job]?.map AsyncInternJob.numericId).getD 0
      some (((s.observeTerminal numericId).report job cancelRequested outcome).setCall t .idle)
    else none

def enter (s : InternJobManager τ) (t : τ) (next : InternJobManager τ) : Option (InternJobManager τ) :=
  if s.calls t = .idle ∧ s.holder.isNone then some next else none

/-- The next step of a worker that has an outcome. -/
def workOn (s : InternJobManager τ) (job : Nat) : Option (InternJobManager τ) :=
  (s.heap[job]?).bind fun it =>
    match it.worker with
    | .running =>
      if it.ready then some (s.modifyJob job fun it => { it with worker := .sampled it.abandoned }) else none
    | .sampled abandoned => if s.holder.isNone then some (s.recordFinished job abandoned) else none
    | _ => none

/-- One step, or nothing when it cannot be taken. -/
def step (s : InternJobManager τ) : InternEvent τ → Option (InternJobManager τ)
  | .start t limit =>
    s.enter t ({ s with holder := some t }.setCall t (.counting limit (s.jobs.map Prod.snd) 0))
  | .drop t jobId =>
    s.enter t (match s.find jobId with
      | none => s
      | some job =>
        { s with holder := some t }.setCall t (.dropping jobId job (s.isJob AsyncInternJob.ready job)))
  | .cancel t jobId =>
    s.enter t (match s.find jobId with
      | none => s
      | some job => s.setCall t (.cancelling job))
  | .collect t jobId =>
    s.enter t (match s.find jobId with
      | none => s
      | some job => s.setCall t (.collecting job))
  | .query t => s.enter t s
  | .advance t => s.advance t
  | .launchFails t outcome =>
    match s.calls t with
    | .launching job =>
      if s.isJob AsyncInternJob.ready job then none
      else some (s.modifyJob job fun job => { job with slot := some outcome })
    | _ => none
  | .store job outcome =>
    (s.heap[job]?).bind fun it =>
      if it.worker = .running ∧ !it.ready then
        some (s.modifyJob job fun job => { job with slot := some outcome })
      else none
  | .work job => s.workOn job

end InternJobManager

end AgentC.Edict

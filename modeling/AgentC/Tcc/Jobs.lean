import Mathlib.Logic.Function.Basic
import AgentC.Library.Runs
import AgentC.Tcc.Envelope

/-! Isolated TCC jobs: the worker process, the pipe behind it, and the coordinator that polls it. -/

namespace AgentC.Tcc

/-- How a process has ended, as `waitpid` tells it. -/
inductive WaitStatus where
  | exited (code : UInt8)
  | signalled (signal : Fin 128) (core : Bool)
  deriving DecidableEq, Repr

structure TccJob where
  id : List UInt8
  moduleId : List UInt8
  timeoutMs : Int64
  pid : Int32
  /-- The read end of the pipe; nothing once it is closed. -/
  readFd : Option Nat
  /-- On the steady clock, in nanoseconds. -/
  startedAt : Nat
  done : Bool := false
  cached : TccEnvelope := {}
  deriving DecidableEq, Repr

namespace TccJob

def elapsedMs (job : TccJob) (clock : Nat) : Nat :=
  (clock - job.startedAt) / 1000000

def overdue (job : TccJob) (clock : Nat) : Bool :=
  decide (0 < job.timeoutMs.toInt) && decide (job.timeoutMs.toInt < job.elapsedMs clock)

def jobErrorEnvelope (job : TccJob) (status error : List UInt8) : TccEnvelope :=
  { available := true, ok := false, status, error, jobId := job.id, moduleId := job.moduleId
    timeoutMs := job.timeoutMs, handleKind := ascii "tcc_job", launchMode := kExecLaunchMode }

/-- An envelope under the job's own identity. -/
def jobEnvelope (job : TccJob) (base : TccEnvelope) : TccEnvelope :=
  { base with jobId := job.id, moduleId := job.moduleId, timeoutMs := job.timeoutMs
              handleKind := ascii "tcc_job", launchMode := kExecLaunchMode }

def runningEnvelope (job : TccJob) : TccEnvelope :=
  { available := true, ok := true, status := ascii "running", jobId := job.id
    moduleId := job.moduleId, pid := job.pid, timeoutMs := job.timeoutMs
    handleKind := ascii "tcc_job", launchMode := kExecLaunchMode }

def timedOutEnvelope (job : TccJob) : TccEnvelope :=
  job.jobErrorEnvelope (ascii "timed_out") (ascii "TCC worker exceeded timeout")

def cancelledEnvelope (job : TccJob) : TccEnvelope :=
  job.jobErrorEnvelope (ascii "cancelled") (ascii "TCC worker cancelled by coordinator")

/-- The answer about a worker that has left no complete envelope behind. -/
def deathEnvelope (job : TccJob) : WaitStatus → TccEnvelope
  | .exited code =>
    { job.jobErrorEnvelope (ascii "worker_exit_without_result")
        (ascii "TCC worker exited without producing a result envelope") with
      exitCode := Int32.ofNat code.toNat }
  | .signalled signal core =>
    { job.jobErrorEnvelope (ascii "runtime_signal")
        (ascii "TCC worker died from signal " ++ ascii (toString signal.val)) with
      signalNumber := Int32.ofNat signal.val
      -- The exit code of a process that did not exit is the whole status word.
      exitCode := Int32.ofNat (signal.val + if core then 128 else 0) }

/-- Takes the result of a worker that has ended from its pipe. -/
def finalizeJob (job : TccJob) (pipe : List UInt8) (waitStatus : WaitStatus) : TccJob :=
  let read := match job.readFd with
    | none => job
    | some _ =>
      match readEnvelope pipe with
      | some (envelope, _) => { job with cached := envelope, readFd := none }
      | none => { job with cached := job.deathEnvelope waitStatus, readFd := none }
  { read with done := true, cached := read.jobEnvelope read.cached }

end TccJob

/-- What the process of a job is doing. -/
inductive Worker where
  | computing
  /-- It has its envelope, of which these bytes are not in the pipe yet. -/
  | writing (rest : List UInt8)
  | ended (waitStatus : WaitStatus)
  | reaped
  deriving DecidableEq, Repr

/-- A job with its process and their pipe, and what has become known about it so far. -/
structure Isolated where
  job : TccJob
  worker : Worker := .computing
  pipe : List UInt8 := []
  /-- What the worker has computed, and when it had. -/
  result : Option ({ result : WorkerResult // result.envelope.Storable } × Nat) := none
  /-- What calls about the job were answered with, in order. -/
  reports : List TccEnvelope := []

inductive WorkerStep where
  | finish (result : { result : WorkerResult // result.envelope.Storable })
  /-- The generated code ends the process that runs it. -/
  | die (waitStatus : WaitStatus)
  /-- The pipe takes so many bytes. -/
  | write (count : Nat)
  | exit

inductive JobEvent where
  | work (step : WorkerStep)
  | status
  /-- A turn of the loop in `collect`. -/
  | collect
  | cancel

namespace Isolated

/-- A step of the worker; nothing when it cannot take it. -/
def work (capacity clock : Nat) (s : Isolated) : WorkerStep → Option Isolated
  | .finish result =>
    match s.worker with
    | .computing => some { s with worker := .writing (writeEnvelope result.val.envelope)
                                  result := some (result, clock) }
    | _ => none
  | .die waitStatus =>
    match s.worker with
    | .computing => some { s with worker := .ended waitStatus }
    | _ => none
  | .write count =>
    match s.worker with
    | .writing rest =>
      -- A write to a pipe without room blocks.
      if 0 < count ∧ count ≤ rest.length ∧ s.pipe.length + count ≤ capacity then
        some { s with worker := .writing (rest.drop count), pipe := s.pipe ++ rest.take count }
      else none
    | _ => none
  | .exit =>
    match s.worker with
    | .writing [] => some { s with worker := .ended (.exited 0) }
    | _ => none

def kill (s : Isolated) (envelope : TccEnvelope) : Isolated :=
  { s with worker := .reaped, job := { s.job with readFd := none, done := true, cached := envelope } }

/-- What `status` does to a job before it answers. -/
def poll (clock : Nat) (s : Isolated) : Isolated :=
  if s.job.done then s
  else
    match s.worker with
    | .ended waitStatus => { s with worker := .reaped, job := s.job.finalizeJob s.pipe waitStatus }
    | .reaped => s
    | .computing | .writing _ => if s.job.overdue clock then s.kill s.job.timedOutEnvelope else s

/-- What `status` answers about a job. -/
def answer (s : Isolated) : TccEnvelope :=
  if s.job.done then s.job.jobEnvelope s.job.cached else s.job.runningEnvelope

def report (s : Isolated) (envelope : TccEnvelope) : Isolated :=
  { s with reports := s.reports ++ [envelope] }

def step (capacity clock : Nat) (s : Isolated) : JobEvent → Option Isolated
  | .work step => s.work capacity clock step
  | .status =>
    let polled := s.poll clock
    some (polled.report polled.answer)
  | .collect =>
    let polled := s.poll clock
    -- The loop goes on, without an answer, for as long as the job is running.
    some (if polled.answer.status = ascii "running" then polled else polled.report polled.answer)
  | .cancel =>
    let ended := if s.job.done then s else s.kill s.job.cancelledEnvelope
    some (ended.report (if s.job.done then s.answer else ended.job.cached))

end Isolated

structure TccCompilerService where
  jobs : List UInt8 → Option Isolated
  nextJobId : Nat
  clock : Nat

/-- What happens to the service. -/
inductive Action where
  | startIsolated (moduleId : List UInt8) (timeoutMs : Int64) (pid : Int32) (readFd : Nat)
  | job (jobId : List UInt8) (event : JobEvent)
  /-- So many nanoseconds pass. -/
  | tick (elapsed : Nat)

namespace TccCompilerService

def initial : TccCompilerService where
  jobs := fun _ => none
  nextJobId := 1
  clock := 0

def jobId (number : Nat) : List UInt8 :=
  ascii "tcc_job_" ++ ascii (toString number)

/-- One step of the service, its workers or its clock, over pipes of some capacity. -/
def step (capacity : Nat) (s : TccCompilerService) : Action → Option TccCompilerService
  | .startIsolated moduleId timeoutMs pid readFd =>
    let id := jobId s.nextJobId
    let job : TccJob :=
      { id, moduleId, timeoutMs, pid, readFd := some readFd, startedAt := s.clock }
    some { s with nextJobId := s.nextJobId + 1
                  jobs := Function.update s.jobs id (some { job }) }
  | .job id event =>
    match s.jobs id with
    -- Nothing happens to a job that there is not, and calls about it say so.
    | none => some s
    | some isolated =>
      (isolated.step capacity s.clock event).map fun next =>
        { s with jobs := Function.update s.jobs id (some next) }
  | .tick elapsed => some { s with clock := s.clock + elapsed }

end TccCompilerService

end AgentC.Tcc

import AgentC.Tcc.JobLaws

/-! Finished jobs are collectable while results have room in their pipes and polls are not late. -/

namespace AgentC.Tcc

namespace Isolated

/-- A job that was not done has become so, under the same identity. -/
structure Ends (s t : Isolated) : Prop where
  running : s.job.done = false
  finished : t.job.done = true
  reaped : t.worker = .reaped
  reports : t.reports = s.reports
  result : t.result = s.result
  overdue : t.job.overdue = s.job.overdue
  runningEnvelope : t.job.runningEnvelope = s.job.runningEnvelope
  jobEnvelope : t.job.jobEnvelope = s.job.jobEnvelope
  cancelledEnvelope : t.job.cancelledEnvelope = s.job.cancelledEnvelope
  answer : t.answer.status ≠ ascii "running"

/--
A step that keeps finished jobs collectable.

A result has to fit into the pipe, and no poll may come after the timeout while the worker is still
writing what it had computed before.
-/
def Harmless (capacity clock : Nat) (s : Isolated) : JobEvent → Prop
  | .work (.finish result) => (writeEnvelope result.val.envelope).length ≤ capacity
  | .status | .collect => ∀ rest, s.worker = .writing rest → s.job.overdue clock = true →
      ∀ result, ¬ s.InTime result
  | _ => True

variable {capacity clock : Nat} {s t next : Isolated}

section Calls

theorem kill_ends {envelope : TccEnvelope} (running : s.job.done = false)
    (ended : envelope.status ≠ ascii "running") : s.Ends (s.kill envelope) where
  running := running
  finished := rfl
  reaped := rfl
  reports := rfl
  result := rfl
  overdue := rfl
  runningEnvelope := rfl
  jobEnvelope := rfl
  cancelledEnvelope := rfl
  answer := ended

theorem taken_status (waitStatus : WaitStatus) (written : s.pipe = s.bytes) :
    (match readEnvelope s.pipe with
      | some (envelope, _) => envelope
      | none => s.job.deathEnvelope waitStatus).status ≠ ascii "running" := by
  cases computed : s.result with
  | none =>
    simp only [bytes, computed] at written
    rw [written, readEnvelope_nil]
    exact TccJob.deathEnvelope_status waitStatus
  | some found =>
    simp only [bytes, computed] at written
    rw [written, readEnvelope_writeEnvelope found.1.property]
    exact found.1.val.status_ne.1

theorem poll_cases (clock : Nat) (coherent : s.Coherent capacity) :
    (s.poll clock = s ∧ ∀ rest, s.worker = .writing rest → s.job.overdue clock = false) ∨
    (∃ waitStatus, s.worker = .ended waitStatus ∧ s.Ends (s.poll clock)) ∨
    (s.job.overdue clock = true ∧ s.job.done = false ∧
      (s.worker = .computing ∨ ∃ rest, s.worker = .writing rest) ∧
      s.poll clock = s.kill s.job.timedOutEnvelope) := by
  have phase := coherent.phase
  cases worker : s.worker with
  | reaped =>
    simp only [Phase, worker] at phase
    refine Or.inl ⟨?_, fun rest writing => by cases writing⟩
    simp only [poll, phase, if_true]
  | ended waitStatus =>
    simp only [Phase, worker] at phase
    obtain ⟨running, opened, written⟩ := phase
    refine Or.inr (Or.inl ⟨waitStatus, rfl, ?_⟩)
    simp only [poll, running, worker, TccJob.finalizeJob_eq opened, Bool.false_eq_true, if_false]
    exact ⟨running, rfl, rfl, rfl, rfl, rfl, rfl, rfl, rfl, taken_status waitStatus written⟩
  | computing =>
    simp only [Phase, worker] at phase
    cases late : s.job.overdue clock with
    | true =>
      refine Or.inr (Or.inr ⟨rfl, phase.1, Or.inl rfl, ?_⟩)
      simp only [poll, phase.1, worker, late, Bool.false_eq_true, if_false, if_true]
    | false =>
      refine Or.inl ⟨?_, fun rest writing => by cases writing⟩
      simp only [poll, phase.1, worker, late, Bool.false_eq_true, if_false]
  | writing rest =>
    simp only [Phase, worker] at phase
    cases late : s.job.overdue clock with
    | true =>
      refine Or.inr (Or.inr ⟨rfl, phase.1, Or.inr ⟨rest, rfl⟩, ?_⟩)
      simp only [poll, phase.1, worker, late, Bool.false_eq_true, if_false, if_true]
    | false =>
      refine Or.inl ⟨?_, fun _ _ => rfl⟩
      simp only [poll, phase.1, worker, late, Bool.false_eq_true, if_false]

theorem report_coherent (coherent : s.Coherent capacity) (settled : t = s ∨ s.Ends t) :
    (t.report t.answer).Coherent capacity := by
  obtain rfl | ends := settled
  · refine ⟨coherent.phase, fun running => ?_, fun finished => ?_⟩
    · obtain ⟨waited, reports⟩ := coherent.waiting running
      refine ⟨waited + 1, ?_⟩
      have answer : t.answer = t.job.runningEnvelope := if_neg (Bool.eq_false_iff.mp running)
      calc (t.report t.answer).reports
          = t.reports ++ [t.answer] := rfl
        _ = List.replicate waited t.job.runningEnvelope ++ [t.job.runningEnvelope] := by
          rw [reports, answer]
        _ = List.replicate (waited + 1) t.job.runningEnvelope := List.replicate_succ'.symm
    · obtain ⟨ended, waited, more, reports⟩ := coherent.answered finished
      refine ⟨ended, waited, more + 1, ?_⟩
      rw [List.replicate_succ', ← List.append_assoc]
      exact congrArg (· ++ [t.answer]) reports
  · -- The first answer about a done job comes behind those that said it was running.
    refine ⟨?_, fun running => ?_, fun _ => ⟨ends.answer, ?_⟩⟩
    · simp only [Phase, report, ends.reaped, ends.finished]
    · exact absurd (ends.finished.symm.trans running) (by decide)
    · obtain ⟨waited, reports⟩ := coherent.waiting ends.running
      refine ⟨waited, 0, ?_⟩
      have told : (t.report t.answer).reports = s.reports ++ [t.answer] := by
        rw [report, ends.reports]
      rw [told, reports, ← ends.runningEnvelope]
      rfl

theorem Ends.roomy (ends : s.Ends t) : t.Roomy capacity := by
  intro rest writing
  rw [ends.reaped] at writing
  cases writing

theorem Ends.inTime (ends : s.Ends t)
    {result : { result : WorkerResult // result.envelope.Storable }} :
    t.InTime result ↔ s.InTime result := by
  simp only [InTime, ends.result, ends.overdue]

end Calls

section Events

theorem work_spec {step : WorkerStep} (coherent : s.Coherent capacity)
    (worked : s.work capacity clock step = some next) :
    next.Coherent capacity ∧ (s.Roomy capacity → s.Kept →
      (next.Roomy capacity ∧ next.Kept ↔ s.Harmless capacity clock (.work step))) := by
  have phase := coherent.phase
  -- Worker steps are only taken while the job is not done, and they answer no calls.
  have unanswered : ∀ t : Isolated, s.job.done = false → t.job = s.job → t.reports = s.reports →
      t.Phase capacity → t.Coherent capacity ∧ t.Kept := by
    intro t running job reports phase
    refine ⟨⟨phase, fun _ => ?_, fun finished => ?_⟩, fun finished => ?_⟩
    · rw [reports, job]
      exact coherent.waiting running
    · rw [job, running] at finished
      cases finished
    · rw [job, running] at finished
      cases finished
  cases step with
  | finish result =>
    cases worker : s.worker with
    | computing =>
      simp only [work, worker, Option.some.injEq] at worked
      simp only [Phase, worker] at phase
      obtain ⟨running, opened, -, empty⟩ := phase
      subst worked
      obtain ⟨coherent', kept⟩ := unanswered
        { s with worker := .writing (writeEnvelope result.val.envelope), result := some (result, clock) }
        running rfl rfl ⟨running, opened, rfl, by rw [empty]; rfl, by rw [empty]; exact Nat.zero_le _⟩
      refine ⟨coherent', fun _ _ => ⟨fun both => ?_, fun fits => ⟨?_, kept⟩⟩⟩
      · have room' := both.1 _ rfl
        rwa [empty, List.length_nil, Nat.zero_add] at room'
      · rintro rest writing
        cases writing
        rw [empty, List.length_nil, Nat.zero_add]
        exact fits
    | writing | ended | reaped => simp only [work, worker, reduceCtorEq] at worked
  | die waitStatus =>
    cases worker : s.worker with
    | computing =>
      simp only [work, worker, Option.some.injEq] at worked
      simp only [Phase, worker] at phase
      obtain ⟨running, opened, fresh, empty⟩ := phase
      subst worked
      obtain ⟨coherent', kept⟩ := unanswered { s with worker := .ended waitStatus } running rfl rfl
        ⟨running, opened, by rw [empty, bytes, fresh]⟩
      exact ⟨coherent',
        fun _ _ => ⟨fun _ => trivial, fun _ => ⟨(fun rest writing => by cases writing), kept⟩⟩⟩
    | writing | ended | reaped => simp only [work, worker, reduceCtorEq] at worked
  | write count =>
    cases worker : s.worker with
    | writing rest =>
      simp only [work, worker, Option.ite_none_right_eq_some, Option.some.injEq] at worked
      simp only [Phase, worker] at phase
      obtain ⟨running, opened, computed, whole, -⟩ := phase
      obtain ⟨⟨-, fits, room⟩, rfl⟩ := worked
      have whole' : (s.pipe ++ rest.take count) ++ rest.drop count = s.bytes := by
        rw [List.append_assoc, List.take_append_drop, whole]
      have inside : (s.pipe ++ rest.take count).length ≤ capacity := by
        rw [List.length_append, List.length_take]
        omega
      obtain ⟨coherent', kept⟩ := unanswered
        { s with worker := .writing (rest.drop count), pipe := s.pipe ++ rest.take count }
        running rfl rfl ⟨running, opened, computed, whole', inside⟩
      refine ⟨coherent', fun roomy _ => ⟨fun _ => trivial, fun _ => ⟨?_, kept⟩⟩⟩
      rintro rest' writing
      cases writing
      have before := roomy rest worker
      simp only [List.length_append, List.length_take, List.length_drop]
      omega
    | computing | ended | reaped => simp only [work, worker, reduceCtorEq] at worked
  | exit =>
    cases worker : s.worker with
    | writing rest =>
      cases rest with
      | nil =>
        simp only [work, worker, Option.some.injEq] at worked
        simp only [Phase, worker, List.append_nil] at phase
        obtain ⟨running, opened, -, whole, -⟩ := phase
        subst worked
        obtain ⟨coherent', kept⟩ := unanswered { s with worker := .ended (.exited 0) } running rfl rfl
          ⟨running, opened, whole⟩
        exact ⟨coherent', fun _ _ =>
          ⟨fun _ => trivial, fun _ => ⟨(fun rest writing => by cases writing), kept⟩⟩⟩
      | cons byte rest => simp only [work, worker, reduceCtorEq] at worked
    | computing | ended | reaped => simp only [work, worker, reduceCtorEq] at worked

/-- A poll keeps a job's answers right, unless it comes late to a worker that is still writing. -/
theorem poll_kept (coherent : s.Coherent capacity) (kept : s.Kept) :
    (s.poll clock).Kept ↔ s.Harmless capacity clock .status := by
  obtain ⟨same, early⟩ | ⟨waitStatus, ended, ends⟩ | ⟨late, running, worker, killed⟩ :=
    poll_cases clock coherent
  · rw [same]
    refine ⟨fun _ rest writing late => ?_, fun _ => kept⟩
    exact absurd ((early rest writing).symm.trans late) (by decide)
  · refine ⟨fun _ rest writing => ?_, fun _ _ result inTime => ?_⟩
    · rw [ended] at writing
      cases writing
    · obtain ⟨finishedAt, computed, -⟩ := ends.inTime.mp inTime
      rw [ends.jobEnvelope]
      exact Or.inl (poll_ended clock ended coherent.phase computed)
  · have ends : s.Ends (s.kill s.job.timedOutEnvelope) :=
      kill_ends running (of_decide_eq_true rfl)
    rw [killed]
    constructor
    · intro kept' rest _ _ result inTime
      -- What is reported then is neither the result nor a cancellation.
      obtain own | cancelled := kept' rfl result (ends.inTime.mpr inTime)
      · exact result.val.status_ne.2.1 (congrArg TccEnvelope.status own).symm
      · exact absurd (congrArg TccEnvelope.status cancelled) (of_decide_eq_true rfl)
    · intro harmless _ result inTime
      obtain computing | ⟨rest, writing⟩ := worker
      · have phase := coherent.phase
        simp only [Phase, computing] at phase
        obtain ⟨finishedAt, computed, -⟩ := ends.inTime.mp inTime
        rw [phase.2.2.1] at computed
        cases computed
      · exact absurd (ends.inTime.mp inTime) (harmless rest writing late result)

theorem step_spec {event : JobEvent} (coherent : s.Coherent capacity)
    (stepped : s.step capacity clock event = some next) :
    next.Coherent capacity ∧ (s.Roomy capacity → s.Kept →
      (next.Roomy capacity ∧ next.Kept ↔ s.Harmless capacity clock event)) := by
  have settled : s.poll clock = s ∨ s.Ends (s.poll clock) := by
    obtain ⟨same, -⟩ | ⟨-, -, ends⟩ | ⟨-, running, -, killed⟩ := poll_cases clock coherent
    · exact Or.inl same
    · exact Or.inr ends
    · rw [killed]
      exact Or.inr (kill_ends running (of_decide_eq_true rfl))
  have roomy : s.Roomy capacity → (s.poll clock).Roomy capacity := by
    intro room
    obtain same | ends := settled
    · rwa [same]
    · exact ends.roomy
  cases event with
  | work step => exact work_spec coherent stepped
  | status =>
    simp only [step, Option.some.injEq] at stepped
    subst stepped
    -- A report changes neither the worker nor what the job is answered with.
    exact ⟨report_coherent coherent settled, fun room kept =>
      ⟨fun after => (poll_kept coherent kept).mp after.2,
        fun harmless => ⟨roomy room, (poll_kept coherent kept).mpr harmless⟩⟩⟩
  | collect =>
    simp only [step, Option.some.injEq] at stepped
    subst stepped
    have judged : s.Roomy capacity → s.Kept → ((s.poll clock).Roomy capacity ∧ (s.poll clock).Kept ↔
        s.Harmless capacity clock .collect) := fun room kept =>
      ⟨fun after => (poll_kept coherent kept).mp after.2,
        fun harmless => ⟨roomy room, (poll_kept coherent kept).mpr harmless⟩⟩
    split
    next running =>
      -- The job is not done yet, so the poll has left it alone.
      obtain same | ends := settled
      · rw [same] at judged ⊢
        exact ⟨coherent, judged⟩
      · exact absurd running ends.answer
    next => exact ⟨report_coherent coherent settled, judged⟩
  | cancel =>
    simp only [step, Option.some.injEq] at stepped
    subst stepped
    cases finished : s.job.done with
    | true =>
      simp only [if_true]
      exact ⟨report_coherent coherent (Or.inl rfl),
        fun room kept => ⟨fun _ => trivial, fun _ => ⟨room, kept⟩⟩⟩
    | false =>
      have ends : s.Ends (s.kill s.job.cancelledEnvelope) := kill_ends finished (of_decide_eq_true rfl)
      simp only [Bool.false_eq_true, if_false]
      refine ⟨report_coherent coherent (Or.inr ends),
        fun _ _ => ⟨fun _ => trivial, fun _ => ⟨ends.roomy, ?_⟩⟩⟩
      exact fun _ _ _ => Or.inr rfl

end Events

end Isolated

namespace TccCompilerService

def Coherent (capacity : Nat) (s : TccCompilerService) : Prop :=
  ∀ id isolated, s.jobs id = some isolated → isolated.Coherent capacity

def Collectable (capacity : Nat) (s : TccCompilerService) : Prop :=
  ∀ id isolated, s.jobs id = some isolated → isolated.Collectable capacity

def Harmless (capacity : Nat) (s : TccCompilerService) : Action → Prop
  | .job id event => ∀ isolated, s.jobs id = some isolated →
      isolated.Harmless capacity s.clock event
  | _ => True

variable {capacity : Nat} {s next : TccCompilerService}

theorem forall_update {jobs : List UInt8 → Option Isolated} {id : List UInt8} {isolated : Isolated}
    {holds : Isolated → Prop} :
    (∀ id' isolated', Function.update jobs id (some isolated) id' = some isolated' →
      holds isolated') ↔
    holds isolated ∧ ∀ id' isolated', id' ≠ id → jobs id' = some isolated' → holds isolated' := by
  constructor
  · intro all
    refine ⟨all id isolated (Function.update_self ..), fun id' isolated' different stored => ?_⟩
    exact all id' isolated' ((Function.update_of_ne different _ _).trans stored)
  · rintro ⟨own, others⟩ id' isolated' stored
    by_cases same : id' = id
    · subst same
      rw [Function.update_self, Option.some.injEq] at stored
      rwa [← stored]
    · rw [Function.update_of_ne same] at stored
      exact others id' isolated' same stored

theorem fresh_spec (capacity : Nat) (job : TccJob) (running : job.done = false)
    (opened : job.readFd.isSome) :
    ({ job } : Isolated).Coherent capacity ∧ ({ job } : Isolated).Collectable capacity := by
  have coherent : ({ job } : Isolated).Coherent capacity :=
    ⟨⟨running, opened, rfl, rfl⟩, fun _ => ⟨0, rfl⟩,
      fun finished => absurd (finished.symm.trans running) (by decide)⟩
  refine ⟨coherent, (Isolated.collectable_iff coherent).mpr ⟨?_, ?_⟩⟩
  · exact fun rest writing => by cases writing
  · exact fun finished => absurd (finished.symm.trans running) (by decide)

theorem step_spec {action : Action} (coherent : s.Coherent capacity)
    (collectable : s.Collectable capacity) (stepped : s.step capacity action = some next) :
    next.Coherent capacity ∧ (next.Collectable capacity ↔ s.Harmless capacity action) := by
  cases action with
  | startIsolated moduleId timeoutMs pid readFd =>
    simp only [step, Option.some.injEq] at stepped
    subst stepped
    obtain ⟨fresh, waiting⟩ := fresh_spec capacity
      { id := jobId s.nextJobId, moduleId, timeoutMs, pid, readFd := some readFd
        startedAt := s.clock } rfl rfl
    refine ⟨forall_update.mpr ⟨fresh, fun id' isolated' _ => coherent id' isolated'⟩,
      fun _ => trivial, fun _ => ?_⟩
    exact forall_update.mpr ⟨waiting, fun id' isolated' _ => collectable id' isolated'⟩
  | tick elapsed =>
    simp only [step, Option.some.injEq] at stepped
    subst stepped
    exact ⟨coherent, fun _ => trivial, fun _ => collectable⟩
  | job id event =>
    cases stored : s.jobs id with
    | none =>
      simp only [step, stored, Option.some.injEq] at stepped
      subst stepped
      refine ⟨coherent, fun _ isolated stored' => ?_, fun _ => collectable⟩
      rw [stored] at stored'
      cases stored'
    | some isolated =>
      simp only [step, stored, Option.map_eq_some_iff] at stepped
      obtain ⟨isolated', stepped, rfl⟩ := stepped
      -- Only the job that the event is about changes.
      obtain ⟨coherent', judged⟩ := Isolated.step_spec (coherent id isolated stored) stepped
      obtain ⟨room, kept⟩ := (Isolated.collectable_iff (coherent id isolated stored)).mp
        (collectable id isolated stored)
      have judged' := (Isolated.collectable_iff coherent').trans (judged room kept)
      refine ⟨forall_update.mpr ⟨coherent', fun id' isolated' _ => coherent id' isolated'⟩, ?_⟩
      have same : s.Harmless capacity (.job id event) ↔
          isolated.Harmless capacity s.clock event :=
        ⟨fun all => all isolated stored, fun own other stored' => by
          rw [stored, Option.some.injEq] at stored'
          rwa [← stored']⟩
      rw [same, ← judged']
      refine forall_update.trans ⟨fun all => all.1, fun own => ⟨own, fun id' isolated' _ => ?_⟩⟩
      exact collectable id' isolated'

/--
Finished jobs are collectable exactly in the runs whose steps are harmless.

Nothing is asked of runs in which every result has room in its pipe and no poll comes after the
timeout to a worker that is still writing what it had computed in time.
-/
theorem finished_jobs_collectable_iff (capacity : Nat) (actions : List Action) :
    Throughout (step capacity) (Collectable capacity) initial actions ↔
      StepsMeet (step capacity) (Harmless capacity) initial actions :=
  throughout_iff_of_invariant
    (fun _ _ _ coherent collectable stepped => step_spec coherent collectable stepped) actions initial
    (fun _ _ stored => nomatch stored) (fun _ _ stored => nomatch stored)

section Failing

theorem runFrom_job {jobs : List UInt8 → Option Isolated} {id : List UInt8} {number clock : Nat}
    {isolated after : Isolated} {event : JobEvent} (rest : List Action)
    (stepped : isolated.step capacity clock event = some after) :
    runFrom (step capacity)
        { jobs := Function.update jobs id (some isolated), nextJobId := number, clock }
        (.job id event :: rest) =
      runFrom (step capacity)
        { jobs := Function.update jobs id (some after), nextJobId := number, clock } rest := by
  refine runFrom_cons ?_
  simp only [step, Function.update_self, stepped, Option.map_some, Function.update_idem]

/-- A job whose worker fills its pipe before it has written everything, polled until it is overdue. -/
def blockedRun (capacity : Nat) (result : { result : WorkerResult // result.envelope.Storable }) :
    List Action :=
  [.startIsolated (ascii "tcc_module_1") 50 7 3, .job (jobId 1) (.work (.finish result)),
    .job (jobId 1) (.work (.write capacity)), .job (jobId 1) .status, .tick 51000000,
    .job (jobId 1) .status]

theorem blockedRun_timesOut {capacity : Nat}
    {result : { result : WorkerResult // result.envelope.Storable }} (some_ : 0 < capacity)
    (long : capacity < (writeEnvelope result.val.envelope).length) :
    ∃ isolated, ((runFrom (step capacity) initial (blockedRun capacity result)).bind fun last =>
        last.jobs (jobId 1)) = some isolated ∧ isolated.InTime result ∧
      isolated.reports = [isolated.job.runningEnvelope, isolated.job.timedOutEnvelope] := by
  -- The job that is started, before and after its worker has filled the pipe.
  let job : TccJob := { id := jobId 1, moduleId := ascii "tcc_module_1", timeoutMs := 50, pid := 7
                        readFd := some 3, startedAt := 0 }
  let bytes := writeEnvelope result.val.envelope
  let writing : Isolated := { job, worker := .writing bytes, result := some (result, 0) }
  let blocked : Isolated :=
    { writing with worker := .writing (bytes.drop capacity), pipe := bytes.take capacity }
  have written : writing.step capacity 0 (.work (.write capacity)) = some blocked := by
    have fits : 0 < capacity ∧ capacity ≤ bytes.length ∧ writing.pipe.length + capacity ≤ capacity :=
      ⟨some_, long.le, (Nat.zero_add capacity).le⟩
    simp only [Isolated.step, Isolated.work, writing, fits, and_self, if_true]
    rfl
  let holding (isolated : Isolated) (clock : Nat) : TccCompilerService :=
    { jobs := Function.update (fun _ => none) (jobId 1) (some isolated), nextJobId := 2, clock }
  have started : step capacity initial (.startIsolated (ascii "tcc_module_1") 50 7 3) =
      some (holding { job } 0) := rfl
  have begun : ({ job } : Isolated).step capacity 0 (.work (.finish result)) = some writing := rfl
  have waiting : blocked.step capacity 0 .status = some (blocked.report job.runningEnvelope) := by
    have early : job.overdue 0 = false := job.overdue_startedAt
    simp only [Isolated.step, Isolated.poll, blocked, writing, early]
    rfl
  have passed : step capacity (holding (blocked.report job.runningEnvelope) 0) (.tick 51000000) =
      some (holding (blocked.report job.runningEnvelope) 51000000) := by
    simp only [step, holding, Nat.zero_add]
  have killed : (blocked.report job.runningEnvelope).step capacity 51000000 .status =
      some (((blocked.report job.runningEnvelope).kill job.timedOutEnvelope).report
        job.timedOutEnvelope) := by
    have late : job.overdue 51000000 = true := by decide
    simp only [Isolated.step, Isolated.poll, Isolated.report, blocked, writing, late]
    rfl
  refine ⟨((blocked.report job.runningEnvelope).kill job.timedOutEnvelope).report
    job.timedOutEnvelope, ?_, ⟨0, rfl, job.overdue_startedAt⟩, rfl⟩
  unfold blockedRun
  rw [runFrom_cons started, runFrom_job _ begun, runFrom_job _ written, runFrom_job _ waiting,
    runFrom_cons passed, runFrom_job _ killed]
  simp only [runFrom, Option.bind_some, Function.update_self]

/-- A text of as many bytes as a pipe usually takes. -/
def longResult : { result : WorkerResult // result.envelope.Storable } where
  val := .returned (.text (List.replicate 65536 97)) []
  property := by
    refine ⟨?_, ?_, ?_, ?_⟩
    · simp only [List.forall_mem_cons]
      refine ⟨of_decide_eq_true rfl, of_decide_eq_true rfl, of_decide_eq_true rfl,
        of_decide_eq_true rfl, of_decide_eq_true rfl, of_decide_eq_true rfl, ?_,
        of_decide_eq_true rfl, of_decide_eq_true rfl, List.forall_mem_nil _⟩
      exact (List.length_replicate ..).trans_lt (of_decide_eq_true rfl)
    · exact ⟨of_decide_eq_true rfl, List.forall_mem_nil _⟩
    · exact ⟨of_decide_eq_true rfl, List.forall_mem_nil _⟩
    · exact ⟨of_decide_eq_true rfl, List.forall_mem_nil _⟩

/-- Such a text is computed in time, reported to be running, and then thrown away. -/
theorem finished_jobs_collectable_fails :
    (∃ isolated, ((runFrom (step 65536) initial (blockedRun 65536 longResult)).bind fun last =>
        last.jobs (jobId 1)) = some isolated ∧ isolated.InTime longResult ∧
      isolated.reports = [isolated.job.runningEnvelope, isolated.job.timedOutEnvelope]) ∧
    ¬ ∀ actions, Throughout (step 65536) (Collectable 65536) initial actions := by
  have long : 65536 < (writeEnvelope longResult.val.envelope).length := by
    have text := length_resultText_lt longResult.val.envelope
    have size : longResult.val.envelope.resultText.length = 65536 := List.length_replicate ..
    omega
  have timesOut := blockedRun_timesOut (by decide) long
  refine ⟨timesOut, fun all => ?_⟩
  obtain ⟨isolated, found, inTime, reports⟩ := timesOut
  obtain ⟨last, ran, stored⟩ := Option.bind_eq_some_iff.mp found
  have collectable := (all _).last _ _ last ran (jobId 1) isolated stored
  refine collectable.timedOut_not_mem inTime ?_
  rw [reports]
  exact List.mem_cons_of_mem _ List.mem_cons_self

end Failing

end TccCompilerService

end AgentC.Tcc

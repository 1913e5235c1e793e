import AgentC.Tcc.Jobs

/-! What a job, its worker and their pipe are in at every moment, and what a finished job needs. -/

namespace AgentC.Tcc

namespace TccJob

variable {job : TccJob}

theorem overdue_startedAt (job : TccJob) : job.overdue job.startedAt = false := by
  simp only [overdue, elapsedMs, Nat.sub_self, Nat.zero_div, Bool.and_eq_false_iff,
    decide_eq_false_iff_not]
  omega

theorem finalizeJob_eq {pipe : List UInt8} {waitStatus : WaitStatus} (opened : job.readFd.isSome) :
    job.finalizeJob pipe waitStatus =
      { job with
        readFd := none, done := true
        cached := job.jobEnvelope <| match readEnvelope pipe with
          | some (envelope, _) => envelope
          | none => job.deathEnvelope waitStatus } := by
  obtain ⟨readFd, stored⟩ := Option.isSome_iff_exists.mp opened
  simp only [finalizeJob, stored]
  cases readEnvelope pipe <;> rfl

theorem deathEnvelope_status (waitStatus : WaitStatus) :
    (job.deathEnvelope waitStatus).status ≠ ascii "running" := by
  cases waitStatus <;> exact of_decide_eq_true rfl

end TccJob

namespace Isolated

def bytes (s : Isolated) : List UInt8 :=
  match s.result with
  | none => []
  | some (result, _) => writeEnvelope result.val.envelope

/-- How far the worker has come, what is in the pipe then, and whether the job is done. -/
def Phase (capacity : Nat) (s : Isolated) : Prop :=
  match s.worker with
  | .computing => s.job.done = false ∧ s.job.readFd.isSome ∧ s.result = none ∧ s.pipe = []
  | .writing rest =>
    s.job.done = false ∧ s.job.readFd.isSome ∧ s.result.isSome ∧ s.pipe ++ rest = s.bytes ∧
      s.pipe.length ≤ capacity
  | .ended _ => s.job.done = false ∧ s.job.readFd.isSome ∧ s.pipe = s.bytes
  | .reaped => s.job.done = true

/-- What holds of a job whatever happens to it. -/
structure Coherent (capacity : Nat) (s : Isolated) : Prop where
  phase : s.Phase capacity
  waiting : s.job.done = false → ∃ waited,
    s.reports = List.replicate waited s.job.runningEnvelope
  answered : s.job.done = true → s.answer.status ≠ ascii "running" ∧ ∃ waited more,
    s.reports = List.replicate waited s.job.runningEnvelope ++ List.replicate (more + 1) s.answer

def Roomy (capacity : Nat) (s : Isolated) : Prop :=
  ∀ rest, s.worker = .writing rest → s.pipe.length + rest.length ≤ capacity

def InTime (s : Isolated) (result : { result : WorkerResult // result.envelope.Storable }) : Prop :=
  ∃ finishedAt, s.result = some (result, finishedAt) ∧ s.job.overdue finishedAt = false

def Kept (s : Isolated) : Prop :=
  s.job.done = true → ∀ result, s.InTime result →
    s.answer = s.job.jobEnvelope result.val.envelope ∨ s.answer = s.job.cancelledEnvelope

/-- Nothing but steps of its worker gets the job to where the next poll answers with the result. -/
def Collects (capacity : Nat) (s : Isolated) (envelope : TccEnvelope) : Prop :=
  ∃ clock steps ended, runFrom (work capacity clock) s steps = some ended ∧
    ∀ now, (ended.poll now).answer = s.job.jobEnvelope envelope

/-- A finished job can be collected, and calls about it are answered with what its worker wrote. -/
structure Collectable (capacity : Nat) (s : Isolated) : Prop where
  unblocked : ∀ byte rest, s.worker = .writing (byte :: rest) → s.job.done = false →
    s.pipe.length < capacity
  collects : ∀ result finishedAt, s.result = some (result, finishedAt) → s.job.done = false →
    s.Collects capacity result.val.envelope
  /-- Calls say that it runs, and then what it has computed, unless it is cancelled. -/
  faithful : ∀ result, s.InTime result → ∃ waited answered final,
    s.reports = List.replicate waited s.job.runningEnvelope ++ List.replicate answered final ∧
    (final = s.job.jobEnvelope result.val.envelope ∨ final = s.job.cancelledEnvelope)

theorem Collectable.timedOut_not_mem {capacity : Nat} {s : Isolated}
    {result : { result : WorkerResult // result.envelope.Storable }}
    (collectable : s.Collectable capacity) (inTime : s.InTime result) :
    s.job.timedOutEnvelope ∉ s.reports := by
  obtain ⟨waited, answered, final, reports, outcome⟩ := collectable.faithful result inTime
  intro told
  rw [reports] at told
  obtain early | late := List.mem_append.mp told
  · have status := congrArg TccEnvelope.status (List.eq_of_mem_replicate early)
    exact absurd status (of_decide_eq_true rfl)
  · have status := congrArg TccEnvelope.status (List.eq_of_mem_replicate late)
    obtain rfl | rfl := outcome
    · exact result.val.status_ne.2.1 status.symm
    · exact absurd status (of_decide_eq_true rfl)

section Work

variable {capacity clock : Nat} {s next : Isolated} {rest : List UInt8}

theorem work_writing (step : WorkerStep) (writing : s.worker = .writing rest)
    (inside : s.pipe.length ≤ capacity) (long : capacity < s.pipe.length + rest.length)
    (worked : s.work capacity clock step = some next) :
    ∃ rest', next.worker = .writing rest' ∧ next.pipe.length ≤ capacity ∧
      capacity < next.pipe.length + rest'.length ∧ next.job = s.job := by
  cases step with
  | finish result => simp only [work, writing, reduceCtorEq] at worked
  | die waitStatus => simp only [work, writing, reduceCtorEq] at worked
  | write count =>
    simp only [work, writing, Option.ite_none_right_eq_some, Option.some.injEq] at worked
    obtain ⟨⟨-, fits, room⟩, rfl⟩ := worked
    refine ⟨rest.drop count, rfl, ?_, ?_, rfl⟩
    · simp only [List.length_append, List.length_take]
      omega
    · simp only [List.length_append, List.length_take, List.length_drop]
      omega
  | exit =>
    cases rest with
    | nil =>
      rw [List.length_nil] at long
      omega
    | cons byte rest => simp only [work, writing, reduceCtorEq] at worked

theorem run_writing : ∀ (steps : List WorkerStep) (s : Isolated) (rest : List UInt8),
    s.worker = .writing rest → s.pipe.length ≤ capacity →
    capacity < s.pipe.length + rest.length → runFrom (work capacity clock) s steps = some next →
    ∃ rest', next.worker = .writing rest' ∧ next.job = s.job := by
  intro steps
  induction steps with
  | nil =>
    intro s rest writing _ _ ran
    cases ran
    exact ⟨rest, writing, rfl⟩
  | cons step steps ih =>
    intro s rest writing inside long ran
    obtain ⟨middle, worked, ran⟩ := Option.bind_eq_some_iff.mp ran
    obtain ⟨rest', writing', inside', long', job⟩ := work_writing step writing inside long worked
    obtain ⟨rest'', writing'', job'⟩ := ih middle rest' writing' inside' long' ran
    exact ⟨rest'', writing'', job'.trans job⟩

theorem run_to_end (clock : Nat) (writing : s.worker = .writing rest)
    (room : s.pipe.length + rest.length ≤ capacity) :
    ∃ steps, runFrom (work capacity clock) s steps =
      some { s with worker := .ended (.exited 0), pipe := s.pipe ++ rest } := by
  cases rest with
  | nil =>
    refine ⟨[.exit], ?_⟩
    simp only [runFrom, work, writing, Option.bind_some, List.append_nil]
  | cons byte rest =>
    refine ⟨[.write (byte :: rest).length, .exit], ?_⟩
    have some_ : 0 < (byte :: rest).length := List.length_pos_iff.mpr (List.cons_ne_nil _ _)
    simp only [runFrom, work, writing, some_, Nat.le_refl, room, and_self, if_true,
      Option.bind_some, List.take_length, List.drop_length]

end Work

section Answers

variable {capacity : Nat} {s : Isolated}

theorem poll_ended {waitStatus : WaitStatus} {finishedAt : Nat} (now : Nat)
    {result : { result : WorkerResult // result.envelope.Storable }}
    (ended : s.worker = .ended waitStatus) (phase : s.Phase capacity)
    (computed : s.result = some (result, finishedAt)) :
    (s.poll now).answer = s.job.jobEnvelope result.val.envelope := by
  simp only [Phase, ended] at phase
  obtain ⟨running, opened, written⟩ := phase
  have read : readEnvelope s.pipe = some (result.val.envelope, []) := by
    rw [written, bytes, computed]
    exact readEnvelope_writeEnvelope result.property
  simp only [poll, running, ended, TccJob.finalizeJob_eq opened, read, Bool.false_eq_true, if_false]
  rfl

theorem collects_iff {finishedAt : Nat}
    {result : { result : WorkerResult // result.envelope.Storable }} (phase : s.Phase capacity)
    (running : s.job.done = false) (computed : s.result = some (result, finishedAt)) :
    s.Collects capacity result.val.envelope ↔ s.Roomy capacity := by
  cases worker : s.worker with
  | computing =>
    simp only [Phase, worker, computed, reduceCtorEq, false_and, and_false] at phase
  | reaped =>
    simp only [Phase, worker, running, Bool.false_eq_true] at phase
  | ended waitStatus =>
    refine ⟨fun _ rest writing => ?_, fun _ => ?_⟩
    · rw [worker] at writing
      cases writing
    · exact ⟨0, [], s, rfl, fun now => poll_ended now worker phase computed⟩
  | writing rest =>
    have phase' := phase
    simp only [Phase, worker] at phase'
    obtain ⟨-, opened, -, written, inside⟩ := phase'
    constructor
    · rintro ⟨clock, steps, ended, ran, answers⟩ rest' writing
      rw [worker, Worker.writing.injEq] at writing
      subst writing
      by_contra long
      -- A worker that cannot end is still said to be running when the job has just been started.
      obtain ⟨rest', writing', job⟩ := run_writing steps s rest worker inside (by omega) ran
      have answer := answers s.job.startedAt
      have early : ended.job.overdue s.job.startedAt = false := by
        rw [job]
        exact s.job.overdue_startedAt
      have unended : ended.job.done = false := by rw [job, running]
      have said : ended.answer = ended.job.runningEnvelope := by
        simp only [Isolated.answer, unended, Bool.false_eq_true, if_false]
      simp only [poll, unended, writing', early, Bool.false_eq_true, if_false, said] at answer
      exact result.val.status_ne.1 (congrArg TccEnvelope.status answer).symm
    · intro room
      obtain ⟨steps, ran⟩ := run_to_end 0 worker (room rest worker)
      refine ⟨0, steps, _, ran, fun now => ?_⟩
      have phase' : Phase capacity { s with worker := .ended (.exited 0), pipe := s.pipe ++ rest } :=
        ⟨running, opened, written⟩
      exact poll_ended now rfl phase' computed

theorem faithful_iff (coherent : s.Coherent capacity) :
    (∀ result, s.InTime result → ∃ waited answered final,
      s.reports = List.replicate waited s.job.runningEnvelope ++ List.replicate answered final ∧
      (final = s.job.jobEnvelope result.val.envelope ∨ final = s.job.cancelledEnvelope)) ↔
    s.Kept := by
  constructor
  · intro faithful finished result inTime
    obtain ⟨ended, waited, more, reports⟩ := coherent.answered finished
    obtain ⟨waited', answered, final, reports', outcome⟩ := faithful result inTime
    -- The answer of a done job is among its reports, and none of those that say it runs.
    have reported : s.answer ∈ s.reports := by
      rw [reports, List.replicate_succ]
      exact List.mem_append_right _ List.mem_cons_self
    rw [reports'] at reported
    obtain early | late := List.mem_append.mp reported
    · exact absurd (congrArg TccEnvelope.status (List.eq_of_mem_replicate early)) ended
    · rwa [List.eq_of_mem_replicate late]
  · intro kept result inTime
    cases finished : s.job.done with
    | true =>
      obtain ⟨-, waited, more, reports⟩ := coherent.answered finished
      exact ⟨waited, more + 1, s.answer, reports, kept finished result inTime⟩
    | false =>
      obtain ⟨waited, reports⟩ := coherent.waiting finished
      refine ⟨waited, 0, _, ?_, Or.inl rfl⟩
      rw [reports, List.replicate_zero, List.append_nil]

theorem collectable_iff (coherent : s.Coherent capacity) :
    s.Collectable capacity ↔ s.Roomy capacity ∧ s.Kept := by
  rw [← faithful_iff coherent]
  have phase := coherent.phase
  constructor
  · rintro ⟨-, collects, faithful⟩
    refine ⟨fun rest writing => ?_, faithful⟩
    have writing' := phase
    simp only [Phase, writing] at writing'
    obtain ⟨running, -, computed, -⟩ := writing'
    obtain ⟨⟨result, finishedAt⟩, computed⟩ := Option.isSome_iff_exists.mp computed
    exact (collects_iff phase running computed).mp (collects result finishedAt computed running)
      rest writing
  · rintro ⟨room, faithful⟩
    refine ⟨fun byte rest writing running => ?_, fun result finishedAt computed running => ?_,
      faithful⟩
    · have fits := room (byte :: rest) writing
      rw [List.length_cons] at fits
      omega
    · exact (collects_iff phase running computed).mpr room

end Answers

end Isolated

end AgentC.Tcc

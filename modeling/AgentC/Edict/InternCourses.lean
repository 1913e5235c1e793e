import AgentC.Edict.InternLimits

/-! What the steps of the calls and of the workers do to the courses of the jobs. -/

namespace AgentC.Edict

universe u

variable {τ : Type u}

namespace AsyncInternJob

def course (job : AsyncInternJob) : WorkerPhase × Bool :=
  (job.worker, job.abandoned)

def unrecorded (job : AsyncInternJob) : Bool :=
  job.worker != .recorded

def abandonedRunning (job : AsyncInternJob) : Bool :=
  job.abandoned && job.unrecorded

end AsyncInternJob

def InternCall.Abandons (job : Nat) : InternCall → Prop
  | .dropping _ dropped ready => dropped = job ∧ ready = false
  | _ => False

instance InternCall.decidableAbandons (job : Nat) : (call : InternCall) → Decidable (call.Abandons job)
  | .dropping _ dropped ready => inferInstanceAs (Decidable (dropped = job ∧ ready = false))
  | .idle | .counting .. | .admitted .. | .numbering .. | .numbered .. | .launching .. | .cancelling ..
  | .requesting .. | .collecting .. | .polling .. | .loading .. | .observing .. => isFalse id

namespace InternJobManager

theorem countP_modify {α : Type u} {p : α → Bool} {f : α → α} : ∀ {list : List α} {i : Nat} {a : α},
    list[i]? = some a → (list.modify i f).countP p + (if p a then 1 else 0) =
      list.countP p + (if p (f a) then 1 else 0)
  | b :: list, 0, a, here => by
    cases here
    rw [List.modify_zero_cons, List.countP_cons, List.countP_cons]
    omega
  | b :: list, i + 1, a, here => by
    have others : (list.modify i f).countP p + _ = list.countP p + _ := countP_modify here
    rw [List.modify_succ_cons, List.countP_cons, List.countP_cons]
    omega

theorem countP_course {p : AsyncInternJob → Bool} {q : WorkerPhase × Bool → Bool}
    (same : ∀ job, p job = q job.course) {left right : List AsyncInternJob}
    (courses : left.map AsyncInternJob.course = right.map AsyncInternJob.course) :
    left.countP p = right.countP p := by
  have through (list : List AsyncInternJob) : list.countP p = (list.map AsyncInternJob.course).countP q := by
    rw [List.countP_map]
    exact List.countP_congr fun job _ => by simp [same]
  rw [through, through, courses]

variable {job : Nat} {f : AsyncInternJob → AsyncInternJob}

theorem courses_modify {heap : List AsyncInternJob} (same : ∀ it, (f it).course = it.course) :
    (heap.modify job f).map AsyncInternJob.course = heap.map AsyncInternJob.course := by
  refine List.ext_getElem? fun i => ?_
  rw [List.getElem?_map, List.getElem?_map, List.getElem?_modify]
  cases heap[i]? with
  | none => rfl
  | some it =>
    show some (AsyncInternJob.course (if job = i then f it else it)) = some it.course
    split
    · rw [same]
    · rfl

theorem ready_modify {s : InternJobManager τ} (stores : ∀ it, it.ready = true → (f it).ready = true)
    (i : Nat) (holds : s.isJob AsyncInternJob.ready i = true) :
    (s.modifyJob job f).isJob AsyncInternJob.ready i = true := by
  simp only [isJob, modifyJob, List.getElem?_modify] at holds ⊢
  cases found : s.heap[i]? with
  | none => simp [found] at holds
  | some it =>
    simp only [found, Option.any_some] at holds
    simp only [Option.map_eq_map, Option.map_some, Option.any_some]
    split
    · exact stores it holds
    · exact holds

/-- A step without effect on the courses of the jobs and on their counters. -/
structure Quiet (s s' : InternJobManager τ) : Prop where
  fewer : s'.jobs.Sublist s.jobs
  courses : s'.heap.map AsyncInternJob.course = s.heap.map AsyncInternJob.course
  readies : ∀ i, s.isJob AsyncInternJob.ready i = true → s'.isJob AsyncInternJob.ready i = true
  started : s'.totalStartedJobs = s.totalStartedJobs
  finished : s'.totalFinishedJobs = s.totalFinishedJobs
  abandoned : s'.abandonedRunningJobs = s.abandonedRunningJobs
  calls : ∀ u, (s'.calls u = s.calls u ∧ (s.holder = some u → s'.holder = some u ∧ s'.jobs = s.jobs)) ∨
    (∀ job, s'.calls u ≠ .launching job) ∧ ∀ jobId job ready, s'.calls u = .dropping jobId job ready →
      s'.holder = some u ∧ (jobId, job) ∈ s'.jobs ∧ ready = s'.isJob AsyncInternJob.ready job

theorem Quiet.modify_job {s : InternJobManager τ} (same : ∀ it, (f it).course = it.course)
    (stores : ∀ it, it.ready = true → (f it).ready = true) :
    Quiet s (s.modifyJob job f) where
  fewer := List.Sublist.refl _
  courses := courses_modify same
  readies := ready_modify stores
  started := rfl
  finished := rfl
  abandoned := rfl
  calls := fun _ => .inl ⟨rfl, fun held => ⟨held, rfl⟩⟩

section Steps

variable [DecidableEq τ]

variable {s s' : InternJobManager τ}

theorem Quiet.change {between : InternJobManager τ} (quiet : Quiet s between) (t : τ)
    (call : InternCall) (jobs : s'.jobs = between.jobs) (heap : s'.heap = between.heap)
    (started : s'.totalStartedJobs = between.totalStartedJobs)
    (finished : s'.totalFinishedJobs = between.totalFinishedJobs)
    (abandoned : s'.abandonedRunningJobs = between.abandonedRunningJobs)
    (same : between.calls = s.calls) (calls : s'.calls = Function.update between.calls t call)
    (others : ∀ u, u ≠ t → s.holder = some u → s'.holder = some u ∧ s'.jobs = s.jobs)
    (own : (∀ job, call ≠ .launching job) ∧ ∀ jobId job ready, call = .dropping jobId job ready →
      s'.holder = some t ∧ (jobId, job) ∈ s'.jobs ∧ ready = s'.isJob AsyncInternJob.ready job) :
    Quiet s s' where
  fewer := jobs ▸ quiet.fewer
  courses := heap ▸ quiet.courses
  readies := fun i holds => by
    have still := quiet.readies i holds
    rwa [isJob, heap]
  started := started.trans quiet.started
  finished := finished.trans quiet.finished
  abandoned := abandoned.trans quiet.abandoned
  calls := fun u => by
    rw [calls]
    by_cases mine : u = t
    · subst mine
      rw [Function.update_self]
      exact .inr own
    · rw [Function.update_of_ne mine, same]
      exact .inl ⟨rfl, others u mine⟩

omit [DecidableEq τ] in
theorem Quiet.refl (s : InternJobManager τ) : Quiet s s where
  fewer := List.Sublist.refl _
  courses := rfl
  readies := fun _ holds => holds
  started := rfl
  finished := rfl
  abandoned := rfl
  calls := fun _ => .inl ⟨rfl, fun held => ⟨held, rfl⟩⟩

theorem Quiet.setCall {t : τ} {call : InternCall}
    (plain : (∀ job, call ≠ .launching job) ∧ ∀ jobId job ready, call ≠ .dropping jobId job ready) :
    Quiet s (s.setCall t call) :=
  (Quiet.refl s).change t call rfl rfl rfl rfl rfl rfl rfl (fun _ _ held => ⟨held, rfl⟩)
    ⟨plain.1, fun jobId job ready same => absurd same (plain.2 jobId job ready)⟩

omit [DecidableEq τ] in
theorem observe_quiet (s : InternJobManager τ) (jobId : Nat) (free : s.holder = none) :
    Quiet s (s.observeTerminal jobId) := by
  unfold observeTerminal
  cases s.find jobId with
  | none => exact .refl s
  | some job =>
    exact ⟨List.filter_sublist, courses_modify fun _ => rfl, ready_modify fun _ holds => holds, rfl, rfl,
      rfl, fun u => .inl ⟨rfl, fun held => by simp [free] at held⟩⟩

theorem advance_course {t : τ} (limited : s.Limited) (stepped : s.advance t = some s') :
    (∃ limit seen numericId, s.calls t = .numbered limit seen numericId ∧ s.holder = none ∧
      s' = (s.insertJob numericId).setCall t (.launching s.heap.length)) ∨
    (∃ job, s.calls t = .launching job ∧
      s' = (s.modifyJob job fun it => { it with worker := .running }).setCall t .idle) ∨
    (∃ jobId job ready, s.calls t = .dropping jobId job ready ∧ s.holder = some t ∧
      s' = { s.dropJob jobId job ready with holder := none }.setCall t .idle) ∨ Quiet s s' := by
  have promised := limited.promised t
  unfold advance at stepped
  cases at_ : s.calls t with
  | idle => simp [at_] at stepped
  | counting limit left active =>
    right; right; right
    rw [at_] at promised
    cases left with
    | cons job left =>
      simp only [at_, Option.some.injEq] at stepped
      exact stepped ▸ .setCall ⟨nofun, nofun⟩
    | nil =>
      simp only [at_] at stepped
      -- The mutex is given back, which no other thread was holding.
      have others (u) (other : u ≠ t) (held : s.holder = some u) := alone promised.1 other held
      split at stepped <;> cases stepped
      · exact (Quiet.refl s).change t .idle rfl rfl rfl rfl rfl rfl rfl
          (fun u other held => (others u other held).elim) ⟨nofun, nofun⟩
      · exact (Quiet.refl s).change t _ rfl rfl rfl rfl rfl rfl rfl
          (fun u other held => (others u other held).elim) ⟨nofun, nofun⟩
  | numbered limit seen numericId =>
    left
    simp only [at_] at stepped
    split at stepped
    · rename_i free
      exact ⟨limit, seen, numericId, rfl, Option.isNone_iff_eq_none.mp free, (Option.some.inj stepped).symm⟩
    · cases stepped
  | launching job =>
    right; left
    simp only [at_, Option.some.injEq] at stepped
    exact ⟨job, rfl, stepped.symm⟩
  | dropping jobId job ready =>
    right; right; left
    simp only [at_, Option.some.injEq] at stepped
    rw [at_] at promised
    exact ⟨jobId, job, ready, rfl, promised, stepped.symm⟩
  | admitted limit seen =>
    right; right; right
    simp only [at_, Option.some.injEq] at stepped
    exact stepped ▸ .setCall ⟨nofun, nofun⟩
  | numbering limit seen numericId =>
    right; right; right
    simp only [at_, Option.some.injEq] at stepped
    subst stepped
    exact (Quiet.refl s).change t _ rfl rfl rfl rfl rfl rfl rfl (fun _ _ held => ⟨held, rfl⟩) ⟨nofun, nofun⟩
  | cancelling job =>
    right; right; right
    simp only [at_, Option.some.injEq] at stepped
    subst stepped
    split
    · exact .setCall ⟨nofun, nofun⟩
    · exact .setCall ⟨nofun, nofun⟩
  | requesting job =>
    right; right; right
    simp only [at_, Option.some.injEq] at stepped
    subst stepped
    have flagged : Quiet s (s.modifyJob job fun it => { it with cancelRequested := true }) :=
      .modify_job (fun _ => rfl) fun _ holds => holds
    exact flagged.change t .idle rfl rfl rfl rfl rfl rfl rfl (fun _ _ held => ⟨held, rfl⟩) ⟨nofun, nofun⟩
  | collecting job =>
    right; right; right
    simp only [at_, Option.some.injEq] at stepped
    exact stepped ▸ .setCall ⟨nofun, nofun⟩
  | polling job ready =>
    right; right; right
    simp only [at_] at stepped
    split at stepped <;> cases stepped
    · exact .setCall ⟨nofun, nofun⟩
    · exact (Quiet.refl s).change t .idle rfl rfl rfl rfl rfl rfl rfl (fun _ _ held => ⟨held, rfl⟩)
        ⟨nofun, nofun⟩
  | loading job cancelRequested =>
    right; right; right
    simp only [at_, Option.some.injEq] at stepped
    exact stepped ▸ .setCall ⟨nofun, nofun⟩
  | observing job cancelRequested outcome =>
    right; right; right
    simp only [at_] at stepped
    split at stepped
    · rename_i free
      cases stepped
      have none := Option.isNone_iff_eq_none.mp free
      exact (observe_quiet s _ none).change t .idle rfl rfl rfl rfl rfl (observe_keeps s _).2.2.2.2.1 rfl
        (fun u _ held => by simp [none] at held) ⟨nofun, nofun⟩
    · cases stepped

omit [DecidableEq τ] in
theorem mem_of_find {jobId job : Nat} (found : s.find jobId = some job) :
    (jobId, job) ∈ s.jobs := by
  obtain ⟨before, after, split, -⟩ := List.lookup_eq_some_iff.mp found
  rw [split]
  exact List.mem_append_right _ List.mem_cons_self

theorem step_course {event : InternEvent τ} (limited : s.Limited) (stepped : s.step event = some s') :
    (∃ t numericId, s.holder = none ∧
      s' = (s.insertJob numericId).setCall t (.launching s.heap.length)) ∨
    (∃ t job, s.calls t = .launching job ∧
      s' = (s.modifyJob job fun it => { it with worker := .running }).setCall t .idle) ∨
    (∃ t jobId job ready, s.calls t = .dropping jobId job ready ∧ s.holder = some t ∧
      s' = { s.dropJob jobId job ready with holder := none }.setCall t .idle) ∨
    (∃ job it, event = .work job ∧ s.heap[job]? = some it ∧ it.worker = .running ∧ it.ready = true ∧
      s' = s.modifyJob job fun it => { it with worker := .sampled it.abandoned }) ∨
    (∃ job it abandoned, s.heap[job]? = some it ∧ it.worker = .sampled abandoned ∧ s.holder = none ∧
      s' = s.recordFinished job abandoned) ∨ Quiet s s' := by
  cases event with
  | start t limit =>
    obtain ⟨-, free, rfl⟩ := enter_cases stepped
    right; right; right; right; right
    exact (Quiet.refl s).change t _ rfl rfl rfl rfl rfl rfl rfl (fun u _ held => by simp [free] at held)
      ⟨nofun, nofun⟩
  | drop t jobId =>
    obtain ⟨-, free, rfl⟩ := enter_cases stepped
    right; right; right; right; right
    cases found : s.find jobId with
    | none => exact .refl s
    | some job =>
      refine (Quiet.refl s).change t _ rfl rfl rfl rfl rfl rfl rfl (fun u _ held => by simp [free] at held)
        ⟨nofun, fun jobId' job' ready same => ?_⟩
      cases same
      exact ⟨rfl, mem_of_find found, rfl⟩
  | cancel t jobId | collect t jobId =>
    obtain ⟨-, -, rfl⟩ := enter_cases stepped
    right; right; right; right; right
    cases s.find jobId with
    | none => exact .refl s
    | some job => exact .setCall ⟨nofun, nofun⟩
  | query t =>
    obtain ⟨-, -, rfl⟩ := enter_cases stepped
    exact .inr (.inr (.inr (.inr (.inr (.refl s')))))
  | advance t =>
    rcases advance_course limited stepped with ⟨limit, seen, numericId, -, free, same⟩ | ⟨job, at_, same⟩ |
      ⟨jobId, job, ready, at_, held, same⟩ | quiet
    · exact .inl ⟨t, numericId, free, same⟩
    · exact .inr (.inl ⟨t, job, at_, same⟩)
    · exact .inr (.inr (.inl ⟨t, jobId, job, ready, at_, held, same⟩))
    · exact .inr (.inr (.inr (.inr (.inr quiet))))
  | launchFails t outcome =>
    obtain ⟨job, -, -, rfl⟩ := launchFails_cases stepped
    exact .inr (.inr (.inr (.inr (.inr (.modify_job (fun _ => rfl) fun _ _ => rfl)))))
  | store job outcome =>
    obtain ⟨it, -, -, -, rfl⟩ := store_cases stepped
    exact .inr (.inr (.inr (.inr (.inr (.modify_job (fun _ => rfl) fun _ _ => rfl)))))
  | work job =>
    obtain ⟨it, found, ⟨running, ready, rfl⟩ | ⟨abandoned, sampled, free, rfl⟩⟩ := work_cases stepped
    · exact .inr (.inr (.inr (.inl ⟨job, it, rfl, found, running, ready, rfl⟩)))
    · exact .inr (.inr (.inr (.inr (.inl ⟨job, it, abandoned, found, sampled, free, rfl⟩))))

end Steps

end InternJobManager

end AgentC.Edict

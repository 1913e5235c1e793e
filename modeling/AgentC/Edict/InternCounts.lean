import AgentC.Edict.InternCourses

/-! The manager's counters: jobs that have been started, and jobs that were dropped while running. -/

namespace AgentC.Edict.InternJobManager

universe u

variable {τ : Type u}

def courseAt (s : InternJobManager τ) (job : Nat) : Option (WorkerPhase × Bool) :=
  (s.heap[job]?).map AsyncInternJob.course

variable {s s' : InternJobManager τ} {job i numericId : Nat} {f : AsyncInternJob → AsyncInternJob}
  {course : WorkerPhase × Bool} {it : AsyncInternJob}

theorem courseAt_other (other : job ≠ i) : (s.modifyJob job f).courseAt i = s.courseAt i := by
  simp [courseAt, modifyJob, other]

theorem courseAt_self :
    (s.modifyJob job f).courseAt job = (s.heap[job]?).map fun it => (f it).course := by
  simp [courseAt, modifyJob, Function.comp_def]

theorem courseAt_insert (here : s.courseAt i = some course) :
    (s.insertJob numericId).courseAt i = some course := by
  obtain ⟨it, found, same⟩ := Option.map_eq_some_iff.mp here
  have inside := (List.getElem?_eq_some_iff.mp found).1
  rw [courseAt, insertJob, List.getElem?_append_left inside, found, Option.map_some, same]

theorem courseAt_new (s : InternJobManager τ) (numericId : Nat) :
    (s.insertJob numericId).courseAt s.heap.length = some (.launching, false) := by
  simp [courseAt, insertJob, AsyncInternJob.course]

theorem Quiet.courseAt (quiet : Quiet s s') (i : Nat) :
    s'.courseAt i = s.courseAt i := by
  rw [InternJobManager.courseAt, InternJobManager.courseAt, ← List.getElem?_map, ← List.getElem?_map,
    quiet.courses]

/-- What holds of the jobs, whatever the schedule. -/
structure Booked (s : InternJobManager τ) : Prop where
  tracked : ∀ entry ∈ s.jobs, ∃ worker, s.courseAt entry.2 = some (worker, false)
  apart : (s.jobs.map Prod.snd).Nodup
  launching : ∀ t job, s.calls t = .launching job → ∃ abandoned, s.courseAt job = some (.launching, abandoned)
  alone : ∀ t u job, s.calls t = .launching job → s.calls u = .launching job → t = u
  dropping : ∀ t jobId job ready, s.calls t = .dropping jobId job ready → (jobId, job) ∈ s.jobs
  /-- Every job that was started has recorded its completion or will do so. -/
  started : s.totalStartedJobs = s.totalFinishedJobs + s.heap.countP AsyncInternJob.unrecorded

theorem Booked.quiet (booked : s.Booked) (limited : s.Limited) (quiet : Quiet s s') :
    s'.Booked where
  tracked := fun entry member => by
    rw [quiet.courseAt]
    exact booked.tracked entry (quiet.fewer.subset member)
  apart := booked.apart.sublist (quiet.fewer.map _)
  launching := fun t job at_ => by
    rw [quiet.courseAt]
    rcases quiet.calls t with ⟨same, -⟩ | ⟨none, -⟩
    · exact booked.launching t job (same ▸ at_)
    · exact absurd at_ (none job)
  alone := fun t u job here there => by
    rcases quiet.calls t with ⟨same, -⟩ | ⟨none, -⟩
    · rcases quiet.calls u with ⟨same', -⟩ | ⟨none, -⟩
      · exact booked.alone t u job (same ▸ here) (same' ▸ there)
      · exact absurd there (none job)
    · exact absurd here (none job)
  dropping := fun t jobId job ready at_ => by
    rcases quiet.calls t with ⟨same, held⟩ | ⟨-, begun⟩
    · have before : s.calls t = .dropping jobId job ready := same ▸ at_
      have promised := limited.promised t
      rw [before] at promised
      rw [(held promised).2]
      exact booked.dropping t jobId job ready before
    · exact (begun jobId job ready at_).2.1
  started := by
    have same : s'.heap.countP AsyncInternJob.unrecorded = s.heap.countP AsyncInternJob.unrecorded :=
      countP_course (q := fun course => course.1 != .recorded) (fun _ => rfl) quiet.courses
    rw [quiet.started, quiet.finished, same]
    exact booked.started

theorem Booked.work (booked : s.Booked) (found : s.heap[job]? = some it)
    (kept : (f it).abandoned = it.abandoned) (begun : it.worker ≠ .launching)
    (jobs : s'.jobs = s.jobs) (heap : s'.heap = s.heap.modify job f) (calls : s'.calls = s.calls)
    (started : s'.totalStartedJobs = s'.totalFinishedJobs + s'.heap.countP AsyncInternJob.unrecorded) :
    s'.Booked := by
  have courses (i) : s'.courseAt i = (s.modifyJob job f).courseAt i := by rw [courseAt, heap]; rfl
  refine ⟨fun entry member => ?_, jobs ▸ booked.apart, fun t launched at_ => ?_, calls ▸ booked.alone,
    jobs ▸ calls ▸ booked.dropping, started⟩
  · obtain ⟨worker, before⟩ := booked.tracked entry (jobs ▸ member)
    rw [courses]
    by_cases same : job = entry.2
    · subst same
      rw [courseAt, found] at before
      obtain ⟨-, plain⟩ := Prod.mk.inj (Option.some.inj before)
      rw [courseAt_self, found]
      exact ⟨(f it).worker, by rw [Option.map_some, AsyncInternJob.course, kept, plain]⟩
    · exact ⟨worker, (courseAt_other same).trans before⟩
  · obtain ⟨abandoned, before⟩ := booked.launching t launched (calls ▸ at_)
    rw [courses]
    by_cases same : job = launched
    · subst same
      rw [courseAt, found] at before
      exact absurd (Prod.mk.inj (Option.some.inj before)).1 begun
    · exact ⟨abandoned, (courseAt_other same).trans before⟩

theorem drop_unrecorded (s : InternJobManager τ) (jobId job : Nat) (ready : Bool) :
    (s.dropJob jobId job ready).heap.countP AsyncInternJob.unrecorded =
      s.heap.countP AsyncInternJob.unrecorded := by
  cases ready with
  | true => rfl
  | false =>
    have workers (heap : List AsyncInternJob) : heap.countP AsyncInternJob.unrecorded =
        (heap.map AsyncInternJob.worker).countP (· != .recorded) := by
      rw [List.countP_map]
      rfl
    show (s.heap.modify job fun it => { it with abandoned := true }).countP _ = _
    rw [workers, workers]
    congr 1
    refine List.ext_getElem? fun i => ?_
    rw [List.getElem?_map, List.getElem?_map, List.getElem?_modify]
    cases s.heap[i]? with
    | none => rfl
    | some it =>
      show some (AsyncInternJob.worker (if job = i then { it with abandoned := true } else it)) = _
      split <;> rfl

theorem courseAt_drop (s : InternJobManager τ) (jobId job : Nat) (ready : Bool) (i : Nat) :
    (s.dropJob jobId job ready).courseAt i = if job = i ∧ ready = false then
      (s.courseAt i).map fun course => (course.1, true) else s.courseAt i := by
  cases ready with
  | true =>
    rw [if_neg (by simp)]
    rfl
  | false =>
    by_cases same : job = i
    · subst same
      rw [if_pos ⟨rfl, rfl⟩]
      refine courseAt_self.trans ?_
      rw [courseAt, Option.map_map]
      rfl
    · rw [if_neg (by simp [same])]
      exact courseAt_other same

theorem drop_tracked (booked : s.Booked) {jobId : Nat} (here : (jobId, job) ∈ s.jobs)
    {entry : Nat × Nat} (member : entry ∈ s.jobs.filter fun entry => entry.1 != jobId) :
    entry ∈ s.jobs ∧ entry.2 ≠ job := by
  obtain ⟨inside, other⟩ := List.mem_filter.mp member
  refine ⟨inside, fun same => ?_⟩
  have equal := List.inj_on_of_nodup_map booked.apart inside here same
  simp [equal] at other

theorem Booked.sample (booked : s.Booked) (found : s.heap[job]? = some it)
    (running : it.worker = .running) :
    (s.modifyJob job fun it => { it with worker := .sampled it.abandoned }).Booked := by
  refine booked.work found rfl (by simp [running]) rfl rfl rfl ?_
  have counted := countP_modify (p := AsyncInternJob.unrecorded)
    (f := fun it => { it with worker := .sampled it.abandoned }) found
  have waiting : it.unrecorded = true := by rw [AsyncInternJob.unrecorded, running]; rfl
  have still : ({ it with worker := .sampled it.abandoned } : AsyncInternJob).unrecorded = true := rfl
  have started := booked.started
  rw [waiting, still] at counted
  simp only [if_true] at counted
  show s.totalStartedJobs = s.totalFinishedJobs + (s.heap.modify job _).countP AsyncInternJob.unrecorded
  omega

theorem Booked.record (booked : s.Booked) {abandoned : Bool} (found : s.heap[job]? = some it)
    (sampled : it.worker = .sampled abandoned) :
    (s.recordFinished job abandoned).Booked := by
  refine booked.work found rfl (by simp [sampled]) rfl rfl rfl ?_
  have counted := countP_modify (p := AsyncInternJob.unrecorded)
    (f := fun it => { it with worker := .recorded }) found
  have waiting : it.unrecorded = true := by rw [AsyncInternJob.unrecorded, sampled]; rfl
  have gone : ({ it with worker := .recorded } : AsyncInternJob).unrecorded = false := rfl
  have started := booked.started
  rw [waiting, gone] at counted
  simp only [if_true, Bool.false_eq_true, if_false] at counted
  show s.totalStartedJobs = s.totalFinishedJobs + 1 +
    (s.heap.modify job _).countP AsyncInternJob.unrecorded
  omega

section Bookings

variable [DecidableEq τ]

variable {s : InternJobManager τ} {t : τ}

theorem Booked.insert (booked : s.Booked) (limited : s.Limited) {numericId : Nat}
    (free : s.holder = none) :
    ((s.insertJob numericId).setCall t (.launching s.heap.length)).Booked where
  tracked := fun entry member => by
    rcases List.mem_cons.mp member with rfl | old
    · exact ⟨.launching, courseAt_new s numericId⟩
    · obtain ⟨worker, before⟩ := booked.tracked entry (List.mem_of_mem_filter old)
      exact ⟨worker, courseAt_insert before⟩
  apart := by
    show (s.heap.length :: (s.jobs.filter _).map Prod.snd).Nodup
    refine List.nodup_cons.mpr ⟨fun member => ?_, booked.apart.sublist (List.filter_sublist.map _)⟩
    -- The place of the new job is behind every job of the table.
    obtain ⟨entry, old, same⟩ := List.mem_map.mp member
    have inside := limited.tracked entry (List.mem_of_mem_filter old)
    omega
  launching := fun u job at_ => by
    by_cases mine : u = t
    · subst mine
      have now : Function.update s.calls u (.launching s.heap.length) u = .launching job := at_
      rw [Function.update_self] at now
      cases now
      exact ⟨false, courseAt_new s numericId⟩
    · have before : Function.update s.calls t (.launching s.heap.length) u = .launching job := at_
      rw [Function.update_of_ne mine] at before
      obtain ⟨abandoned, here⟩ := booked.launching u job before
      exact ⟨abandoned, courseAt_insert here⟩
  alone := fun u v job here there => by
    have new (w) (other : w ≠ t)
        (at_ : Function.update s.calls t (.launching s.heap.length) w = .launching s.heap.length) : False := by
      rw [Function.update_of_ne other] at at_
      obtain ⟨abandoned, course⟩ := booked.launching w _ at_
      rw [courseAt, List.getElem?_eq_none le_rfl] at course
      cases course
    have both (w) (at_ : Function.update s.calls t (.launching s.heap.length) w = .launching job) :
        w = t ∧ job = s.heap.length ∨ w ≠ t ∧ s.calls w = .launching job := by
      by_cases mine : w = t
      · subst mine
        rw [Function.update_self] at at_
        cases at_
        exact .inl ⟨rfl, rfl⟩
      · rw [Function.update_of_ne mine] at at_
        exact .inr ⟨mine, at_⟩
    rcases both u here with ⟨rfl, rfl⟩ | ⟨otherU, beforeU⟩
    · by_contra different
      exact new v (fun same => different same.symm) there
    · rcases both v there with ⟨rfl, rfl⟩ | ⟨-, beforeV⟩
      · exact (new u otherU here).elim
      · exact booked.alone u v job beforeU beforeV
  dropping := fun u jobId job ready at_ => by
    by_cases mine : u = t
    · subst mine
      have now : Function.update s.calls u (.launching s.heap.length) u = .dropping jobId job ready := at_
      rw [Function.update_self] at now
      cases now
    · have before : Function.update s.calls t (.launching s.heap.length) u = .dropping jobId job ready := at_
      rw [Function.update_of_ne mine] at before
      have promised := limited.promised u
      rw [before] at promised
      have held : s.holder = some u := promised
      rw [free] at held
      cases held
  started := by
    show s.totalStartedJobs + 1 = s.totalFinishedJobs +
      (s.heap ++ ([{ numericId }] : List AsyncInternJob)).countP AsyncInternJob.unrecorded
    have one : ([{ numericId }] : List AsyncInternJob).countP AsyncInternJob.unrecorded = 1 := rfl
    rw [List.countP_append, one, booked.started, Nat.add_assoc]

theorem of_update_idle {calls : τ → InternCall} {u : τ} {call : InternCall}
    (here : Function.update calls t .idle u = call) (some_ : call ≠ .idle) :
    u ≠ t ∧ calls u = call := by
  by_cases mine : u = t
  · subst mine
    rw [Function.update_self] at here
    exact absurd here.symm some_
  · rw [Function.update_of_ne mine] at here
    exact ⟨mine, here⟩

theorem Booked.spawn (booked : s.Booked) {job : Nat} (at_ : s.calls t = .launching job) :
    ((s.modifyJob job fun it => { it with worker := .running }).setCall t .idle).Booked := by
  obtain ⟨abandoned, course⟩ := booked.launching t job at_
  obtain ⟨it, found, same⟩ := Option.map_eq_some_iff.mp course
  obtain ⟨launching, -⟩ := Prod.mk.inj same
  have before {u call} (here : Function.update s.calls t .idle u = call) (some_ : call ≠ .idle) :=
    of_update_idle here some_
  refine ⟨fun entry member => ?_, booked.apart, fun u launched here => ?_,
    fun u v launched here there => ?_,
    fun u jobId dropped ready here => ?_, ?_⟩
  · obtain ⟨worker, plain⟩ := booked.tracked entry member
    by_cases mine : job = entry.2
    · subst mine
      rw [courseAt, found] at plain
      obtain ⟨-, free⟩ := Prod.mk.inj (Option.some.inj plain)
      refine ⟨.running, courseAt_self.trans ?_⟩
      rw [found, Option.map_some, AsyncInternJob.course, free]
    · exact ⟨worker, (courseAt_other mine).trans plain⟩
  · obtain ⟨other, launching'⟩ := before here nofun
    -- Only one thread launches this job.
    have apart : job ≠ launched := fun same => other (booked.alone u t job (same ▸ launching') at_)
    obtain ⟨abandoned, still⟩ := booked.launching u launched launching'
    exact ⟨abandoned, (courseAt_other apart).trans still⟩
  · exact booked.alone u v launched (before here nofun).2 (before there nofun).2
  · exact booked.dropping u jobId dropped ready (before here nofun).2
  · have counted := countP_modify (p := AsyncInternJob.unrecorded)
      (f := fun it => { it with worker := .running }) found
    have waiting : it.unrecorded = true := by rw [AsyncInternJob.unrecorded, launching]; rfl
    have going : ({ it with worker := .running } : AsyncInternJob).unrecorded = true := rfl
    rw [waiting, going] at counted
    have started := booked.started
    show s.totalStartedJobs = s.totalFinishedJobs +
      (s.heap.modify job fun it => { it with worker := .running }).countP AsyncInternJob.unrecorded
    simp only [if_true] at counted
    omega

theorem Booked.drop (booked : s.Booked) (limited : s.Limited) {jobId job : Nat} {ready : Bool}
    (at_ : s.calls t = .dropping jobId job ready) (held : s.holder = some t) :
    ({ s.dropJob jobId job ready with holder := none }.setCall t .idle).Booked := by
  have here := booked.dropping t jobId job ready at_
  obtain ⟨-, -, started, calls, -⟩ := drop_keeps s jobId job ready
  have jobs : (s.dropJob jobId job ready).jobs = s.jobs.filter fun entry => entry.1 != jobId := by
    cases ready <;> rfl
  have finished : (s.dropJob jobId job ready).totalFinishedJobs = s.totalFinishedJobs := by
    cases ready <;> rfl
  have before {u call} (now : ({ s.dropJob jobId job ready with holder := none }.setCall t .idle).calls u =
      call) (some_ : call ≠ .idle) : u ≠ t ∧ s.calls u = call := by
    have updated : Function.update (s.dropJob jobId job ready).calls t .idle u = call := now
    rw [calls] at updated
    exact of_update_idle updated some_
  refine ⟨fun entry member => ?_, ?_, fun u launched now => ?_, fun u v launched first second => ?_,
    fun u jobId' dropped ready' now => ?_, ?_⟩
  · have member : entry ∈ (s.dropJob jobId job ready).jobs := member
    rw [jobs] at member
    obtain ⟨inside, other⟩ := drop_tracked booked here member
    obtain ⟨worker, plain⟩ := booked.tracked entry inside
    exact ⟨worker, (courseAt_drop ..).trans (by rw [if_neg (fun same => other same.1.symm), plain])⟩
  · show ((s.dropJob jobId job ready).jobs.map Prod.snd).Nodup
    rw [jobs]
    exact booked.apart.sublist (List.filter_sublist.map _)
  · obtain ⟨abandoned, course⟩ := booked.launching u launched (before now nofun).2
    have dropped := courseAt_drop s jobId job ready launched
    rw [course] at dropped
    split at dropped
    · exact ⟨true, dropped⟩
    · exact ⟨abandoned, dropped⟩
  · exact booked.alone u v launched (before first nofun).2 (before second nofun).2
  · -- Only the thread that holds the mutex is dropping a job.
    obtain ⟨other, dropping⟩ := before now nofun
    have promised := limited.promised u
    rw [dropping] at promised
    exact absurd promised (InternJobManager.alone held other)
  · show (s.dropJob jobId job ready).totalStartedJobs = (s.dropJob jobId job ready).totalFinishedJobs +
      (s.dropJob jobId job ready).heap.countP AsyncInternJob.unrecorded
    rw [started, finished, drop_unrecorded]
    exact booked.started

theorem Booked.step {s' : InternJobManager τ} {event : InternEvent τ} (booked : s.Booked)
    (limited : s.Limited) (stepped : s.step event = some s') : s'.Booked := by
  obtain ⟨t, numericId, free, rfl⟩ | ⟨t, job, at_, rfl⟩ | ⟨t, jobId, job, ready, at_, held, rfl⟩ |
    ⟨job, it, -, found, running, -, rfl⟩ | ⟨job, it, abandoned, found, sampled, -, rfl⟩ | quiet :=
    step_course limited stepped
  · exact booked.insert limited free
  · exact booked.spawn at_
  · exact booked.drop limited at_ held
  · exact booked.sample found running
  · exact booked.record found sampled
  · exact booked.quiet limited quiet

omit [DecidableEq τ] in
theorem booked_init : Booked (internJobManager : InternJobManager τ) where
  tracked := fun _ member => absurd member List.not_mem_nil
  apart := List.nodup_nil
  launching := nofun
  alone := nofun
  dropping := nofun
  started := rfl

def Undivided (s : InternJobManager τ) : InternEvent τ → Prop
  | .work job => ∀ t ∈ s.holder, ¬(s.calls t).Abandons job
  | _ => True

instance (s : InternJobManager τ) : (event : InternEvent τ) → Decidable (s.Undivided event)
  | .work job => inferInstanceAs (Decidable (∀ t ∈ s.holder, ¬(s.calls t).Abandons job))
  | .start .. | .drop .. | .cancel .. | .collect .. | .query .. | .advance .. | .launchFails ..
  | .store .. => isTrue trivial

end Bookings

/-- What holds of the jobs as long as no drop is divided. -/
structure Settled (s : InternJobManager τ) : Prop where
  counted : s.abandonedRunningJobs = s.heap.countP AsyncInternJob.abandonedRunning
  sampled : ∀ i abandoned now, s.courseAt i = some (.sampled abandoned, now) → abandoned = now
  stored : ∀ i worker abandoned, s.courseAt i = some (worker, abandoned) →
    s.isJob AsyncInternJob.ready i = true ∨ worker = .launching ∨ worker = .running
  /-- A job whose slot was found empty by a drop has a worker that has not read the flag. -/
  waiting : ∀ t jobId job, s.calls t = .dropping jobId job false →
    ∃ worker abandoned, s.courseAt job = some (worker, abandoned) ∧ (worker = .launching ∨ worker = .running)

theorem courseAt_modify_cases (here : (s.modifyJob job f).courseAt i = some course) :
    (job ≠ i ∧ s.courseAt i = some course) ∨
      job = i ∧ ∃ it, s.heap[job]? = some it ∧ course = (f it).course := by
  by_cases same : job = i
  · subst same
    rw [courseAt_self] at here
    obtain ⟨it, found, rfl⟩ := Option.map_eq_some_iff.mp here
    exact .inr ⟨rfl, it, found, rfl⟩
  · exact .inl ⟨same, (courseAt_other same).symm.trans here⟩

theorem courseAt_insert_cases (here : (s.insertJob numericId).courseAt i = some course) :
    (i < s.heap.length ∧ s.courseAt i = some course) ∨ course = (.launching, false) := by
  rcases Nat.lt_trichotomy i s.heap.length with inside | rfl | behind
  · refine .inl ⟨inside, ?_⟩
    rwa [courseAt, insertJob, List.getElem?_append_left inside] at here
  · rw [courseAt_new] at here
    exact .inr (Option.some.inj here).symm
  · have short : (s.insertJob numericId).heap.length ≤ i := by
      simp only [insertJob, List.length_append, List.length_singleton]
      omega
    rw [courseAt, List.getElem?_eq_none short] at here
    cases here

theorem Settled.quiet (settled : s.Settled) (booked : s'.Booked) (quiet : Quiet s s') :
    s'.Settled where
  counted := by
    have same : s'.heap.countP AsyncInternJob.abandonedRunning =
        s.heap.countP AsyncInternJob.abandonedRunning :=
      countP_course (q := fun course => course.2 && course.1 != .recorded) (fun _ => rfl) quiet.courses
    rw [quiet.abandoned, same]
    exact settled.counted
  sampled := fun i abandoned now here => settled.sampled i abandoned now (quiet.courseAt i ▸ here)
  stored := fun i worker abandoned here =>
    (settled.stored i worker abandoned (quiet.courseAt i ▸ here)).imp_left (quiet.readies i)
  waiting := fun t jobId job at_ => by
    rcases quiet.calls t with ⟨same, -⟩ | ⟨-, begun⟩
    · rw [quiet.courseAt]
      exact settled.waiting t jobId job (same ▸ at_)
    · obtain ⟨-, member, empty⟩ := begun jobId job false at_
      obtain ⟨worker, course⟩ := booked.tracked _ member
      refine ⟨worker, false, course, ?_⟩
      -- The slot of this job is empty, so its worker has not come to the flag.
      have before := settled.stored job worker false (quiet.courseAt job ▸ course)
      refine before.resolve_left fun ready => ?_
      rw [quiet.readies job ready] at empty
      cases empty

theorem Settled.work (settled : s.Settled) (found : s.heap[job]? = some it)
    (heap : s'.heap = (s.modifyJob job f).heap)
    (counted : s'.abandonedRunningJobs + (if it.abandonedRunning then 1 else 0) =
      s.abandonedRunningJobs + (if (f it).abandonedRunning then 1 else 0))
    (sampled : ∀ abandoned, (f it).worker = .sampled abandoned → (f it).abandoned = abandoned)
    (stores : ∀ it, it.ready = true → (f it).ready = true)
    (stored : (f it).ready = true ∨ (f it).worker = .launching ∨ (f it).worker = .running)
    (waiting : ∀ t jobId dropped, s'.calls t = .dropping jobId dropped false → ∃ worker abandoned,
      s'.courseAt dropped = some (worker, abandoned) ∧ (worker = .launching ∨ worker = .running)) :
    s'.Settled := by
  have courses (i) : s'.courseAt i = (s.modifyJob job f).courseAt i := by rw [courseAt, heap]; rfl
  have readies (i) : s'.isJob AsyncInternJob.ready i = (s.modifyJob job f).isJob AsyncInternJob.ready i := by
    rw [isJob, heap]
    rfl
  refine ⟨?_, fun i abandoned now here => ?_, fun i worker abandoned here => ?_, waiting⟩
  · have changed := countP_modify (p := AsyncInternJob.abandonedRunning) (f := f) found
    have before := settled.counted
    rw [heap]
    show s'.abandonedRunningJobs = (s.heap.modify job f).countP AsyncInternJob.abandonedRunning
    omega
  · rcases courseAt_modify_cases (courses i ▸ here) with ⟨-, before⟩ | ⟨rfl, other, again, same⟩
    · exact settled.sampled i abandoned now before
    · rw [found] at again
      cases again
      obtain ⟨worker, flag⟩ := Prod.mk.inj same
      rw [flag]
      exact (sampled abandoned worker.symm).symm
  · rw [readies]
    rcases courseAt_modify_cases (courses i ▸ here) with ⟨-, before⟩ | ⟨rfl, other, again, same⟩
    · exact (settled.stored i worker abandoned before).imp_left (ready_modify stores i)
    · rw [found] at again
      cases again
      obtain ⟨own, -⟩ := Prod.mk.inj same
      rw [own]
      refine stored.imp_left fun ready => ?_
      simp [isJob, modifyJob, found, ready]

theorem Settled.insert (settled : s.Settled) (limited : s.Limited) (free : s.holder = none) :
    (s.insertJob numericId).Settled where
  counted := by
    show s.abandonedRunningJobs =
      (s.heap ++ ([{ numericId }] : List AsyncInternJob)).countP AsyncInternJob.abandonedRunning
    rw [List.countP_append, settled.counted]
    rfl
  sampled := fun i abandoned now here => by
    rcases courseAt_insert_cases here with ⟨-, before⟩ | new
    · exact settled.sampled i abandoned now before
    · cases new
  stored := fun i worker abandoned here => by
    rcases courseAt_insert_cases here with ⟨inside, before⟩ | new
    · rw [isJob_insert inside]
      exact settled.stored i worker abandoned before
    · exact .inr (.inl (Prod.mk.inj new).1)
  waiting := fun t jobId job at_ => by
    have promised := limited.promised t
    rw [show s.calls t = .dropping jobId job false from at_] at promised
    have held : s.holder = some t := promised
    rw [free] at held
    cases held

theorem Settled.sample (settled : s.Settled) (limited : s.Limited) (found : s.heap[job]? = some it)
    (running : it.worker = .running) (ready : it.ready = true) (undivided : s.Undivided (.work job)) :
    (s.modifyJob job fun it => { it with worker := .sampled it.abandoned }).Settled := by
  have same : ({ it with worker := .sampled it.abandoned } : AsyncInternJob).abandonedRunning =
      it.abandonedRunning := by
    rw [AsyncInternJob.abandonedRunning, AsyncInternJob.abandonedRunning, AsyncInternJob.unrecorded,
      AsyncInternJob.unrecorded, running]
    rfl
  refine settled.work found rfl (by rw [same]; rfl) (fun abandoned sampled => ?_) (fun _ stored => stored)
    (.inl ready) fun t jobId dropped dropping => ?_
  · cases sampled
    rfl
  · have dropping : s.calls t = .dropping jobId dropped false := dropping
    have promised := limited.promised t
    rw [dropping] at promised
    -- The drop under way is one of another job.
    have apart : job ≠ dropped := fun mine => by
      have divided := undivided t promised
      rw [dropping] at divided
      exact divided ⟨mine.symm, rfl⟩
    obtain ⟨worker, flag, before, waits⟩ := settled.waiting t jobId dropped dropping
    exact ⟨worker, flag, (courseAt_other apart).trans before, waits⟩

theorem Settled.record (settled : s.Settled) (limited : s.Limited) {abandoned : Bool}
    (found : s.heap[job]? = some it) (sampled : it.worker = .sampled abandoned)
    (free : s.holder = none) :
    (s.recordFinished job abandoned).Settled := by
  have course : s.courseAt job = some (.sampled abandoned, it.abandoned) := by
    rw [courseAt, found, Option.map_some, AsyncInternJob.course, sampled]
  have flag := settled.sampled job abandoned it.abandoned course
  have counts : it.abandonedRunning = abandoned := by
    rw [AsyncInternJob.abandonedRunning, AsyncInternJob.unrecorded, sampled, flag]
    exact Bool.and_true _
  have gone : ({ it with worker := .recorded } : AsyncInternJob).abandonedRunning = false :=
    Bool.and_false _
  -- A job that was counted keeps the counter above zero.
  have some_ : abandoned = true → 0 < s.abandonedRunningJobs := fun marked => by
    rw [settled.counted]
    exact List.countP_pos_iff.mpr ⟨it, List.mem_of_getElem? found, counts.trans marked⟩
  have counted : (s.recordFinished job abandoned).abandonedRunningJobs + (if abandoned then 1 else 0) =
      s.abandonedRunningJobs := by
    cases abandoned with
    | false => rfl
    | true =>
      have positive := some_ rfl
      simp only [recordFinished, Bool.true_and, decide_eq_true_eq, if_pos positive, if_true]
      omega
  refine settled.work found rfl (by rw [counts, gone]; exact counted) nofun (fun _ ready => ready) ?_ ?_
  · have stored := settled.stored job _ _ course
    have ready := stored.resolve_right fun early => by rcases early with now | now <;> cases now
    have filled : it.ready = true := by simpa only [isJob, found, Option.any_some] using ready
    exact .inl filled
  · intro t jobId dropped dropping
    have promised := limited.promised t
    rw [show s.calls t = .dropping jobId dropped false from dropping] at promised
    have held : s.holder = some t := promised
    rw [free] at held
    cases held

def StartedCounted (s : InternJobManager τ) : Prop :=
  s.lifecycleStatus.totalStartedJobs =
    s.lifecycleStatus.totalFinishedJobs + s.heap.countP AsyncInternJob.unrecorded

/-- The abandoned jobs that are counted as running are those whose workers will count themselves. -/
def AbandonedCounted (s : InternJobManager τ) : Prop :=
  s.lifecycleStatus.abandonedRunningJobs = s.heap.countP AsyncInternJob.abandonedRunning ∧
    ((∀ job ∈ s.heap, job.unrecorded = false) → s.lifecycleStatus.abandonedRunningJobs = 0)

section Settling

variable [DecidableEq τ]

omit [DecidableEq τ] in
variable {s : InternJobManager τ}

theorem Settled.calls {s' : InternJobManager τ} (settled : s.Settled) (heap : s'.heap = s.heap)
    (counted : s'.abandonedRunningJobs = s.abandonedRunningJobs)
    (calls : ∀ t jobId job, s'.calls t = .dropping jobId job false → s.calls t = .dropping jobId job false) :
    s'.Settled := by
  have courses (i) : s'.courseAt i = s.courseAt i := by rw [courseAt, heap]; rfl
  refine ⟨by rw [counted, heap]; exact settled.counted, fun i abandoned now here => ?_,
    fun i worker abandoned here => ?_, fun t jobId job at_ => ?_⟩
  · exact settled.sampled i abandoned now (courses i ▸ here)
  · rw [isJob, heap]
    exact settled.stored i worker abandoned (courses i ▸ here)
  · rw [courses]
    exact settled.waiting t jobId job (calls t jobId job at_)

theorem Settled.spawn (settled : s.Settled) (booked : s.Booked) {t : τ} {job : Nat}
    (at_ : s.calls t = .launching job) :
    ((s.modifyJob job fun it => { it with worker := .running }).setCall t .idle).Settled := by
  obtain ⟨abandoned, course⟩ := booked.launching t job at_
  obtain ⟨it, found, same⟩ := Option.map_eq_some_iff.mp course
  obtain ⟨launching, -⟩ := Prod.mk.inj same
  have running : ({ it with worker := .running } : AsyncInternJob).abandonedRunning = it.abandonedRunning := by
    rw [AsyncInternJob.abandonedRunning, AsyncInternJob.abandonedRunning, AsyncInternJob.unrecorded,
      AsyncInternJob.unrecorded, launching]
    rfl
  refine settled.work found rfl (by rw [running]; rfl) nofun (fun _ ready => ready) (.inr (.inr rfl)) ?_
  intro u jobId dropped dropping
  obtain ⟨worker, flag, before, waits⟩ :=
    settled.waiting u jobId dropped (of_update_idle dropping nofun).2
  by_cases mine : job = dropped
  · subst mine
    refine ⟨.running, it.abandoned, courseAt_self.trans ?_, .inr rfl⟩
    rw [found]
    rfl
  · exact ⟨worker, flag, (courseAt_other mine).trans before, waits⟩

theorem Settled.drop (settled : s.Settled) (limited : s.Limited) (booked : s.Booked) {t : τ}
    {jobId job : Nat} {ready : Bool} (at_ : s.calls t = .dropping jobId job ready)
    (held : s.holder = some t) :
    ({ s.dropJob jobId job ready with holder := none }.setCall t .idle).Settled := by
  have others {u id other} (dropping : Function.update s.calls t .idle u = .dropping id other false) : False := by
    obtain ⟨apart, before⟩ := of_update_idle dropping nofun
    have promised := limited.promised u
    rw [before] at promised
    exact alone held apart promised
  cases ready with
  | true => exact settled.calls rfl rfl fun u id other dropping => (others dropping).elim
  | false =>
    obtain ⟨worker, flag, course, waits⟩ := settled.waiting t jobId job at_
    obtain ⟨worker', plain⟩ := booked.tracked _ (booked.dropping t jobId job false at_)
    obtain ⟨it, found, same⟩ := Option.map_eq_some_iff.mp course
    obtain ⟨own, -⟩ := Prod.mk.inj same
    have unmarked : it.abandoned = false := by
      rw [courseAt, found] at plain
      exact (Prod.mk.inj (Option.some.inj plain)).2
    have unrecorded : it.unrecorded = true := by
      rw [AsyncInternJob.unrecorded, own]
      rcases waits with rfl | rfl <;> rfl
    -- The job was not counted, and it is now.
    have before : it.abandonedRunning = false := by rw [AsyncInternJob.abandonedRunning, unmarked]; rfl
    have after : ({ it with abandoned := true } : AsyncInternJob).abandonedRunning = true := unrecorded
    refine settled.work found rfl (by rw [before, after]; rfl) (fun abandoned sampled => ?_)
      (fun _ ready => ready) (.inr (own ▸ waits)) fun u id other dropping => (others dropping).elim
    have now : it.worker = .sampled abandoned := sampled
    rw [own] at now
    rcases waits with rfl | rfl <;> cases now

theorem Settled.step {s' : InternJobManager τ} {event : InternEvent τ} (settled : s.Settled)
    (limited : s.Limited) (booked : s.Booked) (undivided : s.Undivided event)
    (stepped : s.step event = some s') : s'.Settled := by
  have booked' := booked.step limited stepped
  obtain ⟨t, numericId, free, rfl⟩ | ⟨t, job, at_, rfl⟩ | ⟨t, jobId, job, ready, at_, held, rfl⟩ |
    ⟨job, it, rfl, found, running, stored, rfl⟩ | ⟨job, it, abandoned, found, sampled, free, rfl⟩ | quiet :=
    step_course limited stepped
  · refine (settled.insert limited free).calls rfl rfl fun u jobId job dropping => ?_
    have updated : Function.update s.calls t (.launching s.heap.length) u = .dropping jobId job false := dropping
    by_cases mine : u = t
    · subst mine
      rw [Function.update_self] at updated
      cases updated
    · rwa [Function.update_of_ne mine] at updated
  · exact settled.spawn booked at_
  · exact settled.drop limited booked at_ held
  · exact settled.sample limited found running stored undivided
  · exact settled.record limited found sampled free
  · exact settled.quiet booked' quiet

omit [DecidableEq τ] in
theorem settled_init : Settled (internJobManager : InternJobManager τ) where
  counted := rfl
  sampled := nofun
  stored := nofun
  waiting := nofun

/--
The counters are right in every state: of started jobs always, and of abandoned ones as long as no
worker goes on between the two steps of a drop of its job.
-/
theorem jobs_counted (events : List (InternEvent τ)) :
    Throughout step StartedCounted internJobManager events ∧
      (StepsMeet step Undivided internJobManager events →
        Throughout step AbandonedCounted internJobManager events) := by
  constructor
  · have booked : Throughout step (fun s => s.Limited ∧ s.Booked) internJobManager events := by
      have kept (s : InternJobManager τ) (event) (next) (both : s.Limited ∧ s.Booked) (_ : True)
          (stepped : s.step event = some next) : next.Limited ∧ next.Booked :=
        ⟨both.1.step stepped, both.2.step both.1 stepped⟩
      exact throughout_of_stepsMeet kept events _ ⟨limited_init, booked_init⟩
        (stepsMeet_of_forall events _ fun _ _ _ => trivial)
    exact booked.imp fun s both => both.2.started
  · intro undivided
    have settled : Throughout step (fun s => s.Limited ∧ s.Booked ∧ s.Settled) internJobManager events := by
      refine throughout_of_stepsMeet (fun s event next all met stepped => ?_) events _
        ⟨limited_init, booked_init, settled_init⟩ undivided
      obtain ⟨limited, booked, settled⟩ := all
      exact ⟨limited.step stepped, booked.step limited stepped, settled.step limited booked met stepped⟩
    refine settled.imp fun s all => ⟨all.2.2.counted, fun recorded => ?_⟩
    -- Without a worker that is still to count itself there is nothing left to count.
    show s.abandonedRunningJobs = 0
    rw [all.2.2.counted, List.countP_eq_zero]
    intro job member counted
    have last := recorded job member
    rw [AsyncInternJob.abandonedRunning, last, Bool.and_false] at counted
    cases counted

end Settling

/-- A job that is dropped while its worker runs, and counted until the worker records its completion. -/
theorem jobs_counted_dropped :
    let events : List (InternEvent Unit) := [.start () 1, .advance (), .advance (), .advance (), .advance (),
      .advance (), .drop () 1, .advance (), .store 0 {}, .work 0, .work 0]
    Throughout step AbandonedCounted internJobManager events ∧
      (runFrom step internJobManager (events.take 9)).map (·.abandonedRunningJobs) = some 1 := by
  intro events
  have undivided : StepsMeet step Undivided internJobManager events := by decide
  exact ⟨(jobs_counted events).2 undivided, by decide⟩

/-- A worker ends between the two steps of a drop of its job, which is then counted forever. -/
theorem jobs_counted_fails :
    ¬∀ events : List (InternEvent Unit), Throughout step AbandonedCounted internJobManager events := by
  intro counted
  let events : List (InternEvent Unit) := [.start () 1, .advance (), .advance (), .advance (), .advance (),
    .advance (), .drop () 1, .store 0 {}, .work 0, .advance (), .work 0]
  have ran : (runFrom step internJobManager events).map (fun s =>
      (s.abandonedRunningJobs, s.heap.all fun job => !job.unrecorded)) = some (1, true) := by decide
  obtain ⟨final, ran, told⟩ := Option.map_eq_some_iff.mp ran
  obtain ⟨one, recorded⟩ := Prod.mk.inj told
  have all : ∀ job ∈ final.heap, job.unrecorded = false := fun job member => by
    simpa using List.all_eq_true.mp recorded job member
  -- No worker is left, and the counter says that one runs.
  have zero := ((counted events).last _ _ _ ran).2 all
  have still : final.abandonedRunningJobs = 0 := zero
  rw [one] at still
  cases still

end AgentC.Edict.InternJobManager

import AgentC.Edict.Interns

/-! The limit of a start: what is known of the running jobs between its check and the new job. -/

namespace AgentC.Edict

universe u

variable {τ : Type u}

def InternCall.Roomy (active : Nat) : InternCall → Prop
  | .numbered limit _ _ => active < limit
  | _ => True

def InternCall.Current (started : Nat) : InternCall → Prop
  | .numbered _ seen _ => started = seen
  | _ => True

instance InternCall.decidableCurrent (started : Nat) : (call : InternCall) → Decidable (call.Current started)
  | .numbered _ seen _ => inferInstanceAs (Decidable (started = seen))
  | .idle | .counting .. | .admitted .. | .numbering .. | .launching .. | .dropping .. | .cancelling ..
  | .requesting .. | .collecting .. | .polling .. | .loading .. | .observing .. => isTrue trivial

namespace InternJobManager

variable {s s' : InternJobManager τ} {job : Nat} {f : AsyncInternJob → AsyncInternJob} {t : τ}
  {call : InternCall} {event : InternEvent τ}

theorem isJob_modify {p : AsyncInternJob → Bool} (lowers : ∀ it, p (f it) = true → p it = true)
    (i : Nat) (holds : (s.modifyJob job f).isJob p i = true) : s.isJob p i = true := by
  simp only [isJob, modifyJob, List.getElem?_modify] at holds ⊢
  cases found : s.heap[i]? with
  | none => simp [found] at holds
  | some it =>
    simp only [found, Option.map_eq_map, Option.map_some, Option.any_some] at holds ⊢
    split at holds
    · exact lowers it holds
    · exact holds

theorem activeCount_le (fewer : s'.jobs.Sublist s.jobs)
    (calmer : ∀ i, s'.isJob AsyncInternJob.active i = true → s.isJob AsyncInternJob.active i = true) :
    s'.activeCount ≤ s.activeCount :=
  (fewer.countP_le).trans (List.countP_mono_left fun entry _ => calmer entry.2)

theorem drop_keeps (s : InternJobManager τ) (jobId job : Nat) (ready : Bool) :
    (s.dropJob jobId job ready).jobs.Sublist s.jobs ∧
      (s.dropJob jobId job ready).heap.length = s.heap.length ∧
      (s.dropJob jobId job ready).totalStartedJobs = s.totalStartedJobs ∧
      (s.dropJob jobId job ready).calls = s.calls ∧
      ∀ i, (s.dropJob jobId job ready).isJob AsyncInternJob.active i = true →
        s.isJob AsyncInternJob.active i = true := by
  cases ready with
  | true => exact ⟨List.filter_sublist, rfl, rfl, rfl, fun _ holds => holds⟩
  | false =>
    refine ⟨List.filter_sublist, List.length_modify .., rfl, rfl, isJob_modify fun it holds => ?_⟩
    -- A job that is marked as abandoned is not active.
    simp [AsyncInternJob.active] at holds

theorem observe_keeps (s : InternJobManager τ) (jobId : Nat) :
    (s.observeTerminal jobId).jobs.Sublist s.jobs ∧
      (s.observeTerminal jobId).heap.length = s.heap.length ∧
      (∀ i, (s.observeTerminal jobId).isJob AsyncInternJob.active i = true →
        s.isJob AsyncInternJob.active i = true) ∧
      (s.observeTerminal jobId).totalStartedJobs = s.totalStartedJobs ∧
      (s.observeTerminal jobId).calls = s.calls ∧ (s.observeTerminal jobId).holder = s.holder := by
  unfold observeTerminal
  cases s.find jobId with
  | none => exact ⟨List.Sublist.refl _, rfl, fun _ holds => holds, rfl, rfl, rfl⟩
  | some job =>
    exact ⟨List.filter_sublist, List.length_modify .., isJob_modify fun it holds => holds, rfl, rfl, rfl⟩

theorem isJob_insert {p : AsyncInternJob → Bool} {numericId i : Nat} (inside : i < s.heap.length) :
    (s.insertJob numericId).isJob p i = s.isJob p i := by
  simp only [isJob, insertJob, List.getElem?_append_left inside]

theorem activeCount_insert (s : InternJobManager τ) (numericId : Nat)
    (inside : ∀ entry ∈ s.jobs, entry.2 < s.heap.length) :
    (s.insertJob numericId).activeCount ≤ s.activeCount + 1 := by
  have others : (s.jobs.filter fun entry => entry.1 != numericId).countP
      (fun entry => (s.insertJob numericId).isJob AsyncInternJob.active entry.2) ≤ s.activeCount := by
    refine (List.filter_sublist.countP_le).trans (List.countP_mono_left fun entry member holds => ?_)
    rwa [isJob_insert (inside entry member)] at holds
  have new := List.countP_cons
    (p := fun entry : Nat × Nat => (s.insertJob numericId).isJob AsyncInternJob.active entry.2)
    (a := (numericId, s.heap.length)) (l := s.jobs.filter fun entry => entry.1 != numericId)
  show ((numericId, s.heap.length) :: s.jobs.filter fun entry => entry.1 != numericId).countP _ ≤ _
  rw [new]
  split <;> omega

def Promise (s : InternJobManager τ) (t : τ) : InternCall → Prop
  | .counting _ left active =>
    -- The jobs that were read as active may be fewer now, and no job is added meanwhile.
    s.holder = some t ∧ ∃ passed, passed ++ left = s.jobs.map Prod.snd ∧
      passed.countP (s.isJob AsyncInternJob.active) ≤ active
  | .dropping _ _ _ => s.holder = some t
  | .admitted limit seen | .numbering limit seen _ | .numbered limit seen _ =>
    seen ≤ s.totalStartedJobs ∧ (seen = s.totalStartedJobs → s.activeCount < limit)
  | _ => True

/-- Every call has what it relies on, and the table names jobs of the heap. -/
structure Limited (s : InternJobManager τ) : Prop where
  tracked : ∀ entry ∈ s.jobs, entry.2 < s.heap.length
  promised : ∀ t, s.Promise t (s.calls t)

theorem Promise.mono (promised : s.Promise t call)
    (held : s.holder = some t → s'.holder = some t ∧ s'.jobs = s.jobs)
    (fewer : s'.jobs.Sublist s.jobs) (started : s'.totalStartedJobs = s.totalStartedJobs)
    (calmer : ∀ i, s'.isJob AsyncInternJob.active i = true → s.isJob AsyncInternJob.active i = true) :
    s'.Promise t call := by
  have count := activeCount_le fewer calmer
  cases call with
  | counting limit left active =>
    obtain ⟨mine, passed, split, few⟩ := promised
    obtain ⟨mine', same⟩ := held mine
    exact ⟨mine', passed, by rw [split, same],
      (List.countP_mono_left fun i _ => calmer i).trans few⟩
  | dropping jobId job ready => exact (held promised).1
  | admitted limit seen | numbering limit seen _ | numbered limit seen _ =>
    obtain ⟨before, room⟩ := promised
    exact ⟨by omega, fun same => by have := room (by omega); omega⟩
  | _ => trivial

theorem Promise.insert {numericId : Nat} (promised : s.Promise t call) (free : s.holder ≠ some t) :
    (s.insertJob numericId).Promise t call := by
  cases call with
  | counting limit left active => exact absurd promised.1 free
  | dropping jobId job ready => exact absurd promised free
  | admitted limit seen | numbering limit seen _ | numbered limit seen _ =>
    -- One more job has been started than the check saw, so nothing is known of the limit.
    obtain ⟨before, _⟩ := promised
    refine ⟨Nat.le_succ_of_le before, fun same => ?_⟩
    have later : seen = s.totalStartedJobs + 1 := same
    omega
  | _ => trivial

variable [DecidableEq τ]

/-- What a step other than the addition of a job does. -/
structure Calm (s s' : InternJobManager τ) (event : InternEvent τ) : Prop where
  fewer : s'.jobs.Sublist s.jobs
  heap : s'.heap.length = s.heap.length
  started : s'.totalStartedJobs = s.totalStartedJobs
  calmer : ∀ i, s'.isJob AsyncInternJob.active i = true → s.isJob AsyncInternJob.active i = true
  /-- A call is left alone, or goes on with what it may rely on then and with its limit. -/
  calls : ∀ u, (s'.calls u = s.calls u ∧ (s.holder = some u → s'.holder = some u ∧ s'.jobs = s.jobs)) ∨
    s'.Promise u (s'.calls u) ∧ ((s'.calls u).limit = none ∨ (s'.calls u).limit = (s.calls u).limit ∨
      ∃ limit, event = .start u limit ∧ (s'.calls u).limit = some limit)

theorem Calm.change (t : τ) (call : InternCall) (fewer : s'.jobs.Sublist s.jobs)
    (heap : s'.heap.length = s.heap.length) (started : s'.totalStartedJobs = s.totalStartedJobs)
    (calmer : ∀ i, s'.isJob AsyncInternJob.active i = true → s.isJob AsyncInternJob.active i = true)
    (calls : s'.calls = Function.update s.calls t call) (own : s'.Promise t call)
    (others : ∀ u, u ≠ t → s.holder = some u → s'.holder = some u ∧ s'.jobs = s.jobs)
    (limit : call.limit = none ∨ call.limit = (s.calls t).limit ∨
      ∃ limit, event = .start t limit ∧ call.limit = some limit) : Calm s s' event := by
  refine ⟨fewer, heap, started, calmer, fun u => ?_⟩
  rw [calls]
  by_cases same : u = t
  · subst same
    rw [Function.update_self]
    exact .inr ⟨own, limit⟩
  · rw [Function.update_of_ne same]
    exact .inl ⟨rfl, others u same⟩

theorem Calm.modify (lowers : ∀ it, (f it).active = true → it.active = true)
    (plain : ∀ s' : InternJobManager τ, s'.Promise t call) (limit : call.limit = none) :
    Calm s ((s.modifyJob job f).setCall t call) event :=
  .change t call (List.Sublist.refl _) (by simp [setCall, modifyJob]) rfl (isJob_modify lowers) rfl
    (plain _) (fun _ _ held => ⟨held, rfl⟩) (.inl limit)

omit [DecidableEq τ] in
theorem Calm.modify_job (lowers : ∀ it, (f it).active = true → it.active = true) :
    Calm s (s.modifyJob job f) event where
  fewer := List.Sublist.refl _
  heap := by simp [modifyJob]
  started := rfl
  calmer := isJob_modify lowers
  calls := fun _ => .inl ⟨rfl, fun held => ⟨held, rfl⟩⟩

theorem Calm.setCall (own : (s.setCall t call).Promise t call)
    (limit : call.limit = none ∨ call.limit = (s.calls t).limit) :
    Calm s (s.setCall t call) event :=
  .change t call (List.Sublist.refl _) rfl rfl (fun _ holds => holds) rfl own
    (fun _ _ held => ⟨held, rfl⟩) (limit.imp_right .inl)

omit [DecidableEq τ] in
theorem Calm.refl (s : InternJobManager τ) (event : InternEvent τ) : Calm s s event where
  fewer := List.Sublist.refl _
  heap := rfl
  started := rfl
  calmer := fun _ holds => holds
  calls := fun _ => .inl ⟨rfl, fun held => ⟨held, rfl⟩⟩

omit [DecidableEq τ] in
theorem alone {u : τ} (held : s.holder = some t) (other : u ≠ t) :
    s.holder ≠ some u :=
  fun mine => other (Option.some.inj (mine.symm.trans held))

theorem advance_shape (limited : s.Limited) (stepped : s.advance t = some s') :
    (∃ limit seen numericId, s.calls t = .numbered limit seen numericId ∧ s.holder = none ∧
      s' = (s.insertJob numericId).setCall t (.launching s.heap.length)) ∨
      Calm s s' (.advance t) := by
  have promised := limited.promised t
  unfold advance at stepped
  cases at_ : s.calls t with
  | idle => simp [at_] at stepped
  | counting limit left active =>
    right
    rw [at_] at promised
    obtain ⟨held, passed, split, few⟩ := promised
    cases left with
    | cons job left =>
      simp only [at_, Option.some.injEq] at stepped
      subst stepped
      -- The job that was read joins the ones that were passed.
      have split' : (passed ++ [job]) ++ left = s.jobs.map Prod.snd := by simpa using split
      refine .setCall ⟨held, passed ++ [job], split', ?_⟩ (.inr (by rw [at_]; rfl))
      show (passed ++ [job]).countP (s.isJob AsyncInternJob.active) ≤ _
      rw [List.countP_append, List.countP_singleton]
      split <;> omega
    | nil =>
      simp only [at_] at stepped
      have room : s.activeCount ≤ active := by
        show s.jobs.countP (s.isJob AsyncInternJob.active ∘ Prod.snd) ≤ active
        rw [← List.countP_map, ← split, List.append_nil]
        exact few
      -- The mutex is given back, which no other thread was holding.
      split at stepped <;> cases stepped
      · exact .change t .idle (List.Sublist.refl _) rfl rfl (fun _ holds => holds) rfl trivial
          (fun u other held' => absurd held' (alone held other)) (.inl rfl)
      · exact .change t _ (List.Sublist.refl _) rfl rfl (fun _ holds => holds) rfl
          ⟨le_rfl, fun _ => show s.activeCount < limit by omega⟩
          (fun u other held' => absurd held' (alone held other)) (.inr (.inl (by rw [at_]; rfl)))
  | admitted limit seen =>
    right
    simp only [at_, Option.some.injEq] at stepped
    subst stepped
    rw [at_] at promised
    exact .setCall promised (.inr (by rw [at_]; rfl))
  | numbering limit seen numericId =>
    right
    simp only [at_, Option.some.injEq] at stepped
    subst stepped
    rw [at_] at promised
    exact .change t _ (List.Sublist.refl _) rfl rfl (fun _ holds => holds) rfl promised
      (fun _ _ held => ⟨held, rfl⟩) (.inr (.inl (by rw [at_]; rfl)))
  | numbered limit seen numericId =>
    left
    simp only [at_] at stepped
    split at stepped
    · rename_i free
      exact ⟨limit, seen, numericId, rfl, Option.isNone_iff_eq_none.mp free, (Option.some.inj stepped).symm⟩
    · cases stepped
  | launching job =>
    right
    simp only [at_, Option.some.injEq] at stepped
    subst stepped
    exact .modify (fun it holds => holds) (fun _ => trivial) rfl
  | dropping jobId job ready =>
    right
    simp only [at_, Option.some.injEq] at stepped
    subst stepped
    rw [at_] at promised
    obtain ⟨fewer, same, started, calls, calmer⟩ := drop_keeps s jobId job ready
    exact .change t .idle fewer same started calmer (by simp only [setCall, calls]) trivial
      (fun u other held => absurd held (alone promised other)) (.inl rfl)
  | cancelling job =>
    right
    simp only [at_, Option.some.injEq] at stepped
    subst stepped
    split
    · exact .setCall trivial (.inl rfl)
    · exact .setCall trivial (.inl rfl)
  | requesting job =>
    right
    simp only [at_, Option.some.injEq] at stepped
    subst stepped
    exact .modify (fun it holds => holds) (fun _ => trivial) rfl
  | collecting job =>
    right
    simp only [at_, Option.some.injEq] at stepped
    subst stepped
    exact .setCall trivial (.inl rfl)
  | polling job ready =>
    right
    simp only [at_] at stepped
    split at stepped <;> cases stepped
    · exact .setCall trivial (.inl rfl)
    · exact .change t .idle (List.Sublist.refl _) rfl rfl (fun _ holds => holds) rfl trivial
        (fun _ _ held => ⟨held, rfl⟩) (.inl rfl)
  | loading job cancelRequested =>
    right
    simp only [at_, Option.some.injEq] at stepped
    subst stepped
    exact .setCall trivial (.inl rfl)
  | observing job cancelRequested outcome =>
    right
    simp only [at_] at stepped
    split at stepped
    · rename_i free
      cases stepped
      obtain ⟨fewer, same, calmer, started, calls, -⟩ :=
        observe_keeps s ((s.heap[job]?.map AsyncInternJob.numericId).getD 0)
      exact .change t .idle fewer same started calmer (by simp only [setCall, report, calls]) trivial
        (fun u _ held => by simp [held] at free) (.inl rfl)
    · cases stepped

theorem launchFails_cases {outcome : InternWorkerOutcome}
    (stepped : s.step (.launchFails t outcome) = some s') :
    ∃ job, s.calls t = .launching job ∧ s.isJob AsyncInternJob.ready job = false ∧
      s' = s.modifyJob job fun it => { it with slot := some outcome } := by
  unfold step at stepped
  dsimp only at stepped
  split at stepped
  · rename_i job at_
    split at stepped
    · cases stepped
    · rename_i empty
      exact ⟨job, at_, Bool.not_eq_true _ ▸ empty, (Option.some.inj stepped).symm⟩
  · cases stepped

theorem store_cases {outcome : InternWorkerOutcome}
    (stepped : s.step (.store job outcome) = some s') :
    ∃ it, s.heap[job]? = some it ∧ it.worker = .running ∧ it.ready = false ∧
      s' = s.modifyJob job fun it => { it with slot := some outcome } := by
  obtain ⟨it, found, stepped⟩ := Option.bind_eq_some_iff.mp stepped
  split at stepped
  · rename_i running
    exact ⟨it, found, running.1, by simpa using running.2, (Option.some.inj stepped).symm⟩
  · cases stepped

theorem work_cases (stepped : s.step (.work job) = some s') :
    ∃ it, s.heap[job]? = some it ∧
      ((it.worker = .running ∧ it.ready = true ∧
          s' = s.modifyJob job fun it => { it with worker := .sampled it.abandoned }) ∨
        ∃ abandoned, it.worker = .sampled abandoned ∧ s.holder = none ∧
          s' = s.recordFinished job abandoned) := by
  obtain ⟨it, found, stepped⟩ := Option.bind_eq_some_iff.mp stepped
  refine ⟨it, found, ?_⟩
  split at stepped
  · rename_i running
    split at stepped
    · rename_i ready
      exact .inl ⟨running, ready, (Option.some.inj stepped).symm⟩
    · cases stepped
  · rename_i abandoned sampled
    split at stepped
    · rename_i free
      exact .inr ⟨abandoned, sampled, Option.isNone_iff_eq_none.mp free, (Option.some.inj stepped).symm⟩
    · cases stepped
  · cases stepped

omit [DecidableEq τ] in
theorem enter_cases {next : InternJobManager τ} (stepped : s.enter t next = some s') :
    s.calls t = .idle ∧ s.holder = none ∧ s' = next := by
  unfold enter at stepped
  split at stepped
  · rename_i begun
    exact ⟨begun.1, Option.isNone_iff_eq_none.mp begun.2, (Option.some.inj stepped).symm⟩
  · cases stepped

theorem step_shape (limited : s.Limited) (stepped : s.step event = some s') :
    (∃ t limit seen numericId, event = .advance t ∧ s.calls t = .numbered limit seen numericId ∧
      s.holder = none ∧ s' = (s.insertJob numericId).setCall t (.launching s.heap.length)) ∨
      Calm s s' event := by
  cases event with
  | start t limit =>
    obtain ⟨-, free, rfl⟩ := enter_cases stepped
    exact .inr (.change t _ (List.Sublist.refl _) rfl rfl (fun _ holds => holds) rfl
      ⟨rfl, [], rfl, Nat.zero_le _⟩ (fun u _ held => by simp [free] at held) (.inr (.inr ⟨limit, rfl, rfl⟩)))
  | drop t jobId =>
    obtain ⟨-, free, rfl⟩ := enter_cases stepped
    cases s.find jobId with
    | none => exact .inr (.refl s _)
    | some job =>
      exact .inr (.change t _ (List.Sublist.refl _) rfl rfl (fun _ holds => holds) rfl rfl
        (fun u _ held => by simp [free] at held) (.inl rfl))
  | cancel t jobId | collect t jobId =>
    obtain ⟨-, -, rfl⟩ := enter_cases stepped
    cases s.find jobId with
    | none => exact .inr (.refl s _)
    | some job => exact .inr (.setCall trivial (.inl rfl))
  | query t =>
    obtain ⟨-, -, rfl⟩ := enter_cases stepped
    exact .inr (.refl s' _)
  | advance t =>
    rcases advance_shape limited stepped with ⟨limit, seen, numericId, at_, free, same⟩ | calm
    · exact .inl ⟨t, limit, seen, numericId, rfl, at_, free, same⟩
    · exact .inr calm
  | launchFails t outcome =>
    obtain ⟨job, -, -, rfl⟩ := launchFails_cases stepped
    exact .inr (.modify_job fun it holds => by
      simp [AsyncInternJob.active, AsyncInternJob.ready] at holds)
  | store job outcome =>
    obtain ⟨it, -, -, -, rfl⟩ := store_cases stepped
    exact .inr (.modify_job fun it holds => by
      simp [AsyncInternJob.active, AsyncInternJob.ready] at holds)
  | work job =>
    obtain ⟨it, -, ⟨-, -, rfl⟩ | ⟨abandoned, -, -, rfl⟩⟩ := work_cases stepped
    · exact .inr (.modify_job fun it holds => holds)
    · -- The counters of finished jobs are no part of what the calls rely on.
      have calm : Calm s (s.modifyJob job fun it => { it with worker := .recorded }) (.work job) :=
        .modify_job fun it holds => holds
      exact .inr ⟨calm.fewer, calm.heap, calm.started, calm.calmer, calm.calls⟩

theorem Limited.step (limited : s.Limited) (stepped : s.step event = some s') : s'.Limited := by
  rcases step_shape limited stepped with ⟨t, limit, seen, numericId, -, -, free, rfl⟩ | calm
  · have nobody : ∀ u, s.holder ≠ some u := fun u held => by simp [held] at free
    refine ⟨fun entry member => ?_, fun u => ?_⟩
    · show entry.2 < (s.heap ++ [_]).length
      rw [List.length_append, List.length_singleton]
      rcases List.mem_cons.mp member with rfl | old
      · exact Nat.lt_succ_self _
      · exact Nat.lt_succ_of_lt (limited.tracked entry (List.mem_of_mem_filter old))
    · by_cases same : u = t
      · subst same
        show Promise _ u (Function.update s.calls u _ u)
        rw [Function.update_self]
        trivial
      · show Promise _ u (Function.update s.calls t _ u)
        rw [Function.update_of_ne same]
        exact (limited.promised u).insert (nobody u)
  · refine ⟨fun entry member => calm.heap ▸ limited.tracked entry (calm.fewer.subset member), fun u => ?_⟩
    rcases calm.calls u with ⟨same, held⟩ | ⟨own, _⟩
    · rw [same]
      exact (limited.promised u).mono held calm.fewer calm.started calm.calmer
    · exact own

omit [DecidableEq τ] in
theorem limited_init : Limited (internJobManager : InternJobManager τ) :=
  ⟨fun _ member => absurd member List.not_mem_nil, fun _ => trivial⟩

def AddedBelowLimit (s : InternJobManager τ) : InternEvent τ → Prop
  | .advance t => (s.calls t).Roomy s.activeCount
  | _ => True

def NotOvertaken (s : InternJobManager τ) : InternEvent τ → Prop
  | .advance t => (s.calls t).Current s.totalStartedJobs
  | _ => True

instance (s : InternJobManager τ) : (event : InternEvent τ) → Decidable (s.NotOvertaken event)
  | .advance t => InternCall.decidableCurrent s.totalStartedJobs (s.calls t)
  | .start .. | .drop .. | .cancel .. | .collect .. | .query .. | .launchFails .. | .store ..
  | .work .. => isTrue trivial

def Uniform (m : Nat) (s : InternJobManager τ) : Prop :=
  (∀ t limit, (s.calls t).limit = some limit → limit = m) ∧ s.activeCount ≤ m

omit [DecidableEq τ] in
theorem Limited.below (limited : s.Limited) (first : s.NotOvertaken event) :
    s.AddedBelowLimit event := by
  cases event with
  | advance t =>
    have promised := limited.promised t
    show (s.calls t).Roomy s.activeCount
    have current : (s.calls t).Current s.totalStartedJobs := first
    cases at_ : s.calls t with
    | numbered limit seen numericId =>
      rw [at_] at promised current
      exact promised.2 current.symm
    | _ => trivial
  | _ => trivial

theorem Uniform.step {m : Nat} (limited : s.Limited) (uniform : s.Uniform m)
    (first : s.NotOvertaken event) (same : ∀ t limit, event = .start t limit → limit = m)
    (stepped : s.step event = some s') :
    s'.Uniform m := by
  obtain ⟨limits, count⟩ := uniform
  rcases step_shape limited stepped with ⟨t, limit, seen, numericId, rfl, at_, -, rfl⟩ | calm
  · have room : (s.calls t).Roomy s.activeCount := limited.below first
    rw [at_] at room
    have room : s.activeCount < limit := room
    have own : limit = m := limits t limit (by rw [at_]; rfl)
    have grown := activeCount_insert s numericId limited.tracked
    refine ⟨fun u other here => ?_, show (s.insertJob numericId).activeCount ≤ m by omega⟩
    by_cases mine : u = t
    · subst mine
      have changed : (Function.update s.calls u (.launching s.heap.length) u).limit = some other := here
      rw [Function.update_self] at changed
      cases changed
    · have kept : (Function.update s.calls t (.launching s.heap.length) u).limit = some other := here
      rw [Function.update_of_ne mine] at kept
      exact limits u other kept
  · refine ⟨fun u other here => ?_, (activeCount_le calm.fewer calm.calmer).trans count⟩
    rcases calm.calls u with ⟨kept, -⟩ | ⟨-, (gone | kept | ⟨limit, started, now⟩)⟩
    · exact limits u other (kept ▸ here)
    · rw [gone] at here
      cases here
    · exact limits u other (kept ▸ here)
    · rw [now] at here
      cases here
      exact same u other started

/--
Starts that are not overtaken between their check and their job keep to their limits.

With one limit for all of them, no state of the run has more active jobs than that.
-/
theorem start_limits_kept (events : List (InternEvent τ))
    (first : StepsMeet step NotOvertaken internJobManager events) :
    StepsMeet step AddedBelowLimit internJobManager events ∧
      ∀ m, (∀ t limit, .start t limit ∈ events → limit = m) →
        Throughout step (fun s => s.activeCount ≤ m) internJobManager events := by
  constructor
  · refine stepsMeet_of_invariant (fun s event next limited unovertaken stepped => ?_) events _
      limited_init first
    exact ⟨limited.step stepped, limited.below unovertaken⟩
  · intro m same
    have one : StepsMeet step (fun _ event => ∀ t limit, event = .start t limit → limit = m)
        (internJobManager : InternJobManager τ) events :=
      stepsMeet_of_forall events _ fun event member _ t limit started => same t limit (started ▸ member)
    -- What calls rely on and the one limit are kept together.
    have both : Throughout step (fun s => s.Limited ∧ s.Uniform m) internJobManager events := by
      refine throughout_of_stepsMeet (fun s event next both met stepped => ?_) events _
        ⟨limited_init, ⟨fun t limit waiting => (by cases waiting), Nat.zero_le m⟩⟩ (first.and one)
      exact ⟨both.1.step stepped, both.2.step both.1 met.1 met.2 stepped⟩
    exact both.imp (fun s kept => kept.2.2)

/-- A start that is admitted and adds its job before another start is checked. -/
theorem start_limits_kept_in_turn :
    let events : List (InternEvent Bool) := [.start false 1, .advance false, .advance false,
      .advance false, .advance false, .start true 1, .advance true, .advance true]
    (∃ final, runFrom step internJobManager events = some final ∧ final.activeCount = 1) ∧
      StepsMeet step AddedBelowLimit internJobManager events ∧
      Throughout step (fun s => s.activeCount ≤ 1) internJobManager events := by
  intro events
  have met : StepsMeet step NotOvertaken internJobManager events := by decide
  have kept := start_limits_kept events met
  have limits : ∀ t limit, .start t limit ∈ events → limit = 1 := by
    intro t limit member
    simp [events] at member
    omega
  have ran : (runFrom step internJobManager events).map activeCount = some 1 := by decide
  exact ⟨Option.map_eq_some_iff.mp ran, kept.1, kept.2 1 limits⟩

/-- Two starts that are both checked before either of them has added its job. -/
theorem start_limits_fail :
    ¬∀ (events : List (InternEvent Bool)), (∀ t limit, .start t limit ∈ events → limit = 1) →
      Throughout step (fun s => s.activeCount ≤ 1) internJobManager events := by
  intro kept
  let events : List (InternEvent Bool) := [.start false 1, .advance false, .start true 1, .advance true,
    .advance false, .advance false, .advance false, .advance true, .advance true, .advance true]
  have limits : ∀ t limit, .start t limit ∈ events → limit = 1 := by
    intro t limit member
    simp [events] at member
    omega
  have ran : (runFrom step internJobManager events).map activeCount = some 2 := by decide
  obtain ⟨final, ran, two⟩ := Option.map_eq_some_iff.mp ran
  have within := (kept events limits).last _ _ _ ran
  rw [two] at within
  exact absurd within (by decide)

end InternJobManager

end AgentC.Edict

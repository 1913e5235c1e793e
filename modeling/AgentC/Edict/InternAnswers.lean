import AgentC.Edict.InternLimits
import Mathlib.Data.Fintype.Basic

/-! What the collections of a job tell, one after the other. -/

namespace AgentC.Edict

universe u

variable {τ : Type u} [DecidableEq τ]

namespace InternCall

def answering : InternCall → Bool
  | .polling _ _ | .loading _ _ | .observing _ _ _ => true
  | _ => false

def readsUncancelled (job : Nat) : InternCall → Bool
  | .loading asked false | .observing asked false _ => asked == job
  | _ => false

end InternCall

structure ToldStatus where
  job : Nat
  began : Nat
  status : WorkerCollectStatus
  deriving DecidableEq, Repr

/-- A manager with what its collections have told, in order. -/
structure JobHistory (τ : Type u) where
  manager : InternJobManager τ
  /-- How much had been told when a thread began its last collection. -/
  began : τ → Nat
  told : List ToldStatus

namespace JobHistory

def start : JobHistory τ where
  manager := .internJobManager
  began := fun _ => 0
  told := []

variable (s : JobHistory τ)

/-- What a step tells, if it is the last one of a collection. -/
def answer : InternEvent τ → List ToldStatus
  | .advance t =>
    match s.manager.calls t with
    | .polling job false =>
      [⟨job, s.began t, buildWorkerCollectStatus (s.manager.isJob AsyncInternJob.cancelRequested job) none⟩]
    | .observing job cancelRequested outcome =>
      [⟨job, s.began t, buildWorkerCollectStatus cancelRequested outcome⟩]
    | _ => []
  | _ => []

def begin_ : InternEvent τ → τ → Nat
  | .collect t _ => Function.update s.began t s.told.length
  | _ => s.began

def step (event : InternEvent τ) : Option (JobHistory τ) :=
  (s.manager.step event).map fun manager =>
    { manager, began := s.begin_ event, told := s.told ++ s.answer event }

/--
A collection that begins after a terminal status of its job was told tells the same status. What is
told is what the manager reports.
-/
structure Stable : Prop where
  same : ∀ (i j : Nat) (earlier later : ToldStatus), s.told[i]? = some earlier → s.told[j]? = some later →
    earlier.job = later.job → earlier.status.terminal = true → i < later.began →
      later.status = earlier.status
  reports : s.manager.reports.map Prod.snd = s.told.map ToldStatus.status

def requests : InternEvent τ → Option Nat
  | .advance t =>
    match s.manager.calls t with
    | .requesting job => some job
    | _ => none
  | _ => none

/--
A request to cancel sets a flag that is not set before a terminal status of the job was told, and while
no collection is going to tell one for which it read the flag as not set.
-/
def InTime (event : InternEvent τ) : Prop :=
  ∀ job ∈ s.requests event, s.manager.isJob AsyncInternJob.cancelRequested job = false →
    (∀ entry ∈ s.told, entry.job = job → entry.status.terminal = false) ∧
      ∀ u, (s.manager.calls u).readsUncancelled job = false

instance [Fintype τ] (event : InternEvent τ) : Decidable (s.InTime event) :=
  inferInstanceAs (Decidable (∀ job ∈ s.requests event, _))

end JobHistory

namespace InternJobManager

variable {s s' : InternJobManager τ} {job : Nat}

/-- A job stays what collections tell of it: its outcome, once it has one, and whether it was cancelled. -/
def KeepsJob (s s' : InternJobManager τ) (job : Nat) : Prop :=
  ∀ it, s.heap[job]? = some it → ∃ it', s'.heap[job]? = some it' ∧
    (it.slot.isSome = true → it'.slot = it.slot) ∧ it'.cancelRequested = it.cancelRequested

omit [DecidableEq τ] in
theorem KeepsJob.refl (s : InternJobManager τ) (job : Nat) : KeepsJob s s job :=
  fun it found => ⟨it, found, fun _ => rfl, rfl⟩

omit [DecidableEq τ] in
theorem KeepsJob.modify {changed : Nat} {f : AsyncInternJob → AsyncInternJob}
    (heap : s'.heap = s.heap.modify changed f)
    (keeps : ∀ it, s.heap[changed]? = some it →
      (it.slot.isSome = true → (f it).slot = it.slot) ∧ (f it).cancelRequested = it.cancelRequested)
    (job : Nat) : KeepsJob s s' job := by
  intro it found
  rw [heap]
  by_cases here : changed = job
  · subst here
    exact ⟨f it, by simp [found], keeps it found⟩
  · exact ⟨it, by simp [here, found], fun _ => rfl, rfl⟩

/-- What a step is for the collections. Only a request changes the flag of a job. -/
inductive Collects (s s' : InternJobManager τ) : InternEvent τ → Prop where
  | quiet {event} (jobs : ∀ job, KeepsJob s s' job)
      (calls : ∀ u, s'.calls u = s.calls u ∨ (s'.calls u).answering = false) : Collects s s' event
  | request (t job) (at_ : s.calls t = .requesting job)
      (next : s' = (s.modifyJob job fun it => { it with cancelRequested := true }).setCall t .idle) :
      Collects s s' (.advance t)
  | poll (t job) (at_ : s.calls t = .collecting job)
      (next : s' = s.setCall t (.polling job (s.isJob AsyncInternJob.ready job))) : Collects s s' (.advance t)
  | load (t job) (at_ : s.calls t = .polling job true)
      (next : s' = s.setCall t (.loading job (s.isJob AsyncInternJob.cancelRequested job))) :
      Collects s s' (.advance t)
  | observe (t job cancelRequested) (at_ : s.calls t = .loading job cancelRequested)
      (next : s' = s.setCall t (.observing job cancelRequested (s.heap[job]?.bind AsyncInternJob.slot))) :
      Collects s s' (.advance t)

theorem Collects.set {event : InternEvent τ} (t : τ) (call : InternCall) (jobs : ∀ job, KeepsJob s s' job)
    (calls : s'.calls = Function.update s.calls t call) (silent : call.answering = false) :
    Collects s s' event := by
  refine .quiet jobs fun u => ?_
  rw [calls]
  by_cases here : u = t
  · subst here
    right
    rw [Function.update_self, silent]
  · left
    rw [Function.update_of_ne here]

omit [DecidableEq τ] in
theorem keeps_observe (s : InternJobManager τ) (jobId job : Nat) :
    KeepsJob s (s.observeTerminal jobId) job := by
  unfold observeTerminal
  cases s.find jobId with
  | none => exact .refl s job
  | some found => exact KeepsJob.modify rfl (by exact fun it _ => ⟨fun _ => rfl, rfl⟩) job

omit [DecidableEq τ] in
theorem keeps_drop (s : InternJobManager τ) (jobId dropped : Nat) (ready : Bool) (job : Nat) :
    KeepsJob s (s.dropJob jobId dropped ready) job := by
  cases ready with
  | true => exact .refl s job
  | false => exact KeepsJob.modify rfl (by exact fun it _ => ⟨fun _ => rfl, rfl⟩) job

omit [DecidableEq τ] in
theorem keeps_insert (s : InternJobManager τ) (numericId job : Nat) :
    KeepsJob s (s.insertJob numericId) job := by
  intro it found
  obtain ⟨inside, -⟩ := List.getElem?_eq_some_iff.mp found
  exact ⟨it, by rw [insertJob, List.getElem?_append_left inside, found], fun _ => rfl, rfl⟩

/-- What a thread does that goes on with its call. -/
theorem advance_collects {t : τ} (stepped : s.advance t = some s') : Collects s s' (.advance t) := by
  unfold advance at stepped
  cases at_ : s.calls t with
  | idle => simp [at_] at stepped
  | counting limit left active =>
    cases left with
    | cons job left =>
      simp only [at_, Option.some.injEq] at stepped
      subst stepped
      exact .set t _ (KeepsJob.refl s) rfl rfl
    | nil =>
      simp only [at_] at stepped
      split at stepped <;> cases stepped
      · exact .set t _ (KeepsJob.refl s) rfl rfl
      · exact .set t _ (KeepsJob.refl s) rfl rfl
  | admitted limit seen =>
    simp only [at_, Option.some.injEq] at stepped
    subst stepped
    exact .set t _ (KeepsJob.refl s) rfl rfl
  | numbering limit seen numericId =>
    simp only [at_, Option.some.injEq] at stepped
    subst stepped
    exact Collects.set t (.numbered limit seen numericId) (KeepsJob.refl s) rfl rfl
  | numbered limit seen numericId =>
    simp only [at_] at stepped
    split at stepped
    · cases stepped
      exact .set t _ (keeps_insert s numericId) rfl rfl
    · cases stepped
  | launching job =>
    simp only [at_, Option.some.injEq] at stepped
    subst stepped
    exact .set t _ (KeepsJob.modify rfl (by exact fun it _ => ⟨fun _ => rfl, rfl⟩)) rfl rfl
  | dropping jobId job ready =>
    simp only [at_, Option.some.injEq] at stepped
    subst stepped
    obtain ⟨-, -, -, calls, -⟩ := drop_keeps s jobId job ready
    exact .set t .idle (keeps_drop s jobId job ready) (by simp only [setCall, calls]) rfl
  | cancelling job =>
    simp only [at_, Option.some.injEq] at stepped
    subst stepped
    split <;> exact .set t _ (KeepsJob.refl s) rfl rfl
  | requesting job =>
    simp only [at_, Option.some.injEq] at stepped
    exact .request t job at_ stepped.symm
  | collecting job =>
    simp only [at_, Option.some.injEq] at stepped
    exact .poll t job at_ stepped.symm
  | polling job ready =>
    simp only [at_] at stepped
    cases ready with
    | true => exact .load t job at_ (Option.some.inj stepped).symm
    | false =>
      cases stepped
      exact Collects.set t _ (KeepsJob.refl s) rfl rfl
  | loading job cancelRequested =>
    simp only [at_, Option.some.injEq] at stepped
    exact .observe t job cancelRequested at_ stepped.symm
  | observing job cancelRequested outcome =>
    simp only [at_] at stepped
    split at stepped
    · cases stepped
      obtain ⟨-, -, -, -, calls, -⟩ := observe_keeps s ((s.heap[job]?.map AsyncInternJob.numericId).getD 0)
      exact .set t .idle (keeps_observe s _) (by simp only [setCall, report, calls]) rfl
    · cases stepped

theorem step_collects {event : InternEvent τ} (stepped : s.step event = some s') : Collects s s' event := by
  -- A job that has no outcome yet may get one.
  have stored : ∀ {job : Nat} {outcome : InternWorkerOutcome}, s.isJob AsyncInternJob.ready job = false →
      Collects s (s.modifyJob job fun it => { it with slot := some outcome }) event := by
    intro job outcome empty
    refine .quiet (KeepsJob.modify rfl fun it found => ⟨fun filled => ?_, rfl⟩) fun u => Or.inl rfl
    rw [isJob, found] at empty
    exact absurd (filled : it.ready = true) (Bool.eq_false_iff.mp empty)
  cases event with
  | start t limit =>
    obtain ⟨-, -, rfl⟩ := enter_cases stepped
    exact Collects.set t _ (KeepsJob.refl s) rfl rfl
  | drop t jobId =>
    obtain ⟨-, -, rfl⟩ := enter_cases stepped
    cases s.find jobId with
    | none => exact .quiet (KeepsJob.refl s) fun u => Or.inl rfl
    | some job => exact Collects.set t _ (KeepsJob.refl s) rfl rfl
  | cancel t jobId | collect t jobId =>
    obtain ⟨-, -, rfl⟩ := enter_cases stepped
    cases s.find jobId with
    | none => exact .quiet (KeepsJob.refl s) fun u => Or.inl rfl
    | some job => exact Collects.set t _ (KeepsJob.refl s) rfl rfl
  | query t =>
    obtain ⟨-, -, rfl⟩ := enter_cases stepped
    exact .quiet (KeepsJob.refl _) fun u => Or.inl rfl
  | advance t => exact advance_collects stepped
  | launchFails t outcome =>
    obtain ⟨job, -, empty, rfl⟩ := launchFails_cases stepped
    exact stored empty
  | store job outcome =>
    obtain ⟨it, found, -, empty, rfl⟩ := store_cases stepped
    exact stored (by rw [isJob, found]; exact empty)
  | work job =>
    obtain ⟨it, -, ⟨-, -, rfl⟩ | ⟨abandoned, -, -, rfl⟩⟩ := work_cases stepped
    · exact .quiet (KeepsJob.modify rfl (by exact fun it _ => ⟨fun _ => rfl, rfl⟩)) fun u => Or.inl rfl
    · have recorded : ∀ job', KeepsJob s (s.modifyJob job fun it => { it with worker := .recorded }) job' :=
        KeepsJob.modify rfl (by exact fun it _ => ⟨fun _ => rfl, rfl⟩)
      exact .quiet recorded fun u => Or.inl rfl

end InternJobManager

namespace JobHistory

open InternJobManager

variable {s : JobHistory τ}

def HasOutcome (s : JobHistory τ) (job : Nat) (cancelRequested : Bool)
    (outcome : InternWorkerOutcome) : Prop :=
  ∃ it, s.manager.heap[job]? = some it ∧ it.slot = some outcome ∧ it.cancelRequested = cancelRequested

/-- What a collection that answers has read is what there is. -/
def Sound (s : JobHistory τ) (t : τ) : InternCall → Prop
  | .polling job true => ∃ cancelRequested outcome, s.HasOutcome job cancelRequested outcome
  | .polling job false =>
    -- No outcome had been told when the collection began, or it would have found one.
    ∀ (i : Nat) (entry : ToldStatus), s.told[i]? = some entry → i < s.began t → entry.job = job →
      entry.status.terminal = false
  | .loading job cancelRequested => ∃ outcome, s.HasOutcome job cancelRequested outcome
  | .observing job cancelRequested told => ∃ outcome, told = some outcome ∧ s.HasOutcome job cancelRequested outcome
  | _ => True

/-- What was told of a job is what there is, and was told of no job without an outcome. -/
structure Consistent (s : JobHistory τ) : Prop where
  begun : ∀ t, s.began t ≤ s.told.length
  order : ∀ (j : Nat) (entry : ToldStatus), s.told[j]? = some entry → entry.began ≤ j
  outcomes : ∀ entry ∈ s.told, entry.status.terminal = true →
    ∃ cancelRequested outcome, s.HasOutcome entry.job cancelRequested outcome ∧
      entry.status = buildWorkerCollectStatus cancelRequested (some outcome)
  calls : ∀ t, s.Sound t (s.manager.calls t)
  waiting : ∀ (i j : Nat) (earlier later : ToldStatus), s.told[i]? = some earlier → s.told[j]? = some later →
    earlier.job = later.job → later.status.terminal = false → i < later.began → earlier.status.terminal = false
  reports : s.manager.reports.map Prod.snd = s.told.map ToldStatus.status

theorem terminal_build (cancelRequested : Bool) (outcome : InternWorkerOutcome) :
    (buildWorkerCollectStatus cancelRequested (some outcome)).terminal = true := by
  cases cancelRequested <;> rfl

omit [DecidableEq τ] in
theorem HasOutcome.unique {job : Nat} {flag flag' : Bool} {outcome outcome' : InternWorkerOutcome}
    (one : s.HasOutcome job flag outcome) (other : s.HasOutcome job flag' outcome') :
    flag = flag' ∧ outcome = outcome' := by
  obtain ⟨it, found, slot, rfl⟩ := one
  obtain ⟨it', found', slot', rfl⟩ := other
  obtain rfl := Option.some.inj (found.symm.trans found')
  exact ⟨rfl, Option.some.inj (slot.symm.trans slot')⟩

omit [DecidableEq τ] in
theorem Consistent.stable (consistent : s.Consistent) : s.Stable where
  same := by
    intro i j earlier later at_ at_' job terminal behind
    cases status : later.status.terminal with
    | false =>
      rw [consistent.waiting i j earlier later at_ at_' job status behind] at terminal
      cases terminal
    | true =>
      obtain ⟨flag, outcome, has, eq⟩ := consistent.outcomes earlier (List.mem_of_getElem? at_) terminal
      obtain ⟨flag', outcome', has', eq'⟩ := consistent.outcomes later (List.mem_of_getElem? at_') status
      obtain ⟨rfl, rfl⟩ := has.unique (job ▸ has')
      rw [eq, eq']
  reports := consistent.reports

omit [DecidableEq τ] in
theorem Consistent.tell (consistent : s.Consistent) {entry : ToldStatus}
    (began : entry.began ≤ s.told.length)
    (outcomes : entry.status.terminal = true → ∃ cancelRequested outcome,
      s.HasOutcome entry.job cancelRequested outcome ∧
        entry.status = buildWorkerCollectStatus cancelRequested (some outcome))
    (waiting : entry.status.terminal = false → ∀ (i : Nat) (earlier : ToldStatus), s.told[i]? = some earlier →
      i < entry.began → earlier.job = entry.job → earlier.status.terminal = false)
    {reports : List (Nat × WorkerCollectStatus)}
    (reported : reports.map Prod.snd = s.manager.reports.map Prod.snd ++ [entry.status]) :
    Consistent { s with manager := { s.manager with reports }, told := s.told ++ [entry] } := by
  -- An entry is an old one or the new one, which stands last.
  have split : ∀ {i : Nat} {told : ToldStatus}, (s.told ++ [entry])[i]? = some told →
      s.told[i]? = some told ∨ i = s.told.length ∧ told = entry := by
    intro i told at_
    rcases Nat.lt_trichotomy i s.told.length with before | last | beyond
    · exact Or.inl (by rwa [List.getElem?_append_left before] at at_)
    · subst last
      rw [List.getElem?_concat_length] at at_
      exact Or.inr ⟨rfl, (Option.some.inj at_).symm⟩
    · rw [List.getElem?_eq_none (by rw [List.length_append, List.length_singleton]; omega)] at at_
      cases at_
  refine ⟨?_, ?_, ?_, ?_, ?_, ?_⟩
  · intro t
    rw [List.length_append]
    exact Nat.le_add_right_of_le (consistent.begun t)
  · intro j told at_
    rcases split at_ with old | ⟨rfl, rfl⟩
    · exact consistent.order j told old
    · exact began
  · intro told member terminal
    rcases List.mem_append.mp member with old | new
    · exact consistent.outcomes told old terminal
    · obtain rfl := List.mem_singleton.mp new
      exact outcomes terminal
  · intro t
    have sound := consistent.calls t
    dsimp only
    cases call : s.manager.calls t with
    | polling job ready =>
      rw [call] at sound
      cases ready with
      | true => exact sound
      | false =>
        intro i told at_ behind same
        rcases split at_ with old | ⟨rfl, -⟩
        · exact sound i told old behind same
        · exact absurd behind (Nat.not_lt.mpr (consistent.begun t))
    | _ =>
      rw [call] at sound
      exact sound
  · intro i j earlier later at_ at_' same status behind
    rcases split at_' with old | ⟨rfl, rfl⟩
    · have before : i < s.told.length := by
        have bound := consistent.order j later old
        obtain ⟨inside, -⟩ := List.getElem?_eq_some_iff.mp old
        omega
      rcases split at_ with old' | ⟨rfl, -⟩
      · exact consistent.waiting i j earlier later old' old same status behind
      · exact absurd before (Nat.lt_irrefl _)
    · rcases split at_ with old' | ⟨rfl, -⟩
      · exact waiting status i earlier old' behind same
      · exact absurd began (Nat.not_le.mpr behind)
  · rw [List.map_append, ← consistent.reports]
    exact reported

omit [DecidableEq τ] in
theorem HasOutcome.keep {manager : InternJobManager τ} {job : Nat} {flag : Bool}
    {outcome : InternWorkerOutcome}
    (has : s.HasOutcome job flag outcome) (keeps : s.manager.KeepsJob manager job) :
    HasOutcome { s with manager } job flag outcome := by
  obtain ⟨it, found, slot, rfl⟩ := has
  obtain ⟨it', found', same, flag⟩ := keeps it found
  exact ⟨it', found', (same (by rw [slot]; rfl)).trans slot, flag⟩

omit [DecidableEq τ] in
theorem Consistent.keep (consistent : s.Consistent) {manager : InternJobManager τ} {began : τ → Nat}
    (jobs : ∀ entry ∈ s.told, entry.status.terminal = true → s.manager.KeepsJob manager entry.job)
    (reports : manager.reports = s.manager.reports) (begun : ∀ t, began t ≤ s.told.length)
    (calls : ∀ t, Sound { s with manager, began } t (manager.calls t)) :
    Consistent { s with manager, began } where
  begun := begun
  order := consistent.order
  outcomes := by
    intro entry member terminal
    obtain ⟨flag, outcome, has, status⟩ := consistent.outcomes entry member terminal
    exact ⟨flag, outcome, has.keep (jobs entry member terminal), status⟩
  calls := calls
  waiting := consistent.waiting
  reports := by
    dsimp only
    rw [reports]
    exact consistent.reports

omit [DecidableEq τ] in
theorem Sound.keep {manager : InternJobManager τ} {began : τ → Nat} {t : τ} {call : InternCall}
    (sound : s.Sound t call) (jobs : ∀ job, s.manager.KeepsJob manager job) (since : began t = s.began t) :
    Sound { s with manager, began } t call := by
  cases call with
  | polling job ready =>
    cases ready with
    | true =>
      obtain ⟨flag, outcome, has⟩ := sound
      exact ⟨flag, outcome, has.keep (jobs job)⟩
    | false =>
      intro i entry at_ behind same
      exact sound i entry at_ (since ▸ behind) same
  | loading job cancelRequested =>
    obtain ⟨outcome, has⟩ := sound
    exact ⟨outcome, has.keep (jobs job)⟩
  | observing job cancelRequested told =>
    obtain ⟨outcome, same, has⟩ := sound
    exact ⟨outcome, same, has.keep (jobs job)⟩
  | _ => trivial

omit [DecidableEq τ] in
theorem sound_of_silent {t : τ} {call : InternCall} (silent : call.answering = false) : s.Sound t call := by
  cases call with
  | polling job ready => cases silent
  | loading job cancelRequested => cases silent
  | observing job cancelRequested told => cases silent
  | _ => exact True.intro

theorem Consistent.request (consistent : s.Consistent) {t : τ} {job : Nat}
    (at_ : s.manager.calls t = .requesting job) (inTime : s.InTime (.advance t)) {manager : InternJobManager τ}
    (next : manager = (s.manager.modifyJob job fun it => { it with cancelRequested := true }).setCall t .idle) :
    Consistent { s with manager } := by
  subst next
  -- Unless it is cancelled already, no outcome of the job has been told or is going to be told.
  have keeps : ∀ other, (other = job → s.manager.isJob AsyncInternJob.cancelRequested job = true) →
      s.manager.KeepsJob ((s.manager.modifyJob job fun it => { it with cancelRequested := true }).setCall t .idle)
        other := by
    intro other cancelled
    by_cases here : other = job
    · subst here
      intro it found
      have flag := cancelled rfl
      rw [InternJobManager.isJob, found] at flag
      refine ⟨{ it with cancelRequested := true }, ?_, fun _ => rfl,
        (flag : it.cancelRequested = true).symm⟩
      simp [setCall, modifyJob, found]
    · intro it found
      exact ⟨it, by simp [setCall, modifyJob, Ne.symm here, found], fun _ => rfl, rfl⟩
  have late : s.manager.isJob AsyncInternJob.cancelRequested job = true ∨
      (∀ entry ∈ s.told, entry.job = job → entry.status.terminal = false) ∧
        ∀ u, (s.manager.calls u).readsUncancelled job = false := by
    cases flag : s.manager.isJob AsyncInternJob.cancelRequested job with
    | true => exact Or.inl rfl
    | false => exact Or.inr (inTime job (by simp [requests, at_]) flag)
  have unflagged : ∀ {flag : Bool} {outcome : InternWorkerOutcome}, s.HasOutcome job flag outcome →
      flag = s.manager.isJob AsyncInternJob.cancelRequested job := by
    rintro flag outcome ⟨it, found, -, rfl⟩
    rw [InternJobManager.isJob, found]
    rfl
  refine consistent.keep ?_ rfl consistent.begun ?_
  · intro entry member terminal
    refine keeps entry.job fun here => ?_
    rcases late with flag | ⟨untold, -⟩
    · exact flag
    · rw [untold entry member here] at terminal
      cases terminal
  · intro u
    by_cases own : u = t
    · subst own
      refine sound_of_silent ?_
      show (Function.update s.manager.calls u InternCall.idle u).answering = false
      rw [Function.update_self]
      rfl
    · show Sound _ u (Function.update s.manager.calls t InternCall.idle u)
      rw [Function.update_of_ne own]
      have sound := consistent.calls u
      cases call : s.manager.calls u with
      | polling asked ready =>
        rw [call] at sound
        cases ready with
        | true =>
          -- Whatever its flag is now, the job has its outcome.
          obtain ⟨flag, outcome, it, found, slot, -⟩ := sound
          by_cases here : asked = job
          · subst here
            exact ⟨true, outcome, { it with cancelRequested := true },
              by simp [setCall, modifyJob, found], slot, rfl⟩
          · obtain ⟨it', found', same, -⟩ := keeps asked (fun same => absurd same here) it found
            exact ⟨_, outcome, it', found', (same (by rw [slot]; rfl)).trans slot, rfl⟩
        | false => exact sound
      | loading asked cancelRequested =>
        rw [call] at sound
        obtain ⟨outcome, has⟩ := sound
        refine ⟨outcome, has.keep (keeps asked fun here => ?_)⟩
        subst here
        rcases late with flag | ⟨-, idle⟩
        · exact flag
        · have own := unflagged has
          cases cancelRequested with
          | true => exact own.symm
          | false =>
            have passed := idle u
            simp [call, InternCall.readsUncancelled] at passed
      | observing asked cancelRequested told =>
        rw [call] at sound
        obtain ⟨outcome, same, has⟩ := sound
        refine ⟨outcome, same, has.keep (keeps asked fun here => ?_)⟩
        subst here
        rcases late with flag | ⟨-, idle⟩
        · exact flag
        · have own := unflagged has
          cases cancelRequested with
          | true => exact own.symm
          | false =>
            have passed := idle u
            simp [call, InternCall.readsUncancelled] at passed
      | _ => trivial

omit [DecidableEq τ] in
theorem HasOutcome.loaded {job : Nat} {flag : Bool} {outcome : InternWorkerOutcome}
    (has : s.HasOutcome job flag outcome) :
    s.manager.isJob AsyncInternJob.cancelRequested job = flag ∧
      s.manager.isJob AsyncInternJob.ready job = true ∧
        s.manager.heap[job]?.bind AsyncInternJob.slot = some outcome := by
  obtain ⟨it, found, slot, rfl⟩ := has
  simp [isJob, found, slot, AsyncInternJob.ready]

theorem Consistent.setCall (consistent : s.Consistent) {t : τ} {call : InternCall}
    (sound : s.Sound t call) :
    Consistent { s with manager := s.manager.setCall t call } := by
  have jobs : ∀ job, s.manager.KeepsJob (s.manager.setCall t call) job := KeepsJob.refl s.manager
  refine consistent.keep (fun entry _ _ => jobs entry.job) rfl consistent.begun fun u => ?_
  by_cases own : u = t
  · subst own
    have at_ : (s.manager.setCall u call).calls u = call := Function.update_self ..
    rw [at_]
    exact sound.keep jobs rfl
  · have same : (s.manager.setCall t call).calls u = s.manager.calls u := Function.update_of_ne own ..
    rw [same]
    exact (consistent.calls u).keep jobs rfl

omit [DecidableEq τ] in
theorem Consistent.answered (consistent : s.Consistent) (event : InternEvent τ)
    {reports : List (Nat × WorkerCollectStatus)}
    (reported : reports.map Prod.snd =
      s.manager.reports.map Prod.snd ++ (s.answer event).map ToldStatus.status) :
    Consistent { s with manager := { s.manager with reports }, told := s.told ++ s.answer event } := by
  have silent (none_ : s.answer event = []) :
      Consistent { s with manager := { s.manager with reports }, told := s.told ++ s.answer event } := by
    rw [none_, List.map_nil, List.append_nil] at reported
    rw [none_, List.append_nil]
    exact ⟨consistent.begun, consistent.order, consistent.outcomes, consistent.calls, consistent.waiting,
      reported.trans consistent.reports⟩
  cases event with
  | advance t =>
    have sound := consistent.calls t
    cases call : s.manager.calls t with
    | polling job ready =>
      cases ready with
      | true => exact silent (by simp only [answer, call])
      | false =>
        rw [call] at sound
        simp only [answer, call] at reported ⊢
        exact consistent.tell (consistent.begun t) (fun terminal => Bool.noConfusion terminal)
          (fun _ i earlier at_ behind same => sound i earlier at_ behind same) reported
    | observing job cancelRequested told =>
      rw [call] at sound
      obtain ⟨outcome, rfl, has⟩ := sound
      simp only [answer, call] at reported ⊢
      refine consistent.tell (consistent.begun t) (fun _ => ⟨cancelRequested, outcome, has, rfl⟩) ?_ reported
      intro waiting
      rw [terminal_build] at waiting
      cases waiting
    | _ => exact silent (by simp only [answer, call])
  | _ => exact silent rfl

theorem reports_step {event : InternEvent τ} {manager : InternJobManager τ}
    (stepped : s.manager.step event = some manager) :
    manager.reports.map Prod.snd = s.manager.reports.map Prod.snd ++ (s.answer event).map ToldStatus.status := by
  -- Only a thread that goes on with a collection reports anything.
  have kept (none_ : s.answer event = []) (same : manager.reports = s.manager.reports) :
      manager.reports.map Prod.snd = s.manager.reports.map Prod.snd ++ (s.answer event).map ToldStatus.status := by
    rw [none_, same, List.map_nil, List.append_nil]
  cases event with
  | start t limit =>
    obtain ⟨-, -, rfl⟩ := enter_cases stepped
    exact kept rfl rfl
  | drop t jobId | cancel t jobId | collect t jobId =>
    obtain ⟨-, -, rfl⟩ := enter_cases stepped
    refine kept rfl ?_
    cases s.manager.find jobId <;> rfl
  | query t =>
    obtain ⟨-, -, rfl⟩ := enter_cases stepped
    exact kept rfl rfl
  | launchFails t outcome =>
    obtain ⟨job, -, -, rfl⟩ := launchFails_cases stepped
    exact kept rfl rfl
  | store job outcome =>
    obtain ⟨it, -, -, -, rfl⟩ := store_cases stepped
    exact kept rfl rfl
  | work job =>
    obtain ⟨it, -, ⟨-, -, rfl⟩ | ⟨abandoned, -, -, rfl⟩⟩ := work_cases stepped
    · exact kept rfl rfl
    · exact kept rfl rfl
  | advance t =>
    unfold InternJobManager.step advance at stepped
    dsimp only at stepped
    cases at_ : s.manager.calls t with
    | idle => simp [at_] at stepped
    | counting limit left active =>
      refine kept (by simp only [answer, at_]) ?_
      cases left with
      | cons job left =>
        simp only [at_, Option.some.injEq] at stepped
        subst stepped
        rfl
      | nil =>
        simp only [at_] at stepped
        split at stepped <;> cases stepped <;> rfl
    | numbered limit seen numericId =>
      refine kept (by simp only [answer, at_]) ?_
      simp only [at_] at stepped
      split at stepped
      · cases stepped
        rfl
      · cases stepped
    | dropping jobId job ready =>
      refine kept (by simp only [answer, at_]) ?_
      simp only [at_, Option.some.injEq] at stepped
      subst stepped
      cases ready <;> rfl
    | polling job ready =>
      simp only [at_] at stepped
      cases ready with
      | true =>
        cases stepped
        exact kept (by simp only [answer, at_]) rfl
      | false =>
        cases stepped
        simp [answer, at_, report, InternJobManager.setCall]
    | observing job cancelRequested outcome =>
      simp only [at_] at stepped
      split at stepped
      · cases stepped
        have same : (s.manager.observeTerminal ((s.manager.heap[job]?.map AsyncInternJob.numericId).getD 0)).reports =
            s.manager.reports := by
          unfold observeTerminal
          cases s.manager.find _ <;> rfl
        simp [answer, at_, report, InternJobManager.setCall, same]
      · cases stepped
    | _ =>
      simp only [at_, Option.some.injEq] at stepped
      subst stepped
      exact kept (by simp only [answer, at_]) rfl

theorem Consistent.step {event : InternEvent τ} {next : JobHistory τ} (consistent : s.Consistent)
    (inTime : s.InTime event) (stepped : s.step event = some next) : next.Consistent := by
  obtain ⟨manager, moved, rfl⟩ := Option.map_eq_some_iff.mp stepped
  have reported := reports_step moved
  cases step_collects moved with
  | quiet jobs calls =>
    -- What the step tells comes first, and then the jobs and the calls move on.
    have answered := consistent.answered event reported
    refine answered.keep (fun entry _ _ => jobs entry.job) rfl (fun t => ?_) fun u => ?_
    · have bound := answered.begun t
      cases event with
      | collect u jobId =>
        by_cases own : t = u
        · subst own
          simp [begin_, answer]
        · simpa [begin_, answer, own] using bound
      | _ => exact bound
    · rcases calls u with same | silent
      · rw [same]
        have sound := answered.calls u
        cases event with
        | collect t jobId =>
          by_cases own : u = t
          · -- A thread that begins a call had none.
            subst own
            obtain ⟨idle, -, -⟩ := enter_cases moved
            rw [idle]
            exact True.intro
          · exact sound.keep jobs (Function.update_of_ne own ..)
        | _ => exact sound.keep jobs rfl
      · exact sound_of_silent silent
  | request t job at_ next =>
    have silent : s.answer (.advance t) = [] := by simp only [answer, at_]
    rw [silent, List.append_nil]
    exact consistent.request at_ inTime next
  | poll t job at_ next =>
    have silent : s.answer (.advance t) = [] := by simp only [answer, at_]
    rw [silent, List.append_nil, next]
    refine consistent.setCall ?_
    cases ready : s.manager.isJob AsyncInternJob.ready job with
    | true =>
      obtain ⟨it, found, filled⟩ := (Option.any_eq_true ..).mp ready
      obtain ⟨outcome, slot⟩ := Option.isSome_iff_exists.mp filled
      exact ⟨it.cancelRequested, outcome, it, found, slot, rfl⟩
    | false =>
      intro i entry told _ same
      -- An outcome that was told is there to be found.
      cases terminal : entry.status.terminal with
      | false => rfl
      | true =>
        obtain ⟨flag, outcome, has, -⟩ := consistent.outcomes entry (List.mem_of_getElem? told) terminal
        rw [same] at has
        rw [has.loaded.2.1] at ready
        cases ready
  | load t job at_ next =>
    have silent : s.answer (.advance t) = [] := by simp only [answer, at_]
    rw [silent, List.append_nil, next]
    have sound := consistent.calls t
    rw [at_] at sound
    obtain ⟨flag, outcome, has⟩ := sound
    rw [has.loaded.1]
    exact consistent.setCall ⟨outcome, has⟩
  | observe t job cancelRequested at_ next =>
    have silent : s.answer (.advance t) = [] := by simp only [answer, at_]
    rw [silent, List.append_nil, next]
    have sound := consistent.calls t
    rw [at_] at sound
    obtain ⟨outcome, has⟩ := sound
    rw [has.loaded.2.2]
    exact consistent.setCall ⟨outcome, rfl, has⟩

omit [DecidableEq τ] in
theorem consistent_start : Consistent (start : JobHistory τ) where
  begun := fun _ => Nat.le_refl 0
  order := by
    intro j entry at_
    cases at_
  outcomes := by
    intro entry member
    cases member
  calls := fun _ => True.intro
  waiting := by
    intro i j earlier later at_
    cases at_
  reports := rfl

/--
A terminal status stays what it is, through every later collection, as long as requests to cancel set
their flag in time.
-/
theorem stable_of_inTime (events : List (InternEvent τ)) (inTime : StepsMeet step InTime start events) :
    Throughout step Stable (start : JobHistory τ) events := by
  have consistent : Throughout step Consistent (start : JobHistory τ) events :=
    throughout_of_stepsMeet (fun _ _ _ consistent met stepped => consistent.step met stepped) events _
      consistent_start inTime
  exact consistent.imp fun _ told => told.stable

/-- A job that is cancelled while its worker runs, and collected twice behind the worker's outcome. -/
theorem stable_of_inTime_cancelled :
    Throughout step Stable (start : JobHistory Bool) [.start true 1, .advance true, .advance true, .advance true,
      .advance true, .advance true, .cancel false 1, .advance false, .advance false, .store 0 { ok := true },
      .collect true 1, .advance true, .advance true, .advance true, .advance true,
      .collect false 1, .advance false, .advance false, .advance false, .advance false] :=
  stable_of_inTime _ (by decide +kernel)

/-- A request that found no outcome sets its flag behind the first collection, and the second tells another status. -/
theorem stable_fails : ¬∀ events : List (InternEvent Bool), Throughout step Stable start events := by
  intro stable
  let events : List (InternEvent Bool) := [.start true 1, .advance true, .advance true, .advance true,
    .advance true, .advance true, .cancel false 1, .advance false, .store 0 { ok := true },
    .collect true 1, .advance true, .advance true, .advance true, .advance true, .advance false,
    .collect true 1, .advance true, .advance true, .advance true, .advance true]
  have ran : (runFrom step start events).map told = some
      [⟨0, 0, buildWorkerCollectStatus false (some { ok := true })⟩,
        ⟨0, 1, buildWorkerCollectStatus true (some { ok := true })⟩] := by decide +kernel
  obtain ⟨final, ran, told⟩ := Option.map_eq_some_iff.mp ran
  have same := ((stable events).last _ _ _ ran).same 0 1
    ⟨0, 0, buildWorkerCollectStatus false (some { ok := true })⟩
    ⟨0, 1, buildWorkerCollectStatus true (some { ok := true })⟩ (by rw [told]; rfl) (by rw [told]; rfl) rfl rfl
    Nat.zero_lt_one
  cases same

end JobHistory

end AgentC.Edict

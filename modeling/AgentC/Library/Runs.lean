/-! Runs of a machine whose step is a partial function, and the invariants such runs keep. -/

namespace AgentC

universe u v

section Runs

variable {σ : Type u} {α : Type v} (step : σ → α → Option σ)

def runFrom : σ → List α → Option σ
  | s, [] => some s
  | s, action :: rest => (step s action).bind fun next => runFrom next rest

def StepsMeet (condition : σ → α → Prop) : σ → List α → Prop
  | _, [] => True
  | s, action :: rest =>
    -- A step that is undefined ends the run, so nothing is asked of it.
    ∀ next, step s action = some next → condition s action ∧ StepsMeet condition next rest

/-- Every state the run passes through has the property. -/
def Throughout (property : σ → Prop) : σ → List α → Prop
  | s, [] => property s
  | s, action :: rest =>
    property s ∧ ∀ next, step s action = some next → Throughout property next rest

variable {step}

theorem runFrom_cons {s next : σ} {action : α} {rest : List α}
    (stepped : step s action = some next) :
    runFrom step s (action :: rest) = runFrom step next rest := by
  rw [runFrom, stepped, Option.bind_some]

variable {condition met : σ → α → Prop} {property : σ → Prop}

theorem throughout_of_stepsMeet
    (kept : ∀ s action next, property s → condition s action → step s action = some next →
      property next) :
    ∀ (actions : List α) (s : σ), property s → StepsMeet step condition s actions →
      Throughout step property s actions := by
  -- The induction follows the run, carrying the property to the next state.
  intro actions
  induction actions with
  | nil => intro s holds _; exact holds
  | cons action rest ih =>
    intro s holds meets
    refine ⟨holds, fun next stepped => ?_⟩
    obtain ⟨met, remaining⟩ := meets next stepped
    exact ih next (kept s action next holds met stepped) remaining

theorem throughout_iff_of_kept {invariant : σ → Prop}
    (exact_ : ∀ s action next, invariant s → property s → step s action = some next →
      (property next ↔ condition s action) ∧ (condition s action → invariant next)) :
    ∀ (actions : List α) (s : σ), invariant s → property s →
      (Throughout step property s actions ↔ StepsMeet step condition s actions) := by
  -- Each completed step either meets the condition or is the first to lose the property.
  intro actions
  induction actions with
  | nil => intro s _ holds; exact ⟨fun _ => trivial, fun _ => holds⟩
  | cons action rest ih =>
    intro s sound holds
    constructor
    · intro through next stepped
      have after := through.2 next stepped
      have kept : property next := by
        cases rest with
        | nil => exact after
        | cons _ _ => exact after.1
      obtain ⟨judged, sound'⟩ := exact_ s action next sound holds stepped
      have met := judged.mp kept
      exact ⟨met, (ih next (sound' met) kept).mp after⟩
    · intro meets
      refine ⟨holds, fun next stepped => ?_⟩
      obtain ⟨met, remaining⟩ := meets next stepped
      obtain ⟨judged, sound'⟩ := exact_ s action next sound holds stepped
      exact (ih next (sound' met) (judged.mpr met)).mpr remaining

theorem throughout_iff_of_invariant {invariant : σ → Prop}
    (exact_ : ∀ s action next, invariant s → property s → step s action = some next →
      invariant next ∧ (property next ↔ condition s action)) :
    ∀ (actions : List α) (s : σ), invariant s → property s →
      (Throughout step property s actions ↔ StepsMeet step condition s actions) :=
  throughout_iff_of_kept fun s action next sound holds stepped =>
    have judged := exact_ s action next sound holds stepped
    ⟨judged.2, fun _ => judged.1⟩

theorem stepsMeet_of_forall :
    ∀ (actions : List α) (s : σ), (∀ action ∈ actions, ∀ s, condition s action) →
      StepsMeet step condition s actions := by
  intro actions
  induction actions with
  | nil => intro s _; trivial
  | cons action rest ih =>
    intro s meets next stepped
    exact ⟨meets action List.mem_cons_self s,
      ih next fun later member => meets later (List.mem_cons_of_mem _ member)⟩

theorem StepsMeet.imp {weaker : σ → α → Prop}
    (weaken : ∀ s action, condition s action → weaker s action) :
    ∀ {actions : List α} {s : σ}, StepsMeet step condition s actions →
      StepsMeet step weaker s actions := by
  intro actions
  induction actions with
  | nil => intro s _; trivial
  | cons action rest ih =>
    intro s meets next stepped
    obtain ⟨now, later⟩ := meets next stepped
    exact ⟨weaken s action now, ih later⟩

/-- Whether a run meets a condition can be found out by going through it. -/
instance decidableStepsMeet {condition : σ → α → Prop} [∀ s action, Decidable (condition s action)] :
    ∀ (actions : List α) (s : σ), Decidable (StepsMeet step condition s actions)
  | [], _ => isTrue trivial
  | action :: rest, s =>
    match stepped : step s action with
    | none => isTrue fun _ defined => by rw [stepped] at defined; cases defined
    | some next =>
      have := @decidableStepsMeet condition _ rest next
      decidable_of_iff (condition s action ∧ StepsMeet step condition next rest)
        ⟨fun met other defined => Option.some.inj (stepped.symm.trans defined) ▸ met,
          fun meets => meets next stepped⟩

theorem StepsMeet.and {other : σ → α → Prop} : ∀ {actions : List α} {s : σ},
    StepsMeet step condition s actions → StepsMeet step other s actions →
      StepsMeet step (fun s action => condition s action ∧ other s action) s actions
  | [], _, _, _ => trivial
  | _ :: _, _, here, there => fun next stepped =>
    ⟨⟨(here next stepped).1, (there next stepped).1⟩, (here next stepped).2.and (there next stepped).2⟩

theorem Throughout.imp {weaker : σ → Prop} (weaken : ∀ s, property s → weaker s) :
    ∀ (actions : List α) (s : σ), Throughout step property s actions →
      Throughout step weaker s actions := by
  intro actions
  induction actions with
  | nil => intro s holds; exact weaken s holds
  | cons action rest ih =>
    intro s holds
    exact ⟨weaken s holds.1, fun next stepped => ih next (holds.2 next stepped)⟩

theorem stepsMeet_of_invariant
    (kept : ∀ s action next, property s → condition s action → step s action = some next →
      property next ∧ met s action) :
    ∀ (actions : List α) (s : σ), property s → StepsMeet step condition s actions →
      StepsMeet step met s actions := by
  -- The invariant is carried along the run, and each step is judged where it starts.
  intro actions
  induction actions with
  | nil => intro s _ _; trivial
  | cons action rest ih =>
    intro s holds meets next stepped
    obtain ⟨conforms, remaining⟩ := meets next stepped
    obtain ⟨after, judged⟩ := kept s action next holds conforms stepped
    exact ⟨judged, ih next after remaining⟩

theorem StepsMeet.drop {back : List α} {t : σ} :
    ∀ (front : List α) (s : σ), StepsMeet step met s (front ++ back) →
      runFrom step s front = some t → StepsMeet step met t back := by
  intro front
  induction front with
  | nil =>
    intro s meets ran
    cases ran
    exact meets
  | cons action rest ih =>
    intro s meets ran
    cases stepped : step s action with
    | none => simp [runFrom, stepped] at ran
    | some next =>
      simp only [runFrom, stepped, Option.bind_some] at ran
      exact ih next (meets next stepped).2 ran

theorem stepsMeet_iff (judged : ∀ s action next, property s → step s action = some next →
      (met s action ↔ condition s action))
    (kept : ∀ s action next, property s → condition s action → step s action = some next →
      property next) :
    ∀ (actions : List α) (s : σ), property s →
      (StepsMeet step met s actions ↔ StepsMeet step condition s actions) := by
  -- As long as the condition has been met so far, the invariant is there to judge the next step.
  intro actions
  induction actions with
  | nil => intro s _; exact Iff.rfl
  | cons action rest ih =>
    intro s holds
    constructor
    · intro well next stepped
      obtain ⟨now, later⟩ := well next stepped
      have conforms := (judged s action next holds stepped).mp now
      exact ⟨conforms, (ih next (kept s action next holds conforms stepped)).mp later⟩
    · intro meets next stepped
      obtain ⟨conforms, later⟩ := meets next stepped
      exact ⟨(judged s action next holds stepped).mpr conforms,
        (ih next (kept s action next holds conforms stepped)).mpr later⟩

theorem Throughout.last :
    ∀ (actions : List α) (s final : σ), Throughout step property s actions →
      runFrom step s actions = some final → property final := by
  -- Reaching the end passes through every intermediate state.
  intro actions
  induction actions with
  | nil =>
    intro s final holds ran
    cases ran
    exact holds
  | cons action rest ih =>
    intro s final holds ran
    cases stepped : step s action with
    | none => simp [runFrom, stepped] at ran
    | some next =>
      simp only [runFrom, stepped, Option.bind_some] at ran
      exact ih next final (holds.2 next stepped) ran

theorem Throughout.first {actions : List α} {s : σ} (holds : Throughout step property s actions) :
    property s := by
  -- Both shapes of the predicate begin with the starting state.
  cases actions with
  | nil => exact holds
  | cons _ _ => exact holds.1

theorem runFrom_append (front back : List α) (s : σ) :
    runFrom step s (front ++ back) = (runFrom step s front).bind (runFrom step · back) := by
  -- Each leading action is taken on both sides before the rest of the run.
  induction front generalizing s with
  | nil => rfl
  | cons action rest ih =>
    simp only [List.cons_append, runFrom]
    cases step s action with
    | none => rfl
    | some next => exact ih next

end Runs

end AgentC

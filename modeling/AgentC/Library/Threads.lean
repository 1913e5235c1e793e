import Mathlib.Logic.Function.Basic
import AgentC.Library.Runs

/-! Threads over one shared state, with lock-free accesses and critical sections under one mutex. -/

namespace AgentC

universe u v w x y

/-- A stretch of a thread's program. -/
inductive Segment (ω : Type v) where
  | free (item : ω)
  | locked (work : List ω)

/-- What one atomic access leads to. -/
structure Outcome (σ : Type u) (ω : Type v) (ε : Type w) where
  shared : σ
  /-- Accesses of the same critical section that come next. -/
  more : List ω := []
  /-- Segments the thread enters before the rest of its program. -/
  later : List (Segment ω) := []
  /-- What the access lets an observer see. -/
  events : List ε := []

/-- The shared state, the holder of the mutex, what each thread has left to do, and the past. -/
structure Threads (σ : Type u) (ω : Type v) (ε : Type w) (τ : Type x) where
  shared : σ
  holder : Option τ
  program : τ → List (Segment ω)
  trace : List ε

/-- A choice of the scheduler: an idle thread starts a call, or a busy one makes its next access. -/
inductive Turn (τ : Type x) (κ : Type y) where
  | call (t : τ) (op : κ)
  | advance (t : τ)

namespace Threads

variable {σ : Type u} {ω : Type v} {ε : Type w} {τ : Type x} {κ : Type y} [DecidableEq τ]

def idle (shared : σ) : Threads σ ω ε τ where
  shared := shared
  holder := none
  program := fun _ => []
  trace := []

def record (s : Threads σ ω ε τ) (t : τ) (out : Outcome σ ω ε) (left : List (Segment ω)) :
    Threads σ ω ε τ where
  shared := out.shared
  holder := s.holder
  program := Function.update s.program t left
  trace := s.trace ++ out.events

/-- One turn, or nothing when the thread it names cannot take it. -/
def step (perform : σ → ω → Outcome σ ω ε) (body : κ → List (Segment ω)) (s : Threads σ ω ε τ) :
    Turn τ κ → Option (Threads σ ω ε τ)
  | .call t op =>
    -- Only an idle thread starts a call.
    if (s.program t).isEmpty then some { s with program := Function.update s.program t (body op) }
    else none
  | .advance t =>
    match s.program t with
    | [] => none
    | .free item :: rest =>
      -- A lock-free access asks nothing of the mutex.
      let out := perform s.shared item
      some (s.record t out (out.later ++ rest))
    | .locked work :: rest =>
      match s.holder with
      | none => some { s with holder := some t }
      | some h =>
        if h = t then
          match work with
          -- The section is over, so the mutex is given back.
          | [] => some { s with holder := none, program := Function.update s.program t rest }
          | item :: work =>
            let out := perform s.shared item
            some (s.record t out (.locked (out.more ++ work) :: (out.later ++ rest)))
        -- A thread waits while another one holds the mutex.
        else none

/-- The access a thread makes at its next turn, when that turn makes one. -/
def current (s : Threads σ ω ε τ) (t : τ) : Option ω :=
  match s.program t with
  | .free item :: _ => some item
  | .locked (item :: _) :: _ => if s.holder = some t then some item else none
  | _ => none

variable {perform : σ → ω → Outcome σ ω ε} {body : κ → List (Segment ω)}

variable {s next : Threads σ ω ε τ} {turn : Turn τ κ}

/-- The five things a turn can be. -/
theorem step_cases (stepped : step perform body s turn = some next) :
    (∃ t op, turn = .call t op ∧ s.program t = [] ∧
      next = { s with program := Function.update s.program t (body op) }) ∨
    (∃ t item rest, turn = .advance t ∧ s.program t = .free item :: rest ∧
      next = s.record t (perform s.shared item) ((perform s.shared item).later ++ rest)) ∨
    (∃ t work rest, turn = .advance t ∧ s.program t = .locked work :: rest ∧ s.holder = none ∧
      next = { s with holder := some t }) ∨
    (∃ t rest, turn = .advance t ∧ s.program t = .locked [] :: rest ∧ s.holder = some t ∧
      next = { s with holder := none, program := Function.update s.program t rest }) ∨
    (∃ t item work rest, turn = .advance t ∧ s.program t = .locked (item :: work) :: rest ∧
      s.holder = some t ∧
      next = s.record t (perform s.shared item)
        (.locked ((perform s.shared item).more ++ work) ::
          ((perform s.shared item).later ++ rest))) := by
  -- The cases follow the definition: who moves, and what its program begins with.
  cases turn with
  | call t op =>
    simp only [step, List.isEmpty_iff] at stepped
    split at stepped
    next idle =>
      cases stepped
      exact Or.inl ⟨t, op, rfl, idle, rfl⟩
    next => cases stepped
  | advance t =>
    refine Or.inr ?_
    simp only [step] at stepped
    cases begun : s.program t with
    | nil => simp [begun] at stepped
    | cons segment rest =>
      cases segment with
      | free item =>
        simp only [begun, Option.some.injEq] at stepped
        exact Or.inl ⟨t, item, rest, rfl, begun, stepped.symm⟩
      | locked work =>
        refine Or.inr ?_
        cases held : s.holder with
        | none =>
          simp only [begun, held, Option.some.injEq] at stepped
          exact Or.inl ⟨t, work, rest, rfl, begun, rfl, stepped.symm⟩
        | some h =>
          refine Or.inr ?_
          by_cases mine : h = t
          · subst mine
            cases work with
            | nil =>
              simp only [begun, held, if_true, Option.some.injEq] at stepped
              exact Or.inl ⟨h, rest, rfl, begun, rfl, stepped.symm⟩
            | cons item work =>
              simp only [begun, held, if_true, Option.some.injEq] at stepped
              exact Or.inr ⟨h, item, work, rest, rfl, begun, rfl, stepped.symm⟩
          · simp [begun, held, mine] at stepped

theorem step_access (stepped : step perform body s turn = some next) :
    (∃ t item, turn = .advance t ∧ s.current t = some item ∧
      next.shared = (perform s.shared item).shared ∧
      next.trace = s.trace ++ (perform s.shared item).events) ∨
    ((∀ t, turn = .advance t → s.current t = none) ∧
      next.shared = s.shared ∧ next.trace = s.trace) := by
  obtain ⟨t, op, rfl, begun, rfl⟩ | ⟨t, item, rest, rfl, begun, rfl⟩ |
    ⟨t, work, rest, rfl, begun, held, rfl⟩ | ⟨t, rest, rfl, begun, held, rfl⟩ |
    ⟨t, item, work, rest, rfl, begun, held, rfl⟩ := step_cases stepped
  · exact Or.inr ⟨nofun, rfl, rfl⟩
  · exact Or.inl ⟨t, item, rfl, by simp only [current, begun], rfl, rfl⟩
  · -- Taking the mutex is no access, whatever the section begins with.
    refine Or.inr ⟨fun u same => ?_, rfl, rfl⟩
    cases same
    cases work with
    | nil => simp only [current, begun]
    | cons item work => simp only [current, begun, held, reduceCtorEq, if_false]
  · refine Or.inr ⟨fun u same => ?_, rfl, rfl⟩
    cases same
    simp only [current, begun]
  · exact Or.inl ⟨t, item, rfl, by simp only [current, begun, held, if_true], rfl, rfl⟩

/-- What the accesses of a machine owe one another for an invariant to survive every schedule. -/
structure Rules (perform : σ → ω → Outcome σ ω ε) (invariant : σ → List ε → Prop)
    (ready : σ → List ω → Prop) (fresh : Segment ω → Prop)
    (allowed : σ → List ε → ω → Prop) : Prop where
  enter : ∀ {s past work}, invariant s past → fresh (.locked work) → ready s work
  free : ∀ {s past item}, invariant s past → fresh (.free item) → allowed s past item →
    invariant (perform s item).shared (past ++ (perform s item).events) ∧
      (∀ segment ∈ (perform s item).later, fresh segment) ∧
      ∀ work, ready s work → ready (perform s item).shared work
  /-- An access under the mutex keeps the invariant and what its own section relies on. -/
  inside : ∀ {s past item work}, invariant s past → ready s (item :: work) →
    allowed s past item →
    invariant (perform s item).shared (past ++ (perform s item).events) ∧
      (∀ segment ∈ (perform s item).later, fresh segment) ∧
      ready (perform s item).shared ((perform s item).more ++ work)

structure Safe (invariant : σ → List ε → Prop) (ready : σ → List ω → Prop)
    (fresh : Segment ω → Prop) (s : Threads σ ω ε τ) : Prop where
  holds : invariant s.shared s.trace
  waiting : ∀ t, s.holder ≠ some t → ∀ segment ∈ s.program t, fresh segment
  /-- The holder is inside a section that can go on, with unbegun segments behind it. -/
  inside : ∀ t, s.holder = some t → ∃ work rest, s.program t = .locked work :: rest ∧
    ready s.shared work ∧ ∀ segment ∈ rest, fresh segment

def Conforms (body : κ → List (Segment ω)) (fresh : Segment ω → Prop)
    (allowed : σ → List ε → ω → Prop) (s : Threads σ ω ε τ) : Turn τ κ → Prop
  | .call _ op => ∀ segment ∈ body op, fresh segment
  | .advance t => ∀ item, s.current t = some item → allowed s.shared s.trace item

variable {invariant : σ → List ε → Prop} {ready : σ → List ω → Prop} {fresh : Segment ω → Prop}
  {allowed : σ → List ε → ω → Prop}

omit [DecidableEq τ] in
theorem safe_idle {shared : σ} (holds : invariant shared []) :
    Safe invariant ready fresh (idle shared : Threads σ ω ε τ) where
  holds := holds
  waiting := fun _ _ _ member => absurd member List.not_mem_nil
  inside := fun _ held => nomatch held

/-- The rules carry safety across every conforming turn. -/
theorem Rules.step_safe (rules : Rules perform invariant ready fresh allowed)
    (safe : Safe invariant ready fresh s) (conforms : Conforms body fresh allowed s turn)
    (stepped : step perform body s turn = some next) : Safe invariant ready fresh next := by
  obtain ⟨t, op, rfl, begun, rfl⟩ | ⟨t, item, rest, rfl, begun, rfl⟩ |
    ⟨t, work, rest, rfl, begun, held, rfl⟩ | ⟨t, rest, rfl, begun, held, rfl⟩ |
    ⟨t, item, work, rest, rfl, begun, held, rfl⟩ := step_cases stepped
  · -- A call: an idle thread cannot hold the mutex, so only its own program changes.
    have apart : s.holder ≠ some t := fun held => by
      obtain ⟨work, rest, begun', -⟩ := safe.inside t held
      rw [begun] at begun'
      cases begun'
    refine ⟨safe.holds, fun u outside => ?_, fun u held => ?_⟩
    · by_cases same : u = t
      · subst same
        simp only [Function.update_self]
        exact conforms
      · simpa only [Function.update_of_ne same] using safe.waiting u outside
    · have other : u ≠ t := fun same => apart (same ▸ held)
      simpa only [Function.update_of_ne other] using safe.inside u held
  · -- A lock-free access: the holder of the mutex, if any, is another thread.
    have apart : s.holder ≠ some t := fun held => by
      obtain ⟨work, rest', begun', -⟩ := safe.inside t held
      rw [begun] at begun'
      cases begun'
    have freshAhead := safe.waiting t apart
    rw [begun] at freshAhead
    obtain ⟨kept, laterFresh, stable⟩ := rules.free safe.holds
      (freshAhead _ List.mem_cons_self) (conforms item (by simp only [current, begun]))
    refine ⟨kept, fun u outside => ?_, fun u held => ?_⟩
    · by_cases same : u = t
      · subst same
        simp only [record, Function.update_self, List.mem_append]
        intro segment member
        cases member with
        | inl new => exact laterFresh segment new
        | inr old => exact freshAhead segment (List.mem_cons_of_mem _ old)
      · simpa only [record, Function.update_of_ne same] using safe.waiting u outside
    · have other : u ≠ t := fun same => apart (same ▸ held)
      obtain ⟨work, rest', begun', still, behind⟩ := safe.inside u held
      refine ⟨work, rest', ?_, stable work still, behind⟩
      simpa only [record, Function.update_of_ne other] using begun'
  · -- The mutex is taken: the section it opens was unbegun so far.
    have free : ∀ u, s.holder ≠ some u := fun u => by rw [held]; exact nofun
    have freshAhead := safe.waiting t (free t)
    rw [begun] at freshAhead
    refine ⟨safe.holds, fun u _ => safe.waiting u (free u), fun u mine => ?_⟩
    have same : t = u := Option.some.inj mine
    subst same
    exact ⟨work, rest, begun, rules.enter safe.holds (freshAhead _ List.mem_cons_self),
      fun segment member => freshAhead segment (List.mem_cons_of_mem _ member)⟩
  · -- The mutex is given back: what is left of the program is unbegun.
    obtain ⟨work, rest', begun', -, behind⟩ := safe.inside t held
    rw [begun] at begun'
    obtain ⟨-, rfl⟩ := List.cons.inj begun'
    refine ⟨safe.holds, fun u _ => ?_, fun u mine => nomatch mine⟩
    by_cases same : u = t
    · subst same
      simpa only [Function.update_self] using behind
    · have outside : s.holder ≠ some u := fun mine =>
        same (Option.some.inj (held.symm.trans mine)).symm
      simpa only [Function.update_of_ne same] using safe.waiting u outside
  · -- An access under the mutex: every other thread is outside.
    obtain ⟨work', rest', begun', still, behind⟩ := safe.inside t held
    rw [begun] at begun'
    obtain ⟨sections, rfl⟩ := List.cons.inj begun'
    obtain rfl : item :: work = work' := Segment.locked.inj sections
    obtain ⟨kept, laterFresh, goesOn⟩ := rules.inside safe.holds still
      (conforms item (by simp only [current, begun, held, if_true]))
    refine ⟨kept, fun u outside => ?_, fun u mine => ?_⟩
    · have other : u ≠ t := fun same => outside (same ▸ held)
      simpa only [record, Function.update_of_ne other] using safe.waiting u outside
    · have same : t = u := Option.some.inj (held.symm.trans mine)
      subst same
      refine ⟨_, _, Function.update_self t _ s.program, goesOn, ?_⟩
      intro segment member
      cases List.mem_append.mp member with
      | inl new => exact laterFresh segment new
      | inr old => exact behind segment old

theorem Rules.run_safe (rules : Rules perform invariant ready fresh allowed)
    (turns : List (Turn τ κ)) (s : Threads σ ω ε τ) (safe : Safe invariant ready fresh s)
    (conforms : StepsMeet (step perform body) (Conforms body fresh allowed) s turns) :
    Throughout (step perform body) (Safe invariant ready fresh) s turns :=
  throughout_of_stepsMeet (fun _ _ _ safe conforms stepped => rules.step_safe safe conforms stepped)
    turns s safe conforms

end Threads

end AgentC

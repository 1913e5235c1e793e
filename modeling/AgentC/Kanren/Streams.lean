import AgentC.Kanren.Unify
import AgentC.Kanren.UnifyRuns
import AgentC.Library.Partial

/-!
Goals as they are applied to states, and the lazy streams of states that this gives.

What a stream answers does not depend on the bound that it is pulled with.
-/

namespace AgentC.Kanren

/--
A goal, with the order in which its answers are found.

`clauses` stands for `conde`, and with `fair` for `conde_fair` and `disj_fair`. `create` stands for
the creation of a value while a goal is applied. `snooze` names the relation that its thunk builds.
-/
inductive StreamGoal (ι : Type) where
  | equal (u v : Term)
  | succeed
  | fail
  | conj (lhs rhs : StreamGoal ι)
  | disj (lhs rhs : StreamGoal ι)
  | clauses (fair : Bool) (goals : List (StreamGoal ι))
  | callFresh (body : Term → StreamGoal ι)
  | create (body : Node → StreamGoal ι)
  | snooze (relation : ι) (args : List Term)

namespace StreamGoal

variable {ι : Type}

/-- The goal of `conj_all`, which nests to the left. -/
def conjAll : List (StreamGoal ι) → StreamGoal ι
  | [] => .succeed
  | first :: rest => rest.foldl .conj first

/-- The goal of `conde`. -/
def conde (goals : List (List (StreamGoal ι))) : StreamGoal ι :=
  .clauses false (goals.map conjAll)

/-- The goal of `conde_fair`. -/
def condeFair (goals : List (List (StreamGoal ι))) : StreamGoal ι :=
  .clauses true (goals.map conjAll)

/-- The goal of `disj_fair`. -/
def disjFair (lhs rhs : StreamGoal ι) : StreamGoal ι :=
  .clauses true [lhs, rhs]

end StreamGoal

/-- The variable and the state that `call_fresh` goes on with. -/
def State.fresh (s : State) : Term × State :=
  (.var ⟨s.next, false⟩ s.count, { s with count := s.count + 1, next := s.next + 1 })

def State.create (s : State) : Node × State :=
  (⟨s.next, false⟩, { s with next := s.next + 1 })

/--
A `StateStream` with what its closure has captured.

`delayed` is a goal that is applied when the stream is first pulled. `conjOn` is a conjunction that
is inside the stream of its right side. `index` is where the next clause is looked for.
-/
inductive Stream (ι : Type) where
  | ready (states : List State)
  | delayed (goal : StreamGoal ι) (s : State)
  | disj (left right : Stream ι) (usingLeft : Bool)
  | conj (left : Stream ι) (rhs : StreamGoal ι)
  | conjOn (left : Stream ι) (rhs : StreamGoal ι) (current : Stream ι)
  | clauses (fair : Bool) (streams : List (Stream ι)) (index : Nat)

namespace Stream

variable {ι : Type} (relations : ι → List Term → StreamGoal ι)

/-- Applying a goal to a state. The first argument bounds the recursion of `unify`. -/
def start (fuel : Nat) : StreamGoal ι → State → Option (Stream ι)
  | .equal u v, s =>
    (unify fuel s u v).map fun result => .ready result.toList
  | .succeed, s => some (.ready [s])
  | .fail, _ => some (.ready [])
  | .conj lhs rhs, s => (start fuel lhs s).map fun left => .conj left rhs
  | .disj lhs rhs, s =>
    -- Both sides are applied before the first answer is asked for.
    (start fuel lhs s).bind fun left =>
      (start fuel rhs s).map fun right => .disj left right true
  | .clauses fair goals, s => some (.clauses fair (goals.map fun goal => .delayed goal s) 0)
  | .callFresh body, s => start fuel (body s.fresh.1) s.fresh.2
  | .create body, s => start fuel (body s.create.1) s.create.2
  | .snooze relation args, s => some (.delayed (relations relation args) s)

/--
The loop of `interleaveStreams`, which asks each stream at most once for an answer.

The first argument asks a stream, and the second one counts the streams not asked yet.
-/
def poll (next : Stream ι → Option (Option State × Stream ι)) :
    Nat → List (Stream ι) → Nat → Option (Option State × List (Stream ι) × Nat)
  | 0, streams, index => some (none, streams, index)
  | left + 1, streams, index =>
    match streams[index % streams.length]? with
    | none => some (none, streams, index)
    | some stream =>
      (next stream).bind fun (answer, stream) =>
        let streams := streams.set (index % streams.length) stream
        match answer with
        | some s => some (some s, streams, index + 1)
        | none => poll next left streams (index + 1)

/--
The next answer of a stream, or `none` in its place at the end, with what is left of the stream.

The first argument bounds the recursion. Nothing is returned when it is used up.
-/
def next : Nat → Stream ι → Option (Option State × Stream ι)
  | 0, _ => none
  | _ + 1, .ready [] => some (none, .ready [])
  | _ + 1, .ready (s :: rest) => some (some s, .ready rest)
  | fuel + 1, .delayed goal s => (start relations fuel goal s).bind (next fuel)
  | fuel + 1, .disj left right true =>
    (next fuel left).bind fun (answer, left) =>
      match answer with
      | some s => some (some s, .disj left right true)
      | none => next fuel (.disj left right false)
  | fuel + 1, .disj left right false =>
    (next fuel right).map fun (answer, right) => (answer, .disj left right false)
  | fuel + 1, .conj left rhs =>
    (next fuel left).bind fun (answer, left) =>
      match answer with
      | some s => (start relations fuel rhs s).bind fun current => next fuel (.conjOn left rhs current)
      | none => some (none, .conj left rhs)
  | fuel + 1, .conjOn left rhs current =>
    (next fuel current).bind fun (answer, current) =>
      match answer with
      | some s => some (some s, .conjOn left rhs current)
      | none => next fuel (.conj left rhs)
  | fuel + 1, .clauses false streams index =>
    match streams[index]? with
    | none => some (none, .clauses false streams index)
    | some stream =>
      (next fuel stream).bind fun (answer, stream) =>
        match answer with
        | some s => some (some s, .clauses false (streams.set index stream) index)
        | none => next fuel (.clauses false (streams.set index stream) (index + 1))
  | fuel + 1, .clauses true streams index =>
    (poll (next fuel) streams.length streams index).map fun (answer, streams, index) =>
      (answer, .clauses true streams index)

/--
The loop of `run`: the states pulled from a stream, at most `limit` of them unless that is zero.

`taken` counts the states there are already.
-/
def pull (limit : Nat) : Nat → Nat → Stream ι → Option (List State)
  | 0, _, _ => none
  | fuel + 1, taken, stream =>
    (next relations fuel stream).bind fun (answer, stream) =>
      match answer with
      | none => some []
      | some s =>
        if 0 < limit ∧ limit ≤ taken + 1 then some [s]
        else (pull limit fuel (taken + 1) stream).map (s :: ·)

end Stream

mutual

def maxLogicVarId : Term → Int
  | .var _ id => id
  | .text _ _ => -1
  | .list _ children => maxLogicVarIdChildren children
  | .dict _ fields => maxLogicVarIdFields fields

def maxLogicVarIdChildren : List Term → Int
  | [] => -1
  | child :: rest => max (maxLogicVarId child) (maxLogicVarIdChildren rest)

def maxLogicVarIdFields : List (String × Term) → Int
  | [] => -1
  | (_, child) :: rest => max (maxLogicVarId child) (maxLogicVarIdFields rest)

end

/-- The number that the first fresh variable of `run` gets. -/
def freshStart (queries : List Term) : Int :=
  (queries.map maxLogicVarId).foldl max (-1) + 1

variable {ι : Type}

/--
The answers of `run`, each with one term for every query.

A query's value is never compared with another value, so its nodes may have numbers of new ones.
-/
def run (relations : ι → List Term → StreamGoal ι) (fuel limit next : Nat) (queries : List Term)
    (goal : StreamGoal ι) : Option (List (List Term)) :=
  (Stream.start relations fuel goal { sub := [], count := freshStart queries, next }).bind
    fun stream => (Stream.pull relations limit fuel 0 stream).bind
      fun states => states.mapM fun s => queries.mapM fun query => reify fuel query s

end AgentC.Kanren

namespace AgentC.Kanren

variable {ι : Type} {relations : ι → List Term → StreamGoal ι}

namespace Stream

theorem start_mono {fuel more : Nat} (le : fuel ≤ more) : ∀ (goal : StreamGoal ι) (s : State),
    Approximates (start relations fuel goal s) (start relations more goal s)
  | .equal _ _, _ => Approximates.map _ fun _ ran => unify_mono le ran
  | .succeed, _ | .fail, _ | .clauses _ _, _ | .snooze _ _, _ => .refl _
  | .conj lhs _, s => (start_mono le lhs s).map _
  | .disj lhs rhs, s =>
    (start_mono le lhs s).bind fun _ => (start_mono le rhs s).map _
  | .callFresh body, s => start_mono le (body s.fresh.1) s.fresh.2
  | .create body, s => start_mono le (body s.create.1) s.create.2

theorem poll_mono {one more : Stream ι → Option (Option State × Stream ι)}
    (same : ∀ stream, Approximates (one stream) (more stream)) :
    ∀ (left : Nat) (streams : List (Stream ι)) (index : Nat),
      Approximates (poll one left streams index) (poll more left streams index) := by
  intro left
  induction left with
  | zero => exact fun _ _ => .refl _
  | succ left ih =>
    intro streams index
    unfold poll
    cases streams[index % streams.length]? with
    | none => exact .refl _
    | some stream =>
      refine (same stream).bind fun (answer, stream) => ?_
      cases answer with
      | none => exact ih _ _
      | some s => exact .refl _

theorem next_mono (fuel : Nat) : ∀ stream : Stream ι,
    Approximates (next relations fuel stream) (next relations (fuel + 1) stream) := by
  induction fuel with
  | zero => exact fun _ => .none _
  | succ fuel ih =>
    have starts := @start_mono _ relations fuel (fuel + 1) (Nat.le_succ fuel)
    intro stream
    match stream with
    | .ready [] | .ready (_ :: _) => exact .refl _
    | .delayed goal s => exact (starts goal s).bind ih
    | .disj left right true =>
      refine (ih left).bind fun (answer, left) => ?_
      cases answer with
      | none => exact ih _
      | some s => exact .refl _
    | .disj left right false => exact (ih right).map _
    | .conj left rhs =>
      refine (ih left).bind fun (answer, left) => ?_
      cases answer with
      | none => exact .refl _
      | some s => exact (starts rhs s).bind fun current => ih _
    | .conjOn left rhs current =>
      refine (ih current).bind fun (answer, current) => ?_
      cases answer with
      | none => exact ih _
      | some s => exact .refl _
    | .clauses false streams index =>
      unfold next
      cases streams[index]? with
      | none => exact .refl _
      | some stream =>
        refine (ih stream).bind fun (answer, stream) => ?_
        cases answer with
        | none => exact ih _
        | some s => exact .refl _
    | .clauses true streams index => exact (poll_mono ih _ _ _).map _

theorem pull_mono (limit fuel : Nat) : ∀ (taken : Nat) (stream : Stream ι),
    Approximates (pull relations limit fuel taken stream)
      (pull relations limit (fuel + 1) taken stream) := by
  induction fuel with
  | zero => exact fun _ _ => .none _
  | succ fuel ih =>
    intro taken stream
    refine (next_mono fuel stream).bind fun (answer, stream) => ?_
    cases answer with
    | none => exact .refl _
    | some s =>
      -- The loop stops here or goes on in the same way with both bounds.
      show Approximates (if _ then _ else _) (if _ then _ else _)
      split
      · exact .refl _
      · exact (ih _ _).map _

end Stream

theorem reifyEach_mono {one more : Term → Labels → Option (Term × Labels)}
    (same : ∀ value labels, Approximates (one value labels) (more value labels)) :
    ∀ (fields : List (String × Term)) (labels : Labels),
      Approximates (reifyEach one fields labels) (reifyEach more fields labels)
  | [], _ => .refl _
  | (name, child) :: rest, labels => by
    intro r ran
    simp only [reifyEach] at ran ⊢
    cases first : one child labels with
    | none => simp [first] at ran
    | some out =>
      rw [same child labels out first]
      simp only [first] at ran ⊢
      cases others : reifyEach one rest out.2 with
      | none => simp [others] at ran
      | some outs =>
        rw [reifyEach_mono same rest out.2 outs others]
        simpa only [others] using ran

theorem reifyTerm_mono (sub : List (Int × Term)) (fuel : Nat) : ∀ (value : Term) (labels : Labels),
    Approximates (reifyTerm fuel sub value labels) (reifyTerm (fuel + 1) sub value labels) := by
  induction fuel with
  | zero => exact fun _ _ => .none _
  | succ fuel ih =>
    intro value labels r ran
    cases walked : walk fuel sub value with
    | none => simp [reifyTerm, walked] at ran
    | some w =>
      have long := walk_mono (Nat.le_succ fuel) walked
      rw [reifyTerm, walked] at ran
      rw [reifyTerm, long]
      cases w with
      | var node id => exact ran
      | text node bytes => exact ran
      | list node us =>
        simp only at ran ⊢
        cases each : reifyEach (reifyTerm fuel sub) (Term.list node us).listChildren
            { labels with next := labels.next + 1 } with
        | none => simp [each] at ran
        | some out =>
          rw [reifyEach_mono ih _ _ out each]
          simpa only [each] using ran
      | dict node fields =>
        simp only at ran ⊢
        split at ran
        · rename_i empty
          rw [if_pos empty]
          exact ran
        · rename_i filled
          rw [if_neg filled]
          cases each : reifyEach (reifyTerm fuel sub) fields
              { labels with next := labels.next + 1 } with
          | none => simp [each] at ran
          | some out =>
            rw [reifyEach_mono ih _ _ out each]
            simpa only [each] using ran

theorem run_mono (fuel limit next : Nat) (queries : List Term) (goal : StreamGoal ι) :
    Approximates (run relations fuel limit next queries goal)
      (run relations (fuel + 1) limit next queries goal) := by
  refine (Stream.start_mono (Nat.le_succ fuel) goal _).bind fun stream => ?_
  refine (Stream.pull_mono limit fuel 0 stream).bind fun states => ?_
  refine Approximates.mapM (fun s => ?_) states
  exact Approximates.mapM (fun query => (reifyTerm_mono s.sub fuel query _).map _) queries

end AgentC.Kanren

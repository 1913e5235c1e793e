import AgentC.Kanren.FairAgrees
import AgentC.Kanren.Fresh

/-!
What the search of a goal finds, apart from the order it is found in.

A stream has states that are still to be found in it, and a pull takes its answer out of them.
-/

namespace AgentC.Kanren

variable {ι : Type} {relations : ι → List Term → StreamGoal ι}

namespace Stream

/-- The states that are still to be found in a stream. -/
inductive Finds (relations : ι → List Term → StreamGoal ι) : Stream ι → State → Prop where
  | ready {states : List State} {t : State} (member : t ∈ states) :
      Finds relations (.ready states) t
  | delayed {goal : StreamGoal ι} {s t : State} (yields : goal.Yields relations s t) :
      Finds relations (.delayed goal s) t
  | left {left right : Stream ι} {t : State} (found : Finds relations left t) :
      Finds relations (.disj left right true) t
  | right {left right : Stream ι} {usingLeft : Bool} {t : State} (found : Finds relations right t) :
      Finds relations (.disj left right usingLeft) t
  | conj {left : Stream ι} {rhs : StreamGoal ι} {s t : State} (first : Finds relations left s)
      (second : rhs.Yields relations s t) : Finds relations (.conj left rhs) t
  | current {left current : Stream ι} {rhs : StreamGoal ι} {t : State}
      (found : Finds relations current t) : Finds relations (.conjOn left rhs current) t
  | later {left current : Stream ι} {rhs : StreamGoal ι} {s t : State}
      (first : Finds relations left s) (second : rhs.Yields relations s t) :
      Finds relations (.conjOn left rhs current) t
  | clause {fair : Bool} {streams : List (Stream ι)} {index i : Nat} {stream : Stream ι} {t : State}
      (here : streams[i]? = some stream) (ahead : fair = true ∨ index ≤ i)
      (found : Finds relations stream t) : Finds relations (.clauses fair streams index) t

variable {n index i : Nat} {stream rest left right current : Stream ι} {streams : List (Stream ι)}
  {rhs : StreamGoal ι} {s t : State} {fair : Bool}

theorem finds_ready {states : List State} : Finds relations (.ready states) t ↔ t ∈ states := by
  refine ⟨fun found => ?_, .ready⟩
  cases found with
  | ready member => exact member

theorem finds_delayed {goal : StreamGoal ι} :
    Finds relations (.delayed goal s) t ↔ goal.Yields relations s t := by
  refine ⟨fun found => ?_, .delayed⟩
  cases found with
  | delayed yields => exact yields

theorem finds_disj {usingLeft : Bool} : Finds relations (.disj left right usingLeft) t ↔
    usingLeft = true ∧ Finds relations left t ∨ Finds relations right t := by
  constructor
  · intro found
    cases found with
    | left found => exact .inl ⟨rfl, found⟩
    | right found => exact .inr found
  · rintro (⟨rfl, found⟩ | found)
    · exact .left found
    · exact .right found

theorem finds_conj : Finds relations (.conj left rhs) t ↔
    ∃ s, Finds relations left s ∧ rhs.Yields relations s t := by
  constructor
  · intro found
    cases found with
    | conj first second => exact ⟨_, first, second⟩
  · rintro ⟨s, first, second⟩
    exact .conj first second

theorem finds_conjOn : Finds relations (.conjOn left rhs current) t ↔
    Finds relations current t ∨ Finds relations (.conj left rhs) t := by
  constructor
  · intro found
    cases found with
    | current found => exact .inl found
    | later first second => exact .inr (.conj first second)
  · rintro (found | found)
    · exact .current found
    · obtain ⟨s, first, second⟩ := finds_conj.mp found
      exact .later first second

theorem finds_clauses : Finds relations (.clauses fair streams index) t ↔
    ∃ i stream, streams[i]? = some stream ∧ (fair = true ∨ index ≤ i) ∧
      Finds relations stream t := by
  constructor
  · intro found
    cases found with
    | clause here ahead found => exact ⟨_, _, here, ahead, found⟩
  · rintro ⟨i, stream, here, ahead, found⟩
    exact .clause here ahead found

/-- Nothing is to be found in a stream that has come to its end. -/
theorem Ended.finds (ended : Ended n stream) : ¬Finds relations stream t := by
  induction ended generalizing t with
  | ready => simp [finds_ready]
  | disj _ ih => simp [finds_disj, ih]
  | conj _ ih => simp [finds_conj, ih]
  | plain passed =>
    rw [finds_clauses]
    rintro ⟨i, stream, here, ahead, -⟩
    -- The place to go on at is past the last clause.
    have inside := (List.getElem?_eq_some_iff.mp here).1
    have past := List.getElem?_eq_none_iff.mp passed
    have ahead := ahead.resolve_left Bool.false_ne_true
    omega
  | fair _ ih =>
    rw [finds_clauses]
    rintro ⟨i, stream, here, -, found⟩
    exact ih stream (List.mem_of_getElem? here) found

/-- Applying a goal gives a stream of the states that it yields. -/
theorem start_finds : ∀ (goal : StreamGoal ι) {s : State} {stream : Stream ι},
    start relations n goal s = some stream → ∀ t,
      Finds relations stream t ↔ goal.Yields relations s t
  | .equal u v, s, _, started, t => by
    obtain ⟨result, unified, rfl⟩ := Option.map_eq_some_iff.mp started
    rw [finds_ready, Option.mem_toList]
    constructor
    · rintro rfl
      exact .equal unified
    · rintro ⟨unified'⟩
      -- The result of `unify` does not depend on its bound.
      exact Approximates.unique (fun fuel _ ran => unify_mono (Nat.le_succ fuel) ran) unified unified'
  | .succeed, s, _, started, t => by
    cases started
    rw [finds_ready, List.mem_singleton]
    constructor
    · rintro rfl
      exact .succeed
    · rintro ⟨⟩
      rfl
  | .fail, s, _, started, t => by
    cases started
    rw [finds_ready]
    constructor
    · intro member
      cases member
    · rintro ⟨⟩
  | .conj lhs rhs, s, _, started, t => by
    -- Only the left side has been applied so far.
    obtain ⟨left, from_, rfl⟩ := Option.map_eq_some_iff.mp started
    simp only [finds_conj, start_finds lhs from_]
    constructor
    · rintro ⟨mid, first, second⟩
      exact .conj first second
    · intro yields
      cases yields with
      | conj first second => exact ⟨_, first, second⟩
  | .disj lhs rhs, s, _, started, t => by
    obtain ⟨left, from_, both⟩ := Option.bind_eq_some_iff.mp started
    obtain ⟨right, from', rfl⟩ := Option.map_eq_some_iff.mp both
    rw [finds_disj, start_finds lhs from_, start_finds rhs from']
    constructor
    · rintro (⟨-, chosen⟩ | chosen)
      · exact .left chosen
      · exact .right chosen
    · intro yields
      cases yields with
      | left chosen => exact .inl ⟨rfl, chosen⟩
      | right chosen => exact .inr chosen
  | .clauses fair goals, s, _, started, t => by
    -- Each clause waits for its first turn, and all of them are ahead.
    cases started
    rw [finds_clauses]
    constructor
    · rintro ⟨i, stream, here, -, found⟩
      rw [List.getElem?_map, Option.map_eq_some_iff] at here
      obtain ⟨goal, here, rfl⟩ := here
      exact .clause (List.mem_of_getElem? here) (finds_delayed.mp found)
    · intro yields
      cases yields with
      | @clause _ _ goal _ _ member chosen =>
        obtain ⟨i, here⟩ := List.mem_iff_getElem?.mp member
        refine ⟨i, .delayed goal s, ?_, .inr (Nat.zero_le i), .delayed chosen⟩
        rw [List.getElem?_map, here, Option.map_some]
  | .callFresh body, s, _, started, t => by
    -- The body is applied at once, to a variable of its own.
    rw [start_finds (body s.fresh.1) started]
    refine ⟨.callFresh, fun yields => ?_⟩
    cases yields with
    | callFresh rest => exact rest
  | .create body, s, _, started, t => by
    rw [start_finds (body s.create.1) started]
    refine ⟨.create, fun yields => ?_⟩
    cases yields with
    | create rest => exact rest
  | .snooze relation args, s, _, started, t => by
    cases started
    rw [finds_delayed]
    refine ⟨.snooze, fun yields => ?_⟩
    cases yields with
    | snooze rest => exact rest

/-- One clause has given an answer, or none, and the others are as they were. -/
theorem finds_set {answer : Option State} (here : streams[i]? = some stream)
    (ahead : fair = true ∨ index ≤ i)
    (asked : Finds relations stream t ↔ answer = some t ∨ Finds relations rest t) :
    Finds relations (.clauses fair streams index) t ↔
      answer = some t ∨ Finds relations (.clauses fair (streams.set i rest) index) t := by
  have own : (streams.set i rest)[i]? = some rest :=
    List.getElem?_set_self (List.getElem?_eq_some_iff.mp here).1
  constructor
  · intro found
    obtain ⟨j, other, at_, ahead', found⟩ := finds_clauses.mp found
    by_cases same : i = j
    · -- It is found in the clause that was asked.
      subst same
      obtain rfl := Option.some.inj (here.symm.trans at_)
      exact (asked.mp found).imp_right fun found => .clause own ahead found
    · -- The other clauses are as they were.
      have kept : (streams.set i rest)[j]? = some other := (List.getElem?_set_ne same).trans at_
      exact .inr (.clause kept ahead' found)
  · rintro (answered | found)
    · exact .clause here ahead (asked.mpr (.inl answered))
    · obtain ⟨j, other, at_, ahead', found⟩ := finds_clauses.mp found
      by_cases same : i = j
      · subst same
        obtain rfl := Option.some.inj (own.symm.trans at_)
        exact .clause here ahead (asked.mpr (.inr found))
      · have kept := (List.getElem?_set_ne same).symm.trans at_
        exact .clause kept ahead' found

theorem finds_fair_index {j : Nat} : Finds relations (.clauses true streams index) t ↔
    Finds relations (.clauses true streams j) t := by
  simp [finds_clauses]

theorem poll_finds {one : Stream ι → Option (Option State × Stream ι)}
    (asks : ∀ stream answer rest, one stream = some (answer, rest) →
      (Finds relations stream t ↔ answer = some t ∨ Finds relations rest t)) :
    ∀ (left : Nat) (streams : List (Stream ι)) (index : Nat) (answer : Option State)
      (streams' : List (Stream ι)) (index' : Nat),
      poll one left streams index = some (answer, streams', index') →
        (Finds relations (.clauses true streams index) t ↔
          answer = some t ∨ Finds relations (.clauses true streams' index') t) := by
  intro left
  induction left with
  | zero =>
    rintro streams index answer streams' index' ⟨⟩
    simp
  | succ left ih =>
    intro streams index answer streams' index' polled
    rcases poll_cases polled with ⟨-, same⟩ | ⟨stream, given, rest, at_, asked, turn⟩
    · cases same
      simp
    · rw [finds_set at_ (.inl rfl) (asks _ _ _ asked)]
      rcases turn with ⟨s, rfl, same⟩ | ⟨rfl, polled⟩
      · cases same
        rw [finds_fair_index]
      · -- The clause had nothing to give, and the next ones are asked.
        rw [finds_fair_index, ih _ _ _ _ _ polled]
        simp

/-- A pull takes its answer out of what there is to find, and nothing else. -/
theorem next_finds (fuel : Nat) : ∀ (stream : Stream ι) (answer : Option State) (rest : Stream ι),
    next relations fuel stream = some (answer, rest) → ∀ t,
      Finds relations stream t ↔ answer = some t ∨ Finds relations rest t := by
  induction fuel with
  | zero => rintro _ _ _ ⟨⟩
  | succ fuel ih =>
    intro stream answer rest pulled t
    cases stream with
    | ready states =>
      cases states with
      | nil =>
        cases pulled
        simp [finds_ready]
      | cons s states =>
        cases pulled
        simp [finds_ready, eq_comm]
    | delayed goal s =>
      obtain ⟨inner, started, pulled⟩ := Option.bind_eq_some_iff.mp pulled
      rw [finds_delayed, ← start_finds goal started]
      exact ih _ _ _ pulled t
    | disj left right usingLeft =>
      cases usingLeft with
      | true =>
        obtain ⟨⟨given, left'⟩, asked, pulled⟩ := Option.bind_eq_some_iff.mp pulled
        have own := ih _ _ _ asked t
        cases given with
        | some s =>
          cases pulled
          simp only [finds_disj, own, true_and, or_assoc]
        | none =>
          -- The left side has ended, so that only the right one is left.
          have ended : ¬Finds relations _ t := (next_ended asked).finds
          rw [← ih _ _ _ pulled t]
          simp [finds_disj, own, ended]
      | false =>
        -- Nothing is asked of the left side again.
        obtain ⟨⟨given, right'⟩, asked, same⟩ := Option.map_eq_some_iff.mp pulled
        cases same
        simpa [finds_disj] using ih _ _ _ asked t
    | conj left rhs =>
      obtain ⟨⟨given, left'⟩, asked, pulled⟩ := Option.bind_eq_some_iff.mp pulled
      have own := ih _ _ _ asked
      cases given with
      | none =>
        -- Without answers on the left there are none at all.
        cases pulled
        simp [finds_conj, own]
      | some s =>
        obtain ⟨current, started, pulled⟩ := Option.bind_eq_some_iff.mp pulled
        -- What the right side leads to from the answer comes first.
        rw [← ih _ _ _ pulled t, finds_conjOn, start_finds rhs started]
        simp [finds_conj, own, or_and_right, exists_or]
    | conjOn left rhs current =>
      obtain ⟨⟨given, current'⟩, asked, pulled⟩ := Option.bind_eq_some_iff.mp pulled
      have own := ih _ _ _ asked t
      cases given with
      | some s =>
        cases pulled
        simp only [finds_conjOn, own, or_assoc]
      | none =>
        -- The right side has no more answers for this one, and the next one is asked for.
        have ended : ¬Finds relations _ t := (next_ended asked).finds
        rw [← ih _ _ _ pulled t]
        simp [finds_conjOn, own, ended]
    | clauses fair streams index =>
      cases fair with
      | true =>
        obtain ⟨⟨given, streams', index'⟩, polled, same⟩ := Option.map_eq_some_iff.mp pulled
        cases same
        exact poll_finds (fun _ _ _ asked => ih _ _ _ asked t) _ _ _ _ _ _ polled
      | false =>
        unfold next at pulled
        cases at_ : streams[index]? with
        | none =>
          rw [at_] at pulled
          cases pulled
          simp
        | some stream =>
          rw [at_] at pulled
          obtain ⟨⟨given, stream'⟩, asked, pulled⟩ := Option.bind_eq_some_iff.mp pulled
          have own : Finds relations (.clauses false streams index) t ↔ _ :=
            finds_set at_ (.inr (Nat.le_refl index)) (ih _ _ _ asked t)
          cases given with
          | some s =>
            cases pulled
            exact own
          | none =>
            rw [own, ← ih _ _ _ pulled t]
            -- The clause that has ended is passed by.
            have ended : ¬Finds relations _ t := (next_ended asked).finds
            have inside := (List.getElem?_eq_some_iff.mp at_).1
            simp only [reduceCtorEq, false_or, finds_clauses, Bool.false_eq_true]
            refine exists_congr fun i => exists_congr fun other => and_congr_right fun here => ?_
            refine and_congr_left fun found => ⟨fun ahead => ?_, Nat.le_of_succ_le⟩
            refine Nat.lt_of_le_of_ne ahead fun same => ?_
            subst same
            rw [List.getElem?_set_self inside] at here
            cases here
            exact ended found

end Stream

namespace StreamGoal

variable {goal : StreamGoal ι} {s : State} {states : List State}

theorem begins_yields (goal : StreamGoal ι) (begins : goal.Begins relations s states) :
    ∀ t ∈ states, goal.Yields relations s t := by
  obtain ⟨n, stream, started, begins⟩ := begins
  suffices found : ∀ t ∈ states, stream.Finds relations t from
    fun t member => (Stream.start_finds goal started t).mp (found t member)
  clear started
  induction begins with
  | nothing => exact fun _ member => absurd member List.not_mem_nil
  | more pulled _ ih =>
    intro t member
    rw [Stream.next_finds _ _ _ _ pulled]
    exact (List.mem_cons.mp member).imp (fun same => congrArg some same.symm) (ih t)

theorem gives_yields (goal : StreamGoal ι) (gives : goal.Gives relations s states) (t : State) :
    t ∈ states ↔ goal.Yields relations s t := by
  obtain ⟨n, stream, started, gives⟩ := gives
  rw [← Stream.start_finds goal started]
  clear started
  induction gives with
  | done pulled =>
    -- Nothing is left to be found at the end.
    rw [Stream.next_finds _ _ _ _ pulled]
    simp [(Stream.next_ended pulled).finds]
  | more pulled _ ih =>
    rw [Stream.next_finds _ _ _ _ pulled, List.mem_cons, ih, Option.some.injEq, eq_comm]

end StreamGoal

/--
The search of a goal finds the states that it yields, and no others.

This holds of every answer of a search that goes on for ever, too; one that ends has found all.
-/
theorem search_exact (relations : ι → List Term → StreamGoal ι) (goal : StreamGoal ι) (s : State) :
    (∀ states, goal.Begins relations s states → ∀ t ∈ states, goal.Yields relations s t) ∧
      ∀ states, goal.Gives relations s states → ∀ t, t ∈ states ↔ goal.Yields relations s t :=
  ⟨fun _ => goal.begins_yields, fun _ => goal.gives_yields⟩

end AgentC.Kanren

import AgentC.Kanren.Disjunction

/-! The answers of goals: fair disjunctions against plain ones, and runs that stop at a limit. -/

namespace AgentC.Kanren

variable {ι : Type} {relations : ι → List Term → StreamGoal ι}

namespace Stream

variable {n index : Nat} {states : List State} {left right stream : Stream ι}
  {streams : List (Stream ι)}

theorem gives_via {outer inner : Stream ι}
    (same : ∀ m, n ≤ m → next relations (m + 1) outer = next relations m inner) :
    Gives relations outer states ↔ Gives relations inner states := by
  have inward {fuel out} (pulled : next relations fuel outer = some out) :
      next relations (max fuel n) inner = some out := by
    rw [← same _ (Nat.le_max_right fuel n)]
    exact next_more (by omega) outer _ pulled
  have outward {fuel out} (pulled : next relations fuel inner = some out) :
      next relations (max fuel n + 1) outer = some out := by
    rw [same _ (Nat.le_max_right fuel n)]
    exact next_more (Nat.le_max_left fuel n) inner _ pulled
  constructor <;> intro given
  · cases given with
    | done ended => exact .done (inward ended)
    | more found later => exact .more (inward found) later
  · cases given with
    | done ended => exact .done (outward ended)
    | more found later => exact .more (outward found) later

theorem gives_delayed {goal : StreamGoal ι} {s : State} :
    Gives relations (.delayed goal s) states ↔
      ∃ fuel stream, start relations fuel goal s = some stream ∧ Gives relations stream states := by
  have via {fuel : Nat} {stream : Stream ι} (started : start relations fuel goal s = some stream) :
      ∀ m, fuel ≤ m → next relations (m + 1) (.delayed goal s) = next relations m stream := by
    intro m le
    rw [next, start_mono le goal s _ started, Option.bind_some]
  constructor
  · intro given
    -- Whatever the first pull finds, it has applied the goal.
    have started : ∃ fuel out, next relations fuel (.delayed goal s) = some out := by
      cases given with
      | done ended => exact ⟨_, _, ended⟩
      | more found _ => exact ⟨_, _, found⟩
    obtain ⟨fuel, out, pulled⟩ := started
    obtain _ | fuel := fuel
    · cases pulled
    obtain ⟨stream, started, _⟩ := Option.bind_eq_some_iff.mp pulled
    exact ⟨fuel, stream, started, (gives_via (via started)).mp given⟩
  · rintro ⟨fuel, stream, started, given⟩
    exact (gives_via (via started)).mpr given

theorem gives_disj_right :
    Gives relations (.disj left right false) states ↔ Gives relations right states := by
  constructor
  · intro given
    generalize at_ : Stream.disj left right false = stream at given
    induction given generalizing right with
    | @done _ _ fuel ended =>
      subst at_
      obtain _ | fuel := fuel
      · cases ended
      obtain ⟨⟨answer, rest⟩, asked, same⟩ := Option.map_eq_some_iff.mp ended
      cases same
      exact .done asked
    | @more _ _ s states fuel found _ ih =>
      subst at_
      obtain _ | fuel := fuel
      · cases found
      obtain ⟨⟨answer, rest⟩, asked, same⟩ := Option.map_eq_some_iff.mp found
      cases same
      exact .more asked (ih rfl)
  · intro given
    induction given with
    | @done right rest fuel ended =>
      have pulled : next relations (fuel + 1) (.disj left right false) =
          some (none, .disj left rest false) := by
        rw [next, ended]
        rfl
      exact .done pulled
    | @more right rest s states fuel found _ ih =>
      have pulled : next relations (fuel + 1) (.disj left right false) =
          some (some s, .disj left rest false) := by
        rw [next, found]
        rfl
      exact .more pulled ih

theorem disj_turns {left' : Stream ι} (ended : next relations n left = some (none, left')) :
    Gives relations (.disj left right true) states ↔ Gives relations right states := by
  have on (m) (le : n ≤ m) : next relations (m + 1) (.disj left right true) =
      next relations m (.disj left' right false) := by
    rw [next, next_more le left _ ended, Option.bind_some]
  exact (gives_via on).trans gives_disj_right

theorem gives_disj :
    Gives relations (.disj left right true) states ↔ ∃ first second,
      Gives relations left first ∧ Gives relations right second ∧ states = first ++ second := by
  constructor
  · intro given
    generalize at_ : Stream.disj left right true = stream at given
    induction given generalizing left with
    | @done _ rest fuel ended =>
      subst at_
      obtain _ | fuel := fuel
      · cases ended
      obtain ⟨⟨answer, left'⟩, asked, pulled⟩ := Option.bind_eq_some_iff.mp ended
      cases answer with
      | some s => cases pulled
      | none => exact ⟨[], [], .done asked, (disj_turns asked).mp (.done ended), rfl⟩
    | @more _ rest s states fuel found later ih =>
      subst at_
      obtain _ | fuel := fuel
      · cases found
      obtain ⟨⟨answer, left'⟩, asked, pulled⟩ := Option.bind_eq_some_iff.mp found
      cases answer with
      | none => exact ⟨[], _, .done asked, (disj_turns asked).mp (.more found later), rfl⟩
      | some s =>
        cases pulled
        obtain ⟨first, second, one, other, rfl⟩ := ih rfl
        exact ⟨s :: first, second, .more asked one, other, rfl⟩
  · rintro ⟨first, second, one, other, rfl⟩
    induction one with
    | done ended => exact (disj_turns ended).mpr other
    | @more left rest s states fuel found _ ih =>
      have pulled : next relations (fuel + 1) (.disj left right true) =
          some (some s, .disj rest right true) := by
        rw [next, found]
        rfl
      exact .more pulled ih

theorem plain_turns {rest : Stream ι} (at_ : streams[index]? = some stream)
    (ended : next relations n stream = some (none, rest)) :
    Gives relations (.clauses false streams index) states ↔
      Gives relations (.clauses false (streams.set index rest) (index + 1)) states := by
  refine gives_via (n := n) fun m le => ?_
  rw [next, at_]
  simp only [next_more le stream _ ended, Option.bind_some]

theorem plain_answers {rest : Stream ι} {s : State} (at_ : streams[index]? = some stream)
    (found : next relations n stream = some (some s, rest)) :
    next relations (n + 1) (.clauses false streams index) =
      some (some s, .clauses false (streams.set index rest) index) := by
  rw [next, at_]
  simp only [found, Option.bind_some]

theorem plain_of_each : ∀ {lists : List (List State)} {index : Nat},
    GivesEach relations (streams.drop index) lists →
      Gives relations (.clauses false streams index) lists.flatten := by
  intro lists
  induction lists generalizing streams with
  | nil =>
    intro index each
    have short := List.drop_eq_nil_iff.mp (List.forall₂_nil_right_iff.mp each)
    have pulled : next relations 1 (.clauses false streams index) =
        some (none, .clauses false streams index) := by
      rw [next, List.getElem?_eq_none short]
    exact .done pulled
  | cons list lists ih =>
    intro index each
    obtain ⟨stream, streams', given, others, split⟩ := List.forall₂_cons_right_iff.mp each
    have at_ : streams[index]? = some stream := by
      have first : (streams.drop index)[0]? = some stream := by rw [split, List.getElem?_cons_zero]
      rwa [List.getElem?_drop] at first
    have rest : streams.drop (index + 1) = streams' := by
      rw [← List.drop_drop, split]
      rfl
    rw [← rest] at others
    clear each split rest
    -- The answers of the current stream come first.
    induction given generalizing streams with
    | done ended =>
      refine (plain_turns at_ ended).mpr (ih ?_)
      rwa [List.drop_set_of_lt (by omega)]
    | @more _ rest s states fuel found _ inner =>
      have inside := (List.getElem?_eq_some_iff.mp at_).1
      refine .more (plain_answers at_ found) (inner ?_ ?_)
      · rwa [List.drop_set_of_lt (by omega)]
      · rw [List.getElem?_set_self inside]

theorem plain_splits (given : Gives relations stream states) :
    ∀ {streams : List (Stream ι)} {index : Nat} {current : Stream ι},
      stream = .clauses false streams index → streams[index]? = some current →
        ∃ first second rest, Gives relations current first ∧ states = first ++ second ∧
          Gives relations (.clauses false (streams.set index rest) (index + 1)) second := by
  induction given with
  | @done stream _ fuel ended =>
    rintro streams index current rfl at_
    obtain _ | fuel := fuel
    · cases ended
    have pulled := ended
    rw [next, at_] at pulled
    obtain ⟨⟨answer, rest⟩, asked, pulled⟩ := Option.bind_eq_some_iff.mp pulled
    cases answer with
    | some s => cases pulled
    | none => exact ⟨[], [], rest, .done asked, rfl, (plain_turns at_ asked).mp (.done ended)⟩
  | @more stream _ s states fuel found later ih =>
    rintro streams index current rfl at_
    obtain _ | fuel := fuel
    · cases found
    have pulled := found
    rw [next, at_] at pulled
    obtain ⟨⟨answer, rest⟩, asked, pulled⟩ := Option.bind_eq_some_iff.mp pulled
    cases answer with
    | none => exact ⟨[], _, rest, .done asked, rfl, (plain_turns at_ asked).mp (.more found later)⟩
    | some s =>
      cases pulled
      have inside := (List.getElem?_eq_some_iff.mp at_).1
      obtain ⟨first, second, last, own, rfl, others⟩ := ih rfl (List.getElem?_set_self inside)
      rw [List.set_set] at others
      exact ⟨s :: first, second, last, .more asked own, rfl, others⟩

theorem each_of_plain (given : Gives relations (.clauses false streams index) states) :
    ∃ lists, GivesEach relations (streams.drop index) lists ∧ states = lists.flatten := by
  -- The induction is on the number of streams that have not had their turn.
  induction left : streams.length - index generalizing streams index states with
  | zero =>
    have short : streams.length ≤ index := by omega
    have pulled : next relations 1 (.clauses false streams index) =
        some (none, .clauses false streams index) := by
      rw [next, List.getElem?_eq_none short]
    rw [(gives_none pulled).mp given, List.drop_eq_nil_of_le short]
    exact ⟨[], .nil, rfl⟩
  | succ left ih =>
    have inside : index < streams.length := by omega
    obtain ⟨first, second, rest, own, rfl, others⟩ :=
      plain_splits given rfl (List.getElem?_eq_getElem inside)
    obtain ⟨lists, each, rfl⟩ := ih others (by rw [List.length_set]; omega)
    rw [List.drop_set_of_lt (by omega)] at each
    rw [List.drop_eq_getElem_cons inside]
    exact ⟨first :: lists, .cons own each, rfl⟩

end Stream

namespace StreamGoal

/-- All the answers of a goal that is applied to a state, when there is an end to them. -/
def Gives (relations : ι → List Term → StreamGoal ι) (goal : StreamGoal ι) (s : State)
    (states : List State) : Prop :=
  ∃ fuel stream, Stream.start relations fuel goal s = some stream ∧ stream.Gives relations states

/-- The first answers of a goal that is applied to a state. -/
def Begins (relations : ι → List Term → StreamGoal ι) (goal : StreamGoal ι) (s : State)
    (states : List State) : Prop :=
  ∃ fuel stream, Stream.start relations fuel goal s = some stream ∧ stream.Begins relations states

def SameAnswers (relations : ι → List Term → StreamGoal ι) (one other : StreamGoal ι) : Prop :=
  ∀ s, ((∃ states, one.Gives relations s states) ↔ ∃ states, other.Gives relations s states) ∧
    ∀ first second, one.Gives relations s first → other.Gives relations s second → first.Perm second

variable {s : State} {goals : List (StreamGoal ι)}

theorem Gives.unique {goal : StreamGoal ι} {first second : List State}
    (here : goal.Gives relations s first) (there : goal.Gives relations s second) :
    first = second := by
  obtain ⟨n, one, startedOne, givenOne⟩ := here
  obtain ⟨m, other, startedOther, givenOther⟩ := there
  have left := Stream.start_mono (Nat.le_max_left n m) goal s _ startedOne
  have right := Stream.start_mono (Nat.le_max_right n m) goal s _ startedOther
  obtain rfl := Option.some.inj (left.symm.trans right)
  exact givenOne.unique givenOther

theorem SameAnswers.of_perm {one other : StreamGoal ι}
    (forth : ∀ s states, one.Gives relations s states →
      ∃ states', other.Gives relations s states' ∧ states.Perm states')
    (back : ∀ s states, other.Gives relations s states → ∃ states', one.Gives relations s states') :
    SameAnswers relations one other := by
  refine fun s => ⟨⟨fun ⟨states, given⟩ => ?_, fun ⟨states, given⟩ => back s states given⟩, ?_⟩
  · obtain ⟨states', given', _⟩ := forth s states given
    exact ⟨states', given'⟩
  · intro first second here there
    obtain ⟨states', given', perm⟩ := forth s first here
    rwa [given'.unique there] at perm

theorem givesEach_delayed {lists : List (List State)} :
    Stream.GivesEach relations (goals.map fun goal => .delayed goal s) lists ↔
      List.Forall₂ (fun goal states => goal.Gives relations s states) goals lists := by
  rw [Stream.GivesEach, List.forall₂_map_left_iff]
  simp only [Stream.gives_delayed, Gives]

theorem gives_plain {states : List State} :
    (clauses false goals).Gives relations s states ↔ ∃ lists,
      List.Forall₂ (fun goal states => goal.Gives relations s states) goals lists ∧
        states = lists.flatten := by
  constructor
  · rintro ⟨fuel, stream, ⟨⟩, given⟩
    obtain ⟨lists, each, same⟩ := Stream.each_of_plain given
    exact ⟨lists, givesEach_delayed.mp each, same⟩
  · rintro ⟨lists, each, rfl⟩
    have given := givesEach_delayed.mpr each
    rw [← List.drop_zero (l := goals.map _)] at given
    exact ⟨0, _, rfl, Stream.plain_of_each given⟩

theorem gives_fair :
    (∀ lists, List.Forall₂ (fun goal states => goal.Gives relations s states) goals lists →
        ∃ states, (clauses true goals).Gives relations s states ∧ states.Perm lists.flatten) ∧
      ∀ states, (clauses true goals).Gives relations s states → ∃ lists,
        List.Forall₂ (fun goal states => goal.Gives relations s states) goals lists := by
  constructor
  · intro lists each
    obtain ⟨states, given, perm⟩ := Stream.fair_of_each 0 (givesEach_delayed.mpr each)
    exact ⟨states, ⟨0, _, rfl, given⟩, perm⟩
  · rintro states ⟨fuel, stream, ⟨⟩, given⟩
    obtain ⟨lists, each, _⟩ := Stream.each_of_fair given rfl
    exact ⟨lists, givesEach_delayed.mp each⟩

theorem gives_disj {lhs rhs : StreamGoal ι} {states : List State} :
    (disj lhs rhs).Gives relations s states ↔ ∃ first second, lhs.Gives relations s first ∧
      rhs.Gives relations s second ∧ states = first ++ second := by
  constructor
  · rintro ⟨fuel, stream, started, given⟩
    obtain ⟨left, startedLeft, started⟩ := Option.bind_eq_some_iff.mp started
    obtain ⟨right, startedRight, rfl⟩ := Option.map_eq_some_iff.mp started
    obtain ⟨first, second, one, other, same⟩ := Stream.gives_disj.mp given
    exact ⟨first, second, ⟨fuel, left, startedLeft, one⟩, ⟨fuel, right, startedRight, other⟩, same⟩
  · rintro ⟨first, second, ⟨n, left, startedLeft, one⟩, ⟨m, right, startedRight, other⟩, rfl⟩
    have here := Stream.start_mono (Nat.le_max_left n m) lhs s _ startedLeft
    have there := Stream.start_mono (Nat.le_max_right n m) rhs s _ startedRight
    refine ⟨max n m, .disj left right true, ?_, Stream.gives_disj.mpr ⟨_, _, one, other, rfl⟩⟩
    rw [Stream.start, here, Option.bind_some, there]
    rfl

/-- `conde_fair` finds what `conde` finds. -/
theorem conde_same (goals : List (List (StreamGoal ι))) :
    SameAnswers relations (conde goals) (condeFair goals) := by
  refine .of_perm (fun s states given => ?_) fun s states given => ?_
  · obtain ⟨lists, each, rfl⟩ := gives_plain.mp given
    obtain ⟨states', given', perm⟩ := gives_fair.1 lists each
    exact ⟨states', given', perm.symm⟩
  · obtain ⟨lists, each⟩ := gives_fair.2 states given
    exact ⟨_, gives_plain.mpr ⟨lists, each, rfl⟩⟩

/-- `disj_fair` finds what `disj` finds. -/
theorem disj_same (lhs rhs : StreamGoal ι) :
    SameAnswers relations (disj lhs rhs) (disjFair lhs rhs) := by
  refine .of_perm (fun s states given => ?_) fun s states given => ?_
  · obtain ⟨first, second, one, other, rfl⟩ := gives_disj.mp given
    obtain ⟨states', given', perm⟩ := gives_fair.1 [first, second] (.cons one (.cons other .nil))
    rw [List.flatten_cons, List.flatten_cons, List.flatten_nil, List.append_nil] at perm
    exact ⟨states', given', perm.symm⟩
  · obtain ⟨lists, each⟩ := gives_fair.2 states given
    cases each with
    | cons one each =>
      cases each with
      | cons other _ => exact ⟨_, gives_disj.mpr ⟨_, _, one, other, rfl⟩⟩

end StreamGoal

namespace Stream

theorem gives_of_pull : ∀ {fuel taken : Nat} {stream : Stream ι} {states : List State},
    pull relations 0 fuel taken stream = some states → Gives relations stream states
  | fuel + 1, taken, stream, states, pulled => by
    obtain ⟨⟨answer, rest⟩, asked, pulled⟩ := Option.bind_eq_some_iff.mp pulled
    cases answer with
    | none =>
      cases pulled
      exact .done asked
    | some s =>
      simp only [Nat.lt_irrefl, false_and, if_false] at pulled
      obtain ⟨later, others, rfl⟩ := Option.map_eq_some_iff.mp pulled
      exact .more asked (gives_of_pull others)

variable {n limit : Nat} {stream : Stream ι} {states : List State}

theorem pull_more {m : Nat} (le : n ≤ m) (limit taken : Nat) (stream : Stream ι) :
    Approximates (pull relations limit n taken stream) (pull relations limit m taken stream) :=
  Approximates.of_succ (fun fuel => pull_mono limit fuel taken stream) le

/-- One turn of the loop of `run` that finds an answer. -/
theorem pull_some {taken m : Nat} {rest : Stream ι} {s : State}
    (found : next relations n stream = some (some s, rest)) (below : taken + 1 < limit)
    (later : pull relations limit m (taken + 1) rest = some states) :
    pull relations limit (max n m + 1) taken stream = some (s :: states) := by
  have asked := next_more (Nat.le_max_left n m) stream _ found
  have others := pull_more (Nat.le_max_right n m) limit (taken + 1) rest _ later
  rw [pull, asked, Option.bind_some]
  simp only [show ¬(0 < limit ∧ limit ≤ taken + 1) by omega, if_false, others, Option.map_some]

/-- The turn of the loop of `run` that reaches the limit. -/
theorem pull_last {taken : Nat} {rest : Stream ι} {s : State}
    (found : next relations n stream = some (some s, rest)) (last : limit = taken + 1) :
    pull relations limit (n + 1) taken stream = some [s] := by
  rw [pull, found, Option.bind_some]
  simp only [show 0 < limit ∧ limit ≤ taken + 1 by omega, and_self, if_true]

/-- The loop of `run` stops with as many of a stream's first answers as its limit says. -/
theorem pull_begins (begins : Begins relations stream states) : ∀ {taken : Nat}, taken < limit →
      taken + states.length = limit → ∃ fuel, pull relations limit fuel taken stream = some states := by
  induction begins with
  | nothing =>
    intro taken below count
    rw [List.length_nil] at count
    omega
  | @more stream rest s states n found _ ih =>
    intro taken below count
    rw [List.length_cons] at count
    cases states with
    | nil => exact ⟨_, pull_last found (by rw [List.length_nil] at count; omega)⟩
    | cons s' states =>
      rw [List.length_cons] at count
      obtain ⟨m, later⟩ := @ih (taken + 1) (by omega) (by rw [List.length_cons]; omega)
      exact ⟨_, pull_some found (by omega) later⟩

theorem pull_gives (given : Gives relations stream states) : ∀ {taken : Nat},
      taken + states.length < limit → ∃ fuel, pull relations limit fuel taken stream = some states := by
  induction given with
  | @done stream rest n ended =>
    intro taken _
    exact ⟨n + 1, by rw [pull, ended]; rfl⟩
  | @more stream rest s states n found _ ih =>
    intro taken count
    rw [List.length_cons] at count
    obtain ⟨m, later⟩ := @ih (taken + 1) (by omega)
    exact ⟨_, pull_some found (by omega) later⟩

theorem Gives.begins (given : Gives relations stream states) :
    ∀ n, Begins relations stream (states.take n) := by
  induction given with
  | done => exact fun n => by rw [List.take_nil]; exact .nothing
  | more found _ ih =>
    intro n
    cases n with
    | zero => exact .nothing
    | succ n => exact .more found (ih n)

/-- The loop of `run` with a limit takes as many answers as the limit says, if there are as many. -/
theorem pull_take (given : Gives relations stream states) (limited : 0 < limit) :
    ∃ fuel, pull relations limit fuel 0 stream = some (states.take limit) := by
  rcases Nat.lt_or_ge states.length limit with short | long
  · rw [List.take_of_length_le (by omega)]
    exact pull_gives given (by omega)
  · exact pull_begins (given.begins limit) limited (by rw [List.length_take]; omega)

end Stream

theorem mapM_take {α β : Type} {f : α → Option β} {list : List α} {out : List β}
    (computed : list.mapM f = some out) (n : Nat) : (list.take n).mapM f = some (out.take n) := by
  refine mapM_eq_some.mpr ?_
  rw [List.map_take, List.map_take, mapM_eq_some.mp computed]

theorem rows_mono {queries : List Term} {n m : Nat} (le : n ≤ m) (states : List State) :
    Approximates (states.mapM fun s => queries.mapM fun query => reify n query s)
      (states.mapM fun s => queries.mapM fun query => reify m query s) := by
  refine Approximates.mapM (fun s => Approximates.mapM (fun query => ?_) queries) states
  exact Approximates.of_succ (fun fuel => (reifyTerm_mono s.sub fuel query _).map _) le

theorem run_ends {limit next n m k : Nat} {queries : List Term} {goal : StreamGoal ι}
    {stream : Stream ι} {states : List State} {out : List (List Term)}
    (started : Stream.start relations n goal { sub := [], count := freshStart queries, next } = some stream)
    (pulled : Stream.pull relations limit m 0 stream = some states)
    (rows : (states.mapM fun s => queries.mapM fun query => reify k query s) = some out) :
    ∃ enough, ∀ fuel ≥ enough, run relations fuel limit next queries goal = some out := by
  refine ⟨max n (max m k), fun fuel le => ?_⟩
  have start := Stream.start_mono (show n ≤ fuel by omega) goal _ _ started
  have pull := Stream.pull_more (show m ≤ fuel by omega) limit 0 stream _ pulled
  rw [run, start, Option.bind_some, pull, Option.bind_some]
  exact rows_mono (show k ≤ fuel by omega) states _ rows

/--
Fair and plain disjunctions find the same answers, and a limit takes the first ones.

The first two parts are about goals with an end. A limit that is not zero also stops other goals.
-/
theorem fair_agrees (relations : ι → List Term → StreamGoal ι) :
    (∀ goals, StreamGoal.SameAnswers relations (.conde goals) (.condeFair goals)) ∧
      (∀ lhs rhs, StreamGoal.SameAnswers relations (.disj lhs rhs) (.disjFair lhs rhs)) ∧
      (∀ (limit fuel next : Nat) (queries : List Term) (goal : StreamGoal ι) (all : List (List Term)),
        run relations fuel 0 next queries goal = some all →
          ∃ enough, ∀ more ≥ enough, run relations more limit next queries goal =
            some (if limit = 0 then all else all.take limit)) ∧
      ∀ (limit fuel next : Nat) (queries : List Term) (goal : StreamGoal ι) (states : List State)
        (out : List (List Term)), 0 < limit → states.length = limit →
        goal.Begins relations { sub := [], count := freshStart queries, next } states →
        (states.mapM fun s => queries.mapM fun query => reify fuel query s) = some out →
          ∃ enough, ∀ more ≥ enough, run relations more limit next queries goal = some out := by
  refine ⟨StreamGoal.conde_same, StreamGoal.disj_same, ?_, ?_⟩
  · intro limit fuel next queries goal all ran
    obtain ⟨stream, started, ran⟩ := Option.bind_eq_some_iff.mp ran
    obtain ⟨states, pulled, rows⟩ := Option.bind_eq_some_iff.mp ran
    split
    · rename_i unlimited
      subst unlimited
      exact run_ends started pulled rows
    · rename_i limited
      obtain ⟨m, taken⟩ := Stream.pull_take (Stream.gives_of_pull pulled) (Nat.pos_of_ne_zero limited)
      exact run_ends started taken (mapM_take rows limit)
  · intro limit fuel next queries goal states out limited count begins rows
    obtain ⟨n, stream, started, begins⟩ := begins
    obtain ⟨m, taken⟩ := Stream.pull_begins begins limited (by omega)
    exact run_ends started taken rows

/-- A goal with two answers, of which a run with limit one takes the first. -/
theorem fair_agrees_two_texts :
    let relations : Unit → List Term → StreamGoal Unit := fun _ _ => .fail
    let x : Term := .var ⟨0, false⟩ 0
    let goal : StreamGoal Unit :=
      .disjFair (.equal x (.text ⟨1, false⟩ [97])) (.equal x (.text ⟨2, false⟩ [98]))
    run relations 6 0 3 [x] goal = some [[.text ⟨1, false⟩ [97]], [.text ⟨2, false⟩ [98]]] ∧
      ∃ enough, ∀ more ≥ enough, run relations more 1 3 [x] goal = some [[.text ⟨1, false⟩ [97]]] := by
  intro relations x goal
  have all : run relations 6 0 3 [x] goal =
    some [[.text ⟨1, false⟩ [97]], [.text ⟨2, false⟩ [98]]] := by with_unfolding_all rfl
  exact ⟨all, (fair_agrees relations).2.2.1 1 6 3 [x] goal _ all⟩

/-- A limit of zero takes every answer, and not the first none of them. -/
theorem run_unlimited_takes_all :
    ¬∀ (limit fuel next : Nat) (queries : List Term) (goal : StreamGoal Unit) (all : List (List Term)),
      run (fun _ _ => .fail) fuel 0 next queries goal = some all →
        ∃ enough, ∀ more ≥ enough,
          run (fun _ _ => .fail) more limit next queries goal = some (all.take limit) := by
  intro first
  have all : run (fun (_ : Unit) _ => .fail) 3 0 0 [] .succeed = some [[]] := rfl
  obtain ⟨enough, ran⟩ := first 0 3 0 [] .succeed _ all
  -- Three units of fuel are enough for the whole run, and more give the same answer.
  have step (fuel) := @run_mono Unit (fun _ _ => .fail) fuel 0 0 [] .succeed
  have larger := Approximates.of_succ step (Nat.le_max_right enough 3) _ all
  rw [ran _ (Nat.le_max_left enough 3)] at larger
  cases larger

end AgentC.Kanren

import AgentC.Kanren.Fresh
import AgentC.Kanren.LogicSpec

/-! The variables of a query are kept apart from those that its search introduces. -/

namespace AgentC.Kanren

open SpecValue

namespace LogicQuery

def initial (query : LogicQuery) : State where
  sub := []
  count := freshStart query.queries
  next := query.next

def Names (query : LogicQuery) (id : Int) : Prop :=
  ∃ name node, query.vars.lookup name = some (.var node id)

def Apart (query : LogicQuery) : Prop :=
  ∀ id, query.goal.Introduces relations query.initial id → ¬ query.Names id

/-- Two queries have the same answers for every term that both of them ask for. -/
def Agrees (query other : LogicQuery) : Prop :=
  ∀ fuel fuel' rows rows', query.answers fuel = some rows → other.answers fuel' = some rows' →
    ∀ (i j : Nat) (x : Term), query.queries[i]? = some x → other.queries[j]? = some x →
      rows.map (·[i]?) = rows'.map (·[j]?)

def Dominated (query : LogicQuery) : Prop :=
  (∀ id, query.Names id → id < freshStart query.queries) ∨ query.goal.Closed

variable {query : LogicQuery}

theorem Dominated.apart (dominated : query.Dominated) : query.Apart := by
  intro id introduces names
  rcases dominated with before | closed
  · have after : freshStart query.queries ≤ id := introduces.count_le
    have named := before id names
    omega
  · exact closed.introduces query.initial id introduces

theorem answers_eq {fuel : Nat} {rows : List (List Term)} (ended : query.answers fuel = some rows) :
    ∃ stream states, Stream.start relations fuel query.goal query.initial = some stream ∧
      Stream.pull relations query.limit fuel 0 stream = some states ∧
      ∀ (i : Nat) (x : Term), query.queries[i]? = some x →
        rows.map (·[i]?) = states.map (reify fuel x) := by
  obtain ⟨stream, started, rest⟩ := Option.bind_eq_some_iff.mp ended
  obtain ⟨states, pulled, reified⟩ := Option.bind_eq_some_iff.mp rest
  exact ⟨stream, states, started, pulled, fun i x asked => mapM_column asked reified⟩

theorem answers_mono (query : LogicQuery) (fuel : Nat) :
    Approximates (query.answers fuel) (query.answers (fuel + 1)) :=
  run_mono fuel query.limit query.next query.queries query.goal

theorem reify_alike {s t : State} (alike : s.Alike t) (fuel : Nat) (x : Term) :
    reify fuel x s = reify fuel x t := by
  rw [alike]
  rfl

theorem reify_lists {states states' : List State} (alike : List.Forall₂ State.Alike states states')
    (fuel : Nat) (x : Term) : states.map (reify fuel x) = states'.map (reify fuel x) := by
  induction alike with
  | nil => rfl
  | cons first _ ih => rw [List.map_cons, List.map_cons, ih, reify_alike first]

theorem streams_alike {other : LogicQuery} (goal : query.goal = other.goal)
    (next : query.next = other.next)
    (same : freshStart query.queries = freshStart other.queries ∨ query.goal.Closed) {fuel : Nat}
    {stream stream' : Stream Relation}
    (started : Stream.start relations fuel query.goal query.initial = some stream)
    (started' : Stream.start relations fuel other.goal other.initial = some stream') :
    stream = stream' ∨ Stream.Alike stream stream' := by
  rcases same with counters | closed
  · have initial : query.initial = other.initial := by
      unfold LogicQuery.initial
      rw [counters, next]
    rw [initial, goal, started'] at started
    exact Or.inl (Option.some.inj started).symm
  · have alike : query.initial.Alike other.initial := by
      unfold LogicQuery.initial State.Alike State.recount
      rw [next]
    rw [← goal] at started'
    have streams := @Stream.start_alike _ relations fuel _ closed _ _ alike
    rw [started, started'] at streams
    cases streams with
    | some streams => exact Or.inr streams

theorem agrees_of_same {other : LogicQuery} (goal : query.goal = other.goal)
    (next : query.next = other.next) (limit : query.limit = other.limit)
    (same : freshStart query.queries = freshStart other.queries ∨ query.goal.Closed) :
    query.Agrees other := by
  intro fuel fuel' rows rows' ended ended' i j x asked asked'
  -- Both runs end with the larger amount of fuel as well.
  have long := Approximates.of_succ query.answers_mono (Nat.le_max_left fuel fuel') rows ended
  have long' := Approximates.of_succ other.answers_mono (Nat.le_max_right fuel fuel') rows' ended'
  obtain ⟨stream, states, started, pulled, columns⟩ := answers_eq long
  obtain ⟨stream', states', started', pulled', columns'⟩ := answers_eq long'
  rw [columns i x asked, columns' j x asked']
  rw [← limit] at pulled'
  rcases streams_alike goal next same started started' with rfl | alike
  · rw [pulled] at pulled'
    rw [Option.some.inj pulled']
  · have lists := @Stream.pull_alike _ relations query.limit (max fuel fuel') 0 _ _ alike
    rw [pulled, pulled'] at lists
    cases lists with
    | some lists => exact reify_lists lists _ x

end LogicQuery

/-- Queries that have the same under every name but `results`. -/
def SameButResults (fields fields' : List (String × SpecValue)) : Prop :=
  ∀ name, name ≠ "results" → namedValue fields name = namedValue fields' name

variable {text text' : Option (List UInt8)} {fields fields' : List (String × SpecValue)}
  {query other : LogicQuery} {vars : LogicVars}

theorem readQuery_eq_ok (read : readQuery (.value text fields) = .ok query) :
    freshVars (listValues (namedValue fields "fresh")) 0 = .ok query.vars ∧
      buildLogicGoal query.vars fields (listValues (namedValue fields "fresh")).length =
        .ok (query.goal, query.next) ∧
      query.queries =
        (logicTermsFromSpec query.vars (listValues (namedValue fields "results")) query.next).1 ∧
      query.limit = queryLimit fields := by
  unfold readQuery at read
  simp only at read
  cases vars : freshVars (listValues (namedValue fields "fresh")) 0 with
  | error error => simp [vars] at read
  | ok names =>
    rw [vars] at read
    simp only at read
    cases built : buildLogicGoal names fields (listValues (namedValue fields "fresh")).length with
    | error error => simp [built] at read
    | ok goal =>
      rw [built] at read
      simp only at read
      split at read
      · cases read
      · obtain rfl := Except.ok.inj read
        exact ⟨rfl, built, rfl, rfl⟩

theorem readQuery_ok {goal : LogicGoal} {next : Nat}
    (fresh : freshVars (listValues (namedValue fields "fresh")) 0 = .ok vars)
    (built : buildLogicGoal vars fields (listValues (namedValue fields "fresh")).length =
      .ok (goal, next)) (asked : (listValues (namedValue fields "results")).isEmpty = false) :
    readQuery (.value text fields) = .ok
      { vars, goal, next
        queries := (logicTermsFromSpec vars (listValues (namedValue fields "results")) next).1
        limit := queryLimit fields } := by
  unfold readQuery
  simp only [fresh, built, asked, Bool.false_eq_true, if_false]

/-- The goal is built from what stands under `conde` and `where`. -/
theorem buildLogicGoal_same {next : Nat} {built built' : LogicGoal × Nat}
    (same : SameButResults fields fields') (ok : buildLogicGoal vars fields next = .ok built)
    (ok' : buildLogicGoal vars fields' next = .ok built') : built = built' := by
  have source : querySource fields = querySource fields' := by
    unfold querySource
    rw [same "conde" (by decide), same "where" (by decide)]
  simp only [buildLogicGoal, ← source] at ok ok'
  split at ok
  · cases ok
  · rename_i filled
    rw [if_neg filled] at ok'
    exact Except.ok.inj (ok.symm.trans ok')

theorem readQuery_same (same : SameButResults fields fields')
    (read : readQuery (.value text fields) = .ok query)
    (read' : readQuery (.value text' fields') = .ok other) :
    query.vars = other.vars ∧ query.goal = other.goal ∧ query.next = other.next ∧
      query.limit = other.limit := by
  obtain ⟨vars, built, -, limit⟩ := readQuery_eq_ok read
  obtain ⟨vars', built', -, limit'⟩ := readQuery_eq_ok read'
  rw [← same "fresh" (by decide)] at vars' built'
  have names : query.vars = other.vars := Except.ok.inj (vars.symm.trans vars')
  rw [← names] at built'
  have goals := buildLogicGoal_same same built built'
  refine ⟨names, congrArg Prod.fst goals, congrArg Prod.snd goals, ?_⟩
  rw [limit, limit']
  unfold queryLimit
  rw [same "limit" (by decide)]

def Known (vars : LogicVars) (id : Int) : Prop :=
  id = -1 ∨ ∃ name node, vars.lookup name = some (.var node id)

theorem Known.max {id other : Int} (first : Known vars id) (second : Known vars other) :
    Known vars (max id other) := by
  rcases le_total id other with le | le
  · rw [max_eq_right le]
    exact second
  · rw [max_eq_left le]
    exact first

mutual

theorem logicTermFromSpec_known {vars : LogicVars}
    (all : ∀ name term, vars.lookup name = some term → ∃ node id, term = .var node id) :
    ∀ (value : SpecValue) (next : Nat),
      Known vars (maxLogicVarId (logicTermFromSpec vars value next).1)
  | .list children, next => pairList_known all children next
  | .value text fields, next => by
    rw [logicTermFromSpec]
    cases SpecValue.valueToString (.value text fields) with
    | none => exact dictFromSpec_known all fields (next + 1)
    | some text =>
      simp only
      cases found : vars.lookup text with
      | none => exact Or.inl rfl
      | some term =>
        obtain ⟨node, id, rfl⟩ := all text term found
        exact Or.inr ⟨text, node, found⟩

theorem pairList_known {vars : LogicVars}
    (all : ∀ name term, vars.lookup name = some term → ∃ node id, term = .var node id) :
    ∀ (children : List SpecValue) (next : Nat),
      Known vars (maxLogicVarId (pairListFromJsonArray vars children next).1)
  | [], _ => Or.inl rfl
  | child :: rest, next => by
    have tail := pairList_known all rest next
    have head := logicTermFromSpec_known all child
      ((pairListFromJsonArray vars rest next).2 + 1)
    exact tail.max (head.max (Or.inl rfl))

theorem dictFromSpec_known {vars : LogicVars}
    (all : ∀ name term, vars.lookup name = some term → ∃ node id, term = .var node id) :
    ∀ (fields : List (String × SpecValue)) (next : Nat),
      Known vars (maxLogicVarIdFields (dictFromSpec vars fields next).1)
  | [], _ => Or.inl rfl
  | (name, child) :: rest, next => by
    have first := logicTermFromSpec_known all child next
    have others := dictFromSpec_known all rest (logicTermFromSpec vars child next).2
    rw [dictFromSpec]
    show Known vars (maxLogicVarIdFields (if _ then _ else _))
    split
    · exact others
    · exact first.max others

end

theorem logicTermsFromSpec_known
    (all : ∀ name term, vars.lookup name = some term → ∃ node id, term = .var node id) :
    ∀ (values : List SpecValue) (next : Nat),
      ∀ term ∈ (logicTermsFromSpec vars values next).1, Known vars (maxLogicVarId term)
  | [], _ => List.forall_mem_nil _
  | entry :: rest, next => by
    rw [logicTermsFromSpec]
    exact List.forall_mem_cons.mpr ⟨logicTermFromSpec_known all entry next,
      logicTermsFromSpec_known all rest _⟩

/-- What `fresh` declares are variables. -/
theorem freshVars_var : ∀ {entries : List SpecValue} {i : Nat} {vars : LogicVars},
    freshVars entries i = .ok vars →
      ∀ name term, vars.lookup name = some term → ∃ node id, term = .var node id
  | [], _, vars, read, name, term, found => by
    cases read
    cases found
  | entry :: rest, i, vars, read, name, term, found => by
    unfold freshVars at read
    cases own : entry.valueToString with
    | none => simp [own] at read
    | some first =>
      rw [own] at read
      simp only at read
      cases others : freshVars rest (i + 1) with
      | error error => simp [others, Except.map] at read
      | ok more =>
        rw [others] at read
        obtain rfl := Except.ok.inj read
        rw [List.lookup_cons] at found
        split at found
        · exact ⟨_, _, (Option.some.inj found).symm⟩
        · exact freshVars_var others name term found

theorem freshStart_known : ∀ {queries : List Term},
    (∀ query ∈ queries, Known vars (maxLogicVarId query)) → Known vars (freshStart queries - 1) := by
  intro queries known
  unfold freshStart
  rw [Int.add_sub_cancel]
  -- The maximum is taken from the left, starting with -1.
  suffices every : ∀ (ids : List Int) (start : Int), Known vars start →
      (∀ id ∈ ids, Known vars id) → Known vars (ids.foldl max start) from
    every _ _ (Or.inl rfl) fun id member => by
      obtain ⟨query, asked, rfl⟩ := List.mem_map.mp member
      exact known query asked
  intro ids
  induction ids with
  | nil => exact fun start known _ => known
  | cons id rest ih =>
    intro start first each
    obtain ⟨own, others⟩ := List.forall_mem_cons.mp each
    exact ih _ (first.max own) others

theorem freshStart_nonneg (queries : List Term) : 0 ≤ freshStart queries := by
  unfold freshStart
  suffices every : ∀ (ids : List Int) (start : Int), -1 ≤ start → -1 ≤ ids.foldl max start by
    have least := every (queries.map maxLogicVarId) (-1) le_rfl
    omega
  intro ids
  induction ids with
  | nil => exact fun start le => le
  | cons id rest ih => exact fun start le => ih _ (le.trans (le_max_left _ _))

theorem readQuery_known (read : readQuery (.value text fields) = .ok query) :
    freshStart query.queries = 0 ∨ query.Names (freshStart query.queries - 1) := by
  obtain ⟨vars, -, queries, -⟩ := readQuery_eq_ok read
  have known : Known query.vars (freshStart query.queries - 1) := by
    rw [queries]
    exact freshStart_known (logicTermsFromSpec_known (freshVars_var vars) _ _)
  rcases known with none | named
  · exact Or.inl (by omega)
  · exact Or.inr named

theorem dominated_same (same : SameButResults fields fields')
    (read : readQuery (.value text fields) = .ok query)
    (read' : readQuery (.value text' fields') = .ok other) (dominated : query.Dominated)
    (dominated' : other.Dominated) :
    freshStart query.queries = freshStart other.queries ∨ query.goal.Closed := by
  obtain ⟨vars, goal, -, -⟩ := readQuery_same same read read'
  have names : ∀ id, query.Names id ↔ other.Names id := by
    intro id
    unfold LogicQuery.Names
    rw [vars]
  rcases dominated with before | closed
  · rcases dominated' with before' | closed'
    · -- Each counter starts behind every named variable, so behind the one the other follows.
      have nonneg := freshStart_nonneg query.queries
      have nonneg' := freshStart_nonneg other.queries
      have le : freshStart other.queries ≤ freshStart query.queries := by
        rcases readQuery_known read' with zero | named
        · omega
        · have last := before _ ((names _).mpr named)
          omega
      have ge : freshStart query.queries ≤ freshStart other.queries := by
        rcases readQuery_known read with zero | named
        · omega
        · have last := before' _ ((names _).mp named)
          omega
      exact Or.inl (le_antisymm ge le)
    · rw [goal]
      exact Or.inr closed'
  · exact Or.inr closed

theorem dominated_agrees (same : SameButResults fields fields')
    (read : readQuery (.value text fields) = .ok query)
    (read' : readQuery (.value text' fields') = .ok other) (dominated : query.Dominated)
    (dominated' : other.Dominated) : query.Agrees other := by
  obtain ⟨-, goal, next, limit⟩ := readQuery_same same read read'
  exact LogicQuery.agrees_of_same goal next limit
    (dominated_same same read read' dominated dominated')

def word (text : List UInt8) : SpecValue :=
  .value (some text) []

/-- A query that takes the head of a pair of two strings. -/
def headoQuery (names : List (List UInt8)) (results : List SpecValue) : SpecValue :=
  .value none [("fresh", .list (names.map word)), ("results", .list results),
    ("where", .list [.list [word (ascii "heado"), word (ascii "p"), word (ascii "h")]])]

theorem freshVars_words : ∀ {names : List (List UInt8)} (i : Nat), [] ∉ names → names.Nodup →
    ∃ vars, freshVars (names.map word) i = .ok vars ∧
      (∀ name node id, vars.lookup name = some (.var node id) →
        name ∈ names ∧ ∃ k, k < names.length ∧ id = (i + k : Nat)) ∧
      ∀ k, k < names.length → ∃ name node, vars.lookup name = some (.var node (i + k : Nat))
  | [], i, _, _ => by
    refine ⟨[], rfl, fun _ _ _ found => ?_, fun _ below => ?_⟩
    · cases found
    · cases below
  | name :: rest, i, named, nodup => by
    obtain ⟨new, nodup⟩ := List.nodup_cons.mp nodup
    obtain ⟨filled, named⟩ := not_or.mp (List.mem_cons.not.mp named)
    obtain ⟨vars, read, within, each⟩ := freshVars_words (i + 1) named nodup
    have text : (word name).valueToString = some name := by
      cases name with
      | nil => exact absurd rfl filled
      | cons => rfl
    refine ⟨(name, .var ⟨i, false⟩ i) :: vars, ?_, fun other node id found => ?_, fun k below => ?_⟩
    · rw [List.map_cons, freshVars, text]
      simp only [read]
      rfl
    · rw [List.lookup_cons] at found
      split at found
      · rename_i same
        cases found
        exact ⟨List.mem_cons.mpr (Or.inl (eq_of_beq same)), 0, Nat.succ_pos _, rfl⟩
      · obtain ⟨member, k, below, rfl⟩ := within other node id found
        exact ⟨List.mem_cons_of_mem _ member, k + 1, Nat.succ_lt_succ below, by omega⟩
    · cases k with
      | zero => exact ⟨name, ⟨i, false⟩, by rw [List.lookup_cons_self]; rfl⟩
      | succ k =>
        obtain ⟨other, node, found⟩ := each k (Nat.lt_of_succ_lt_succ below)
        -- The name is another one, for it is declared later.
        have apart : (other == name) = false := by
          apply beq_false_of_ne
          rintro rfl
          exact new (within other _ _ found).1
        refine ⟨other, node, ?_⟩
        rw [List.lookup_cons, apart]
        simp only
        rw [found]
        congr 2
        omega

theorem headoQuery_apart {names : List (List UInt8)} {results : List SpecValue} (named : [] ∉ names)
    (nodup : names.Nodup) (asked : results ≠ []) :
    ∃ query, readQuery (headoQuery names results) = .ok query ∧
      (query.Apart ↔ ∀ id, query.Names id → id < freshStart query.queries) := by
  obtain ⟨vars, read, numbered, each⟩ := freshVars_words 0 named nodup
  have filled : results.isEmpty = false := by
    cases results with
    | nil => exact absurd rfl asked
    | cons => rfl
  -- The pattern of the source's atoms is read case by case.
  have built : ∃ pair head next, buildLogicGoal vars
      [("fresh", .list (names.map word)), ("results", .list results),
        ("where", .list [.list [word (ascii "heado"), word (ascii "p"), word (ascii "h")]])]
      (names.map word).length = .ok (.conde [[heado pair head]], next) :=
    ⟨_, _, _, rfl⟩
  obtain ⟨pair, head, next, built⟩ := built
  let query : LogicQuery :=
    { vars, next, goal := .conde [[heado pair head]], limit := 0
      queries := (logicTermsFromSpec vars results next).1 }
  refine ⟨query, ?_, fun apart id names => ?_, fun before => ?_⟩
  · exact readQuery_ok read built filled
  · by_contra behind
    have start := freshStart_nonneg query.queries
    -- The first fresh variable is introduced at once, and has a name as well.
    have introduced : query.goal.Introduces relations query.initial (freshStart query.queries) :=
      .clause List.mem_cons_self .here
    obtain ⟨name, node, found⟩ := names
    obtain ⟨-, place, below, rfl⟩ := numbered name node id found
    obtain ⟨name, node, found⟩ := each (freshStart query.queries).toNat (by omega)
    refine apart _ introduced ⟨name, node, ?_⟩
    rw [found]
    congr 2
    omega
  · exact LogicQuery.Dominated.apart (Or.inl before)

/--
Evaluation is scope-safe when the results mention the last variable there is, or nothing is fresh.

For queries that take the head of a pair this is also the only way to be safe.
-/
theorem scopeSafe_of_dominated (text text' : Option (List UInt8))
    (fields fields' : List (String × SpecValue)) (query other : LogicQuery)
    (names : List (List UInt8)) (results : List SpecValue) :
    (SameButResults fields fields' → readQuery (.value text fields) = .ok query →
      readQuery (.value text' fields') = .ok other → query.Dominated →
      query.Apart ∧ (other.Dominated → query.Agrees other)) ∧
    ([] ∉ names → names.Nodup → results ≠ [] →
      ∃ query, readQuery (headoQuery names results) = .ok query ∧
        (query.Apart ↔ ∀ id, query.Names id → id < freshStart query.queries)) := by
  refine ⟨?_, fun named nodup asked => headoQuery_apart named nodup asked⟩
  intro same read read' dominated
  exact ⟨dominated.apart, fun dominated' => dominated_agrees same read read' dominated dominated'⟩

def memberQuery (results : List SpecValue) : List (String × SpecValue) :=
  [("fresh", .list [word (ascii "q"), word (ascii "x")]), ("results", .list results),
    ("where", .list [.list [word (ascii "=="), word (ascii "x"), word (ascii "a")],
      .list [word (ascii "membero"), word (ascii "q"), .list [word (ascii "b"), word (ascii "c")]]])]

theorem memberQuery_names (results : List SpecValue) {id : Int}
    (read : readQuery (.value none (memberQuery results)) = .ok query) (names : query.Names id) :
    id < 2 := by
  obtain ⟨vars, -⟩ := readQuery_eq_ok read
  have known : query.vars = [(ascii "q", .var ⟨0, false⟩ 0), (ascii "x", .var ⟨1, false⟩ 1)] :=
    (Except.ok.inj vars).symm
  obtain ⟨name, node, found⟩ := names
  rw [known, List.lookup_cons] at found
  split at found
  · cases found
    omega
  · rw [List.lookup_cons] at found
    split at found
    · cases found
      omega
    · cases found

/-- Asking for the second variable is safe, whether or not the first one is asked for as well. -/
theorem scopeSafe_memberQuery :
    ∃ query other, readQuery (.value none (memberQuery [word (ascii "x")])) = .ok query ∧
      readQuery (.value none (memberQuery [word (ascii "q"), word (ascii "x")])) = .ok other ∧
      query.Apart ∧ query.Agrees other := by
  have same : SameButResults (memberQuery [word (ascii "x")])
      (memberQuery [word (ascii "q"), word (ascii "x")]) := by
    intro name other
    unfold namedValue memberQuery
    simp only [List.lookup_cons]
    rw [beq_false_of_ne other]
  have safe := (scopeSafe_of_dominated none none _ _ _ _ [] []).1 same rfl rfl
    (Or.inl fun _ names => memberQuery_names [word (ascii "x")] rfl names)
  exact ⟨_, _, rfl, rfl, safe.1,
    safe.2 (Or.inl fun _ names => memberQuery_names [word (ascii "q"), word (ascii "x")] rfl names)⟩

theorem introduces_after_equal (fuel : Nat) {u v : Term} {body : Term → LogicGoal} {s t : State}
    (unified : unify fuel s u v = some (some t)) :
    StreamGoal.Introduces relations (.clauses false [.conj (.equal u v) (.callFresh body)]) s
      s.count := by
  rw [← unify_count unified]
  exact .clause List.mem_cons_self (.second (.equal unified) .here)

/-- It finds both members when it asks for both variables, and none when it asks for one. -/
theorem scopeSafe_fails :
    ∃ query other, SameButResults (memberQuery [word (ascii "q")])
        (memberQuery [word (ascii "q"), word (ascii "x")]) ∧
      readQuery (.value none (memberQuery [word (ascii "q")])) = .ok query ∧
      readQuery (.value none (memberQuery [word (ascii "q"), word (ascii "x")])) = .ok other ∧
      ¬ query.Apart ∧ ¬ query.Agrees other := by
  refine ⟨_, _, fun name other => ?_, rfl, rfl, fun apart => ?_, fun agrees => ?_⟩
  · unfold namedValue memberQuery
    simp only [List.lookup_cons]
    rw [beq_false_of_ne other]
  · -- The first fresh variable has the number of the second named one.
    exact apart _ (introduces_after_equal 2 rfl) ⟨ascii "x", _, rfl⟩
  · have differs := agrees 40 40 [] _ rfl rfl 0 0 _ rfl rfl
    cases differs

end AgentC.Kanren

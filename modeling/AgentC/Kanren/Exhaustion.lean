import AgentC.Kanren.Streams
import AgentC.Library.Related

/-! Streams that are pulled to their end: their answers until then, and that none comes after it. -/

namespace AgentC.Kanren

variable {ι : Type} (relations : ι → List Term → StreamGoal ι)

namespace Stream

/-- A stream that has come to its end. The number bounds what asking it once more takes. -/
inductive Ended : Nat → Stream ι → Prop where
  | ready {n : Nat} : Ended (n + 1) (.ready [])
  | disj {n : Nat} {left right : Stream ι} (ended : Ended n right) :
      Ended (n + 1) (.disj left right false)
  | conj {n : Nat} {left : Stream ι} {rhs : StreamGoal ι} (ended : Ended n left) :
      Ended (n + 1) (.conj left rhs)
  | plain {n : Nat} {streams : List (Stream ι)} {index : Nat} (passed : streams[index]? = none) :
      Ended (n + 1) (.clauses false streams index)
  | fair {n : Nat} {streams : List (Stream ι)} {index : Nat}
      (ended : ∀ stream ∈ streams, Ended n stream) : Ended (n + 1) (.clauses true streams index)

/-- The first answers of a stream, in order. -/
inductive Begins : Stream ι → List State → Prop where
  | nothing {stream : Stream ι} : Begins stream []
  | more {stream rest : Stream ι} {s : State} {states : List State} {fuel : Nat}
      (found : next relations fuel stream = some (some s, rest)) (later : Begins rest states) :
      Begins stream (s :: states)

/-- All the answers of a stream that ends, in order. -/
inductive Gives : Stream ι → List State → Prop where
  | done {stream rest : Stream ι} {fuel : Nat}
      (ended : next relations fuel stream = some (none, rest)) : Gives stream []
  | more {stream rest : Stream ι} {s : State} {states : List State} {fuel : Nat}
      (found : next relations fuel stream = some (some s, rest)) (later : Gives rest states) :
      Gives stream (s :: states)

variable {relations}

variable {n m : Nat} {stream : Stream ι} {one : Stream ι → Option (Option State × Stream ι)}
  {states : List State}

theorem next_unique {first second : Option State × Stream ι}
    (here : next relations n stream = some first) (there : next relations m stream = some second) :
    first = second :=
  Approximates.unique (f := fun fuel => next relations fuel stream)
    (fun fuel => next_mono fuel stream) here there

theorem next_more (le : n ≤ m) (stream : Stream ι) :
    Approximates (next relations n stream) (next relations m stream) :=
  Approximates.of_succ (fun fuel => next_mono fuel stream) le

theorem poll_cases {left index : Nat} {streams : List (Stream ι)}
    {out : Option State × List (Stream ι) × Nat}
    (polled : poll one (left + 1) streams index = some out) :
    (streams[index % streams.length]? = none ∧ out = (none, streams, index)) ∨
      ∃ stream answer rest, streams[index % streams.length]? = some stream ∧
        one stream = some (answer, rest) ∧
        ((∃ s, answer = some s ∧
            out = (some s, streams.set (index % streams.length) rest, index + 1)) ∨
          (answer = none ∧
            poll one left (streams.set (index % streams.length) rest) (index + 1) = some out)) := by
  unfold poll at polled
  cases at_ : streams[index % streams.length]? with
  | none =>
    rw [at_] at polled
    exact .inl ⟨rfl, (Option.some.inj polled).symm⟩
  | some stream =>
    rw [at_] at polled
    obtain ⟨⟨answer, rest⟩, asked, polled⟩ := Option.bind_eq_some_iff.mp polled
    refine .inr ⟨stream, answer, rest, rfl, asked, ?_⟩
    cases answer with
    | some s => exact .inl ⟨s, rfl, (Option.some.inj polled).symm⟩
    | none => exact .inr ⟨rfl, polled⟩

theorem Ended.mono (ended : Ended n stream) (le : n ≤ m) :
    Ended m stream := by
  induction ended generalizing m with
  | ready =>
    obtain ⟨m, rfl⟩ := Nat.exists_eq_add_of_le' (show 1 ≤ m by omega)
    exact .ready
  | disj _ ih =>
    obtain ⟨m, rfl⟩ := Nat.exists_eq_add_of_le' (show 1 ≤ m by omega)
    exact .disj (ih (by omega))
  | conj _ ih =>
    obtain ⟨m, rfl⟩ := Nat.exists_eq_add_of_le' (show 1 ≤ m by omega)
    exact .conj (ih (by omega))
  | plain passed =>
    obtain ⟨m, rfl⟩ := Nat.exists_eq_add_of_le' (show 1 ≤ m by omega)
    exact .plain passed
  | fair _ ih =>
    obtain ⟨m, rfl⟩ := Nat.exists_eq_add_of_le' (show 1 ≤ m by omega)
    exact .fair fun stream member => ih stream member (by omega)

theorem poll_ended
    (quiet : ∀ stream, Ended n stream → ∃ rest, one stream = some (none, rest) ∧ Ended n rest) :
    ∀ (left : Nat) (streams : List (Stream ι)) (index : Nat),
      (∀ stream ∈ streams, Ended n stream) →
        ∃ streams' index', poll one left streams index = some (none, streams', index') ∧
          ∀ stream ∈ streams', Ended n stream := by
  intro left
  induction left with
  | zero => exact fun streams index ended => ⟨streams, index, rfl, ended⟩
  | succ left ih =>
    intro streams index ended
    unfold poll
    cases at_ : streams[index % streams.length]? with
    | none => exact ⟨streams, index, rfl, ended⟩
    | some stream =>
      obtain ⟨rest, asked, still⟩ := quiet stream (ended _ (List.mem_of_getElem? at_))
      simp only [asked, Option.bind_some]
      -- The stream that was asked is replaced by one that has ended as well.
      refine ih _ _ fun other member => ?_
      rcases List.mem_or_eq_of_mem_set member with old | rfl
      · exact ended other old
      · exact still

theorem Ended.next_eq : ∀ {stream : Stream ι}, Ended n stream →
    ∃ rest, next relations n stream = some (none, rest) ∧ Ended n rest := by
  induction n with
  | zero => intro stream ended; cases ended
  | succ n ih =>
    intro stream ended
    cases ended with
    | ready => exact ⟨_, rfl, .ready⟩
    | disj ended =>
      obtain ⟨rest, asked, still⟩ := ih ended
      exact ⟨_, by rw [next, asked]; rfl, .disj still⟩
    | conj ended =>
      obtain ⟨rest, asked, still⟩ := ih ended
      exact ⟨_, by rw [next, asked]; rfl, .conj still⟩
    | plain passed => exact ⟨_, by rw [next, passed], .plain passed⟩
    | fair ended =>
      obtain ⟨streams', index', polled, still⟩ := poll_ended (fun _ => ih) _ _ _ ended
      exact ⟨_, by rw [next, polled]; rfl, .fair still⟩

theorem poll_passed {p : Stream ι → Prop}
    (ends : ∀ stream rest, one stream = some (none, rest) → p rest) :
    ∀ (left : Nat) (streams : List (Stream ι)) (index : Nat) (streams' : List (Stream ι)) (index' : Nat),
      poll one left streams index = some (none, streams', index') →
        streams'.length = streams.length ∧
          ∀ (i : Nat), ((∀ stream, streams[i]? = some stream → p stream) ∨
              ∃ k < left, (index + k) % streams.length = i) →
            ∀ stream, streams'[i]? = some stream → p stream := by
  intro left
  induction left with
  | zero =>
    rintro streams index streams' index' ⟨⟩
    refine ⟨rfl, fun i asked => ?_⟩
    rcases asked with old | ⟨k, below, -⟩
    · exact old
    · omega
  | succ left ih =>
    intro streams index streams' index' polled
    rcases poll_cases polled with ⟨missing, same⟩ | ⟨stream, answer, rest, at_, asked, turn⟩
    · cases same
      -- Only an empty list has no stream to ask.
      have empty : streams.length = 0 := by
        by_contra filled
        have inside := Nat.mod_lt index (Nat.pos_of_ne_zero filled)
        rw [List.getElem?_eq_getElem inside] at missing
        cases missing
      refine ⟨rfl, fun i _ stream found => ?_⟩
      rw [List.length_eq_zero_iff.mp empty] at found
      cases found
    · rcases turn with ⟨s, rfl, same⟩ | ⟨rfl, polled⟩
      · cases same
      · obtain ⟨length, each⟩ := ih _ _ _ _ polled
        rw [List.length_set] at length each
        refine ⟨length, fun i reached => each i ?_⟩
        by_cases here : index % streams.length = i
        · -- This stream has just been asked, and is an ended one's rest.
          refine .inl fun stream found => ?_
          rw [List.getElem?_set, if_pos here] at found
          split at found
          · cases found
            exact ends _ _ asked
          · cases found
        · rcases reached with old | ⟨k, below, position⟩
          · refine .inl fun stream found => old stream ?_
            rwa [List.getElem?_set_ne here] at found
          · obtain _ | k := k
            · exact absurd position here
            · exact .inr ⟨k, by omega, by rw [← position, Nat.add_right_comm, Nat.add_assoc]⟩

theorem round_covers (index : Nat) {i : Nat} (inside : i < n) :
    ∃ k < n, (index + k) % n = i := by
  have low := Nat.mod_lt index (by omega : 0 < n)
  rcases Nat.lt_or_ge i (index % n) with before | behind
  · refine ⟨n + i - index % n, by omega, ?_⟩
    rw [← Nat.mod_add_mod, show index % n + (n + i - index % n) = i + n by omega,
      Nat.add_mod_right, Nat.mod_eq_of_lt inside]
  · refine ⟨i - index % n, by omega, ?_⟩
    rw [← Nat.mod_add_mod, show index % n + (i - index % n) = i by omega, Nat.mod_eq_of_lt inside]

theorem poll_round {p : Stream ι → Prop}
    (ends : ∀ stream rest, one stream = some (none, rest) → p rest)
    {streams streams' : List (Stream ι)} {index index' : Nat}
    (polled : poll one streams.length streams index = some (none, streams', index')) :
    ∀ stream ∈ streams', p stream := by
  obtain ⟨length, each⟩ := poll_passed ends _ _ _ _ _ polled
  intro stream member
  obtain ⟨i, inside, rfl⟩ := List.mem_iff_getElem.mp member
  exact each i (.inr (round_covers index (length ▸ inside))) _ (List.getElem?_eq_getElem inside)

theorem next_ended : ∀ {stream rest : Stream ι},
    next relations n stream = some (none, rest) → Ended n rest := by
  induction n with
  | zero => intro _ _ pulled; cases pulled
  | succ n ih =>
    intro stream rest pulled
    match stream with
    | .ready [] =>
      cases pulled
      exact .ready
    | .ready (_ :: _) => cases pulled
    | .delayed goal s =>
      obtain ⟨inner, _, pulled⟩ := Option.bind_eq_some_iff.mp pulled
      exact (ih pulled).mono (Nat.le_succ n)
    | .disj left right true =>
      obtain ⟨⟨answer, left⟩, _, pulled⟩ := Option.bind_eq_some_iff.mp pulled
      cases answer with
      | some s => cases pulled
      | none => exact (ih pulled).mono (Nat.le_succ n)
    | .disj left right false =>
      obtain ⟨⟨answer, right⟩, asked, same⟩ := Option.map_eq_some_iff.mp pulled
      cases same
      exact .disj (ih asked)
    | .conj left rhs =>
      obtain ⟨⟨answer, left⟩, asked, pulled⟩ := Option.bind_eq_some_iff.mp pulled
      cases answer with
      | none =>
        cases pulled
        exact .conj (ih asked)
      | some s =>
        obtain ⟨current, _, pulled⟩ := Option.bind_eq_some_iff.mp pulled
        exact (ih pulled).mono (Nat.le_succ n)
    | .conjOn left rhs current =>
      obtain ⟨⟨answer, current⟩, _, pulled⟩ := Option.bind_eq_some_iff.mp pulled
      cases answer with
      | some s => cases pulled
      | none => exact (ih pulled).mono (Nat.le_succ n)
    | .clauses false streams index =>
      unfold next at pulled
      cases at_ : streams[index]? with
      | none =>
        rw [at_] at pulled
        cases pulled
        exact .plain at_
      | some stream =>
        rw [at_] at pulled
        obtain ⟨⟨answer, stream⟩, _, pulled⟩ := Option.bind_eq_some_iff.mp pulled
        cases answer with
        | some s => cases pulled
        | none => exact (ih pulled).mono (Nat.le_succ n)
    | .clauses true streams index =>
      obtain ⟨⟨answer, streams', index'⟩, polled, same⟩ := Option.map_eq_some_iff.mp pulled
      cases same
      exact .fair (poll_round (fun _ _ => ih) polled)

theorem Ended.gives (ended : Ended n stream) :
    Gives relations stream states ↔ states = [] := by
  obtain ⟨rest, asked, _⟩ : ∃ rest, next relations n stream = some (none, rest) ∧ Ended n rest :=
    ended.next_eq
  refine ⟨fun given => ?_, fun none => none ▸ .done asked⟩
  cases given with
  | done => rfl
  | more found => cases next_unique asked found

theorem gives_none {rest : Stream ι} (asked : next relations n stream = some (none, rest)) :
    Gives relations stream states ↔ states = [] := by
  refine ⟨fun given => ?_, fun none => none ▸ .done asked⟩
  cases given with
  | done => rfl
  | more found => cases next_unique asked found

theorem gives_some {rest : Stream ι} {s : State}
    (asked : next relations n stream = some (some s, rest)) :
    Gives relations stream states ↔ ∃ later, states = s :: later ∧ Gives relations rest later := by
  refine ⟨fun given => ?_, fun ⟨later, same, given⟩ => same ▸ .more asked given⟩
  cases given with
  | done ended => cases next_unique asked ended
  | more found later =>
    cases next_unique asked found
    exact ⟨_, rfl, later⟩

theorem Gives.unique {first second : List State} (here : Gives relations stream first)
    (there : Gives relations stream second) :
    first = second := by
  induction here generalizing second with
  | done ended => exact ((gives_none ended).mp there).symm
  | more found _ ih =>
    obtain ⟨later, rfl, given⟩ := (gives_some found).mp there
    rw [ih given]

end Stream

end AgentC.Kanren

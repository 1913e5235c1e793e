import AgentC.Kanren.Exhaustion

/-! Disjunctions that take their clauses in order or in turn find the same answers. -/

namespace AgentC.Kanren

variable {ι : Type} {relations : ι → List Term → StreamGoal ι}

theorem set_same {α : Type} {list : List α} {i : Nat} {a : α} (here : list[i]? = some a) :
    list.set i a = list := by
  obtain ⟨inside, rfl⟩ := List.getElem?_eq_some_iff.mp here
  exact List.set_getElem_self inside

theorem perm_flatten_set {α : Type} {lists : List (List α)} {i : Nat} {first : α} {rest : List α}
    (here : lists[i]? = some (first :: rest)) :
    lists.flatten.Perm (first :: (lists.set i rest).flatten) := by
  induction lists generalizing i with
  | nil => cases here
  | cons list lists ih =>
    cases i with
    | zero =>
      cases here
      exact .refl _
    | succ i =>
      have inner := (ih here).append_left list
      exact inner.trans List.perm_middle

namespace Stream

abbrev GivesEach (relations : ι → List Term → StreamGoal ι) (streams : List (Stream ι))
    (lists : List (List State)) : Prop :=
  List.Forall₂ (Gives relations) streams lists

variable {streams : List (Stream ι)} {lists : List (List State)} {i fuel : Nat}
  {stream rest : Stream ι}

theorem GivesEach.get (each : GivesEach relations streams lists) (here : streams[i]? = some stream) :
    ∃ states, lists[i]? = some states ∧
      Gives relations stream states := by
  have related := rel_getElem? each i
  rw [here] at related
  cases found : lists[i]? with
  | none =>
    rw [found] at related
    cases related
  | some states =>
    rw [found] at related
    cases related with
    | some given => exact ⟨states, rfl, given⟩

theorem GivesEach.replace (each : GivesEach relations streams lists) {states : List State}
    (given : Gives relations rest states) (i : Nat) :
    GivesEach relations (streams.set i rest) (lists.set i states) :=
  forall₂_set each given i


theorem givesEach_none (here : streams[i]? = some stream)
    (asked : next relations fuel stream = some (none, rest)) :
    GivesEach relations streams lists ↔ GivesEach relations (streams.set i rest) lists := by
  have none_before (states) : Gives relations stream states ↔ states = [] := gives_none asked
  have none_after (states) : Gives relations rest states ↔ states = [] := (next_ended asked).gives
  constructor
  · intro each
    obtain ⟨states, at_, given⟩ := each.get here
    have replaced := each.replace ((none_after states).mpr ((none_before states).mp given)) i
    rwa [set_same at_] at replaced
  · intro each
    have inside : (streams.set i rest)[i]? = some rest := by
      rw [List.getElem?_set_self (List.getElem?_eq_some_iff.mp here).1]
    obtain ⟨states, at_, given⟩ := each.get inside
    have replaced := each.replace ((none_before states).mpr ((none_after states).mp given)) i
    rwa [set_same at_, List.set_set, set_same here] at replaced

theorem givesEach_some {s : State} (here : streams[i]? = some stream)
    (asked : next relations fuel stream = some (some s, rest)) :
    (∀ lists, GivesEach relations streams lists → ∃ later,
        GivesEach relations (streams.set i rest) later ∧
          lists.flatten.Perm (s :: later.flatten)) ∧
      ∀ later, GivesEach relations (streams.set i rest) later → ∃ lists,
        GivesEach relations streams lists ∧ lists.flatten.Perm (s :: later.flatten) := by
  constructor
  · intro lists each
    obtain ⟨states, at_, given⟩ := each.get here
    obtain ⟨later, rfl, others⟩ := (gives_some asked).mp given
    exact ⟨_, each.replace others i, perm_flatten_set at_⟩
  · intro later each
    have inside : (streams.set i rest)[i]? = some rest := by
      rw [List.getElem?_set_self (List.getElem?_eq_some_iff.mp here).1]
    obtain ⟨states, at_, given⟩ := each.get inside
    have replaced := each.replace ((gives_some asked).mpr ⟨states, rfl, given⟩) i
    rw [List.set_set, set_same here] at replaced
    refine ⟨_, replaced, ?_⟩
    -- Taking the answer out again leaves the lists as they were.
    have longer : (later.set i (s :: states))[i]? = some (s :: states) := by
      rw [List.getElem?_set_self (List.getElem?_eq_some_iff.mp at_).1]
    have taken := perm_flatten_set longer
    rwa [List.set_set, set_same at_] at taken

theorem poll_keeps : ∀ (left : Nat) (streams : List (Stream ι)) (index : Nat)
    (streams' : List (Stream ι)) (index' : Nat),
    poll (next relations fuel) left streams index = some (none, streams', index') →
      ∀ lists, GivesEach relations streams lists ↔ GivesEach relations streams' lists := by
  intro left
  induction left with
  | zero =>
    rintro streams index streams' index' ⟨⟩ lists
    exact Iff.rfl
  | succ left ih =>
    intro streams index streams' index' polled lists
    rcases poll_cases polled with ⟨-, same⟩ | ⟨stream, answer, rest, at_, asked, turn⟩
    · cases same
      exact Iff.rfl
    · rcases turn with ⟨s, -, same⟩ | ⟨rfl, polled⟩
      · cases same
      · exact (givesEach_none at_ asked).trans (ih _ _ _ _ polled lists)

theorem poll_takes {s : State} : ∀ (left : Nat) (streams : List (Stream ι))
    (index : Nat) (streams' : List (Stream ι)) (index' : Nat),
    poll (next relations fuel) left streams index = some (some s, streams', index') →
      (∀ lists, GivesEach relations streams lists → ∃ later,
          GivesEach relations streams' later ∧ lists.flatten.Perm (s :: later.flatten)) ∧
        ∀ later, GivesEach relations streams' later → ∃ lists,
          GivesEach relations streams lists ∧ lists.flatten.Perm (s :: later.flatten) := by
  intro left
  induction left with
  | zero => rintro _ _ _ _ ⟨⟩
  | succ left ih =>
    intro streams index streams' index' polled
    rcases poll_cases polled with ⟨-, same⟩ | ⟨stream, answer, rest, at_, asked, turn⟩
    · cases same
    · rcases turn with ⟨s, rfl, same⟩ | ⟨rfl, polled⟩
      · cases same
        exact givesEach_some at_ asked
      · -- The streams that end before the answer give nothing.
        have keeps (lists) : GivesEach relations streams lists ↔
          GivesEach relations (streams.set (index % streams.length) rest) lists := givesEach_none at_ asked
        obtain ⟨forth, back⟩ := ih _ _ _ _ polled
        refine ⟨fun lists each => forth lists ((keeps lists).mp each), fun later each => ?_⟩
        obtain ⟨lists, each, perm⟩ := back later each
        exact ⟨lists, (keeps lists).mpr each, perm⟩

theorem poll_ends : ∀ (left : Nat) (streams : List (Stream ι)) (index : Nat)
    (lists : List (List State)), GivesEach relations streams lists →
    ∃ fuel out, poll (next relations fuel) left streams index = some out := by
  intro left
  induction left with
  | zero => exact fun streams index _ _ => ⟨0, _, rfl⟩
  | succ left ih =>
    intro streams index lists each
    cases at_ : streams[index % streams.length]? with
    | none => exact ⟨0, _, by rw [poll, at_]⟩
    | some stream =>
      obtain ⟨states, -, given⟩ := each.get at_
      cases given with
      | @more _ rest s _ fuel found _ => exact ⟨fuel, _, by rw [poll, at_]; simp only [found]; rfl⟩
      | @done _ rest fuel ended =>
        obtain ⟨later, out, polled⟩ := ih _ (index + 1) _ ((givesEach_none at_ ended).mp each)
        -- The larger of the two bounds is enough for this stream and for the others.
        refine ⟨max fuel later, out, ?_⟩
        have asked := next_more (Nat.le_max_left fuel later) stream _ ended
        have more (other) : Approximates (next relations later other) (next relations (max fuel later) other) :=
          next_more (Nat.le_max_right fuel later) other
        have others := poll_mono more left _ _ _ polled
        rw [poll, at_]
        simpa only [asked, Option.bind_some] using others

theorem givesEach_ended {n : Nat} (ended : ∀ stream ∈ streams, Ended n stream) :
    ∃ lists, GivesEach relations streams lists ∧ lists.flatten = [] := by
  induction streams with
  | nil => exact ⟨[], .nil, rfl⟩
  | cons stream streams ih =>
    obtain ⟨lists, each, empty⟩ := ih fun other member => ended other (List.mem_cons_of_mem _ member)
    have own : Gives relations stream [] := (ended stream List.mem_cons_self).gives.mpr rfl
    exact ⟨[] :: lists, .cons own each, by rw [List.flatten_cons, empty]; rfl⟩

theorem GivesEach.unique {first second : List (List State)}
    (here : GivesEach relations streams first) (there : GivesEach relations streams second) :
    first = second := by
  induction here generalizing second with
  | nil =>
    cases there
    rfl
  | cons given _ ih =>
    cases there with
    | cons given' each => rw [given.unique given', ih each]

theorem fair_of_each (index : Nat) (each : GivesEach relations streams lists) : ∃ states,
    Gives relations (.clauses true streams index) states ∧ states.Perm lists.flatten := by
  -- The induction is on the number of answers that are still to come.
  induction count : lists.flatten.length generalizing streams lists index with
  | zero =>
    obtain ⟨fuel, ⟨answer, streams', index'⟩, polled⟩ := poll_ends streams.length _ index _ each
    have empty := List.length_eq_zero_iff.mp count
    cases answer with
    | none =>
      have pulled : next relations (fuel + 1) (.clauses true streams index) =
          some (none, .clauses true streams' index') := by
        rw [next, polled]
        rfl
      exact ⟨[], .done pulled, by rw [empty]⟩
    | some s =>
      obtain ⟨later, _, perm⟩ := (poll_takes _ _ _ _ _ polled).1 lists each
      have longer := perm.length_eq
      simp only [count, List.length_cons] at longer
      omega
  | succ more ih =>
    obtain ⟨fuel, ⟨answer, streams', index'⟩, polled⟩ := poll_ends streams.length _ index _ each
    cases answer with
    | none =>
      -- A whole round without an answer means that there was none to come.
      have ended := poll_round (fun _ _ => next_ended) polled
      obtain ⟨lists', each', empty⟩ : ∃ lists, GivesEach relations streams' lists ∧ lists.flatten = [] :=
        givesEach_ended ended
      have same := ((poll_keeps _ _ _ _ _ polled lists).mp each).unique each'
      rw [same, empty] at count
      cases count
    | some s =>
      obtain ⟨later, each', perm⟩ := (poll_takes _ _ _ _ _ polled).1 lists each
      have shorter := perm.length_eq
      rw [count, List.length_cons] at shorter
      obtain ⟨states, given, permuted⟩ := ih index' each' (by omega)
      have pulled : next relations (fuel + 1) (.clauses true streams index) =
          some (some s, .clauses true streams' index') := by
        rw [next, polled]
        rfl
      exact ⟨s :: states, .more pulled given, (permuted.cons s).trans perm.symm⟩

theorem each_of_fair {states : List State} (given : Gives relations stream states) :
    ∀ {streams : List (Stream ι)} {index : Nat}, stream = .clauses true streams index →
      ∃ lists, GivesEach relations streams lists ∧ states.Perm lists.flatten := by
  induction given with
  | @done stream rest fuel ended =>
    rintro streams index rfl
    obtain _ | fuel := fuel
    · cases ended
    obtain ⟨⟨answer, streams', index'⟩, polled, same⟩ := Option.map_eq_some_iff.mp ended
    cases same
    have quiet := poll_round (fun _ _ => next_ended) polled
    obtain ⟨lists, each, empty⟩ : ∃ lists, GivesEach relations streams' lists ∧ lists.flatten = [] :=
      givesEach_ended quiet
    exact ⟨lists, (poll_keeps _ _ _ _ _ polled lists).mpr each, by rw [empty]⟩
  | @more stream rest s states fuel found later ih =>
    rintro streams index rfl
    obtain _ | fuel := fuel
    · cases found
    obtain ⟨⟨answer, streams', index'⟩, polled, same⟩ := Option.map_eq_some_iff.mp found
    cases same
    obtain ⟨lists', each', perm'⟩ := ih rfl
    obtain ⟨lists, each, perm⟩ := (poll_takes _ _ _ _ _ polled).2 lists' each'
    exact ⟨lists, each, (perm'.cons s).trans perm.symm⟩

end Stream

end AgentC.Kanren

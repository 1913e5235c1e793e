import AgentC.Library.Latest

/-! A log that keeps its latest entries for clients that ask for what came after their position. -/

namespace AgentC

universe u v w

/-- What happens to such a log. -/
inductive Replayed (α : Type u) (γ : Type v) where
  | put (entry : α)
  | polled (client : γ) (answer : List α)

namespace Replayed

variable {α : Type u} {γ : Type v}

def puts (past : List (Replayed α γ)) : List α :=
  past.flatMap fun
    | .put entry => [entry]
    | .polled _ _ => []

variable [DecidableEq γ] (client : γ)

def received (past : List (Replayed α γ)) : List α :=
  past.flatMap fun
    | .put _ => []
    | .polled other answer => if other = client then answer else []

/-- What was put in since a client's last poll, or since the beginning. -/
def unseen (past : List (Replayed α γ)) : List α :=
  past.foldl
    (fun waiting happened =>
      match happened with
      | .put entry => waiting ++ [entry]
      | .polled other _ => if other = client then [] else waiting)
    []

def GapsFit (cap : Nat) (past : List (Replayed α γ)) : Prop :=
  ∀ front answer back, past = front ++ .polled client answer :: back →
    (unseen client front).length ≤ cap

variable {client} {past : List (Replayed α γ)} {entry : α} {answer : List α} {other : γ}

omit [DecidableEq γ] in
@[simp] theorem puts_nil : puts ([] : List (Replayed α γ)) = [] := rfl

omit [DecidableEq γ] in
@[simp] theorem puts_put : puts (past ++ [.put entry]) = puts past ++ [entry] := by
  simp [puts]

omit [DecidableEq γ] in
@[simp] theorem puts_polled : puts (past ++ [.polled other answer]) = puts past := by
  simp [puts]

@[simp] theorem received_nil : received client ([] : List (Replayed α γ)) = [] := rfl

@[simp] theorem received_put : received client (past ++ [.put entry]) = received client past := by
  simp [received]

@[simp] theorem received_polled : received client (past ++ [.polled other answer]) =
    received client past ++ if other = client then answer else [] := by
  simp [received]

@[simp] theorem unseen_nil : unseen client ([] : List (Replayed α γ)) = [] := rfl

@[simp] theorem unseen_put :
    unseen client (past ++ [.put entry]) = unseen client past ++ [entry] := by
  simp [unseen]

@[simp] theorem unseen_polled : unseen client (past ++ [.polled other answer]) =
    if other = client then [] else unseen client past := by
  simp [unseen]

theorem GapsFit.init {cap : Nat} {last : Replayed α γ} (fit : GapsFit client cap (past ++ [last])) :
    GapsFit client cap past := by
  intro front answer back split
  refine fit front answer (back ++ [last]) ?_
  rw [split, List.append_assoc, List.cons_append]

theorem GapsFit.last {cap : Nat}
    (fit : GapsFit client cap (past ++ [.polled client answer])) :
    (unseen client past).length ≤ cap :=
  fit past answer [] rfl

end Replayed

section Serves

variable {α : Type u} {γ : Type v} {κ : Type w} [DecidableEq γ] [LinearOrder κ]

/--
A log is kept right: its entries rise, and for each client what it has seen ends where the rest
begins. `low` is below all entries, and `high` is where the next one has to be above.
-/
structure Serves (key : α → κ) (cap : Nat) (low high : κ) (kept : List α) (since : γ → κ)
    (past : List (Replayed α γ)) : Prop where
  kept_eq : kept = dropOldest cap (Replayed.puts past)
  rising : (Replayed.puts past).Pairwise (key · < key ·)
  above : ∀ entry ∈ Replayed.puts past, low < key entry
  below : ∀ entry ∈ Replayed.puts past, key entry ≤ high
  reached : ∀ client, since client ≤ high
  split : ∀ client, ∃ seen, Replayed.puts past = seen ++ Replayed.unseen client past ∧
    (∀ entry ∈ seen, key entry ≤ since client) ∧
    (∀ entry ∈ Replayed.unseen client past, since client < key entry) ∧
    (Replayed.GapsFit client cap past → Replayed.received client past = seen)

namespace Serves

variable {key : α → κ} {cap : Nat} {low high : κ} {kept : List α} {since : γ → κ}
  {past : List (Replayed α γ)}

theorem nil (start : low ≤ high) : Serves key cap low high [] (fun _ : γ => low) [] where
  kept_eq := by simp [dropOldest]
  rising := .nil
  above := fun _ member => absurd member List.not_mem_nil
  below := fun _ member => absurd member List.not_mem_nil
  reached := fun _ => start
  split := fun _ =>
    ⟨[], rfl, fun _ member => absurd member List.not_mem_nil,
      fun _ member => absurd member List.not_mem_nil, fun _ => rfl⟩

theorem raise (serves : Serves key cap low high kept since past) {higher : κ}
    (le : high ≤ higher) : Serves key cap low higher kept since past :=
  { serves with
    below := fun entry member => le_trans (serves.below entry member) le
    reached := fun client => le_trans (serves.reached client) le }

theorem put (serves : Serves key cap low high kept since past) {entry : α}
    (start : low ≤ high) (above : high < key entry) :
    Serves key cap low (key entry) (dropOldest cap (kept ++ [entry])) since
      (past ++ [.put entry]) where
  kept_eq := by
    rw [serves.kept_eq, Replayed.puts_put, dropOldest_dropOldest_append]
  rising := by
    rw [Replayed.puts_put]
    refine List.pairwise_append.mpr ⟨serves.rising, List.pairwise_singleton .., ?_⟩
    intro earlier member later single
    rw [List.mem_singleton.mp single]
    exact lt_of_le_of_lt (serves.below earlier member) above
  above := by
    intro other member
    rw [Replayed.puts_put] at member
    rcases List.mem_append.mp member with before | single
    · exact serves.above other before
    · rw [List.mem_singleton.mp single]
      exact lt_of_le_of_lt start above
  below := by
    intro other member
    rw [Replayed.puts_put] at member
    rcases List.mem_append.mp member with before | single
    · exact le_trans (serves.below other before) (le_of_lt above)
    · rw [List.mem_singleton.mp single]
  reached := fun client => le_trans (serves.reached client) (le_of_lt above)
  split := by
    intro client
    -- The new entry waits for every client.
    obtain ⟨seen, split, before, after, got⟩ := serves.split client
    refine ⟨seen, ?_, before, ?_, fun fit => ?_⟩
    · rw [Replayed.puts_put, Replayed.unseen_put, split, List.append_assoc]
    · intro other member
      rw [Replayed.unseen_put] at member
      rcases List.mem_append.mp member with waiting | single
      · exact after other waiting
      · rw [List.mem_singleton.mp single]
        exact lt_of_le_of_lt (serves.reached client) above
    · rw [Replayed.received_put]
      exact got fit.init

theorem answer_eq (serves : Serves key cap low high kept since past) {client : γ}
    (fits : (Replayed.unseen client past).length ≤ cap) :
    kept.filter (fun entry => since client < key entry) = Replayed.unseen client past := by
  obtain ⟨seen, split, before, after, -⟩ := serves.split client
  rw [serves.kept_eq, split, dropOldest_append_of_le fits, List.filter_append]
  have gone : (seen.drop (seen.length + (Replayed.unseen client past).length - cap)).filter
      (fun entry => since client < key entry) = [] :=
    List.filter_eq_nil_iff.mpr fun entry member => by
      have old := before entry (List.mem_of_mem_drop member)
      simpa using old
  have waiting : (Replayed.unseen client past).filter (fun entry => since client < key entry) =
      Replayed.unseen client past :=
    List.filter_eq_self.mpr fun entry member => by simpa using after entry member
  rw [gone, waiting, List.nil_append]

theorem le_last (serves : Serves key cap low high kept since past) (room : 0 < cap) :
    ∀ entry ∈ Replayed.puts past, key entry ≤ (kept.getLast?.map key).getD low := by
  intro entry member
  rw [serves.kept_eq]
  have rising := serves.rising
  generalize Replayed.puts past = entries at member rising ⊢
  rcases List.eq_nil_or_concat entries with rfl | ⟨front, last, rfl⟩
  · exact absurd member List.not_mem_nil
  · rw [List.concat_eq_append] at member rising ⊢
    rw [dropOldest_append room, List.getLast?_concat]
    rcases List.mem_append.mp member with before | single
    · exact le_of_lt ((List.pairwise_append.mp rising).2.2 entry before last List.mem_cons_self)
    · rw [List.mem_singleton.mp single]
      exact le_refl (key last)

theorem last_le (serves : Serves key cap low high kept since past) (start : low ≤ high) :
    (kept.getLast?.map key).getD low ≤ high := by
  cases final : kept.getLast? with
  | none => exact start
  | some last =>
    have member : last ∈ Replayed.puts past := by
      have inside := List.mem_of_getLast? final
      rw [serves.kept_eq] at inside
      exact List.mem_of_mem_drop inside
    exact serves.below last member

theorem poll (serves : Serves key cap low high kept since past) (start : low ≤ high)
    (room : 0 < cap) (client : γ) :
    Serves key cap low high kept
      (Function.update since client ((kept.getLast?.map key).getD low))
      (past ++ [.polled client (kept.filter fun entry => since client < key entry)]) where
  kept_eq := by rw [serves.kept_eq, Replayed.puts_polled]
  rising := by rw [Replayed.puts_polled]; exact serves.rising
  above := by rw [Replayed.puts_polled]; exact serves.above
  below := by rw [Replayed.puts_polled]; exact serves.below
  reached := by
    intro other
    by_cases same : other = client
    · rw [same, Function.update_self]
      exact serves.last_le start
    · rw [Function.update_of_ne same]
      exact serves.reached other
  split := by
    intro other
    obtain ⟨seen, split, before, after, got⟩ := serves.split other
    rw [Replayed.puts_polled, Replayed.unseen_polled, Replayed.received_polled]
    by_cases same : client = other
    · -- Nothing waits for the client any more.
      subst same
      rw [if_pos rfl, if_pos rfl, Function.update_self]
      refine ⟨_, (List.append_nil _).symm, serves.le_last room,
        fun _ member => absurd member List.not_mem_nil, fun fit => ?_⟩
      rw [serves.answer_eq fit.last, got fit.init, split]
    · rw [if_neg same, if_neg same, Function.update_of_ne (Ne.symm same), List.append_nil]
      exact ⟨seen, split, before, after, fun fit => got fit.init⟩

theorem kept_rising (serves : Serves key cap low high kept since past) :
    kept.Pairwise (key · < key ·) := by
  rw [serves.kept_eq]
  exact serves.rising.drop

theorem received_append (serves : Serves key cap low high kept since past) {client : γ}
    (fit : Replayed.GapsFit client cap past) :
    Replayed.received client past ++ Replayed.unseen client past = Replayed.puts past := by
  obtain ⟨seen, split, -, -, got⟩ := serves.split client
  rw [got fit, split]

end Serves

end Serves

end AgentC

import Mathlib.Algebra.Order.BigOperators.Group.Finset
import Mathlib.Data.List.Nodup
import AgentC.Library.Iteration

/-! Searching a graph: what a search visits, that it ends, and when the nearest come first. -/

namespace AgentC

universe u

variable {V : Type u} (next : V → List V) (start : V)

def layer : Nat → List V
  | 0 => [start]
  | n + 1 => (layer n).flatMap next

def Reachable (v : V) : Prop :=
  ∃ n, v ∈ layer next start n

def NoFarther (u v : V) : Prop :=
  ∀ n, v ∈ layer next start n → ∃ m ≤ n, u ∈ layer next start m

/-- What waits, the next one first, and what has been visited, in its order. -/
structure Search (V : Type u) where
  waiting : List V
  visited : List V

def Adds (add : List V → List V → List V) : Prop :=
  ∀ rest found, (add rest found).Perm (rest ++ found)

variable {next start}

theorem Reachable.step {u v : V} (reachable : Reachable next start u) (edge : v ∈ next u) :
    Reachable next start v := by
  obtain ⟨n, there⟩ := reachable
  exact ⟨n + 1, List.mem_flatMap.mpr ⟨u, there, edge⟩⟩

theorem NoFarther.refl (v : V) : NoFarther next start v v :=
  fun n there => ⟨n, le_refl n, there⟩

theorem mem_of_layer {inside : V → Prop} (first : inside start)
    (closed : ∀ u, inside u → ∀ v ∈ next u, inside v) :
    ∀ n v, v ∈ layer next start n → inside v := by
  -- The induction is on the length of the path.
  intro n
  induction n with
  | zero =>
    intro v there
    rw [List.mem_singleton.mp there]
    exact first
  | succ n ih =>
    intro v there
    obtain ⟨u, before, edge⟩ := List.mem_flatMap.mp there
    exact closed u (ih u before) v edge

namespace Search

def begin_ (start : V) : Search V where
  waiting := [start]
  visited := []

/-- What a search has done and what it still has to do. -/
structure Explores (next : V → List V) (start : V) (s : Search V) : Prop where
  once : s.visited.Nodup
  started : start ∈ s.visited ∨ start ∈ s.waiting
  closed : ∀ u ∈ s.visited, ∀ v ∈ next u, v ∈ s.visited ∨ v ∈ s.waiting
  reached : ∀ v, v ∈ s.visited ∨ v ∈ s.waiting → Reachable next start v

variable {s t : Search V} {add : List V → List V → List V}

theorem explores_begin (start : V) : (begin_ start).Explores next start where
  once := List.nodup_nil
  started := Or.inr (List.mem_singleton_self start)
  closed := fun _ visited => absurd visited List.not_mem_nil
  reached := by
    intro v member
    refine ⟨0, ?_⟩
    rcases member with visited | waiting
    · exact absurd visited List.not_mem_nil
    · exact waiting

theorem mem_add (adds : Adds add) {rest more : List V} {v : V} :
    v ∈ add rest more ↔ v ∈ rest ∨ v ∈ more := by
  rw [(adds rest more).mem_iff, List.mem_append]

theorem Explores.mem_iff (explores : s.Explores next start) (done : s.waiting = []) (v : V) :
    v ∈ s.visited ↔ Reachable next start v := by
  have gone (w : V) (member : w ∈ s.visited ∨ w ∈ s.waiting) : w ∈ s.visited := by
    rw [done] at member
    exact member.resolve_right List.not_mem_nil
  constructor
  · exact fun visited => explores.reached v (Or.inl visited)
  · intro reachable
    obtain ⟨n, there⟩ := reachable
    exact mem_of_layer (gone _ explores.started)
      (fun u visited w edge => gone w (explores.closed u visited w edge)) n v there

variable [DecidableEq V]

def found (next : V → List V) (visited : List V) (v : V) : List V :=
  (next v).filter fun w => w ∉ visited ++ [v]

/-- The next one is visited, unless it has been, and what is found there is added to what waits. -/
def step (next : V → List V) (add : List V → List V → List V) (s : Search V) : Option (Search V) :=
  match s.waiting with
  | [] => none
  | v :: rest =>
    if v ∈ s.visited then some { s with waiting := rest }
    else some { waiting := add rest (found next s.visited v), visited := s.visited ++ [v] }

theorem step_cases (stepped : step next add s = some t) :
    ∃ v rest, s.waiting = v :: rest ∧
      ((v ∈ s.visited ∧ t = { s with waiting := rest }) ∨
        (v ∉ s.visited ∧
          t = { waiting := add rest (found next s.visited v), visited := s.visited ++ [v] })) := by
  unfold step at stepped
  cases waits : s.waiting with
  | nil =>
    rw [waits] at stepped
    cases stepped
  | cons v rest =>
    simp only [waits] at stepped
    refine ⟨v, rest, rfl, ?_⟩
    split at stepped
    case isTrue visited => exact Or.inl ⟨visited, (Option.some.inj stepped).symm⟩
    case isFalse new => exact Or.inr ⟨new, (Option.some.inj stepped).symm⟩

theorem Explores.step (adds : Adds add) (explores : s.Explores next start)
    (stepped : Search.step next add s = some t) : t.Explores next start := by
  obtain ⟨v, rest, waits, ⟨old, rfl⟩ | ⟨new, rfl⟩⟩ := step_cases stepped
  · -- What has been visited already need not wait any more.
    have moved (w : V) (member : w ∈ s.visited ∨ w ∈ s.waiting) : w ∈ s.visited ∨ w ∈ rest := by
      rw [waits, List.mem_cons] at member
      rcases member with visited | rfl | later
      · exact Or.inl visited
      · exact Or.inl old
      · exact Or.inr later
    refine ⟨explores.once, moved _ explores.started,
      fun u visited w edge => moved w (explores.closed u visited w edge), ?_⟩
    intro w member
    refine explores.reached w (member.imp_right fun later => ?_)
    rw [waits]
    exact List.mem_cons_of_mem v later
  · have here : Reachable next start v := explores.reached v (Or.inr (waits ▸ List.mem_cons_self))
    have moved (w : V) (member : w ∈ s.visited ∨ w ∈ s.waiting) :
        w ∈ s.visited ++ [v] ∨ w ∈ add rest (found next s.visited v) := by
      rw [waits, List.mem_cons] at member
      rw [List.mem_append, List.mem_singleton, mem_add adds]
      tauto
    refine ⟨?_, moved _ explores.started, ?_, ?_⟩
    · exact List.nodup_append.mpr ⟨explores.once, List.nodup_singleton v, fun a visited b last => by
        rintro rfl
        exact new (List.mem_singleton.mp last ▸ visited)⟩
    · intro u visited w edge
      rcases List.mem_append.mp visited with before | last
      · exact moved w (explores.closed u before w edge)
      · -- What comes next to the value visited now is added unless it has been visited.
        rw [List.mem_singleton.mp last] at edge
        by_cases seen : w ∈ s.visited ++ [v]
        · exact Or.inl seen
        · refine Or.inr ((mem_add adds).mpr (Or.inr ?_))
          exact List.mem_filter.mpr ⟨edge, by simpa using seen⟩
    · intro w member
      rw [List.mem_append, List.mem_singleton, mem_add adds] at member
      rcases member with (visited | rfl) | later | added
      · exact explores.reached w (Or.inl visited)
      · exact here
      · exact explores.reached w (Or.inr (waits ▸ List.mem_cons_of_mem v later))
      · exact here.step (List.mem_filter.mp added).1

theorem Explores.run (adds : Adds add) (explores : s.Explores next start)
    (reaches : Reaches (Search.step next add) s t) : t.Explores next start := by
  induction reaches with
  | refl => exact explores
  | tail _ stepped ih => exact ih.step adds stepped

def left (next : V → List V) (inside : Finset V) (s : Search V) : Nat :=
  s.waiting.length + ∑ v ∈ inside \ s.visited.toFinset, ((next v).length + 1)

theorem left_lt {inside : Finset V} (adds : Adds add) (within : ∀ v ∈ s.waiting, v ∈ inside)
    (stepped : step next add s = some t) : t.left next inside < s.left next inside := by
  obtain ⟨v, rest, waits, ⟨_, rfl⟩ | ⟨new, rfl⟩⟩ := step_cases stepped
  · simp only [left, waits, List.length_cons]
    omega
  · have member : v ∈ inside \ s.visited.toFinset := by
      rw [Finset.mem_sdiff, List.mem_toFinset]
      exact ⟨within v (waits ▸ List.mem_cons_self), new⟩
    have fewer : inside \ (s.visited ++ [v]).toFinset = (inside \ s.visited.toFinset).erase v := by
      ext w
      simp only [List.toFinset_append, Finset.mem_sdiff, Finset.mem_union, List.mem_toFinset,
        List.mem_singleton, Finset.mem_erase]
      tauto
    have split := Finset.add_sum_erase _ (fun w => (next w).length + 1) member
    have added : (add rest (found next s.visited v)).length ≤ rest.length + (next v).length := by
      rw [(adds rest _).length_eq, List.length_append]
      exact Nat.add_le_add_left (List.length_filter_le _ _) _
    simp only [left, waits, List.length_cons, fewer]
    omega

theorem halts_begin {inside : Finset V} (adds : Adds add) (first : start ∈ inside)
    (closed : ∀ u ∈ inside, ∀ v ∈ next u, v ∈ inside) : Halts (step next add) (begin_ start) := by
  refine halts_of_falls (left next inside) fun s reaches t stepped => ?_
  refine left_lt adds (fun v waits => ?_) stepped
  obtain ⟨n, there⟩ := ((explores_begin start).run adds reaches).reached v (Or.inr waits)
  exact mem_of_layer first closed n v there

def TakesNearest (next : V → List V) (start : V) (s : Search V) : Prop :=
  ∀ v rest, s.waiting = v :: rest → v ∉ s.visited →
    ∀ w ∈ rest, w ∉ s.visited → NoFarther next start v w

theorem Explores.exists_waiting (explores : s.Explores next start) {n : Nat} :
    ∀ {w : V}, w ∈ layer next start n → w ∉ s.visited →
      ∃ m ≤ n, ∃ v ∈ s.waiting, v ∉ s.visited ∧ v ∈ layer next start m := by
  -- The induction is on the length of the way.
  induction n with
  | zero =>
    intro w there new
    obtain rfl := List.mem_singleton.mp there
    exact ⟨0, le_refl 0, w, explores.started.resolve_left new, new, there⟩
  | succ n ih =>
    intro w there new
    obtain ⟨u, before, edge⟩ := List.mem_flatMap.mp there
    by_cases visited : u ∈ s.visited
    · exact ⟨n + 1, le_refl _, w, (explores.closed u visited w edge).resolve_left new, new, there⟩
    · obtain ⟨m, le, v, waits, unseen, reached⟩ := ih before visited
      exact ⟨m, by omega, v, waits, unseen, reached⟩

/-- The nearest have been visited first, and nothing that is left is nearer. -/
structure Ordered (next : V → List V) (start : V) (s : Search V) : Prop where
  among : s.visited.Pairwise (NoFarther next start)
  ahead : ∀ u ∈ s.visited, ∀ w, w ∉ s.visited → NoFarther next start u w

theorem Ordered.step (ordered : s.Ordered next start) (explores : s.Explores next start)
    (nearest : s.TakesNearest next start) (stepped : Search.step next add s = some t) :
    t.Ordered next start := by
  obtain ⟨v, rest, waits, ⟨_, rfl⟩ | ⟨new, rfl⟩⟩ := step_cases stepped
  · exact ⟨ordered.among, ordered.ahead⟩
  · have ahead (w : V) (other : w ∉ s.visited) : NoFarther next start v w := by
      intro n there
      -- Whatever is on the way waits as well, and is no nearer.
      obtain ⟨m, le, y, inside, unseen, reached⟩ := explores.exists_waiting there other
      rw [waits, List.mem_cons] at inside
      rcases inside with rfl | later
      · exact ⟨m, le, reached⟩
      · obtain ⟨k, below, here⟩ := nearest v rest waits new y later unseen m reached
        exact ⟨k, by omega, here⟩
    constructor
    · refine List.pairwise_append.mpr ⟨ordered.among, List.pairwise_singleton .., ?_⟩
      intro u visited w last
      rw [List.mem_singleton.mp last]
      exact ordered.ahead u visited v new
    · intro u visited w other
      rw [List.mem_append, not_or] at other
      rcases List.mem_append.mp visited with before | last
      · exact ordered.ahead u before w other.1
      · rw [List.mem_singleton.mp last]
        exact ahead w other.1

theorem Ordered.run (adds : Adds add) (reaches : Reaches (Search.step next add) (begin_ start) t)
    (nearest : ∀ s, Reaches (Search.step next add) (begin_ start) s → s.TakesNearest next start) :
    t.Ordered next start := by
  induction reaches with
  | refl =>
    exact ⟨.nil, fun _ visited => absurd visited List.not_mem_nil⟩
  | tail before stepped ih =>
    exact ih.step ((explores_begin start).run adds before) (nearest _ before) stepped

end Search

end AgentC

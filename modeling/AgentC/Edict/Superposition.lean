import AgentC.Edict.Iterators
import AgentC.Library.Combinations
import AgentC.Listree.CircularList

/-! Calls of imported functions with iterators among the arguments, and when they cover all combinations. -/

namespace AgentC.Edict

universe u v

/-- An argument of a call. An iterator may have lost its cursor. -/
inductive Argument (V : Type u) where
  | value (value : V)
  | iterator (cursor : Option (IteratorCursor V))

namespace Argument

variable {V : Type u}

def isIterator : Argument V → Bool
  | .value _ => false
  | .iterator _ => true

def standsFor : Argument V → List V
  | .value val => [val]
  | .iterator none => []
  | .iterator (some cursor) => cursor.yields

def collected : Argument V → List V
  | .value val => [val]
  | .iterator none => []
  | .iterator (some cursor) => cursor.collected

end Argument

namespace Superposition

variable {V : Type u} {W : Type v}

def addListItem (list : CLL V) (value : V) : CLL V :=
  list.store value true

/-- The lists that a call shares with the calls inside it, and the world of the function. -/
structure Calls (V : Type u) (W : Type v) where
  builtArgs : CLL V
  resultList : CLL V
  world : W

variable (invoke : List V → W → Option V × W) (nullValue : V)

/-- Invoking the function with the arguments that are built, for one more result. -/
def Calls.invoked (s : Calls V W) : Calls V W :=
  let invokeArgs := (s.builtArgs.forEach false).foldl addListItem .empty
  let res := invoke (invokeArgs.forEach false) s.world
  { s with
    resultList := addListItem s.resultList (res.1.getD nullValue)
    world := res.2 }

/-- An argument that is built for the calls inside, and taken away again. -/
def Calls.within (s : Calls V W) (value : V) (calls : Calls V W → Calls V W) : Calls V W :=
  let s := calls { s with builtArgs := addListItem s.builtArgs value }
  { s with builtArgs := (s.builtArgs.pop true).2 }

/-- Calling the function for the arguments that remain, behind those that are built. -/
def executeIterativeFFI : List (Argument V) → Calls V W → Calls V W
  | [], s => s.invoked invoke nullValue
  | .iterator none :: _, s => s
  | .iterator (some cursor) :: args, s =>
    let values := cursor.collected.foldl addListItem .empty
    (values.forEach false).foldl (fun s value => s.within value (executeIterativeFFI args)) s
  | .value value :: args, s => s.within value (executeIterativeFFI args)

/-- What evaluating a function leaves on the data stack. -/
inductive Pushed (V : Type u) where
  | results (list : CLL V)
  | result (value : V)

/-- The last part of `evalDispatchFFI`, once the arguments have been converted. -/
def invokeArguments (args : List (Argument V)) (world : W) : Pushed V × W :=
  if args.any Argument.isIterator then
    let s := executeIterativeFFI invoke nullValue args ⟨.empty, .empty, world⟩
    (.results s.resultList, s.world)
  else
    let res := invoke (args.flatMap Argument.collected) world
    (.result (res.1.getD nullValue), res.2)

/-- Calling the function with each list of arguments in turn. -/
def callEach : List (List V) → W → List V × W
  | [], world => ([], world)
  | args :: rest, world =>
    let res := invoke args world
    let later := callEach rest res.2
    (res.1.getD nullValue :: later.1, later.2)

/--
With an iterator among the arguments, the function is called once for each combination of the values
that they stand for, and the results are listed in the order of the calls.
-/
def CoversCombinations (args : List (Argument V)) (world : W) : Prop :=
  args.any Argument.isIterator = true →
    let calls := callEach invoke nullValue (combinations (args.map Argument.standsFor)) world
    ∃ list, invokeArguments invoke nullValue args world = (.results list, calls.2) ∧
      list.forEach false = calls.1

def Aligned (args : List (Argument V)) : Prop :=
  (∀ cursor, .iterator (some cursor) ∈ args → cursor.isValid = true ∨ cursor.getValue = none) ∨
    ∃ arg ∈ args, arg.standsFor = []

end Superposition

end AgentC.Edict

namespace AgentC.Edict

universe u v

variable {V : Type u} {W : Type v}

namespace IteratorCursor

variable (cursor : IteratorCursor V)

theorem length_collected_le : cursor.collected.length ≤ cursor.yields.length := by
  unfold collected yields
  split
  · exact Nat.le_refl _
  · simp

theorem collected_eq_iff : cursor.collected.length = cursor.yields.length ↔
    cursor.isValid = true ∨ cursor.getValue = none := by
  unfold collected yields
  by_cases valid : cursor.isValid = true
  · simp [valid]
  · cases first : cursor.getValue with
    | none => simp [valid]
    | some value => simp [valid]

theorem collected_of_aligned (aligned : cursor.isValid = true ∨ cursor.getValue = none) :
    cursor.collected = cursor.yields := by
  unfold collected yields
  by_cases valid : cursor.isValid = true
  · rw [if_pos valid]
  · rw [if_neg valid, aligned.resolve_left valid]
    rfl

end IteratorCursor

namespace Argument

variable (arg : Argument V)

theorem length_collected_le : arg.collected.length ≤ arg.standsFor.length := by
  cases arg with
  | value val => exact Nat.le_refl _
  | iterator cursor =>
    cases cursor with
    | none => exact Nat.le_refl _
    | some cursor => exact cursor.length_collected_le

end Argument

namespace Superposition

variable {invoke : List V → W → Option V × W} {nullValue : V}

def Lists (list : CLL V) (values : List V) : Prop :=
  list.Holds true values.reverse

namespace Lists

variable {list : CLL V} {values : List V}

theorem nil : Lists (.empty : CLL V) [] :=
  CLL.holds_empty true

theorem forEach (lists : Lists list values) : list.forEach false = values := by
  have holds := lists.reverse
  rw [List.reverse_reverse] at holds
  exact holds.forEach

theorem add (lists : Lists list values) (value : V) :
    Lists (addListItem list value) (values ++ [value]) := by
  unfold Lists
  rw [List.reverse_append]
  exact CLL.Holds.store lists value

theorem pop {value : V} (lists : Lists list (values ++ [value])) : Lists (list.pop true).2 values := by
  unfold Lists at lists
  rw [List.reverse_append] at lists
  exact lists.pop.2

end Lists

/-- The lists that a call shares, as they stand before and after it. -/
structure Calls.Has (s : Calls V W) (built results : List V) (world : W) : Prop where
  builtArgs : Lists s.builtArgs built
  resultList : Lists s.resultList results
  world : s.world = world

theorem callEach_append (first second : List (List V)) (world : W) :
    callEach invoke nullValue (first ++ second) world =
      let before := callEach invoke nullValue first world
      let after := callEach invoke nullValue second before.2
      (before.1 ++ after.1, after.2) := by
  induction first generalizing world with
  | nil => rfl
  | cons args rest ih => simp only [List.cons_append, callEach, ih]

theorem length_callEach (calls : List (List V)) (world : W) :
    (callEach invoke nullValue calls world).1.length = calls.length := by
  induction calls generalizing world with
  | nil => rfl
  | cons args rest ih => simp only [callEach, List.length_cons, ih]

def After (invoke : List V → W → Option V × W) (nullValue : V) (built results : List V) (world : W)
    (calls : List (List V)) (s : Calls V W) : Prop :=
  let called := callEach invoke nullValue (calls.map (built ++ ·)) world
  s.Has built (results ++ called.1) called.2

variable {s : Calls V W} {built results : List V} {world : W}

theorem within_has {calls : List (List V)} {inside : Calls V W → Calls V W}
    (each : ∀ {s : Calls V W} {built results : List V} {world : W}, s.Has built results world →
      After invoke nullValue built results world calls (inside s)) (value : V)
    (has : s.Has built results world) :
    After invoke nullValue built results world (calls.map (value :: ·)) (s.within value inside) := by
  have done := each (s := { s with builtArgs := addListItem s.builtArgs value })
    ⟨has.builtArgs.add value, has.resultList, has.world⟩
  have same : calls.map (built ++ [value] ++ ·) = (calls.map (value :: ·)).map (built ++ ·) := by
    rw [List.map_map]
    exact List.map_congr_left fun args _ => List.append_assoc built [value] args
  rw [After, same] at done
  exact ⟨done.builtArgs.pop, done.resultList, done.world⟩

theorem foldl_within_has {calls : List (List V)} {inside : Calls V W → Calls V W}
    (each : ∀ {s : Calls V W} {built results : List V} {world : W}, s.Has built results world →
      After invoke nullValue built results world calls (inside s)) (values : List V)
    (has : s.Has built results world) :
    After invoke nullValue built results world (values.flatMap fun value => calls.map (value :: ·))
      (values.foldl (fun s value => s.within value inside) s) := by
  induction values generalizing s results world with
  | nil =>
    rw [After, List.flatMap_nil, List.map_nil, callEach, List.append_nil]
    exact has
  | cons value values ih =>
    -- The results of the first value's calls come before those of the others.
    have first := within_has each value has
    have later := ih first
    rw [After] at later ⊢
    rw [List.flatMap_cons, List.map_append, callEach_append, ← List.append_assoc]
    exact later

theorem executeIterativeFFI_has (args : List (Argument V)) (has : s.Has built results world) :
    After invoke nullValue built results world (combinations (args.map Argument.collected))
      (executeIterativeFFI invoke nullValue args s) := by
  induction args generalizing s built results world with
  | nil =>
    -- The arguments are copied into a list of their own, in the order in which they were built.
    have order : (((s.builtArgs.forEach false).foldl addListItem .empty).forEach false) = built := by
      rw [has.builtArgs.forEach]
      exact CLL.forEach_foldl_store true built
    rw [After, executeIterativeFFI, Calls.invoked, order, has.world]
    simp only [List.map_nil, combinations, List.map_cons, List.append_nil, callEach]
    exact ⟨has.builtArgs, has.resultList.add _, rfl⟩
  | cons arg args ih =>
    cases arg with
    | value val =>
      have done := within_has ih val has
      rwa [List.map_cons, Argument.collected, combinations, List.flatMap_singleton]
    | iterator cursor =>
      cases cursor with
      | none =>
        rw [List.map_cons, Argument.collected, combinations, List.flatMap_nil, After, List.map_nil,
          callEach, List.append_nil]
        exact has
      | some cursor =>
        have order : (cursor.collected.foldl addListItem .empty).forEach false = cursor.collected :=
          CLL.forEach_foldl_store true _
        rw [executeIterativeFFI, order]
        exact foldl_within_has ih cursor.collected has

theorem invokeArguments_eq (args : List (Argument V)) (world : W)
    (superposed : args.any Argument.isIterator = true) :
    let calls := callEach invoke nullValue (combinations (args.map Argument.collected)) world
    ∃ list, invokeArguments invoke nullValue args world = (.results list, calls.2) ∧
      list.forEach false = calls.1 := by
  -- Both lists are empty when the calls begin.
  have start : (⟨.empty, .empty, world⟩ : Calls V W).Has [] [] world := ⟨Lists.nil, Lists.nil, rfl⟩
  have has : After invoke nullValue [] [] world _ _ := executeIterativeFFI_has args start
  rw [After, show (combinations (args.map Argument.collected)).map ([] ++ ·) =
    combinations (args.map Argument.collected) from List.map_id _, List.nil_append] at has
  refine ⟨_, ?_, has.resultList.forEach⟩
  rw [invokeArguments, if_pos superposed]
  dsimp only
  rw [has.world]

theorem aligned_iff (args : List (Argument V)) :
    Aligned args ↔ (combinations (args.map Argument.collected)).length =
      (combinations (args.map Argument.standsFor)).length := by
  rw [length_combinations, length_combinations, List.map_map, List.map_map]
  refine Iff.trans ?_ (prod_map_eq_iff Argument.length_collected_le args).symm
  refine or_congr ?_ ?_
  · constructor
    · intro starts arg member
      cases arg with
      | value val => rfl
      | iterator cursor =>
        cases cursor with
        | none => rfl
        | some cursor => exact cursor.collected_eq_iff.mpr (starts cursor member)
    · exact fun same cursor member => cursor.collected_eq_iff.mp (same _ member)
  · simp only [List.length_eq_zero_iff]

theorem combinations_of_aligned {args : List (Argument V)} (aligned : Aligned args) :
    combinations (args.map Argument.collected) = combinations (args.map Argument.standsFor) := by
  rcases aligned with starts | ⟨arg, member, nothing⟩
  · congr 1
    refine List.map_congr_left fun arg member => ?_
    cases arg with
    | value val => rfl
    | iterator cursor =>
      cases cursor with
      | none => rfl
      | some cursor => exact cursor.collected_of_aligned (starts cursor member)
  · -- What stands for nothing is collected as nothing.
    have short := arg.length_collected_le
    rw [nothing, List.length_nil, Nat.le_zero, List.length_eq_zero_iff] at short
    rw [combinations_of_nil (List.mem_map.mpr ⟨arg, member, short⟩),
      combinations_of_nil (List.mem_map.mpr ⟨arg, member, nothing⟩)]

/--
A call covers all combinations exactly when every iterator among its arguments is valid or has no
first value, or one of the arguments stands for no value.
-/
theorem coversCombinations_iff (invoke : List V → W → Option V × W) (nullValue : V)
    (args : List (Argument V)) (world : W) :
    CoversCombinations invoke nullValue args world ↔ Aligned args := by
  by_cases superposed : args.any Argument.isIterator = true
  · obtain ⟨list, evaluated, listed⟩ :=
      @invokeArguments_eq V W invoke nullValue args world superposed
    constructor
    · intro covers
      obtain ⟨list', evaluated', listed'⟩ := covers superposed
      rw [evaluated, Prod.mk.injEq, Pushed.results.injEq] at evaluated'
      obtain ⟨rfl, -⟩ := evaluated'
      -- There are as many results as calls.
      have counts := congrArg List.length (listed.symm.trans listed')
      rw [length_callEach, length_callEach] at counts
      exact (aligned_iff args).mpr counts
    · intro aligned _
      rw [combinations_of_aligned aligned] at evaluated listed
      exact ⟨list, evaluated, listed⟩
  · -- Without an iterator there is nothing to cover, and nothing to be aligned.
    refine iff_of_true (fun is => absurd is superposed) (Or.inl fun cursor member => ?_)
    exact absurd (List.any_eq_true.mpr ⟨_, member, rfl⟩) superposed

/-- Of two values in a history, the function is called with the second one only. -/
theorem coversCombinations_fails :
    (invokeArguments (fun args (world : List (List Nat)) => (args.head?, world ++ [args])) 0
        [.iterator (some (.history [some 1, some 2])), .value 3] []).2 = [[2, 3]] ∧
      ¬ CoversCombinations (fun args (world : List (List Nat)) => (args.head?, world ++ [args])) 0
        [.iterator (some (.history [some 1, some 2])), .value 3] [] := by
  have calls : (invokeArguments (fun args (world : List (List Nat)) => (args.head?, world ++ [args]))
      0 [.iterator (some (.history [some 1, some 2])), .value 3] []).2 = [[2, 3]] := rfl
  refine ⟨calls, fun covers => ?_⟩
  obtain ⟨list, evaluated, -⟩ := covers rfl
  rw [evaluated] at calls
  have both : [[1, 3], [2, 3]] = [[2, 3]] := calls
  exact absurd both (by decide)

end Superposition

end AgentC.Edict

import AgentC.Markethub.History

/-! When the history of a field is right: its quotes come in order, under a name of its own. -/

namespace AgentC.Markethub

universe u

variable {V : Type u}

section Keys

variable {symbol contract field symbol' contract' field' : Text}

theorem split_at_bar {front front' back back' : Text} (plain : HistoryRun.Plain front)
    (plain' : HistoryRun.Plain front') (same : front ++ 0x7C :: back = front' ++ 0x7C :: back') :
    front = front' ∧ back = back' := by
  induction front generalizing front' with
  | nil =>
    cases front' with
    | nil => exact ⟨rfl, (List.cons.inj same).2⟩
    | cons c rest => exact absurd ((List.cons.inj same).1 ▸ List.mem_cons_self) plain'
  | cons c rest ih =>
    cases front' with
    | nil => exact absurd ((List.cons.inj same).1 ▸ List.mem_cons_self) plain
    | cons c' rest' =>
      obtain ⟨rfl, tails⟩ := List.cons.inj same
      have inner := ih (fun inside => plain (List.mem_cons_of_mem _ inside))
        (fun inside => plain' (List.mem_cons_of_mem _ inside)) tails
      exact ⟨congrArg (c :: ·) inner.1, inner.2⟩

theorem count_seriesKey : (seriesKey symbol contract field).count 0x7C =
    symbol.count 0x7C + contract.count 0x7C + field.count 0x7C + 2 := by
  unfold seriesKey
  rw [List.count_append, List.count_cons_self, List.count_append, List.count_cons_self]
  omega

theorem seriesKey_inj (plain : HistoryRun.Plain symbol ∧ HistoryRun.Plain contract ∧
    HistoryRun.Plain field)
    (same : seriesKey symbol contract field = seriesKey symbol' contract' field') :
    symbol = symbol' ∧ contract = contract' ∧ field = field' := by
  -- Both names have as many bars, so the other parts are plain too.
  have count := congrArg (List.count 0x7C) same
  rw [count_seriesKey, count_seriesKey, List.count_eq_zero.mpr plain.1,
    List.count_eq_zero.mpr plain.2.1, List.count_eq_zero.mpr plain.2.2] at count
  have first : HistoryRun.Plain symbol' := List.count_eq_zero.mp (by omega)
  have second : HistoryRun.Plain contract' := List.count_eq_zero.mp (by omega)
  obtain ⟨left, rest⟩ := split_at_bar plain.1 first same
  obtain ⟨middle, right⟩ := split_at_bar plain.2.1 second rest
  exact ⟨left, middle, right⟩

theorem exists_seriesKey_eq (bars : ¬(HistoryRun.Plain symbol ∧ HistoryRun.Plain contract ∧
    HistoryRun.Plain field)) :
    ∃ symbol' contract' field', seriesKey symbol' contract' field' = seriesKey symbol contract field ∧
      ¬(symbol' = symbol ∧ contract' = contract) := by
  by_cases first : HistoryRun.Plain symbol
  · by_cases second : HistoryRun.Plain contract
    · -- The contract takes in what stands in front of the field's bar.
      have third : (0x7C : UInt8) ∈ field :=
        not_not.mp fun plain => bars ⟨first, second, plain⟩
      obtain ⟨front, back, rfl⟩ := List.append_of_mem third
      refine ⟨symbol, contract ++ 0x7C :: front, back, by simp [seriesKey], fun same => ?_⟩
      have length := congrArg List.length same.2
      simp at length
    · obtain ⟨front, back, rfl⟩ := List.append_of_mem (not_not.mp second)
      refine ⟨symbol ++ 0x7C :: front, back, field, by simp [seriesKey], fun same => ?_⟩
      have length := congrArg List.length same.1
      simp at length
  · obtain ⟨front, back, rfl⟩ := List.append_of_mem (not_not.mp first)
    refine ⟨front, back ++ 0x7C :: contract, field, by simp [seriesKey], fun same => ?_⟩
    have length := congrArg List.length same.1
    simp at length

end Keys

namespace HistoryStore

variable {store : HistoryStore V} {event : MarketEvent V}

theorem policy_record : (store.record event).policy = store.policy := by
  unfold record
  split
  · generalize event.num.entries = entries
    induction entries generalizing store with
    | nil => rfl
    | cons entry rest ih => exact (@ih (store.recordField event entry)).trans rfl
  · rfl

theorem stored_foldl_other {key : Text} : ∀ (entries : List (Text × V)) (store : HistoryStore V),
    (∀ entry ∈ entries, seriesKey event.symbol event.contract entry.1 ≠ key) →
    (entries.foldl (fun store entry => store.recordField event entry) store).stored key =
      store.stored key
  | [], _, _ => rfl
  | entry :: rest, store, other => by
    obtain ⟨here, later⟩ := List.forall_mem_cons.mp other
    rw [List.foldl_cons, stored_foldl_other rest _ later]
    exact Function.update_of_ne (Ne.symm here) ..

theorem stored_foldl_same {field : Text} {value : V} : ∀ (entries : List (Text × V))
    (store : HistoryStore V), (entries.map Prod.fst).Nodup → (field, value) ∈ entries →
    (entries.foldl (fun store entry => store.recordField event entry) store).stored
        (seriesKey event.symbol event.contract field) =
      putLatest HistorySample.bucketUnix store.policy.maxSamples
        (store.series event.symbol event.contract field) (store.sample event value)
  | entry :: rest, store, once, member => by
    obtain ⟨apart, later⟩ := List.nodup_cons.mp once
    have differs : ∀ other : Text, other ≠ field →
        seriesKey event.symbol event.contract other ≠ seriesKey event.symbol event.contract field :=
      fun other ne same => ne (by simpa [seriesKey] using same)
    rw [List.foldl_cons]
    rcases List.mem_cons.mp member with rfl | there
    · -- The other fields have other names.
      rw [stored_foldl_other rest]
      · exact Function.update_self ..
      · intro other inside
        refine differs other.1 fun same => apart ?_
        have name : other.1 = field := same
        exact List.mem_map.mpr ⟨other, inside, name⟩
    · have ne : entry.1 ≠ field := fun same => apart (same ▸ List.mem_map_of_mem there)
      rw [stored_foldl_same rest _ later there]
      have same : (store.recordField event entry).series event.symbol event.contract field =
          store.series event.symbol event.contract field :=
        Function.update_of_ne (Ne.symm (differs _ ne)) ..
      rw [same]
      rfl

end HistoryStore

namespace HistoryRun

variable {run next : HistoryRun V} {event : MarketEvent V} {symbol contract field : Text}

def PlainNames (run : HistoryRun V) : Prop :=
  ∀ event ∈ run.recorded, event.isQuote = true → ∀ entry ∈ event.num.entries,
    Plain event.symbol ∧ Plain event.contract ∧ Plain entry.1

theorem write_eq_some {sample : HistorySample V} :
    run.write symbol contract field event = some sample ↔
      event.isQuote = true ∧ event.symbol = symbol ∧ event.contract = contract ∧
        ∃ value, (field, value) ∈ event.num.entries ∧ run.store.sample event value = sample := by
  unfold write
  rw [Option.ite_none_right_eq_some, Option.map_eq_some_iff]
  simp only [MarketEvent.numOf_eq_some, and_assoc]

theorem writes_step (stepped : run.step event = some next) :
    next.writes symbol contract field =
      run.writes symbol contract field ++ (run.write symbol contract field event).toList := by
  cases stepped
  -- The buckets are those of the same policy.
  have same : (⟨run.store.record event, run.recorded ++ [event]⟩ : HistoryRun V).write
      symbol contract field = run.write symbol contract field := by
    funext other
    unfold write HistoryStore.sample HistoryStore.bucket
    dsimp only
    rw [HistoryStore.policy_record]
  unfold writes
  rw [same, List.filterMap_append]
  cases wrote : run.write symbol contract field event with
  | none => rw [List.filterMap_cons_none wrote]; rfl
  | some sample => rw [List.filterMap_cons_some wrote]; rfl

theorem series_same (stepped : run.step event = some next) (quote : event.isQuote = true)
    {value : V} (member : (field, value) ∈ event.num.entries) :
    next.store.series event.symbol event.contract field =
      putLatest HistorySample.bucketUnix run.store.policy.maxSamples
        (run.store.series event.symbol event.contract field) (run.store.sample event value) := by
  cases stepped
  unfold HistoryStore.series HistoryStore.record
  dsimp only
  rw [if_pos quote]
  exact HistoryStore.stored_foldl_same _ _ event.num.once member

theorem series_other (stepped : run.step event = some next)
    (other : event.isQuote = true → ∀ entry ∈ event.num.entries,
      seriesKey event.symbol event.contract entry.1 ≠ seriesKey symbol contract field) :
    next.store.series symbol contract field = run.store.series symbol contract field := by
  cases stepped
  unfold HistoryStore.series HistoryStore.record
  dsimp only
  split
  · rename_i quote
    exact HistoryStore.stored_foldl_other _ _ (other quote)
  · rfl

theorem PlainNames.of_mem_writes (plain : run.PlainNames) {sample : HistorySample V}
    (written : sample ∈ run.writes symbol contract field) :
    Plain symbol ∧ Plain contract ∧ Plain field := by
  obtain ⟨event, there, written⟩ := List.mem_filterMap.mp written
  obtain ⟨quote, rfl, rfl, value, member, -⟩ := write_eq_some.mp written
  exact plain event there quote (field, value) member

theorem faithful_step_iff (plain : run.PlainNames) (faithful : run.Faithful)
    (stepped : run.step event = some next) : next.Faithful ↔ run.InOrder event := by
  have bound : next.store.policy = run.store.policy := by
    cases stepped
    exact HistoryStore.policy_record
  unfold Faithful
  rw [bound]
  constructor
  · intro after quote entry member
    have put := series_same stepped quote member
    have wrote : run.write event.symbol event.contract entry.1 event =
        some (run.store.sample event entry.2) :=
      write_eq_some.mpr ⟨quote, rfl, rfl, entry.2, member, rfl⟩
    refine ⟨?_, ?_⟩
    · by_contra bars
      -- The sample also stands in the series of other names, for which nothing was written.
      obtain ⟨symbol, contract, field, same, differs⟩ := exists_seriesKey_eq bars
      have keeps := after symbol contract field
      rw [show next.store.series symbol contract field =
        next.store.series event.symbol event.contract entry.1 from congrArg next.store.stored same,
        put] at keeps
      obtain ⟨front, eq, -⟩ := @putLatest_eq _ _ _ HistorySample.bucketUnix _
        (run.store.series event.symbol event.contract entry.1) (run.store.sample event entry.2)
        run.store.room
      have written := keeps.mem (eq ▸ List.mem_append_right front List.mem_cons_self)
      rw [writes_step stepped] at written
      rcases List.mem_append.mp written with before | now
      · obtain ⟨rfl, rfl, -⟩ := seriesKey_inj (plain.of_mem_writes before) same
        exact differs ⟨rfl, rfl⟩
      · obtain ⟨-, rfl, rfl, -⟩ := write_eq_some.mp (Option.mem_toList.mp now)
        exact differs ⟨rfl, rfl⟩
    · have keeps := after event.symbol event.contract entry.1
      rw [put, writes_step stepped, wrote] at keeps
      exact ((faithful event.symbol event.contract entry.1).put_iff run.store.room).mp keeps
  · intro order symbol contract field
    rw [writes_step stepped]
    cases wrote : run.write symbol contract field event with
    | some sample =>
      obtain ⟨quote, rfl, rfl, value, member, rfl⟩ := write_eq_some.mp wrote
      rw [series_same stepped quote member]
      exact ((faithful event.symbol event.contract field).put_iff run.store.room).mpr
        (order quote (field, value) member).2
    | none =>
      -- The event's own series have plain names, so none of them is this one.
      have other : event.isQuote = true → ∀ entry ∈ event.num.entries,
          seriesKey event.symbol event.contract entry.1 ≠ seriesKey symbol contract field := by
        intro quote entry member same
        obtain ⟨rfl, rfl, rfl⟩ := seriesKey_inj (order quote entry member).1 same
        rw [write_eq_some.mpr ⟨quote, rfl, rfl, entry.2, member, rfl⟩] at wrote
        cases wrote
      rw [series_other stepped other, Option.toList_none, List.append_nil]
      exact faithful symbol contract field

theorem PlainNames.step (plain : run.PlainNames) (order : run.InOrder event)
    (stepped : run.step event = some next) : next.PlainNames := by
  cases stepped
  intro other member
  rcases List.mem_append.mp member with before | now
  · exact plain other before
  · rw [List.mem_singleton.mp now]
    exact fun quote entry there => (order quote entry there).1

/--
All series of a store are right in all states of a run exactly when every event comes in order:
each of its numbers has a series of its own, in which no later bucket has been written.
-/
theorem history_in_order (policy : HistoryPolicy) (events : List (MarketEvent V)) :
    Throughout step Faithful (start policy) events ↔ StepsMeet step InOrder (start policy) events :=
  have kept : ∀ (run : HistoryRun V) (event : MarketEvent V) (next : HistoryRun V),
      run.PlainNames → run.Faithful → run.step event = some next →
      (next.Faithful ↔ run.InOrder event) ∧ (run.InOrder event → next.PlainNames) :=
    fun _ _ _ plain faithful stepped =>
      ⟨faithful_step_iff plain faithful stepped, fun order => plain.step order stepped⟩
  throughout_iff_of_kept kept events (start policy)
    (fun _ member => absurd member List.not_mem_nil) fun _ _ _ => KeepsLatest.nil

def lastPrice (observedUnix : Int) (price : V) : MarketEvent V where
  type := .UnderlyingQuote
  symbol := [65, 77, 68]
  contract := []
  source := []
  sequence := 0
  observedUnix := observedUnix
  receivedUnix := 0
  num := ⟨[([108, 97, 115, 116], price)], List.Pairwise.cons (fun _ member => absurd member List.not_mem_nil) .nil⟩
  text := ⟨[], List.nodup_nil⟩

/-- A quote that was observed a minute before the last one stands behind it. -/
theorem history_in_order_fails :
    ¬Throughout step Faithful (start ⟨60, 1000⟩) [lastPrice 120 (7 : Nat), lastPrice 60 5] := by
  intro throughout
  have faithful := throughout.last _ _ _ rfl
  -- The bucket of the first minute stands behind that of the second.
  have rising := (faithful [65, 77, 68] [] [108, 97, 115, 116]).rising
  exact absurd rising (by decide)

end HistoryRun

end AgentC.Markethub

import AgentC.Markethub.HistoryLaws
import AgentC.Markethub.Hub

/-! The names under which a hub keeps its quotes and samples, and when no two instruments share one. -/

namespace AgentC.Markethub

universe u v

variable {V : Type u} {P : Type v}

def QuoteCache.find (cache : QuoteCache V) (type : EventType) (symbol contract : Text) :
    Option (MarketEvent V) :=
  (cache.latest.find? fun kept => kept.1 == cacheKey type symbol contract).map Prod.snd

def MarketHub.new (historyPolicy : HistoryPolicy) (clock : Nat → Int) : MarketHub V P where
  clock := clock
  asked := 0
  sequence := 0
  nextSubscriptionId := 1
  subscriptions := []
  cache := ⟨[]⟩
  history := .new historyPolicy
  priceMoveRules := []
  staleQuoteRules := []
  staleAlreadyFlagged := fun _ => none

/-- A hub with the events that it has published, as it stamped them, the first one first. -/
structure HubRun (V : Type u) (P : Type v) where
  hub : MarketHub V P
  published : List (MarketEvent V)

namespace HubRun

def start (historyPolicy : HistoryPolicy) (clock : Nat → Int) : HubRun V P where
  hub := .new historyPolicy clock
  published := []

variable (run : HubRun V P)

def publish (event : MarketEvent V) : HubRun V P :=
  let (stamped, hub) := run.hub.stamp event
  { hub := hub.record stamped, published := run.published ++ [stamped] }

def step (event : MarketEvent V) : Option (HubRun V P) :=
  some (run.publish event)

def publishedFor (type : EventType) (symbol contract : Text) : List (MarketEvent V) :=
  run.published.filter fun event =>
    decide (event.type = type ∧ event.symbol = symbol ∧ event.contract = contract)

def history : HistoryRun V where
  store := run.hub.history
  recorded := run.published

/--
The latest event of a type, symbol and contract is the last one published with them, and a series
has samples of its own symbol, contract and field only.
-/
structure Distinct : Prop where
  latest : ∀ type symbol contract,
    run.hub.cache.find type symbol contract = (run.publishedFor type symbol contract).getLast?
  series : ∀ symbol contract field, ∀ sample ∈ run.hub.history.series symbol contract field,
    sample ∈ run.history.writes symbol contract field

end HubRun

/-- No bar is in an event's symbol or contract, or in the name of a number that a quote brings. -/
def MarketEvent.Unbarred (event : MarketEvent V) : Prop :=
  HistoryRun.Plain event.symbol ∧ HistoryRun.Plain event.contract ∧
    (event.isQuote = true → ∀ entry ∈ event.num.entries, HistoryRun.Plain entry.1)

section Keys

variable {type type' : EventType} {symbol symbol' contract contract' : Text}

theorem plain_eventTypeName (type : EventType) : HistoryRun.Plain (eventTypeName type) := by
  cases type <;> decide

theorem eventTypeName_inj (same : eventTypeName type = eventTypeName type') : type = type' := by
  -- The names of two types differ in a letter.
  cases type <;> cases type' <;> first | rfl | exact absurd same (by decide)

theorem cacheKey_inj (plain : HistoryRun.Plain symbol ∧ HistoryRun.Plain contract)
    (same : cacheKey type symbol contract = cacheKey type' symbol' contract') :
    type = type' ∧ symbol = symbol' ∧ contract = contract' := by
  -- Such a name is built as that of a series, with the type's name in front.
  obtain ⟨names, symbols, contracts⟩ :=
    seriesKey_inj ⟨plain_eventTypeName type, plain.1, plain.2⟩ same
  exact ⟨eventTypeName_inj names, symbols, contracts⟩

theorem exists_cacheKey_eq (bars : ¬(HistoryRun.Plain symbol ∧ HistoryRun.Plain contract)) :
    ∃ symbol' contract', cacheKey type symbol' contract' = cacheKey type symbol contract ∧
      symbol' ≠ symbol := by
  by_cases first : HistoryRun.Plain symbol
  · -- The symbol takes in what stands in front of the contract's bar.
    have second : (0x7C : UInt8) ∈ contract := not_not.mp fun plain => bars ⟨first, plain⟩
    obtain ⟨front, back, rfl⟩ := List.append_of_mem second
    refine ⟨symbol ++ 0x7C :: front, back, by simp [cacheKey], fun same => ?_⟩
    have length := congrArg List.length same
    simp at length
  · obtain ⟨front, back, rfl⟩ := List.append_of_mem (not_not.mp first)
    refine ⟨front, back ++ 0x7C :: contract, by simp [cacheKey], fun same => ?_⟩
    have length := congrArg List.length same
    simp at length

theorem QuoteCache.find_update (cache : QuoteCache V) (event : MarketEvent V) :
    (cache.update event).find type symbol contract =
      if cacheKey event.type event.symbol event.contract = cacheKey type symbol contract then some event
      else cache.find type symbol contract := by
  unfold find update
  dsimp only
  generalize cacheKey event.type event.symbol event.contract = key
  generalize cacheKey type symbol contract = asked
  induction cache.latest with
  | nil => by_cases same : key = asked <;> simp [insertLatest, same]
  | cons kept rest ih =>
    unfold insertLatest
    by_cases here : key = kept.1
    · by_cases same : key = asked <;> simp_all
    · by_cases before : key < kept.1
      · by_cases same : key = asked <;> simp_all
      · -- The event comes behind this one, which has another name.
        rw [if_neg here, if_neg before, List.find?_cons, List.find?_cons]
        by_cases this : kept.1 = asked
        · have other : key ≠ asked := fun same => here (same.trans this.symm)
          simp [this, other]
        · simp only [beq_eq_false_iff_ne.mpr this]
          exact ih

end Keys

theorem MarketHub.stamp_eq (hub : MarketHub V P) (event : MarketEvent V) :
    ∃ received asked, hub.asked ≤ asked ∧ hub.stamp event =
      ({ event with sequence := ↑(hub.sequence + 1), receivedUnix := received },
        { hub with sequence := hub.sequence + 1, asked := asked }) := by
  unfold MarketHub.stamp
  dsimp only
  split
  · exact ⟨_, _, Nat.le_succ hub.asked, rfl⟩
  · exact ⟨_, _, Nat.le_refl hub.asked, rfl⟩

namespace HubRun

variable {run next : HubRun V P} {event : MarketEvent V} {type : EventType}
  {symbol contract field : Text}

theorem step_spec (stepped : run.step event = some next) :
    ∃ stamped : MarketEvent V, stamped.type = event.type ∧ stamped.symbol = event.symbol ∧
      stamped.contract = event.contract ∧ stamped.num = event.num ∧
      next.published = run.published ++ [stamped] ∧
      next.hub.cache = run.hub.cache.update stamped ∧
      run.history.step stamped = some next.history := by
  obtain ⟨received, asked, -, stamped⟩ := run.hub.stamp_eq event
  unfold step publish at stepped
  rw [stamped] at stepped
  cases stepped
  exact ⟨{ event with sequence := ↑(run.hub.sequence + 1), receivedUnix := received },
    rfl, rfl, rfl, rfl, rfl, rfl, rfl⟩

def AllUnbarred (run : HubRun V P) : Prop :=
  ∀ event ∈ run.published, event.Unbarred

theorem AllUnbarred.plainNames (unbarred : run.AllUnbarred) : run.history.PlainNames :=
  fun event member quote entry there =>
    ⟨(unbarred event member).1, (unbarred event member).2.1, (unbarred event member).2.2 quote entry there⟩

theorem getLast?_publishedFor {stamped : MarketEvent V}
    (published : next.published = run.published ++ [stamped]) :
    (next.publishedFor type symbol contract).getLast? =
      if stamped.type = type ∧ stamped.symbol = symbol ∧ stamped.contract = contract then some stamped
      else (run.publishedFor type symbol contract).getLast? := by
  unfold publishedFor
  rw [published, List.filter_append, List.filter_singleton]
  by_cases own : stamped.type = type ∧ stamped.symbol = symbol ∧ stamped.contract = contract
  · rw [if_pos own, decide_eq_true own, cond_true, List.getLast?_concat]
  · rw [if_neg own, decide_eq_false own, cond_false, List.append_nil]

theorem latest_iff (latest : ∀ type symbol contract,
      run.hub.cache.find type symbol contract = (run.publishedFor type symbol contract).getLast?)
    {stamped : MarketEvent V} (published : next.published = run.published ++ [stamped])
    (cache : next.hub.cache = run.hub.cache.update stamped) :
    (∀ type symbol contract,
        next.hub.cache.find type symbol contract = (next.publishedFor type symbol contract).getLast?) ↔
      HistoryRun.Plain stamped.symbol ∧ HistoryRun.Plain stamped.contract := by
  constructor
  · intro after
    by_contra bars
    -- The event is also found for another symbol.
    obtain ⟨symbol, contract, same, differs⟩ := @exists_cacheKey_eq stamped.type _ _ bars
    have found := after stamped.type symbol contract
    rw [cache, QuoteCache.find_update, if_pos same.symm] at found
    have member := List.mem_of_getLast? found.symm
    have own := of_decide_eq_true (List.mem_filter.mp member).2
    exact differs own.2.1.symm
  · intro plain type symbol contract
    rw [cache, QuoteCache.find_update, getLast?_publishedFor published, latest]
    -- The two names are the same exactly if they are made of the same parts.
    refine if_congr ⟨cacheKey_inj plain, ?_⟩ rfl rfl
    rintro ⟨rfl, rfl, rfl⟩
    rfl

theorem series_iff (unbarred : run.AllUnbarred) {stamped : MarketEvent V}
    (plain : HistoryRun.Plain stamped.symbol ∧ HistoryRun.Plain stamped.contract)
    (series : ∀ symbol contract field, ∀ sample ∈ run.hub.history.series symbol contract field,
      sample ∈ run.history.writes symbol contract field)
    (recorded : run.history.step stamped = some next.history) :
    (∀ symbol contract field, ∀ sample ∈ next.hub.history.series symbol contract field,
        sample ∈ next.history.writes symbol contract field) ↔
      (stamped.isQuote = true → ∀ entry ∈ stamped.num.entries, HistoryRun.Plain entry.1) := by
  have putIn : ∀ entry ∈ stamped.num.entries, stamped.isQuote = true →
      ∃ front, next.hub.history.series stamped.symbol stamped.contract entry.1 =
        front ++ [run.hub.history.sample stamped entry.2] ∧
        ∀ sample ∈ front, sample ∈ run.hub.history.series stamped.symbol stamped.contract entry.1 := by
    intro entry member quote
    have put := HistoryRun.series_same recorded quote member
    obtain ⟨front, eq, old⟩ := @putLatest_eq _ _ _ HistorySample.bucketUnix _
      (run.hub.history.series stamped.symbol stamped.contract entry.1)
      (run.hub.history.sample stamped entry.2) run.hub.history.room
    exact ⟨front, put.trans eq, old⟩
  constructor
  · intro after quote entry member
    by_contra bar
    obtain ⟨front, eq, -⟩ := putIn entry member quote
    -- The sample also stands in the series of other names, for which nothing was written.
    obtain ⟨symbol, contract, field, same, differs⟩ :=
      @exists_seriesKey_eq stamped.symbol stamped.contract entry.1 (fun all => bar all.2.2)
    have inside : run.hub.history.sample stamped entry.2 ∈ next.hub.history.series symbol contract field := by
      have moved : next.hub.history.series symbol contract field =
          next.hub.history.series stamped.symbol stamped.contract entry.1 :=
        congrArg next.hub.history.stored same
      rw [moved, eq]
      exact List.mem_append_right front List.mem_cons_self
    have written := after symbol contract field _ inside
    rw [HistoryRun.writes_step recorded] at written
    rcases List.mem_append.mp written with before | now
    · obtain ⟨rfl, rfl, -⟩ := seriesKey_inj (unbarred.plainNames.of_mem_writes before) same
      exact differs ⟨rfl, rfl⟩
    · obtain ⟨-, rfl, rfl, -⟩ := HistoryRun.write_eq_some.mp (Option.mem_toList.mp now)
      exact differs ⟨rfl, rfl⟩
  · intro plainFields symbol contract field sample inside
    rw [HistoryRun.writes_step recorded]
    by_cases own : stamped.isQuote = true ∧ ∃ entry ∈ stamped.num.entries,
        seriesKey stamped.symbol stamped.contract entry.1 = seriesKey symbol contract field
    · obtain ⟨quote, entry, member, same⟩ := own
      obtain ⟨rfl, rfl, rfl⟩ := seriesKey_inj ⟨plain.1, plain.2, plainFields quote entry member⟩ same
      obtain ⟨front, eq, old⟩ := putIn entry member quote
      rw [eq] at inside
      rcases List.mem_append.mp inside with before | now
      · exact List.mem_append_left _ (series _ _ _ _ (old sample before))
      · -- The new sample is what the event writes.
        refine List.mem_append_right _ (Option.mem_toList.mpr (HistoryRun.write_eq_some.mpr ?_))
        exact ⟨quote, rfl, rfl, entry.2, member, (List.mem_singleton.mp now).symm⟩
    · have kept := HistoryRun.series_other recorded
        (fun quote entry member same => own ⟨quote, entry, member, same⟩)
      exact List.mem_append_left _ (series _ _ _ _ (kept ▸ inside))

theorem distinct_step_iff (unbarred : run.AllUnbarred) (distinct : run.Distinct)
    (stepped : run.step event = some next) : next.Distinct ↔ event.Unbarred := by
  obtain ⟨stamped, type, symbol, contract, num, published, cache, recorded⟩ := step_spec stepped
  have quote : stamped.isQuote = event.isQuote := by rw [MarketEvent.isQuote, MarketEvent.isQuote, type]
  have latest := latest_iff distinct.latest published cache
  rw [symbol, contract] at latest
  constructor
  · intro after
    have plain := latest.mp after.latest
    have fields := (series_iff unbarred (by rwa [symbol, contract]) distinct.series recorded).mp after.series
    rw [quote, num] at fields
    exact ⟨plain.1, plain.2, fields⟩
  · rintro ⟨plain, plain', fields⟩
    refine ⟨latest.mpr ⟨plain, plain'⟩, ?_⟩
    rw [← quote, ← num] at fields
    exact (series_iff unbarred (by rw [symbol, contract]; exact ⟨plain, plain'⟩) distinct.series recorded).mpr
      fields

theorem AllUnbarred.step (unbarred : run.AllUnbarred) (plain : event.Unbarred)
    (stepped : run.step event = some next) : next.AllUnbarred := by
  obtain ⟨stamped, type, symbol, contract, num, published, -, -⟩ := step_spec stepped
  intro other member
  rw [published] at member
  rcases List.mem_append.mp member with before | now
  · exact unbarred other before
  · rw [List.mem_singleton.mp now]
    have quote : stamped.isQuote = event.isQuote := by rw [MarketEvent.isQuote, MarketEvent.isQuote, type]
    unfold MarketEvent.Unbarred
    rw [symbol, contract, num, quote]
    exact plain

/--
In all states of a hub the cache and the series keep the names of instruments apart exactly when no
published event has a bar in its symbol or contract, or in the name of a number that a quote brings.
-/
theorem distinct_iff (historyPolicy : HistoryPolicy) (clock : Nat → Int) (events : List (MarketEvent V)) :
    Throughout step Distinct (start historyPolicy clock : HubRun V P) events ↔
      StepsMeet step (fun _ event => event.Unbarred) (start historyPolicy clock : HubRun V P) events := by
  have kept : ∀ (run : HubRun V P) event next, run.AllUnbarred → run.Distinct → run.step event = some next →
      (next.Distinct ↔ event.Unbarred) ∧ (event.Unbarred → next.AllUnbarred) :=
    fun run event next unbarred distinct stepped =>
      ⟨distinct_step_iff unbarred distinct stepped, fun plain => unbarred.step plain stepped⟩
  -- Before the first event nothing is found and nothing was published.
  refine throughout_iff_of_kept kept events _ ?_ ?_
  · exact fun event member => absurd member List.not_mem_nil
  · exact ⟨fun _ _ _ => rfl, fun _ _ _ sample member => absurd member List.not_mem_nil⟩

/-- An option quote, of a symbol with a bar in it and no contract. -/
def barredQuote : MarketEvent V where
  type := .OptionQuote
  symbol := [65, 0x7C, 66]
  contract := []
  source := []
  sequence := 0
  observedUnix := 0
  receivedUnix := 1
  num := ⟨[], List.nodup_nil⟩
  text := ⟨[], List.nodup_nil⟩

/-- That quote is also found for a symbol and a contract that nothing was published for. -/
theorem distinct_fails :
    ¬Throughout step Distinct (start ⟨60, 1000⟩ fun _ => 0 : HubRun Nat Nat) [barredQuote] := by
  intro throughout
  have distinct := throughout.last _ _ _ rfl
  have absent := distinct.latest .OptionQuote [65] [66, 0x7C]
  exact absurd (congrArg Option.isSome absent) (by decide)

end HubRun

end AgentC.Markethub

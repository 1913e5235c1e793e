import Mathlib
import AgentC.Listree.TreeOrder
import AgentC.Markethub.DeltaFeeds
import AgentC.Markethub.QuoteKeys

/-! Quotes that have become stale: which of them a hub reports, and how often. -/

namespace AgentC.Markethub

universe u v

variable {V : Type u} {P : Type v}

/-- A rule, with its place among the rules, and a quote that it looks at. -/
structure Watch (V : Type u) where
  position : Nat
  rule : StaleQuoteRule
  quote : MarketEvent V

namespace Watch

variable (watch : Watch V)

def flagKey : Text :=
  watch.rule.ruleId ++ 0x7C :: (watch.quote.symbol ++ 0x7C :: watch.quote.contract)

def Stale (now : Int) : Prop :=
  watch.rule.freshnessSeconds < now - watch.quote.freshnessUnix

instance (now : Int) : Decidable (watch.Stale now) :=
  inferInstanceAs (Decidable (_ < _))

def id : Nat × Int :=
  (watch.position, watch.quote.sequence)

def flag (now : Int) : Option Int :=
  if watch.Stale now then some watch.quote.sequence else none

/-- One look at a quote, with the quotes reported so far and the flags. -/
def sweep (now : Int) (found : List (Watch V) × (Text → Option Int)) (watch : Watch V) :
    List (Watch V) × (Text → Option Int) :=
  (if watch.Stale now ∧ found.2 watch.flagKey ≠ some watch.quote.sequence then found.1 ++ [watch]
    else found.1,
    Function.update found.2 watch.flagKey (watch.flag now))

end Watch

namespace MarketHub

variable (hub : MarketHub V P)

def watches : List (Watch V) :=
  hub.staleQuoteRules.zipIdx.flatMap fun rule =>
    (hub.cache.snapshot.filter MarketEvent.isQuote).map fun quote => ⟨rule.2, rule.1, quote⟩

def staleReports (now : Int) : List (Watch V) :=
  (hub.watches.foldl (Watch.sweep now) ([], hub.staleAlreadyFlagged)).1

end MarketHub

inductive HubCall (V : Type u) where
  | publish (event : MarketEvent V)
  | evaluateStaleness

/-- A hub that is called, with what its evaluations have found and reported. -/
structure StaleRun (V : Type u) (P : Type v) where
  run : HubRun V P
  stale : List (Watch V)
  reports : List (Int × Watch V)
  /-- The highlights that evaluations have published. -/
  highlights : List (MarketEvent V)

namespace StaleRun

/-- A new hub with its rules. -/
def start (historyPolicy : HistoryPolicy) (clock : Nat → Int) (priceMoveRules : List (PriceMoveRule V))
    (staleQuoteRules : List StaleQuoteRule) : StaleRun V P where
  run :=
    { hub := { MarketHub.new historyPolicy clock with priceMoveRules, staleQuoteRules }
      published := [] }
  stale := []
  reports := []
  highlights := []

variable (doubles : Doubles V) (s : StaleRun V P)

/-- One call. The highlights that follow are published behind it. -/
def step : HubCall V → Option (StaleRun V P)
  | .publish event =>
    let (stamped, _) := s.run.hub.stamp event
    let run := s.run.publish event
    some { s with run := (run.hub.priceMoves doubles stamped).foldl HubRun.publish run }
  | .evaluateStaleness =>
    let (now, hub) := s.run.hub.nowUnix
    let (highlights, hub') := hub.staleHighlightsLocked doubles now
    some
      { run := highlights.foldl HubRun.publish { s.run with hub := hub' }
        stale := s.stale ++ hub.watches.filter fun watch => decide (watch.Stale now)
        reports := s.reports ++ (hub.staleReports now).map fun watch => (now, watch)
        highlights := s.highlights ++ highlights }

/--
The rules have published one highlight for each quote that an evaluation has found stale for a rule,
and no other one.
-/
structure ReportedOnce : Prop where
  published : s.highlights =
    s.reports.map fun report => MarketHub.staleHighlight doubles report.1 report.2.rule report.2.quote
  once : (s.reports.map fun report => report.2.id).Nodup
  all : ∀ id, id ∈ s.reports.map (fun report => report.2.id) ↔ id ∈ s.stale.map Watch.id

def now : Int :=
  s.run.hub.clock s.run.hub.asked

def OwnFlags : HubCall V → Prop
  | .publish _ => True
  | .evaluateStaleness =>
    ∀ watch ∈ s.run.hub.watches, ∀ other ∈ s.run.hub.watches,
      watch.Stale s.now → watch.flagKey = other.flagKey → watch.id = other.id

end StaleRun

/-! ### Looking through a list of quotes -/

namespace Watch

variable {now : Int} {list : List (Watch V)} {flags : Text → Option Int}

theorem flags_foldl (found : List (Watch V) × (Text → Option Int)) (key : Text) :
    (list.foldl (sweep now) found).2 key =
      ((list.filter fun watch => decide (watch.flagKey = key)).getLast?).elim (found.2 key)
        fun watch => watch.flag now := by
  -- From the back: the last look under the name decides.
  induction list using List.reverseRecOn with
  | nil => rfl
  | append_singleton earlier last ih =>
    rw [List.foldl_concat, List.filter_append, List.filter_singleton]
    by_cases own : last.flagKey = key
    · rw [decide_eq_true own, cond_true, List.getLast?_concat, ← own]
      exact Function.update_self ..
    · rw [decide_eq_false own, cond_false, List.append_nil, ← ih]
      exact Function.update_of_ne (Ne.symm own) ..

def Own (now : Int) (list : List (Watch V)) : Prop :=
  ∀ watch ∈ list, ∀ other ∈ list, watch.Stale now → watch.flagKey = other.flagKey → watch.id = other.id

theorem Own.flag_eq (own : Own now list) (once : (list.map id).Nodup) {watch : Watch V}
    (member : watch ∈ list) (found : List (Watch V) × (Text → Option Int)) :
    (list.foldl (sweep now) found).2 watch.flagKey = watch.flag now := by
  rw [flags_foldl]
  have some_ : watch ∈ list.filter fun other => decide (other.flagKey = watch.flagKey) :=
    List.mem_filter.mpr ⟨member, decide_eq_true rfl⟩
  cases last : (list.filter fun other => decide (other.flagKey = watch.flagKey)).getLast? with
  | none =>
    rw [List.getLast?_eq_none_iff.mp last] at some_
    cases some_
  | some other =>
    obtain ⟨there, same⟩ := List.mem_filter.mp (List.mem_of_getLast? last)
    have key : other.flagKey = watch.flagKey := of_decide_eq_true same
    show other.flag now = watch.flag now
    -- If one of the two is stale they are the same, and otherwise both flags go.
    by_cases stale : watch.Stale now ∨ other.Stale now
    · have ids : watch.id = other.id := by
        rcases stale with stale | stale
        · exact own watch member other there stale key.symm
        · exact (own other there watch member stale key).symm
      rw [List.inj_on_of_nodup_map once member there ids]
    · obtain ⟨fresh, fresh'⟩ := not_or.mp stale
      rw [flag, flag, if_neg fresh, if_neg fresh']

theorem Own.reports_eq (own : Own now list) (once : (list.map id).Nodup) :
    (list.foldl (sweep now) ([], flags)).1 =
      list.filter fun watch =>
        decide (watch.Stale now ∧ flags watch.flagKey ≠ some watch.quote.sequence) := by
  induction list using List.reverseRecOn with
  | nil => rfl
  | append_singleton earlier last ih =>
    have apart : (earlier.map id).Nodup ∧ last.id ∉ earlier.map id := by
      rw [List.map_append, List.map_singleton, List.nodup_append] at once
      exact ⟨once.1, fun member => once.2.2 _ member _ List.mem_cons_self rfl⟩
    have ownEarlier : Own now earlier := fun watch member other there =>
      own watch (List.mem_append_left _ member) other (List.mem_append_left _ there)
    rw [List.foldl_concat, List.filter_append, List.filter_singleton, ← ih ownEarlier apart.1]
    -- No earlier look has touched the flag of a stale quote.
    have untouched : last.Stale now →
        (earlier.foldl (sweep now) ([], flags)).2 last.flagKey = flags last.flagKey := by
      intro stale
      rw [flags_foldl]
      have none_ : earlier.filter (fun watch => decide (watch.flagKey = last.flagKey)) = [] := by
        refine List.filter_eq_nil_iff.mpr fun watch member same => ?_
        have ids := own last (List.mem_append_right _ List.mem_cons_self) watch
          (List.mem_append_left _ member) stale (of_decide_eq_true same).symm
        exact apart.2 (List.mem_map.mpr ⟨watch, member, ids.symm⟩)
      rw [none_]
      rfl
    by_cases reported : last.Stale now ∧ flags last.flagKey ≠ some last.quote.sequence
    · have same := untouched reported.1
      rw [decide_eq_true reported, cond_true]
      exact if_pos ⟨reported.1, same ▸ reported.2⟩
    · rw [decide_eq_false reported, cond_false, List.append_nil]
      refine if_neg fun both => reported ⟨both.1, ?_⟩
      rw [← untouched both.1]
      exact both.2

end Watch

namespace MarketHub

variable (doubles : Doubles V) (now : Int)

def highlightOf (watch : Watch V) : MarketEvent V :=
  staleHighlight doubles now watch.rule watch.quote

theorem staleOne_eq (position : Nat) (rule : StaleQuoteRule) (quote : MarketEvent V)
    (isQuote : quote.isQuote = true) (found : List (Watch V) × (Text → Option Int)) :
    staleOne doubles now rule (found.1.map (highlightOf doubles now), found.2) quote =
      ((Watch.sweep now found ⟨position, rule, quote⟩).1.map (highlightOf doubles now),
        (Watch.sweep now found ⟨position, rule, quote⟩).2) := by
  have key : rule.ruleId ++ 0x7C :: (quote.symbol ++ 0x7C :: quote.contract) =
      Watch.flagKey ⟨position, rule, quote⟩ := rfl
  unfold staleOne Watch.sweep
  rw [if_neg (by simp [isQuote])]
  dsimp only
  rw [key]
  by_cases fresh : now - quote.freshnessUnix ≤ rule.freshnessSeconds
  · have young : ¬(⟨position, rule, quote⟩ : Watch V).Stale now := not_lt.mpr fresh
    rw [if_pos fresh, if_neg (fun both => young both.1), Watch.flag, if_neg young]
  · have stale : (⟨position, rule, quote⟩ : Watch V).Stale now := not_le.mp fresh
    rw [if_neg fresh, Watch.flag, if_pos stale]
    by_cases flagged : found.2 (Watch.flagKey ⟨position, rule, quote⟩) = some quote.sequence
    · -- The flag is put to what it is already.
      rw [if_pos flagged, if_neg (fun both => both.2 flagged), ← flagged, Function.update_eq_self]
    · rw [if_neg flagged, if_pos ⟨stale, flagged⟩, List.map_append]
      rfl

theorem foldl_staleOne (position : Nat) (rule : StaleQuoteRule) (quotes : List (MarketEvent V)) :
    ∀ found : List (Watch V) × (Text → Option Int),
      quotes.foldl (staleOne doubles now rule) (found.1.map (highlightOf doubles now), found.2) =
        let looked := ((quotes.filter MarketEvent.isQuote).map fun quote =>
          (⟨position, rule, quote⟩ : Watch V)).foldl (Watch.sweep now) found
        (looked.1.map (highlightOf doubles now), looked.2) := by
  induction quotes with
  | nil => exact fun _ => rfl
  | cons quote later ih =>
    intro found
    by_cases isQuote : quote.isQuote = true
    · rw [List.foldl_cons, staleOne_eq doubles now position rule quote isQuote,
        List.filter_cons_of_pos isQuote, List.map_cons, List.foldl_cons]
      exact ih _
    · -- Other events are passed by.
      rw [List.foldl_cons, List.filter_cons_of_neg isQuote, staleOne,
        if_pos (Bool.eq_false_iff.mpr isQuote)]
      exact ih found

theorem foldl_foldl_staleOne (quotes : List (MarketEvent V)) (rules : List StaleQuoteRule) :
    ∀ (first : Nat) (found : List (Watch V) × (Text → Option Int)),
      rules.foldl (fun found rule => quotes.foldl (staleOne doubles now rule) found)
          (found.1.map (highlightOf doubles now), found.2) =
        let looked := ((rules.zipIdx first).flatMap fun rule =>
          (quotes.filter MarketEvent.isQuote).map fun quote => (⟨rule.2, rule.1, quote⟩ : Watch V)).foldl
            (Watch.sweep now) found
        (looked.1.map (highlightOf doubles now), looked.2) := by
  induction rules with
  | nil => exact fun _ _ => rfl
  | cons rule later ih =>
    intro first found
    rw [List.foldl_cons, foldl_staleOne doubles now first, List.zipIdx_cons, List.flatMap_cons,
      List.foldl_append]
    exact ih (first + 1) _

theorem staleHighlightsLocked_eq (hub : MarketHub V P) :
    hub.staleHighlightsLocked doubles now =
      ((hub.staleReports now).map (highlightOf doubles now),
        { hub with
          staleAlreadyFlagged :=
            (hub.watches.foldl (Watch.sweep now) ([], hub.staleAlreadyFlagged)).2 }) := by
  have looked := foldl_foldl_staleOne doubles now hub.cache.snapshot hub.staleQuoteRules 0
    ([], hub.staleAlreadyFlagged)
  unfold staleHighlightsLocked
  rw [List.map_nil] at looked
  rw [looked]
  rfl

end MarketHub

/-! ### The events that are kept -/

/-- The names of the events that are kept ascend, and every event is kept under its own. -/
structure QuoteCache.Ascending (cache : QuoteCache V) : Prop where
  names : (cache.latest.map Prod.fst).Pairwise (· < ·)
  own : ∀ kept ∈ cache.latest, kept.1 = cacheKey kept.2.type kept.2.symbol kept.2.contract

theorem mem_insertLatest {key : Text} {event : MarketEvent V} {list : List (Text × MarketEvent V)}
    {kept : Text × MarketEvent V} (member : kept ∈ insertLatest key event list) :
    kept = (key, event) ∨ kept ∈ list := by
  induction list with
  | nil => exact Or.inl (List.mem_singleton.mp member)
  | cons first rest ih =>
    unfold insertLatest at member
    split at member
    · exact (List.mem_cons.mp member).imp_right (List.mem_cons_of_mem _)
    split at member
    · exact List.mem_cons.mp member
    · rcases List.mem_cons.mp member with rfl | member
      · exact Or.inr List.mem_cons_self
      · exact (ih member).imp_right (List.mem_cons_of_mem _)

theorem QuoteCache.Ascending.update {cache : QuoteCache V} (ascending : cache.Ascending)
    (event : MarketEvent V) : (cache.update event).Ascending where
  names := by
    have names := ascending.names
    unfold QuoteCache.update
    dsimp only
    generalize cacheKey event.type event.symbol event.contract = key
    generalize cache.latest = list at names
    induction list with
    | nil => exact List.pairwise_singleton _ _
    | cons first rest ih =>
      obtain ⟨before, later⟩ := List.pairwise_cons.mp names
      unfold insertLatest
      split
      · next same =>
        rw [List.map_cons]
        exact same ▸ names
      split
      · next less =>
        rw [List.map_cons, List.pairwise_cons]
        refine ⟨fun name member => ?_, names⟩
        rcases List.mem_cons.mp member with rfl | member
        · exact less
        · exact name_trans less (before name member)
      · next other notLess =>
        rw [List.map_cons, List.pairwise_cons]
        refine ⟨fun name member => ?_, ih later⟩
        obtain ⟨kept, inside, rfl⟩ := List.mem_map.mp member
        rcases mem_insertLatest inside with rfl | inside
        · -- The new name is behind the first one, since it is neither that one nor in front of it.
          exact Decidable.not_not.mp fun notBehind => other (name_eq_of_not_lt notLess notBehind)
        · exact before _ (List.mem_map_of_mem inside)
  own := by
    intro kept member
    rcases mem_insertLatest member with rfl | member
    · rfl
    · exact ascending.own kept member

namespace MarketHub

variable {hub : MarketHub V P}

theorem mem_watches {watch : Watch V} : watch ∈ hub.watches ↔
    hub.staleQuoteRules[watch.position]? = some watch.rule ∧ watch.quote ∈ hub.cache.snapshot ∧
      watch.quote.isQuote = true := by
  unfold watches
  rw [List.mem_flatMap]
  constructor
  · rintro ⟨rule, ruled, inside⟩
    obtain ⟨quote, kept, rfl⟩ := List.mem_map.mp inside
    obtain ⟨kept, isQuote⟩ := List.mem_filter.mp kept
    exact ⟨List.mem_zipIdx_iff_getElem?.mp ruled, kept, isQuote⟩
  · rintro ⟨ruled, kept, isQuote⟩
    exact ⟨(watch.rule, watch.position), List.mem_zipIdx_iff_getElem?.mpr ruled,
      List.mem_map.mpr ⟨watch.quote, List.mem_filter.mpr ⟨kept, isQuote⟩, rfl⟩⟩

theorem nodup_watches (numbers : (hub.cache.snapshot.map MarketEvent.sequence).Nodup) :
    (hub.watches.map Watch.id).Nodup := by
  have quotes : ((hub.cache.snapshot.filter MarketEvent.isQuote).map MarketEvent.sequence).Nodup :=
    numbers.sublist (List.filter_sublist.map _)
  have positions : (hub.staleQuoteRules.zipIdx.map Prod.snd).Nodup := List.nodup_zipIdx_map_snd _
  -- The ids are the pairs of the places of the rules and the numbers of the quotes.
  have pairs : hub.watches.map Watch.id = (hub.staleQuoteRules.zipIdx.map Prod.snd).product
      ((hub.cache.snapshot.filter MarketEvent.isQuote).map MarketEvent.sequence) := by
    unfold watches List.product
    rw [List.map_flatMap, List.flatMap_map]
    refine List.flatMap_congr fun rule _ => ?_
    rw [List.map_map, List.map_map]
    rfl
  rw [pairs]
  exact positions.product quotes

end MarketHub

/-! ### What a run keeps -/

namespace StaleRun

/--
What holds of a hub at any time. A quote that is kept bears a rule's flag exactly if it has been
reported for that rule, and what was reported stays stale.
-/
structure Tracks (s : StaleRun V P) : Prop where
  rising : Monotone s.run.hub.clock
  ascending : s.run.hub.cache.Ascending
  kept : ∀ event ∈ s.run.hub.cache.snapshot, event ∈ s.run.published
  numbered : ∀ event ∈ s.run.published, event.sequence ≤ s.run.hub.sequence
  apart : (s.run.published.map MarketEvent.sequence).Nodup
  flagged : ∀ key number, s.run.hub.staleAlreadyFlagged key = some number → number ≤ s.run.hub.sequence
  reported : ∀ report ∈ s.reports, report.2.quote ∈ s.run.published ∧ report.2.Stale report.1 ∧
    report.1 ≤ s.run.hub.clock s.run.hub.asked ∧
    s.run.hub.staleQuoteRules[report.2.position]? = some report.2.rule
  flags : ∀ watch ∈ s.run.hub.watches,
    (s.run.hub.staleAlreadyFlagged watch.flagKey = some watch.quote.sequence ↔
      watch.id ∈ s.reports.map fun report => report.2.id)

variable {s : StaleRun V P} {doubles : Doubles V}

namespace Tracks

theorem numbers (tracks : s.Tracks) : (s.run.hub.cache.snapshot.map MarketEvent.sequence).Nodup := by
  unfold QuoteCache.snapshot
  rw [List.map_map]
  have names : (s.run.hub.cache.latest.map Prod.fst).Nodup := 
    tracks.ascending.names.imp name_ne_of_lt
  refine List.Nodup.map_on ?_ names.of_map
  intro one member other member' same
  -- Of one number there is one event, and that has one name.
  have event : one.2 = other.2 := List.inj_on_of_nodup_map tracks.apart
    (tracks.kept _ (List.mem_map_of_mem member)) (tracks.kept _ (List.mem_map_of_mem member')) same
  refine Prod.ext ?_ event
  rw [tracks.ascending.own one member, tracks.ascending.own other member', event]

theorem publish (tracks : s.Tracks) (event : MarketEvent V) :
    Tracks { s with run := s.run.publish event } := by
  obtain ⟨received, asked, within, eq⟩ := s.run.hub.stamp_eq event
  unfold HubRun.publish
  rw [eq]
  dsimp only
  have above : ∀ {number : Int}, number ≤ s.run.hub.sequence → number ≤ ↑(s.run.hub.sequence + 1) := by
    intro number bound
    omega
  refine ⟨tracks.rising, tracks.ascending.update _, ?_, ?_, ?_, ?_, ?_, ?_⟩
  · intro kept member
    obtain ⟨entry, inside, rfl⟩ := List.mem_map.mp member
    rcases mem_insertLatest inside with rfl | inside
    · exact List.mem_append_right _ List.mem_cons_self
    · exact List.mem_append_left _ (tracks.kept _ (List.mem_map_of_mem inside))
  · intro published member
    rcases List.mem_append.mp member with before | now
    · exact above (tracks.numbered published before)
    · rw [List.mem_singleton.mp now]
      exact le_refl ((s.run.hub.sequence + 1 : Nat) : Int)
  · rw [List.map_append, List.nodup_append]
    refine ⟨tracks.apart, List.nodup_singleton _, ?_⟩
    rintro number member last own rfl
    obtain ⟨published, inside, rfl⟩ := List.mem_map.mp member
    have bound := tracks.numbered published inside
    have new := List.mem_singleton.mp own
    dsimp only at new
    omega
  · exact fun key number flag => above (tracks.flagged key number flag)
  · intro report member
    obtain ⟨published, stale, time, rule⟩ := tracks.reported report member
    exact ⟨List.mem_append_left _ published, stale, le_trans time (tracks.rising within), rule⟩
  · intro watch member
    obtain ⟨rule, kept, isQuote⟩ := MarketHub.mem_watches.mp member
    obtain ⟨entry, inside, same⟩ := List.mem_map.mp kept
    rcases mem_insertLatest inside with rfl | inside
    · -- The new number is above all that were flagged or reported.
      have number : watch.quote.sequence = ↑(s.run.hub.sequence + 1) := by rw [← same]
      refine iff_of_false (fun flag => ?_) (fun told => ?_)
      · have bound := tracks.flagged _ _ flag
        omega
      · obtain ⟨report, inside, id⟩ := List.mem_map.mp told
        have bound := tracks.numbered _ (tracks.reported report inside).1
        have numbers : report.2.quote.sequence = watch.quote.sequence := congrArg Prod.snd id
        omega
    · exact tracks.flags watch
        (MarketHub.mem_watches.mpr ⟨rule, same ▸ List.mem_map_of_mem inside, isQuote⟩)

theorem publishAll (events : List (MarketEvent V)) : ∀ {s : StaleRun V P}, s.Tracks →
    Tracks { s with run := events.foldl HubRun.publish s.run } := by
  induction events with
  | nil => exact fun tracks => tracks
  | cons event later ih => exact fun tracks => ih (tracks.publish event)

end Tracks

/-- A hub that has evaluated and not yet published the highlights. -/
def evaluated (doubles : Doubles V) (s : StaleRun V P) : StaleRun V P where
  run :=
    { s.run with
      hub :=
        { s.run.hub with
          asked := s.run.hub.asked + 1
          staleAlreadyFlagged :=
            (s.run.hub.watches.foldl (Watch.sweep s.now) ([], s.run.hub.staleAlreadyFlagged)).2 } }
  stale := s.stale ++ s.run.hub.watches.filter fun watch => decide (watch.Stale s.now)
  reports := s.reports ++ (s.run.hub.staleReports s.now).map fun watch => (s.now, watch)
  highlights := s.highlights ++
    (s.run.hub.staleReports s.now).map (MarketHub.highlightOf doubles s.now)

theorem step_evaluate (s : StaleRun V P) : s.step doubles .evaluateStaleness =
    some
      { s.evaluated doubles with
        run := ((s.run.hub.staleReports s.now).map (MarketHub.highlightOf doubles s.now)).foldl
          HubRun.publish (s.evaluated doubles).run } := by
  unfold step MarketHub.nowUnix
  dsimp only
  rw [MarketHub.staleHighlightsLocked_eq]
  rfl

namespace Tracks

theorem mem_staleReports (tracks : s.Tracks) (own : s.OwnFlags .evaluateStaleness) {watch : Watch V} :
    watch ∈ s.run.hub.staleReports s.now ↔ watch ∈ s.run.hub.watches ∧ watch.Stale s.now ∧
      s.run.hub.staleAlreadyFlagged watch.flagKey ≠ some watch.quote.sequence := by
  unfold MarketHub.staleReports
  rw [Watch.Own.reports_eq own (MarketHub.nodup_watches tracks.numbers), List.mem_filter,
    decide_eq_true_iff]

theorem eq_of_reported (tracks : s.Tracks) {watch : Watch V} (member : watch ∈ s.run.hub.watches)
    {report : Int × Watch V} (told : report ∈ s.reports) (same : report.2.id = watch.id) :
    report.2 = watch := by
  obtain ⟨published, -, -, rule⟩ := tracks.reported report told
  obtain ⟨rule', kept, -⟩ := MarketHub.mem_watches.mp member
  obtain ⟨time, ⟨position, ruled, quote⟩⟩ := report
  obtain ⟨position', ruled', quote'⟩ := watch
  obtain ⟨rfl, numbers⟩ := Prod.ext_iff.mp same
  obtain rfl : quote = quote' :=
    List.inj_on_of_nodup_map tracks.apart published (tracks.kept _ kept) numbers
  obtain rfl : ruled = ruled' := Option.some.inj (rule.symm.trans rule')
  rfl

theorem stale_of_reported (tracks : s.Tracks) {watch : Watch V} (member : watch ∈ s.run.hub.watches)
    (told : watch.id ∈ s.reports.map fun report => report.2.id) : watch.Stale s.now := by
  obtain ⟨report, told, same⟩ := List.mem_map.mp told
  obtain ⟨-, stale, time, -⟩ := tracks.reported report told
  rw [tracks.eq_of_reported member told same] at stale
  have later : report.1 ≤ s.now := time
  unfold Watch.Stale at stale ⊢
  omega

theorem evaluated (tracks : s.Tracks) (own : s.OwnFlags .evaluateStaleness) :
    (s.evaluated doubles).Tracks := by
  have ids := MarketHub.nodup_watches tracks.numbers
  have later : s.now ≤ s.run.hub.clock (s.run.hub.asked + 1) := tracks.rising (Nat.le_succ _)
  refine ⟨tracks.rising, tracks.ascending, tracks.kept, tracks.numbered, tracks.apart, ?_, ?_, ?_⟩
  · intro key number flag
    have looked := @Watch.flags_foldl _ s.now s.run.hub.watches ([], s.run.hub.staleAlreadyFlagged) key
    cases last : (s.run.hub.watches.filter fun watch => decide (watch.flagKey = key)).getLast? with
    | none =>
      rw [last] at looked
      exact tracks.flagged key number (looked.symm.trans flag)
    | some watch =>
      rw [last] at looked
      have flagged : watch.flag s.now = some number := looked.symm.trans flag
      unfold Watch.flag at flagged
      obtain ⟨-, numbers⟩ := Option.ite_none_right_eq_some.mp flagged
      have member := (List.mem_filter.mp (List.mem_of_getLast? last)).1
      exact Option.some.inj numbers ▸ tracks.numbered _ (tracks.kept _ (MarketHub.mem_watches.mp member).2.1)
  · intro report member
    rcases List.mem_append.mp member with before | new
    · obtain ⟨published, stale, time, rule⟩ := tracks.reported report before
      exact ⟨published, stale, le_trans time later, rule⟩
    · obtain ⟨watch, told, rfl⟩ := List.mem_map.mp new
      obtain ⟨inside, stale, -⟩ := (tracks.mem_staleReports own).mp told
      obtain ⟨rule, kept, -⟩ := MarketHub.mem_watches.mp inside
      exact ⟨tracks.kept _ kept, stale, later, rule⟩
  · intro watch member
    have inside : watch ∈ s.run.hub.watches := member
    have flag : (s.evaluated doubles).run.hub.staleAlreadyFlagged watch.flagKey = watch.flag s.now :=
      Watch.Own.flag_eq own ids inside _
    -- Both sides say that the quote is stale.
    have stale : (s.evaluated doubles).run.hub.staleAlreadyFlagged watch.flagKey = some watch.quote.sequence ↔
        watch.Stale s.now := by
      rw [flag, Watch.flag, Option.ite_none_right_eq_some]
      exact and_iff_left rfl
    rw [stale]
    unfold StaleRun.evaluated
    rw [List.map_append, List.mem_append, List.map_map]
    constructor
    · intro old
      by_cases flagged : s.run.hub.staleAlreadyFlagged watch.flagKey = some watch.quote.sequence
      · exact Or.inl ((tracks.flags watch inside).mp flagged)
      · exact Or.inr (List.mem_map.mpr ⟨watch, (tracks.mem_staleReports own).mpr ⟨inside, old, flagged⟩, rfl⟩)
    · rintro (before | new)
      · exact tracks.stale_of_reported inside before
      · obtain ⟨other, told, same⟩ := List.mem_map.mp new
        obtain ⟨there, old, -⟩ := (tracks.mem_staleReports own).mp told
        exact List.inj_on_of_nodup_map ids there inside same ▸ old

theorem reportedOnce (tracks : s.Tracks) (own : s.OwnFlags .evaluateStaleness)
    (reported : s.ReportedOnce doubles) : (s.evaluated doubles).ReportedOnce doubles := by
  have ids := MarketHub.nodup_watches tracks.numbers
  have new : ((s.run.hub.staleReports s.now).map fun watch => (s.now, watch)).map
      (fun report => report.2.id) = (s.run.hub.staleReports s.now).map Watch.id := by
    rw [List.map_map]
    rfl
  refine ⟨?_, ?_, ?_⟩
  · unfold StaleRun.evaluated
    rw [List.map_append, ← reported.published, List.map_map]
    rfl
  · unfold StaleRun.evaluated
    rw [List.map_append, new, List.nodup_append]
    refine ⟨reported.once, ?_, ?_⟩
    · unfold MarketHub.staleReports
      rw [Watch.Own.reports_eq own ids]
      exact ids.sublist (List.filter_sublist.map _)
    · rintro id before other now rfl
      obtain ⟨watch, told, rfl⟩ := List.mem_map.mp now
      obtain ⟨inside, -, unflagged⟩ := (tracks.mem_staleReports own).mp told
      exact unflagged ((tracks.flags watch inside).mpr before)
  · intro id
    unfold StaleRun.evaluated
    rw [List.map_append, new, List.mem_append, List.map_append, List.mem_append, reported.all]
    constructor
    · refine Or.imp_right fun told => ?_
      obtain ⟨watch, now, rfl⟩ := List.mem_map.mp told
      obtain ⟨inside, stale, -⟩ := (tracks.mem_staleReports own).mp now
      exact List.mem_map_of_mem (List.mem_filter.mpr ⟨inside, decide_eq_true stale⟩)
    · rintro (before | found)
      · exact Or.inl before
      · obtain ⟨watch, now, rfl⟩ := List.mem_map.mp found
        obtain ⟨inside, stale⟩ := List.mem_filter.mp now
        by_cases flagged : s.run.hub.staleAlreadyFlagged watch.flagKey = some watch.quote.sequence
        · exact Or.inl ((reported.all _).mp ((tracks.flags watch inside).mp flagged))
        · exact Or.inr (List.mem_map_of_mem
            ((tracks.mem_staleReports own).mpr ⟨inside, of_decide_eq_true stale, flagged⟩))

end Tracks

theorem ReportedOnce.of_run (reported : s.ReportedOnce doubles) (run : HubRun V P) :
    ReportedOnce doubles { s with run } :=
  ⟨reported.published, reported.once, reported.all⟩

theorem Tracks.step {next : StaleRun V P} {call : HubCall V} (tracks : s.Tracks)
    (reported : s.ReportedOnce doubles) (own : s.OwnFlags call) (stepped : s.step doubles call = some next) :
    next.Tracks ∧ next.ReportedOnce doubles := by
  cases call with
  | publish event =>
    cases stepped
    exact ⟨(tracks.publish event).publishAll _, reported.of_run _⟩
  | evaluateStaleness =>
    rw [step_evaluate] at stepped
    cases stepped
    exact ⟨(tracks.evaluated own).publishAll _, (tracks.reportedOnce own reported).of_run _⟩

/--
Where the clock does not go back and no evaluation finds a stale quote of a rule whose flag is also
that of another rule or quote, every rule reports every quote once that is found stale.
-/
theorem reportedOnce_of_ownFlags (doubles : Doubles V) (historyPolicy : HistoryPolicy) (clock : Nat → Int)
    (priceMoveRules : List (PriceMoveRule V)) (staleQuoteRules : List StaleQuoteRule)
    (rising : Monotone clock) (calls : List (HubCall V))
    (own : StepsMeet (step doubles) OwnFlags
      (start historyPolicy clock priceMoveRules staleQuoteRules : StaleRun V P) calls) :
    Throughout (step doubles) (ReportedOnce doubles)
      (start historyPolicy clock priceMoveRules staleQuoteRules : StaleRun V P) calls := by
  have kept : ∀ (s : StaleRun V P) call next, s.Tracks ∧ s.ReportedOnce doubles → s.OwnFlags call →
      s.step doubles call = some next → next.Tracks ∧ next.ReportedOnce doubles :=
    fun s call next both own stepped => both.1.step both.2 own stepped
  have none_ : ∀ {α : Type _} {a : α} {p : Prop}, a ∈ ([] : List α) → p :=
    fun member => absurd member List.not_mem_nil
  -- Before the first call nothing was published, flagged, found or reported.
  have bare : (start historyPolicy clock priceMoveRules staleQuoteRules : StaleRun V P).Tracks := by
    refine ⟨rising, ⟨List.Pairwise.nil, fun _ => none_⟩, fun _ => none_, fun _ => none_, List.nodup_nil, ?_,
      fun _ => none_, ?_⟩
    · intro key number flag
      cases flag
    · exact fun watch member => none_ (MarketHub.mem_watches.mp member).2.1
  refine Throughout.imp (fun s both => both.2) calls _ (throughout_of_stepsMeet kept calls _ ⟨bare, ?_⟩ own)
  exact ⟨rfl, List.nodup_nil, fun _ => Iff.rfl⟩

/-- A quote that was observed in the first second. -/
def oldQuote (type : EventType) : MarketEvent Int where
  type := type
  symbol := [65]
  contract := []
  source := []
  sequence := 0
  observedUnix := 1
  receivedUnix := 1
  num := ⟨[], List.nodup_nil⟩
  text := ⟨[], List.nodup_nil⟩

def oldHub : StaleRun Int Nat :=
  start ⟨60, 1000⟩ (fun _ => 100) [] [⟨[115], 30⟩]

/-- One old quote is reported once. -/
theorem reportedOnce_of_ownFlags_oldHub :
    Throughout (step wholeNumbers) (ReportedOnce wholeNumbers) oldHub
      [.publish (oldQuote .UnderlyingQuote), .evaluateStaleness] := by
  refine reportedOnce_of_ownFlags wholeNumbers ⟨60,
    1000⟩ (fun _ => 100) [] [⟨[115], 30⟩] monotone_const _ ?_
  intro next stepped
  cases stepped
  refine ⟨trivial, fun next stepped => ⟨?_, trivial⟩⟩
  -- There is one quote, so no other one has its flag.
  intro watch member other member' stale same
  rw [List.mem_singleton.mp member, List.mem_singleton.mp member']

/-- Two quotes of one symbol take each other's flag, and are reported again. -/
theorem reportedOnce_fails : ¬Throughout (step wholeNumbers) (ReportedOnce wholeNumbers) oldHub
    [.publish (oldQuote .UnderlyingQuote), .publish (oldQuote .OptionQuote), .evaluateStaleness,
      .evaluateStaleness] := by
  intro throughout
  have reported := throughout.last _ _ _ rfl
  exact absurd reported.once (by decide)

end StaleRun

end AgentC.Markethub

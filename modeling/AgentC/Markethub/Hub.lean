import AgentC.Library.Threads
import AgentC.Listree.Tree
import AgentC.Markethub.History

/-! The hub, which stamps events and hands them to those who have subscribed to them. -/

namespace AgentC.Markethub

universe u v w

/-- The arithmetic of rules. -/
structure Doubles (V : Type u) where
  sub : V → V → V
  mul : V → V → V
  div : V → V → V
  fabs : V → V
  less : V → V → Bool
  isZero : V → Bool
  ofInt : Int → V

def eventTypeName : EventType → Text
  | .UnderlyingQuote => ascii "underlying_quote"
  | .OptionQuote => ascii "option_quote"
  | .OptionChainSnapshot => ascii "option_chain_snapshot"
  | .HistorySample => ascii "history_sample"
  | .Highlight => ascii "highlight"

def cacheKey (type : EventType) (symbol contract : Text) : Text :=
  eventTypeName type ++ 0x7C :: (symbol ++ 0x7C :: contract)

/-- The latest events under their names, which stand in ascending order. -/
structure QuoteCache (V : Type u) where
  latest : List (Text × MarketEvent V)

/-- An event takes its place among those that are kept. -/
def insertLatest {V : Type u} (key : Text) (event : MarketEvent V) :
    List (Text × MarketEvent V) → List (Text × MarketEvent V)
  | [] => [(key, event)]
  | kept :: rest =>
    if key = kept.1 then (key, event) :: rest
    else if key < kept.1 then (key, event) :: kept :: rest
    else kept :: insertLatest key event rest

def QuoteCache.update {V : Type u} (cache : QuoteCache V) (event : MarketEvent V) : QuoteCache V where
  latest := insertLatest (cacheKey event.type event.symbol event.contract) event cache.latest

def QuoteCache.snapshot {V : Type u} (cache : QuoteCache V) : List (MarketEvent V) :=
  cache.latest.map Prod.snd

/-- Highlights numbers that move by more than a threshold within a time. -/
structure PriceMoveRule (V : Type u) where
  ruleId : Text
  sourceType : EventType
  field : Text
  thresholdPct : V
  lookbackSeconds : Int

/-- Highlights quotes that are older than a time. -/
structure StaleQuoteRule where
  ruleId : Text
  freshnessSeconds : Int

/-- Keeps the latest events for clients that poll. -/
structure DeltaFeedSubscriber (V : Type u) where
  maxEvents : Nat
  events : List (MarketEvent V)

namespace DeltaFeedSubscriber

variable {V : Type u} (feed : DeltaFeedSubscriber V)

def roomFor (maxEvents : Nat) : Nat :=
  if maxEvents = 0 then 1 else maxEvents

def new (maxEvents : Nat) : DeltaFeedSubscriber V where
  maxEvents := roomFor maxEvents
  events := []

def onEvent (event : MarketEvent V) : DeltaFeedSubscriber V :=
  { feed with events := dropOldest feed.maxEvents (feed.events ++ [event]) }

def deltasSince (sinceSequence : Int) : List (MarketEvent V) :=
  feed.events.filter fun event => sinceSequence < event.sequence

def latestSequence : Int :=
  (feed.events.getLast?.map MarketEvent.sequence).getD 0

end DeltaFeedSubscriber

/-- The two kinds of subscribers. -/
inductive Subscriber (V : Type u) where
  | deltaFeed (feed : DeltaFeedSubscriber V)
  /-- Collects its events until they are drained. -/
  | envelopeCollector (pending : List (MarketEvent V))

def Subscriber.onEvent {V : Type u} (event : MarketEvent V) : Subscriber V → Subscriber V
  | .deltaFeed feed => .deltaFeed (feed.onEvent event)
  | .envelopeCollector pending => .envelopeCollector (pending ++ [event])

/-- A subscription; `P` are pointers to subscribers. -/
structure Subscription (P : Type v) where
  id : Int
  subscriber : Option P
  filter : SubscriptionFilter

def Subscription.target {V : Type u} {P : Type v} (event : MarketEvent V) (sub : Subscription P) :
    Option P :=
  if sub.filter.matches event then sub.subscriber else none

/-- The hub. `clock` is what its clock answers to each question, the first one first. -/
structure MarketHub (V : Type u) (P : Type v) where
  clock : Nat → Int
  /-- How often the clock was asked. -/
  asked : Nat
  sequence : Nat
  nextSubscriptionId : Int
  subscriptions : List (Subscription P)
  cache : QuoteCache V
  history : HistoryStore V
  priceMoveRules : List (PriceMoveRule V)
  staleQuoteRules : List StaleQuoteRule
  /-- For the rule and the quote that was flagged, the sequence number it had. -/
  staleAlreadyFlagged : Text → Option Int

namespace MarketHub

variable {V : Type u} {P : Type v} (doubles : Doubles V) (hub : MarketHub V P)

def nowUnix : Int × MarketHub V P :=
  (hub.clock hub.asked, { hub with asked := hub.asked + 1 })

/-- A subscriber gets the events that its filter lets through from now on. -/
def subscribe (subscriber : Option P) (filter : SubscriptionFilter) : MarketHub V P :=
  { hub with
    nextSubscriptionId := hub.nextSubscriptionId + 1
    subscriptions := hub.subscriptions ++ [⟨hub.nextSubscriptionId, subscriber, filter⟩] }

def targets (event : MarketEvent V) : List P :=
  hub.subscriptions.filterMap (Subscription.target event)

def moveNames : List Text :=
  [ascii "change_pct", ascii "from", ascii "to", ascii "window_seconds"]

theorem moveNames_nodup : moveNames.Nodup := by decide

def staleNames : List Text :=
  [ascii "age_seconds", ascii "stale_sequence"]

theorem staleNames_nodup : staleNames.Nodup := by decide

def textNames : List Text :=
  [ascii "detail", ascii "kind", ascii "rule_id"]

theorem textNames_nodup : textNames.Nodup := by decide

def highlightText (ruleId kind detail : Text) : Fields Text where
  entries := [(ascii "detail", detail), (ascii "kind", kind), (ascii "rule_id", ruleId)]
  once := textNames_nodup

def priceMove (event : MarketEvent V) (rule : PriceMoveRule V) : Option (MarketEvent V) :=
  if event.type ≠ rule.sourceType ∨ event.numOf rule.field = none then none
  else
    let samples := hub.history.series event.symbol event.contract rule.field
    if samples.length < 2 then none
    else
      match samples.getLast? with
      | none => none
      | some latest =>
        let windowStart := latest.bucketUnix - rule.lookbackSeconds
        -- The oldest sample in the window that another event has left.
        match samples.find? fun sample =>
            decide (windowStart ≤ sample.bucketUnix) &&
              decide (sample.sourceSequence ≠ latest.sourceSequence) with
        | none => none
        | some baseline =>
          if doubles.isZero baseline.value then none
          else
            let changePct := doubles.mul
              (doubles.div (doubles.sub latest.value baseline.value) baseline.value)
              (doubles.ofInt 100)
            if doubles.less (doubles.fabs changePct) rule.thresholdPct then none
            else
              some
                { type := .Highlight
                  symbol := event.symbol
                  contract := event.contract
                  source := ascii "highlight:" ++ rule.ruleId
                  sequence := 0
                  observedUnix := event.freshnessUnix
                  receivedUnix := 0
                  num :=
                    { entries :=
                        [(ascii "change_pct", changePct), (ascii "from", baseline.value),
                          (ascii "to", latest.value),
                          (ascii "window_seconds", doubles.ofInt rule.lookbackSeconds)]
                      once := moveNames_nodup }
                  text := highlightText rule.ruleId (ascii "price_move") rule.field }

def stamp (event : MarketEvent V) : MarketEvent V × MarketHub V P :=
  let sequence := hub.sequence + 1
  let hub := { hub with sequence := sequence }
  if event.receivedUnix = 0 then
    let (now, hub) := hub.nowUnix
    ({ event with sequence := sequence, receivedUnix := now }, hub)
  else ({ event with sequence := sequence }, hub)

def priceMoves (event : MarketEvent V) : List (MarketEvent V) :=
  if event.type = .Highlight then []
  else hub.priceMoveRules.filterMap (hub.priceMove doubles event)

/-- The part of `publish` under the lock, apart from `dispatch`, which takes the stamped event. -/
def record (stamped : MarketEvent V) : MarketHub V P :=
  { hub with
    cache := hub.cache.update stamped
    history := hub.history.record stamped }

def staleHighlight (now : Int) (rule : StaleQuoteRule) (cached : MarketEvent V) :
    MarketEvent V where
  type := .Highlight
  symbol := cached.symbol
  contract := cached.contract
  source := ascii "highlight:" ++ rule.ruleId
  sequence := 0
  observedUnix := now
  receivedUnix := 0
  num :=
    { entries :=
        [(ascii "age_seconds", doubles.ofInt (now - cached.freshnessUnix)),
          (ascii "stale_sequence", doubles.ofInt cached.sequence)]
      once := staleNames_nodup }
  text := highlightText rule.ruleId (ascii "stale_quote") (eventTypeName cached.type)

def staleOne (now : Int) (rule : StaleQuoteRule)
    (found : List (MarketEvent V) × (Text → Option Int)) (cached : MarketEvent V) :
    List (MarketEvent V) × (Text → Option Int) :=
  if cached.isQuote = false then found
  else
    let flagKey := rule.ruleId ++ 0x7C :: (cached.symbol ++ 0x7C :: cached.contract)
    if now - cached.freshnessUnix ≤ rule.freshnessSeconds then
      -- A fresh quote may be flagged again.
      (found.1, Function.update found.2 flagKey none)
    else if found.2 flagKey = some cached.sequence then found
    else
      (found.1 ++ [staleHighlight doubles now rule cached],
        Function.update found.2 flagKey (some cached.sequence))

/-- The quotes that have become stale, each flagged once. -/
def staleHighlightsLocked (now : Int) : List (MarketEvent V) × MarketHub V P :=
  let (highlights, flagged) := hub.staleQuoteRules.foldl
    (fun found rule => hub.cache.snapshot.foldl (staleOne doubles now rule) found)
    ([], hub.staleAlreadyFlagged)
  (highlights, { hub with staleAlreadyFlagged := flagged })

end MarketHub

/-- The hub with its subscribers, and the position of each client in each feed. -/
structure Market (V : Type u) (P : Type v) (γ : Type w) where
  hub : MarketHub V P
  subscribers : P → Subscriber V
  /-- What a client passes to a feed, which is the latest sequence number that it got from there. -/
  since : P → γ → Int

inductive Happening (V : Type u) (P : Type v) (γ : Type w) where
  | published (event : MarketEvent V)
  | polled (feed : P) (client : γ) (answer : List (MarketEvent V))

inductive Call (V : Type u) (P : Type v) (γ : Type w) where
  | publish (event : MarketEvent V)
  | evaluateStaleness
  | addPriceMoveRule (rule : PriceMoveRule V)
  | addStaleQuoteRule (rule : StaleQuoteRule)
  | poll (feed : P) (client : γ)

namespace Market

variable {V : Type u} {P : Type v} {γ : Type w} [DecidableEq P] [DecidableEq γ]
  (doubles : Doubles V) (market : Market V P γ)

/-- Handing an event to those who are to get it. -/
def dispatch (event : MarketEvent V) : Market V P γ :=
  { market with
    subscribers := (market.hub.targets event).foldl
      (fun subscribers target =>
        Function.update subscribers target ((subscribers target).onEvent event))
      market.subscribers }

/-- What a client gets from a feed, with the position it then has. -/
def answer (feed : P) (client : γ) : List (MarketEvent V) × Int :=
  match market.subscribers feed with
  | .deltaFeed subscriber =>
    (subscriber.deltasSince (market.since feed client), subscriber.latestSequence)
  | .envelopeCollector _ => ([], market.since feed client)

/--
What is done at once. Highlights are published after that, each under the lock again.
-/
def perform : Call V P γ → Outcome (Market V P γ) (Call V P γ) (Happening V P γ)
  | .publish event =>
    let (stamped, hub) := market.hub.stamp event
    let hub := hub.record stamped
    { shared := { market with hub }.dispatch stamped
      later := (hub.priceMoves doubles stamped).map fun highlight => .locked [.publish highlight]
      events := [.published stamped] }
  | .evaluateStaleness =>
    let (now, hub) := market.hub.nowUnix
    let (highlights, hub) := hub.staleHighlightsLocked doubles now
    { shared := { market with hub }
      later := highlights.map fun highlight => .locked [.publish highlight] }
  | .addPriceMoveRule rule =>
    { shared :=
        { market with
          hub := { market.hub with priceMoveRules := market.hub.priceMoveRules ++ [rule] } } }
  | .addStaleQuoteRule rule =>
    { shared :=
        { market with
          hub := { market.hub with staleQuoteRules := market.hub.staleQuoteRules ++ [rule] } } }
  | .poll feed client =>
    let (events, latest) := market.answer feed client
    { shared :=
        { market with
          since := Function.update market.since feed
            (Function.update (market.since feed) client latest) }
      events := [.polled feed client events] }

def body : Call V P γ → List (Segment (Call V P γ))
  | .poll feed client => [.free (.poll feed client)]
  | call => [.locked [call]]

/-- A new feed has subscribed, and no client has called it. -/
def open_ (hub : MarketHub V P) (subscribers : P → Subscriber V) (feed : P) (maxEvents : Nat)
    (filter : SubscriptionFilter) : Market V P γ where
  hub := hub.subscribe (some feed) filter
  subscribers := Function.update subscribers feed (.deltaFeed (.new maxEvents))
  since := fun _ _ => 0

abbrev System (V : Type u) (P : Type v) (γ : Type w) (τ : Type*) :=
  Threads (Market V P γ) (Call V P γ) (Happening V P γ) τ

def step {τ : Type*} [DecidableEq τ] (s : System V P γ τ) (turn : Turn τ (Call V P γ)) :
    Option (System V P γ τ) :=
  Threads.step (perform doubles) body s turn

end Market

end AgentC.Markethub

import AgentC.Library.Replay
import AgentC.Markethub.Hub

/-! What the clients of a feed get of the events that a hub publishes. -/

namespace AgentC.Markethub

universe u v w x

variable {V : Type u} {P : Type v} {γ : Type w} {τ : Type x} [DecidableEq P]

def Happening.atFeed (feed : P) (filter : SubscriptionFilter) :
    Happening V P γ → Option (Replayed (MarketEvent V) γ)
  | .published event => if filter.matches event then some (.put event) else none
  | .polled other client answer => if other = feed then some (.polled client answer) else none

def pastOf (feed : P) (filter : SubscriptionFilter) (past : List (Happening V P γ)) :
    List (Replayed (MarketEvent V) γ) :=
  past.filterMap (Happening.atFeed feed filter)

section PastOf

variable {feed other : P} {filter : SubscriptionFilter} {past : List (Happening V P γ)}
  {event : MarketEvent V} {client : γ} {answer : List (MarketEvent V)}

theorem pastOf_concat {last : Happening V P γ} : pastOf feed filter (past ++ [last]) =
    pastOf feed filter past ++ (last.atFeed feed filter).toList := by
  unfold pastOf
  rw [List.filterMap_append]
  cases there : last.atFeed feed filter with
  | none => rw [List.filterMap_cons_none there]; rfl
  | some happened => rw [List.filterMap_cons_some there]; rfl

theorem pastOf_through (through : filter.matches event = true) :
    pastOf feed filter (past ++ [.published event]) = pastOf feed filter past ++ [.put event] := by
  rw [pastOf_concat, Happening.atFeed, if_pos through, Option.toList_some]

theorem pastOf_stopped (stopped : ¬filter.matches event = true) :
    pastOf feed filter (past ++ [.published event]) = pastOf feed filter past := by
  rw [pastOf_concat, Happening.atFeed, if_neg stopped, Option.toList_none, List.append_nil]

theorem pastOf_polled : pastOf feed filter (past ++ [.polled feed client answer]) =
    pastOf feed filter past ++ [.polled client answer] := by
  rw [pastOf_concat, Happening.atFeed, if_pos rfl, Option.toList_some]

theorem pastOf_polled_other (apart : other ≠ feed) :
    pastOf feed filter (past ++ [.polled other client answer]) = pastOf feed filter past := by
  rw [pastOf_concat, Happening.atFeed, if_neg apart, Option.toList_none, List.append_nil]

end PastOf

variable [DecidableEq γ]

/--
A feed keeps the last events that its filter lets through, by rising sequence numbers. A client
that polls in time has got all of them once, in their order, apart from those since its last poll.
-/
def Delivered (feed : P) (maxEvents : Nat) (filter : SubscriptionFilter)
    (s : Market.System V P γ τ) : Prop :=
  ∃ subscriber, s.shared.subscribers feed = .deltaFeed subscriber ∧
    subscriber.events.Pairwise (·.sequence < ·.sequence) ∧
    subscriber.events = dropOldest maxEvents (Replayed.puts (pastOf feed filter s.trace)) ∧
    ∀ client, Replayed.GapsFit client maxEvents (pastOf feed filter s.trace) →
      Replayed.received client (pastOf feed filter s.trace) ++
        Replayed.unseen client (pastOf feed filter s.trace) =
          Replayed.puts (pastOf feed filter s.trace)

def Subscription.filterOf (feed : P) (sub : Subscription P) : Option SubscriptionFilter :=
  if sub.subscriber = some feed then some sub.filter else none

/-- A feed has one subscription, and holds what it should. -/
structure Feeding (feed : P) (cap : Nat) (filter : SubscriptionFilter) (market : Market V P γ)
    (past : List (Happening V P γ)) : Prop where
  subscribed : market.hub.subscriptions.filterMap (Subscription.filterOf feed) = [filter]
  holds : ∃ subscriber, market.subscribers feed = .deltaFeed subscriber ∧
    subscriber.maxEvents = cap ∧
    Serves MarketEvent.sequence cap 0 (market.hub.sequence : Int) subscriber.events
      (market.since feed) (pastOf feed filter past)

section Steps

variable {doubles : Doubles V} {feed : P} {cap : Nat} {filter : SubscriptionFilter}
  {market : Market V P γ} {past : List (Happening V P γ)} {event : MarketEvent V}

theorem foldl_onEvent (event : MarketEvent V) (feed : P) :
    ∀ (subs : List (Subscription P)) (subscribers : P → Subscriber V),
      ((subs.filterMap (Subscription.target event)).foldl
        (fun subscribers target =>
          Function.update subscribers target ((subscribers target).onEvent event))
        subscribers) feed =
      (subs.filterMap (Subscription.filterOf feed)).foldl
        (fun subscriber filter =>
          if filter.matches event then subscriber.onEvent event else subscriber)
        (subscribers feed) := by
  -- One subscription after another; only those of the feed change it.
  intro subs
  induction subs with
  | nil => intro subscribers; rfl
  | cons sub rest ih =>
    intro subscribers
    by_cases mine : sub.subscriber = some feed
    · rw [List.filterMap_cons_some (f := Subscription.filterOf feed) (if_pos mine), List.foldl_cons]
      by_cases through : sub.filter.matches event = true
      · have target : sub.target event = some feed := by rw [Subscription.target, if_pos through, mine]
        rw [List.filterMap_cons_some target, List.foldl_cons, ih, Function.update_self,
          if_pos through]
      · rw [List.filterMap_cons_none (f := Subscription.target event) (if_neg through), ih,
          if_neg through]
    · rw [List.filterMap_cons_none (f := Subscription.filterOf feed) (if_neg mine)]
      cases target : sub.target event with
      | none => rw [List.filterMap_cons_none target, ih]
      | some other =>
        have apart : feed ≠ other := by
          intro same
          obtain ⟨-, theirs⟩ := Option.ite_none_right_eq_some.mp target
          exact mine (same ▸ theirs)
        rw [List.filterMap_cons_some target, List.foldl_cons, ih, Function.update_of_ne apart]

omit [DecidableEq γ] in
theorem subscribers_dispatch
    (subscribed : market.hub.subscriptions.filterMap (Subscription.filterOf feed) = [filter]) :
    (market.dispatch event).subscribers feed =
      if filter.matches event then (market.subscribers feed).onEvent event
      else market.subscribers feed := by
  unfold Market.dispatch MarketHub.targets
  dsimp only
  rw [foldl_onEvent, subscribed]
  rfl

omit [DecidableEq P] in
theorem stamp_spec (hub : MarketHub V P) (event : MarketEvent V) :
    (hub.stamp event).1.sequence = hub.sequence + 1 ∧
      (hub.stamp event).2.sequence = hub.sequence + 1 ∧
      (hub.stamp event).2.subscriptions = hub.subscriptions := by
  unfold MarketHub.stamp
  dsimp only
  split
  · exact ⟨rfl, rfl, rfl⟩
  · exact ⟨rfl, rfl, rfl⟩

theorem Feeding.of_hub (feeding : Feeding feed cap filter market past) {hub : MarketHub V P}
    (sequence : hub.sequence = market.hub.sequence)
    (subscriptions : hub.subscriptions = market.hub.subscriptions) :
    Feeding feed cap filter { market with hub } past := by
  obtain ⟨subscribed, subscriber, kept, room, serves⟩ := feeding
  refine ⟨?_, subscriber, kept, room, ?_⟩
  · dsimp only
    rw [subscriptions]
    exact subscribed
  · dsimp only
    rw [sequence]
    exact serves

theorem Feeding.publish (feeding : Feeding feed cap filter market past) :
    Feeding feed cap filter (market.perform doubles (.publish event)).shared
      (past ++ (market.perform doubles (.publish event)).events) := by
  obtain ⟨number, counted, subscriptions⟩ := stamp_spec market.hub event
  have subscribed : ((market.hub.stamp event).2.record (market.hub.stamp event).1).subscriptions.filterMap
      (Subscription.filterOf feed) = [filter] := by
    refine Eq.trans ?_ feeding.subscribed
    rw [← subscriptions]
    rfl
  refine ⟨subscribed, ?_⟩
  obtain ⟨subscriber, kept, room, serves⟩ := feeding.holds
  have dispatched : (market.perform doubles (.publish event)).shared.subscribers feed =
      if filter.matches (market.hub.stamp event).1 then
        (market.subscribers feed).onEvent (market.hub.stamp event).1
      else market.subscribers feed :=
    @subscribers_dispatch _ _ _ _ _ _
      { market with hub := (market.hub.stamp event).2.record (market.hub.stamp event).1 } _ subscribed
  have high : (((market.perform doubles (.publish event)).shared.hub.sequence : Nat) : Int) =
      market.hub.sequence + 1 :=
    (congrArg Nat.cast counted).trans (Nat.cast_succ market.hub.sequence)
  have past_eq : past ++ (market.perform doubles (.publish event)).events =
      past ++ [.published (market.hub.stamp event).1] := rfl
  rw [dispatched, high, kept, past_eq]
  by_cases through : filter.matches (market.hub.stamp event).1 = true
  · -- The event is above all that were let through before it.
    have above : (market.hub.sequence : Int) < (market.hub.stamp event).1.sequence := by omega
    have put := serves.put (by omega) above
    rw [number, ← room] at put
    rw [if_pos through, pastOf_through through]
    exact ⟨_, rfl, room, room ▸ put⟩
  · rw [if_neg through, pastOf_stopped through]
    exact ⟨subscriber, rfl, room, serves.raise (by omega)⟩

theorem Feeding.poll (feeding : Feeding feed cap filter market past) (positive : 0 < cap)
    (other : P) (client : γ) :
    Feeding feed cap filter (market.perform doubles (.poll other client)).shared
      (past ++ (market.perform doubles (.poll other client)).events) := by
  refine ⟨feeding.subscribed, ?_⟩
  obtain ⟨subscriber, kept, room, serves⟩ := feeding.holds
  refine ⟨subscriber, kept, room, ?_⟩
  have past_eq : past ++ (market.perform doubles (.poll other client)).events =
      past ++ [.polled other client (market.answer other client).1] := rfl
  have since_eq : (market.perform doubles (.poll other client)).shared.since feed =
      Function.update market.since other
        (Function.update (market.since other) client (market.answer other client).2) feed := rfl
  rw [past_eq, since_eq]
  by_cases same : other = feed
  · subst same
    have answered : market.answer other client =
        (subscriber.deltasSince (market.since other client), subscriber.latestSequence) := by
      unfold Market.answer
      rw [kept]
    rw [pastOf_polled, Function.update_self, answered]
    exact serves.poll (by omega) positive client
  · rw [pastOf_polled_other same, Function.update_of_ne (Ne.symm same)]
    exact serves

theorem Feeding.perform (feeding : Feeding feed cap filter market past) (positive : 0 < cap)
    (call : Call V P γ) :
    Feeding feed cap filter (market.perform doubles call).shared
      (past ++ (market.perform doubles call).events) := by
  cases call with
  | publish event => exact feeding.publish
  | evaluateStaleness =>
    rw [show (market.perform doubles .evaluateStaleness).events = [] from rfl, List.append_nil]
    exact feeding.of_hub rfl rfl
  | addPriceMoveRule rule =>
    rw [show (market.perform doubles (.addPriceMoveRule rule)).events = [] from rfl,
      List.append_nil]
    exact feeding.of_hub rfl rfl
  | addStaleQuoteRule rule =>
    rw [show (market.perform doubles (.addStaleQuoteRule rule)).events = [] from rfl,
      List.append_nil]
    exact feeding.of_hub rfl rfl
  | poll other client => exact feeding.poll positive other client

theorem Feeding.open_ {hub : MarketHub V P} {subscribers : P → Subscriber V} {maxEvents : Nat}
    (once : ∀ sub ∈ hub.subscriptions, sub.subscriber ≠ some feed) :
    Feeding feed (DeltaFeedSubscriber.roomFor maxEvents) filter
      (Market.open_ hub subscribers feed maxEvents filter : Market V P γ) [] where
  subscribed := by
    have others : hub.subscriptions.filterMap (Subscription.filterOf feed) = [] :=
      List.filterMap_eq_nil_iff.mpr fun sub member => if_neg (once sub member)
    have opened : (Market.open_ hub subscribers feed maxEvents filter :
        Market V P γ).hub.subscriptions =
          hub.subscriptions ++ [⟨hub.nextSubscriptionId, some feed, filter⟩] := rfl
    have mine : Subscription.filterOf feed ⟨hub.nextSubscriptionId, some feed, filter⟩ =
        some filter := if_pos rfl
    rw [opened, List.filterMap_append, others, List.nil_append, List.filterMap_cons_some mine,
      List.filterMap_nil]
  holds :=
    ⟨.new maxEvents, Function.update_self .., rfl, Serves.nil (Int.natCast_nonneg _)⟩

theorem Feeding.delivered {s : Market.System V P γ τ}
    (feeding : Feeding feed cap filter s.shared s.trace) : Delivered feed cap filter s := by
  obtain ⟨subscriber, kept, -, serves⟩ := feeding.holds
  exact ⟨subscriber, kept, serves.kept_rising, serves.kept_eq,
    fun _ fit => serves.received_append fit⟩

end Steps

def wholeNumbers : Doubles Int where
  sub := (· - ·)
  mul := (· * ·)
  div := Int.tdiv
  fabs := fun number => number.natAbs
  less := fun a b => decide (a < b)
  isZero := fun number => number == 0
  ofInt := id

def collected : MarketHub Int Bool where
  clock := fun asked => 1000 + asked
  asked := 0
  sequence := 0
  nextSubscriptionId := 2
  subscriptions := [⟨1, some false, ⟨[], []⟩⟩]
  cache := ⟨[]⟩
  history := .new ⟨60, 1000⟩
  priceMoveRules := []
  staleQuoteRules := [⟨ascii "stale_quote", 30⟩]
  staleAlreadyFlagged := fun _ => none

end AgentC.Markethub

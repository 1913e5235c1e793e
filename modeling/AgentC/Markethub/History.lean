import Mathlib.Data.Int.Order.Basic
import Mathlib.Logic.Function.Basic
import AgentC.Library.Latest
import AgentC.Library.Runs
import Mathlib.Data.List.Basic

/-! Market events, and the downsampled history of the numbers that quotes carry, series by series. -/

namespace AgentC.Markethub

universe u

/-- A text or a name, as the bytes of a `std::string`. -/
abbrev Text := List UInt8

inductive EventType where
  | UnderlyingQuote
  | OptionQuote
  | OptionChainSnapshot
  | HistorySample
  | Highlight
deriving DecidableEq, Repr

/-- A `std::map` of named values, in its order. -/
structure Fields (V : Type u) where
  entries : List (Text × V)
  once : (entries.map Prod.fst).Nodup

/-- One event. `V` are the numbers of its payload. -/
structure MarketEvent (V : Type u) where
  type : EventType
  symbol : Text
  contract : Text
  source : Text
  /-- Stamped by the hub. -/
  sequence : Int
  /-- When the event was observed, and zero if that is unknown. -/
  observedUnix : Int
  receivedUnix : Int
  num : Fields V
  text : Fields Text

namespace MarketEvent

variable {V : Type u} (event : MarketEvent V)

def freshnessUnix : Int :=
  if event.observedUnix > 0 then event.observedUnix else event.receivedUnix

def isQuote : Bool :=
  event.type == .UnderlyingQuote || event.type == .OptionQuote

def numOf (field : Text) : Option V :=
  (event.num.entries.find? fun entry => entry.1 == field).map Prod.snd

theorem numOf_eq_some {field : Text} {value : V} :
    event.numOf field = some value ↔ (field, value) ∈ event.num.entries := by
  -- The names of a payload differ, so the first entry of a name is the only one.
  have once := event.num.once
  unfold numOf
  generalize event.num.entries = entries at once ⊢
  induction entries with
  | nil => simp
  | cons entry rest ih =>
    obtain ⟨name, number⟩ := entry
    obtain ⟨apart, later⟩ := List.nodup_cons.mp once
    rw [List.find?_cons, List.mem_cons, Prod.mk.injEq]
    by_cases here : name = field
    · have absent : (field, value) ∉ rest := fun there =>
        apart (List.mem_map.mpr ⟨_, there, here.symm⟩)
      simp [here, absent, eq_comm]
    · have away : (name == field) = false := beq_eq_false_iff_ne.mpr here
      simp only [away, ih later]
      exact ⟨Or.inr, fun member => member.resolve_left fun same => here same.1.symm⟩

end MarketEvent

/-- What a subscriber wants to see; no types or no symbols stand for all of them. -/
structure SubscriptionFilter where
  types : List EventType
  symbols : List Text
deriving DecidableEq, Repr

def SubscriptionFilter.matches {V : Type u} (filter : SubscriptionFilter) (event : MarketEvent V) :
    Bool :=
  if !filter.types.isEmpty && !filter.types.contains event.type then false
  else if !filter.symbols.isEmpty && !filter.symbols.contains event.symbol then false
  else true

end AgentC.Markethub

namespace AgentC.Markethub

universe u

variable {V : Type u}

/-- How wide the buckets are, and how many samples a series may have. -/
structure HistoryPolicy where
  resolutionSeconds : Int
  maxSamples : Nat
deriving DecidableEq, Repr

structure HistorySample (V : Type u) where
  bucketUnix : Int
  value : V
  sourceSequence : Int
deriving DecidableEq

def seriesKey (symbol contract field : Text) : Text :=
  symbol ++ 0x7C :: (contract ++ 0x7C :: field)

/-- The stored series under their names. One that is not there has no samples. -/
structure HistoryStore (V : Type u) where
  policy : HistoryPolicy
  /-- The constructor raises the numbers of the policy to one. -/
  wide : 1 ≤ policy.resolutionSeconds
  room : 1 ≤ policy.maxSamples
  stored : Text → List (HistorySample V)

namespace HistoryStore

/-- A store without samples. -/
def new (policy : HistoryPolicy) : HistoryStore V where
  policy :=
    { resolutionSeconds := if policy.resolutionSeconds < 1 then 1 else policy.resolutionSeconds
      maxSamples := if policy.maxSamples < 1 then 1 else policy.maxSamples }
  wide := by dsimp only; split <;> omega
  room := by dsimp only; split <;> omega
  stored := fun _ => []

variable (store : HistoryStore V) (event : MarketEvent V)

def bucket : Int :=
  event.freshnessUnix.tdiv store.policy.resolutionSeconds * store.policy.resolutionSeconds

def sample (value : V) : HistorySample V where
  bucketUnix := store.bucket event
  value := value
  sourceSequence := event.sequence

/-- Putting one number of an event into its series. -/
def recordField (entry : Text × V) : HistoryStore V :=
  let key := seriesKey event.symbol event.contract entry.1
  { store with
    stored := Function.update store.stored key
      (putLatest HistorySample.bucketUnix store.policy.maxSamples (store.stored key)
        (store.sample event entry.2)) }

def record : HistoryStore V :=
  if event.isQuote then event.num.entries.foldl (fun store entry => store.recordField event entry) store
  else store

def series (symbol contract field : Text) : List (HistorySample V) :=
  store.stored (seriesKey symbol contract field)

end HistoryStore

/-- A store with the events that it has recorded, the first one first. -/
structure HistoryRun (V : Type u) where
  store : HistoryStore V
  recorded : List (MarketEvent V)

namespace HistoryRun

def start (policy : HistoryPolicy) : HistoryRun V where
  store := .new policy
  recorded := []

variable (run : HistoryRun V)

def step (event : MarketEvent V) : Option (HistoryRun V) :=
  some { store := run.store.record event, recorded := run.recorded ++ [event] }

def write (symbol contract field : Text) (event : MarketEvent V) : Option (HistorySample V) :=
  if event.isQuote ∧ event.symbol = symbol ∧ event.contract = contract then
    (event.numOf field).map (run.store.sample event)
  else none

def writes (symbol contract field : Text) : List (HistorySample V) :=
  run.recorded.filterMap (run.write symbol contract field)

/--
Every series rises strictly in time, has one sample at most for each bucket, which is the last
one written for it, and has no more samples than allowed, which are those of the latest buckets.
-/
def Faithful : Prop :=
  ∀ symbol contract field, KeepsLatest HistorySample.bucketUnix run.store.policy.maxSamples
    (run.store.series symbol contract field) (run.writes symbol contract field)

def Plain (name : Text) : Prop :=
  (0x7C : UInt8) ∉ name

instance (name : Text) : Decidable (Plain name) :=
  inferInstanceAs (Decidable (_ ∉ _))

/--
None of an event's numbers comes late: its bucket is not before the last one of its series. The
series is that of no other field.
-/
def InOrder (event : MarketEvent V) : Prop :=
  event.isQuote = true → ∀ entry ∈ event.num.entries,
    (Plain event.symbol ∧ Plain event.contract ∧ Plain entry.1) ∧
    ∀ last ∈ (run.store.series event.symbol event.contract entry.1).getLast?,
      last.bucketUnix ≤ run.store.bucket event

end HistoryRun

end AgentC.Markethub

import Mathlib.Data.List.Chain
import AgentC.Cartographer.Deferred

/-! Where the requests are between the service and its worker, and what is still to be told of them. -/

namespace AgentC.Cartographer

section Statuses

def Next (status status' : List UInt8) : Prop :=
  (status = statusQueued ∧ status' = statusRunning) ∨
  (status = statusRunning ∧ isPendingStatus status' = false)

def rank (status : List UInt8) : Nat :=
  if status = statusQueued then 0 else if status = statusRunning then 1 else 2

def Forward (status status' : List UInt8) : Prop :=
  status = status' ∨ rank status < rank status'

variable {status status' : List UInt8}

theorem isPendingStatus_iff :
    isPendingStatus status = true ↔ status = statusQueued ∨ status = statusRunning := by
  simp only [isPendingStatus, Bool.or_eq_true, decide_eq_true_eq]

theorem Forward.of_pending (pending : isPendingStatus status = true)
    (ended : isPendingStatus status' = false) : Forward status status' := by
  have last : rank status' = 2 := by
    have other := mt isPendingStatus_iff.mpr (Bool.eq_false_iff.mp ended)
    obtain ⟨notQueued, notRunning⟩ := not_or.mp other
    rw [rank, if_neg notQueued, if_neg notRunning]
  refine Or.inr ?_
  rw [last]
  obtain rfl | rfl := isPendingStatus_iff.mp pending
  · decide
  · decide

theorem Next.forward (next : Next status status') :
    Forward status status' := by
  obtain ⟨rfl, rfl⟩ | ⟨rfl, ended⟩ := next
  · exact Or.inr (by decide)
  · exact Forward.of_pending (by decide) ended

theorem Next.pending (next : Next status status') :
    isPendingStatus status = true := by
  obtain ⟨rfl, -⟩ | ⟨rfl, -⟩ := next
  · decide
  · decide

theorem isChain_concat {α : Type} {R : α → α → Prop} {a b : α} {l : List α} :
    (a :: (l ++ [b])).IsChain R ↔ (a :: l).IsChain R ∧ R (l.getLast?.getD a) b := by
  rw [← List.cons_append, List.isChain_append]
  simp only [List.getLast?_cons, Option.mem_def, Option.some.injEq, List.head?_cons,
    List.isChain_singleton, true_and, forall_eq']

end Statuses

section Told

def statusOf (message : List UInt8) : List UInt8 :=
  match Protocol.decodeImportStatus true message with
  | .ok (_, response, _) => response.status
  | .error _ => []

@[simp] theorem statusOf_encodeImportStatus (request : ImportRequest) (result : ImportResult)
    (description : Option ParseDescription) :
    statusOf (Protocol.encodeImportStatus request result description) = result.status := by
  rw [statusOf, Protocol.decodeImportStatus_encodeImportStatus]

def told (responses : List (List UInt8 × Nat)) (number : Nat) : List (List UInt8) :=
  (responses.filter fun response => response.2 = number).map fun response => statusOf response.1

variable {responses : List (List UInt8 × Nat)} {message : List UInt8} {number other : Nat}

theorem told_concat (responses : List (List UInt8 × Nat)) (message : List UInt8) (number other : Nat) :
    told (responses ++ [(message, number)]) other =
      if number = other then told responses other ++ [statusOf message] else told responses other := by
  unfold told
  rw [List.filter_append, List.map_append]
  by_cases same : number = other
  · simp only [same, decide_true, List.filter_cons_of_pos, List.filter_nil, List.map_cons, List.map_nil,
      if_true]
  · rw [List.filter_cons_of_neg (by simpa using same), if_neg same, List.filter_nil, List.map_nil,
      List.append_nil]

theorem told_cons (responses : List (List UInt8 × Nat)) (message : List UInt8) (number other : Nat) :
    told ((message, number) :: responses) other =
      if number = other then statusOf message :: told responses other else told responses other := by
  unfold told
  by_cases same : number = other
  · rw [List.filter_cons_of_pos (by simpa using same), List.map_cons, if_pos same]
  · rw [List.filter_cons_of_neg (by simpa using same), if_neg same]

theorem told_eq_nil (none_ : ∀ message, (message, number) ∉ responses) : told responses number = [] := by
  unfold told
  rw [List.map_eq_nil_iff, List.filter_eq_nil_iff]
  rintro ⟨message, other⟩ member same
  obtain rfl : other = number := of_decide_eq_true same
  exact none_ message member

end Told

section Places

def Caller.call : Caller → Option (ImportRequest × Nat)
  | .queued request number | .flagged request number _ | .failing request number _ =>
    some (request, number)
  | .idle | .joining => none

def Caller.read : Caller → Option Flags
  | .flagged _ _ flags | .failing _ _ flags => some flags
  | .idle | .joining | .queued _ _ => none

def Worker.task : Worker → Option (ImportRequest × Nat)
  | .handling request number => some (request, number)
  | .waiting | .gone => none

def Flags.begun (flags : Flags) : Bool :=
  flags.childExited || flags.childStarted

def DeferredState.Recorded (state : DeferredState) : Prop :=
  ∃ request result description,
    state.responseMessage = Protocol.encodeImportStatus request result description ∧
    result.status = state.status

namespace CartographerService

variable {s next : CartographerService} {number other : Nat}

def state? (s : CartographerService) (number : Nat) : Option DeferredState :=
  s.own[number]?.map Queued.state

theorem alone_eq (s : CartographerService) (requestId : RequestId) :
    s.alone requestId = (s.latest requestId).bind s.state? := rfl

def upcoming (s : CartographerService) : List Nat :=
  s.worker.task.toList.map Prod.snd ++ (s.toChild.map Prod.snd ++ s.caller.call.toList.map Prod.snd)

theorem state?_note (s : CartographerService) (number other : Nat)
    (change : DeferredState → DeferredState) :
    (s.note number change).state? other =
      if number = other then (s.state? other).map change else s.state? other := by
  simp only [state?, note, List.getElem?_modify]
  by_cases same : number = other
  · simp only [same, if_true, Option.map_eq_map, Option.map_map]
    rfl
  · simp only [same, if_false, Option.map_eq_map, Option.map_id']

theorem state?_queue (s : CartographerService) (request : ImportRequest) (number : Nat) :
    (s.queue request).state? number =
      if number = s.own.length then some (.queued (s.queuedRequest request)) else s.state? number := by
  simp only [state?, queue, List.getElem?_append]
  by_cases below : number < s.own.length
  · rw [if_pos below, if_neg (by omega)]
  · rw [if_neg below]
    by_cases same : number = s.own.length
    · rw [if_pos same, same, Nat.sub_self]
      rfl
    · have beyond : s.own[number]? = none := List.getElem?_eq_none (by omega)
      rw [if_neg same, beyond, List.getElem?_eq_none (by simp only [List.length_singleton]; omega)]

theorem state?_disconnect (s : CartographerService) (number : Nat) :
    s.disconnect.state? number = (s.state? number).map DeferredState.disconnect := by
  simp only [state?, disconnect, List.getElem?_map, Option.map_map]
  rfl

theorem lt_of_state? {state : DeferredState} (has : s.state? number = some state) :
    number < s.own.length := by
  obtain ⟨own, found, -⟩ := Option.map_eq_some_iff.mp has
  exact (List.getElem?_eq_some_iff.mp found).1

/--
Where the requests are.

A request is called, then sent, then handled, and then its outcome is on the way. What the responses
on the way tell about it follows on its status.
-/
structure Sound (s : CartographerService) : Prop where
  available : s.flags.childAvailable = true → s.flags.childStarted = true
  started : s.flags.childStarted = true → s.flags.childAvailable = true ∨ s.flags.childExited = true
  exited : s.flags.childExited = true → s.flags.childAvailable = false
  ended : s.flags.childAvailable = false → s.worker = .gone ∧ s.fromChild = []
  lost : s.worker = .gone → s.toChild = []
  distinct : s.upcoming.Nodup
  called : ∀ request number, s.caller.call = some (request, number) →
    s.latest request.requestId = some number ∧
    ∃ state, s.state? number = some state ∧ state.request = request ∧ told s.fromChild number = [] ∧
      (state.status = statusQueued ∨
        s.flags.childExited = true ∧ state.status = statusTransportFailed)
  read : ∀ flags, s.caller.read = some flags → flags.begun = s.flags.begun
  sent : ∀ message number, (message, number) ∈ s.toChild →
    ∃ state, s.state? number = some state ∧ message = Protocol.encodeImportRequest state.request ∧
      told s.fromChild number = [] ∧ state.status = statusQueued
  handled : ∀ request number, s.worker.task = some (request, number) →
    ∃ state, s.state? number = some state ∧ state.request = request ∧
      (told s.fromChild number).getLast?.getD state.status = statusRunning
  answered : ∀ message number, (message, number) ∈ s.fromChild →
    ∃ state result description, s.state? number = some state ∧
      message = Protocol.encodeImportStatus state.request result description ∧
      result.requestId = state.request.requestId
  chained : ∀ number state, s.state? number = some state →
    (state.status :: told s.fromChild number).IsChain Next
  settled : s.flags.childAvailable = false → ∀ number state, s.state? number = some state →
    isPendingStatus state.status = true → ∃ request, s.caller.call = some (request, number)
  recorded : ∀ number state, s.state? number = some state → state.Recorded
  named : ∀ number state, s.state? number = some state →
    ∃ last, s.latest state.request.requestId = some last
  filed : ∀ requestId number, s.latest requestId = some number →
    ∃ state, s.state? number = some state ∧ state.request.requestId = requestId

end CartographerService

end Places

end AgentC.Cartographer

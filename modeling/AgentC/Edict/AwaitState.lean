import AgentC.Cartographer.BoxingLaws
import AgentC.Edict.AwaitScheduler

/-! What the await scheduler reads back from the form that it saves. -/

namespace AgentC.Edict

open Cartographer (decimal decimalPrefix_decimal length_decimal parseSigned parseUnsigned)
open Listree (ListreeValue createStringValue finishObject kBlobSlabBytes)
open Root1 (ParticipantId)

section Numbers

theorem getData_numberValue {n : Int} (low : -2 ^ 64 < n) (high : n < 2 ^ 64) :
    getData (numberValue n) = some (decimal n) := by
  rw [numberValue, createStringValue, if_pos (length_decimal low high)]
  rfl

theorem stoull_decimal (n : UInt64) : stoull (decimal n.toNat) = some n := by
  have small := n.toNat_lt
  have positive : ¬ ((n.toNat : Int) < 0) := by omega
  rw [stoull, parseUnsigned, decimalPrefix_decimal, Option.bind_some]
  simp only [positive, decide_false, Bool.false_eq_true, if_false, Int.natAbs_natCast]
  rw [if_pos small, Option.map_some, UInt64.ofInt]
  simp only [Option.some.injEq, ← UInt64.toNat_inj, UInt64.toNat_ofNat']
  omega

theorem stoi_decimal (n : Int32) : stoi (decimal n.toInt) = some n := by
  have low := n.le_toInt
  have high := n.toInt_lt
  rw [stoi, parseSigned, decimalPrefix_decimal, Option.bind_some]
  have value : (if decide (n.toInt < 0) = true then -(n.toInt.natAbs : Int) else n.toInt.natAbs) =
      n.toInt := by
    by_cases negative : n.toInt < 0
    · rw [decide_eq_true negative, if_pos rfl]
      omega
    · rw [decide_eq_false negative, if_neg Bool.false_ne_true]
      omega
  simp only [value]
  rw [if_pos ⟨by omega, by omega⟩, Option.map_some, Int32.ofInt_toInt]

end Numbers

def ParkedContinuation.restored (c : ParkedContinuation) : ParkedContinuation :=
  { c with lastEvents := none, resume := false }

namespace Root1AwaitScheduler

section Items

theorem saveContinuation_eq (c : ParkedContinuation) : saveContinuation c = .dict [
    (ascii "events_delivered", numberValue c.eventsDelivered.toNat),
    (ascii "handle", numberValue c.handle.toNat),
    (ascii "participant", numberValue c.participant.toNat),
    (ascii "resume_state", numberValue c.resumeState.toInt),
    (ascii "state", createStringValue (ascii (stateName c.state)))] := by
  simp +decide [saveContinuation, object, finishObject, AATree.new_, AATree.addNamedItem,
    AATree.add, AATree.find, AATree.place, AATree.alter, AATree.entries]

theorem saveState_eq (s : Root1AwaitScheduler) (order : List Root1ContinuationHandle) :
    s.saveState order = .dict [
      (ascii "continuations", .list (((order.filterMap s.continuations).filter fun c =>
        c.state ≠ .invalid).map saveContinuation)),
      (ascii "next_id", numberValue s.nextId.toNat)] := by
  simp +decide [saveState, object, finishObject, AATree.new_, AATree.addNamedItem,
    AATree.add, AATree.find, AATree.place, AATree.alter, AATree.entries]

theorem getData_stateName (state : Root1ContinuationState) :
    getData (createStringValue (ascii (stateName state))) = some (ascii (stateName state)) := by
  have short : (ascii (stateName state)).length ≤ kBlobSlabBytes := by
    unfold kBlobSlabBytes
    cases state <;> decide
  rw [createStringValue, if_pos short]
  rfl

theorem namedState_stateName {state : Root1ContinuationState} (valid : state ≠ .invalid) :
    namedState (ascii (stateName state)) = state := by
  cases state with
  | invalid => exact absurd rfl valid
  | parked | ready | resumed | timeout | cancelled => rfl

end Items

theorem readContinuation_save {c : ParkedContinuation} (valid : c.state ≠ .invalid) :
    readContinuation (saveContinuation c) = some (some c.restored) := by
  have item (name : String) : find (saveContinuation c) name =
      List.lookup (ascii name) [
        (ascii "events_delivered", numberValue c.eventsDelivered.toNat),
        (ascii "handle", numberValue c.handle.toNat),
        (ascii "participant", numberValue c.participant.toNat),
        (ascii "resume_state", numberValue c.resumeState.toInt),
        (ascii "state", createStringValue (ascii (stateName c.state)))] := by
    rw [saveContinuation_eq, find]
  have unsigned (n : UInt64) : getData (numberValue n.toNat) = some (decimal n.toNat) :=
    have small := n.toNat_lt
    getData_numberValue (by omega) (by omega)
  have signed : getData (numberValue c.resumeState.toInt) = some (decimal c.resumeState.toInt) :=
    have low := c.resumeState.le_toInt
    have high := c.resumeState.toInt_lt
    getData_numberValue (by omega) (by omega)
  -- Each item is found under its name and read as what it was written from.
  have handle : find (saveContinuation c) "handle" = some (numberValue c.handle.toNat) := by
    rw [item]
    rfl
  have participant : find (saveContinuation c) "participant" =
      some (numberValue c.participant.toNat) := by
    rw [item]
    rfl
  have state : find (saveContinuation c) "state" =
      some (createStringValue (ascii (stateName c.state))) := by
    rw [item]
    rfl
  have delivered : find (saveContinuation c) "events_delivered" =
      some (numberValue c.eventsDelivered.toNat) := by
    rw [item]
    rfl
  have code : find (saveContinuation c) "resume_state" =
      some (numberValue c.resumeState.toInt) := by
    rw [item]
    rfl
  rw [readContinuation, handle, participant, state, delivered, code]
  simp only [Option.bind_some, unsigned, signed, getData_stateName, stoull_decimal, stoi_decimal,
    Option.getD_some, Option.map_some, namedState_stateName valid, ParkedContinuation.restored]

section Adding

variable (s : Root1AwaitScheduler)

def addAll (s : Root1AwaitScheduler) (cs : List ParkedContinuation) : Root1AwaitScheduler :=
  cs.foldl add s

theorem loadContinuations_save : ∀ (cs : List ParkedContinuation) (s : Root1AwaitScheduler),
    (∀ c ∈ cs, c.state ≠ .invalid) →
      s.loadContinuations (cs.map saveContinuation) = (s.addAll (cs.map (·.restored)), true) := by
  intro cs
  induction cs with
  | nil => intro s _; rfl
  | cons c cs ih =>
    intro s valid
    rw [List.map_cons, loadContinuations, readContinuation_save (valid c List.mem_cons_self)]
    exact ih (s.add c.restored) fun other member => valid other (List.mem_cons_of_mem _ member)

theorem loadState_saveState (t : Root1AwaitScheduler) (order : List Root1ContinuationHandle) :
    t.loadState (some (s.saveState order)) =
      (({ nextId := s.nextId } : Root1AwaitScheduler).addAll
        (((order.filterMap s.continuations).filter fun c => c.state ≠ .invalid).map (·.restored)),
        some true) := by
  have small := s.nextId.toNat_lt
  have next : find (s.saveState order) "next_id" = some (numberValue s.nextId.toNat) := by
    rw [saveState_eq, find]
    rfl
  have listed : find (s.saveState order) "continuations" =
      some (.list (((order.filterMap s.continuations).filter fun c =>
        c.state ≠ .invalid).map saveContinuation)) := by
    rw [saveState_eq, find]
    rfl
  rw [loadState]
  simp only [next, listed, Option.bind_some]
  rw [getData_numberValue (by omega) (by omega)]
  simp only [stoull_decimal]
  rw [loadContinuations_save _ _ fun c member => by simpa using (List.mem_filter.mp member).2]
  rfl

theorem byParticipant_addAll (p : ParticipantId) : ∀ (cs : List ParkedContinuation)
    (s : Root1AwaitScheduler), (s.addAll cs).byParticipant p =
      s.byParticipant p ++ (cs.filter fun c => c.participant = p).map (·.handle) := by
  intro cs
  induction cs with
  | nil => intro s; simp [addAll]
  | cons c cs ih =>
    intro s
    show ((s.add c).addAll cs).byParticipant p = _
    rw [ih]
    by_cases same : c.participant = p
    · subst same
      simp [add]
    · have apart : p ≠ c.participant := Ne.symm same
      simp [add, same, apart]

theorem addAll_table : ∀ (cs : List ParkedContinuation) (s : Root1AwaitScheduler),
    (cs.map (·.handle)).Nodup → (∀ c ∈ cs, s.continuations c.handle = none) →
      (s.addAll cs).handles = s.handles ++ cs.map (·.handle) ∧
      (∀ h, (s.addAll cs).continuations h =
        (cs.find? fun c => c.handle = h).or (s.continuations h)) := by
  intro cs
  induction cs with
  | nil => intro s _ _; simp [addAll]
  | cons c cs ih =>
    intro s distinct fresh
    obtain ⟨head, distinct⟩ := List.nodup_cons.mp distinct
    have absent : c.handle ∉ cs.map (·.handle) := head
    have free := fresh c List.mem_cons_self
    have others : ∀ other ∈ cs, (s.add c).continuations other.handle = none := by
      intro other member
      have listed : other.handle ∈ cs.map (·.handle) := List.mem_map_of_mem member
      have apart : other.handle ≠ c.handle := fun same => absent (same ▸ listed)
      simp [add, free, apart, fresh other (List.mem_cons_of_mem _ member)]
    obtain ⟨handles, table⟩ := ih (s.add c) distinct others
    constructor
    · show ((s.add c).addAll cs).handles = _
      rw [handles]
      simp [add, free]
    · intro h
      show ((s.add c).addAll cs).continuations h = _
      rw [table]
      by_cases same : c.handle = h
      · subst same
        have unlisted : (cs.find? fun other => other.handle = c.handle) = none := by
          rw [List.find?_eq_none]
          intro other member named
          have listed : other.handle ∈ cs.map (·.handle) := List.mem_map_of_mem member
          exact absent (of_decide_eq_true named ▸ listed)
        simp [unlisted, add, free]
      · have apart : h ≠ c.handle := Ne.symm same
        simp [add, free, same, apart]

end Adding

end Root1AwaitScheduler

end AgentC.Edict

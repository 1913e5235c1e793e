import AgentC.Edict.AwaitScheduler

/-! The contract that the result of an intern job is checked against. -/

namespace AgentC.Edict

open Cartographer (isSpace)
open Listree (isDigit)

/--
A value as the checks of a contract see it.

A list has the values of its references, and null ones, which count for nothing, are left out. Any other
value has bytes, which a string without its blob has not, and the latest value of each of its items.
-/
inductive ContractValue where
  | list (children : List ContractValue)
  | node (binary : Bool) (bytes : List UInt8) (fields : List (Name × ContractValue))
  deriving Repr

section Helpers

def namedValue (value : Option ContractValue) (name : Name) : Option ContractValue :=
  match value with
  | some (.node _ _ fields) => fields.lookup name
  | _ => none

def valueToString : Option ContractValue → Option (List UInt8)
  | some (.node binary bytes _) => if bytes.isEmpty || binary then none else some bytes
  | _ => none

def Contract.stringField (value : Option ContractValue) (name : Name) : List UInt8 :=
  (valueToString (namedValue value name)).getD []

/-- The text that `std::stoull` reads digits from: behind blanks and a sign. -/
def unsignedDigits (text : List UInt8) : List UInt8 :=
  match text.dropWhile isSpace with
  | c :: rest => if c = Listree.byte '-' || c = Listree.byte '+' then rest else c :: rest
  | [] => []

def sizeField (value : Option ContractValue) (name : Name) : Option UInt64 :=
  let text := Contract.stringField value name
  if (unsignedDigits text).all isDigit then stoull text else none

mutual

def valueTruthy : ContractValue → Bool
  | .list children => anyTruthy children
  | .node _ bytes fields => !bytes.isEmpty || anyNamedTruthy fields

/-- The loop of `valueTruthy` over a list. -/
def anyTruthy : List ContractValue → Bool
  | [] => false
  | child :: rest => valueTruthy child || anyTruthy rest

/-- The loop of `valueTruthy` over a tree. -/
def anyNamedTruthy : List (Name × ContractValue) → Bool
  | [] => false
  | (_, child) :: rest => valueTruthy child || anyNamedTruthy rest

end

def truthy (value : Option ContractValue) : Bool :=
  value.any valueTruthy

/-- How many pieces of evidence there are. -/
def evidenceCount : Option ContractValue → Nat
  | none => 0
  | some (.list children) => children.countP valueTruthy
  | some (.node binary bytes fields) => if valueTruthy (.node binary bytes fields) then 1 else 0

def confidenceRank (confidence : List UInt8) : Nat :=
  if confidence = ascii "low" then 1
  else if confidence = ascii "medium" then 2
  else if confidence = ascii "high" then 3
  else 0

end Helpers

/-- What a check of a result reports. The values are told as they are when the check begins. -/
structure ResultContractStatus where
  kind : String := "intern_result_contract"
  taskId : List UInt8
  envelopeState : List UInt8
  expect : Option ContractValue
  result : Option ContractValue
  ok : Bool
  state : String
  /-- A code with a message. -/
  error : Option (String × String)

/-- Checking the result of a job against what its task expects. -/
def validateResultContract (check : Option ContractValue) : ResultContractStatus :=
  let envelope := namedValue check (ascii "envelope")
  let expect := namedValue check (ascii "expect")
  let result := namedValue envelope (ascii "result")
  let taskId := Contract.stringField envelope (ascii "task_id")
  let envelopeState := Contract.stringField envelope (ascii "state")
  let fail (code message : String) : ResultContractStatus :=
    { taskId, envelopeState, expect, result, ok := false, state := "result_error", error := some (code, message) }
  let valid : ResultContractStatus :=
    { taskId, envelopeState, expect, result, ok := true, state := "result_valid", error := none }
  if envelopeState.isEmpty then
    fail "missing_envelope_state" "intern result validation requires envelope.state"
  else if result.isNone then
    fail "missing_result" "intern result validation requires envelope.result"
  else if (Contract.stringField expect (ascii "success_field")).isEmpty then
    fail "missing_success_field" "intern result contract requires expect.success_field"
  else if !truthy (namedValue result (ascii "ok")) then
    fail "missing_success_evidence" "intern result requires result.ok success evidence"
  else
    let evidence := namedValue result (ascii "evidence")
    if !truthy evidence then
      fail "missing_evidence" "intern result requires result.evidence before coordinator trust"
    else if (sizeField expect (ascii "min_evidence_count")).any fun least =>
        evidenceCount evidence < least.toNat then
      fail "insufficient_evidence" "intern result evidence count is below expect.min_evidence_count"
    else
      let minConfidence := Contract.stringField expect (ascii "min_confidence")
      let confidence := Contract.stringField result (ascii "confidence")
      if minConfidence.isEmpty then valid
      else if confidence.isEmpty then
        fail "missing_confidence" "intern result requires result.confidence for the requested confidence policy"
      else if confidenceRank confidence < confidenceRank minConfidence || confidenceRank minConfidence == 0 then
        fail "low_confidence" "intern result confidence is below expect.min_confidence"
      else valid

section Contract

def confidences : List (List UInt8) :=
  [ascii "low", ascii "medium", ascii "high"]

def AtLeast (confidence least : List UInt8) : Prop :=
  ∃ i j : Nat, confidences[i]? = some least ∧ confidences[j]? = some confidence ∧ i ≤ j

/-- The pieces of evidence: the entries of a list that say anything, or else the value itself if it does. -/
def evidenceEntries : Option ContractValue → List ContractValue
  | none => []
  | some (.list children) => children.filter valueTruthy
  | some (.node binary bytes fields) => [ContractValue.node binary bytes fields].filter valueTruthy

/-- What a task expects of a result beside its success. -/
structure Supported (expect result : Option ContractValue) : Prop where
  evidence : truthy (namedValue result (ascii "evidence")) = true
  enough : ∀ least, sizeField expect (ascii "min_evidence_count") = some least →
    least.toNat ≤ (evidenceEntries (namedValue result (ascii "evidence"))).length
  confident : Contract.stringField expect (ascii "min_confidence") ≠ [] →
    AtLeast (Contract.stringField result (ascii "confidence")) (Contract.stringField expect (ascii "min_confidence"))

def succeeded (expect result : Option ContractValue) : Bool :=
  truthy (namedValue result (Contract.stringField expect (ascii "success_field")))

theorem evidenceCount_eq (evidence : Option ContractValue) :
    evidenceCount evidence = (evidenceEntries evidence).length := by
  cases evidence with
  | none => rfl
  | some value =>
    cases value with
    | list children => rw [evidenceCount, evidenceEntries, List.countP_eq_length_filter]
    | node binary bytes fields =>
      rw [evidenceCount, evidenceEntries]
      cases h : valueTruthy (.node binary bytes fields) <;> simp [h]

theorem atLeast_iff {confidence least : List UInt8} :
    AtLeast confidence least ↔
      confidenceRank least ≠ 0 ∧ confidenceRank least ≤ confidenceRank confidence := by
  -- A rank is one more than the place in the order.
  have place (i : Nat) (text : List UInt8) : confidences[i]? = some text ↔ confidenceRank text = i + 1 := by
    have low : ascii "low" ≠ ascii "medium" := by decide
    have medium : ascii "medium" ≠ ascii "high" := by decide
    have high : ascii "low" ≠ ascii "high" := by decide
    unfold confidenceRank confidences
    rcases i with _ | _ | _ | i <;> split_ifs <;> simp_all [eq_comm]
  constructor
  · rintro ⟨i, j, below, above, le⟩
    rw [(place i least).mp below, (place j confidence).mp above]
    omega
  · rintro ⟨known, le⟩
    exact ⟨confidenceRank least - 1, confidenceRank confidence - 1, (place _ least).mpr (by omega),
      (place _ confidence).mpr (by omega), by omega⟩

theorem enough_iff (least : Option UInt64) (count : Nat) :
    (least.any fun least => decide (count < least.toNat)) = false ↔ ∀ n, least = some n → n.toNat ≤ count := by
  cases least with
  | none => simp
  | some n => simp

/--
A result of a task that names a sign of success is accepted exactly if its own `ok` says anything and it
is supported.
-/
theorem validateResultContract_ok {check : Option ContractValue}
    (state : Contract.stringField (namedValue check (ascii "envelope")) (ascii "state") ≠ [])
    (found : namedValue (namedValue check (ascii "envelope")) (ascii "result") ≠ none)
    (field : Contract.stringField (namedValue check (ascii "expect")) (ascii "success_field") ≠ []) :
    (validateResultContract check).ok = true ↔
      truthy (namedValue (namedValue (namedValue check (ascii "envelope")) (ascii "result")) (ascii "ok")) = true ∧
        Supported (namedValue check (ascii "expect"))
          (namedValue (namedValue check (ascii "envelope")) (ascii "result")) := by
  unfold validateResultContract
  dsimp only
  rw [if_neg (by simpa using state), if_neg (by simpa using found), if_neg (by simpa using field)]
  generalize namedValue check (ascii "expect") = expect
  generalize namedValue (namedValue check (ascii "envelope")) (ascii "result") = result
  cases success : truthy (namedValue result (ascii "ok")) with
  | false => simp
  | true =>
    simp only [Bool.not_true, Bool.false_eq_true, if_false, true_and]
    cases evidence : truthy (namedValue result (ascii "evidence")) with
    | false =>
      simp only [Bool.not_false, if_true, Bool.false_eq_true, false_iff]
      intro supported
      rw [supported.evidence] at evidence
      cases evidence
    | true =>
      simp only [Bool.not_true, Bool.false_eq_true, if_false]
      have enough := enough_iff (sizeField expect (ascii "min_evidence_count"))
        (evidenceCount (namedValue result (ascii "evidence")))
      cases few : (sizeField expect (ascii "min_evidence_count")).any fun least =>
          decide (evidenceCount (namedValue result (ascii "evidence")) < least.toNat) with
      | true =>
        simp only [if_true, Bool.false_eq_true, false_iff]
        intro supported
        rw [few, evidenceCount_eq] at enough
        exact Bool.noConfusion (enough.mpr supported.enough)
      | false =>
        simp only [Bool.false_eq_true, if_false]
        rw [few, evidenceCount_eq] at enough
        have supported_iff : Supported expect result ↔ (Contract.stringField expect (ascii "min_confidence") ≠ [] →
            AtLeast (Contract.stringField result (ascii "confidence")) (Contract.stringField expect (ascii "min_confidence"))) :=
          ⟨Supported.confident, fun confident => ⟨evidence, enough.mp rfl, confident⟩⟩
        rw [supported_iff, atLeast_iff]
        by_cases asked : Contract.stringField expect (ascii "min_confidence") = []
        · simp [asked]
        · by_cases given : Contract.stringField result (ascii "confidence") = []
          · -- No confidence has no rank.
            have none_ : confidenceRank [] = 0 := by decide
            simp [asked, given, none_]
          · simp only [List.isEmpty_iff, asked, given, if_false]
            split
            · rename_i low
              simp only [Bool.or_eq_true, decide_eq_true_eq, beq_iff_eq] at low
              refine iff_of_false Bool.false_ne_true fun confident => ?_
              have ranked := confident asked
              omega
            · rename_i high
              simp only [Bool.or_eq_true, decide_eq_true_eq, beq_iff_eq, not_or, not_lt] at high
              exact iff_of_true rfl fun _ => ⟨high.2, high.1⟩

/--
A result is accepted exactly as its task asks, if its own `ok` says as much as the field that the task
names as the sign of success, or if it would not be accepted for want of support.
-/
theorem validateResultContract_iff {check : Option ContractValue}
    (state : Contract.stringField (namedValue check (ascii "envelope")) (ascii "state") ≠ [])
    (found : namedValue (namedValue check (ascii "envelope")) (ascii "result") ≠ none)
    (field : Contract.stringField (namedValue check (ascii "expect")) (ascii "success_field") ≠ []) :
    let expect := namedValue check (ascii "expect")
    let result := namedValue (namedValue check (ascii "envelope")) (ascii "result")
    ((validateResultContract check).ok = true ↔ succeeded expect result = true ∧ Supported expect result) ↔
      (truthy (namedValue result (ascii "ok")) = succeeded expect result ∨ ¬ Supported expect result) := by
  intro expect result
  have accepted : (validateResultContract check).ok = true ↔
      truthy (namedValue result (ascii "ok")) = true ∧ Supported expect result :=
    validateResultContract_ok state found field
  rw [accepted]
  by_cases supported : Supported expect result
  · simp only [supported, and_true, not_true_eq_false, or_false]
    exact Bool.eq_iff_iff.symm
  · simp only [supported, and_false, not_false_eq_true, or_true]

/-- A task that names `done`, and a result that has it along with its own `ok`. -/
theorem validateResultContract_iff_done :
    let text (bytes : String) : ContractValue := .node false (ascii bytes) []
    let object (fields : List (Name × ContractValue)) : ContractValue := .node false [] fields
    let result := object [(ascii "done", text "yes"), (ascii "evidence", .list [text "log", .list []]),
      (ascii "ok", .list [text "ok"])]
    let expect := object [(ascii "min_evidence_count", text "1"), (ascii "success_field", text "done")]
    let check := object [(ascii "envelope", object [(ascii "result", result), (ascii "state", text "complete")]),
      (ascii "expect", expect)]
    (validateResultContract (some check)).ok = true ↔ succeeded (some expect) (some result) = true ∧
      Supported (some expect) (some result) := by
  intro text object result expect check
  have iff_ := @validateResultContract_iff (some check) (by decide) (by decide) (by decide)
  exact iff_.mpr (Or.inl (by decide))

/-- A result without the field that its task names is accepted for its `ok`. -/
theorem validateResultContract_fails : ¬∀ check : Option ContractValue,
    Contract.stringField (namedValue check (ascii "envelope")) (ascii "state") ≠ [] →
    namedValue (namedValue check (ascii "envelope")) (ascii "result") ≠ none →
    Contract.stringField (namedValue check (ascii "expect")) (ascii "success_field") ≠ [] →
    ((validateResultContract check).ok = true ↔
      succeeded (namedValue check (ascii "expect"))
        (namedValue (namedValue check (ascii "envelope")) (ascii "result")) = true ∧
      Supported (namedValue check (ascii "expect"))
        (namedValue (namedValue check (ascii "envelope")) (ascii "result"))) := by
  intro checks
  let text (bytes : String) : ContractValue := .node false (ascii bytes) []
  let check : ContractValue := .node false [] [
    (ascii "envelope", .node false [] [
      (ascii "result", .node false [] [(ascii "evidence", text "log"), (ascii "ok", text "yes")]),
      (ascii "state", text "complete")]),
    (ascii "expect", .node false [] [(ascii "success_field", text "done")])]
  have accepted : (validateResultContract (some check)).ok = true := by decide
  have claimed := (checks (some check) (by decide) (by decide) (by decide)).mp accepted
  exact absurd claimed.1 (by decide)

end Contract

end AgentC.Edict

import AgentC.Library.Intakes
import AgentC.Listree.Tree

/-! The answers of the TCC service, and the bytes in which a worker passes its own to the pipe. -/

namespace AgentC.Tcc

/-- The answer to a request about a module or a job. -/
structure TccEnvelope where
  ok : Bool := false
  available : Bool := false
  status : List UInt8 := []
  error : List UInt8 := []
  moduleId : List UInt8 := []
  jobId : List UInt8 := []
  entrySymbol : List UInt8 := []
  resultKind : List UInt8 := []
  resultText : List UInt8 := []
  resultI64 : Int64 := 0
  /-- The bits of the `double`. -/
  resultF64 : UInt64 := 0
  signalNumber : Int32 := 0
  exitCode : Int32 := 0
  pid : Int32 := -1
  timeoutMs : Int64 := 0
  symbolCount : UInt64 := 0
  handleKind : List UInt8 := []
  launchMode : List UInt8 := []
  diagnostics : List (List UInt8) := []
  symbols : List (List UInt8) := []
  logs : List (List UInt8) := []
  deriving DecidableEq, Repr

def kExecLaunchMode : List UInt8 := ascii "exec"

section Wire

def writeString (value : List UInt8) : List UInt8 :=
  wordBytes 8 value.length ++ value

def writeStringVector (values : List (List UInt8)) : List UInt8 :=
  wordBytes 8 values.length ++ values.flatMap writeString

def readString : Intake (List UInt8) := do
  let length ← Intake.word 8
  Intake.block length

def readStringVector : Intake (List (List UInt8)) := do
  let count ← Intake.word 8
  readString.many count

/-- The bytes that a worker writes, field after field. -/
def writeEnvelope (envelope : TccEnvelope) : List UInt8 :=
  wordBytes 1 envelope.ok.toNat ++
  (wordBytes 1 envelope.available.toNat ++
  (writeString envelope.status ++
  (writeString envelope.error ++
  (writeString envelope.moduleId ++
  (writeString envelope.jobId ++
  (writeString envelope.entrySymbol ++
  (writeString envelope.resultKind ++
  (writeString envelope.resultText ++
  (wordBytes 8 envelope.resultI64.toUInt64.toNat ++
  (wordBytes 8 envelope.resultF64.toNat ++
  (wordBytes 4 envelope.signalNumber.toUInt32.toNat ++
  (wordBytes 4 envelope.exitCode.toUInt32.toNat ++
  (wordBytes 4 envelope.pid.toUInt32.toNat ++
  (wordBytes 8 envelope.timeoutMs.toUInt64.toNat ++
  (wordBytes 8 envelope.symbolCount.toNat ++
  (writeString envelope.handleKind ++
  (writeString envelope.launchMode ++
  (writeStringVector envelope.diagnostics ++
  (writeStringVector envelope.symbols ++
  writeStringVector envelope.logs)))))))))))))))))))

/-- The envelope in the bytes of a pipe; nothing when they end before it does. -/
def readEnvelope : Intake TccEnvelope := do
  let ok ← Intake.word 1
  let available ← Intake.word 1
  let status ← readString
  let error ← readString
  let moduleId ← readString
  let jobId ← readString
  let entrySymbol ← readString
  let resultKind ← readString
  let resultText ← readString
  let resultI64 ← Intake.word 8
  let resultF64 ← Intake.word 8
  let signalNumber ← Intake.word 4
  let exitCode ← Intake.word 4
  let pid ← Intake.word 4
  let timeoutMs ← Intake.word 8
  let symbolCount ← Intake.word 8
  let handleKind ← readString
  let launchMode ← readString
  let diagnostics ← readStringVector
  let symbols ← readStringVector
  let logs ← readStringVector
  return {
    ok := ok != 0, available := available != 0, status, error, moduleId, jobId, entrySymbol,
    resultKind, resultText, resultI64 := (UInt64.ofNat resultI64).toInt64,
    resultF64 := UInt64.ofNat resultF64, signalNumber := (UInt32.ofNat signalNumber).toInt32,
    exitCode := (UInt32.ofNat exitCode).toInt32, pid := (UInt32.ofNat pid).toInt32,
    timeoutMs := (UInt64.ofNat timeoutMs).toInt64, symbolCount := UInt64.ofNat symbolCount,
    handleKind, launchMode, diagnostics, symbols, logs }

def Storable (values : List (List UInt8)) : Prop :=
  values.length < 2 ^ 64 ∧ ∀ value ∈ values, value.length < 2 ^ 64

/-- An envelope whose strings and vectors a process can hold. -/
structure TccEnvelope.Storable (envelope : TccEnvelope) : Prop where
  strings : ∀ value ∈ [envelope.status, envelope.error, envelope.moduleId, envelope.jobId,
    envelope.entrySymbol, envelope.resultKind, envelope.resultText, envelope.handleKind,
    envelope.launchMode], value.length < 2 ^ 64
  diagnostics : Tcc.Storable envelope.diagnostics
  symbols : Tcc.Storable envelope.symbols
  logs : Tcc.Storable envelope.logs

variable {value : List UInt8} {values : List (List UInt8)}

theorem writeString_reads (short : value.length < 2 ^ 64) :
    readString.Reads (writeString value) value :=
  (Intake.Reads.word short).bind (Intake.Reads.block value)

theorem writeStringVector_reads (storable : Storable values) :
    readStringVector.Reads (writeStringVector values) values :=
  (Intake.Reads.word storable.1).bind
    (Intake.Reads.many fun value member => writeString_reads (storable.2 value member))

theorem word_toNat_reads {word : UInt64} : (Intake.word 8).Reads (wordBytes 8 word.toNat) word.toNat :=
  Intake.Reads.word word.toNat_lt

theorem int_toNat_reads {word : UInt32} : (Intake.word 4).Reads (wordBytes 4 word.toNat) word.toNat :=
  Intake.Reads.word word.toNat_lt

theorem bool_toNat_reads {flag : Bool} : (Intake.word 1).Reads (wordBytes 1 flag.toNat) flag.toNat :=
  Intake.Reads.word (by cases flag <;> decide)

theorem readEnvelope_writeEnvelope {envelope : TccEnvelope} (storable : envelope.Storable) :
    readEnvelope (writeEnvelope envelope) = some (envelope, []) := by
  obtain ⟨strings, diagnostics, symbols, logs⟩ := storable
  simp only [List.forall_mem_cons] at strings
  obtain ⟨status, error, moduleId, jobId, entrySymbol, resultKind, resultText, handleKind,
    launchMode, -⟩ := strings
  have reads : readEnvelope.Reads (writeEnvelope envelope) envelope := by
    -- The fields are read in the order in which they were written.
    unfold readEnvelope writeEnvelope
    refine bool_toNat_reads.bind (bool_toNat_reads.bind ?_)
    refine (writeString_reads status).bind ((writeString_reads error).bind ?_)
    refine (writeString_reads moduleId).bind ((writeString_reads jobId).bind ?_)
    refine (writeString_reads entrySymbol).bind ((writeString_reads resultKind).bind ?_)
    refine (writeString_reads resultText).bind ?_
    refine word_toNat_reads.bind (word_toNat_reads.bind ?_)
    refine int_toNat_reads.bind (int_toNat_reads.bind (int_toNat_reads.bind ?_))
    refine word_toNat_reads.bind (word_toNat_reads.bind ?_)
    refine (writeString_reads handleKind).bind ((writeString_reads launchMode).bind ?_)
    refine (writeStringVector_reads diagnostics).bind ((writeStringVector_reads symbols).bind ?_)
    refine (writeStringVector_reads logs).last ?_
    -- What is left is that every field is converted back.
    have flag : ∀ b : Bool, (b.toNat != 0) = b := by decide
    simp only [flag, UInt64.ofNat_toNat, UInt32.ofNat_toNat, Int64.toInt64_toUInt64,
      Int32.toInt32_toUInt32]
    exact Intake.Reads.pure envelope
  have read := reads []
  rwa [List.append_nil] at read

theorem readEnvelope_nil : readEnvelope [] = none := rfl

theorem length_resultText_lt (envelope : TccEnvelope) :
    envelope.resultText.length < (writeEnvelope envelope).length := by
  simp only [writeEnvelope, writeString, List.length_append, length_wordBytes]
  omega

end Wire

section Results

/-- Why a worker could not compile its module. -/
inductive CompileFailure where
  | symbolResolution
  | tccNew
  | outputType
  | includePath
  | symbolRegistration
  | compile
  | relocate
  | missingEntrySymbol
  deriving DecidableEq, Repr

def CompileFailure.status : CompileFailure → List UInt8
  | symbolResolution => ascii "symbol_resolution_failed"
  | tccNew => ascii "tcc_new_failed"
  | outputType => ascii "output_type_failed"
  | includePath => ascii "include_path_failed"
  | symbolRegistration => ascii "symbol_registration_failed"
  | compile => ascii "compile_error"
  | relocate => ascii "relocate_error"
  | missingEntrySymbol => ascii "missing_entry_symbol"

/-- What the generated code has left as its result. -/
inductive ResultKind where
  | none
  | text (resultText : List UInt8)
  | i64 (resultI64 : Int64)
  | f64 (resultF64 : UInt64)
  deriving DecidableEq, Repr

/-- What the process of a job has computed when it comes to write its envelope. -/
inductive WorkerResult where
  | inputError
  | compileFailed (failure : CompileFailure) (error : List UInt8)
      (diagnostics symbols : List (List UInt8))
  | entryError (returnCode : Int32) (logs : List (List UInt8))
  | returned (resultKind : ResultKind) (logs : List (List UInt8))
  deriving DecidableEq, Repr

def entrySymbol : List UInt8 := ascii "agentc_tcc_entry"

/-- Sets the fields of a run's envelope that are about its result. -/
def ResultKind.record (envelope : TccEnvelope) : ResultKind → TccEnvelope
  | none => { envelope with resultKind := ascii "none" }
  | text resultText => { envelope with resultKind := ascii "text", resultText }
  | i64 resultI64 => { envelope with resultKind := ascii "i64", resultI64 }
  | f64 resultF64 => { envelope with resultKind := ascii "f64", resultF64 }

def WorkerResult.envelope (result : WorkerResult) : TccEnvelope :=
  { computed result with launchMode := kExecLaunchMode }
where
  computed : WorkerResult → TccEnvelope
  | inputError =>
    { available := true, status := ascii "worker_input_error"
      error := ascii "TCC worker did not receive a complete request" }
  | compileFailed failure error diagnostics symbols =>
    { available := true, entrySymbol, handleKind := ascii "tcc_module", status := failure.status
      error, diagnostics, symbols }
  | entryError returnCode logs =>
    { available := true, entrySymbol, handleKind := ascii "tcc_isolated_result", logs
      status := ascii "entry_error"
      error := ascii "agentc_tcc_entry returned non-zero status " ++ ascii (toString returnCode.toInt)
      exitCode := returnCode }
  | returned resultKind logs =>
    resultKind.record { available := true, ok := true, status := ascii "ok", entrySymbol, logs
                        handleKind := ascii "tcc_isolated_result" }

theorem WorkerResult.status_ne (result : WorkerResult) :
    result.envelope.status ≠ ascii "running" ∧ result.envelope.status ≠ ascii "timed_out" ∧
      result.envelope.status ≠ ascii "cancelled" := by
  cases result with
  | inputError => exact of_decide_eq_true rfl
  | compileFailed failure => cases failure <;> exact of_decide_eq_true rfl
  | entryError => exact of_decide_eq_true rfl
  | returned result => cases result <;> exact of_decide_eq_true rfl

end Results

end AgentC.Tcc

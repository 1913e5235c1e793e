import AgentC.Library.Pipes
import AgentC.Alloc.CodecRoundTrip
import AgentC.Cartographer.Protocol
import AgentC.Listree.JsonRoundTrip
import AgentC.StaticImage.SlotTable

/-! What workers are sent through a pipe and send back, and what they make of it. -/

namespace AgentC.Edict.Workers

open Listree (ListreeValue createStringValue createNullValue toJson fromJson)

/-- A value that is shared with a worker. -/
structure Snapshot where
  value : ListreeValue
  readOnly : Bool := false

/-- What a worker is started with, as far as it is sent or made of what is sent. -/
structure InternWorkerInput where
  taskId : List UInt8 := []
  program : List UInt8 := []
  inputSnapshot : Option Snapshot := none
  contextSharedReadOnly : Option Snapshot := none
  importsSharedReadOnly : Option Snapshot := none
  staticMountsReadOnly : Option Snapshot := none
  staticProgramMount : List UInt8 := []
  staticProgramWord : List UInt8 := []
  hasStaticProgramBytecode : Bool := false
  staticProgramBytecode : List UInt8 := []
  -- The bytes that the borrowed pointer and its size stand for.
  staticProgramBorrowedBytecode : Option (List UInt8) := none
  allowUnsafeFfiCalls : Bool := false

structure InternWorkerOutcome where
  ok : Bool := false
  vmState : Int32 := 0
  resultJson : List UInt8 := Listree.nullLiteral
  errorCode : List UInt8 := []
  errorMessage : List UInt8 := []
  deriving DecidableEq

inductive SlabFile where
  | missing
  | unknown
  | opened (bytes : List UInt8) (mapError : Option (List UInt8))

/-- The files that a worker finds: containers of declarations, as they are mounted, and bytecode slabs. -/
structure Host where
  container : List UInt8 → Except (List UInt8) ListreeValue
  slab : List UInt8 → SlabFile

section Values

def namedValue (value : Option ListreeValue) (name : List UInt8) : Option ListreeValue :=
  match value with
  | some (.dict fields) => (fields.find? (·.1 = name)).map (·.2)
  | _ => none

def textValue : Option ListreeValue → List UInt8
  | some (.text bytes) => bytes
  | _ => []

/-- `addNamedItem`, for fields in the order of their names. -/
def addNamedItem (fields : List (Name × ListreeValue)) (name : Name) (value : ListreeValue) :
    List (Name × ListreeValue) :=
  fields.takeWhile (·.1 < name) ++ (name, value) :: fields.filter (name < ·.1)

end Values

section Programs

variable (host : Host)

def hexNibble (c : UInt8) : Option Nat :=
  if 0x30 ≤ c ∧ c ≤ 0x39 then some (c.toNat - 0x30)
  else if 0x61 ≤ c ∧ c ≤ 0x66 then some (c.toNat - 0x61 + 10)
  else if 0x41 ≤ c ∧ c ≤ 0x46 then some (c.toNat - 0x41 + 10)
  else none

/-- The loop of `decodeHexBytes`. -/
def decodeHexPairs : List UInt8 → Option (List UInt8)
  | [] => some []
  | [_] => none
  | c :: d :: rest =>
    match hexNibble c, hexNibble d with
    | some hi, some lo => (decodeHexPairs rest).map (UInt8.ofNat (16 * hi + lo) :: ·)
    | _, _ => none

def decodeHexBytes (hex : List UInt8) : Option (List UInt8) :=
  if hex = [] ∨ hex.length % 2 ≠ 0 then none else decodeHexPairs hex

def parseSizeText (text : List UInt8) : Option Nat :=
  if text = [] then none
  else
    -- As a C string the text ends at its first zero byte.
    let (value, rest) := Cartographer.Protocol.strtoull (text.takeWhile (· ≠ 0))
    if rest = [] then some value.toNat else none

def mapBorrowedBytecodeSlab (path : List UInt8) (offset size : Nat) (expectedHash : List UInt8) :
    Except (List UInt8) (List UInt8) :=
  if path = [] ∨ size = 0 then .error (ascii "static program entry has invalid bytecode_slab_path/size")
  else
    match host.slab path with
    | .missing => .error (ascii "failed to open static bytecode slab read-only: " ++ path)
    | .unknown => .error (ascii "failed to stat static bytecode slab: " ++ path)
    | .opened bytes mapError =>
      if bytes = [] then .error (ascii "failed to stat static bytecode slab: " ++ path)
      else if bytes.length < offset ∨ bytes.length - offset < size then
        .error (ascii "static bytecode slab range is out of bounds")
      else
        match mapError with
        | some reason => .error (ascii "failed to mmap static bytecode slab read-only: " ++ reason)
        | none =>
          let borrowed := (bytes.drop offset).take size
          if expectedHash ≠ [] ∧ StaticImage.fnv1a64 borrowed ≠ expectedHash then
            .error (ascii "static bytecode slab hash mismatch")
          else .ok borrowed

/-- What the search for a static program has found so far. -/
structure ProgramSearch where
  program : List UInt8 := []
  bytecode : Option (List UInt8) := none
  borrowed : Option (List UInt8) := none
  error : List UInt8 := []

/-- One declaration. The search goes on behind a slab, mapped or not, and behind an error. -/
def ProgramSearch.visit (word : List UInt8) (search : ProgramSearch) (declaration : ListreeValue) :
    ProgramSearch :=
  let entry := fun name => textValue (namedValue (some declaration) (ascii name))
  if search.program ≠ [] ∨ search.bytecode.isSome then search
  else if entry "word" ≠ word then search
  else if entry "bytecode_slab_path" ≠ [] then
    match parseSizeText (entry "bytecode_slab_offset"), parseSizeText (entry "bytecode_slab_size") with
    | some offset, some size =>
      match mapBorrowedBytecodeSlab host (entry "bytecode_slab_path") offset size (entry "bytecode_slab_hash") with
      | .ok bytes => { search with borrowed := some bytes }
      | .error error => { search with error }
    | _, _ => { search with error := ascii "static program entry has invalid bytecode slab range metadata" }
  else if entry "bytecode_hex" ≠ [] then
    match decodeHexBytes (entry "bytecode_hex") with
    | some bytes => { search with bytecode := some bytes }
    | none => { search with error := ascii "static program entry has invalid bytecode_hex" }
  else { search with program := entry "program_source" }

/-- Finding the program that a task names in a mount, when it does not bring one. -/
def resolveStaticProgram (input : InternWorkerInput) : Except (List UInt8) InternWorkerInput :=
  if input.program ≠ [] ∨ input.hasStaticProgramBytecode ∨ input.staticProgramBorrowedBytecode.isSome then
    .ok input
  else if input.staticProgramMount = [] ∨ input.staticProgramWord = [] then
    .error (ascii "worker task has no program or static program entry")
  else
    let mount := namedValue (input.staticMountsReadOnly.map Snapshot.value) input.staticProgramMount
    match namedValue (namedValue mount (ascii "root")) (ascii "declarations") with
    | some (.list declarations) =>
      let search := declarations.foldl (ProgramSearch.visit host input.staticProgramWord) {}
      if search.error ≠ [] then .error search.error
      else if search.borrowed.isSome then
        .ok { input with staticProgramBorrowedBytecode := search.borrowed }
      else
        match search.bytecode with
        | some bytes => .ok { input with staticProgramBytecode := bytes, hasStaticProgramBytecode := true }
        | none =>
          if search.program = [] then
            .error (ascii
              "static program entry not found or has no bytecode_slab/bytecode_hex/program_source")
          else .ok { input with program := search.program }
    | _ => .error (ascii "static program mount does not expose declarations")

/-- Mounting the container that the base mount names, when it names one. -/
def hydrateStaticMounts (staticMounts : ListreeValue) : Except (List UInt8) ListreeValue :=
  match staticMounts, namedValue (some staticMounts) (ascii "base") with
  | .dict mounts, some (.dict base) =>
    let path := textValue (namedValue (some (.dict base)) (ascii "container_path"))
    if path = [] then .ok staticMounts
    else
      (host.container path).map fun root =>
        let manifest := namedValue (some root) (ascii "manifest")
        let payloadHash := textValue (namedValue manifest (ascii "payload_hash"))
        let imageId := textValue (namedValue manifest (ascii "module")) ++ ascii ":" ++ payloadHash
        let base := addNamedItem base (ascii "source") (createStringValue (ascii "g103-exec-mounted-mmap-container"))
        let base := addNamedItem base (ascii "image_id") (createStringValue imageId)
        let base := addNamedItem base (ascii "manifest_hash") (createStringValue payloadHash)
        let base := addNamedItem base (ascii "root_descriptor")
          (createStringValue (textValue (namedValue manifest (ascii "root_id"))))
        let base := addNamedItem base (ascii "mounted_in_exec") (createStringValue (ascii "true"))
        let base := addNamedItem base (ascii "root") root
        .dict (addNamedItem mounts (ascii "base") (.dict base))
  | _, _ => .ok staticMounts

end Programs

section Framing

def writeString (value : List UInt8) : PipeWriter :=
  (PipeWriter.writeAll (wordBytes 8 value.length)).andThen (PipeWriter.writeAll value)

/-- `assign` throws for a length that no string has. -/
def readString : PipeReader (List UInt8) :=
  PipeReader.counted 8 maxString

structure WorkerFrame where
  taskId : List UInt8
  program : List UInt8
  staticProgramMount : List UInt8
  staticProgramWord : List UInt8
  inputJson : List UInt8
  contextJson : List UInt8
  importsJson : List UInt8
  staticMountsJson : List UInt8
  allowUnsafe : Bool
  deriving DecidableEq

def snapshotJson (snapshot : Option Snapshot) : Option (List UInt8) :=
  toJson ((snapshot.map Snapshot.value).getD createNullValue)

/-- The frame of an input; nothing where `toJson` reads past the data of a string. -/
def InternWorkerInput.frame (input : InternWorkerInput) : Option WorkerFrame := do
  let inputJson ← snapshotJson input.inputSnapshot
  let contextJson ← snapshotJson input.contextSharedReadOnly
  let importsJson ← snapshotJson input.importsSharedReadOnly
  let staticMountsJson ← snapshotJson input.staticMountsReadOnly
  return {
    taskId := input.taskId
    program := input.program
    staticProgramMount := input.staticProgramMount
    staticProgramWord := input.staticProgramWord
    inputJson, contextJson, importsJson, staticMountsJson
    allowUnsafe := input.allowUnsafeFfiCalls }

def WorkerFrame.write (frame : WorkerFrame) : PipeWriter :=
  (writeString frame.taskId).andThen (writeString frame.program) |>.andThen
    (writeString frame.staticProgramMount) |>.andThen
    (writeString frame.staticProgramWord) |>.andThen
    (writeString frame.inputJson) |>.andThen
    (writeString frame.contextJson) |>.andThen
    (writeString frame.importsJson) |>.andThen
    (writeString frame.staticMountsJson) |>.andThen
    (PipeWriter.writeAll (wordBytes 1 frame.allowUnsafe.toNat))

/-- What a worker makes of its frame, once the four values are read. -/
def settle (host : Host) (frame : WorkerFrame) (input context imports staticMounts : ListreeValue) :
    Except (List UInt8) InternWorkerInput := do
  let staticMounts ← hydrateStaticMounts host staticMounts
  let input ← resolveStaticProgram host {
    taskId := frame.taskId
    program := frame.program
    staticProgramMount := frame.staticProgramMount
    staticProgramWord := frame.staticProgramWord
    inputSnapshot := some { value := input }
    contextSharedReadOnly := some { value := context }
    importsSharedReadOnly := some { value := imports }
    staticMountsReadOnly := some { value := staticMounts } }
  return { input with
    contextSharedReadOnly := some { value := context, readOnly := true }
    importsSharedReadOnly := some { value := imports, readOnly := true }
    staticMountsReadOnly := some { value := staticMounts, readOnly := true }
    allowUnsafeFfiCalls := frame.allowUnsafe }

def WorkerFrame.received (host : Host) (frame : WorkerFrame) : Except (List UInt8) InternWorkerInput :=
  match fromJson frame.inputJson, fromJson frame.contextJson, fromJson frame.importsJson,
      fromJson frame.staticMountsJson with
  | some input, some context, some imports, some staticMounts =>
    settle host frame input context imports staticMounts
  | _, _, _, _ => .error (ascii "worker exec input contained invalid JSON")

end Framing

section Fields

end Fields

section Outcomes

/-- The strings of an outcome are no longer than strings are. -/
structure InternWorkerOutcome.Storable (outcome : InternWorkerOutcome) : Prop where
  resultJson : outcome.resultJson.length ≤ maxString
  errorCode : outcome.errorCode.length ≤ maxString
  errorMessage : outcome.errorMessage.length ≤ maxString

def InternWorkerOutcome.bytes (outcome : InternWorkerOutcome) : List UInt8 :=
  wordBytes 1 outcome.ok.toNat ++ (wordBytes 4 outcome.vmState.toUInt32.toNat ++
    (stringBytes outcome.resultJson ++ (stringBytes outcome.errorCode ++ stringBytes outcome.errorMessage)))

end Outcomes

section Inputs

/-- The strings of a frame are no longer than strings are. -/
structure WorkerFrame.Storable (frame : WorkerFrame) : Prop where
  taskId : frame.taskId.length ≤ maxString
  program : frame.program.length ≤ maxString
  staticProgramMount : frame.staticProgramMount.length ≤ maxString
  staticProgramWord : frame.staticProgramWord.length ≤ maxString
  inputJson : frame.inputJson.length ≤ maxString
  contextJson : frame.contextJson.length ≤ maxString
  importsJson : frame.importsJson.length ≤ maxString
  staticMountsJson : frame.staticMountsJson.length ≤ maxString

def WorkerFrame.bytes (frame : WorkerFrame) : List UInt8 :=
  stringBytes frame.taskId ++ (stringBytes frame.program ++ (stringBytes frame.staticProgramMount ++
    (stringBytes frame.staticProgramWord ++ (stringBytes frame.inputJson ++ (stringBytes frame.contextJson ++
      (stringBytes frame.importsJson ++ (stringBytes frame.staticMountsJson ++
        wordBytes 1 frame.allowUnsafe.toNat)))))))

def ProperSnapshot (snapshot : Option Snapshot) : Prop :=
  ∀ shared, snapshot = some shared → Listree.Proper shared.value

/-- The values of an input have the data of all their strings. -/
structure InternWorkerInput.Proper (input : InternWorkerInput) : Prop where
  inputSnapshot : ProperSnapshot input.inputSnapshot
  context : ProperSnapshot input.contextSharedReadOnly
  imports : ProperSnapshot input.importsSharedReadOnly
  staticMounts : ProperSnapshot input.staticMountsReadOnly

end Inputs

def bare : Host where
  container _ := .error (ascii "no container")
  slab _ := .missing

end AgentC.Edict.Workers

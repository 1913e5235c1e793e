import AgentC.Alloc.Slab
import AgentC.Listree.Json
import AgentC.Listree.TreeOrder

/-! What the mapper says of declarations, and the types and values that libffi is given for them. -/

namespace AgentC.Cartographer

open Listree (kBlobSlabBytes)

/--
A Listree node that is not in list mode.

A string that is too long for a blob slab has no data. A dictionary has no data either.
-/
inductive Node where
  | string (data : Option (List UInt8))
  | binary (data : List UInt8)
  | dict (items : AATree (List Node))

namespace Node

def createStringValue (str : List UInt8) : Node :=
  .string (if str.length ≤ kBlobSlabBytes then some str else none)

def find : Node → Name → Option (List Node)
  | .dict items, name => (items.find name).join
  | .string _, name | .binary _, name => ((AATree.new_ : AATree (List Node)).find name).join

def getValue (node : Node) (name : Name) : Option Node :=
  (node.find name).bind List.head?

def bytes : Node → Option (List UInt8)
  | .string (some data) | .binary data => if data.isEmpty then none else some data
  | .string none | .dict _ => none

def valueToString : Node → Option (List UInt8)
  | .binary _ => none
  | node => node.bytes

end Node

/-- What the mapper knows about a declaration. Its children are in the order of the source. -/
structure NodeDescription where
  key : Name
  kind : List UInt8
  name : List UInt8
  type : List UInt8
  returnType : List UInt8
  size : Option Int32
  offset : Option Int32
  children : List NodeDescription

def intBytes (n : Int32) : List UInt8 :=
  (List.range 4).map fun i => UInt8.ofNat (n.toUInt32.toNat / 256 ^ i)

mutual

/-- The dictionary that stands for a declaration. -/
def materializeNode : NodeDescription → Node
  | ⟨_, kind, name, type, returnType, size, offset, children⟩ =>
    .dict (AATree.dictionary (
      [(ascii "kind", Node.createStringValue kind),
        (ascii "name", Node.createStringValue name),
        (ascii "type", Node.createStringValue type)] ++
      (match size with
        | some size => [(ascii "size", Node.binary (intBytes size))]
        | none => []) ++
      (if returnType.isEmpty then [] else [(ascii "return_type", Node.createStringValue returnType)]) ++
      (match offset with
        | some offset => [(ascii "offset", Node.binary (intBytes offset))]
        | none => []) ++
      [(ascii "children", Node.dict (AATree.dictionary (materializeChildren children)))]))

def materializeChildren : List NodeDescription → List (Name × Node)
  | [] => []
  | child :: rest => (child.key, materializeNode child) :: materializeChildren rest

end

theorem materializeChildren_eq (children : List NodeDescription) :
    materializeChildren children = children.map fun child => (child.key, materializeNode child) := by
  induction children with
  | nil => rfl
  | cons child rest ih => rw [materializeChildren, ih, List.map_cons]

end AgentC.Cartographer

namespace AgentC.Cartographer

open Listree (isDigit)

/-- The types of libffi, where `long` is the type of 64 bits. -/
inductive FFIType where
  | void
  | sint8
  | uint8
  | sint16
  | uint16
  | sint32
  | uint32
  | sint64
  | uint64
  | float
  | double
  | pointer
  | ltv_handle
deriving DecidableEq, Repr

def getFFIType (name : List UInt8) : FFIType :=
  if name = ascii "int" ∨ name = ascii "signed int" then .sint32
  else if name = ascii "unsigned int" then .uint32
  else if name = ascii "void" then .void
  else if name = ascii "double" then .double
  else if name = ascii "float" then .float
  else if name = ascii "char" ∨ name = ascii "signed char" then .sint8
  else if name = ascii "unsigned char" then .uint8
  else if name = ascii "short" ∨ name = ascii "short int" ∨ name = ascii "signed short" then .sint16
  else if name = ascii "unsigned short" ∨ name = ascii "unsigned short int" then .uint16
  else if name = ascii "long" ∨ name = ascii "long int" ∨ name = ascii "signed long" then .sint64
  else if name = ascii "unsigned long" ∨ name = ascii "unsigned long int" then .uint64
  else if name = ascii "long long" ∨ name = ascii "long long int" ∨
    name = ascii "signed long long" then .sint64
  else if name = ascii "unsigned long long" ∨ name = ascii "unsigned long long int" then .uint64
  else if name = ascii "char*" then .pointer
  else if name = ascii "pointer" then .pointer
  else if name = ascii "ltv" then .ltv_handle
  -- Clang writes a blank before the star.
  else if Listree.byte '*' ∈ name then .pointer
  else .sint32

/-- Functions that are never called. -/
def blocklist : List (List UInt8) :=
  ["execv", "execvp", "execvpe", "execve", "execle", "execl", "execlp", "fexecve", "posix_spawn",
    "posix_spawnp", "fork", "vfork", "clone", "_exit", "_Exit", "system", "popen", "pclose",
    "wordexp", "wordfree", "unlink", "unlinkat", "remove", "rename", "renameat", "renameat2",
    "rmdir", "chmod", "fchmod", "fchmodat", "chown", "fchown", "lchown", "fchownat", "truncate",
    "ftruncate", "mkfifo", "mkfifoat", "mknod", "mknodat", "mount", "umount", "umount2", "dlopen",
    "dlmopen", "dlclose", "mprotect", "signal", "sigaction", "sigprocmask", "sigwait"].map ascii

def isBlocked (funcName : List UInt8) : Bool :=
  blocklist.contains funcName

/--
A value on the data stack, as far as calls look into it, and the slot that it is in.

`iterator` stands for a value with a cursor: the bytes of the cursor, and the values that a clone
of it goes through.
-/
inductive ArgValue where
  | value (handle : SlabId) (binary : Bool) (data : List UInt8)
  | iterator (handle : SlabId) (data : List UInt8) (yields : List ArgValue)
  | list (handle : SlabId) (elements : List ArgValue)

namespace ArgValue

def handle : ArgValue → SlabId
  | .value handle _ _ | .iterator handle _ _ | .list handle _ => handle

def binary? : ArgValue → Option (List UInt8)
  | .value _ true data => some data
  | _ => none

def getText : ArgValue → List UInt8
  | .value _ false data | .iterator _ data _ => data
  | _ => []

def choices : ArgValue → List ArgValue
  | .iterator _ _ yields => yields
  | val => [val]

end ArgValue

def leBytes (size : Nat) (n : Int) : List UInt8 :=
  (List.range size).map fun i => UInt8.ofNat ((n % 256 ^ size).toNat / 256 ^ i)

section Numbers

/-- What `isspace` accepts. -/
def isSpace (c : UInt8) : Bool :=
  c = 0x20 || (0x09 ≤ c && c ≤ 0x0D)

/-- Sign and digits at the start of a text, when there are digits. -/
def decimalPrefix (text : List UInt8) : Option (Bool × Nat) :=
  let text := text.dropWhile isSpace
  let (negative, rest) :=
    match text with
    | c :: rest =>
      if c = Listree.byte '-' then (true, rest)
      else if c = Listree.byte '+' then (false, rest)
      else (false, c :: rest)
    | [] => (false, [])
  let digits := rest.takeWhile isDigit
  if digits.isEmpty then none
  else some (negative, digits.foldl (fun n c => 10 * n + (c.toNat - 0x30)) 0)

/-- `std::stoi` and its wider forms: nothing when they throw. -/
def parseSigned (bits : Nat) (text : List UInt8) : Option Int :=
  (decimalPrefix text).bind fun (negative, magnitude) =>
    let n : Int := if negative then -magnitude else magnitude
    if -(2 : Int) ^ (bits - 1) ≤ n ∧ n < 2 ^ (bits - 1) then some n else none

/-- `std::stoul` and `std::stoull`, which read a minus as the number below 2 ^ 64. -/
def parseUnsigned (text : List UInt8) : Option Int :=
  (decimalPrefix text).bind fun (negative, magnitude) =>
    if magnitude < 2 ^ 64 then some (if negative then -magnitude else magnitude) else none

end Numbers

/-- A call that libffi is asked to make: each argument with its type and the bytes of its value. -/
structure Call where
  funcName : List UInt8
  rtype : FFIType
  args : List (FFIType × List UInt8)
deriving DecidableEq, Repr

/--
What stands outside the repository: the loaded libraries, libffi, and numbers with a fraction.

`converted` is what a call returns as a value.
-/
structure Ffi where
  symbols : List UInt8 → Bool
  ffi_prep_cif : FFIType → List FFIType → Bool
  converted : Call → ArgValue
  stof : List UInt8 → Option (List UInt8)
  stod : List UInt8 → Option (List UInt8)

namespace Ffi

variable (ffi : Ffi)

/-- The bytes of a number: those of a binary value of its size, or those that its text stands for. -/
def convertNumber (size : Nat) (parse : List UInt8 → Option (List UInt8)) (val : ArgValue) :
    List UInt8 :=
  let zero := List.replicate size 0
  let ofText := if val.getText.isEmpty then zero else (parse val.getText).getD zero
  match val.binary? with
  | some data => if data.length = size then data else ofText
  | none => ofText

def convertValue (val : ArgValue) (type : FFIType) : List UInt8 :=
  match type with
  | .sint32 => convertNumber 4 (fun text => (parseSigned 32 text).map (leBytes 4)) val
  | .uint32 => convertNumber 4 (fun text => (parseUnsigned text).map (leBytes 4)) val
  | .sint64 => convertNumber 8 (fun text => (parseSigned 64 text).map (leBytes 8)) val
  | .uint64 => convertNumber 8 (fun text => (parseUnsigned text).map (leBytes 8)) val
  | .sint16 => convertNumber 2 (fun text => (parseSigned 32 text).map (leBytes 2)) val
  | .uint16 => convertNumber 2 (fun text => (parseUnsigned text).map (leBytes 2)) val
  | .sint8 => convertNumber 1 (fun text => (parseSigned 32 text).map (leBytes 1)) val
  | .uint8 => convertNumber 1 (fun text => (parseUnsigned text).map (leBytes 1)) val
  | .float => convertNumber 4 ffi.stof val
  | .double => convertNumber 8 ffi.stod val
  -- A pointer is never read from a text.
  | .pointer => convertNumber 8 (fun _ => none) val
  | .ltv_handle => leBytes 4 (val.handle.first + 65536 * val.handle.second)
  | .void => []

end Ffi

def isParameterNode (node : Node) : Bool :=
  ((node.getValue (ascii "kind")).bind Node.bytes) == some (ascii "Parameter")

def childNodes (definition : Node) : List Node :=
  match definition.getValue (ascii "children") with
  | some (.dict items) => items.entries.filterMap fun entry => entry.2.head?
  | _ => []

/-- The type that a parameter is declared with; without one it counts as `int`. -/
def parameterType (node : Node) : FFIType :=
  match (node.getValue (ascii "type")).bind Node.bytes with
  | some name => getFFIType name
  | none => getFFIType (ascii "int")

def parameterTypes (definition : Node) : List FFIType :=
  ((childNodes definition).filter isParameterNode).map parameterType

/-- The type that a declaration returns, or nothing when its text has been lost. -/
def returnType (definition : Node) : Option FFIType :=
  match definition.getValue (ascii "return_type") with
  | none => some (getFFIType (ascii "void"))
  | some (.string (some name)) | some (.binary name) => some (getFFIType name)
  | some (.dict _) => some (getFFIType [])
  | some (.string none) => none

/-- The arguments that `invoke` is given. A list has its oldest value first. -/
inductive Arguments where
  | absent
  | single (value : ArgValue)
  | list (values : List ArgValue)

namespace Arguments

def values : Arguments → List ArgValue
  | .absent => []
  | .single value => [value]
  | .list values => values

end Arguments

/-- What comes of asking for a call. -/
inductive Invocation where
  | refused
  /-- The call is handed to libffi. -/
  | called (call : Call)
  /-- A type slot is read before it is written, or written behind its table; or a text is missing. -/
  | fault
deriving DecidableEq, Repr

def typeSlots (nargs : Nat) : Nat :=
  if nargs ≤ 16 then 16 else nargs

/-- Storing types one after the other; nothing when a slot behind the table is written. -/
def storeTypes : List (Option FFIType) → Nat → List FFIType → Option (List (Option FFIType))
  | slots, _, [] => some slots
  | slots, index, type :: rest =>
    if index < slots.length then storeTypes (slots.set index (some type)) (index + 1) rest else none

namespace Ffi

variable (ffi : Ffi)

def convertArguments : List (Option FFIType) → List ArgValue → Option (List (FFIType × List UInt8))
  | _, [] => some []
  | some type :: slots, value :: rest =>
    (convertArguments slots rest).map fun args => (type, ffi.convertValue value type) :: args
  | _, _ :: _ => none

/-- `FFI::invoke`. -/
def invoke (funcName : List UInt8) (definition : Node) (args : Arguments) : Invocation :=
  if isBlocked funcName then .refused
  else if !ffi.symbols funcName then .refused
  else
    match returnType definition with
    | none => .fault
    | some rtype =>
      let nargs := args.values.length
      -- Without arguments no types are stored.
      let stored :=
        if nargs = 0 then some []
        else storeTypes (List.replicate (typeSlots nargs) none) 0 (parameterTypes definition)
      match stored.bind fun slots => ffi.convertArguments slots args.values with
      | none => .fault
      | some converted =>
        if ffi.ffi_prep_cif rtype (converted.map Prod.fst) then .called ⟨funcName, rtype, converted⟩
        else .refused

/-- The parameter types of the closure that `FFI::createClosure` makes for a declaration. -/
def createClosure (definition : Node) : Option (FFIType × List FFIType) :=
  -- The table is as long as what is stored in it.
  (returnType definition).bind fun rtype =>
    if ffi.ffi_prep_cif rtype (parameterTypes definition) then
      some (rtype, parameterTypes definition)
    else none

end Ffi

end AgentC.Cartographer

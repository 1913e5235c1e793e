import Mathlib.Data.Nat.Digits.Defs
import Mathlib.Logic.Function.Basic
import AgentC.Library.Blocks
import AgentC.Library.Words
import AgentC.Cartographer.Ffi

/-! Boxing: C structs that are packed from dictionaries, and unpacked into dictionaries again. -/

namespace AgentC.Cartographer

/-- What keeps boxing from coming to an end. -/
inductive Fault where
  /-- A number is thrown at by `std::stoi` or a function like it. -/
  | thrown
  | outside
  deriving DecidableEq, Repr

/-- Numbers with a fraction: their bytes for a text, and their text for the bytes. -/
structure Floats where
  stof : List UInt8 → Option (List UInt8)
  stod : List UInt8 → Option (List UInt8)
  printFloat : List UInt8 → List UInt8
  printDouble : List UInt8 → List UInt8

def createNullValue : Node :=
  .dict AATree.new_

def Node.items : Node → AATree (List Node)
  | .dict items => items
  | .string _ | .binary _ => AATree.new_

def Node.addNamedItem (node : Node) (name : Name) (value : Node) : Node :=
  .dict (node.items.addNamedItem name value)

section Scalars

def ltvString : Option Node → List UInt8
  | some (.string (some data)) => data
  | _ => []

def ltvBinaryInt : Option Node → Int32
  | some (.binary data) =>
    if data.length < 4 then -1 else (UInt32.ofNat (ofWordBytes (data.take 4))).toInt32
  | _ => -1

/-- The C type that a platform's typedef is taken for. -/
def canonicalType (t : List UInt8) : List UInt8 :=
  if t ∈ ["__time_t", "__clock_t", "__syscall_slong_t", "__syscall_ulong_t", "__blkcnt_t",
      "__blkcnt64_t", "__off_t", "__off64_t", "__loff_t", "__ino_t", "__ino64_t", "__nlink_t",
      "__fsfilcnt_t", "__fsfilcnt64_t", "__fsblkcnt_t", "__fsblkcnt64_t", "__pid_t", "__uid_t",
      "__gid_t", "__dev_t", "__suseconds_t", "suseconds_t", "ssize_t", "ptrdiff_t", "intptr_t",
      "__intptr_t", "int64_t", "time_t", "clock_t", "size_t"].map ascii then ascii "long"
  else if t ∈ ["__syscall_ulong_t", "uint64_t", "uintptr_t"].map ascii then ascii "unsigned long"
  else if t ∈ ["__int32_t", "__mode_t", "__socklen_t", "__useconds_t", "int32_t"].map ascii then
    ascii "int"
  else if t ∈ ["__uint32_t", "uint32_t"].map ascii then ascii "unsigned int"
  else if t ∈ ["__int16_t", "int16_t"].map ascii then ascii "short"
  else if t ∈ ["__uint16_t", "uint16_t"].map ascii then ascii "unsigned short"
  else if t ∈ ["__int8_t", "int8_t"].map ascii then ascii "char"
  else if t ∈ ["__uint8_t", "uint8_t"].map ascii then ascii "unsigned char"
  else t

/-- The size of a scalar type; zero for a type that is none. -/
def scalarSize (rawT : List UInt8) : Nat :=
  let t := canonicalType rawT
  if t ∈ ["char", "unsigned char", "signed char"].map ascii then 1
  else if t ∈ ["short", "short int", "unsigned short", "unsigned short int"].map ascii then 2
  else if t ∈ ["int", "unsigned int", "signed int"].map ascii then 4
  else if t ∈ ["long", "unsigned long", "long int", "unsigned long int"].map ascii then 8
  else if t ∈ ["long long", "long long int", "unsigned long long",
      "unsigned long long int"].map ascii then 8
  else if t = ascii "float" then 4
  else if t = ascii "double" then 8
  else if Listree.byte '*' ∈ t then 8
  else 0

/-- The bytes of a number that is parsed from a text; an empty text stands for zero. -/
def packNumber (size : Nat) (parse : List UInt8 → Option Int) (s : List UInt8) :
    Except Fault (List UInt8) :=
  if s.isEmpty then .ok (leBytes size 0)
  else
    match parse s with
    | none => .error .thrown
    | some v => .ok (leBytes size v)

/-- The same for a number with a fraction. -/
def packFloat (size : Nat) (parse : List UInt8 → Option (List UInt8)) (s : List UInt8) :
    Except Fault (List UInt8) :=
  if s.isEmpty then .ok (leBytes size 0)
  else
    match parse s with
    | none => .error .thrown
    | some v => .ok v

/-- The bytes that a value of a scalar type is packed into. -/
def packScalar (floats : Floats) (rawT : List UInt8) (val : Option Node) :
    Except Fault (List UInt8) :=
  let t := canonicalType rawT
  let s := ltvString val
  if t ∈ ["char", "signed char"].map ascii then packNumber 1 (parseSigned 32) s
  else if t = ascii "unsigned char" then packNumber 1 parseUnsigned s
  else if t ∈ ["short", "short int"].map ascii then packNumber 2 (parseSigned 32) s
  else if t ∈ ["unsigned short", "unsigned short int"].map ascii then packNumber 2 parseUnsigned s
  else if t ∈ ["int", "signed int"].map ascii then packNumber 4 (parseSigned 32) s
  else if t = ascii "unsigned int" then packNumber 4 parseUnsigned s
  else if t ∈ ["long", "long int"].map ascii then packNumber 8 (parseSigned 64) s
  else if t ∈ ["unsigned long", "unsigned long int"].map ascii then packNumber 8 parseUnsigned s
  else if t ∈ ["long long", "long long int"].map ascii then packNumber 8 (parseSigned 64) s
  else if t ∈ ["unsigned long long", "unsigned long long int"].map ascii then
    packNumber 8 parseUnsigned s
  else if t = ascii "float" then packFloat 4 floats.stof s
  else if t = ascii "double" then packFloat 8 floats.stod s
  else if Listree.byte '*' ∈ t then
    match val with
    | some (.binary data) => .ok (if data.length = 8 then data else leBytes 8 0)
    | _ => .ok (leBytes 8 0)
  else .ok []

def decimalDigits (n : Nat) : List UInt8 :=
  if n = 0 then [0x30] else (Nat.digits 10 n).reverse.map fun digit => UInt8.ofNat (0x30 + digit)

def decimal (n : Int) : List UInt8 :=
  if n < 0 then Listree.byte '-' :: decimalDigits n.natAbs else decimalDigits n.natAbs

def load (buffer : List UInt8) (place size : Nat) : Except Fault (List UInt8) :=
  if place + size ≤ buffer.length then .ok ((buffer.drop place).take size) else .error .outside

def ofSignedBytes (bytes : List UInt8) : Int :=
  if 2 * ofWordBytes bytes < 256 ^ bytes.length then ofWordBytes bytes
  else ofWordBytes bytes - 256 ^ bytes.length

def unpackSigned (size : Nat) (buffer : List UInt8) (src : Nat) : Except Fault Node :=
  (load buffer src size).map fun bytes => Node.createStringValue (decimal (ofSignedBytes bytes))

def unpackUnsigned (size : Nat) (buffer : List UInt8) (src : Nat) : Except Fault Node :=
  (load buffer src size).map fun bytes => Node.createStringValue (decimal (ofWordBytes bytes))

/-- The value of a scalar type at a place. -/
def unpackScalar (floats : Floats) (rawT : List UInt8) (buffer : List UInt8) (src : Nat) :
    Except Fault Node :=
  let t := canonicalType rawT
  if t ∈ ["char", "signed char"].map ascii then unpackSigned 1 buffer src
  else if t = ascii "unsigned char" then unpackUnsigned 1 buffer src
  else if t ∈ ["short", "short int"].map ascii then unpackSigned 2 buffer src
  else if t ∈ ["unsigned short", "unsigned short int"].map ascii then unpackUnsigned 2 buffer src
  else if t ∈ ["int", "signed int"].map ascii then unpackSigned 4 buffer src
  else if t = ascii "unsigned int" then unpackUnsigned 4 buffer src
  else if t ∈ ["long", "long int"].map ascii then unpackSigned 8 buffer src
  else if t ∈ ["unsigned long", "unsigned long int"].map ascii then unpackUnsigned 8 buffer src
  else if t ∈ ["long long", "long long int"].map ascii then unpackSigned 8 buffer src
  else if t ∈ ["unsigned long long", "unsigned long long int"].map ascii then
    unpackUnsigned 8 buffer src
  else if t = ascii "float" then
    (load buffer src 4).map fun bytes => Node.createStringValue (floats.printFloat bytes)
  else if t = ascii "double" then
    (load buffer src 8).map fun bytes => Node.createStringValue (floats.printDouble bytes)
  else if Listree.byte '*' ∈ t then (load buffer src 8).map Node.binary
  else .ok createNullValue

end Scalars

section Structs

def store (buffer : List UInt8) (dest : Nat) (bytes : List UInt8) : Except Fault (List UInt8) :=
  if dest + bytes.length ≤ buffer.length then .ok (overwrite buffer ⟨dest, bytes⟩)
  else .error .outside

theorem sizeOf_lt_of_find {items : AATree (List Node)} {name : Name} {item : List Node}
    (found : (items.find name).join = some item) : sizeOf item < sizeOf items := by
  induction items with
  | leaf => simp [AATree.find] at found
  | node left n data right ihLeft ihRight =>
    unfold AATree.find at found
    simp only [AATree.node.sizeOf_spec]
    split at found
    · have := ihLeft found
      omega
    split at found
    · have := ihRight found
      omega
    · simp only [Option.join_some] at found
      subst found
      simp only [Option.some.sizeOf_spec]
      omega

theorem sizeOf_lt_of_entry {items : AATree (List Node)} {entry : Name × List Node}
    (member : entry ∈ items.entries) : sizeOf entry.2 < sizeOf items := by
  induction items with
  | leaf => cases member
  | node left n data right ihLeft ihRight =>
    simp only [AATree.node.sizeOf_spec]
    simp only [AATree.entries, List.mem_append] at member
    obtain (member | own) | member := member
    · have := ihLeft member
      omega
    · cases data with
      | none => cases own
      | some item =>
        obtain rfl := List.mem_singleton.mp own
        simp only [Option.some.sizeOf_spec]
        omega
    · have := ihRight member
      omega

theorem sizeOf_lt_of_head {item : List Node} {node : Node} (first : item.head? = some node) :
    sizeOf node < sizeOf item := by
  cases item with
  | nil => cases first
  | cons _ _ =>
    cases first
    simp only [List.cons.sizeOf_spec]
    omega

theorem sizeOf_items_lt {node : Node} {entry : Name × List Node}
    (member : entry ∈ node.items.entries) : sizeOf entry.2 < sizeOf node := by
  cases node with
  | dict items =>
    have smaller : sizeOf entry.2 < sizeOf items := sizeOf_lt_of_entry member
    simp only [Node.dict.sizeOf_spec]
    omega
  | string | binary => cases member

theorem sizeOf_getValue {node child : Node} {name : Name} (found : node.getValue name = some child) :
    sizeOf child < sizeOf node := by
  obtain ⟨item, stored, first⟩ := Option.bind_eq_some_iff.mp found
  have smaller := sizeOf_lt_of_head first
  have none_ : (((AATree.new_ : AATree (List Node)).find name).join) = none := by
    simp only [AATree.new_, AATree.find]
    split
    · rfl
    split <;> rfl
  cases node with
  | dict items =>
    have inTree := sizeOf_lt_of_find stored
    simp only [Node.dict.sizeOf_spec]
    omega
  | string | binary =>
    rw [Node.find, none_] at stored
    cases stored

structure FieldDef where
  fieldType : List UInt8
  byteOffset : Nat

/-- What the definition of a child says about it, when the child is a field with an offset. -/
def fieldDef? (fieldDef : Node) : Option FieldDef :=
  let kind := ltvString (fieldDef.getValue (ascii "kind"))
  let fieldType := ltvString (fieldDef.getValue (ascii "type"))
  let byteOffset := ltvBinaryInt (fieldDef.getValue (ascii "offset"))
  if kind ≠ ascii "Field" then none
  else if byteOffset < 0 then none
  else some ⟨fieldType, byteOffset.toInt.toNat⟩

def packStruct (floats : Floats) (source : Option Node) (typeDef : Node) (base : Nat)
    (buffer : List UInt8) : Except Fault (List UInt8) :=
  match _typed : typeDef.getValue (ascii "children") with
  | none => .ok buffer
  | some children =>
    children.items.entries.attach.foldlM (fun buffer entry =>
      match _stored : entry.val.2.head? with
      | none => .ok buffer
      | some fieldDef =>
        match fieldDef? fieldDef with
        | none => .ok buffer
        | some field =>
          let dest := base + field.byteOffset
          let srcVal := source.bind fun source => source.getValue entry.val.1
          if 0 < scalarSize field.fieldType then do
            let bytes ← packScalar floats field.fieldType srcVal
            store buffer dest bytes
          else
            match _nested : fieldDef.getValue (ascii "type_def") with
            | none => .ok buffer
            | some nestedTypeDef => packStruct floats srcVal nestedTypeDef dest buffer) buffer
termination_by sizeOf typeDef
decreasing_by
  have one := sizeOf_getValue _typed
  have two := sizeOf_items_lt entry.property
  have three := sizeOf_lt_of_head _stored
  have four := sizeOf_getValue _nested
  omega

def unpackStruct (floats : Floats) (typeDef : Node) (base : Nat) (buffer : List UInt8) :
    Except Fault Node :=
  match _typed : typeDef.getValue (ascii "children") with
  | none => .ok createNullValue
  | some children =>
    children.items.entries.attach.foldlM (fun result entry =>
      match _stored : entry.val.2.head? with
      | none => .ok result
      | some fieldDef =>
        match fieldDef? fieldDef with
        | none => .ok result
        | some field =>
          let src := base + field.byteOffset
          if 0 < scalarSize field.fieldType then do
            let value ← unpackScalar floats field.fieldType buffer src
            return result.addNamedItem entry.val.1 value
          else
            match _nested : fieldDef.getValue (ascii "type_def") with
            | none => .ok result
            | some nestedTypeDef => do
              let value ← unpackStruct floats nestedTypeDef src buffer
              return result.addNamedItem entry.val.1 value) createNullValue
termination_by sizeOf typeDef
decreasing_by
  have one := sizeOf_getValue _typed
  have two := sizeOf_items_lt entry.property
  have three := sizeOf_lt_of_head _stored
  have four := sizeOf_getValue _nested
  omega

abbrev Heap := UInt64 → Option (List UInt8)

def pointerBytes (address : UInt64) : List UInt8 :=
  wordBytes 8 address.toNat

/-- Boxing, where `calloc` gives the address, which is zero when it fails. -/
def box (floats : Floats) (heap : Heap) (calloc : UInt64) (source typeDef : Option Node) :
    Except Fault (Option Node × Heap) :=
  match source, typeDef with
  | some source, some typeDef =>
    let structSize := ltvBinaryInt (typeDef.getValue (ascii "size"))
    if structSize ≤ 0 then .ok (none, heap)
    else if calloc = 0 then .ok (none, heap)
    else do
      let buffer ← packStruct floats (some source) typeDef 0
        (List.replicate structSize.toInt.toNat 0)
      let boxed := (createNullValue.addNamedItem (ascii "__ptr") (.binary (pointerBytes calloc))
        ).addNamedItem (ascii "__type") typeDef
      return (some boxed, Function.update heap calloc (some buffer))
  | _, _ => .ok (none, heap)

def unbox (floats : Floats) (heap : Heap) (boxed : Option Node) : Except Fault (Option Node) :=
  match boxed with
  | none => .ok none
  | some boxed =>
    match boxed.getValue (ascii "__ptr") with
    | some (.binary data) =>
      if data.length ≠ 8 then .ok none
      else
        let rawPtr := UInt64.ofNat (ofWordBytes data)
        if rawPtr = 0 then .ok none
        else
          match boxed.getValue (ascii "__type") with
          | none => .ok none
          | some typeDef =>
            match heap rawPtr with
            | none => .error .outside
            | some buffer => do
              let result ← unpackStruct floats typeDef 0 buffer
              return some (result.addNamedItem (ascii "__type") typeDef)
    | _ => .ok none

end Structs

end AgentC.Cartographer

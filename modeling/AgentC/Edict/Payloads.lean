import AgentC.Edict.ScanProgress
import AgentC.Library.Words

/-! Instructions as they are emitted into bytecode, and how the machine and its scanner read them. -/

namespace AgentC.Edict

/-- A value that the compiler puts into code. What a reference leads to is not looked at. -/
inductive Value where
  | null
  | bool (value : Bool)
  | string (text : List UInt8)
  | reference
  deriving DecidableEq, Repr

def addOp (data : List UInt8) (op : UInt8) : List UInt8 :=
  data ++ [op]

/-- Adding a string behind the four bytes of its length, which is cast to `int`. -/
def addString (data value : List UInt8) : List UInt8 :=
  data ++ wordBytes 4 (UInt32.ofNat value.length).toNat ++ value

def addValue (data : List UInt8) : Value → List UInt8
  | .null => data ++ [VMPushextType.NULL.byte]
  | .bool value => data ++ [VMPushextType.BOOL.byte] ++ [if value then 1 else 0]
  | .string text => addString (data ++ [VMPushextType.STRING.byte]) text
  | .reference => data ++ [VMPushextType.NULL.byte]

/-- An instruction: an opcode without payload, or `PUSHEXT` with its value. -/
inductive Emitted where
  | plain (op : UInt8) (bare : op ≠ VMOpcode.PUSHEXT.byte)
  | pushext (value : Value)

def Emitted.add (data : List UInt8) : Emitted → List UInt8
  | .plain op _ => addOp data op
  | .pushext value => addValue (addOp data VMOpcode.PUSHEXT.byte) value

def emit (stream : List Emitted) : List UInt8 :=
  stream.foldl Emitted.add []

def Payload.value : Payload → Option Value
  | .null => some .null
  | .binary data =>
    if data = [0] then some (.bool false) else if data = [1] then some (.bool true) else none
  | .string text => some (.string text)
  | .list => none

/-- What `readValue` returns, as a value, with the place behind it. -/
def readBack (code : List UInt8) (ip : Nat) : Option Value × Nat :=
  ((readValue code ip).1.bind Payload.value, (readValue code ip).2)

def decodeFrom (code : List UInt8) : Nat → Nat → List (UInt8 × Option Value)
  | 0, _ => []
  | fuel + 1, ip =>
    if ip < code.length then
      let op := (readByte code ip).1
      let value := if op = VMOpcode.PUSHEXT.byte then (readBack code (ip + 1)).1 else none
      (op, value) :: decodeFrom code fuel (instructionEnd code ip)
    else []

def decode (code : List UInt8) : List (UInt8 × Option Value) :=
  decodeFrom code code.length 0

def Emitted.decoded (expected : Value → Value) : Emitted → UInt8 × Option Value
  | .plain op _ => (op, none)
  | .pushext value => (VMOpcode.PUSHEXT.byte, some (expected value))

/-- A stream comes back from its code, each value as the one that is expected for it. -/
structure Decodes (expected : Value → Value) (stream : List Emitted) : Prop where
  read : ∀ front value back, stream = front ++ .pushext value :: back →
    readBack (emit stream) ((emit front).length + 1) =
      (some (expected value), (emit (front ++ [.pushext value])).length)
  skip : ∀ front instruction back, stream = front ++ instruction :: back →
    instructionEnd (emit stream) (emit front).length = (emit (front ++ [instruction])).length
  decoded : decode (emit stream) = stream.map (Emitted.decoded expected)

def Value.stored : Value → Value
  | .reference => .null
  | value => value

/-- The length of every string can be represented as an `int`. -/
def Short (stream : List Emitted) : Prop :=
  ∀ text, Emitted.pushext (.string text) ∈ stream → text.length < 2 ^ 31

section Reading

variable {front bytes back code : List UInt8}

theorem readByte_append (byte : UInt8) :
    readByte (front ++ byte :: back) front.length = (byte, front.length + 1) := by
  unfold readByte
  rw [List.getElem?_append_right (Nat.le_refl _), Nat.sub_self]
  rfl

theorem readBytes_append : ∀ {front : List UInt8},
    readBytes (front ++ (bytes ++ back)) bytes.length front.length =
      (bytes, front.length + bytes.length) := by
  -- Each byte that has been read belongs to the front of the others.
  induction bytes with
  | nil => intro front; rfl
  | cons byte bytes ih =>
    intro front
    have rest := @ih (front ++ [byte])
    rw [List.length_append, List.length_singleton, List.append_assoc] at rest
    rw [List.length_cons, readBytes, List.cons_append, readByte_append]
    dsimp only
    rw [show front ++ byte :: (bytes ++ back) = front ++ ([byte] ++ (bytes ++ back)) from rfl, rest]
    simp only [Prod.mk.injEq, true_and]
    omega

theorem length_readBytes (count ip : Nat) : (readBytes code count ip).1.length = count := by
  induction count generalizing ip with
  | zero => rfl
  | succ count ih => exact congrArg Nat.succ (ih _)

/-- The bytes of an `int` are read as the number whose lowest bits they are. -/
theorem readInt_append {n : Nat} (fits : n < 2 ^ 32) :
    readInt (front ++ (wordBytes 4 n ++ back)) front.length =
      (Int32.ofNat n, front.length + 4) := by
  have read := @readBytes_append (wordBytes 4 n) back front
  rw [length_wordBytes] at read
  have number : ∀ bytes : List UInt8,
      bytes.foldr (fun byte above => byte.toNat + 256 * above) 0 = ofWordBytes bytes := by
    intro bytes
    induction bytes with
    | nil => rfl
    | cons byte bytes ih => rw [List.foldr_cons, ih, ofWordBytes]
  unfold readInt
  rw [read]
  dsimp only
  rw [number, ofWordBytes_wordBytes (Nat.lt_of_lt_of_eq fits rfl)]

/-- A string is read back when its length is an `int`, and not otherwise. -/
theorem readString_append (text : List UInt8) :
    readString (front ++ (wordBytes 4 (UInt32.ofNat text.length).toNat ++ (text ++ back)))
        front.length = (text, front.length + 4 + text.length) ∨ 2 ^ 31 ≤ text.length := by
  by_cases short : text.length < 2 ^ 31
  · refine Or.inl ?_
    have size : (UInt32.ofNat text.length).toNat = text.length := by
      rw [UInt32.toNat_ofNat']
      omega
    have clamped : (Int32.ofNat text.length).toNatClampNeg = text.length := by
      show (Int32.ofNat text.length).toInt.toNat = _
      rw [Int32.toInt_ofNat', Int.bmod_def, show Int32.size = 4294967296 from rfl]
      omega
    have rest := @readBytes_append text back (front ++ wordBytes 4 text.length)
    rw [List.length_append, length_wordBytes, List.append_assoc] at rest
    unfold readString
    rw [size, readInt_append (by omega)]
    dsimp only
    rw [clamped, rest]
  · exact Or.inr (Nat.not_lt.mp short)

/-- A string that is read is never longer than an `int` allows. -/
theorem length_readString_lt (ip : Nat) : (readString code ip).1.length < 2 ^ 31 := by
  have length : (readString code ip).1.length = (readInt code ip).1.toNatClampNeg :=
    length_readBytes _ _
  rw [length]
  exact Int32.toNatClampNeg_lt _

end Reading

def Value.bytes (value : Value) : List UInt8 :=
  addValue [] value

def Emitted.bytes (instruction : Emitted) : List UInt8 :=
  instruction.add []

theorem addValue_eq (data : List UInt8) (value : Value) : addValue data value = data ++ value.bytes := by
  cases value <;> simp [addValue, Value.bytes, addString]

theorem Emitted.add_eq (data : List UInt8) (instruction : Emitted) :
    instruction.add data = data ++ instruction.bytes := by
  cases instruction with
  | plain op bare => rfl
  | pushext value =>
    simp only [Emitted.add, Emitted.bytes, addOp, List.nil_append]
    rw [addValue_eq, addValue_eq _ value, List.append_assoc]

theorem Emitted.bytes_pushext (value : Value) :
    (Emitted.pushext value).bytes = VMOpcode.PUSHEXT.byte :: value.bytes :=
  addValue_eq _ value

theorem emit_eq (stream : List Emitted) : emit stream = stream.flatMap Emitted.bytes := by
  have general : ∀ (stream : List Emitted) (data : List UInt8),
      stream.foldl Emitted.add data = data ++ stream.flatMap Emitted.bytes := by
    intro stream
    induction stream with
    | nil => intro data; exact (List.append_nil data).symm
    | cons instruction stream ih =>
      intro data
      rw [List.foldl_cons, ih, Emitted.add_eq, List.flatMap_cons, List.append_assoc]
  exact general stream []

theorem emit_append (front back : List Emitted) : emit (front ++ back) = emit front ++ emit back := by
  rw [emit_eq, emit_eq, emit_eq, List.flatMap_append]

theorem emit_cons (instruction : Emitted) (back : List Emitted) :
    emit (instruction :: back) = instruction.bytes ++ emit back := by
  rw [emit_eq, emit_eq, List.flatMap_cons]

variable {front back : List UInt8}

theorem readBack_append {value : Value} (short : ∀ text, value = .string text → text.length < 2 ^ 31) :
    readBack (front ++ (value.bytes ++ back)) front.length =
      (some value.stored, front.length + value.bytes.length) := by
  -- The tag is read first; what comes behind it belongs to a front that is one byte longer.
  have tag (byte : UInt8) (rest : List UInt8) :
      readByte (front ++ ([byte] ++ rest)) front.length = (byte, (front ++ [byte]).length) := by
    rw [List.length_append, List.length_singleton]
    exact readByte_append byte
  cases value with
  | null =>
    unfold readBack readValue
    rw [Value.bytes, addValue, List.nil_append, tag]
    simp [Payload.value, Value.stored]
  | reference =>
    unfold readBack readValue
    rw [Value.bytes, addValue, List.nil_append, tag]
    simp [Payload.value, Value.stored]
  | bool value =>
    have truth (byte : UInt8) := @readByte_append (front ++ [VMPushextType.BOOL.byte]) back byte
    simp only [List.append_assoc, List.singleton_append] at truth
    unfold readBack readValue
    rw [Value.bytes, addValue, List.nil_append, List.append_assoc, tag]
    simp only [List.singleton_append, truth]
    cases value <;>
    · simp +decide [Payload.value, Value.stored]
  | string text =>
    have read := @readString_append (front ++ [VMPushextType.STRING.byte]) back text
    have fits := short text rfl
    have read := read.resolve_right (by omega)
    rw [List.append_assoc] at read
    unfold readBack readValue
    rw [Value.bytes, addValue, List.nil_append, addString, List.append_assoc, List.append_assoc,
      List.append_assoc, tag]
    simp only [read]
    simp +decide [Payload.value, Value.stored]
    omega

theorem instructionEnd_append {instruction : Emitted}
    (short : ∀ text, instruction = .pushext (.string text) → text.length < 2 ^ 31) :
    instructionEnd (front ++ (instruction.bytes ++ back)) front.length =
      front.length + instruction.bytes.length := by
  unfold instructionEnd
  cases instruction with
  | plain op bare =>
    have read := @readByte_append front back op
    have bytes : (Emitted.plain op bare).bytes = [op] := rfl
    rw [bytes, List.singleton_append, read, if_neg bare]
    rfl
  | pushext value =>
    have payload := @readBack_append (front ++ [VMOpcode.PUSHEXT.byte]) back value
      fun text same => short text (congrArg Emitted.pushext same)
    rw [List.append_assoc, List.length_append] at payload
    rw [Emitted.bytes_pushext, List.cons_append, readByte_append, if_pos rfl]
    have place := congrArg Prod.snd payload
    simp only [readBack, List.length_singleton] at place
    rw [List.length_cons]
    refine place.trans ?_
    omega

theorem emit_split (front back : List Emitted) (instruction : Emitted) :
    emit (front ++ instruction :: back) = emit front ++ (instruction.bytes ++ emit back) ∧
      (emit (front ++ [instruction])).length = (emit front).length + instruction.bytes.length := by
  rw [emit_append, emit_append, emit_cons, emit_cons, List.length_append, List.length_append]
  exact ⟨rfl, rfl⟩

theorem Emitted.bytes_eq (instruction : Emitted) (expected : Value → Value) :
    ∃ payload, instruction.bytes = (instruction.decoded expected).1 :: payload := by
  cases instruction with
  | plain op bare => exact ⟨[], rfl⟩
  | pushext value => exact ⟨value.bytes, Emitted.bytes_pushext value⟩

theorem decoded_append {instruction : Emitted}
    (short : ∀ text, instruction = .pushext (.string text) → text.length < 2 ^ 31) :
    let code := front ++ (instruction.bytes ++ back)
    let op := (readByte code front.length).1
    (op, if op = VMOpcode.PUSHEXT.byte then (readBack code (front.length + 1)).1 else none) =
      instruction.decoded Value.stored := by
  cases instruction with
  | plain op bare =>
    have bytes : (Emitted.plain op bare).bytes = [op] := rfl
    dsimp only
    rw [bytes, List.singleton_append, readByte_append, if_neg bare]
    rfl
  | pushext value =>
    have payload := @readBack_append (front ++ [VMOpcode.PUSHEXT.byte]) back value
      fun text same => short text (congrArg Emitted.pushext same)
    rw [List.append_assoc, List.length_append] at payload
    dsimp only
    rw [Emitted.bytes_pushext, List.cons_append, readByte_append, if_pos rfl]
    rw [show front ++ VMOpcode.PUSHEXT.byte :: (value.bytes ++ back) =
      front ++ ([VMOpcode.PUSHEXT.byte] ++ (value.bytes ++ back)) from rfl]
    exact congrArg (fun read : Option Value × Nat => (VMOpcode.PUSHEXT.byte, read.1)) payload

theorem decodeFrom_emit : ∀ (stream front : List Emitted) (fuel : Nat),
    (emit stream).length ≤ fuel → Short stream →
      decodeFrom (emit (front ++ stream)) fuel (emit front).length =
        stream.map (Emitted.decoded Value.stored) := by
  -- What has been decoded belongs to the front of the others.
  intro stream
  induction stream with
  | nil =>
    intro front fuel _ _
    cases fuel with
    | zero => rfl
    | succ fuel =>
      rw [List.append_nil, decodeFrom, if_neg (Nat.lt_irrefl _)]
      rfl
  | cons instruction stream ih =>
    intro front fuel enough short
    obtain ⟨payload, bytes⟩ := instruction.bytes_eq Value.stored
    have first : ∀ text, instruction = .pushext (.string text) → text.length < 2 ^ 31 :=
      fun text same => short text (same ▸ List.mem_cons_self)
    have length : instruction.bytes.length = payload.length + 1 := by rw [bytes, List.length_cons]
    obtain ⟨whole, place⟩ := emit_split front stream instruction
    rw [emit_cons, List.length_append] at enough
    obtain ⟨fuel, rfl⟩ : ∃ less, fuel = less + 1 := ⟨fuel - 1, by omega⟩
    have rest := ih (front ++ [instruction]) fuel (by omega)
      fun text member => short text (List.mem_cons_of_mem _ member)
    rw [List.append_assoc, List.singleton_append, place, whole] at rest
    have inside : (emit front).length < (emit front ++ (instruction.bytes ++ emit stream)).length := by
      rw [List.length_append, List.length_append]
      omega
    rw [whole, decodeFrom, if_pos inside, instructionEnd_append first, rest, List.map_cons]
    exact congrArg (· :: stream.map (Emitted.decoded Value.stored)) (decoded_append first)

/-- A string that is read back is never longer than an `int` allows. -/
theorem length_lt_of_readBack {code text : List UInt8} {ip : Nat}
    (read : (readBack code ip).1 = some (.string text)) : text.length < 2 ^ 31 := by
  -- Only the tag for strings leads to a string.
  simp only [readBack, readValue] at read
  split at read
  case isTrue => cases read
  split at read
  case isTrue =>
    simp only [Option.bind_some, Payload.value] at read
    split at read
    case isTrue => cases read
    split at read <;> cases read
  split at read
  case isTrue =>
    cases read
    exact length_readString_lt _
  split at read <;> cases read

/--
A stream comes back from its code, references as null, when the length of each string is an `int`,
and not otherwise.
-/
theorem decodes_iff (stream : List Emitted) : Decodes Value.stored stream ↔ Short stream := by
  constructor
  · intro decodes text member
    obtain ⟨front, back, split⟩ := List.append_of_mem member
    exact length_lt_of_readBack (congrArg Prod.fst (decodes.read front (.string text) back split))
  · intro short
    constructor
    · intro front value back split
      obtain ⟨whole, place⟩ := emit_split front back (.pushext value)
      have read := @readBack_append (emit front ++ [VMOpcode.PUSHEXT.byte]) (emit back) value
        fun text same => short text
          (split ▸ List.mem_append_right front (same ▸ List.mem_cons_self))
      rw [List.append_assoc, List.length_append, List.length_singleton] at read
      rw [split, whole, place, Emitted.bytes_pushext, List.length_cons]
      refine read.trans (congrArg (Prod.mk _) ?_)
      omega
    · intro front instruction back split
      obtain ⟨whole, place⟩ := emit_split front back instruction
      rw [split, whole, place]
      exact instructionEnd_append fun text same =>
        short text (split ▸ List.mem_append_right front (same ▸ List.mem_cons_self))
    · exact decodeFrom_emit stream [] _ (Nat.le_refl _) short

/-- A reference does not come back. -/
theorem decodes_fails : ¬∀ stream : List Emitted, Decodes id stream := by
  intro always
  have read := (always [.pushext .reference]).read [] .reference [] rfl
  exact absurd (congrArg Prod.fst read) (by decide)

end AgentC.Edict

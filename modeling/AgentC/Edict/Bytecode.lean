import Mathlib.Algebra.Group.Nat.Defs
import Mathlib.Data.List.Basic

/-! Code of the Edict machine as bytes: opcodes, inline payloads and how the machine reads them. -/

namespace AgentC.Edict

/-- The opcodes for values, frames and jumps. The others have handlers of their own. -/
inductive VMOpcode where
  | PUSHEXT
  | EVAL
  | CTX_PUSH
  | CTX_POP
  | FUN_PUSH
  | FUN_EVAL
  | FUN_POP
  | FRAME_PUSH
  | FRAME_MERGE
  | THROW
  | CATCH
deriving DecidableEq, Repr

namespace VMOpcode

def byte : VMOpcode → UInt8
  | PUSHEXT => 2
  | EVAL => 11
  | CTX_PUSH => 12
  | CTX_POP => 13
  | FUN_PUSH => 14
  | FUN_EVAL => 15
  | FUN_POP => 16
  | FRAME_PUSH => 17
  | FRAME_MERGE => 18
  | THROW => 19
  | CATCH => 20

def ofByte (op : UInt8) : Option VMOpcode :=
  [PUSHEXT, EVAL, CTX_PUSH, CTX_POP, FUN_PUSH, FUN_EVAL, FUN_POP, FRAME_PUSH, FRAME_MERGE, THROW,
    CATCH].find? fun opcode => opcode.byte == op

end VMOpcode

/-- The type tags of a payload after `PUSHEXT`. -/
inductive VMPushextType where
  | NULL
  | BOOL
  | STRING
  | LIST
deriving DecidableEq, Repr

namespace VMPushextType

def byte : VMPushextType → UInt8
  | NULL => 0
  | BOOL => 1
  | STRING => 2
  | LIST => 4

end VMPushextType

/-- What a payload stands for. -/
inductive Payload where
  | null
  | binary (data : List UInt8)
  | string (text : List UInt8)
  | list
deriving DecidableEq, Repr

section Reading

variable (code : List UInt8)

def readByte (instruction_ptr : Nat) : UInt8 × Nat :=
  match code[instruction_ptr]? with
  | some byte => (byte, instruction_ptr + 1)
  | none => (0, instruction_ptr)

def readBytes : Nat → Nat → List UInt8 × Nat
  | 0, instruction_ptr => ([], instruction_ptr)
  | count + 1, instruction_ptr =>
    let (byte, next) := readByte code instruction_ptr
    let (rest, last) := readBytes count next
    (byte :: rest, last)

def readInt (instruction_ptr : Nat) : Int32 × Nat :=
  let (bytes, next) := readBytes code 4 instruction_ptr
  (Int32.ofNat (bytes.foldr (fun byte above => byte.toNat + 256 * above) 0), next)

def readString (instruction_ptr : Nat) : List UInt8 × Nat :=
  let (len, next) := readInt code instruction_ptr
  readBytes code len.toNatClampNeg next

/-- A payload, or nothing for a type tag that stands for none. -/
def readValue (instruction_ptr : Nat) : Option Payload × Nat :=
  let (type, next) := readByte code instruction_ptr
  if type = VMPushextType.NULL.byte then (some .null, next)
  else if type = VMPushextType.BOOL.byte then
    let (byte, next) := readByte code next
    (some (.binary [byte]), next)
  else if type = VMPushextType.STRING.byte then
    let (text, next) := readString code next
    (some (.string text), next)
  else if type = VMPushextType.LIST.byte then (some .list, next)
  else (none, next)

end Reading

variable {code : List UInt8}

theorem readByte_le (instruction_ptr : Nat) :
    instruction_ptr ≤ (readByte code instruction_ptr).2 := by
  unfold readByte
  split
  · exact Nat.le_succ _
  · exact Nat.le_refl _

theorem readBytes_le (count instruction_ptr : Nat) :
    instruction_ptr ≤ (readBytes code count instruction_ptr).2 := by
  induction count generalizing instruction_ptr with
  | zero => exact Nat.le_refl _
  | succ count ih => exact Nat.le_trans (readByte_le instruction_ptr) (ih _)

theorem readValue_le (instruction_ptr : Nat) :
    instruction_ptr ≤ (readValue code instruction_ptr).2 := by
  have tag : instruction_ptr ≤ (readByte code instruction_ptr).2 := readByte_le instruction_ptr
  -- The tag is read first, and each kind of payload goes on from there.
  simp only [readValue]
  split
  · exact tag
  split
  · exact Nat.le_trans tag (readByte_le _)
  split
  · exact Nat.le_trans tag (Nat.le_trans (readBytes_le 4 _) (readBytes_le _ _))
  split <;> exact tag

variable {instruction_ptr : Nat}

theorem readByte_of_lt (inside : instruction_ptr < code.length) :
    readByte code instruction_ptr = (code[instruction_ptr], instruction_ptr + 1) := by
  unfold readByte
  rw [List.getElem?_eq_getElem inside]

theorem readByte_le_succ (instruction_ptr : Nat) :
    (readByte code instruction_ptr).2 ≤ instruction_ptr + 1 := by
  unfold readByte
  split
  · exact Nat.le_refl _
  · exact Nat.le_succ _

theorem readBytes_le_add (count instruction_ptr : Nat) :
    (readBytes code count instruction_ptr).2 ≤ instruction_ptr + count := by
  induction count generalizing instruction_ptr with
  | zero => exact Nat.le_refl _
  | succ count ih =>
    have first : (readByte code instruction_ptr).2 ≤ instruction_ptr + 1 :=
      readByte_le_succ instruction_ptr
    have rest := ih (readByte code instruction_ptr).2
    show (readBytes code count (readByte code instruction_ptr).2).2 ≤ _
    omega

theorem readValue_le_add (instruction_ptr : Nat) :
    (readValue code instruction_ptr).2 ≤ instruction_ptr + 2 ^ 31 + 4 := by
  have tag : (readByte code instruction_ptr).2 ≤ instruction_ptr + 1 :=
    readByte_le_succ instruction_ptr
  simp only [readValue]
  split
  · show (readByte code instruction_ptr).2 ≤ _
    omega
  split
  · have byte : (readByte code (readByte code instruction_ptr).2).2 ≤ _ := readByte_le_succ _
    show (readByte code (readByte code instruction_ptr).2).2 ≤ _
    omega
  split
  · -- The length is below 2 ^ 31 and stands in four bytes.
    have length : (readInt code (readByte code instruction_ptr).2).2 ≤ _ := readBytes_le_add 4 _
    have text : (readString code (readByte code instruction_ptr).2).2 ≤
        (readInt code (readByte code instruction_ptr).2).2 +
          (readInt code (readByte code instruction_ptr).2).1.toNatClampNeg := readBytes_le_add _ _
    have short := Int32.toNatClampNeg_lt (readInt code (readByte code instruction_ptr).2).1
    show (readString code (readByte code instruction_ptr).2).2 ≤ _
    omega
  split <;>
  · show (readByte code instruction_ptr).2 ≤ _
    omega

theorem readByte_le_length (inside : instruction_ptr ≤ code.length) :
    (readByte code instruction_ptr).2 ≤ code.length := by
  unfold readByte
  split
  · rename_i byte there
    exact (List.getElem?_eq_some_iff.mp there).1
  · exact inside

theorem readBytes_le_length (count : Nat) (inside : instruction_ptr ≤ code.length) :
    (readBytes code count instruction_ptr).2 ≤ code.length := by
  induction count generalizing instruction_ptr with
  | zero => exact inside
  | succ count ih => exact ih (readByte_le_length inside)

theorem readValue_le_length (inside : instruction_ptr < code.length) :
    (readValue code (instruction_ptr + 1)).2 ≤ code.length := by
  have tag : (readByte code (instruction_ptr + 1)).2 ≤ code.length := readByte_le_length inside
  simp only [readValue]
  split
  · exact tag
  split
  · exact readByte_le_length tag
  split
  · exact readBytes_le_length _ (readBytes_le_length 4 tag)
  split <;> exact tag

end AgentC.Edict

import AgentC.Library.Words

/-! Taking values off the front of a stream of bytes, and which bytes a value is read from. -/

namespace AgentC

variable {α β : Type}

abbrev Intake (α : Type) := StateT (List UInt8) Option α

def Intake.block (size : Nat) : Intake (List UInt8) := fun stream =>
  if stream.length < size then none else some (stream.take size, stream.drop size)

def Intake.word (width : Nat) : Intake Nat := do
  let bytes ← block width
  return ofWordBytes bytes

def Intake.many (read : Intake α) : Nat → Intake (List α)
  | 0 => pure []
  | count + 1 => do
    let value ← read
    let values ← many read count
    return value :: values

def Intake.Reads (read : Intake α) (bytes : List UInt8) (value : α) : Prop :=
  ∀ rest, read (bytes ++ rest) = some (value, rest)

namespace Intake.Reads

variable {read : Intake α} {next : α → Intake β} {bytes bytes' : List UInt8} {value : α} {value' : β}

theorem pure (value : α) : Reads (Pure.pure value) [] value :=
  fun _ => rfl

theorem bind (first : Reads read bytes value) (second : Reads (next value) bytes' value') :
    Reads (read >>= next) (bytes ++ bytes') value' := by
  intro rest
  rw [List.append_assoc]
  calc (read >>= next) (bytes ++ (bytes' ++ rest))
      = (read (bytes ++ (bytes' ++ rest))).bind fun given => next given.1 given.2 := rfl
    _ = next value (bytes' ++ rest) := by rw [first, Option.bind_some]
    _ = some (value', rest) := second rest

theorem last (only : Reads read bytes value) (result : Reads (next value) [] value') :
    Reads (read >>= next) bytes value' := by
  simpa only [List.append_nil] using only.bind result

theorem block (bytes : List UInt8) : Reads (Intake.block bytes.length) bytes bytes := by
  intro rest
  have enough : ¬ (bytes ++ rest).length < bytes.length := by
    rw [List.length_append]
    omega
  rw [Intake.block, if_neg enough, List.take_left, List.drop_left]

theorem word {width n : Nat} (fits : n < 256 ^ width) :
    Reads (Intake.word width) (wordBytes width n) n := by
  have read := block (wordBytes width n)
  rw [length_wordBytes] at read
  refine read.last ?_
  rw [ofWordBytes_wordBytes fits]
  exact pure n

theorem many {write : α → List UInt8} {values : List α}
    (each : ∀ value ∈ values, Reads read (write value) value) :
    Reads (read.many values.length) (values.flatMap write) values := by
  -- The induction is on the values that are left to read.
  induction values with
  | nil => exact pure []
  | cons value values ih =>
    obtain ⟨own, others⟩ := List.forall_mem_cons.mp each
    exact own.bind ((ih others).last (pure _))

end Intake.Reads

end AgentC

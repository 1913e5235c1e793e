import Mathlib.Data.List.Basic
import AgentC.Edict.Machine

/-! Evaluating an iterator: each function that it yields was to be evaluated in turn. -/

namespace AgentC.Edict

universe u v

/-- A cursor as a value, with the values that it comes to. -/
inductive IteratorCursor (V : Type u) where
  | nowhere
  /-- It is at an item; what `next` leads to comes later. -/
  | place (current : V) (later : List (Option V))
  /-- It goes through all values of one item, from the first one, and has no current value. -/
  | history (values : List (Option V))

namespace IteratorCursor

variable {V : Type u}

def isValid : IteratorCursor V → Bool
  | .place _ _ => true
  | _ => false

def getValue : IteratorCursor V → Option V
  | .nowhere => none
  | .place current _ => some current
  | .history values => values.head?.join

/-- The values after each call of `next` that succeeds. -/
def nexts : IteratorCursor V → List (Option V)
  | .nowhere => []
  | .place _ later => later
  | .history values => values.tail

def yields (cursor : IteratorCursor V) : List V :=
  cursor.getValue.toList ++ cursor.nexts.reduceOption

def collected (cursor : IteratorCursor V) : List V :=
  (if cursor.isValid then cursor.getValue.toList else []) ++ cursor.nexts.reduceOption

end IteratorCursor

namespace EdictVM

variable {V : Type u} {H : Type v}

def pushFunctions (functions : List V) (m : EdictVM V H) : EdictVM V H :=
  functions.foldr (fun func m => (m.pushData func).pushCodeFrame [VMOpcode.EVAL.byte]) m

def writeTopIp (m : EdictVM V H) (instruction_ptr : Nat) : EdictVM V H :=
  match m.control.code with
  | [] => m
  | top :: _ => m.writeFrameIp top.frame instruction_ptr

/-- `evalDispatchIterator`; a value without a cursor is passed. -/
def evalDispatchIterator (cursor : Option (IteratorCursor V)) (instruction_ptr : Nat)
    (m : EdictVM V H) : EdictVM V H :=
  match cursor with
  | none => m.passEval instruction_ptr
  | some cursor =>
    let m := m.pushFunctions cursor.collected
    let m := if m.control.tail_eval then m.popCodeFrame.setTail false else m
    m.writeTopIp instruction_ptr

end EdictVM

section Meaning

variable {V : Type u} {H : Type v} (host : Host V H) (stopCodeDepth : Nat)

/-- The machine goes on until fewer frames are on the code stack than a number. -/
inductive Finishes (depth : Nat) : EdictVM V H → EdictVM V H → Prop
  | here {m : EdictVM V H} (done : m.control.code.length < depth) : Finishes depth m m
  | turn {m next after : EdictVM V H} (busy : depth ≤ m.control.code.length)
      (turned : EdictVM.turn host m stopCodeDepth = some next)
      (later : Finishes depth next after) : Finishes depth m after

def EvaluatesNext (function : V) (m : EdictVM V H) : Prop :=
  ∃ eval older frame outer, m.control.code = eval :: older ∧
    eval.frame.data = [VMOpcode.EVAL.byte] ∧ readFrameIp m.control.code eval.frame = 0 ∧
    m.stack = (function :: frame) :: outer

def GoesOnBehind (caller : CodeFrame) (instruction_ptr : Nat) (older code : List Activation) :
    Prop :=
  (∃ ip : Int32, ip.toNatClampNeg = instruction_ptr ∧ code = ⟨caller, ip⟩ :: older) ∨
    caller.data.length ≤ instruction_ptr ∧ code = older

def Iterates (caller : CodeFrame) (instruction_ptr : Nat) (older : List Activation) :
    List V → EdictVM V H → Prop
  | [], m => GoesOnBehind caller instruction_ptr older m.control.code
  | function :: functions, m =>
    EvaluatesNext function m ∧
      ∀ after, Finishes host stopCodeDepth m.control.code.length m after →
        Iterates caller instruction_ptr older functions after

/-- A machine whose next instruction is the `EVAL` of an iterator. -/
structure AtIterator (cur : Activation) (older : List Activation) (cursor : IteratorCursor V)
    (m : EdictVM V H) : Prop where
  goesOn : m.goesOn stopCodeDepth = true
  executes : m.control.state.scanning = false
  code : m.control.code = cur :: older
  opcode : cur.frame.data[m.control.position cur.frame]? = some VMOpcode.EVAL.byte
  top : ∃ value frame outer, m.stack = (value :: frame) :: outer ∧
    host.evaluation m.world value = .machine (EdictVM.evalDispatchIterator (some cursor))

/--
Nothing else is hit by the pointer that is kept: behind the `EVAL` of the running frame, which may
not be on the stack twice, or, if that was its last instruction, for the frame below it.
-/
def Undisturbed (cur : Activation) (older : List Activation) (instruction_ptr : Nat) : Prop :=
  if instruction_ptr < cur.frame.data.length then
    instruction_ptr < 2 ^ 31 ∧ ∀ activation ∈ older, activation.frame.object ≠ cur.frame.object
  else
    ∀ below ∈ older.head?, readFrameIp older below.frame = Int32.ofNat instruction_ptr

end Meaning

end AgentC.Edict

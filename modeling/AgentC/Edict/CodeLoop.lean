import AgentC.Edict.Bytecode

/-! The machine's code stack with the instruction pointers beside it, and its loop while scanning. -/

namespace AgentC.Edict

/-- A code frame: which object it is, and the bytes it holds. -/
structure CodeFrame where
  object : Nat
  data : List UInt8
deriving DecidableEq, Repr

/-- A place of the code stack: the frame there, and the instruction pointer kept for the place. -/
structure Activation where
  frame : CodeFrame
  ip : Int32
deriving DecidableEq, Repr

/-- The flags of the machine's state word. -/
structure VMState where
  yield : Bool
  error : Bool
  complete : Bool
  scanning : Bool
deriving DecidableEq, Repr

/-- What turned scanning on. -/
inductive ScanMode where
  | None
  | FromThrow
  | FromCatch
deriving DecidableEq, Repr

section Places

/-- The place of a frame object on the code stack: the last one, when it is there several times. -/
def findCodeFrameIndex (frame : CodeFrame) : List Activation → Option Nat
  | [] => none
  | activation :: older =>
    match findCodeFrameIndex frame older with
    | some index => some (index + 1)
    | none => if activation.frame.object = frame.object then some 0 else none

def readFrameIp (code : List Activation) (frame : CodeFrame) : Int32 :=
  match findCodeFrameIndex frame code with
  | some index => (code[index]?.map Activation.ip).getD 0
  | none => 0

/-- Keeping an instruction pointer for a frame object. -/
def writeFrameIp (code : List Activation) (frame : CodeFrame) (ip : Int32) : List Activation :=
  match findCodeFrameIndex frame code with
  | some index => code.modify index fun activation => { activation with ip := ip }
  | none => code

variable {code : List Activation} {frame : CodeFrame} {activation : Activation} {ip : Int32}

theorem findCodeFrameIndex_lt {index : Nat} (found : findCodeFrameIndex frame code = some index) :
    index < code.length := by
  induction code generalizing index with
  | nil => cases found
  | cons first older ih =>
    unfold findCodeFrameIndex at found
    -- The last place of the object counts, so the older part of the stack is looked at first.
    split at found
    · rename_i place there
      cases found
      exact Nat.succ_lt_succ (ih there)
    · split at found <;> cases found
      exact Nat.succ_pos _

theorem findCodeFrameIndex_cons :
    ∃ index, findCodeFrameIndex activation.frame (activation :: code) = some index ∧
      index < (activation :: code).length := by
  cases older : findCodeFrameIndex activation.frame code with
  | some index =>
    have inside := Nat.succ_lt_succ (findCodeFrameIndex_lt older)
    exact ⟨index + 1, by simp [findCodeFrameIndex, older], inside⟩
  | none => exact ⟨0, by simp [findCodeFrameIndex, older], Nat.succ_pos _⟩

theorem findCodeFrameIndex_absent
    (absent : ∀ activation ∈ code, activation.frame.object ≠ frame.object) :
    findCodeFrameIndex frame code = none := by
  induction code with
  | nil => rfl
  | cons first older ih =>
    obtain ⟨differs, others⟩ := List.forall_mem_cons.mp absent
    unfold findCodeFrameIndex
    rw [ih others]
    exact if_neg differs

theorem findCodeFrameIndex_top
    (absent : ∀ older ∈ code, older.frame.object ≠ activation.frame.object) :
    findCodeFrameIndex activation.frame (activation :: code) = some 0 := by
  unfold findCodeFrameIndex
  rw [findCodeFrameIndex_absent absent]
  exact if_pos rfl

theorem map_frame_writeFrameIp :
    (writeFrameIp code frame ip).map Activation.frame = code.map Activation.frame := by
  unfold writeFrameIp
  split
  · rename_i index _
    refine List.ext_getElem? fun i => ?_
    rw [List.getElem?_map, List.getElem?_map, List.getElem?_modify]
    cases code[i]? <;> by_cases here : index = i <;> simp [here]
  · rfl

theorem findCodeFrameIndex_congr : ∀ {code other : List Activation},
    code.map Activation.frame = other.map Activation.frame →
    findCodeFrameIndex frame code = findCodeFrameIndex frame other
  | [], [], _ => rfl
  | first :: _, first' :: _, same => by
    obtain ⟨head, rest⟩ := List.cons.inj same
    unfold findCodeFrameIndex
    rw [findCodeFrameIndex_congr rest, show first.frame = first'.frame from head]

theorem readFrameIp_writeFrameIp :
    readFrameIp (writeFrameIp (activation :: code) activation.frame ip) activation.frame = ip := by
  obtain ⟨index, found, inside⟩ := @findCodeFrameIndex_cons code activation
  unfold readFrameIp
  rw [findCodeFrameIndex_congr map_frame_writeFrameIp]
  simp only [writeFrameIp, found, List.getElem?_modify]
  rw [List.getElem?_eq_getElem inside]
  rfl

end Places

/-- The members of the machine that its code loop scans with. -/
structure Control where
  /-- The code stack, the running frame first. -/
  code : List Activation
  state : VMState
  error_message : String
  tail_eval : Bool
  scan_mode : ScanMode
  scan_depth : Int
deriving DecidableEq, Repr

namespace Control

def setError (c : Control) (message : String) : Control :=
  { c with error_message := message, state := { c.state with error := true } }

def popScanned (c : Control) : Control :=
  { c with
    code := c.code.tail
    state := { c.state with scanning := false }
    scan_mode := .None
    scan_depth := 0 }

/-- The pointer behind a scanned instruction is kept, except after an `EVAL` that ends its frame. -/
def writeScanned (c : Control) (cur : CodeFrame) (op : UInt8) (instruction_ptr : Nat) : Control :=
  if !c.tail_eval && (op != VMOpcode.EVAL.byte || instruction_ptr < cur.data.length) then
    { c with code := writeFrameIp c.code cur (Int32.ofNat instruction_ptr) }
  else c

/-- `op_CATCH`: an alternative that is reached normally is skipped. -/
def op_CATCH (c : Control) : Control :=
  { c with state := { c.state with scanning := true }, scan_mode := .FromCatch, scan_depth := 0 }

/-- The `CATCH` that ends a scan. -/
def endScan (c : Control) (cur : CodeFrame) (op : UInt8) (instruction_ptr : Nat) : Control :=
  let ended := { c with
    state := { c.state with scanning := false }
    scan_mode := .None
    scan_depth := 0 }
  match c.scan_mode with
  | .FromCatch =>
    -- The opcode is dispatched after all, and its epilogue keeps the pointer.
    let dispatched := { ended with tail_eval := false }.op_CATCH
    { dispatched with code := writeFrameIp c.code cur (Int32.ofNat instruction_ptr) }
  | _ => ended.writeScanned cur op instruction_ptr

/-- Passing over one instruction of the running frame. -/
def scanOp (c : Control) (cur : CodeFrame) (ip : Nat) : Control :=
  let (op, instruction_ptr) := readByte cur.data ip
  if op = VMOpcode.PUSHEXT.byte then
    match readValue cur.data instruction_ptr with
    | (some _, instruction_ptr) => c.writeScanned cur op instruction_ptr
    | (none, instruction_ptr) => (c.setError "Type error").writeScanned cur op instruction_ptr
  else if op = VMOpcode.THROW.byte then
    { c with scan_depth := c.scan_depth + 1 }.writeScanned cur op instruction_ptr
  else if op = VMOpcode.CATCH.byte then
    if c.scan_depth = 0 then c.endScan cur op instruction_ptr
    else { c with scan_depth := c.scan_depth - 1 }.writeScanned cur op instruction_ptr
  else c.writeScanned cur op instruction_ptr

def scans (c : Control) : Bool :=
  c.state.scanning && !c.state.error && !c.state.yield

def position (c : Control) (cur : CodeFrame) : Nat :=
  -- A pointer below zero counts as zero.
  (readFrameIp c.code cur).toNatClampNeg

/-- One iteration of `runCodeLoop` while scanning; nothing when scanning or the loop is over. -/
def scanTurn (stopCodeDepth : Nat) (c : Control) : Option Control :=
  if c.scans = false ∨ c.code.length ≤ stopCodeDepth then none
  else
    match c.code with
    | [] => none
    | cur :: _ =>
      let ip := c.position cur.frame
      -- A frame without code is popped here too.
      if cur.frame.data.length ≤ ip then some c.popScanned else some (c.scanOp cur.frame ip)

end Control

end AgentC.Edict

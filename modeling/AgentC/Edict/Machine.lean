import AgentC.Edict.CodeLoop

/-! The Edict machine: frames of the data stack, calls, and its code loop over arbitrary values. -/

namespace AgentC.Edict

universe u v

/-- What an opcode does with the values that it takes from the running data frame. -/
structure Outcome (V : Type u) (H : Type v) where
  world : H
  pushed : List V
  /-- Values that are pushed on the stack of conditions, the latest first. -/
  failures : List V
  error : Option String
  yields : Bool

/--
The machine. `V` are its values, and `H` is everything that they and the other members refer to.

Every stack has its latest entry first. A frame of `dict` holds contexts, one of `stack` values.
-/
structure EdictVM (V : Type u) (H : Type v) where
  control : Control
  dict : List (List V)
  stack : List (List V)
  func : List V
  /-- The stack `VMRES_STATE` of conditions that have failed. -/
  conditions : List V
  world : H
  /-- The number of the next code frame object. -/
  fresh : Nat

/-- An opcode's handler: it takes values from the running data frame, or does as it likes. -/
inductive Handler (V : Type u) (H : Type v) where
  | values (arity : Nat) (perform : H → List V → Outcome V H)
  | machine (act : EdictVM V H → EdictVM V H)

/-- What `EVAL` finds in a value. -/
inductive Evaluation (V : Type u) (H : Type v) where
  /-- There is nothing to evaluate. -/
  | nothing
  | source (text : List UInt8)
  /-- An iterator, a code object or an imported function; the pointer is behind the `EVAL`. -/
  | machine (act : Nat → EdictVM V H → EdictVM V H)

/-- What the machine does with values, apart from moving them between frames. -/
structure Host (V : Type u) (H : Type v) where
  /-- The value of a new private scope. -/
  null : V
  payload : H → Payload → H × V
  evaluation : H → V → Evaluation V H
  compile : List UInt8 → Option (List UInt8)
  handler : UInt8 → Option (Handler V H)

/-- Whether the brackets of a text close before its end, from a depth on. -/
def closesEarly : Int → List UInt8 → Bool
  | _, [] => false
  | depth, c :: rest =>
    let depth := if c = 0x5B then depth + 1 else if c = 0x5D then depth - 1 else depth
    depth == 0 || closesEarly depth rest

/-- A source without the brackets that enclose all of it. -/
def stripBrackets (src : List UInt8) : List UInt8 :=
  if src.length ≥ 2 ∧ src.head? = some 0x5B ∧ src.getLast? = some 0x5D ∧
      closesEarly 0 src.dropLast = false then src.tail.dropLast
  else src

namespace EdictVM

variable {V : Type u} {H : Type v} (host : Host V H) (m : EdictVM V H)

def setError (message : String) : EdictVM V H :=
  { m with control := m.control.setError message }

/-- Setting `tail_eval`, which tells `op_EVAL` that its frame is at its end. -/
def setTail (tail_eval : Bool) : EdictVM V H :=
  { m with control := { m.control with tail_eval } }

def pushData (value : V) : EdictVM V H :=
  match m.stack with
  | [] => m
  | frame :: outer => { m with stack := (value :: frame) :: outer }

def popData : Option V × EdictVM V H :=
  match m.stack with
  | (value :: frame) :: outer => (some value, { m with stack := frame :: outer })
  | _ => (none, m)

def pushCodeFrame (code : List UInt8) : EdictVM V H :=
  { m with
    control := { m.control with code := ⟨⟨m.fresh, code⟩, 0⟩ :: m.control.code }
    fresh := m.fresh + 1 }

def popCodeFrame : EdictVM V H :=
  { m with control := { m.control with code := m.control.code.tail } }

def writeFrameIp (frame : CodeFrame) (ip : Nat) : EdictVM V H :=
  { m with
    control := { m.control with
      code := Edict.writeFrameIp m.control.code frame (Int32.ofNat ip) } }

/--
`listcat` for data frames: the latest frame goes, and its values are pushed on the frame below.

They are pushed from the latest to the first.
-/
def listcat : EdictVM V H :=
  match m.stack with
  | [] => m
  | [_] => { m with stack := [] }
  | tos :: nos :: outer => { m with stack := tos.foldl (fun frame value => value :: frame) nos :: outer }

def op_CTX_PUSH : EdictVM V H :=
  let (ctx, m) := m.popData
  { m with stack := [] :: m.stack, dict := [ctx.getD host.null] :: m.dict }

/-- A context is left, and pushed as a value. -/
def op_CTX_POP : EdictVM V H :=
  let m := m.listcat
  match m.dict with
  | [] => m
  | frame :: outer =>
    let m := { m with dict := outer }
    match frame with
    | ctx :: _ => m.pushData ctx
    | [] => m

def op_FUN_PUSH : EdictVM V H :=
  let (f, m) := m.popData
  { m with
    func := f.toList ++ m.func
    stack := [] :: m.stack
    dict := [host.null] :: m.dict }

def op_FUN_POP : EdictVM V H :=
  let m := m.listcat
  { m with dict := m.dict.tail, func := m.func.tail }

def op_FUN_EVAL : EdictVM V H :=
  let m := m.pushCodeFrame [VMOpcode.FUN_POP.byte]
  match m.func with
  | [] => m
  | f :: _ => (m.pushData f).pushCodeFrame [VMOpcode.EVAL.byte]

def op_FRAME_PUSH : EdictVM V H :=
  { m with stack := [] :: m.stack }

def op_FRAME_MERGE : EdictVM V H :=
  m.listcat

/-- After a failure the code up to the alternative is skipped. -/
def op_THROW : EdictVM V H :=
  match m.conditions with
  | [] => m
  | _ :: conditions =>
    { m with
      conditions
      control := { m.control with
        state := { m.control.state with scanning := true }
        scan_mode := .FromThrow
        scan_depth := 0 } }

/-- With nothing to evaluate the running frame goes on, also when `EVAL` was its last opcode. -/
def passEval (instruction_ptr : Nat) : EdictVM V H :=
  let m := m.setTail false
  match m.control.code with
  | [] => m
  | cur :: _ => m.writeFrameIp cur.frame instruction_ptr

def evalDispatchSource (code : List UInt8) : EdictVM V H :=
  let m := if m.control.tail_eval then m.popCodeFrame else m
  (m.setTail false).pushCodeFrame code

/-- `op_EVAL`; `instruction_ptr` is behind the opcode. -/
def op_EVAL (instruction_ptr : Nat) : EdictVM V H :=
  match m.popData with
  | (none, m) => m.passEval instruction_ptr
  | (some value, m) =>
    match host.evaluation m.world value with
    | .nothing => m.passEval instruction_ptr
    | .machine act => act instruction_ptr m
    | .source text =>
      match host.compile (stripBrackets text) with
      | none => m.setError "Eval error"
      | some code => m.evalDispatchSource code

/-- What the handler of another opcode does. -/
def handle (handler : Handler V H) : EdictVM V H :=
  match handler with
  | .machine act => act m
  | .values arity perform =>
    match m.stack with
    | [] => m
    | frame :: outer =>
      let outcome := perform m.world (frame.take arity)
      { m with
        world := outcome.world
        stack := (outcome.pushed ++ frame.drop arity) :: outer
        conditions := outcome.failures ++ m.conditions
        control := { m.control with
          error_message := outcome.error.getD m.control.error_message
          state := { m.control.state with
            error := m.control.state.error || outcome.error.isSome
            yield := m.control.state.yield || outcome.yields } } }

/-- The handler of an opcode, and the instruction pointer behind the instruction. -/
def dispatch (code : List UInt8) (op : UInt8) (instruction_ptr : Nat) : EdictVM V H × Nat :=
  match VMOpcode.ofByte op with
  | some .PUSHEXT =>
    match readValue code instruction_ptr with
    | (none, instruction_ptr) => (m.setError "Type error", instruction_ptr)
    | (some payload, instruction_ptr) =>
      let (world, value) := host.payload m.world payload
      ({ m with world }.pushData value, instruction_ptr)
  | some .EVAL => (op_EVAL host m instruction_ptr, instruction_ptr)
  | some .CTX_PUSH => (op_CTX_PUSH host m, instruction_ptr)
  | some .CTX_POP => (op_CTX_POP m, instruction_ptr)
  | some .FUN_PUSH => (op_FUN_PUSH host m, instruction_ptr)
  | some .FUN_EVAL => (op_FUN_EVAL m, instruction_ptr)
  | some .FUN_POP => (op_FUN_POP m, instruction_ptr)
  | some .FRAME_PUSH => (op_FRAME_PUSH m, instruction_ptr)
  | some .FRAME_MERGE => (op_FRAME_MERGE m, instruction_ptr)
  | some .THROW => (op_THROW m, instruction_ptr)
  | some .CATCH => ({ m with control := m.control.op_CATCH }, instruction_ptr)
  | none =>
    match host.handler op with
    | some handler => (handle m handler, instruction_ptr)
    | none => (m.setError ("Op " ++ toString op.toNat), instruction_ptr)

/-- Executing one instruction of the running frame. -/
def runOp (cur : CodeFrame) (ip : Nat) : EdictVM V H :=
  let (op, instruction_ptr) := readByte cur.data ip
  -- A last `EVAL` may have taken its own frame away, so no pointer is kept behind it.
  let skip_ip_write := op == VMOpcode.EVAL.byte && instruction_ptr ≥ cur.data.length
  let (m, instruction_ptr) := dispatch host (m.setTail skip_ip_write) cur.data op instruction_ptr
  if skip_ip_write then m else m.writeFrameIp cur instruction_ptr

def goesOn (stopCodeDepth : Nat) : Bool :=
  !m.control.state.error && !m.control.state.yield &&
    decide (stopCodeDepth < m.control.code.length)

/-- One iteration of `runCodeLoop`; nothing when the loop is over. -/
def turn (stopCodeDepth : Nat) : Option (EdictVM V H) :=
  if m.goesOn stopCodeDepth = false then none
  else if m.control.state.scanning then
    (m.control.scanTurn stopCodeDepth).map fun control => { m with control }
  else
    match m.control.code with
    | [] => none
    | cur :: _ =>
      let ip := m.control.position cur.frame
      if cur.frame.data.length ≤ ip then some m.popCodeFrame
      else some (runOp host m cur.frame ip)

end EdictVM

end AgentC.Edict

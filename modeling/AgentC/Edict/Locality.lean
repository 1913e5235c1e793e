import AgentC.Edict.Machine

/-!
Code that keeps to its own frames runs in the same way over whatever is below them.
-/

namespace AgentC.Edict

universe u v

variable {V : Type u} {H : Type v}

/-- What is below the frames of some code. Its code objects have numbers below `objects`. -/
structure Base (V : Type u) where
  /-- The values below those on the code's own outermost data frame. -/
  below : List V
  stack : List (List V)
  dict : List (List V)
  func : List V
  code : List Activation
  objects : Nat
  apart : ∀ activation ∈ code, activation.frame.object < objects

def Activation.shift (objects : Nat) (activation : Activation) : Activation :=
  { activation with frame := { activation.frame with object := activation.frame.object + objects } }

def CodeFrame.shift (objects : Nat) (frame : CodeFrame) : CodeFrame :=
  { frame with object := frame.object + objects }

@[simp] theorem CodeFrame.data_shift {objects : Nat} {frame : CodeFrame} :
    (frame.shift objects).data = frame.data := rfl

namespace Base

variable (base : Base V)

def overCode (code : List Activation) : List Activation :=
  code.map (Activation.shift base.objects) ++ base.code

def overStack : List (List V) → List (List V)
  | [] => base.stack
  | [frame] => (frame ++ base.below) :: base.stack
  | frame :: next :: outer => frame :: overStack (next :: outer)

end Base

def Control.over (c : Control) (base : Base V) : Control :=
  { c with code := base.overCode c.code }

def EdictVM.over (m : EdictVM V H) (base : Base V) : EdictVM V H where
  control := m.control.over base
  dict := m.dict ++ base.dict
  stack := base.overStack m.stack
  func := m.func ++ base.func
  conditions := m.conditions
  world := m.world
  fresh := m.fresh + base.objects

section Code

variable {base : Base V} {frame : CodeFrame} {code : List Activation} {ip : Int32}

theorem findCodeFrameIndex_over :
    findCodeFrameIndex (frame.shift base.objects) (base.overCode code) =
      findCodeFrameIndex frame code := by
  induction code with
  | nil =>
    refine findCodeFrameIndex_absent fun activation inside => ?_
    have smaller := base.apart activation inside
    show activation.frame.object ≠ frame.object + base.objects
    omega
  | cons first older ih =>
    show findCodeFrameIndex _ (first.shift base.objects :: base.overCode older) = _
    unfold findCodeFrameIndex
    rw [ih]
    have same : (first.shift base.objects).frame.object = (frame.shift base.objects).object ↔
        first.frame.object = frame.object := Nat.add_right_cancel_iff
    simp only [same]

theorem readFrameIp_over :
    readFrameIp (base.overCode code) (frame.shift base.objects) = readFrameIp code frame := by
  unfold readFrameIp
  rw [findCodeFrameIndex_over]
  cases found : findCodeFrameIndex frame code with
  | none => rfl
  | some index =>
    have inside := findCodeFrameIndex_lt found
    simp only [Base.overCode]
    rw [List.getElem?_append_left (by rw [List.length_map]; exact inside), List.getElem?_map]
    cases code[index]? <;> rfl

theorem writeFrameIp_over :
    writeFrameIp (base.overCode code) (frame.shift base.objects) ip =
      base.overCode (writeFrameIp code frame ip) := by
  unfold writeFrameIp
  rw [findCodeFrameIndex_over]
  cases found : findCodeFrameIndex frame code with
  | none => rfl
  | some index =>
    have inside := findCodeFrameIndex_lt found
    simp only [Base.overCode]
    refine List.ext_getElem? fun i => ?_
    rw [List.getElem?_modify]
    rcases Nat.lt_or_ge i code.length with own | outer
    · rw [List.getElem?_append_left (by simpa using own),
        List.getElem?_append_left (by simpa using own), List.getElem?_map, List.getElem?_map,
        List.getElem?_modify]
      cases code[i]? <;> by_cases here : index = i <;> simp [here, Activation.shift]
    · have other : index ≠ i := by omega
      rw [List.getElem?_append_right (by simpa using outer),
        List.getElem?_append_right (by simpa using outer)]
      simp [other]

theorem overCode_cons {activation : Activation} :
    base.overCode (activation :: code) =
      activation.shift base.objects :: base.overCode code := rfl

@[simp] theorem length_overCode :
    (base.overCode code).length = code.length + base.code.length := by
  simp [Base.overCode]

end Code

section Scanning

variable {base : Base V} {c : Control} {cur : CodeFrame} {op : UInt8} {ip : Nat}

theorem Control.position_over :
    (c.over base).position (cur.shift base.objects) = c.position cur := by
  simp only [Control.position, Control.over, readFrameIp_over]

theorem Control.writeScanned_over :
    (c.over base).writeScanned (cur.shift base.objects) op ip =
      (c.writeScanned cur op ip).over base := by
  -- The frame over the base has the same bytes, so the pointer is kept in the same cases.
  simp only [writeScanned, apply_ite (Control.over · base), CodeFrame.data_shift]
  simp only [Control.over, writeFrameIp_over]
  rfl

theorem Control.endScan_over :
    (c.over base).endScan (cur.shift base.objects) op ip = (c.endScan cur op ip).over base := by
  let ended : Control := { c with
    state := { c.state with scanning := false }
    scan_mode := .None
    scan_depth := 0 }
  have kept : (ended.over base).writeScanned (cur.shift base.objects) op ip =
      (ended.writeScanned cur op ip).over base := Control.writeScanned_over
  unfold Control.endScan
  cases mode : c.scan_mode with
  | FromCatch => simp only [Control.over, mode, Control.op_CATCH, writeFrameIp_over]
  | None => simpa only [Control.over, mode] using kept
  | FromThrow => simpa only [Control.over, mode] using kept

theorem Control.scanOp_over :
    (c.over base).scanOp (cur.shift base.objects) ip = (c.scanOp cur ip).over base := by
  unfold Control.scanOp
  simp only [CodeFrame.data_shift, apply_ite (Control.over · base)]
  have written (c : Control) {op : UInt8} {ip : Nat} :
      (c.over base).writeScanned (cur.shift base.objects) op ip =
        (c.writeScanned cur op ip).over base := writeScanned_over
  congr 1
  · rcases readValue cur.data (readByte cur.data ip).2 with ⟨_ | _, _⟩
    · exact written (c.setError "Type error")
    · exact written c
  · congr 1
    · exact written { c with scan_depth := c.scan_depth + 1 }
    · congr 1
      · congr 1
        · exact endScan_over
        · exact written { c with scan_depth := c.scan_depth - 1 }
      · exact written c

theorem Control.scanTurn_over {stopCodeDepth : Nat} {c' : Control}
    (turned : c.scanTurn 0 = some c') (within : stopCodeDepth ≤ base.code.length) :
    (c.over base).scanTurn stopCodeDepth = some (c'.over base) := by
  unfold scanTurn at turned ⊢
  split at turned
  · cases turned
  · rename_i goes
    obtain ⟨scans, above⟩ := not_or.mp goes
    cases own : c.code with
    | nil => simp [own] at above
    | cons activation rest =>
      have code : (c.over base).code =
          activation.shift base.objects :: base.overCode rest := by
        simp only [Control.over, own, overCode_cons]
      have deeper : ¬(c.over base).code.length ≤ stopCodeDepth := by
        rw [code, List.length_cons, length_overCode]
        omega
      have goesOn : ¬((c.over base).scans = false ∨
          (c.over base).code.length ≤ stopCodeDepth) := not_or.mpr ⟨scans, deeper⟩
      rw [if_neg goesOn, code]
      rw [own] at turned
      -- The pointer and the bytes are the same, so the frame is popped in the same cases.
      have place : (c.over base).position (activation.shift base.objects).frame =
          c.position activation.frame := position_over
      have scanned : (c.over base).scanOp (activation.shift base.objects).frame
          (c.position activation.frame) =
            (c.scanOp activation.frame (c.position activation.frame)).over base := scanOp_over
      have popped : (c.over base).popScanned = c.popScanned.over base := by
        simp only [popScanned, own, overCode_cons, List.tail_cons, Control.over]
      simp only [place, scanned, popped] at turned ⊢
      split at turned <;> rename_i ended
      · cases turned
        exact if_pos ended
      · cases turned
        exact if_neg ended

end Scanning

def Holds (count : Nat) : List (List V) → Prop
  | [] => False
  | [frame] => count ≤ frame.length
  | _ :: _ :: _ => True

/-- An instruction that takes nothing but what is on the frames of its own code. -/
def Keeps (host : Host V H) (m : EdictVM V H) (op : UInt8) : Prop :=
  match VMOpcode.ofByte op with
  | some .PUSHEXT | some .FRAME_PUSH => Holds 0 m.stack
  | some .EVAL =>
    -- What is evaluated is a source.
    Holds 1 m.stack ∧ ∀ value ∈ m.stack.head?.bind List.head?, ∀ act,
      host.evaluation m.world value ≠ .machine act
  | some .CTX_PUSH | some .FUN_PUSH => Holds 1 m.stack
  | some .FUN_EVAL => Holds 0 m.stack ∧ m.func ≠ []
  | some .FUN_POP => 2 ≤ m.stack.length ∧ m.dict ≠ [] ∧ m.func ≠ []
  | some .CTX_POP => 2 ≤ m.stack.length ∧ m.dict ≠ []
  | some .FRAME_MERGE => 2 ≤ m.stack.length
  | some .THROW | some .CATCH => True
  | none =>
    match host.handler op with
    | none => True
    | some (.values arity _) => Holds arity m.stack
    | some (.machine _) => False

/-- The next turn of the machine keeps to its own frames. -/
def Contained (host : Host V H) (m : EdictVM V H) : Prop :=
  m.control.state.scanning = true ∨ ∀ cur ∈ m.control.code.head?,
    cur.frame.data.length ≤ m.control.position cur.frame ∨
      Keeps host m (readByte cur.frame.data (m.control.position cur.frame)).1

section Machines

open EdictVM

variable {host : Host V H} {base : Base V} {m : EdictVM V H}

theorem overStack_cons {frame : List V} {outer : List (List V)} (more : outer ≠ []) :
    base.overStack (frame :: outer) = frame :: base.overStack outer := by
  cases outer with
  | nil => exact absurd rfl more
  | cons next outer => rfl

theorem Holds.nonempty {count : Nat} {stack : List (List V)} (holds : Holds count stack) :
    stack ≠ [] := by
  cases stack with
  | nil => exact holds.elim
  | cons frame outer => exact List.cons_ne_nil _ _

theorem Holds.split {count : Nat} {frame : List V} {outer : List (List V)}
    (holds : Holds count (frame :: outer)) :
    ∃ running below, base.overStack (frame :: outer) = running :: below ∧
      running.take count = frame.take count ∧
      ∀ pushed, (pushed ++ running.drop count) :: below =
        base.overStack ((pushed ++ frame.drop count) :: outer) := by
  cases outer with
  | nil =>
    have enough : count ≤ frame.length := holds
    refine ⟨frame ++ base.below, base.stack, rfl, List.take_append_of_le_length enough, ?_⟩
    intro pushed
    rw [List.drop_append_of_le_length enough, ← List.append_assoc]
    rfl
  | cons next outer => exact ⟨frame, base.overStack (next :: outer), rfl, rfl, fun _ => rfl⟩

theorem pushData_over {value : V} (some_frame : m.stack ≠ []) :
    (m.over base).pushData value = (m.pushData value).over base := by
  obtain ⟨control, dict, stack, func, conditions, world, fresh⟩ := m
  match stack with
  | [] => exact absurd rfl some_frame
  | [_] => rfl
  | _ :: _ :: _ => rfl

theorem popData_over (holds : Holds 1 m.stack) :
    (m.over base).popData = (m.popData.1, m.popData.2.over base) := by
  obtain ⟨control, dict, stack, func, conditions, world, fresh⟩ := m
  match stack, holds with
  | [_ :: _], _ => rfl
  | [] :: _ :: _, _ => rfl
  | (_ :: _) :: _ :: _, _ => rfl

theorem pushCodeFrame_over {code : List UInt8} :
    (m.over base).pushCodeFrame code = (m.pushCodeFrame code).over base := by
  simp only [pushCodeFrame, EdictVM.over, Control.over, Base.overCode, List.map_cons,
    Activation.shift, List.cons_append, Nat.add_right_comm]

theorem popCodeFrame_over (some_code : m.control.code ≠ []) :
    (m.over base).popCodeFrame = m.popCodeFrame.over base := by
  obtain ⟨⟨code, _, _, _, _, _⟩, dict, stack, func, conditions, world, fresh⟩ := m
  cases code with
  | nil => exact absurd rfl some_code
  | cons activation older => rfl

theorem machine_writeFrameIp_over {frame : CodeFrame} {ip : Nat} :
    (m.over base).writeFrameIp (frame.shift base.objects) ip =
      (m.writeFrameIp frame ip).over base := by
  simp only [EdictVM.writeFrameIp, EdictVM.over, Control.over, writeFrameIp_over]

theorem listcat_over (frames : 2 ≤ m.stack.length) :
    (m.over base).listcat = m.listcat.over base := by
  obtain ⟨control, dict, stack, func, conditions, world, fresh⟩ := m
  match stack, frames with
  | [tos, nos], _ =>
    -- What is merged comes to lie on the own values, and these lie on those of the base.
    have merged : tos.foldl (fun frame value => value :: frame) (nos ++ base.below) =
        tos.foldl (fun frame value => value :: frame) nos ++ base.below := by
      simp only [List.foldl_flip_cons_eq_append', List.append_assoc]
    simp only [listcat, EdictVM.over, Base.overStack, merged]
  | tos :: nos :: next :: outer, _ => rfl

theorem listcat_nonempty (frames : 2 ≤ m.stack.length) : m.listcat.stack ≠ [] := by
  obtain ⟨control, dict, stack, func, conditions, world, fresh⟩ := m
  match stack, frames with
  | tos :: nos :: outer, _ => exact List.cons_ne_nil _ _

theorem popData_nonempty (some_frame : m.stack ≠ []) : m.popData.2.stack ≠ [] := by
  obtain ⟨control, dict, stack, func, conditions, world, fresh⟩ := m
  match stack with
  | [] => exact absurd rfl some_frame
  | [] :: outer => exact some_frame
  | (_ :: _) :: outer => exact List.cons_ne_nil _ _

section Opcodes

variable {ip : Nat}

theorem op_CTX_PUSH_over (holds : Holds 1 m.stack) :
    op_CTX_PUSH host (m.over base) = (op_CTX_PUSH host m).over base := by
  have more := popData_nonempty holds.nonempty
  simp only [op_CTX_PUSH, popData_over holds]
  simp only [EdictVM.over, List.cons_append, overStack_cons more]

theorem op_CTX_POP_over (frames : 2 ≤ m.stack.length) (scopes : m.dict ≠ []) :
    op_CTX_POP (m.over base) = (op_CTX_POP m).over base := by
  have kept : m.listcat.dict = m.dict := by unfold listcat; split <;> rfl
  have more := listcat_nonempty frames
  simp only [op_CTX_POP, listcat_over frames]
  cases own : m.dict with
  | nil => exact absurd own scopes
  | cons frame outer =>
    have there : (m.listcat.over base).dict = frame :: (outer ++ base.dict) := by
      show m.listcat.dict ++ base.dict = _
      rw [kept, own, List.cons_append]
    rw [there, kept, own]
    cases frame with
    | nil => rfl
    | cons ctx _ => exact pushData_over (m := { m.listcat with dict := outer }) more

theorem op_FUN_PUSH_over (holds : Holds 1 m.stack) :
    op_FUN_PUSH host (m.over base) = (op_FUN_PUSH host m).over base := by
  have more := popData_nonempty holds.nonempty
  simp only [op_FUN_PUSH, popData_over holds]
  simp only [EdictVM.over, List.cons_append, overStack_cons more, List.append_assoc]

theorem op_FUN_POP_over (frames : 2 ≤ m.stack.length) (scopes : m.dict ≠ [])
    (functions : m.func ≠ []) : op_FUN_POP (m.over base) = (op_FUN_POP m).over base := by
  have dict : m.listcat.dict = m.dict := by unfold listcat; split <;> rfl
  have func : m.listcat.func = m.func := by unfold listcat; split <;> rfl
  simp only [op_FUN_POP, listcat_over frames]
  simp only [EdictVM.over, dict, func]
  rw [List.tail_append_of_ne_nil scopes, List.tail_append_of_ne_nil functions]

/-- With a function set aside, `FUN_EVAL` has two frames of code run: the call, then its end. -/
theorem op_FUN_EVAL_eq {f : V} {outer : List V} (function : m.func = f :: outer) :
    op_FUN_EVAL m = ((m.pushCodeFrame [VMOpcode.FUN_POP.byte]).pushData f).pushCodeFrame
      [VMOpcode.EVAL.byte] := by
  have kept : (m.pushCodeFrame [VMOpcode.FUN_POP.byte]).func = f :: outer := function
  simp only [op_FUN_EVAL, kept]

theorem op_FUN_EVAL_over (some_frame : m.stack ≠ []) (functions : m.func ≠ []) :
    op_FUN_EVAL (m.over base) = (op_FUN_EVAL m).over base := by
  cases own : m.func with
  | nil => exact absurd own functions
  | cons f outer =>
    have function : (m.over base).func = f :: (outer ++ base.func) := by
      show m.func ++ base.func = _
      rw [own, List.cons_append]
    have frames : (m.pushCodeFrame [VMOpcode.FUN_POP.byte]).stack ≠ [] := some_frame
    rw [op_FUN_EVAL_eq function, op_FUN_EVAL_eq own, pushCodeFrame_over, pushData_over frames,
      pushCodeFrame_over]

theorem op_FRAME_PUSH_over (some_frame : m.stack ≠ []) :
    op_FRAME_PUSH (m.over base) = (op_FRAME_PUSH m).over base := by
  simp only [op_FRAME_PUSH, EdictVM.over, overStack_cons some_frame]

theorem op_THROW_over : op_THROW (m.over base) = (op_THROW m).over base := by
  obtain ⟨control, dict, stack, func, conditions, world, fresh⟩ := m
  cases conditions <;> rfl

theorem passEval_over (some_code : m.control.code ≠ []) :
    (m.over base).passEval ip = (m.passEval ip).over base := by
  cases own : m.control.code with
  | nil => exact absurd own some_code
  | cons activation older =>
    have code : (m.over base).control.code =
        activation.shift base.objects :: base.overCode older := by
      simp only [EdictVM.over, Control.over, own, overCode_cons]
    simp only [passEval]
    have there : (m.setTail false).control.code = activation :: older := own
    have raised : ((m.over base).setTail false).control.code =
        activation.shift base.objects :: base.overCode older := code
    simp only [there, raised]
    exact machine_writeFrameIp_over (m := m.setTail false)

theorem evalDispatchSource_over {code : List UInt8} (some_code : m.control.code ≠ []) :
    (m.over base).evalDispatchSource code = (m.evalDispatchSource code).over base := by
  have tail_eval : (m.over base).control.tail_eval = m.control.tail_eval := rfl
  have pushed (m : EdictVM V H) : ((m.setTail false).over base).pushCodeFrame code =
      ((m.setTail false).pushCodeFrame code).over base := pushCodeFrame_over
  simp only [evalDispatchSource, popCodeFrame_over some_code, tail_eval]
  split
  · exact pushed m.popCodeFrame
  · exact pushed m

theorem op_EVAL_over (holds : Holds 1 m.stack) (some_code : m.control.code ≠ [])
    (source : ∀ value ∈ m.stack.head?.bind List.head?, ∀ act,
      host.evaluation m.world value ≠ .machine act) :
    op_EVAL host (m.over base) ip = (op_EVAL host m ip).over base := by
  have control : m.popData.2.control = m.control := by unfold popData; split <;> rfl
  have world : m.popData.2.world = m.world := by unfold popData; split <;> rfl
  have top : m.stack.head?.bind List.head? = m.popData.1 := by
    obtain ⟨control, dict, stack, func, conditions, world, fresh⟩ := m
    match stack with
    | [] => rfl
    | [] :: _ => rfl
    | (_ :: _) :: _ => rfl
  rw [top] at source
  have code : m.popData.2.control.code ≠ [] := control ▸ some_code
  have popped := @popData_over V H base m holds
  cases taken : m.popData with
  | mk value left =>
    rw [taken] at source world code popped
    cases value with
    | none =>
      simp only [op_EVAL, popped, taken]
      exact passEval_over code
    | some value =>
      -- The machine popped the base has the same world to look the value up in.
      have there : (left.over base).world = left.world := rfl
      cases found : host.evaluation left.world value with
      | nothing =>
        simp only [op_EVAL, popped, taken, there, found]
        exact passEval_over code
      | machine act => exact absurd (world ▸ found) (source value rfl act)
      | source text =>
        simp only [op_EVAL, popped, taken, there, found]
        cases host.compile (stripBrackets text) with
        | none => rfl
        | some bytes => exact evalDispatchSource_over code

theorem handle_over {arity : Nat} {perform : H → List V → Outcome V H}
    (holds : Holds arity m.stack) :
    handle (m.over base) (.values arity perform) =
      (handle m (.values arity perform)).over base := by
  obtain ⟨control, dict, stack, func, conditions, world, fresh⟩ := m
  cases stack with
  | nil => exact holds.elim
  | cons frame outer =>
    obtain ⟨running, below, raised, taken, left⟩ := @Holds.split V base _ _ _ holds
    simp only [handle, EdictVM.over, raised, taken, left, Control.over]

theorem dispatch_over {data : List UInt8} {op : UInt8} (keeps : Keeps host m op)
    (some_code : m.control.code ≠ []) :
    dispatch host (m.over base) data op ip =
      ((dispatch host m data op ip).1.over base, (dispatch host m data op ip).2) := by
  unfold Keeps at keeps
  unfold dispatch
  cases known : VMOpcode.ofByte op with
  | none =>
    simp only [known] at keeps
    cases handled : host.handler op with
    | none => rfl
    | some handler =>
      rw [handled] at keeps
      cases handler with
      | values arity perform => exact Prod.ext (handle_over keeps) rfl
      | machine act => exact keeps.elim
  | some opcode =>
    simp only [known] at keeps
    cases opcode with
    | PUSHEXT =>
      have some_frame := keeps.nonempty
      simp only
      cases readValue data ip with
      | mk read ip =>
        cases read with
        | none => rfl
        | some payload =>
          -- The value is made in the world, which is the same over the base.
          exact Prod.ext (pushData_over
            (m := { m with world := (host.payload m.world payload).1 }) some_frame) rfl
    | EVAL => exact Prod.ext (op_EVAL_over keeps.1 some_code keeps.2) rfl
    | CTX_PUSH => exact Prod.ext (op_CTX_PUSH_over keeps) rfl
    | CTX_POP => exact Prod.ext (op_CTX_POP_over keeps.1 keeps.2) rfl
    | FUN_PUSH => exact Prod.ext (op_FUN_PUSH_over keeps) rfl
    | FUN_EVAL => exact Prod.ext (op_FUN_EVAL_over keeps.1.nonempty keeps.2) rfl
    | FUN_POP => exact Prod.ext (op_FUN_POP_over keeps.1 keeps.2.1 keeps.2.2) rfl
    | FRAME_PUSH => exact Prod.ext (op_FRAME_PUSH_over keeps.nonempty) rfl
    | FRAME_MERGE => exact Prod.ext (listcat_over keeps) rfl
    | THROW => exact Prod.ext op_THROW_over rfl
    | CATCH => rfl

theorem runOp_over {cur : CodeFrame} (keeps : Keeps host m (readByte cur.data ip).1)
    (some_code : m.control.code ≠ []) :
    runOp host (m.over base) (cur.shift base.objects) ip = (runOp host m cur ip).over base := by
  unfold runOp
  rw [CodeFrame.data_shift]
  cases read : readByte cur.data ip with
  | mk op next =>
    rw [read] at keeps
    -- Whether `EVAL` comes last is told by the bytes, which are the same over the base.
    have same (tail_eval : Bool) :
        dispatch host ((m.over base).setTail tail_eval) cur.data op next =
          ((dispatch host (m.setTail tail_eval) cur.data op next).1.over base,
            (dispatch host (m.setTail tail_eval) cur.data op next).2) :=
      dispatch_over (m := m.setTail tail_eval) keeps some_code
    simp only [same]
    split
    · rfl
    · exact machine_writeFrameIp_over

theorem goesOn_over {stopCodeDepth : Nat} (goes : m.goesOn 0 = true)
    (within : stopCodeDepth ≤ base.code.length) : (m.over base).goesOn stopCodeDepth = true := by
  simp only [goesOn, Bool.and_eq_true, decide_eq_true_eq] at goes ⊢
  refine ⟨goes.1, ?_⟩
  show _ < (base.overCode m.control.code).length
  rw [length_overCode]
  omega

theorem turn_over {stopCodeDepth : Nat} {m' : EdictVM V H} (contained : Contained host m)
    (turned : turn host m 0 = some m') (within : stopCodeDepth ≤ base.code.length) :
    turn host (m.over base) stopCodeDepth = some (m'.over base) := by
  unfold turn at turned
  split at turned
  · cases turned
  · rename_i goes
    have goes_over := goesOn_over ((Bool.not_eq_false _).mp goes) within
    unfold turn
    rw [if_neg (Bool.not_eq_false _ ▸ goes_over)]
    split at turned
    · rename_i scanning
      -- While scanning, the members of the loop are all that changes.
      obtain ⟨control, scanned, rfl⟩ := Option.map_eq_some_iff.mp turned
      have scannedOver : (m.over base).control.scanTurn stopCodeDepth = some (control.over base) :=
        Control.scanTurn_over scanned within
      rw [if_pos (show (m.over base).control.state.scanning = true from scanning), scannedOver]
      rfl
    · rename_i quiet
      rw [if_neg (show ¬(m.over base).control.state.scanning = true from quiet)]
      cases own : m.control.code with
      | nil =>
        rw [own] at turned
        cases turned
      | cons cur older =>
        have code : (m.over base).control.code =
            cur.shift base.objects :: base.overCode older := by
          simp only [EdictVM.over, Control.over, own, overCode_cons]
        have some_code : m.control.code ≠ [] := own ▸ List.cons_ne_nil _ _
        have place : (m.over base).control.position (cur.shift base.objects).frame =
            m.control.position cur.frame := Control.position_over
        have data : (cur.shift base.objects).frame.data = cur.frame.data := rfl
        rw [own] at turned
        rw [code]
        simp only [place, data] at turned ⊢
        split at turned <;> rename_i ended
        · rw [if_pos ended, popCodeFrame_over some_code, ← Option.some_inj.mp turned]
        · have keeps := (contained.resolve_left quiet cur (by simp [own])).resolve_left ended
          rw [if_neg ended, ← Option.some_inj.mp turned]
          exact congrArg some (runOp_over keeps some_code)

end Opcodes

end Machines

end AgentC.Edict

import AgentC.Edict.Locality
import AgentC.Library.Iteration
import AgentC.Listree.Tree

/-!
Calls with frames of their own beside running the same code in the caller's frames.
-/

namespace AgentC.Edict

universe u v

variable {V : Type u} {H : Type v}

open EdictVM

/-- Code that keeps to its own frames, from a machine up to where all of it has been run. -/
inductive Completes (host : Host V H) : EdictVM V H → EdictVM V H → Prop where
  | ended {m : EdictVM V H} (code : m.control.code = []) (error : m.control.state.error = false)
      (yield : m.control.state.yield = false) (scanning : m.control.state.scanning = false) :
      Completes host m m
  | step {m next last : EdictVM V H} (contained : Contained host m)
      (turned : turn host m 0 = some next) (rest : Completes host next last) :
      Completes host m last

/-- `runCodeLoop` stops with a machine. -/
def Runs (host : Host V H) (stopCodeDepth : Nat) : EdictVM V H → EdictVM V H → Prop :=
  EndsIn fun m => turn host m stopCodeDepth

def pushArguments (m : EdictVM V H) (args : List V) : EdictVM V H :=
  args.foldl pushData m

def inlineCall (m : EdictVM V H) (f : V) (args : List V) : EdictVM V H :=
  ((pushArguments m args).pushData f).pushCodeFrame [VMOpcode.EVAL.byte]

/-- A call: `FUN_PUSH` with the function on top, then the arguments, then `FUN_EVAL`. -/
def isolatedCall (host : Host V H) (m : EdictVM V H) (f : V) (args : List V) : EdictVM V H :=
  op_FUN_EVAL (pushArguments (op_FUN_PUSH host (m.pushData f)) args)

def alone (m : EdictVM V H) (args : List V) (code : List UInt8) : EdictVM V H where
  control := { m.control with code := [⟨⟨0, code⟩, 0⟩], tail_eval := false }
  dict := []
  stack := [args.reverse]
  func := []
  conditions := m.conditions
  world := m.world
  fresh := 1

/--
A function is a source whose code, alone with the arguments, takes nothing from outside.

It leaves the results on its innermost data frame, and below that the frames it has opened.
-/
def Returns (host : Host V H) (m : EdictVM V H) (f : V) (args results : List V)
    (opened : List (List V)) : Prop :=
  ∃ text code last, host.evaluation m.world f = .source text ∧
    host.compile (stripBrackets text) = some code ∧
    Completes host (alone m args code) last ∧ last.stack = results :: opened

/-- A machine that runs, with a data frame and numbered code frame objects. -/
structure Ready (m : EdictVM V H) : Prop where
  error : m.control.state.error = false
  yield : m.control.state.yield = false
  scanning : m.control.state.scanning = false
  some_frame : m.stack ≠ []
  numbered : ∀ activation ∈ m.control.code, activation.frame.object < m.fresh

/-- The call leaves the same values on the data stack as the code in the caller's frames. -/
def CallAgrees (host : Host V H) (m : EdictVM V H) (f : V) (args : List V) : Prop :=
  ∃ inline isolated, Runs host m.control.code.length (inlineCall m f args) inline ∧
    Runs host m.control.code.length (isolatedCall host m f args) isolated ∧
    isolated.stack = inline.stack

/-- Leaving a frame with these values puts them on the frame below as they are. -/
def LeavesConcatenate (H : Type v) (results : List V) : Prop :=
  ∀ (m : EdictVM V H) (nos : List V) (outer : List (List V)), m.stack = results :: nos :: outer →
    (op_FUN_POP m).stack = (results ++ nos) :: outer ∧
    (op_FRAME_MERGE m).stack = (results ++ nos) :: outer ∧
    ∀ ctx scopes dicts, m.dict = (ctx :: scopes) :: dicts →
      (op_CTX_POP m).stack = (ctx :: (results ++ nos)) :: outer

section Merging

variable {m : EdictVM V H} {tos nos : List V} {outer : List (List V)}

theorem listcat_stack (frames : m.stack = tos :: nos :: outer) :
    m.listcat.stack = (tos.reverse ++ nos) :: outer := by
  unfold listcat
  rw [frames]
  exact congrArg (· :: outer) List.foldl_flip_cons_eq_append'

theorem op_FUN_POP_stack (frames : m.stack = tos :: nos :: outer) :
    (op_FUN_POP m).stack = (tos.reverse ++ nos) :: outer :=
  listcat_stack frames

theorem op_CTX_POP_stack {ctx : V} {scopes : List V} {dicts : List (List V)}
    (frames : m.stack = tos :: nos :: outer) (entered : m.dict = (ctx :: scopes) :: dicts) :
    (op_CTX_POP m).stack = (ctx :: (tos.reverse ++ nos)) :: outer := by
  have dict : m.listcat.dict = (ctx :: scopes) :: dicts := by
    unfold listcat
    rw [frames]
    exact entered
  simp only [op_CTX_POP, dict, pushData, listcat_stack frames]

theorem leavesConcatenate_of_palindrome {results : List V} (same : results.reverse = results) :
    LeavesConcatenate H results := by
  intro m nos outer frames
  have merged : m.listcat.stack = (results ++ nos) :: outer := by
    rw [listcat_stack frames, same]
  refine ⟨merged, merged, ?_⟩
  intro ctx scopes dicts entered
  rw [op_CTX_POP_stack frames entered, same]

end Merging

section Running

variable {host : Host V H} {m : EdictVM V H} {f : V} {args : List V} {stopCodeDepth : Nat}

theorem pushArguments_eq {frame : List V} {outer : List (List V)} (frames : m.stack = frame :: outer) :
    pushArguments m args = { m with stack := (args.reverse ++ frame) :: outer } := by
  induction args generalizing m frame with
  | nil => exact congrArg (fun stack => { m with stack }) frames
  | cons arg rest ih =>
    have pushed : m.pushData arg = { m with stack := (arg :: frame) :: outer } := by
      simp only [pushData, frames]
    have after := ih (m := { m with stack := (arg :: frame) :: outer }) rfl
    show pushArguments (m.pushData arg) rest = _
    rw [pushed, after, List.reverse_cons, List.append_assoc]
    rfl

theorem turn_new {object : Nat} {op : UInt8} {older : List Activation}
    (error : m.control.state.error = false) (yield : m.control.state.yield = false)
    (scanning : m.control.state.scanning = false)
    (code : m.control.code = ⟨⟨object, [op]⟩, 0⟩ :: older)
    (new : ∀ activation ∈ older, activation.frame.object ≠ object)
    (within : stopCodeDepth ≤ older.length) :
    turn host m stopCodeDepth = some (runOp host m ⟨object, [op]⟩ 0) := by
  have goes : ¬m.goesOn stopCodeDepth = false := by
    simp only [goesOn, error, yield, code, List.length_cons, Bool.not_eq_false]
    simpa using Nat.lt_succ_of_le within
  have place : m.control.position ⟨object, [op]⟩ = 0 := by
    have found : findCodeFrameIndex ⟨object, [op]⟩ (⟨⟨object, [op]⟩, 0⟩ :: older) = some 0 :=
      @findCodeFrameIndex_top older ⟨⟨object, [op]⟩, 0⟩ new
    simp only [Control.position, readFrameIp, code, found]
    rfl
  unfold turn
  rw [if_neg goes, if_neg (by simp [scanning]), code]
  simp only [place]
  rfl

/-- `EVAL` of a source, alone in its frame, has the source's code run in that frame's place. -/
theorem turn_EVAL {frame : List V} {outer : List (List V)} {text code : List UInt8}
    (error : m.control.state.error = false) (yield : m.control.state.yield = false)
    (scanning : m.control.state.scanning = false)
    (new : ∀ activation ∈ m.control.code, activation.frame.object ≠ m.fresh)
    (within : stopCodeDepth ≤ m.control.code.length)
    (frames : m.stack = (f :: frame) :: outer)
    (source : host.evaluation m.world f = .source text)
    (compiled : host.compile (stripBrackets text) = some code) :
    turn host (m.pushCodeFrame [VMOpcode.EVAL.byte]) stopCodeDepth = some { m with
      stack := frame :: outer
      control := { m.control with
        code := ⟨⟨m.fresh + 1, code⟩, 0⟩ :: m.control.code
        tail_eval := false }
      fresh := m.fresh + 2 } := by
  have popped : ((m.pushCodeFrame [VMOpcode.EVAL.byte]).setTail true).popData =
      (some f, { (m.pushCodeFrame [VMOpcode.EVAL.byte]).setTail true with
        stack := frame :: outer }) := by
    simp only [popData, setTail, pushCodeFrame, frames]
  rw [turn_new (m := m.pushCodeFrame _) error yield scanning rfl new within]
  show some (op_EVAL host ((m.pushCodeFrame [VMOpcode.EVAL.byte]).setTail true) 1) = _
  have found : host.evaluation ((m.pushCodeFrame [VMOpcode.EVAL.byte]).setTail true).world f =
      .source text := source
  simp only [op_EVAL, popped, found, compiled]
  rfl

theorem Completes.reaches {base : Base V} {last : EdictVM V H} (completes : Completes host m last)
    (within : stopCodeDepth ≤ base.code.length) :
    Reaches (fun m => turn host m stopCodeDepth) (m.over base) (last.over base) := by
  -- The induction is on the turns of the code alone.
  induction completes with
  | ended => exact .refl
  | step contained turned _ ih => exact .head (turn_over contained turned within) ih

theorem Completes.ends {last : EdictVM V H} (completes : Completes host m last) :
    last.control.code = [] ∧ last.control.state.error = false ∧
      last.control.state.yield = false ∧ last.control.state.scanning = false := by
  induction completes with
  | ended code error yield scanning => exact ⟨code, error, yield, scanning⟩
  | step _ _ _ ih => exact ih

theorem turn_stops (above : m.control.code.length ≤ stopCodeDepth) :
    turn host m stopCodeDepth = none := by
  have stopped : m.goesOn stopCodeDepth = false := by
    simp only [goesOn, Bool.and_eq_false_iff, decide_eq_false_iff_not, Nat.not_lt]
    exact .inr above
  exact if_pos stopped

/-- The caller's frames, as the base of code that runs in them. -/
def inlineBase (m : EdictVM V H) (ready : Ready m) (frame : List V) (outer : List (List V)) :
    Base V where
  below := frame
  stack := outer
  dict := m.dict
  func := m.func
  code := m.control.code
  objects := m.fresh + 1
  apart := fun activation inside => Nat.lt_succ_of_lt (ready.numbered activation inside)

/-- The frames of a call, as the base of the code of its function. -/
def callBase (host : Host V H) (m : EdictVM V H) (ready : Ready m) (f : V) : Base V where
  below := []
  stack := m.stack
  dict := [host.null] :: m.dict
  func := f :: m.func
  code := ⟨⟨m.fresh, [VMOpcode.FUN_POP.byte]⟩, 0⟩ :: m.control.code
  objects := m.fresh + 2
  apart := by
    refine List.forall_mem_cons.mpr ⟨Nat.lt_add_of_pos_right (by decide), ?_⟩
    intro activation inside
    have smaller := ready.numbered activation inside
    omega

section Source

variable {text code : List UInt8} {frame : List V} {outer : List (List V)}
  (ready : Ready m) (frames : m.stack = frame :: outer)
  (source : host.evaluation m.world f = .source text)
  (compiled : host.compile (stripBrackets text) = some code)

include frames source compiled

theorem turn_inlineCall :
    turn host (inlineCall m f args) m.control.code.length =
      some ((alone m args code).over (inlineBase m ready frame outer)) := by
  have new : ∀ activation ∈ m.control.code, activation.frame.object ≠ m.fresh :=
    fun activation inside => Nat.ne_of_lt (ready.numbered activation inside)
  have pushed : inlineCall m f args = EdictVM.pushCodeFrame
      { m with stack := (f :: (args.reverse ++ frame)) :: outer } [VMOpcode.EVAL.byte] := by
    unfold inlineCall
    rw [pushArguments_eq frames]
    rfl
  have turned := turn_EVAL
    (m := { m with stack := (f :: (args.reverse ++ frame)) :: outer }) ready.error ready.yield
    ready.scanning new (Nat.le_refl _) rfl source compiled
  rw [pushed, turned]
  have object : 0 + (m.fresh + 1) = m.fresh + 1 := Nat.zero_add _
  have fresh : 1 + (m.fresh + 1) = m.fresh + 2 := by omega
  simp only [EdictVM.over, alone, inlineBase, Control.over, Base.overCode, List.map_cons,
    List.map_nil, Activation.shift, List.cons_append, List.nil_append, object, fresh,
    Base.overStack]

theorem turn_isolatedCall :
    turn host (isolatedCall host m f args) m.control.code.length =
      some ((alone m args code).over (callBase host m ready f)) := by
  -- The frame that `FUN_POP` is on lies below the one that is evaluated.
  let called : EdictVM V H := { m with
    control := { m.control with
      code := ⟨⟨m.fresh, [VMOpcode.FUN_POP.byte]⟩, 0⟩ :: m.control.code }
    dict := [host.null] :: m.dict
    stack := (f :: args.reverse) :: frame :: outer
    func := f :: m.func
    fresh := m.fresh + 1 }
  have entered : op_FUN_PUSH host (m.pushData f) = { m with
      dict := [host.null] :: m.dict, stack := [] :: frame :: outer, func := f :: m.func } := by
    simp only [op_FUN_PUSH, pushData, popData, frames]
    rfl
  have pushed : isolatedCall host m f args = called.pushCodeFrame [VMOpcode.EVAL.byte] := by
    unfold isolatedCall
    rw [entered, pushArguments_eq (rfl : _ = [] :: frame :: outer), op_FUN_EVAL_eq (f := f) rfl,
      List.append_nil]
    rfl
  have new : ∀ activation ∈ called.control.code, activation.frame.object ≠ called.fresh := by
    refine List.forall_mem_cons.mpr ⟨Nat.ne_of_lt (Nat.lt_succ_self _), ?_⟩
    intro activation inside
    exact Nat.ne_of_lt (Nat.lt_succ_of_lt (ready.numbered activation inside))
  have turned := turn_EVAL (m := called) ready.error ready.yield ready.scanning new
    (Nat.le_succ _) rfl source compiled
  rw [pushed, turned]
  have object : 0 + (m.fresh + 2) = m.fresh + 2 := Nat.zero_add _
  have fresh : 1 + (m.fresh + 2) = m.fresh + 3 := by omega
  simp only [EdictVM.over, alone, callBase, Control.over, Base.overCode, List.map_cons,
    List.map_nil, Activation.shift, List.cons_append, List.nil_append, object, fresh,
    Base.overStack, called, List.append_nil, frames]

end Source

theorem op_FUN_POP_setTail {tail_eval : Bool} :
    op_FUN_POP (m.setTail tail_eval) = (op_FUN_POP m).setTail tail_eval := by
  obtain ⟨control, dict, stack, func, conditions, world, fresh⟩ := m
  match stack with
  | [] => rfl
  | [_] => rfl
  | _ :: _ :: _ => rfl

theorem op_FUN_POP_control : (op_FUN_POP m).control = m.control := by
  obtain ⟨control, dict, stack, func, conditions, world, fresh⟩ := m
  match stack with
  | [] => rfl
  | [_] => rfl
  | _ :: _ :: _ => rfl

theorem turn_past {frame : CodeFrame} {ip : Int32} {older : List Activation}
    (error : m.control.state.error = false) (yield : m.control.state.yield = false)
    (scanning : m.control.state.scanning = false) (code : m.control.code = ⟨frame, ip⟩ :: older)
    (new : ∀ activation ∈ older, activation.frame.object ≠ frame.object)
    (ended : frame.data.length ≤ ip.toNatClampNeg) :
    turn host m older.length = some m.popCodeFrame := by
  have goes : ¬m.goesOn older.length = false := by
    simp only [goesOn, error, yield, code, List.length_cons, Bool.not_eq_false]
    simp
  have place : m.control.position frame = ip.toNatClampNeg := by
    have found : findCodeFrameIndex frame (⟨frame, ip⟩ :: older) = some 0 :=
      @findCodeFrameIndex_top older ⟨frame, ip⟩ new
    simp only [Control.position, readFrameIp, code, found]
    rfl
  unfold turn
  rw [if_neg goes, if_neg (by simp [scanning]), code]
  simp only [place]
  exact if_pos ended

/-- Where `FUN_POP` ends a call, the loop is back at the caller's code. -/
theorem runs_FUN_POP {object : Nat} {older : List Activation}
    (error : m.control.state.error = false) (yield : m.control.state.yield = false)
    (scanning : m.control.state.scanning = false)
    (code : m.control.code = ⟨⟨object, [VMOpcode.FUN_POP.byte]⟩, 0⟩ :: older)
    (new : ∀ activation ∈ older, activation.frame.object ≠ object) :
    ∃ left, Runs host older.length m left ∧ left.stack = (op_FUN_POP m).stack := by
  let frame : CodeFrame := ⟨object, [VMOpcode.FUN_POP.byte]⟩
  let popped := ((op_FUN_POP m).setTail false).writeFrameIp frame 1
  have first : turn host m older.length = some popped := by
    rw [turn_new error yield scanning code new (Nat.le_refl _)]
    show some ((op_FUN_POP (m.setTail false)).writeFrameIp frame 1) = _
    rw [op_FUN_POP_setTail]
  have control : ((op_FUN_POP m).setTail false).control = { m.control with tail_eval := false } := by
    simp only [setTail, op_FUN_POP_control]
  have behind : popped.control.code = ⟨frame, 1⟩ :: older := by
    have found : findCodeFrameIndex frame (⟨frame, 0⟩ :: older) = some 0 :=
      @findCodeFrameIndex_top older ⟨frame, 0⟩ new
    simp only [popped, EdictVM.writeFrameIp, control, code]
    show Edict.writeFrameIp (⟨frame, 0⟩ :: older) frame (Int32.ofNat 1) = _
    simp only [Edict.writeFrameIp, found]
    rfl
  have state : popped.control.state = m.control.state := by
    simp only [popped, EdictVM.writeFrameIp, control]
  have second : turn host popped older.length = some popped.popCodeFrame :=
    turn_past (state ▸ error) (state ▸ yield) (state ▸ scanning) behind new
      (show 1 ≤ Int32.toNatClampNeg 1 by decide)
  have last : turn host popped.popCodeFrame older.length = none := by
    refine turn_stops ?_
    simp only [popCodeFrame, behind, List.tail_cons, Nat.le_refl]
  exact ⟨popped.popCodeFrame, ⟨.head first (.head second .refl), last⟩, rfl⟩

end Running

section Agreement

variable {host : Host V H} {m : EdictVM V H} {f : V} {args results : List V}
  {opened : List (List V)}

theorem overStack_nothing {base : Base V} (nothing : base.below = []) {frame : List V} :
    base.overStack (frame :: opened) = frame :: (opened ++ base.stack) := by
  induction opened generalizing frame with
  | nil => simp only [Base.overStack, nothing, List.append_nil, List.nil_append]
  | cons next outer ih =>
    show frame :: base.overStack (next :: outer) = _
    rw [ih, List.cons_append]

theorem overStack_shifted {base : Base V} {frame : List V} :
    (opened ++ base.below :: base.stack = base.overStack (frame :: opened) ∧ frame = []) ↔
      ∀ own ∈ frame :: opened, own = [] := by
  induction opened generalizing frame with
  | nil =>
    simp only [Base.overStack, List.nil_append, List.cons.injEq, List.forall_mem_cons]
    constructor
    · exact fun same => ⟨same.2, List.forall_mem_nil _⟩
    · rintro ⟨rfl, -⟩
      exact ⟨⟨rfl, trivial⟩, rfl⟩
  | cons next outer ih =>
    rw [List.forall_mem_cons, ← ih]
    show next :: (outer ++ _) = frame :: base.overStack (next :: outer) ∧ _ ↔ _
    rw [List.cons.injEq]
    constructor
    · rintro ⟨⟨rfl, same⟩, nothing⟩
      exact ⟨nothing, same, nothing⟩
    · rintro ⟨rfl, same, nothing⟩
      exact ⟨⟨nothing, same⟩, rfl⟩

theorem stacks_agree_iff {below : List V} {outer : List (List V)} {base call : Base V}
    (here : base.below = below) (frames : base.stack = outer)
    (nothing : call.below = []) (caller : call.stack = below :: outer)
    {left : EdictVM V H} (stack : left.stack = call.overStack (results :: opened)) :
    (op_FUN_POP left).stack = base.overStack (results :: opened) ↔
      results.reverse = results ∧ ∀ own ∈ opened, own = [] := by
  rw [overStack_nothing nothing, caller] at stack
  cases opened with
  | nil =>
    rw [op_FUN_POP_stack stack]
    simp only [Base.overStack, here, frames, List.cons.injEq, List.append_cancel_right_eq]
    simp
  | cons next open' =>
    rw [op_FUN_POP_stack stack]
    have shifted := @overStack_shifted V open' base next
    rw [here, frames] at shifted
    rw [← shifted]
    show (_ :: (open' ++ below :: outer) = results :: base.overStack (next :: open')) ↔ _
    rw [List.cons.injEq]
    constructor
    · rintro ⟨merged, same⟩
      -- The reversed results are as many as the results, so nothing was below them.
      have lengths := congrArg List.length merged
      rw [List.length_append, List.length_reverse] at lengths
      have empty : next = [] := List.length_eq_zero_iff.mp (by omega)
      subst empty
      rw [List.append_nil] at merged
      exact ⟨merged, same, rfl⟩
    · rintro ⟨merged, same, rfl⟩
      rw [List.append_nil]
      exact ⟨merged, same⟩

theorem callAgrees_iff (ready : Ready m) (returns : Returns host m f args results opened) :
    CallAgrees host m f args ↔ results.reverse = results ∧ ∀ own ∈ opened, own = [] := by
  obtain ⟨text, code, last, source, compiled, completes, stack⟩ := returns
  obtain ⟨no_code, error, yield, scanning⟩ := completes.ends
  cases frames : m.stack with
  | nil => exact absurd frames ready.some_frame
  | cons frame outer =>
    let base := inlineBase m ready frame outer
    let call := callBase host m ready f
    have new : ∀ activation ∈ m.control.code, activation.frame.object ≠ m.fresh :=
      fun activation inside => Nat.ne_of_lt (ready.numbered activation inside)
    -- Inlined, the code of the function ends at the caller's code.
    have inlined : Runs host m.control.code.length (inlineCall m f args) (last.over base) := by
      refine ⟨.head (turn_inlineCall ready frames source compiled)
        (completes.reaches (Nat.le_refl _)), turn_stops ?_⟩
      show (base.overCode last.control.code).length ≤ _
      rw [no_code]
      exact Nat.le_refl _
    -- In a call it ends at `FUN_POP`, which the caller's code is below.
    obtain ⟨left, popped, leaves⟩ := @runs_FUN_POP V H host (last.over call)
      m.fresh m.control.code error yield scanning
      (by show call.overCode last.control.code = _; rw [no_code]; rfl) new
    have called : Runs host m.control.code.length (isolatedCall host m f args) left :=
      ⟨.head (turn_isolatedCall ready frames source compiled)
        (.trans (completes.reaches (show _ ≤ call.code.length from Nat.le_succ _)) popped.1), popped.2⟩
    have agree : left.stack = (last.over base).stack ↔
        results.reverse = results ∧ ∀ own ∈ opened, own = [] := by
      rw [leaves]
      show _ = base.overStack last.stack ↔ _
      rw [stack]
      exact stacks_agree_iff (rfl : base.below = frame) rfl (rfl : call.below = []) frames (congrArg call.overStack stack)
    constructor
    · rintro ⟨one, other, runs, runs', same⟩
      rw [runs.unique inlined, runs'.unique called] at same
      exact agree.mp same
    · exact fun same => ⟨_, _, inlined, called, agree.mpr same⟩

/--
Calls agree with their functions run inline, and leaving frames is concatenation, exactly for
results that are the same read from both ends, with nothing on the frames that are left open.
-/
theorem calls_concatenate_iff (ready : Ready m) (returns : Returns host m f args results opened) :
    CallAgrees host m f args ∧ LeavesConcatenate H results ↔
      results.reverse = results ∧ ∀ own ∈ opened, own = [] := by
  rw [callAgrees_iff ready returns]
  exact ⟨And.left, fun same => ⟨same, leavesConcatenate_of_palindrome same.1⟩⟩

end Agreement

section Literals

/-- A machine for literals: its values are payloads, and its sources push what they name. -/
def literalHost : Host Payload Unit where
  null := .null
  payload world payload := (world, payload)
  evaluation _ value :=
    match value with
    | .string text => .source text
    | _ => .nothing
  compile source :=
    if source = ascii "[a][b]" then some [2, 2, 1, 0, 0, 0, 97, 2, 2, 1, 0, 0, 0, 98]
    else if source = ascii "[a][a]" then some [2, 2, 1, 0, 0, 0, 97, 2, 2, 1, 0, 0, 0, 97]
    else none
  handler _ := none

/-- A machine that has just started. -/
def literalMachine : EdictVM Payload Unit where
  control := ⟨[], ⟨false, false, false, false⟩, "", false, .None, 0⟩
  dict := [[.null]]
  stack := [[]]
  func := []
  conditions := []
  world := ()
  fresh := 0

theorem literalMachine_ready : Ready literalMachine :=
  ⟨rfl, rfl, rfl, List.cons_ne_nil _ _, List.forall_mem_nil _⟩

def pairCode (a b : UInt8) : List UInt8 :=
  [VMOpcode.PUSHEXT.byte, VMPushextType.STRING.byte, 1, 0, 0, 0, a,
    VMOpcode.PUSHEXT.byte, VMPushextType.STRING.byte, 1, 0, 0, 0, b]

theorem pair_returns {text : List UInt8} {a b : UInt8}
    (compiled : literalHost.compile (stripBrackets text) = some (pairCode a b)) :
    Returns literalHost literalMachine (.string text) [] [.string [b], .string [a]] [] := by
  let frame : CodeFrame := ⟨0, pairCode a b⟩
  let first := ((alone literalMachine [] (pairCode a b)).pushData (.string [a])).writeFrameIp frame 7
  let second := (first.pushData (.string [b])).writeFrameIp frame 14
  refine ⟨text, pairCode a b, second.popCodeFrame, rfl, compiled, ?_, rfl⟩
  have some_frame : ∀ {m : EdictVM Payload Unit}, Holds 0 m.stack →
      Keeps literalHost m VMOpcode.PUSHEXT.byte := id
  refine @Completes.step _ _ _ _ first _ (.inr fun cur here => .inr ?_) rfl ?_
  · cases here
    exact some_frame (Nat.zero_le _)
  · refine @Completes.step _ _ _ _ second _ (.inr fun cur here => .inr ?_) rfl ?_
    · cases here
      exact some_frame (Nat.zero_le _)
    · refine @Completes.step _ _ _ _ second.popCodeFrame _ (.inr fun cur here => .inl ?_) rfl ?_
      · cases here
        exact Nat.le_refl 14
      · exact .ended rfl rfl rfl rfl

/-- Two equal strings come out of a call as they come out of its function. -/
theorem calls_concatenate_twins :
    CallAgrees literalHost literalMachine (.string (ascii "[a][a]")) [] ∧
      LeavesConcatenate Unit [Payload.string [97], .string [97]] :=
  (calls_concatenate_iff literalMachine_ready (pair_returns (a := 97) (b := 97) rfl)).mpr
    ⟨rfl, List.forall_mem_nil _⟩

/-- A call of a function with two results swaps them. -/
theorem calls_concatenate_fails :
    Returns literalHost literalMachine (.string (ascii "[a][b]")) []
      [.string [98], .string [97]] [] ∧
    ¬CallAgrees literalHost literalMachine (.string (ascii "[a][b]")) [] := by
  have returns := @pair_returns (ascii "[a][b]") 97 98 rfl
  refine ⟨returns, fun agrees => ?_⟩
  have same := ((callAgrees_iff literalMachine_ready returns).mp agrees).1
  exact absurd same (by decide)

end Literals

end AgentC.Edict

import AgentC.Edict.Iterators

/-! What becomes of an iterator's functions: the first frame that should evaluate one never does. -/

namespace AgentC.Edict

universe u v

variable {V : Type u} {H : Type v}

section Pointers

variable {code older : List Activation} {frame other : CodeFrame} {ip : Int32}
  {top : Activation}

theorem readFrameIp_writeFrameIp_cases : readFrameIp (writeFrameIp code frame ip) other = ip ∨
    readFrameIp (writeFrameIp code frame ip) other = readFrameIp code other := by
  unfold readFrameIp
  rw [findCodeFrameIndex_congr map_frame_writeFrameIp]
  cases there : findCodeFrameIndex other code with
  | none => exact Or.inr rfl
  | some index =>
    unfold writeFrameIp
    cases found : findCodeFrameIndex frame code with
    | none => exact Or.inr rfl
    | some place =>
      simp only [List.getElem?_modify]
      by_cases same : place = index
      · have inside := findCodeFrameIndex_lt there
        left
        rw [List.getElem?_eq_getElem inside]
        simp [same]
      · right
        simp [same]

theorem writeFrameIp_cons : ∃ kept rest, writeFrameIp (top :: older) frame ip = kept :: rest ∧
    kept.frame = top.frame ∧ rest.map Activation.frame = older.map Activation.frame := by
  have frames := @map_frame_writeFrameIp (top :: older) frame ip
  cases written : writeFrameIp (top :: older) frame ip with
  | nil =>
    rw [written] at frames
    cases frames
  | cons kept rest =>
    rw [written] at frames
    obtain ⟨first, others⟩ := List.cons.inj frames
    exact ⟨kept, rest, rfl, first, others⟩

theorem writeFrameIp_self (same : readFrameIp code frame = ip) :
    writeFrameIp code frame ip = code := by
  unfold readFrameIp at same
  unfold writeFrameIp
  cases found : findCodeFrameIndex frame code with
  | none => rfl
  | some index =>
    have inside := findCodeFrameIndex_lt found
    rw [found] at same
    simp only [List.getElem?_eq_getElem inside, Option.map_some, Option.getD_some] at same
    refine List.ext_getElem? fun place => ?_
    rw [List.getElem?_modify]
    by_cases here : index = place
    · subst here
      simp [List.getElem?_eq_getElem inside, ← same]
    · simp [here]

theorem writeFrameIp_own
    (once : ∀ activation ∈ older, activation.frame.object ≠ top.frame.object) :
    writeFrameIp (top :: older) top.frame ip = ⟨top.frame, ip⟩ :: older := by
  unfold writeFrameIp
  rw [findCodeFrameIndex_top once]
  rfl

theorem readFrameIp_cons_of_mem (there : ∃ activation ∈ older,
    activation.frame.object = frame.object) :
    readFrameIp (top :: older) frame = readFrameIp older frame := by
  obtain ⟨index, found⟩ : ∃ index, findCodeFrameIndex frame older = some index := by
    induction older with
    | nil =>
      obtain ⟨_, member, -⟩ := there
      exact absurd member List.not_mem_nil
    | cons first rest ih =>
      unfold findCodeFrameIndex
      cases later : findCodeFrameIndex frame rest with
      | some index => exact ⟨index + 1, rfl⟩
      | none =>
        obtain ⟨activation, member, same⟩ := there
        rcases List.mem_cons.mp member with rfl | inside
        · exact ⟨0, if_pos same⟩
        · obtain ⟨index, found⟩ := ih ⟨activation, inside, same⟩
          rw [later] at found
          cases found
  unfold readFrameIp
  rw [show findCodeFrameIndex frame (top :: older) = some (index + 1) by
    unfold findCodeFrameIndex; rw [found], found]
  rfl

end Pointers

theorem ofNat_position_ne_zero (c : Control) (cur : CodeFrame) :
    Int32.ofNat (c.position cur + 1) ≠ 0 := by
  have small : c.position cur < 2 ^ 31 := Int32.toNatClampNeg_lt _
  generalize c.position cur = place at small
  intro zero
  by_cases near : place + 1 < 2 ^ 31
  · have back := Int32.toNatClampNeg_ofNat_of_lt near
    rw [zero] at back
    exact absurd back (by simp)
  · -- Only one more pointer is possible, and it is kept as a negative number.
    obtain rfl : place = 2 ^ 31 - 1 := by omega
    exact absurd zero (by decide)

def TopKept (ip : Int32) (code : List Activation) : Prop :=
  ∀ top ∈ code.head?, readFrameIp code top.frame = ip

theorem TopKept.write {ip : Int32} {code : List Activation} (kept : TopKept ip code)
    (frame : CodeFrame) : TopKept ip (writeFrameIp code frame ip) := by
  cases code with
  | nil => exact fun top member => absurd member (by simp [writeFrameIp, findCodeFrameIndex])
  | cons first rest =>
    obtain ⟨now, others, written, same, -⟩ := @writeFrameIp_cons rest frame ip first
    intro top member
    rw [written] at member
    obtain rfl : now = top := Option.some.inj member
    rw [same]
    rcases @readFrameIp_writeFrameIp_cases (first :: rest) frame first.frame ip with new | old
    · exact new
    · exact old.trans (kept first rfl)

namespace EdictVM

variable {m : EdictVM V H}

theorem topKept_writeTopIp (m : EdictVM V H) (instruction_ptr : Nat) :
    TopKept (Int32.ofNat instruction_ptr) (m.writeTopIp instruction_ptr).control.code := by
  unfold writeTopIp
  split
  · rename_i empty
    intro top member
    rw [empty] at member
    cases member
  · rename_i first rest code
    intro top member
    have written : (m.writeFrameIp first.frame instruction_ptr).control.code =
        Edict.writeFrameIp (first :: rest) first.frame (Int32.ofNat instruction_ptr) := by
      rw [← code]
      rfl
    rw [written] at member ⊢
    obtain ⟨now, others, split, same, -⟩ :=
      @writeFrameIp_cons rest first.frame (Int32.ofNat instruction_ptr) first
    rw [split] at member
    obtain rfl : now = top := Option.some.inj member
    rw [same]
    exact readFrameIp_writeFrameIp

end EdictVM

section Turn

variable {host : Host V H} {stopCodeDepth : Nat} {cur : Activation} {older : List Activation}
  {cursor : IteratorCursor V} {m next : EdictVM V H}

/-- The pointer behind the `EVAL`. -/
def behindEval (m : EdictVM V H) (cur : Activation) : Nat :=
  m.control.position cur.frame + 1

/-- The machine after its `EVAL` of an iterator. -/
theorem AtIterator.turn_eq (ready : AtIterator host stopCodeDepth cur older cursor m)
    (turned : EdictVM.turn host m stopCodeDepth = some next) :
    ∃ entered : EdictVM V H, entered.control.code = cur :: older ∧
      entered.control.tail_eval = decide (cur.frame.data.length ≤ behindEval m cur) ∧
      next =
        if cur.frame.data.length ≤ behindEval m cur then
          EdictVM.evalDispatchIterator (some cursor) (behindEval m cur) entered
        else
          (EdictVM.evalDispatchIterator (some cursor) (behindEval m cur) entered).writeFrameIp
            cur.frame (behindEval m cur) := by
  obtain ⟨goesOn, executes, code, opcode, value, frame, outer, top, iterator⟩ := ready
  have inside := (List.getElem?_eq_some_iff.mp opcode).1
  have read : readByte cur.frame.data (m.control.position cur.frame) =
      (VMOpcode.EVAL.byte, behindEval m cur) := by
    rw [readByte, opcode]
    rfl
  refine ⟨{ m.setTail (decide (cur.frame.data.length ≤ behindEval m cur)) with
    stack := frame :: outer }, code, rfl, ?_⟩
  -- The opcode pops the iterator and dispatches it.
  have dispatched : ∀ tail : Bool,
      EdictVM.dispatch host (m.setTail tail) cur.frame.data VMOpcode.EVAL.byte (behindEval m cur) =
        (EdictVM.evalDispatchIterator (some cursor) (behindEval m cur)
          { m.setTail tail with stack := frame :: outer }, behindEval m cur) := by
    intro tail
    have popped : (m.setTail tail).popData =
        (some value, { m.setTail tail with stack := frame :: outer }) := by
      unfold EdictVM.popData
      rw [show (m.setTail tail).stack = (value :: frame) :: outer from top]
    have found : host.evaluation (m.setTail tail).world value =
        .machine (EdictVM.evalDispatchIterator (some cursor)) := iterator
    unfold EdictVM.dispatch
    rw [show VMOpcode.ofByte VMOpcode.EVAL.byte = some .EVAL from rfl]
    dsimp only
    rw [EdictVM.op_EVAL, popped]
    dsimp only
    rw [show ({ m.setTail tail with stack := frame :: outer } : EdictVM V H).world =
      (m.setTail tail).world from rfl, found]
  have ran : next = EdictVM.runOp host m cur.frame (m.control.position cur.frame) := by
    unfold EdictVM.turn at turned
    rw [if_neg (by rw [goesOn]; simp), if_neg (by rw [executes]; simp), code] at turned
    dsimp only at turned
    rw [if_neg (by omega)] at turned
    exact (Option.some.inj turned).symm
  rw [ran, EdictVM.runOp, read]
  dsimp only
  rw [dispatched]
  by_cases tail : cur.frame.data.length ≤ behindEval m cur
  · simp [tail]
  · simp [tail]

/-- After the `EVAL` of an iterator the pointer of the frame on top is the one behind that `EVAL`. -/
theorem AtIterator.topKept (ready : AtIterator host stopCodeDepth cur older cursor m)
    (turned : EdictVM.turn host m stopCodeDepth = some next) :
    TopKept (Int32.ofNat (behindEval m cur)) next.control.code := by
  obtain ⟨entered, code, tail, rfl⟩ := ready.turn_eq turned
  have kept : TopKept (Int32.ofNat (behindEval m cur))
      (EdictVM.evalDispatchIterator (some cursor) (behindEval m cur) entered).control.code :=
    EdictVM.topKept_writeTopIp _ _
  split
  · exact kept
  · exact kept.write cur.frame

theorem AtIterator.not_evaluatesNext (ready : AtIterator host stopCodeDepth cur older cursor m)
    (turned : EdictVM.turn host m stopCodeDepth = some next) (function : V) :
    ¬EvaluatesNext function next := by
  rintro ⟨eval, below, frame, outer, code, -, fresh, -⟩
  have kept := ready.topKept turned eval (by rw [code]; rfl)
  rw [fresh] at kept
  exact ofNat_position_ne_zero _ _ kept.symm

theorem IteratorCursor.collected_of_yields (nothing : cursor.yields = []) :
    cursor.collected = [] := by
  obtain ⟨first, later⟩ := List.append_eq_nil_iff.mp nothing
  rw [IteratorCursor.collected, first, later]
  split <;> rfl

theorem AtIterator.goesOnBehind_iff (ready : AtIterator host stopCodeDepth cur older cursor m)
    (turned : EdictVM.turn host m stopCodeDepth = some next) (nothing : cursor.collected = []) :
    GoesOnBehind cur.frame (behindEval m cur) older next.control.code ↔
      Undisturbed cur older (behindEval m cur) := by
  obtain ⟨entered, code, tail, rfl⟩ := ready.turn_eq turned
  have small : m.control.position cur.frame < 2 ^ 31 := Int32.toNatClampNeg_lt _
  have pointer : (readFrameIp (cur :: older) cur.frame).toNatClampNeg + 1 = behindEval m cur := by
    rw [← ready.code]
    rfl
  have empty : entered.pushFunctions cursor.collected = entered := by rw [nothing]; rfl
  by_cases last : cur.frame.data.length ≤ behindEval m cur
  · -- The caller's frame is gone, and the pointer is kept for the one below.
    have evaluated : EdictVM.evalDispatchIterator (some cursor) (behindEval m cur) entered =
        (entered.popCodeFrame.setTail false).writeTopIp (behindEval m cur) := by
      rw [EdictVM.evalDispatchIterator, empty, tail, decide_eq_true last]
      rfl
    have left : (entered.popCodeFrame.setTail false).control.code = older := by
      show entered.control.code.tail = older
      rw [code]
      rfl
    rw [if_pos last, evaluated, GoesOnBehind, Undisturbed, if_neg (by omega)]
    unfold EdictVM.writeTopIp
    rw [left]
    cases older with
    | nil =>
      rw [left]
      exact ⟨fun _ below member => absurd member (by simp), fun _ => Or.inr ⟨last, rfl⟩⟩
    | cons below rest =>
      have written : ((entered.popCodeFrame.setTail false).writeFrameIp below.frame
          (behindEval m cur)).control.code =
            writeFrameIp (below :: rest) below.frame (Int32.ofNat (behindEval m cur)) := by
        rw [← left]
        rfl
      dsimp only
      rw [written]
      constructor
      · rintro (⟨ip, -, more⟩ | ⟨-, same⟩) other member
        · -- There is no frame more than before.
          have frames := congrArg List.length (congrArg (List.map Activation.frame) more)
          rw [map_frame_writeFrameIp] at frames
          simp at frames
        · obtain rfl : below = other := Option.some.inj member
          conv_lhs => rw [← same]
          exact readFrameIp_writeFrameIp
      · intro kept
        exact Or.inr ⟨last, writeFrameIp_self (kept below rfl)⟩
  · have evaluated : EdictVM.evalDispatchIterator (some cursor) (behindEval m cur) entered =
        entered.writeFrameIp cur.frame (behindEval m cur) := by
      rw [EdictVM.evalDispatchIterator, empty, tail, decide_eq_false last, if_neg (by simp),
        EdictVM.writeTopIp, code]
    have written : ((entered.writeFrameIp cur.frame (behindEval m cur)).writeFrameIp cur.frame
        (behindEval m cur)).control.code =
          writeFrameIp (cur :: older) cur.frame (Int32.ofNat (behindEval m cur)) := by
      have once : (entered.writeFrameIp cur.frame (behindEval m cur)).control.code =
          writeFrameIp (cur :: older) cur.frame (Int32.ofNat (behindEval m cur)) := by
        rw [← code]
        rfl
      have again : ((entered.writeFrameIp cur.frame (behindEval m cur)).writeFrameIp cur.frame
          (behindEval m cur)).control.code =
            writeFrameIp (entered.writeFrameIp cur.frame (behindEval m cur)).control.code
              cur.frame (Int32.ofNat (behindEval m cur)) := rfl
      rw [again, once]
      exact writeFrameIp_self readFrameIp_writeFrameIp
    rw [if_neg last, evaluated, written, GoesOnBehind, Undisturbed, if_pos (by omega)]
    constructor
    · rintro (⟨ip, behind, same⟩ | ⟨short, -⟩)
      · have near : behindEval m cur < 2 ^ 31 := behind ▸ Int32.toNatClampNeg_lt ip
        refine ⟨near, fun activation member object => ?_⟩
        -- The pointer would have been kept further down, where it is not what it was.
        have there : ∃ activation ∈ older, activation.frame.object = cur.frame.object :=
          ⟨activation, member, object⟩
        have now := @readFrameIp_writeFrameIp older cur (Int32.ofNat (behindEval m cur))
        rw [same, readFrameIp_cons_of_mem there] at now
        have before := pointer
        rw [readFrameIp_cons_of_mem there, now, Int32.toNatClampNeg_ofNat_of_lt near] at before
        omega
      · exact absurd short last
    · rintro ⟨near, once⟩
      exact Or.inl ⟨_, Int32.toNatClampNeg_ofNat_of_lt near, writeFrameIp_own once⟩

/--
An iterator is evaluated as it should be exactly when it yields nothing and no other frame's
pointer is hit.
-/
theorem iterates_iff (ready : AtIterator host stopCodeDepth cur older cursor m)
    (turned : EdictVM.turn host m stopCodeDepth = some next) :
    Iterates host stopCodeDepth cur.frame (behindEval m cur) older cursor.yields next ↔
      cursor.yields = [] ∧ Undisturbed cur older (behindEval m cur) := by
  cases yielded : cursor.yields with
  | nil =>
    rw [Iterates, ready.goesOnBehind_iff turned (IteratorCursor.collected_of_yields yielded)]
    exact ⟨fun right => ⟨rfl, right⟩, fun both => both.2⟩
  | cons function functions =>
    -- The first function is not evaluated next.
    refine ⟨fun right => absurd right.1 (ready.not_evaluatesNext turned function), fun none_ => ?_⟩
    cases none_.1

end Turn

section Instances

/-- A host in which zero is an iterator, and any other number nothing to evaluate. -/
def iterating (cursor : IteratorCursor Nat) : Host Nat Unit where
  null := 1
  payload := fun world _ => (world, 1)
  evaluation := fun _ value =>
    if value = 0 then .machine (EdictVM.evalDispatchIterator (some cursor)) else .nothing
  compile := fun _ => none
  handler := fun _ => none

def twoEvals : Activation :=
  ⟨⟨0, [VMOpcode.EVAL.byte, VMOpcode.EVAL.byte]⟩, 0⟩

/-- A machine that runs this code over the iterator. -/
def evaluating : EdictVM Nat Unit where
  control := ⟨[twoEvals], ⟨false, false, false, false⟩, "", false, .None, 0⟩
  dict := []
  stack := [[0]]
  func := []
  conditions := []
  world := ()
  fresh := 1

theorem evaluating_atIterator (cursor : IteratorCursor Nat) :
    AtIterator (iterating cursor) 0 twoEvals [] cursor evaluating where
  goesOn := rfl
  executes := rfl
  code := rfl
  opcode := rfl
  top := ⟨0, [], [], rfl, rfl⟩

/-- An iterator that is nowhere is passed. -/
theorem iterates_nowhere : ∃ next,
    EdictVM.turn (iterating .nowhere) evaluating 0 = some next ∧
      Iterates (iterating .nowhere) 0 twoEvals.frame 1 [] [] next :=
  ⟨_, rfl, (iterates_iff (evaluating_atIterator .nowhere) rfl).mpr
    ⟨rfl, by decide, fun _ member => absurd member List.not_mem_nil⟩⟩

/-- The only function of an iterator is not evaluated. -/
theorem iterates_fails : ∃ next,
    EdictVM.turn (iterating (.place 7 [])) evaluating 0 = some next ∧
      ¬Iterates (iterating (.place 7 [])) 0 twoEvals.frame 1 [] [7] next :=
  ⟨_, rfl, fun right =>
    (evaluating_atIterator (.place 7 [])).not_evaluatesNext rfl 7 right.1⟩

end Instances

end AgentC.Edict

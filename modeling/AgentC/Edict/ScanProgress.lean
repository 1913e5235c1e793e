import AgentC.Edict.CodeLoop
import AgentC.Library.Iteration

/-! Scanning gets on unless it comes to an `EVAL` that is the last byte of its frame. -/

namespace AgentC.Edict

theorem toNatClampNeg_ofNat_le {n ip : Nat} (large : 2 ^ 31 ≤ n) (near : n ≤ ip + 2 ^ 31 + 5)
    (small : ip < 2 ^ 31) : (Int32.ofNat n).toNatClampNeg ≤ ip := by
  show (Int32.ofNat n).toInt.toNat ≤ ip
  rw [Int32.toInt_ofNat', Int.bmod_def, show Int32.size = 4294967296 from rfl]
  -- Below 2 ^ 32 the kept pointer is negative, and above that it starts from zero again.
  split <;> omega

def instructionEnd (code : List UInt8) (ip : Nat) : Nat :=
  if (readByte code ip).1 = VMOpcode.PUSHEXT.byte then (readValue code (readByte code ip).2).2
  else (readByte code ip).2

namespace Control

variable {c next : Control} {cur : CodeFrame} {ip : Nat}

/-- Scanning is over at an instruction: a `CATCH` after a failure, or a payload of no known type. -/
def Stops (c : Control) (cur : CodeFrame) (ip : Nat) : Prop :=
  (readByte cur.data ip).1 = VMOpcode.CATCH.byte ∧ c.scan_depth = 0 ∧ c.scan_mode ≠ .FromCatch ∨
  (readByte cur.data ip).1 = VMOpcode.PUSHEXT.byte ∧
    (readValue cur.data (readByte cur.data ip).2).1 = none

/-- The pointer behind an instruction is kept: it is not an `EVAL` that ends its frame. -/
def Keeps (c : Control) (cur : CodeFrame) (ip : Nat) : Prop :=
  -- A `CATCH` that is dispatched again is not an `EVAL` and keeps its pointer in any case.
  (readByte cur.data ip).1 = VMOpcode.CATCH.byte ∧ c.scan_depth = 0 ∨
  c.tail_eval = false ∧
    ((readByte cur.data ip).1 = VMOpcode.EVAL.byte → ip + 1 < cur.data.length)

/-- Scanning gets past the instruction that it stands at. -/
def Passes (c : Control) : Prop :=
  ∀ activation older, c.code = activation :: older →
    let cur := activation.frame
    let ip := c.position cur
    ip < cur.data.length →
      c.Stops cur ip ∨ c.Keeps cur ip ∧ instructionEnd cur.data ip < 2 ^ 31

/-- An iteration advances the running frame's pointer, pops the frame or ends scanning. -/
def Progress (c next : Control) : Prop :=
  next.code.length < c.code.length ∨ next.scans = false ∨
    ∃ activation older, c.code = activation :: older ∧
      c.position activation.frame < next.position activation.frame

variable {op : UInt8} {behind stop : Nat}

theorem scans_writeScanned :
    (c.writeScanned cur op behind).scans = c.scans := by
  unfold writeScanned
  split <;> rfl

/-- The pointer is kept when no `EVAL` ends the frame. -/
theorem code_writeScanned_of (evals : c.tail_eval = false)
    (inside : op = VMOpcode.EVAL.byte → behind < cur.data.length) :
    (c.writeScanned cur op behind).code = writeFrameIp c.code cur (Int32.ofNat behind) := by
  unfold writeScanned
  rw [if_pos]
  by_cases eval : op = VMOpcode.EVAL.byte <;> simp_all

theorem code_writeScanned_of_not
    (last : ¬(c.tail_eval = false ∧ (op = VMOpcode.EVAL.byte → behind < cur.data.length))) :
    (c.writeScanned cur op behind).code = c.code := by
  unfold writeScanned
  rw [if_neg]
  by_cases eval : op = VMOpcode.EVAL.byte <;> simp_all

theorem writeScanned_spec (scans : c.scans = true) :
    (c.writeScanned cur op behind).scans = true ∧
    (c.tail_eval = false ∧ (op = VMOpcode.EVAL.byte → behind < cur.data.length) →
      (c.writeScanned cur op behind).code = writeFrameIp c.code cur (Int32.ofNat behind)) ∧
    (¬(c.tail_eval = false ∧ (op = VMOpcode.EVAL.byte → behind < cur.data.length)) →
      (c.writeScanned cur op behind).code = c.code) :=
  ⟨scans_writeScanned.trans scans,
    fun kept => code_writeScanned_of kept.1 kept.2, code_writeScanned_of_not⟩

theorem scanOp_spec (scans : c.scans = true) (inside : ip < cur.data.length) :
    ((c.scanOp cur ip).scans = true ↔ ¬c.Stops cur ip) ∧
    (¬c.Stops cur ip →
      (c.Keeps cur ip → (c.scanOp cur ip).code =
        writeFrameIp c.code cur (Int32.ofNat (instructionEnd cur.data ip))) ∧
      (¬c.Keeps cur ip → (c.scanOp cur ip).code = c.code)) := by
  unfold scanOp Stops Keeps instructionEnd
  rw [readByte_of_lt inside]
  generalize cur.data[ip] = op
  simp only
  by_cases push : op = VMOpcode.PUSHEXT.byte
  · subst push
    rw [if_pos rfl, if_pos rfl]
    obtain ⟨value, last⟩ := readValue cur.data (ip + 1)
    cases value with
    | some value =>
      have spec := @writeScanned_spec c cur VMOpcode.PUSHEXT.byte last scans
      simpa [VMOpcode.byte] using spec
    | none =>
      -- The error ends the loop.
      have stopped : (c.setError "Type error").scans = false := by simp [setError, Control.scans]
      simp only [scans_writeScanned, stopped]
      simp
  rw [if_neg push, if_neg push]
  by_cases throw : op = VMOpcode.THROW.byte
  · subst throw
    have spec := @writeScanned_spec { c with scan_depth := c.scan_depth + 1 } cur
      VMOpcode.THROW.byte (ip + 1) scans
    simpa [VMOpcode.byte] using spec
  rw [if_neg throw]
  by_cases catch_ : op = VMOpcode.CATCH.byte
  · subst catch_
    rw [if_pos rfl]
    by_cases depth : c.scan_depth = 0
    · rw [if_pos depth]
      -- Only a scan that a `CATCH` began goes on behind this one.
      unfold endScan
      cases mode : c.scan_mode with
      | FromCatch =>
        have again : c.state.error = false ∧ c.state.yield = false := by
          simp_all [Control.scans]
        simp [op_CATCH, Control.scans, VMOpcode.byte, depth, again]
      | None | FromThrow =>
        simp only [scans_writeScanned]
        simp [Control.scans, depth]
    · have spec := @writeScanned_spec { c with scan_depth := c.scan_depth - 1 } cur
        VMOpcode.CATCH.byte (ip + 1) scans
      rw [if_neg depth]
      simpa [VMOpcode.byte, depth] using spec
  · have spec := @writeScanned_spec c cur op (ip + 1) scans
    rw [if_neg catch_]
    simpa [push, catch_] using spec

theorem scanTurn_cases (turn : c.scanTurn stop = some next) :
    c.scans = true ∧ ∃ activation older, c.code = activation :: older ∧
      (activation.frame.data.length ≤ c.position activation.frame ∧ next = c.popScanned ∨
        c.position activation.frame < activation.frame.data.length ∧
        next = c.scanOp activation.frame (c.position activation.frame)) := by
  unfold scanTurn at turn
  split at turn
  · cases turn
  rename_i running
  refine ⟨by simpa using fun stops => running (Or.inl stops), ?_⟩
  split at turn
  · cases turn
  · rename_i activation older code
    refine ⟨activation, older, code, ?_⟩
    simp only at turn
    split at turn
    · rename_i ended
      exact Or.inl ⟨ended, (Option.some.inj turn).symm⟩
    · rename_i goes
      exact Or.inr ⟨Nat.lt_of_not_le goes, (Option.some.inj turn).symm⟩

theorem instructionEnd_bounds {data : List UInt8} (inside : ip < data.length) :
    ip < instructionEnd data ip ∧ instructionEnd data ip ≤ ip + 2 ^ 31 + 5 := by
  unfold instructionEnd
  rw [readByte_of_lt inside]
  split
  · have start : ip + 1 ≤ (readValue data (ip + 1)).2 := readValue_le (ip + 1)
    have stop : (readValue data (ip + 1)).2 ≤ _ := readValue_le_add (ip + 1)
    show ip < (readValue data (ip + 1)).2 ∧ (readValue data (ip + 1)).2 ≤ _
    omega
  · show ip < ip + 1 ∧ ip + 1 ≤ _
    omega

section Turn

variable {activation : Activation} {older : List Activation} (scans : c.scans = true)
  (code : c.code = activation :: older)
  (inside : c.position activation.frame < activation.frame.data.length)
  (goes : ¬c.Stops activation.frame (c.position activation.frame))

include scans inside goes

theorem frames_scanOp :
    (c.scanOp activation.frame (c.position activation.frame)).code.map Activation.frame =
      c.code.map Activation.frame := by
  obtain ⟨keeps, loses⟩ := (scanOp_spec scans inside).2 goes
  by_cases keep : c.Keeps activation.frame (c.position activation.frame)
  · rw [keeps keep, map_frame_writeFrameIp]
  · rw [loses keep]

include code

/-- The pointer is further exactly when it is kept and small enough to be read back. -/
theorem position_lt_scanOp :
    c.position activation.frame <
        (c.scanOp activation.frame (c.position activation.frame)).position activation.frame ↔
      c.Keeps activation.frame (c.position activation.frame) ∧
        instructionEnd activation.frame.data (c.position activation.frame) < 2 ^ 31 := by
  obtain ⟨keeps, loses⟩ := (scanOp_spec scans inside).2 goes
  obtain ⟨further, near⟩ := instructionEnd_bounds inside
  have small : c.position activation.frame < 2 ^ 31 := Int32.toNatClampNeg_lt _
  by_cases keep : c.Keeps activation.frame (c.position activation.frame)
  · have read : (c.scanOp activation.frame (c.position activation.frame)).position
        activation.frame = (Int32.ofNat (instructionEnd activation.frame.data
          (c.position activation.frame))).toNatClampNeg := by
      show (readFrameIp _ _).toNatClampNeg = _
      rw [keeps keep, code, readFrameIp_writeFrameIp]
    rw [read]
    rcases Nat.lt_or_ge (instructionEnd activation.frame.data (c.position activation.frame))
      (2 ^ 31) with reads | wraps
    · rw [Int32.toNatClampNeg_ofNat_of_lt reads]
      exact iff_of_true further ⟨keep, reads⟩
    · have back := toNatClampNeg_ofNat_le wraps near small
      exact iff_of_false (by omega) fun kept => by omega
  · -- The same instruction is scanned again.
    have same : (c.scanOp activation.frame (c.position activation.frame)).position
        activation.frame = c.position activation.frame := by
      show (readFrameIp _ _).toNatClampNeg = _
      rw [loses keep]
      rfl
    exact iff_of_false (by omega) fun kept => keep kept.1

end Turn

theorem passes_iff {activation : Activation} {older : List Activation}
    (code : c.code = activation :: older) :
    c.Passes ↔ (c.position activation.frame < activation.frame.data.length →
      c.Stops activation.frame (c.position activation.frame) ∨
      c.Keeps activation.frame (c.position activation.frame) ∧
        instructionEnd activation.frame.data (c.position activation.frame) < 2 ^ 31) := by
  refine ⟨fun passes => passes activation older code, fun past other rest same => ?_⟩
  obtain ⟨rfl, rfl⟩ := List.cons.inj (code.symm.trans same)
  exact past

theorem progress_iff (turn : c.scanTurn stop = some next) :
    c.Progress next ↔ c.Passes := by
  obtain ⟨scans, activation, older, code, ⟨ended, rfl⟩ | ⟨inside, rfl⟩⟩ := scanTurn_cases turn
  · -- The frame is over, so it is popped and nothing has to be passed.
    rw [passes_iff code]
    refine iff_of_true (Or.inl ?_) fun goes => absurd ended (Nat.not_le_of_lt goes)
    show c.code.tail.length < c.code.length
    rw [code]
    exact Nat.lt_succ_self _
  rw [passes_iff code]
  by_cases stops : c.Stops activation.frame (c.position activation.frame)
  · -- The loop ends, or the scan does.
    refine iff_of_true (Or.inr (Or.inl ?_)) fun _ => Or.inl stops
    exact Bool.eq_false_iff.mpr fun goes => (scanOp_spec scans inside).1.mp goes stops
  have goes := (scanOp_spec scans inside).1.mpr stops
  have length := congrArg List.length (frames_scanOp scans inside stops)
  simp only [List.length_map] at length
  constructor
  · rintro (popped | ended | ⟨_, _, same, advanced⟩) _
    · omega
    · rw [goes] at ended
      cases ended
    · obtain ⟨rfl, rfl⟩ := List.cons.inj (code.symm.trans same)
      exact Or.inr ((position_lt_scanOp scans code inside stops).mp advanced)
  · intro past
    have kept := (past inside).resolve_left stops
    exact Or.inr (Or.inr ⟨activation, older, code,
      (position_lt_scanOp scans code inside stops).mpr kept⟩)

def left (c : Control) : Nat :=
  if c.scans = true then
    match c.code with
    | [] => 0
    | activation :: _ => activation.frame.data.length - c.position activation.frame + 1
  else 0

theorem left_eq {activation : Activation} {older : List Activation} (scans : c.scans = true)
    (code : c.code = activation :: older) :
    c.left = activation.frame.data.length - c.position activation.frame + 1 := by
  unfold left
  rw [if_pos scans, code]

theorem left_lt (turn : c.scanTurn stop = some next) (progress : c.Progress next) :
    next.left < c.left := by
  obtain ⟨scans, activation, older, code, rest⟩ := scanTurn_cases turn
  rw [left_eq scans code]
  cases goes : next.scans with
  | false =>
    unfold left
    rw [goes]
    exact Nat.succ_pos _
  | true =>
    rcases rest with ⟨-, rfl⟩ | ⟨inside, rfl⟩
    · simp [popScanned, Control.scans] at goes
    · -- The pointer is further, and the running frame is the same.
      have stops := (scanOp_spec scans inside).1.mp goes
      have kept := ((passes_iff code).mp ((progress_iff turn).mp progress) inside).resolve_left stops
      have further := (position_lt_scanOp scans code inside stops).mpr kept
      have frames := frames_scanOp scans inside stops
      rw [code] at frames
      obtain ⟨first, others, codes, same, -⟩ := List.map_eq_cons_iff.mp frames
      rw [left_eq goes codes, same]
      omega

/--
Scanning makes progress in every iteration, and ends, exactly when it gets past every instruction
that it comes to.
-/
theorem scan_ends_iff (stop : Nat) (c : Control) :
    ((∀ s, Reaches (scanTurn stop) c s → ∀ next, s.scanTurn stop = some next → s.Progress next) ∧
      Halts (scanTurn stop) c) ↔
    ∀ s, Reaches (scanTurn stop) c s → ∀ next, s.scanTurn stop = some next → s.Passes := by
  constructor
  · rintro ⟨progress, -⟩ s reaches next turn
    exact (progress_iff turn).mp (progress s reaches next turn)
  · intro passes
    have progress : ∀ s, Reaches (scanTurn stop) c s → ∀ next, s.scanTurn stop = some next →
        s.Progress next :=
      fun s reaches next turn => (progress_iff turn).mpr (passes s reaches next turn)
    exact ⟨progress, halts_of_falls left fun s reaches next turn =>
      left_lt turn (progress s reaches next turn)⟩

/-- The code of `'x fail & y !` while it is scanned at a position, after a failure. -/
def skipping (ip : Int32) : Control where
  code := [⟨⟨0, [2, 2, 1, 0, 0, 0, 120, 30, 19, 2, 2, 1, 0, 0, 0, 121, 7, 11]⟩, ip⟩]
  state := ⟨false, false, false, true⟩
  error_message := ""
  tail_eval := false
  scan_mode := .FromThrow
  scan_depth := 0

/-- From behind the `&` its last `EVAL` is scanned for ever. -/
theorem scan_ends_fails :
    (∃ s, Reaches (scanTurn 0) (skipping 9) s ∧ s.scanTurn 0 = some s ∧ ¬s.Progress s) ∧
    ¬Halts (scanTurn 0) (skipping 9) := by
  -- The name and its `REF` are passed over, and the pointer stays at the last byte.
  have name : (skipping 9).scanTurn 0 = some (skipping 16) := by decide
  have ref : (skipping 16).scanTurn 0 = some (skipping 17) := by decide
  have loop : (skipping 17).scanTurn 0 = some (skipping 17) := by decide
  have reaches : Reaches (scanTurn 0) (skipping 9) (skipping 17) := .tail (.tail .refl name) ref
  refine ⟨⟨_, reaches, loop, ?_⟩, fun halts => not_halts_of_loop loop (halts.of_reaches reaches)⟩
  rintro (popped | ended | ⟨_, _, -, advanced⟩)
  · exact Nat.lt_irrefl _ popped
  · cases ended
  · exact Nat.lt_irrefl _ advanced

end Control

end AgentC.Edict

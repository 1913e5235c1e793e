import AgentC.Edict.Machine
import AgentC.Edict.ScanProgress

/-! Where a frame goes on after `&` has found a failure, and that `|` leaves its frame. -/

namespace AgentC.Edict

universe u v

section Alternatives

variable (data : List UInt8)

def instructionsFrom : Nat → Nat → List Nat
  | 0, _ => []
  -- An instruction is never empty, so as many steps as bytes come to the end.
  | fuel + 1, ip =>
    if ip < data.length then ip :: instructionsFrom fuel (instructionEnd data ip) else []

/-- The first `|` at depth zero among instructions; every `&` on the way has a `|` of its own. -/
def alternative : Nat → List Nat → Option Nat
  | _, [] => none
  | depth, start :: rest =>
    if data[start]? = some VMOpcode.THROW.byte then alternative (depth + 1) rest
    else if data[start]? = some VMOpcode.CATCH.byte then
      match depth with
      | 0 => some start
      | depth + 1 => alternative depth rest
    else alternative depth rest

def behind (ip : Nat) : List Nat :=
  instructionsFrom data data.length (instructionEnd data ip)

/-- The `|` at which the frame goes on: there is one for an `&`, and none for a `|`. -/
def target (ip : Nat) : Option Nat :=
  if data[ip]? = some VMOpcode.THROW.byte then alternative data 0 (behind data ip) else none

def upTo (place : Option Nat) (starts : List Nat) : List Nat :=
  match place with
  | some place => starts.takeWhile (· < place)
  | none => starts

/-- Where a frame goes on: behind the `|`, or at its end. -/
def landing (place : Option Nat) : Nat :=
  match place with
  | some place => place + 1
  | none => data.length

/-- Scanning passes over an instruction: its payload has a type, and it is not a last `EVAL`. -/
def Passable (start : Nat) : Prop :=
  (data[start]? = some VMOpcode.PUSHEXT.byte → (readValue data (start + 1)).1 ≠ none) ∧
  (data[start]? = some VMOpcode.EVAL.byte → start + 1 < data.length)

instance (start : Nat) : Decidable (Passable data start) :=
  inferInstanceAs (Decidable
    ((data[start]? = some VMOpcode.PUSHEXT.byte → (readValue data (start + 1)).1 ≠ none) ∧
    (data[start]? = some VMOpcode.EVAL.byte → start + 1 < data.length)))

def depthBehind (start depth : Nat) : Nat :=
  if data[start]? = some VMOpcode.THROW.byte then depth + 1
  else if data[start]? = some VMOpcode.CATCH.byte then depth - 1
  else depth

/-- Where a scan from a depth on comes to its end: one that a `|` began does so with the frame. -/
def goal (mode : ScanMode) (depth : Nat) (starts : List Nat) : Option Nat :=
  if mode = .FromCatch then none else alternative data depth starts

variable {data} {fuel ip depth : Nat} {starts : List Nat} {mode : ScanMode}

theorem instructionEnd_le (inside : ip < data.length) : instructionEnd data ip ≤ data.length := by
  -- Reading past the end of the frame leaves the pointer there.
  unfold instructionEnd
  rw [readByte_of_lt inside]
  split
  · exact readValue_le_length inside
  · exact inside

theorem instructionEnd_of_ne {op : UInt8} (here : data[ip]? = some op)
    (bare : op ≠ VMOpcode.PUSHEXT.byte) : instructionEnd data ip = ip + 1 := by
  obtain ⟨inside, rfl⟩ := List.getElem?_eq_some_iff.mp here
  unfold instructionEnd
  rw [readByte_of_lt inside, if_neg bare]

theorem instructionsFrom_of_lt (inside : ip < data.length) :
    instructionsFrom data (fuel + 1) ip =
      ip :: instructionsFrom data fuel (instructionEnd data ip) :=
  if_pos inside

theorem instructionsFrom_of_ge (ended : data.length ≤ ip) : instructionsFrom data fuel ip = [] := by
  cases fuel with
  | zero => rfl
  | succ fuel => exact if_neg (Nat.not_lt.mpr ended)

theorem bounds_of_mem {start : Nat} (there : start ∈ instructionsFrom data fuel ip) :
    ip ≤ start ∧ start < data.length := by
  induction fuel generalizing ip with
  | zero => cases there
  | succ fuel ih =>
    unfold instructionsFrom at there
    split at there
    · rename_i inside
      rcases List.mem_cons.mp there with rfl | later
      · exact ⟨Nat.le_refl _, inside⟩
      · -- The instructions behind this one start further on.
        have further := (Control.instructionEnd_bounds inside).1
        have bounds := ih later
        omega
    · cases there

theorem mem_of_alternative {place : Nat} (found : alternative data depth starts = some place) :
    place ∈ starts := by
  -- The induction is on the instructions, and the depth changes on the way.
  induction starts generalizing depth with
  | nil => cases found
  | cons start starts ih =>
    unfold alternative at found
    split at found
    · exact List.mem_cons_of_mem _ (ih found)
    split at found
    · cases depth with
      | zero =>
        cases found
        exact List.mem_cons_self
      | succ depth => exact List.mem_cons_of_mem _ (ih found)
    · exact List.mem_cons_of_mem _ (ih found)

theorem mem_of_goal {place : Nat} (found : goal data mode depth starts = some place) :
    place ∈ starts := by
  unfold goal at found
  split at found
  · cases found
  · exact mem_of_alternative found

/-- A scan ends at a `|` at depth zero, unless it was a `|` that began it. -/
theorem goal_cons_of_stops (caught : data[ip]? = some VMOpcode.CATCH.byte)
    (throws : mode ≠ .FromCatch) : goal data mode 0 (ip :: starts) = some ip := by
  unfold goal alternative
  rw [if_neg throws, caught, if_neg (by decide), if_pos rfl]

theorem goal_cons_of_goes
    (goes : ¬(data[ip]? = some VMOpcode.CATCH.byte ∧ depth = 0 ∧ mode ≠ .FromCatch)) :
    goal data mode depth (ip :: starts) = goal data mode (depthBehind data ip depth) starts := by
  unfold goal
  by_cases catches : mode = .FromCatch
  · rw [if_pos catches, if_pos catches]
  rw [if_neg catches, if_neg catches, alternative.eq_def data depth (ip :: starts)]
  dsimp only
  unfold depthBehind
  by_cases throw : data[ip]? = some VMOpcode.THROW.byte
  · rw [if_pos throw, if_pos throw]
  rw [if_neg throw, if_neg throw]
  by_cases caught : data[ip]? = some VMOpcode.CATCH.byte
  · rw [if_pos caught, if_pos caught]
    cases depth with
    | zero => exact absurd ⟨caught, rfl, catches⟩ goes
    | succ depth => rfl
  · rw [if_neg caught, if_neg caught]

theorem mem_upTo_cons {place : Option Nat} {start : Nat} (later : ∀ p ∈ place, ip < p) :
    start ∈ upTo place (ip :: starts) ↔ start = ip ∨ start ∈ upTo place starts := by
  cases place with
  | none => exact List.mem_cons
  | some p =>
    have before : decide (ip < p) = true := decide_eq_true (later p rfl)
    simp only [upTo, List.takeWhile_cons, before, if_true, List.mem_cons]

theorem upTo_self : upTo (some ip) (ip :: starts) = [] := by
  simp [upTo]

theorem goal_of_ge (ended : data.length ≤ ip) :
    goal data mode depth (instructionsFrom data fuel ip) = none := by
  rw [instructionsFrom_of_ge ended]
  unfold goal alternative
  exact ite_self _

theorem goal_of_stops (inside : ip < data.length) (caught : data[ip]? = some VMOpcode.CATCH.byte)
    (throws : mode ≠ .FromCatch) :
    goal data mode 0 (instructionsFrom data (fuel + 1) ip) = some ip ∧
      upTo (some ip) (instructionsFrom data (fuel + 1) ip) = [] := by
  rw [instructionsFrom_of_lt inside]
  exact ⟨goal_cons_of_stops caught throws, upTo_self⟩

theorem goal_of_goes (inside : ip < data.length)
    (goes : ¬(data[ip]? = some VMOpcode.CATCH.byte ∧ depth = 0 ∧ mode ≠ .FromCatch)) :
    let rest := instructionsFrom data fuel (instructionEnd data ip)
    let place := goal data mode (depthBehind data ip depth) rest
    goal data mode depth (instructionsFrom data (fuel + 1) ip) = place ∧
      ∀ start, start ∈ upTo place (instructionsFrom data (fuel + 1) ip) ↔
        start = ip ∨ start ∈ upTo place rest := by
  intro rest place
  rw [instructionsFrom_of_lt inside]
  refine ⟨goal_cons_of_goes goes, fun start => mem_upTo_cons fun p there => ?_⟩
  -- The instructions behind this one start further on.
  have further := (Control.instructionEnd_bounds inside).1
  have bounds := bounds_of_mem (mem_of_goal there)
  omega

theorem le_landing (inside : ip ≤ data.length) :
    ip ≤ landing data (goal data mode depth (instructionsFrom data fuel ip)) := by
  cases place : goal data mode depth (instructionsFrom data fuel ip) with
  | none => exact inside
  | some place =>
    have bounds := bounds_of_mem (mem_of_goal place)
    exact Nat.le_succ_of_le bounds.1

theorem landing_le :
    landing data (goal data mode depth (instructionsFrom data fuel ip)) ≤ data.length := by
  cases place : goal data mode depth (instructionsFrom data fuel ip) with
  | none => exact Nat.le_refl _
  | some place => exact (bounds_of_mem (mem_of_goal place)).2

end Alternatives

theorem writeFrameIp_writeFrameIp {code : List Activation} {frame : CodeFrame} {ip next : Int32} :
    writeFrameIp (writeFrameIp code frame ip) frame next = writeFrameIp code frame next := by
  have same : findCodeFrameIndex frame (writeFrameIp code frame ip) = findCodeFrameIndex frame code :=
    findCodeFrameIndex_congr map_frame_writeFrameIp
  cases found : findCodeFrameIndex frame code with
  | none => simp only [writeFrameIp, found]
  | some index =>
    have first : writeFrameIp code frame ip =
        code.modify index fun activation => { activation with ip := ip } := by
      simp only [writeFrameIp, found]
    rw [first] at same ⊢
    simp only [writeFrameIp, same, found]
    exact List.modify_modify_eq ..

theorem absent_of_findCodeFrameIndex {code : List Activation} {frame : CodeFrame}
    (found : findCodeFrameIndex frame code = none) :
    ∀ activation ∈ code, activation.frame.object ≠ frame.object := by
  induction code with
  | nil => exact fun _ member => absurd member List.not_mem_nil
  | cons first older ih =>
    unfold findCodeFrameIndex at found
    split at found
    · cases found
    · rename_i deeper
      split at found
      · cases found
      · rename_i differs
        exact List.forall_mem_cons.mpr ⟨differs, ih deeper⟩

namespace Control

variable {c : Control} {activation : Activation} {older : List Activation} {stop fuel ip depth : Nat}

def skippingAt (c : Control) (cur : CodeFrame) (ip depth : Nat) : Control :=
  { c with code := writeFrameIp c.code cur (Int32.ofNat ip), scan_depth := depth }

def landed (c : Control) (code : List Activation) : Control :=
  { c with
    code
    state := { c.state with scanning := false }
    scan_mode := .None
    scan_depth := 0 }

/-- The code that the machine goes on with: behind the `|`, or in the callers. -/
def landedCode (c : Control) (cur : CodeFrame) (place : Option Nat) : List Activation :=
  match place with
  | some place => writeFrameIp c.code cur (Int32.ofNat (place + 1))
  | none => (writeFrameIp c.code cur (Int32.ofNat cur.data.length)).tail

/-- A scan that goes on in a frame with callers. -/
structure Skipping (c : Control) (activation : Activation) (older : List Activation) (stop : Nat) :
    Prop where
  code : c.code = activation :: older
  scans : c.scans = true
  evals : c.tail_eval = false
  above : stop < c.code.length

/-- A `CATCH` at depth zero after a failure, at which a scan comes to its end. -/
def Caught (c : Control) (cur : CodeFrame) (ip depth : Nat) : Prop :=
  cur.data[ip]? = some VMOpcode.CATCH.byte ∧ depth = 0 ∧ c.scan_mode ≠ .FromCatch

def Blocked (stop : Nat) (c : Control) : Prop :=
  c.scanTurn stop = some c ∨ c.state.error = true

def StandsAt (c : Control) (cur : CodeFrame) (starts : List Nat) (s : Control) : Prop :=
  ∃ ip depth, s = c.skippingAt cur ip depth ∧ (ip ∈ starts ∨ ip = cur.data.length) ∧ ip < 2 ^ 31

/-- The pointer behind an instruction is kept when it is not an `EVAL` that ends its frame. -/
theorem writeScanned_skippingAt {cur : CodeFrame} {op : UInt8} {behind : Nat}
    (evals : c.tail_eval = false) (inside : op = VMOpcode.EVAL.byte → behind < cur.data.length) :
    (c.skippingAt cur ip depth).writeScanned cur op behind = c.skippingAt cur behind depth := by
  unfold writeScanned
  rw [if_pos]
  · unfold skippingAt
    rw [writeFrameIp_writeFrameIp]
  · by_cases eval : op = VMOpcode.EVAL.byte <;> simp_all [skippingAt]

theorem scanTurn_landed (code : List Activation) : (c.landed code).scanTurn stop = none := by
  unfold scanTurn
  exact if_pos (Or.inl rfl)

namespace Skipping

variable (skipping : c.Skipping activation older stop)

include skipping

theorem position (small : ip < 2 ^ 31) :
    (c.skippingAt activation.frame ip depth).position activation.frame = ip := by
  unfold Control.position skippingAt
  dsimp only
  rw [skipping.code, readFrameIp_writeFrameIp, Int32.toNatClampNeg_ofNat_of_lt small]

theorem frames : (c.skippingAt activation.frame ip depth).code.map Activation.frame =
    activation.frame :: older.map Activation.frame := by
  unfold skippingAt
  dsimp only
  rw [map_frame_writeFrameIp, skipping.code, List.map_cons]

theorem scanTurn_eq (small : ip < 2 ^ 31) :
    (c.skippingAt activation.frame ip depth).scanTurn stop = some
      (if activation.frame.data.length ≤ ip then (c.skippingAt activation.frame ip depth).popScanned
      else (c.skippingAt activation.frame ip depth).scanOp activation.frame ip) := by
  have frames := @frames c activation older stop ip depth skipping
  have same : (c.skippingAt activation.frame ip depth).code.length = c.code.length := by
    rw [← List.length_map, frames, skipping.code]
    simp
  have above := skipping.above
  obtain ⟨first, others, code, top, -⟩ := List.map_eq_cons_iff.mp frames
  have running : ¬((c.skippingAt activation.frame ip depth).scans = false ∨
      (c.skippingAt activation.frame ip depth).code.length ≤ stop) := by
    rw [show (c.skippingAt activation.frame ip depth).scans = true from skipping.scans]
    simp only [Bool.true_eq_false, false_or]
    omega
  unfold scanTurn
  rw [if_neg running, code]
  simp only [top, skipping.position small]
  split <;> rfl

theorem scanTurn_ended (small : activation.frame.data.length < 2 ^ 31) :
    (c.skippingAt activation.frame activation.frame.data.length depth).scanTurn stop =
      some (c.landed (c.landedCode activation.frame none)) := by
  rw [skipping.scanTurn_eq small, if_pos (Nat.le_refl _)]
  rfl

theorem scanTurn_inside (small : ip < 2 ^ 31) (inside : ip < activation.frame.data.length) :
    (c.skippingAt activation.frame ip depth).scanTurn stop =
      some ((c.skippingAt activation.frame ip depth).scanOp activation.frame ip) := by
  rw [skipping.scanTurn_eq small, if_neg (Nat.not_le_of_lt inside)]

/-- A `CATCH` that ends the scan leaves the machine behind it. -/
theorem scanOp_caught (inside : ip < activation.frame.data.length)
    (caught : c.Caught activation.frame ip depth) :
    (c.skippingAt activation.frame ip depth).scanOp activation.frame ip =
      c.landed (c.landedCode activation.frame (some ip)) := by
  obtain ⟨op, rfl, mode⟩ := caught
  rw [List.getElem?_eq_getElem inside, Option.some.injEq] at op
  have push : VMOpcode.CATCH.byte ≠ VMOpcode.PUSHEXT.byte := by decide
  have throw : VMOpcode.CATCH.byte ≠ VMOpcode.THROW.byte := by decide
  have eval : VMOpcode.CATCH.byte ≠ VMOpcode.EVAL.byte := by decide
  unfold scanOp
  rw [readByte_of_lt inside, op]
  dsimp only
  rw [if_neg push, if_neg throw, if_pos rfl, if_pos (by rfl)]
  have ended : (c.skippingAt activation.frame ip 0).endScan activation.frame VMOpcode.CATCH.byte
      (ip + 1) = (c.landed (writeFrameIp c.code activation.frame (Int32.ofNat ip))).writeScanned
        activation.frame VMOpcode.CATCH.byte (ip + 1) := by
    unfold endScan
    cases behind : c.scan_mode with
    | FromCatch => exact absurd behind mode
    | None | FromThrow => simp only [skippingAt, behind, landed]
  rw [ended]
  unfold writeScanned
  have kept : (c.landed (writeFrameIp c.code activation.frame (Int32.ofNat ip))).tail_eval = false :=
    skipping.evals
  rw [kept, if_pos (by simp [eval])]
  simp only [landed, landedCode, writeFrameIp_writeFrameIp, skipping.evals]

theorem scanOp_passed (inside : ip < activation.frame.data.length)
    (passable : Passable activation.frame.data ip) (goes : ¬c.Caught activation.frame ip depth) :
    (c.skippingAt activation.frame ip depth).scanOp activation.frame ip =
      c.skippingAt activation.frame (instructionEnd activation.frame.data ip)
        (depthBehind activation.frame.data ip depth) := by
  unfold Passable at passable
  unfold Caught at goes
  unfold scanOp instructionEnd depthBehind
  rw [readByte_of_lt inside]
  rw [List.getElem?_eq_getElem inside] at passable goes ⊢
  simp only [Option.some.injEq] at passable goes ⊢
  generalize activation.frame.data[ip] = op at passable goes ⊢
  obtain ⟨readable, follows⟩ := passable
  by_cases push : op = VMOpcode.PUSHEXT.byte
  · subst push
    replace readable := readable rfl
    generalize readValue activation.frame.data (ip + 1) = read at readable ⊢
    obtain ⟨value, behind⟩ := read
    cases value with
    | none => exact absurd rfl readable
    | some value =>
      rw [if_pos rfl, if_pos rfl, if_neg (by decide), if_neg (by decide)]
      exact writeScanned_skippingAt skipping.evals fun eval => absurd eval (by decide)
  rw [if_neg push, if_neg push]
  by_cases throw : op = VMOpcode.THROW.byte
  · subst throw
    rw [if_pos rfl, if_pos rfl]
    exact @writeScanned_skippingAt c ip (depth + 1) _ _ _ skipping.evals follows
  rw [if_neg throw, if_neg throw]
  by_cases caught : op = VMOpcode.CATCH.byte
  · subst caught
    rw [if_pos rfl, if_pos rfl]
    cases depth with
    | succ depth =>
      have deep : ¬((depth + 1 : Nat) : Int) = 0 := by omega
      have less : ((depth + 1 : Nat) : Int) - 1 = (depth : Nat) := by omega
      show ite (((depth + 1 : Nat) : Int) = 0) _ _ = _
      rw [if_neg deep]
      have written := @writeScanned_skippingAt c ip depth activation.frame VMOpcode.CATCH.byte
        (ip + 1) skipping.evals follows
      have same : { c.skippingAt activation.frame ip (depth + 1) with
          scan_depth := ((depth + 1 : Nat) : Int) - 1 } = c.skippingAt activation.frame ip depth := by
        simp only [skippingAt, less]
      rw [← same] at written
      exact written
    | zero =>
      -- Only a scan that a `CATCH` began goes on behind one at depth zero.
      have mode : c.scan_mode = .FromCatch := Classical.not_not.mp fun other => goes ⟨rfl, rfl, other⟩
      have scanning : c.state.scanning = true := by
        have scans := skipping.scans
        simp only [Control.scans, Bool.and_eq_true] at scans
        exact scans.1.1
      show ite ((0 : Int) = 0) _ _ = _
      rw [if_pos rfl]
      unfold endScan
      have same : { c.state with scanning := true } = c.state := by rw [← scanning]
      simp only [skippingAt, mode, op_CATCH, writeFrameIp_writeFrameIp, same, skipping.evals]
      rw [← mode, ← skipping.evals]
      rfl
  · rw [if_neg caught, if_neg caught]
    exact writeScanned_skippingAt skipping.evals follows

omit skipping in
theorem ends_of_landing {s : Control} {code : List Activation} {starts : List Nat}
    {cur : CodeFrame} (stands : c.StandsAt cur starts s)
    (lands : s.scanTurn stop = some (c.landed code)) :
    EndsIn (scanTurn stop) s (c.landed code) ∧
      ∀ t, Reaches (scanTurn stop) s t → t = c.landed code ∨ c.StandsAt cur starts t := by
  refine ⟨⟨.head lands .refl, scanTurn_landed code⟩, fun t reaches => ?_⟩
  rcases reaches.cases_step lands with rfl | reaches
  · exact Or.inr stands
  · rcases reaches.cases_head with rfl | ⟨next, stepped, _⟩
    · exact Or.inl rfl
    · rw [scanTurn_landed] at stepped
      cases stepped

/--
A scan passes over the instructions up to its end when each of them can be passed over, and it
stands at one of them until it has ended.
-/
theorem scan_spec : ∀ fuel ip depth, ip ≤ activation.frame.data.length →
    activation.frame.data.length - ip ≤ fuel →
    let starts := instructionsFrom activation.frame.data fuel ip
    let place := goal activation.frame.data c.scan_mode depth starts
    landing activation.frame.data place < 2 ^ 31 →
    (∀ start ∈ upTo place starts, Passable activation.frame.data start) →
    EndsIn (scanTurn stop) (c.skippingAt activation.frame ip depth)
        (c.landed (c.landedCode activation.frame place)) ∧
      ∀ s, Reaches (scanTurn stop) (c.skippingAt activation.frame ip depth) s →
        s = c.landed (c.landedCode activation.frame place) ∨
          c.StandsAt activation.frame starts s := by
  intro fuel
  -- The induction is on the instructions that are left.
  induction fuel with
  | zero =>
    intro ip depth inside left starts place small passable
    obtain rfl : ip = activation.frame.data.length := by omega
    have none_ : place = none := goal_of_ge (Nat.le_refl _)
    rw [none_] at small ⊢
    exact ends_of_landing ⟨_, _, rfl, Or.inr rfl, small⟩ (skipping.scanTurn_ended small)
  | succ fuel ih =>
    intro ip depth inside left starts place small passable
    have near : ip < 2 ^ 31 := Nat.lt_of_le_of_lt (le_landing inside) small
    rcases Nat.eq_or_lt_of_le inside with rfl | inside
    · have none_ : place = none := goal_of_ge (Nat.le_refl _)
      rw [none_]
      exact ends_of_landing ⟨_, _, rfl, Or.inr rfl, near⟩ (skipping.scanTurn_ended near)
    have first : starts = ip :: instructionsFrom activation.frame.data fuel
        (instructionEnd activation.frame.data ip) := instructionsFrom_of_lt inside
    have stands : c.StandsAt activation.frame starts (c.skippingAt activation.frame ip depth) :=
      ⟨ip, depth, rfl, Or.inl (first ▸ List.mem_cons_self), near⟩
    have turn := @scanTurn_inside c activation older stop ip depth skipping near inside
    by_cases caught : c.Caught activation.frame ip depth
    · -- The scan ends here.
      have here : place = some ip := by
        obtain ⟨op, rfl, throws⟩ := caught
        exact (goal_of_stops inside op throws).1
      rw [skipping.scanOp_caught inside caught, ← here] at turn
      exact ends_of_landing stands turn
    obtain ⟨onward, members⟩ := @goal_of_goes _ fuel ip depth c.scan_mode inside caught
    rw [show place = _ from onward] at small passable ⊢
    have own := passable ip ((members ip).mpr (Or.inl rfl))
    have further := (Control.instructionEnd_bounds inside).1
    rw [skipping.scanOp_passed inside own caught] at turn
    obtain ⟨ends, passes⟩ := ih _ _ (instructionEnd_le inside) (by omega) small
      fun start member => passable start ((members start).mpr (Or.inr member))
    refine ⟨ends.head turn, fun s reaches => ?_⟩
    rcases reaches.cases_step turn with rfl | reaches
    · exact Or.inr stands
    · refine (passes s reaches).imp_right ?_
      rintro ⟨p, d, same, there, small⟩
      exact ⟨p, d, same, there.imp_left fun member => first ▸ List.mem_cons_of_mem _ member, small⟩

omit skipping in
theorem scanOp_unreadable {s : Control} {cur : CodeFrame} (inside : ip < cur.data.length)
    (push : cur.data[ip]? = some VMOpcode.PUSHEXT.byte)
    (unreadable : (readValue cur.data (ip + 1)).1 = none) :
    (s.scanOp cur ip).state.error = true := by
  rw [List.getElem?_eq_getElem inside, Option.some.injEq] at push
  unfold scanOp
  rw [readByte_of_lt inside, push]
  dsimp only
  rw [if_pos rfl]
  generalize readValue cur.data (ip + 1) = read at unreadable ⊢
  obtain ⟨value, behind⟩ := read
  obtain rfl : value = none := unreadable
  show ((s.setError "Type error").writeScanned cur VMOpcode.PUSHEXT.byte behind).state.error = true
  unfold writeScanned
  split <;> rfl

omit skipping in
/-- At an `EVAL` that is the last byte of its frame nothing changes. -/
theorem scanOp_lastEval {s : Control} {cur : CodeFrame} (inside : ip < cur.data.length)
    (eval : cur.data[ip]? = some VMOpcode.EVAL.byte) (last : cur.data.length ≤ ip + 1) :
    s.scanOp cur ip = s := by
  rw [List.getElem?_eq_getElem inside, Option.some.injEq] at eval
  have push : VMOpcode.EVAL.byte ≠ VMOpcode.PUSHEXT.byte := by decide
  have throw : VMOpcode.EVAL.byte ≠ VMOpcode.THROW.byte := by decide
  have catch_ : VMOpcode.EVAL.byte ≠ VMOpcode.CATCH.byte := by decide
  unfold scanOp
  rw [readByte_of_lt inside, eval]
  dsimp only
  rw [if_neg push, if_neg throw, if_neg catch_]
  unfold writeScanned
  rw [if_neg]
  simpa using fun _ => last

theorem exists_blocked (short : activation.frame.data.length < 2 ^ 31) :
    ∀ fuel ip depth, ip ≤ activation.frame.data.length →
    let starts := instructionsFrom activation.frame.data fuel ip
    let place := goal activation.frame.data c.scan_mode depth starts
    (∃ start ∈ upTo place starts, ¬Passable activation.frame.data start) →
    ∃ s, Reaches (scanTurn stop) (c.skippingAt activation.frame ip depth) s ∧ s.Blocked stop := by
  intro fuel
  -- The induction is on the instructions up to the one that blocks the scan.
  induction fuel with
  | zero =>
    rintro ip depth inside starts place ⟨start, member, -⟩
    have none_ : place = none := ite_self _
    rw [none_] at member
    cases member
  | succ fuel ih =>
    rintro ip depth inside starts place ⟨start, member, impassable⟩
    rcases Nat.eq_or_lt_of_le inside with rfl | inside
    · have none_ : place = none := goal_of_ge (Nat.le_refl _)
      have ended : starts = [] := instructionsFrom_of_ge (Nat.le_refl _)
      rw [none_, ended] at member
      cases member
    have turn := @scanTurn_inside c activation older stop ip depth skipping (by omega) inside
    by_cases caught : c.Caught activation.frame ip depth
    · -- Nothing is in front of a scan that ends here.
      obtain ⟨op, rfl, throws⟩ := caught
      obtain ⟨here, front⟩ := @goal_of_stops _ fuel ip c.scan_mode inside op throws
      rw [show place = _ from here, show upTo _ starts = _ from front] at member
      cases member
    by_cases own : Passable activation.frame.data ip
    · obtain ⟨onward, members⟩ := @goal_of_goes _ fuel ip depth c.scan_mode inside caught
      rw [show place = _ from onward, show start ∈ upTo _ starts ↔ _ from members start] at member
      rw [skipping.scanOp_passed inside own caught] at turn
      have behind := member.resolve_left fun here => impassable (here ▸ own)
      obtain ⟨s, reaches, blocked⟩ := ih _ (depthBehind activation.frame.data ip depth)
        (instructionEnd_le inside) ⟨start, behind, impassable⟩
      exact ⟨s, .head turn reaches, blocked⟩
    rcases not_and_or.mp own with unreadable | last
    · obtain ⟨push, none_⟩ := Classical.not_imp.mp unreadable
      exact ⟨_, .head turn .refl, Or.inr (scanOp_unreadable inside push (not_not.mp none_))⟩
    · obtain ⟨eval, ended⟩ := Classical.not_imp.mp last
      rw [scanOp_lastEval inside eval (Nat.le_of_not_lt ended)] at turn
      exact ⟨_, .refl, Or.inl turn⟩

end Skipping

end Control

theorem tail_writeFrameIp_iff {activation : Activation} {older : List Activation} {ip : Int32}
    (differs : readFrameIp (activation :: older) activation.frame ≠ ip) :
    (writeFrameIp (activation :: older) activation.frame ip).tail = older ↔
      ∀ caller ∈ older, caller.frame.object ≠ activation.frame.object := by
  cases found : findCodeFrameIndex activation.frame older with
  | none =>
    have absent := absent_of_findCodeFrameIndex found
    refine iff_of_true ?_ absent
    simp only [writeFrameIp, findCodeFrameIndex_top absent]
    rfl
  | some index =>
    -- The pointer that was kept is the one of a caller.
    have place : findCodeFrameIndex activation.frame (activation :: older) = some (index + 1) := by
      simp only [findCodeFrameIndex, found]
    refine iff_of_false (fun same => differs ?_) fun absent => ?_
    · simp only [writeFrameIp, place, List.modify_succ_cons, List.tail_cons] at same
      have inside := findCodeFrameIndex_lt found
      have kept := congrArg (·[index]?) same
      simp only [List.getElem?_modify_eq, List.getElem?_eq_getElem inside, Option.map_eq_map,
        Option.map_some, Option.some.injEq] at kept
      simp only [readFrameIp, place, List.getElem?_cons_succ, List.getElem?_eq_getElem inside,
        Option.map_some, Option.getD_some]
      exact (congrArg Activation.ip kept).symm
    · rw [findCodeFrameIndex_absent absent] at found
      cases found

namespace EdictVM

variable {V : Type u} {H : Type v} (host : Host V H)

/-- One iteration of `runCodeLoop` while it is skipping code. -/
def skipTurn (stopCodeDepth : Nat) (m : EdictVM V H) : Option (EdictVM V H) :=
  if m.control.state.scanning then turn host m stopCodeDepth else none

/-- The machine is skipping code, and stands at an instruction of the frame or at its end. -/
def AtInstruction (m : EdictVM V H) (activation : Activation) (older : List Activation)
    (s : EdictVM V H) : Prop :=
  let cur := activation.frame
  s.control.code.map Activation.frame = cur :: older.map Activation.frame ∧
  (s.control.position cur ∈ behind cur.data (m.control.position cur) ∨
    s.control.position cur = cur.data.length)

/--
The machine when it has skipped code: only the code stack and the conditions have changed.

It goes on behind a `|` of the running frame, or else in the callers, which are as they were.
-/
def Resumed (m : EdictVM V H) (activation : Activation) (older : List Activation)
    (target : Option Nat) (conditions : List V) (s : EdictVM V H) : Prop :=
  s = { m with
    conditions
    control := { m.control with
      code := s.control.code
      tail_eval := false
      scan_mode := .None
      scan_depth := 0 } } ∧
  match target with
  | some place =>
    s.control.code.map Activation.frame = activation.frame :: older.map Activation.frame ∧
      s.control.position activation.frame = place + 1
  | none => s.control.code = older

/-- The instruction at the running frame's pointer skips code as it has to. -/
def Skips (stopCodeDepth : Nat) (m : EdictVM V H) (activation : Activation)
    (older : List Activation) (conditions : List V) : Prop :=
  let cur := activation.frame
  ∃ first, turn host m stopCodeDepth = some first ∧
    (∃ s, EndsIn (skipTurn host stopCodeDepth) first s ∧
      Resumed m activation older (target cur.data (m.control.position cur)) conditions s) ∧
    ∀ s, Reaches (skipTurn host stopCodeDepth) first s → s.control.state.scanning = true →
      AtInstruction m activation older s

/-- What begins to skip code: an `&` that has found a failure, or a `|`. -/
def Begins (m : EdictVM V H) (op : Option UInt8) (mode : ScanMode) (conditions : List V) : Prop :=
  op = some VMOpcode.THROW.byte ∧ mode = .FromThrow ∧ (∃ failure, m.conditions = failure :: conditions) ∨
  op = some VMOpcode.CATCH.byte ∧ mode = .FromCatch ∧ m.conditions = conditions

def begun (c : Control) (mode : ScanMode) : Control :=
  { c with
    state := { c.state with scanning := true }
    tail_eval := false
    scan_mode := mode
    scan_depth := 0 }

/-- Each instruction to skip can be passed over, and no caller shares a frame that is left. -/
def Skippable (activation : Activation) (older : List Activation) (ip : Nat) : Prop :=
  let data := activation.frame.data
  (∀ start ∈ upTo (target data ip) (behind data ip), Passable data start) ∧
  (target data ip = none →
    ∀ caller ∈ older, caller.frame.object ≠ activation.frame.object)

instance (activation : Activation) (older : List Activation) (ip : Nat) :
    Decidable (Skippable activation older ip) :=
  inferInstanceAs (Decidable
    ((∀ start ∈ upTo (target activation.frame.data ip) (behind activation.frame.data ip),
      Passable activation.frame.data start) ∧
    (target activation.frame.data ip = none →
      ∀ caller ∈ older, caller.frame.object ≠ activation.frame.object)))

variable {host} {m : EdictVM V H} {stopCodeDepth : Nat} {activation : Activation}
  {older : List Activation} {mode : ScanMode} {conditions : List V}

theorem skipTurn_eq (m : EdictVM V H) (c : Control) :
    skipTurn host stopCodeDepth { m with control := c } =
      (c.scanTurn stopCodeDepth).map fun control => { m with control } := by
  unfold skipTurn
  split
  · next scanning =>
    unfold turn
    split
    · next stops =>
      have stopped : c.scans = false ∨ c.code.length ≤ stopCodeDepth := by
        simp only [goesOn, Bool.and_eq_false_iff, Bool.not_eq_false', decide_eq_false_iff_not,
          Nat.not_lt] at stops
        unfold Control.scans
        obtain (error | yields) | ended := stops
        · simp [error]
        · simp [yields]
        · exact Or.inr ended
      unfold Control.scanTurn
      rw [if_pos stopped]
      rfl
    · rfl
  · next normal =>
    have still : c.state.scanning = false := Bool.eq_false_iff.mpr normal
    have stopped : c.scans = false := by
      unfold Control.scans
      simp [still]
    unfold Control.scanTurn
    rw [if_pos (Or.inl stopped)]
    rfl

theorem turn_begins (goes : m.goesOn stopCodeDepth = true) (normal : m.control.state.scanning = false)
    (code : m.control.code = activation :: older)
    (inside : m.control.position activation.frame < activation.frame.data.length)
    (begins : Begins m activation.frame.data[m.control.position activation.frame]? mode conditions) :
    turn host m stopCodeDepth = some
      { m with
        conditions
        control := (begun m.control mode).skippingAt activation.frame
          (m.control.position activation.frame + 1) 0 } := by
  unfold turn
  rw [if_neg (by simp [goes]), if_neg (by simp [normal]), code]
  dsimp only
  rw [if_neg (Nat.not_le_of_lt inside)]
  unfold runOp
  rw [readByte_of_lt inside]
  rw [List.getElem?_eq_getElem inside] at begins
  generalize activation.frame.data[m.control.position activation.frame] = op at begins
  obtain ⟨throw, rfl, failure, failed⟩ | ⟨catch_, rfl, rfl⟩ := begins
  · obtain rfl := Option.some.inj throw
    have known : VMOpcode.ofByte VMOpcode.THROW.byte = some .THROW := by decide
    have eval : (VMOpcode.THROW.byte == VMOpcode.EVAL.byte) = false := by decide
    simp only [dispatch, known, op_THROW, setTail, failed, eval, Bool.false_and, Bool.false_eq_true,
      if_false]
    rfl
  · obtain rfl := Option.some.inj catch_
    have known : VMOpcode.ofByte VMOpcode.CATCH.byte = some .CATCH := by decide
    have eval : (VMOpcode.CATCH.byte == VMOpcode.EVAL.byte) = false := by decide
    simp only [dispatch, known, setTail, eval, Bool.false_and, Bool.false_eq_true, if_false]
    rfl

theorem skipping_begun (goes : m.goesOn stopCodeDepth = true)
    (code : m.control.code = activation :: older) :
    (begun m.control mode).Skipping activation older stopCodeDepth := by
  simp only [goesOn, Bool.and_eq_true, Bool.not_eq_true', decide_eq_true_eq] at goes
  obtain ⟨⟨error, yields⟩, above⟩ := goes
  refine ⟨code, ?_, rfl, above⟩
  simp [Control.scans, begun, error, yields]

theorem target_eq {data : List UInt8} {ip : Nat} (begins : Begins m data[ip]? mode conditions) :
    behind data ip = instructionsFrom data data.length (ip + 1) ∧
      target data ip = goal data mode 0 (instructionsFrom data data.length (ip + 1)) := by
  have throwBare : VMOpcode.THROW.byte ≠ VMOpcode.PUSHEXT.byte := by decide
  have catchBare : VMOpcode.CATCH.byte ≠ VMOpcode.PUSHEXT.byte := by decide
  unfold target goal behind
  obtain ⟨throw, rfl, -⟩ | ⟨caught, rfl, -⟩ := begins
  · rw [instructionEnd_of_ne throw throwBare, if_pos throw, if_neg (by decide)]
    exact ⟨rfl, rfl⟩
  · have other : ¬data[ip]? = some VMOpcode.THROW.byte := by
      rw [caught]
      decide
    rw [instructionEnd_of_ne caught catchBare, if_neg other, if_pos rfl]
    exact ⟨rfl, rfl⟩

theorem resumed_landed_iff {place : Option Nat} (normal : m.control.state.scanning = false)
    (code : m.control.code = activation :: older)
    (inside : m.control.position activation.frame < activation.frame.data.length)
    (small : landing activation.frame.data place < 2 ^ 31) :
    Resumed m activation older place conditions
        { m with
          conditions
          control := (begun m.control mode).landed
            ((begun m.control mode).landedCode activation.frame place) } ↔
      (place = none → ∀ caller ∈ older, caller.frame.object ≠ activation.frame.object) := by
  have state : { m.control.state with scanning := false } = m.control.state := by rw [← normal]
  unfold Resumed
  simp only [Control.landed, begun, state, true_and]
  cases place with
  | some place =>
    refine iff_of_true ⟨?_, ?_⟩ fun none_ => by cases none_
    · simp only [Control.landedCode, map_frame_writeFrameIp, code, List.map_cons]
    · simp only [Control.landedCode, Control.position, code, readFrameIp_writeFrameIp]
      exact Int32.toNatClampNeg_ofNat_of_lt small
  | none =>
    -- The pointer at the end of the frame differs from the one that the frame began with.
    have differs : readFrameIp (activation :: older) activation.frame ≠
        Int32.ofNat activation.frame.data.length := by
      intro same
      have began := inside
      unfold Control.position at began
      have length : activation.frame.data.length < 2 ^ 31 := small
      rw [code, same, Int32.toNatClampNeg_ofNat_of_lt length] at began
      exact Nat.lt_irrefl _ began
    simp only [Control.landedCode, code, tail_writeFrameIp_iff differs, true_implies]

theorem atInstruction {c : Control} {ip : Nat} {s : Control}
    (skipping : c.Skipping activation older stopCodeDepth)
    (stands : c.StandsAt activation.frame (behind activation.frame.data ip) s)
    (here : m.control.position activation.frame = ip) (world : EdictVM V H) :
    AtInstruction m activation older { world with control := s } := by
  obtain ⟨place, depth, rfl, there, small⟩ := stands
  refine ⟨skipping.frames, ?_⟩
  show (c.skippingAt activation.frame place depth).position activation.frame ∈ _ ∨
    (c.skippingAt activation.frame place depth).position activation.frame = _
  rw [skipping.position small, here]
  exact there

/--
An `&` that has found a failure and a `|` skip code as they have to, when each instruction to skip
can be passed over and a frame that is left is not also that of a caller.
-/
theorem skips_iff (goes : m.goesOn stopCodeDepth = true)
    (normal : m.control.state.scanning = false) (code : m.control.code = activation :: older)
    (inside : m.control.position activation.frame < activation.frame.data.length)
    (begins : Begins m activation.frame.data[m.control.position activation.frame]? mode conditions) :
    (Skippable activation older (m.control.position activation.frame) →
      landing activation.frame.data
        (target activation.frame.data (m.control.position activation.frame)) < 2 ^ 31 →
      Skips host stopCodeDepth m activation older conditions) ∧
    (activation.frame.data.length < 2 ^ 31 →
      Skips host stopCodeDepth m activation older conditions →
      Skippable activation older (m.control.position activation.frame)) := by
  have first := @turn_begins _ _ host _ _ _ _ _ _ goes normal code inside begins
  have skipping : (begun m.control mode).Skipping activation older stopCodeDepth :=
    skipping_begun goes code
  obtain ⟨starts, place⟩ := target_eq begins
  have commutes := @skipTurn_eq V H host stopCodeDepth { m with conditions }
  have scan := skipping.scan_spec activation.frame.data.length
    (m.control.position activation.frame + 1) 0 inside (by omega)
  have blocks := fun short => skipping.exists_blocked short activation.frame.data.length
    (m.control.position activation.frame + 1) 0 inside
  dsimp only at scan blocks
  rw [show (begun m.control mode).scan_mode = mode from rfl, ← place, ← starts] at scan blocks
  constructor
  · rintro ⟨passable, alone⟩ small
    obtain ⟨ends, passes⟩ := scan small passable
    refine ⟨_, first, ⟨_, endsIn_map commutes ends, ?_⟩, ?_⟩
    · exact (resumed_landed_iff normal code inside small).mpr alone
    · intro s reaches scanning
      obtain ⟨s, scanned, rfl⟩ := (reaches_map_iff commutes).mp reaches
      rcases passes s scanned with rfl | stands
      · cases scanning
      · exact atInstruction skipping stands rfl _
  · rintro short ⟨_, turned, ⟨s, ends, resumed⟩, -⟩
    obtain rfl := Option.some.inj (first.symm.trans turned)
    have passable : ∀ start ∈ upTo
        (target activation.frame.data (m.control.position activation.frame))
        (behind activation.frame.data (m.control.position activation.frame)),
        Passable activation.frame.data start := by
      intro start member
      by_contra impassable
      obtain ⟨t, reaches, blocked⟩ := blocks short ⟨start, member, impassable⟩
      have there := (reaches_map_iff commutes).mpr ⟨t, reaches, rfl⟩
      rcases blocked with loop | error
      · -- A scan that stands still does not come to its end.
        exact ends.not_loop there (by rw [commutes, loop, Option.map_some])
      · -- An error ends the loop, but the machine that goes on has none.
        have last : t.scanTurn stopCodeDepth = none := by
          unfold Control.scanTurn
          exact if_pos (Or.inl (by simp [Control.scans, error]))
        obtain rfl := ends.unique (endsIn_map commutes ⟨reaches, last⟩)
        have same : t.state.error = m.control.state.error :=
          congrArg (fun s => s.control.state.error) resumed.1
        rw [error] at same
        simp [goesOn, ← same] at goes
    have small : landing activation.frame.data
        (target activation.frame.data (m.control.position activation.frame)) < 2 ^ 31 := by
      rw [place]
      exact Nat.lt_of_le_of_lt landing_le short
    obtain ⟨scanned, -⟩ := scan small passable
    obtain rfl := ends.unique (endsIn_map commutes scanned)
    exact ⟨passable, (resumed_landed_iff normal code inside small).mp resumed⟩

def bareHost : Host Unit Unit where
  null := ()
  payload world _ := (world, ())
  evaluation _ _ := .nothing
  compile _ := none
  handler _ := none

/-- A machine that stands at the first byte of its only frame, with one condition that has failed. -/
def atStart (data : List UInt8) : EdictVM Unit Unit where
  control :=
    { code := [⟨⟨0, data⟩, 0⟩]
      state := ⟨false, false, false, false⟩
      error_message := ""
      tail_eval := false
      scan_mode := .None
      scan_depth := 0 }
  dict := [[]]
  stack := [[]]
  func := []
  conditions := [()]
  world := ()
  fresh := 1

/-- From the `&` of `& & | |` the second `|` is found. -/
theorem skips_iff_nested :
    Skips bareHost 0
      (atStart [VMOpcode.THROW.byte, VMOpcode.THROW.byte, VMOpcode.CATCH.byte, VMOpcode.CATCH.byte])
      ⟨⟨0, [VMOpcode.THROW.byte, VMOpcode.THROW.byte, VMOpcode.CATCH.byte, VMOpcode.CATCH.byte]⟩, 0⟩
      [] [] := by
  have begins : Begins
      (atStart [VMOpcode.THROW.byte, VMOpcode.THROW.byte, VMOpcode.CATCH.byte, VMOpcode.CATCH.byte])
      (some VMOpcode.THROW.byte) .FromThrow [] := Or.inl ⟨rfl, rfl, (), rfl⟩
  exact (skips_iff (by decide) rfl rfl (by decide) begins).1 (by decide) (by decide)

/-- An `&` in front of an `EVAL` that ends its frame never gets to the caller. -/
theorem skips_fails : ∃ (m : EdictVM Unit Unit) (activation : Activation),
    m.goesOn 0 = true ∧ m.control.state.scanning = false ∧ m.control.code = [activation] ∧
      m.control.position activation.frame < activation.frame.data.length ∧
      Begins m activation.frame.data[m.control.position activation.frame]? .FromThrow [] ∧
      ¬Skips bareHost 0 m activation [] [] := by
  refine ⟨atStart [VMOpcode.THROW.byte, VMOpcode.EVAL.byte],
    ⟨⟨0, [VMOpcode.THROW.byte, VMOpcode.EVAL.byte]⟩, 0⟩, by decide, rfl, rfl, by decide,
    Or.inl ⟨by decide, rfl, (), rfl⟩, ?_⟩
  rintro ⟨first, turned, ⟨_, ends, -⟩, -⟩
  -- The scan stands still at the `EVAL`.
  cases turned
  exact ends.not_loop .refl rfl

end EdictVM

end AgentC.Edict

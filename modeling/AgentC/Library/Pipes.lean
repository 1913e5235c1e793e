import AgentC.Library.Words

/-!
Pipes, whose bytes are written and read in pieces, and frames that are read whole or not at all.

A writer says whether all of its bytes went out. A reader of frames reads what was written, whatever
follows it, and refuses a frame of which the end is missing.
-/

namespace AgentC

universe u v

abbrev Pipe := List (UInt8 × List UInt8)

namespace Pipe

def bytes (pipe : Pipe) : List UInt8 :=
  pipe.flatMap fun piece => piece.1 :: piece.2

@[simp] theorem bytes_cons (first : UInt8) (others : List UInt8) (pipe : Pipe) :
    bytes ((first, others) :: pipe) = first :: (others ++ pipe.bytes) := rfl

end Pipe

abbrev PipeReader (α : Type u) := Pipe → Option (α × Pipe)

namespace PipeReader

variable {α : Type u} {β : Type v}

/-- Reading so many bytes, in a loop: each turn gets what has arrived, and no more than is asked for. -/
def readAll : Pipe → Nat → Option (List UInt8 × Pipe)
  | pipe, 0 => some ([], pipe)
  | [], _ + 1 => none
  | (first, others) :: pipe, size + 1 =>
    match others.drop size with
    | next :: left => some (first :: others.take size, (next, left) :: pipe)
    | [] => (readAll pipe (size - others.length)).map fun (bytes, pipe) => (first :: (others ++ bytes), pipe)

def andThen (first : PipeReader α) (second : α → PipeReader β) : PipeReader β := fun pipe =>
  (first pipe).bind fun (value, pipe) => second value pipe

def rename (read : PipeReader α) (pack : α → β) : PipeReader β := fun pipe =>
  (read pipe).map fun (value, pipe) => (pack value, pipe)

def word (width : Nat) : PipeReader Nat :=
  rename (readAll · width) ofWordBytes

def counted (width limit : Nat) : PipeReader (List UInt8) :=
  (word width).andThen fun size pipe => if limit < size then none else readAll pipe size

def pair (first : PipeReader α) (second : PipeReader β) : PipeReader (α × β) :=
  first.andThen fun a => second.rename (Prod.mk a)

/-- Bytes are read, as many as there are, or else the end of the pipe is found. -/
theorem readAll_spec (size : Nat) (pipe : Pipe) :
    (size ≤ pipe.bytes.length → ∃ left, readAll pipe size = some (pipe.bytes.take size, left) ∧
      left.bytes = pipe.bytes.drop size) ∧
    (pipe.bytes.length < size → readAll pipe size = none) := by
  -- The induction follows the pieces, each of which is taken whole while it is not enough.
  induction pipe generalizing size with
  | nil =>
    cases size with
    | zero => exact ⟨fun _ => ⟨[], rfl, rfl⟩, nofun⟩
    | succ size => exact ⟨nofun, fun _ => rfl⟩
  | cons piece pipe ih =>
    obtain ⟨first, others⟩ := piece
    cases size with
    | zero => exact ⟨fun _ => ⟨(first, others) :: pipe, rfl, rfl⟩, nofun⟩
    | succ size =>
      rw [Pipe.bytes_cons, List.length_cons, List.length_append, List.take_succ_cons, List.drop_succ_cons]
      unfold readAll
      split
      · next next left behind =>
        have longer : size < others.length := by
          have length := congrArg List.length behind
          rw [List.length_drop, List.length_cons] at length
          omega
        rw [List.take_append_of_le_length (Nat.le_of_lt longer), List.drop_append_of_le_length (Nat.le_of_lt longer),
          behind]
        exact ⟨fun _ => ⟨_, rfl, rfl⟩, fun short => absurd short (by omega)⟩
      · next behind =>
        have shorter : others.length ≤ size := List.drop_eq_nil_iff.mp behind
        obtain ⟨enough, missing⟩ := ih (size - others.length)
        rw [List.take_append, List.take_of_length_le shorter, List.drop_append, behind, List.nil_append]
        constructor
        · intro long
          obtain ⟨left, read, rest⟩ := enough (by omega)
          exact ⟨left, by rw [read]; rfl, rest⟩
        · intro short
          rw [missing (by omega)]
          rfl

/--
A reader is one of the frames that a writer makes of valid values.

It reads a frame, whatever follows it, and finds the end of the pipe where a frame is cut off.
-/
structure Frames (read : PipeReader α) (write : α → List UInt8) (valid : α → Prop) : Prop where
  whole : ∀ value, valid value → ∀ (pipe : Pipe) rest, pipe.bytes = write value ++ rest →
    ∃ left, read pipe = some (value, left) ∧ left.bytes = rest
  cut : ∀ value, valid value → ∀ pipe : Pipe, pipe.bytes <+: write value → pipe.bytes ≠ write value →
    read pipe = none

namespace Frames

variable {first : PipeReader α} {write : α → List UInt8} {valid : α → Prop}

theorem readAll (size : Nat) :
    Frames (PipeReader.readAll · size) (fun bytes : List UInt8 => bytes) (·.length = size) where
  whole := by
    intro value length pipe rest bytes
    obtain ⟨left, read, behind⟩ := (readAll_spec size pipe).1 (by
      rw [bytes, List.length_append]
      omega)
    rw [bytes, List.take_left' length] at read
    rw [bytes, List.drop_left' length] at behind
    exact ⟨left, read, behind⟩
  cut := by
    intro value length pipe front other
    apply (readAll_spec size pipe).2
    have shorter := front.length_le
    rcases Nat.lt_or_eq_of_le shorter with less | same
    · omega
    · exact absurd (front.eq_of_length same) other

theorem imp {valid' : α → Prop} (frames : first.Frames write valid) (fewer : ∀ value, valid' value → valid value) :
    first.Frames write valid' where
  whole value holds := frames.whole value (fewer value holds)
  cut value holds := frames.cut value (fewer value holds)

theorem rename {valid' : β → Prop} (frames : first.Frames write valid) (pack : α → β) (unpack : β → α)
    (packed : ∀ value, valid' value → valid (unpack value) ∧ pack (unpack value) = value) :
    (first.rename pack).Frames (fun value => write (unpack value)) valid' where
  whole := by
    intro value holds pipe rest bytes
    obtain ⟨inside, same⟩ := packed value holds
    obtain ⟨left, read, behind⟩ := frames.whole (unpack value) inside pipe rest bytes
    refine ⟨left, ?_, behind⟩
    unfold PipeReader.rename
    rw [read, Option.map_some]
    dsimp only
    rw [same]
  cut := by
    intro value holds pipe front other
    unfold PipeReader.rename
    rw [frames.cut (unpack value) (packed value holds).1 pipe front other]
    rfl

/-- A frame of two parts, the second of which depends on what is in the first. -/
theorem andThen {second : α → PipeReader β} {write' : β → List UInt8} {valid' : β → Prop} (key : β → α)
    (one : first.Frames write valid)
    (other : ∀ a, valid a → (second a).Frames write' (fun value => valid' value ∧ key value = a)) :
    (first.andThen second).Frames (fun value => write (key value) ++ write' value)
      (fun value => valid (key value) ∧ valid' value) where
  whole := by
    intro value holds pipe rest bytes
    rw [List.append_assoc] at bytes
    obtain ⟨middle, read, behind⟩ := one.whole (key value) holds.1 pipe _ bytes
    obtain ⟨left, read', behind'⟩ := (other _ holds.1).whole value ⟨holds.2, rfl⟩ middle rest behind
    refine ⟨left, ?_, behind'⟩
    unfold PipeReader.andThen
    rw [read, Option.bind_some]
    exact read'
  cut := by
    intro value holds pipe front different
    unfold PipeReader.andThen
    by_cases early : pipe.bytes <+: write (key value) ∧ pipe.bytes ≠ write (key value)
    · rw [one.cut (key value) holds.1 pipe early.1 early.2]
      rfl
    · -- The first part is there, and the cut is behind it.
      have there : write (key value) <+: pipe.bytes := by
        rcases List.prefix_or_prefix_of_prefix front (List.prefix_append _ _) with inside | behind
        · have same : pipe.bytes = write (key value) := by
            by_contra other
            exact early ⟨inside, other⟩
          exact same ▸ List.prefix_rfl
        · exact behind
      obtain ⟨rest, bytes⟩ := there
      obtain ⟨middle, read, behind⟩ := one.whole (key value) holds.1 pipe rest bytes.symm
      rw [← bytes, List.prefix_append_right_inj] at front
      rw [← bytes] at different
      rw [read, Option.bind_some]
      refine (other _ holds.1).cut value ⟨holds.2, rfl⟩ middle (behind ▸ front) fun same => different ?_
      rw [← behind, same]

theorem word (width : Nat) : (PipeReader.word width).Frames (wordBytes width) (· < 256 ^ width) :=
  (readAll width).rename ofWordBytes (wordBytes width) fun n fits =>
    ⟨length_wordBytes width n, ofWordBytes_wordBytes fits⟩

theorem counted (width limit : Nat) : (PipeReader.counted width limit).Frames
    (fun bytes => wordBytes width bytes.length ++ bytes)
    (fun bytes => bytes.length < 256 ^ width ∧ bytes.length ≤ limit) := by
  apply Frames.andThen List.length (word width)
  intro size _
  constructor
  · rintro bytes ⟨short, rfl⟩ pipe rest arrived
    obtain ⟨left, read, behind⟩ := (readAll bytes.length).whole bytes rfl pipe rest arrived
    exact ⟨left, (if_neg (Nat.not_lt.mpr short)).trans read, behind⟩
  · rintro bytes ⟨short, rfl⟩ pipe front other
    exact (if_neg (Nat.not_lt.mpr short)).trans ((readAll bytes.length).cut bytes rfl pipe front other)

theorem pair {second : PipeReader β} {write' : β → List UInt8} {valid' : β → Prop}
    (one : first.Frames write valid) (other : second.Frames write' valid') :
    (first.pair second).Frames (fun both => write both.1 ++ write' both.2)
      (fun both => valid both.1 ∧ valid' both.2) := by
  apply andThen Prod.fst one
  intro a _
  apply other.rename (Prod.mk a) Prod.snd
  rintro both ⟨holds, rfl⟩
  exact ⟨holds, rfl⟩

end Frames

end PipeReader

/-- How a writing ended: whether all bytes went out, those that did, and the answers that are left. -/
structure Sending where
  ok : Bool
  sent : List UInt8
  answers : List Nat

abbrev PipeWriter := List Nat → Sending

namespace PipeWriter

/-- Writing bytes, in a loop: each turn goes on behind those that were taken, and ends when none were. -/
def writeAll : List UInt8 → PipeWriter
  | [], answers => ⟨true, [], answers⟩
  | _ :: _, [] => ⟨false, [], []⟩
  | _ :: _, 0 :: answers => ⟨false, [], answers⟩
  | byte :: bytes, (count + 1) :: answers =>
    let rest := writeAll (bytes.drop count) answers
    ⟨rest.ok, byte :: (bytes.take count ++ rest.sent), rest.answers⟩
  termination_by structural _ answers => answers

/-- Writing one thing, and then another when it went out. -/
def andThen (first second : PipeWriter) : PipeWriter := fun answers =>
  let one := first answers
  if one.ok then
    let other := second one.answers
    ⟨other.ok, one.sent ++ other.sent, other.answers⟩
  else one

def Sends (write : PipeWriter) (bytes : List UInt8) : Prop :=
  ∀ answers, (write answers).ok = true ∧ (write answers).sent = bytes ∨
    (write answers).ok = false ∧ (write answers).sent <+: bytes ∧ (write answers).sent ≠ bytes

theorem Sends.andThen {first second : PipeWriter} {bytes bytes' : List UInt8} (one : first.Sends bytes)
    (other : second.Sends bytes') : (first.andThen second).Sends (bytes ++ bytes') := by
  intro answers
  unfold PipeWriter.andThen
  dsimp only
  rcases one answers with ⟨ok, sent⟩ | ⟨failed, front, different⟩
  · rw [if_pos ok, sent]
    rcases other (first answers).answers with ⟨ok', sent'⟩ | ⟨failed', front', different'⟩
    · exact Or.inl ⟨ok', congrArg _ sent'⟩
    · refine Or.inr ⟨failed', (List.prefix_append_right_inj bytes).mpr front', fun same => different' ?_⟩
      exact List.append_cancel_left same
  · rw [if_neg (failed ▸ Bool.false_ne_true)]
    refine Or.inr ⟨failed, front.trans (List.prefix_append bytes bytes'), fun same => different ?_⟩
    have length := front.length_le
    rw [same, List.length_append] at length
    have none : bytes' = [] := List.length_eq_zero_iff.mp (by omega)
    rw [same, none, List.append_nil]

end PipeWriter

/--
A reader gets a value out of a pipe exactly when a writer has sent all of it.

Whatever follows is left. A writer that fails, or one that is gone before its end, is noticed.
-/
structure PipeReader.Gets {α : Type u} (read : PipeReader α) (write : PipeWriter) (value : α) : Prop where
  whole : ∀ answers (pipe : Pipe) rest, (write answers).ok = true → pipe.bytes = (write answers).sent ++ rest →
    ∃ left, read pipe = some (value, left) ∧ left.bytes = rest
  failed : ∀ answers (pipe : Pipe), (write answers).ok = false → pipe.bytes = (write answers).sent →
    read pipe = none
  cut : ∀ answers (pipe : Pipe), (write answers).ok = true → pipe.bytes <+: (write answers).sent →
    pipe.bytes ≠ (write answers).sent → read pipe = none

theorem PipeReader.Frames.gets {α : Type u} {read : PipeReader α} {frame : α → List UInt8} {valid : α → Prop}
    (frames : read.Frames frame valid) {write : PipeWriter} {value : α} (holds : valid value)
    (sends : write.Sends (frame value)) : read.Gets write value where
  whole := by
    intro answers pipe rest ok bytes
    rcases sends answers with ⟨-, sent⟩ | ⟨failed, -⟩
    · exact frames.whole value holds pipe rest (sent ▸ bytes)
    · exact absurd (ok.symm.trans failed) (by decide)
  failed := by
    intro answers pipe failed bytes
    rcases sends answers with ⟨ok, -⟩ | ⟨-, front, other⟩
    · exact absurd (ok.symm.trans failed) (by decide)
    · exact frames.cut value holds pipe (bytes ▸ front) (bytes ▸ other)
  cut := by
    intro answers pipe ok front other
    rcases sends answers with ⟨-, sent⟩ | ⟨failed, -⟩
    · exact frames.cut value holds pipe (sent ▸ front) (sent ▸ other)
    · exact absurd (ok.symm.trans failed) (by decide)

end AgentC

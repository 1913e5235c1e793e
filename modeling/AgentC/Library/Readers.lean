import AgentC.Library.Words

/-! Readers that move a cursor over a text, and when a reader is the inverse of a writer. -/

namespace AgentC

universe u v

variable {α : Type u} {β : Type v}

abbrev Reader (α : Type u) := List UInt8 → Nat → Option (α × Nat)

/-- Reading one thing, and then another behind it. -/
def Reader.pair (first : Reader α) (second : Reader β) : Reader (α × β) := fun text cursor =>
  (first text cursor).bind fun (left, cursor) =>
    (second text cursor).map fun (right, cursor) => ((left, right), cursor)

def Reader.many (read : Reader α) : Nat → Reader (List α)
  | 0 => fun _ cursor => some ([], cursor)
  | count + 1 => fun text cursor =>
    (read text cursor).bind fun (value, cursor) =>
      (many read count text cursor).map fun (values, cursor) => (value :: values, cursor)

/--
A reader is the inverse of a writer on valid values, in texts up to some length.

It reads what the writer has written, and what it reads was written so.
-/
structure Reader.Inverse (read : Reader α) (write : α → List UInt8) (valid : α → Prop)
    (longest : Nat) : Prop where
  reads : ∀ before value after, valid value →
    (before ++ (write value ++ after)).length ≤ longest →
    read (before ++ (write value ++ after)) before.length =
      some (value, before.length + (write value).length)
  writes : ∀ text cursor value next, text.length ≤ longest → cursor ≤ text.length →
    read text cursor = some (value, next) →
    valid value ∧ next ≤ text.length ∧ text.drop cursor = write value ++ text.drop next

namespace Reader.Inverse

variable {first : Reader α} {second : Reader β} {write : α → List UInt8} {write' : β → List UInt8}
  {valid : α → Prop} {valid' : β → Prop} {longest : Nat}

/-- Reading two things is the inverse of writing the one before the other. -/
theorem pair (one : first.Inverse write valid longest) (other : second.Inverse write' valid' longest) :
    (first.pair second).Inverse (fun both => write both.1 ++ write' both.2)
      (fun both => valid both.1 ∧ valid' both.2) longest where
  reads := by
    rintro before ⟨left, right⟩ after ⟨validLeft, validRight⟩ short
    dsimp only at *
    have text : before ++ ((write left ++ write' right) ++ after) =
        before ++ (write left ++ (write' right ++ after)) := by simp only [List.append_assoc]
    have text' : before ++ (write left ++ (write' right ++ after)) =
        (before ++ write left) ++ (write' right ++ after) := by simp only [List.append_assoc]
    rw [text] at short ⊢
    have read := one.reads before left (write' right ++ after) validLeft short
    rw [text'] at short
    have read' := other.reads (before ++ write left) right after validRight short
    rw [List.length_append, ← text'] at read'
    unfold Reader.pair
    rw [read, Option.bind_some]
    dsimp only
    rw [read', List.length_append, Nat.add_assoc]
    rfl
  writes := by
    rintro text cursor ⟨left, right⟩ next short inside read
    obtain ⟨⟨left', middle⟩, readLeft, rest⟩ := Option.bind_eq_some_iff.mp read
    obtain ⟨⟨right', next'⟩, readRight, same⟩ := Option.map_eq_some_iff.mp rest
    cases same
    obtain ⟨validLeft, insideLeft, bytesLeft⟩ := one.writes text cursor left middle short inside readLeft
    obtain ⟨validRight, insideRight, bytesRight⟩ :=
      other.writes text middle right next short insideLeft readRight
    refine ⟨⟨validLeft, validRight⟩, insideRight, ?_⟩
    rw [bytesLeft, bytesRight, List.append_assoc]

/-- Reading a list is the inverse of writing its values one after the other. -/
theorem many (one : first.Inverse write valid longest) (count : Nat) :
    (first.many count).Inverse (List.flatMap write)
      (fun values => values.length = count ∧ ∀ value ∈ values, valid value) longest := by
  -- The induction is on the number of values that are left to read.
  induction count with
  | zero =>
    refine ⟨?_, ?_⟩
    · rintro before values after ⟨length, -⟩ -
      rw [List.length_eq_zero_iff.mp length]
      rfl
    · rintro text cursor values next - inside read
      cases read
      exact ⟨⟨rfl, List.forall_mem_nil _⟩, inside, rfl⟩
  | succ count ih =>
    have both := one.pair ih
    refine ⟨?_, ?_⟩
    · rintro before values after ⟨length, every⟩ short
      cases values with
      | nil => cases length
      | cons value values =>
        obtain ⟨own, others⟩ := List.forall_mem_cons.mp every
        rw [List.flatMap_cons] at short ⊢
        have read := both.reads before (value, values) after
          ⟨own, Nat.succ.inj length, others⟩ short
        obtain ⟨⟨left, middle⟩, readLeft, rest⟩ := Option.bind_eq_some_iff.mp read
        obtain ⟨⟨right, next⟩, readRight, same⟩ := Option.map_eq_some_iff.mp rest
        cases same
        unfold Reader.many
        rw [readLeft, Option.bind_some]
        dsimp only
        rw [readRight]
        rfl
    · rintro text cursor values next short inside read
      obtain ⟨⟨value, middle⟩, readOne, rest⟩ := Option.bind_eq_some_iff.mp read
      obtain ⟨⟨values', next'⟩, readRest, same⟩ := Option.map_eq_some_iff.mp rest
      cases same
      have pair : first.pair (first.many count) text cursor = some ((value, values'), next) := by
        unfold Reader.pair
        rw [readOne, Option.bind_some]
        dsimp only
        rw [readRest]
        rfl
      obtain ⟨⟨own, length, others⟩, inside', bytes⟩ :=
        both.writes text cursor (value, values') next short inside pair
      exact ⟨⟨congrArg (· + 1) length, List.forall_mem_cons.mpr ⟨own, others⟩⟩, inside', bytes⟩

theorem rename {read : Reader β} (pack : α → β) (unpack : β → α)
    (one : first.Inverse write valid longest)
    (packed : ∀ value, pack (unpack value) = value) (unpacked : ∀ value, unpack (pack value) = value)
    (same : ∀ text cursor, read text cursor =
      (first text cursor).map fun (value, cursor) => (pack value, cursor)) :
    read.Inverse (fun value => write (unpack value)) (fun value => valid (unpack value)) longest where
  reads := by
    intro before value after holds short
    rw [same, one.reads before (unpack value) after holds short, Option.map_some]
    dsimp only
    rw [packed]
  writes := by
    intro text cursor value next short inside found
    rw [same] at found
    obtain ⟨⟨value', next'⟩, read', equal⟩ := Option.map_eq_some_iff.mp found
    cases equal
    rw [unpacked]
    exact one.writes text cursor value' next short inside read'

end Reader.Inverse

end AgentC

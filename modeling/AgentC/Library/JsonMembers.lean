import Mathlib.Data.List.Infix
import AgentC.Library.JsonLeaves

/-!
The members of JSON texts: what an object says of a name, and where a name is written in a text.

What an object says is read from its derivation. Where a name is written is a matter of the bytes
alone: at the end of the name of a member, wherever this member stands.
-/

namespace AgentC.JsonText

/-! What strings and numbers stand for. -/

/-- The code point of a character in UTF-8. -/
def utf8 (point : Nat) : List UInt8 :=
  let low (shift : Nat) := UInt8.ofNat (0x80 + point / 2 ^ shift % 0x40)
  if point < 0x80 then [UInt8.ofNat point]
  else if point < 0x800 then [UInt8.ofNat (0xC0 + point / 2 ^ 6), low 0]
  else if point < 0x10000 then [UInt8.ofNat (0xE0 + point / 2 ^ 12), low 6, low 0]
  else [UInt8.ofNat (0xF0 + point / 2 ^ 18), low 12, low 6, low 0]

def hexDigit (c : UInt8) : Nat :=
  if c ≤ 0x39 then c.toNat - 0x30 else if c ≤ 0x46 then c.toNat - 0x37 else c.toNat - 0x57

def escapedByte (c : UInt8) : UInt8 :=
  if c = 0x62 then 0x08
  else if c = 0x66 then 0x0C
  else if c = 0x6E then 0x0A
  else if c = 0x72 then 0x0D
  else if c = 0x74 then 0x09
  else c

/--
The bytes that stand for the body of a string.

The first half of a surrogate pair is kept until the second one follows it.
-/
def decode : Option Nat → List UInt8 → List UInt8
  | high, [] => high.elim [] utf8
  | high, c :: rest =>
    if c = escape then
      match rest with
      | 0x75 :: h0 :: h1 :: h2 :: h3 :: rest =>
        let unit := ((hexDigit h0 * 16 + hexDigit h1) * 16 + hexDigit h2) * 16 + hexDigit h3
        match high with
        | some first =>
          if 0xDC00 ≤ unit ∧ unit < 0xE000 then
            utf8 (0x10000 + (first - 0xD800) * 0x400 + (unit - 0xDC00)) ++ decode none rest
          else if 0xD800 ≤ unit ∧ unit < 0xDC00 then utf8 first ++ decode (some unit) rest
          else utf8 first ++ (utf8 unit ++ decode none rest)
        | none =>
          if 0xD800 ≤ unit ∧ unit < 0xDC00 then decode (some unit) rest
          else utf8 unit ++ decode none rest
      | c :: rest => high.elim [] utf8 ++ escapedByte c :: decode none rest
      | [] => high.elim [] utf8
    else high.elim [] utf8 ++ c :: decode none rest

def natural (digits : List UInt8) : Nat :=
  digits.foldl (fun value c => value * 10 + (c.toNat - 0x30)) 0

def isDigit (c : UInt8) : Bool :=
  0x30 ≤ c && c ≤ 0x39

def numberValue (text : List UInt8) : Rat :=
  let unsigned := if text.head? = some 0x2D then text.tail else text
  let whole := unsigned.takeWhile isDigit
  let behind := unsigned.dropWhile isDigit
  let fraction := if behind.head? = some 0x2E then behind.tail.takeWhile isDigit else []
  let exponent := if behind.head? = some 0x2E then behind.tail.dropWhile isDigit else behind
  let mantissa : Rat := natural (whole ++ fraction) / 10 ^ fraction.length
  let scaled := match exponent with
    | [] => mantissa
    | _ :: 0x2D :: digits => mantissa / 10 ^ natural digits
    | _ :: 0x2B :: digits => mantissa * 10 ^ natural digits
    | _ :: digits => mantissa * 10 ^ natural digits
  if text.head? = some 0x2D then -scaled else scaled

/-- A number is the same however it is written. -/
example : numberValue [0x31, 0x2E, 0x32, 0x30, 0x65, 0x31] = 12 := by decide +kernel

namespace Tree

def inner : Tree .element → Tree .value
  | .element _ value _ => value

def fields : {rule : Rule} → Tree rule → List (List UInt8 × Tree .value)
  | _, .object members => members.fields
  | _, .lastMember _ name _ last => [(name, last.inner)]
  | _, .moreMembers _ name _ first others => (name, first.inner) :: others.fields
  | _, _ => []

def lookup (name : List UInt8) (value : Tree .value) : Option (Tree .value) :=
  (value.fields.reverse.find? fun field => decode none field.1 == name).map Prod.snd

/--
All members of a text that goes on with `rest`, those of nested objects too.

Each comes with its name as it is written, and with everything that stands behind the name.
-/
def spots : {rule : Rule} → Tree rule → List UInt8 → List (List UInt8 × List UInt8)
  | _, .literal _, _ => []
  | _, .number _, _ => []
  | _, .string _, _ => []
  | _, .emptyObject _, _ => []
  | _, .object members, rest => members.spots (0x7D :: rest)
  | _, .emptyArray _, _ => []
  | _, .array elements, rest => elements.spots (0x5D :: rest)
  | _, .element _ value after, rest => value.spots (after ++ rest)
  | _, .lastElement last, rest => last.spots rest
  | _, .moreElements first others, rest =>
    first.spots (0x2C :: (others.text ++ rest)) ++ others.spots rest
  | _, .lastMember _ name after last, rest =>
    (name, after ++ 0x3A :: (last.text ++ rest)) :: last.spots rest
  | _, .moreMembers _ name after first others, rest =>
    (name, after ++ 0x3A :: (first.text ++ 0x2C :: (others.text ++ rest))) ::
      (first.spots (0x2C :: (others.text ++ rest)) ++ others.spots rest)

end Tree

def Writes (name value : List UInt8) (spot : List UInt8 × List UInt8) : Prop :=
  (quotation :: name) <:+ (quotation :: spot.1) ∧ (0x3A :: value) <+: spot.2

def Tree.Spells (tree : Tree .element) (name value : List UInt8) : Prop :=
  ∃ spot ∈ tree.spots [], Writes name value spot

/-! Where a piece of bytes begins in a text. -/

/-- Whether a piece begins in a text that goes on with `rest`. -/
def Begins (piece : List UInt8) : List UInt8 → List UInt8 → Prop
  | [], _ => False
  | c :: text, rest => piece <+: c :: (text ++ rest) ∨ Begins piece text rest

variable {piece text text' rest : List UInt8}

theorem begins_append :
    Begins piece (text ++ text') rest ↔ Begins piece text (text' ++ rest) ∨ Begins piece text' rest := by
  induction text with
  | nil => simp [Begins]
  | cons c text ih => rw [List.cons_append, Begins, Begins, ih, List.append_assoc, or_assoc]

theorem infix_iff_begins (nonempty : piece ≠ []) : piece <:+: text ↔ Begins piece text [] := by
  induction text with
  | nil => simp [Begins, nonempty]
  | cons c text ih => rw [List.infix_cons_iff, Begins, ih, List.append_nil]

theorem not_begins {c : UInt8} (absent : c ∉ text) : ¬Begins (c :: piece) text rest := by
  induction text with
  | nil => exact id
  | cons d text ih =>
    rw [List.mem_cons, not_or] at absent
    rw [Begins, List.cons_prefix_cons]
    exact fun begun => begun.elim (fun first => absent.1 first.1) (ih absent.2)

/-! Where a name is written. -/

def inName (c : UInt8) : Bool :=
  decide (0x20 < c) && c != quotation && c != escape && c != 0x2C && c != 0x3A && c != 0x5D && c != 0x7D

def Plain (name : List UInt8) : Prop :=
  name ≠ [] ∧ name.all inName = true

instance (name : List UInt8) : Decidable (Plain name) :=
  inferInstanceAs (Decidable (_ ∧ _))

def Closes (rest : List UInt8) : Prop :=
  ∀ c ∈ rest.head?, inName c = false ∧ c ≠ 0x3A

variable {name value body : List UInt8}

theorem closes_cons {c : UInt8} (structural : inName c = false) (noColon : c ≠ 0x3A) :
    Closes (c :: rest) := by
  simp [Closes, structural, noColon]

theorem closes_spaces {spaces : List UInt8} (low : ∀ c ∈ spaces, c ≤ 0x20) (closes : Closes rest) :
    Closes (spaces ++ rest) := by
  cases spaces with
  | nil => exact closes
  | cons c spaces =>
    have space : c ≤ 0x20 := low c List.mem_cons_self
    refine closes_cons ?_ ?_
    · simp [inName, UInt8.not_lt.mpr space]
    · rintro rfl
      exact absurd space (by decide)

theorem inName_ne {c : UInt8} (is : inName c = true) : c ≠ quotation ∧ c ≠ escape := by
  simp only [inName, Bool.and_eq_true, bne_iff_ne] at is
  exact ⟨is.1.1.1.1.1.2, is.1.1.1.1.2⟩

theorem opened_body_iff (plain : name.all inName = true) (chars : Chars Scanned body) :
    (name ++ quotation :: value) <+: (body ++ quotation :: rest) ↔ body = name ∧ value <+: rest := by
  -- A quotation mark that ends the name cannot be one inside the string, which an escape announces.
  have different : quotation ≠ escape := by decide
  induction name generalizing body with
  | nil =>
    cases chars with
    | nil => simp
    | @cons one others char _ =>
      obtain ⟨c, rfl, noQuote, -⟩ | ⟨c, rfl⟩ := char
      · simp [List.cons_prefix_cons, Ne.symm noQuote]
      · simp [List.cons_prefix_cons, different]
  | cons n name ih =>
    simp only [List.all_cons, Bool.and_eq_true] at plain
    obtain ⟨noQuote, noEscape⟩ := inName_ne plain.1
    cases chars with
    | nil => simp [List.cons_prefix_cons, noQuote]
    | @cons one others char chars =>
      obtain ⟨c, rfl, -, -⟩ | ⟨c, rfl⟩ := char
      · simp only [List.cons_append, List.nil_append, List.cons_prefix_cons, List.cons.injEq,
          ih plain.2 chars, and_assoc]
        exact and_congr_left fun _ => eq_comm
      · simp [List.cons_prefix_cons, noEscape, Ne.symm noEscape]

/-- A name between quotation marks is written in a string exactly at its end, as a last part of it. -/
theorem begins_body_iff (plain : Plain name) (chars : Chars Scanned body)
    (behind : ∀ c ∈ rest.head?, inName c = false) :
    Begins (quoted name ++ value) (body ++ [quotation]) rest ↔
      (quotation :: name) <:+ body ∧ value <+: rest := by
  have different : quotation ≠ escape := by decide
  have opened : quoted name ++ value = quotation :: (name ++ quotation :: value) := by
    simp [quoted]
  rw [opened]
  induction chars with
  | nil =>
    -- Behind the last quotation mark of the string no name can begin.
    obtain ⟨n, others, rfl⟩ := List.exists_cons_of_ne_nil plain.1
    have first : inName n = true := by
      have all := plain.2
      rw [List.all_cons, Bool.and_eq_true] at all
      exact all.1
    have apart : ¬ (n :: (others ++ quotation :: value)) <+: rest := by
      intro begun
      cases rest with
      | nil => simp at begun
      | cons c rest =>
        have same := (List.cons_prefix_cons.mp begun).1
        have other := behind c rfl
        rw [← same, first] at other
        exact absurd other (by decide)
    simp [Begins, List.cons_prefix_cons, apart]
  | @cons one others char chars ih =>
    have start : (name ++ quotation :: value) <+: (others ++ quotation :: rest) ↔
        others = name ∧ value <+: rest := opened_body_iff plain.2 chars
    obtain ⟨c, rfl, noQuote, -⟩ | ⟨c, rfl⟩ := char
    · simp only [List.cons_append, List.nil_append, Begins, ih, List.cons_prefix_cons,
        List.suffix_cons_iff, List.cons.injEq, Ne.symm noQuote, false_and, false_or]
    · -- An escaped quotation mark may open the name.
      simp only [List.cons_append, List.nil_append, Begins, ih, List.cons_prefix_cons,
        List.append_assoc, start, List.suffix_cons_iff, List.cons.injEq, different, false_and,
        false_or]
      constructor
      · rintro (⟨same, whole, follows⟩ | ⟨ends, follows⟩)
        · exact ⟨Or.inl ⟨same, whole.symm⟩, follows⟩
        · exact ⟨Or.inr ends, follows⟩
      · rintro ⟨⟨same, whole⟩ | ends, follows⟩
        · exact Or.inl ⟨same, whole.symm, follows⟩
        · exact Or.inr ⟨ends, follows⟩

theorem begins_quoted_iff (plain : Plain name) (chars : Chars Scanned body)
    (behind : ∀ c ∈ rest.head?, inName c = false) :
    Begins (quoted name ++ value) (quoted body) rest ↔
      (quotation :: name) <:+ (quotation :: body) ∧ value <+: rest := by
  have start : (name ++ quotation :: value) <+: (body ++ quotation :: rest) ↔
      body = name ∧ value <+: rest := opened_body_iff plain.2 chars
  rw [show quoted body = quotation :: (body ++ [quotation]) from rfl, Begins,
    begins_body_iff plain chars behind, List.suffix_cons_iff]
  simp only [quoted, List.cons_append, List.append_assoc, List.cons_prefix_cons, true_and,
    List.nil_append, start, List.cons.injEq]
  constructor
  · rintro (⟨whole, follows⟩ | ⟨ends, follows⟩)
    · exact ⟨Or.inl whole.symm, follows⟩
    · exact ⟨Or.inr ends, follows⟩
  · rintro ⟨whole | ends, follows⟩
    · exact Or.inl ⟨whole.symm, follows⟩
    · exact Or.inr ⟨ends, follows⟩

/-! Whole texts. -/

theorem not_begins_quoted (absent : quotation ∉ text) : ¬Begins (quoted name ++ value) text rest :=
  not_begins absent

theorem begins_quoted_cons {c : UInt8} (structural : c ≠ quotation) :
    Begins (quoted name ++ value) (c :: text) rest ↔ Begins (quoted name ++ value) text rest := by
  rw [Begins, or_iff_right]
  exact fun first => structural (List.cons_prefix_cons.mp first).1.symm

theorem quotation_not_mem_spaces {spaces : List UInt8} (low : ∀ c ∈ spaces, c ≤ 0x20) :
    quotation ∉ spaces :=
  fun inside => absurd (low quotation inside) (by decide)

theorem quotation_not_mem_number (scannable : Scannable (.number text)) : quotation ∉ text := by
  obtain ⟨c, others, rfl, starts, goesOn⟩ := scannable
  intro inside
  obtain rfl | later := List.mem_cons.mp inside
  · exact absurd starts (by decide)
  · exact absurd (goesOn quotation later) (by decide)

theorem begins_member_iff (plain : Plain name) {before after : List UInt8}
    (scannable : ∀ leaf ∈ before.map Leaf.space ++ (.string body :: after.map Leaf.space),
      Scannable leaf) :
    Begins (quoted name ++ 0x3A :: value) (before ++ (quoted body ++ (after ++ 0x3A :: text))) rest ↔
      Writes name value (body, after ++ 0x3A :: (text ++ rest)) ∨
        Begins (quoted name ++ 0x3A :: value) text rest := by
  simp only [List.mem_append, List.mem_cons, or_imp, forall_and, forall_eq] at scannable
  obtain ⟨spaces, chars, spaces'⟩ := scannable
  have low := spaces_of_scannable spaces'
  -- What follows the name is a space or the colon.
  have ends : ∀ c ∈ ((after ++ 0x3A :: text) ++ rest).head?, inName c = false := by
    cases after with
    | nil =>
      intro c first
      cases first
      decide
    | cons d after =>
      intro c first
      cases first
      simp [inName, UInt8.not_lt.mpr (low d List.mem_cons_self)]
  have free : quotation ∉ after ++ [0x3A] := by
    rw [List.mem_append, not_or]
    exact ⟨quotation_not_mem_spaces low, by decide⟩
  rw [begins_append, or_iff_right (not_begins_quoted (quotation_not_mem_spaces
    (spaces_of_scannable spaces))), begins_append, begins_quoted_iff plain chars ends,
    show after ++ 0x3A :: text = (after ++ [0x3A]) ++ text by simp, begins_append,
    or_iff_right (not_begins_quoted free)]
  simp [Writes]

/-- A name is written with a value in a text exactly where a member says so. -/
theorem Tree.begins_text_iff (plain : Plain name) {rule : Rule} (tree : Tree rule)
    (scannable : ∀ leaf ∈ tree.leaves, Scannable leaf) (closes : Closes rest) :
    Begins (quoted name ++ 0x3A :: value) tree.text rest ↔
      ∃ spot ∈ tree.spots rest, Writes name value spot := by
  induction tree generalizing rest with
  | literal word =>
    have absent : quotation ∉ word.text := by cases word <;> decide
    simp [Tree.text, Tree.spots, not_begins_quoted absent]
  | number text =>
    have absent := quotation_not_mem_number (scannable (.number text) List.mem_cons_self)
    simp [Tree.text, Tree.spots, not_begins_quoted absent]
  | string body =>
    -- A colon never follows a value.
    have noColon : ¬ (0x3A :: value) <+: rest := by
      intro begun
      cases rest with
      | nil => simp at begun
      | cons c rest => exact (closes c rfl).2 (List.cons_prefix_cons.mp begun).1.symm
    rw [Tree.text, begins_quoted_iff plain (scannable (.string body) List.mem_cons_self)
      fun c first => (closes c first).1]
    simp [Tree.spots, noColon]
  | emptyObject inside =>
    have low := spaces_of_scannable scannable
    have absent : quotation ∉ 0x7B :: (inside ++ [0x7D]) := by
      simp only [List.mem_cons, List.mem_append, List.not_mem_nil, or_false, not_or]
      exact ⟨by decide, quotation_not_mem_spaces low, by decide⟩
    simp [Tree.text, Tree.spots, not_begins_quoted absent]
  | object members ih =>
    have closed : quotation ∉ [(0x7D : UInt8)] := by decide
    rw [Tree.text, begins_quoted_cons (by decide), begins_append,
      or_iff_left (not_begins_quoted closed), List.singleton_append,
      ih scannable (closes_cons (by decide) (by decide))]
    rfl
  | emptyArray inside =>
    have low := spaces_of_scannable scannable
    have absent : quotation ∉ 0x5B :: (inside ++ [0x5D]) := by
      simp only [List.mem_cons, List.mem_append, List.not_mem_nil, or_false, not_or]
      exact ⟨by decide, quotation_not_mem_spaces low, by decide⟩
    simp [Tree.text, Tree.spots, not_begins_quoted absent]
  | array elements ih =>
    have closed : quotation ∉ [(0x5D : UInt8)] := by decide
    rw [Tree.text, begins_quoted_cons (by decide), begins_append,
      or_iff_left (not_begins_quoted closed), List.singleton_append,
      ih scannable (closes_cons (by decide) (by decide))]
    rfl
  | element before inner after ih =>
    simp only [Tree.leaves, List.mem_append, or_imp, forall_and] at scannable
    obtain ⟨first, values, last⟩ := scannable
    have low := spaces_of_scannable last
    rw [Tree.text, begins_append, begins_append,
      or_iff_right (not_begins_quoted (quotation_not_mem_spaces (spaces_of_scannable first))),
      or_iff_left (not_begins_quoted (quotation_not_mem_spaces low)),
      ih values (closes_spaces low closes)]
    rfl
  | lastElement last ih => exact ih scannable closes
  | moreElements first others ihFirst ihOthers =>
    simp only [Tree.leaves, List.mem_append, or_imp, forall_and] at scannable
    rw [Tree.text, begins_append, begins_quoted_cons (by decide), List.cons_append,
      ihFirst scannable.1 (closes_cons (by decide) (by decide)), ihOthers scannable.2 closes]
    simp [Tree.spots, or_and_right, exists_or]
  | lastMember before body after last ih =>
    have leaves : ∀ leaf ∈ before.map Leaf.space ++ (.string body :: after.map Leaf.space),
        Scannable leaf := fun leaf inside => scannable leaf (by
      simp only [Tree.leaves, List.mem_append, List.mem_cons] at inside ⊢
      tauto)
    have lastLeaves : ∀ leaf ∈ last.leaves, Scannable leaf := fun leaf inside => scannable leaf (by
      simp only [Tree.leaves, List.mem_append, List.mem_cons]
      tauto)
    rw [Tree.text, begins_member_iff plain leaves, ih lastLeaves closes]
    simp [Tree.spots]
  | moreMembers before body after first others ihFirst ihOthers =>
    have leaves : ∀ leaf ∈ before.map Leaf.space ++ (.string body :: after.map Leaf.space),
        Scannable leaf := fun leaf inside => scannable leaf (by
      simp only [Tree.leaves, List.mem_append, List.mem_cons] at inside ⊢
      tauto)
    have firstLeaves : ∀ leaf ∈ first.leaves, Scannable leaf := fun leaf inside => scannable leaf (by
      simp only [Tree.leaves, List.mem_append, List.mem_cons]
      tauto)
    have otherLeaves : ∀ leaf ∈ others.leaves, Scannable leaf := fun leaf inside => scannable leaf (by
      simp only [Tree.leaves, List.mem_append, List.mem_cons]
      tauto)
    rw [Tree.text, begins_member_iff plain leaves, begins_append, begins_quoted_cons (by decide),
      List.cons_append, ihFirst firstLeaves (closes_cons (by decide) (by decide)),
      ihOthers otherLeaves closes]
    simp [Tree.spots, or_and_right, exists_or]

theorem Tree.infix_text_iff (plain : Plain name) (tree : Tree .element)
    (scannable : ∀ leaf ∈ tree.leaves, Scannable leaf) :
    (quoted name ++ 0x3A :: value) <:+: tree.text ↔ tree.Spells name value := by
  have ends : Closes [] := by simp [Closes]
  rw [infix_iff_begins (by simp [quoted]), tree.begins_text_iff plain scannable ends]
  rfl

end AgentC.JsonText

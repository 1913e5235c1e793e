import Mathlib.Data.UInt
import Mathlib.Data.List.Basic

/-!
The grammar of JSON texts (RFC 8259) over bytes.

A derivation is a tree that keeps every byte of the text. What may stand at its leaves, that is as
a space, as a number and between two quotes, is a predicate of its own, so that a reader which is
more generous there can be compared with the RFC.
-/

namespace AgentC.JsonText

def quotation : UInt8 := 0x22

def escape : UInt8 := 0x5C

/-- What is derived. An element is a value with the spaces around it. -/
inductive Rule where
  | value
  | element
  | elements
  | members

inductive Literal where
  | null
  | true
  | false

def Literal.text : Literal → List UInt8
  | .null => [0x6E, 0x75, 0x6C, 0x6C]
  | .true => [0x74, 0x72, 0x75, 0x65]
  | .false => [0x66, 0x61, 0x6C, 0x73, 0x65]

/--
A derivation.

The RFC allows spaces around its structural characters and around the text. They stand here around
the elements and the names between these characters, and inside an empty object or array.
-/
inductive Tree : Rule → Type
  | literal (word : Literal) : Tree .value
  | number (text : List UInt8) : Tree .value
  | string (body : List UInt8) : Tree .value
  | emptyObject (inside : List UInt8) : Tree .value
  | object (members : Tree .members) : Tree .value
  | emptyArray (inside : List UInt8) : Tree .value
  | array (elements : Tree .elements) : Tree .value
  | element (before : List UInt8) (value : Tree .value) (after : List UInt8) : Tree .element
  | lastElement (last : Tree .element) : Tree .elements
  | moreElements (first : Tree .element) (others : Tree .elements) : Tree .elements
  | lastMember (before name after : List UInt8) (last : Tree .element) : Tree .members
  | moreMembers (before name after : List UInt8) (first : Tree .element) (others : Tree .members) :
      Tree .members

def quoted (body : List UInt8) : List UInt8 :=
  quotation :: (body ++ [quotation])

namespace Tree

/-- The text that is derived. -/
def text : {rule : Rule} → Tree rule → List UInt8
  | _, .literal word => word.text
  | _, .number text => text
  | _, .string body => quoted body
  | _, .emptyObject inside => 0x7B :: (inside ++ [0x7D])
  | _, .object members => 0x7B :: (members.text ++ [0x7D])
  | _, .emptyArray inside => 0x5B :: (inside ++ [0x5D])
  | _, .array elements => 0x5B :: (elements.text ++ [0x5D])
  | _, .element before value after => before ++ (value.text ++ after)
  | _, .lastElement last => last.text
  | _, .moreElements first others => first.text ++ 0x2C :: others.text
  | _, .lastMember before name after last => before ++ (quoted name ++ (after ++ 0x3A :: last.text))
  | _, .moreMembers before name after first others =>
    before ++ (quoted name ++ (after ++ 0x3A :: (first.text ++ 0x2C :: others.text)))

end Tree

/-- A leaf of a derivation: a space, a number, or what stands between two quotation marks. -/
inductive Leaf where
  | space (c : UInt8)
  | number (text : List UInt8)
  | string (body : List UInt8)
  deriving DecidableEq

def Tree.leaves : {rule : Rule} → Tree rule → List Leaf
  | _, .literal _ => []
  | _, .number text => [.number text]
  | _, .string body => [.string body]
  | _, .emptyObject inside => inside.map .space
  | _, .object members => members.leaves
  | _, .emptyArray inside => inside.map .space
  | _, .array elements => elements.leaves
  | _, .element before value after => before.map .space ++ (value.leaves ++ after.map .space)
  | _, .lastElement last => last.leaves
  | _, .moreElements first others => first.leaves ++ others.leaves
  | _, .lastMember before name after last =>
    before.map .space ++ (.string name :: (after.map .space ++ last.leaves))
  | _, .moreMembers before name after first others =>
    before.map .space ++
      (.string name :: (after.map .space ++ (first.leaves ++ others.leaves)))

def Digits (text : List UInt8) : Prop :=
  ∀ c ∈ text, 0x30 ≤ c ∧ c ≤ 0x39

/-- A minus sign, an integer, a fraction and an exponent, of which only the integer has to be. -/
def NumberOf (int run : List UInt8 → Prop) (text : List UInt8) : Prop :=
  ∃ minus whole fraction exponent, text = minus ++ (whole ++ (fraction ++ exponent)) ∧
    (minus = [] ∨ minus = [0x2D]) ∧ int whole ∧
    (fraction = [] ∨ ∃ digits, fraction = 0x2E :: digits ∧ run digits) ∧
    (exponent = [] ∨ ∃ e sign digits, exponent = e :: (sign ++ digits) ∧ (e = 0x65 ∨ e = 0x45) ∧
      (sign = [] ∨ sign = [0x2B] ∨ sign = [0x2D]) ∧ run digits)

/-- The characters of a string, one behind the other. -/
inductive Chars (char : List UInt8 → Prop) : List UInt8 → Prop
  | nil : Chars char []
  | cons {one others : List UInt8} : char one → Chars char others → Chars char (one ++ others)

def HexDigit (c : UInt8) : Prop :=
  (0x30 ≤ c ∧ c ≤ 0x39) ∨ (0x61 ≤ c ∧ c ≤ 0x66) ∨ (0x41 ≤ c ∧ c ≤ 0x46)

def Escaped (char : List UInt8) : Prop :=
  (∃ c, char = [escape, c] ∧ c ∈ [quotation, escape, 0x2F, 0x62, 0x66, 0x6E, 0x72, 0x74]) ∨
    ∃ h0 h1 h2 h3, char = [escape, 0x75, h0, h1, h2, h3] ∧
      HexDigit h0 ∧ HexDigit h1 ∧ HexDigit h2 ∧ HexDigit h3

def Unescaped (char : List UInt8) : Prop :=
  ∃ c : Char, 0x20 ≤ c.toNat ∧ c.toNat ≠ 0x22 ∧ c.toNat ≠ 0x5C ∧ char = String.utf8EncodeChar c

def Rfc8259 : Leaf → Prop
  | .space c => c ∈ [0x20, 0x09, 0x0A, 0x0D]
  | .number text =>
    NumberOf
      (fun whole => whole = [0x30] ∨
        ∃ c digits, whole = c :: digits ∧ (0x31 ≤ c ∧ c ≤ 0x39) ∧ Digits digits)
      (fun digits => digits ≠ [] ∧ Digits digits) text
  | .string body => Chars (fun char => Unescaped char ∨ Escaped char) body

def Derives (allows : Leaf → Prop) (text : List UInt8) : Prop :=
  ∃ tree : Tree .element, tree.text = text ∧ ∀ leaf ∈ tree.leaves, allows leaf

def IsJsonText (text : List UInt8) : Prop :=
  Derives Rfc8259 text

/-! Finding the leaves of a text without its structure, one byte after the other. -/

/-- Where a scan stands: outside, in a number, in a string, or behind a reverse solidus in one. -/
inductive Place where
  | outside
  | number (read : List UInt8)
  | string (read : List UInt8)
  | escaped (read : List UInt8)
  deriving DecidableEq

def startsNumber (c : UInt8) : Bool :=
  c = 0x2D || (0x30 ≤ c && c ≤ 0x39)

def inNumber (c : UInt8) : Bool :=
  startsNumber c || c = 0x2E || c = 0x65 || c = 0x45 || c = 0x2B

/-- The place after a byte, with the leaves that it ends. -/
def Place.enter (c : UInt8) : Place × List Leaf :=
  if c = quotation then (.string [], [])
  else if startsNumber c then (.number [c], [])
  else if c ≤ 0x20 then (.outside, [.space c])
  else (.outside, [])

/-- One byte of a scan. -/
def Place.step : Place → UInt8 → Place × List Leaf
  | .outside, c => Place.enter c
  | .number read, c =>
    if inNumber c then (.number (read ++ [c]), [])
    else ((Place.enter c).1, .number read :: (Place.enter c).2)
  | .string read, c =>
    if c = quotation then (.outside, [.string read])
    else if c = escape then (.escaped (read ++ [c]), [])
    else (.string (read ++ [c]), [])
  | .escaped read, c => (.string (read ++ [c]), [])

def Place.last : Place → List Leaf
  | .number read => [.number read]
  | _ => []

def scan : Place → List UInt8 → List Leaf
  | place, [] => place.last
  | place, c :: rest => (place.step c).2 ++ scan (place.step c).1 rest

end AgentC.JsonText

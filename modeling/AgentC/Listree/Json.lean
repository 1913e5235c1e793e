import AgentC.Listree.Tree

/-! Writing a Listree value as JSON text, and reading JSON text as a Listree value. -/

namespace AgentC.Listree

/--
A value without flags other than `Null` and `List`, and without shared or cyclic parts.

`lost` is a string value whose blob could not be allocated: it has a length and no data.
`list` has its children in insertion order. `dict` has what `forEachTree` visits with the latest
value of each item, so that null is the dictionary without fields.
-/
inductive ListreeValue where
  | text (bytes : List UInt8)
  | lost (length : Nat)
  | list (children : List ListreeValue)
  | dict (fields : List (Name × ListreeValue))
  deriving Repr

/-- The largest string that `BlobAllocator` stores (`kBlobSlabBytes`). -/
@[irreducible] def kBlobSlabBytes : Nat := 65536

def createStringValue (str : List UInt8) : ListreeValue :=
  if str.length ≤ kBlobSlabBytes then .text str else .lost str.length

def createNullValue : ListreeValue :=
  .dict []

def byte (c : Char) : UInt8 :=
  UInt8.ofNat c.toNat

def quote : UInt8 := 0x22

def backslash : UInt8 := 0x5C

def hexDigit (value : Nat) : UInt8 :=
  if value < 10 then UInt8.ofNat (0x30 + value) else UInt8.ofNat (0x61 + (value - 10))

/-- The format `%04x`. -/
def hex4 (value : Nat) : List UInt8 :=
  [hexDigit (value / 4096 % 16), hexDigit (value / 256 % 16), hexDigit (value / 16 % 16),
    hexDigit (value % 16)]

/-- What `jsonEscapeString` writes for one byte. -/
def jsonEscape (c : UInt8) : List UInt8 :=
  if c = quote then [backslash, quote]
  else if c = backslash then [backslash, backslash]
  else if c = 0x0A then [backslash, byte 'n']
  else if c = 0x0D then [backslash, byte 'r']
  else if c = 0x09 then [backslash, byte 't']
  else if c = 0x08 then [backslash, byte 'b']
  else if c = 0x0C then [backslash, byte 'f']
  else if c < 0x20 then backslash :: byte 'u' :: hex4 c.toNat
  else [c]

def jsonEscapeString (data : List UInt8) : List UInt8 :=
  quote :: (data.flatMap jsonEscape ++ [quote])

/-- The literal `null`. -/
def nullLiteral : List UInt8 :=
  [byte 'n', byte 'u', byte 'l', byte 'l']

def commaSeparated : List (List UInt8) → List UInt8
  | [] => []
  | [part] => part
  | part :: next :: rest => part ++ byte ',' :: commaSeparated (next :: rest)

/--
Writing a value. Nothing is returned where the source reads past the data of a `lost` string.

The first argument is 257 less the depth, so that at depth 257 everything is written as null.
-/
def ltvToJsonHelper : Nat → ListreeValue → Option (List UInt8)
  | 0, _ => some nullLiteral
  | _ + 1, .text bytes => some (jsonEscapeString bytes)
  | _ + 1, .lost _ => none
  | remaining + 1, .list children =>
    (children.mapM (ltvToJsonHelper remaining)).map fun parts =>
      byte '[' :: (commaSeparated parts ++ [byte ']'])
  | remaining + 1, .dict fields =>
    if fields.isEmpty then some nullLiteral
    else
      (fields.mapM fun field => (ltvToJsonHelper remaining field.2).map fun part =>
        jsonEscapeString field.1 ++ byte ':' :: part).map fun parts =>
          byte '{' :: (commaSeparated parts ++ [byte '}'])

def toJson (value : ListreeValue) : Option (List UInt8) :=
  ltvToJsonHelper 257 value

def skipWs (input : List UInt8) : List UInt8 :=
  input.dropWhile (· ≤ 0x20)

/-- The value of a hexadecimal digit. -/
def hexVal (c : UInt8) : Option Nat :=
  if 0x30 ≤ c ∧ c ≤ 0x39 then some (c.toNat - 0x30)
  else if 0x61 ≤ c ∧ c ≤ 0x66 then some (c.toNat - 0x61 + 10)
  else if 0x41 ≤ c ∧ c ≤ 0x46 then some (c.toNat - 0x41 + 10)
  else none

/-- The number that the next four hexadecimal digits denote, with what follows them. -/
def hex4Val : List UInt8 → Option (Nat × List UInt8)
  | h0 :: h1 :: h2 :: h3 :: rest =>
    match hexVal h0, hexVal h1, hexVal h2, hexVal h3 with
    | some d0, some d1, some d2, some d3 => some (d0 * 4096 + d1 * 256 + d2 * 16 + d3, rest)
    | _, _, _, _ => none
  | _ => none

/-- The UTF-8 bytes of a code point. -/
def encodeUtf8 (cp : Nat) : List UInt8 :=
  if cp ≤ 0x7F then [UInt8.ofNat cp]
  else if cp ≤ 0x7FF then [UInt8.ofNat (0xC0 + cp / 64), UInt8.ofNat (0x80 + cp % 64)]
  else if cp ≤ 0xFFFF then
    [UInt8.ofNat (0xE0 + cp / 4096), UInt8.ofNat (0x80 + cp / 64 % 64), UInt8.ofNat (0x80 + cp % 64)]
  else
    [UInt8.ofNat (0xF0 + cp / 262144), UInt8.ofNat (0x80 + cp / 4096 % 64),
      UInt8.ofNat (0x80 + cp / 64 % 64), UInt8.ofNat (0x80 + cp % 64)]

/-- The code point of a `\u` escape, where a surrogate pair is read together when it is complete. -/
def unicodeEscape (input : List UInt8) : Option (Nat × List UInt8) :=
  match hex4Val input with
  | none => none
  | some (cp, rest) =>
    if 0xD800 ≤ cp ∧ cp ≤ 0xDBFF then
      match rest with
      | c :: c' :: low =>
        if c = backslash ∧ c' = byte 'u' then
          match hex4Val low with
          | some (lo, after) =>
            if 0xDC00 ≤ lo ∧ lo ≤ 0xDFFF then
              some (0x10000 + (cp - 0xD800) * 1024 + (lo - 0xDC00), after)
            else some (cp, rest)
          | none => some (cp, rest)
        else some (cp, rest)
      | _ => some (cp, rest)
    else some (cp, rest)

/-- The bytes that the escape after a backslash stands for, with what follows it. -/
def unescape : List UInt8 → Option (List UInt8 × List UInt8)
  | [] => none
  | c :: rest =>
    if c = quote then some ([quote], rest)
    else if c = backslash then some ([backslash], rest)
    else if c = byte '/' then some ([byte '/'], rest)
    else if c = byte 'n' then some ([0x0A], rest)
    else if c = byte 'r' then some ([0x0D], rest)
    else if c = byte 't' then some ([0x09], rest)
    else if c = byte 'b' then some ([0x08], rest)
    else if c = byte 'f' then some ([0x0C], rest)
    else if c = byte 'u' then (unicodeEscape rest).map fun (cp, after) => (encodeUtf8 cp, after)
    else none

/--
The loop of `parse_raw_string`, which ends after the closing quote.

The first argument bounds the number of rounds by the length of the input.
-/
def parseChars : Nat → List UInt8 → Option (List UInt8 × List UInt8)
  | 0, _ => none
  | _ + 1, [] => none
  | rounds + 1, c :: rest =>
    if c = quote then some ([], rest)
    else if c ≠ backslash then
      (parseChars rounds rest).map fun (out, after) => (c :: out, after)
    else
      match unescape rest with
      | some (bytes, rest) =>
        (parseChars rounds rest).map fun (out, after) => (bytes ++ out, after)
      | none => none

def parseRawString : List UInt8 → Option (List UInt8 × List UInt8)
  | c :: rest => if c = quote then parseChars (rest.length + 1) rest else none
  | [] => none

def isDigit (c : UInt8) : Bool :=
  0x30 ≤ c && c ≤ 0x39

def skipOne (choices input : List UInt8) : List UInt8 :=
  match input with
  | c :: rest => if c ∈ choices then rest else input
  | [] => []

/-- Reading a number as the text it is written as. -/
def parseNumber (input : List UInt8) : Option (ListreeValue × List UInt8) :=
  let whole := (skipOne [byte '-'] input).dropWhile isDigit
  let fraction := if skipOne [byte '.'] whole = whole then whole
    else (skipOne [byte '.'] whole).dropWhile isDigit
  let rest := if skipOne [byte 'e', byte 'E'] fraction = fraction then fraction
    else (skipOne [byte '+', byte '-'] (skipOne [byte 'e', byte 'E'] fraction)).dropWhile isDigit
  if rest = input then none
  else some (createStringValue (input.take (input.length - rest.length)), rest)

def parseLiteral (literal : List UInt8) (value : ListreeValue) (input : List UInt8) :
    Option (ListreeValue × List UInt8) :=
  if literal.isPrefixOf input then some (value, input.drop literal.length) else none

def finishObject (items : AATree (List ListreeValue)) : ListreeValue :=
  .dict (items.entries.filterMap fun entry => entry.2.head?.map fun value => (entry.1, value))

mutual

/-- Reading a value. The first argument bounds the recursion, as in the loops below. -/
def parseValue : Nat → List UInt8 → Option (ListreeValue × List UInt8)
  | 0, _ => none
  | fuel + 1, input =>
    match skipWs input with
    | [] => none
    | c :: rest =>
      if c = quote then
        (parseRawString (c :: rest)).map fun (str, after) => (createStringValue str, after)
      else if c = byte '{' then
        match skipWs rest with
        | d :: after => if d = byte '}' then some (createNullValue, after)
          else parseMembers fuel (d :: after) AATree.new_
        | [] => none
      else if c = byte '[' then
        match skipWs rest with
        | d :: after => if d = byte ']' then some (.list [], after)
          else parseElements fuel (d :: after) []
        | [] => none
      else if c = byte 'n' then parseLiteral nullLiteral createNullValue (c :: rest)
      else if c = byte 't' then
        let literal := [byte 't', byte 'r', byte 'u', byte 'e']
        parseLiteral literal (createStringValue literal) (c :: rest)
      else if c = byte 'f' then
        let literal := [byte 'f', byte 'a', byte 'l', byte 's', byte 'e']
        parseLiteral literal (createStringValue literal) (c :: rest)
      else if c = byte '-' || isDigit c then parseNumber (c :: rest)
      else none

/-- The loop of `parse_object`, after the opening brace. -/
def parseMembers : Nat → List UInt8 → AATree (List ListreeValue) →
    Option (ListreeValue × List UInt8)
  | 0, _, _ => none
  | fuel + 1, input, items =>
    match parseRawString (skipWs input) with
    | none => none
    | some (key, afterKey) =>
      match skipWs afterKey with
      | colon :: afterColon =>
        if colon = byte ':' then
          match parseValue fuel afterColon with
          | none => none
          | some (value, afterValue) =>
            match skipWs afterValue with
            | c :: after =>
              if c = byte ',' then parseMembers fuel after (items.addNamedItem key value)
              else if c = byte '}' then some (finishObject (items.addNamedItem key value), after)
              else none
            | [] => none
        else none
      | [] => none

/-- The loop of `parse_array`, after the opening bracket. -/
def parseElements : Nat → List UInt8 → List ListreeValue → Option (ListreeValue × List UInt8)
  | 0, _, _ => none
  | fuel + 1, input, children =>
    match parseValue fuel input with
    | none => none
    | some (value, afterValue) =>
      match skipWs afterValue with
      | c :: after =>
        if c = byte ',' then parseElements fuel after (children ++ [value])
        else if c = byte ']' then some (.list (children ++ [value]), after)
        else none
      | [] => none

end

/-- The value of a JSON text, with nothing but spaces after it. -/
def fromJson (json : List UInt8) : Option ListreeValue :=
  match parseValue (2 * json.length + 2) json with
  | some (value, rest) => if (skipWs rest).isEmpty then some value else none
  | none => none

end AgentC.Listree

import AgentC.Library.Parsing
import AgentC.Listree.CircularList
import AgentC.Cartographer.Boxing

/-! What a parser has found in a header, as the JSON text in which a worker passes it on. -/

namespace AgentC.Cartographer

open Listree (backslash byte isDigit)

abbrev ParseDescription := List NodeDescription

namespace Protocol

section Writing

/-- What `escapeJsonString` writes for one byte. -/
def escapeJsonByte (ch : UInt8) : List UInt8 :=
  if ch = backslash then [backslash, backslash]
  else if ch = Listree.quote then [backslash, Listree.quote]
  else if ch = 0x0A then [backslash, byte 'n']
  else if ch = 0x0D then [backslash, byte 'r']
  else if ch = 0x09 then [backslash, byte 't']
  else [ch]

def escapeJsonString (value : List UInt8) : List UInt8 :=
  value.flatMap escapeJsonByte

def jsonString (value : List UInt8) : List UInt8 :=
  Listree.quote :: (escapeJsonString value ++ [Listree.quote])

def jsonInt : Option Int32 → List UInt8
  | some value => decimal value.toInt
  | none => ascii "null"

def jsonKey (first : Bool) (key : List UInt8) : List UInt8 :=
  (if first then [] else [byte ',']) ++ (jsonString key ++ [byte ':'])

mutual

/-- The text of a declaration. -/
def appendJsonNode : NodeDescription → List UInt8
  | ⟨key, kind, name, type, returnType, size, offset, children⟩ =>
    byte '{' :: (jsonKey true (ascii "key") ++ (jsonString key ++
    (jsonKey false (ascii "kind") ++ (jsonString kind ++
    (jsonKey false (ascii "name") ++ (jsonString name ++
    (jsonKey false (ascii "type") ++ (jsonString type ++
    (jsonKey false (ascii "return_type") ++ (jsonString returnType ++
    (jsonKey false (ascii "size") ++ (jsonInt size ++
    (jsonKey false (ascii "offset") ++ (jsonInt offset ++
    (jsonKey false (ascii "children") ++
    (byte '[' :: (appendJsonNodes true children ++ [byte ']', byte '}'])))))))))))))))))

def appendJsonNodes (first : Bool) : List NodeDescription → List UInt8
  | [] => []
  | node :: rest =>
    (if first then [] else [byte ',']) ++ (appendJsonNode node ++ appendJsonNodes false rest)

end

def encodeParseDescription (description : ParseDescription) : List UInt8 :=
  byte '{' :: (jsonString (ascii "symbols") ++
    (byte ':' :: byte '[' :: (appendJsonNodes true description ++ [byte ']', byte '}'])))

end Writing

section Reading

abbrev JsonParser (α : Type) := Parser (List UInt8) α

def JsonParser.skipWhitespace : JsonParser Unit :=
  modify (List.dropWhile isSpace)

/-- Reads the byte if it comes next. -/
def JsonParser.consume (expected : UInt8) : JsonParser Bool := do
  skipWhitespace
  match ← get with
  | [] => return false
  | ch :: rest =>
    if ch = expected then
      set rest
      return true
    else return false

/-- The byte for a letter behind a backslash. -/
def unescapeJson (escaped : UInt8) : Option UInt8 :=
  if escaped = backslash then some backslash
  else if escaped = Listree.quote then some Listree.quote
  else if escaped = byte 'n' then some 0x0A
  else if escaped = byte 'r' then some 0x0D
  else if escaped = byte 't' then some 0x09
  else none

/-- The loop over a JSON string, after the opening quote. -/
def parseChars : List UInt8 → Except (List UInt8) (List UInt8 × List UInt8)
  | [] => .error (ascii "JSON string is missing a closing quote")
  | ch :: rest =>
    if ch = Listree.quote then .ok ([], rest)
    else if ch ≠ backslash then (parseChars rest).map fun (out, rest) => (ch :: out, rest)
    else
      match rest with
      | [] => .error (ascii "JSON string ends with dangling escape")
      | escaped :: rest =>
        match unescapeJson escaped with
        | none => .error (ascii "Unsupported JSON escape: " ++ [escaped])
        | some ch => (parseChars rest).map fun (out, rest) => (ch :: out, rest)

def JsonParser.parseString : JsonParser (List UInt8) := do
  skipWhitespace
  match ← get with
  | [] => throw (ascii "Expected JSON string")
  | ch :: rest =>
    if ch = Listree.quote then
      set rest
      parseChars
    else throw (ascii "Expected JSON string")

/-- The number that `strtol` makes of digits with a sign, as an `int`. -/
def strtolInt (negative : Bool) (digits : List UInt8) : Int32 :=
  let magnitude : Nat := digits.foldl (fun n c => 10 * n + (c.toNat - 0x30)) 0
  Int32.ofInt (if negative then max (-magnitude : Int) (-2 ^ 63) else min magnitude (2 ^ 63 - 1))

def JsonParser.parseInt : JsonParser (Option Int32) := do
  skipWhitespace
  let input ← get
  if input = [] then throw (ascii "Expected JSON integer or null")
  else if input.take 4 = ascii "null" then
    set (input.drop 4)
    return none
  else
    let unsigned := Listree.skipOne [byte '-'] input
    let digits := unsigned.takeWhile isDigit
    if digits = [] then throw (ascii "Expected JSON integer")
    else
      set (unsigned.dropWhile isDigit)
      return some (strtolInt (input.head? = some (byte '-')) digits)

def JsonParser.expect (expected : UInt8) (error : String) : JsonParser Unit := do
  if !(← consume expected) then throw (ascii error)

def emptyNode : NodeDescription where
  key := []
  kind := []
  name := []
  type := []
  returnType := []
  size := none
  offset := none
  children := []

/-- Reads the field of a declaration that a key names. -/
def parseField (children : JsonParser (List NodeDescription)) (out : NodeDescription)
    (key : List UInt8) : JsonParser NodeDescription := do
  if key = ascii "key" then
    let key ← JsonParser.parseString
    return { out with key }
  else if key = ascii "kind" then
    let kind ← JsonParser.parseString
    return { out with kind }
  else if key = ascii "name" then
    let name ← JsonParser.parseString
    return { out with name }
  else if key = ascii "type" then
    let type ← JsonParser.parseString
    return { out with type }
  else if key = ascii "return_type" then
    let returnType ← JsonParser.parseString
    return { out with returnType }
  else if key = ascii "size" then
    let size ← JsonParser.parseInt
    return { out with size }
  else if key = ascii "offset" then
    let offset ← JsonParser.parseInt
    return { out with offset }
  else if key = ascii "children" then
    JsonParser.expect (byte '[') "Expected JSON array for children"
    let children ← children
    return { out with children }
  else throw (ascii "Unexpected JSON field in API schema: " ++ key)

mutual

/--
Reads a declaration.

The first argument bounds the calls within each other. Around every call there are at most as many
others as bytes have been read, so one more than the length of the text is enough.
-/
def parseNode : Nat → JsonParser NodeDescription
  | 0 => throw []
  | fuel + 1 => do
    JsonParser.expect (byte '{') "Expected JSON object for API node"
    parseFields fuel true emptyNode

/-- The loop over the fields of a declaration. -/
def parseFields : Nat → Bool → NodeDescription → JsonParser NodeDescription
  | 0, _, _ => throw []
  | fuel + 1, first, out => do
    if ← JsonParser.consume (byte '}') then return out
    else
      if !first then JsonParser.expect (byte ',') "Expected ',' between JSON object fields"
      let key ← JsonParser.parseString
      JsonParser.expect (byte ':') "Expected ':' after JSON object key"
      let out ← parseField (parseNodes "Expected ',' between child nodes" fuel true []) out key
      parseFields fuel false out

/-- The loop over declarations, up to the bracket behind them. -/
def parseNodes (error : String) : Nat → Bool → List NodeDescription →
    JsonParser (List NodeDescription)
  | 0, _, _ => throw []
  | fuel + 1, first, nodes => do
    if ← JsonParser.consume (byte ']') then return nodes
    else
      if !first then JsonParser.expect (byte ',') error
      let node ← parseNode fuel
      parseNodes error fuel false (nodes ++ [node])

end

def parseSchemaRoot (fuel : Nat) : JsonParser ParseDescription := do
  JsonParser.expect (byte '{') "Expected JSON object for API schema"
  let key ← JsonParser.parseString
  if key ≠ ascii "symbols" then throw (ascii "Expected top-level 'symbols' field in API schema")
  JsonParser.expect (byte ':') "Expected JSON array for top-level symbols"
  JsonParser.expect (byte '[') "Expected JSON array for top-level symbols"
  let symbols ← parseNodes "Expected ',' between top-level symbols" fuel true []
  JsonParser.expect (byte '}') "Expected closing JSON object for API schema"
  JsonParser.skipWhitespace
  if (← get) ≠ [] then throw (ascii "Unexpected trailing data after API schema JSON")
  return symbols

def decodeParseDescription (encoded : List UInt8) : Except (List UInt8) ParseDescription :=
  if encoded = [] then .ok []
  else (parseSchemaRoot (encoded.length + 1) encoded).map Prod.fst

end Reading

section Lists

def appendSymbol (symbols : CLL NodeDescription) (symbol : NodeDescription) : CLL NodeDescription :=
  symbols.store symbol true

def forEachSymbol (symbols : CLL NodeDescription) : List NodeDescription :=
  -- They are stored going forwards, and gone through backwards.
  symbols.forEach false

def symbolList (nodes : List NodeDescription) : CLL NodeDescription :=
  nodes.foldl appendSymbol CLL.empty

def encodeSymbols (symbols : CLL NodeDescription) : List UInt8 :=
  encodeParseDescription (forEachSymbol symbols)

def decodeSymbols (encoded : List UInt8) : Except (List UInt8) (CLL NodeDescription) :=
  (decodeParseDescription encoded).map symbolList

end Lists

end Protocol

end AgentC.Cartographer

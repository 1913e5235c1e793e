import AgentC.Cartographer.Protocol

/-! The API of a library with its symbols looked up, as the JSON text in which it is stored. -/

namespace AgentC.Cartographer.Resolver

open Listree (byte isDigit)
open Protocol

/-- A symbol of a library, with the outcome of its lookup. -/
structure ResolvedSymbol where
  key : List UInt8 := []
  kind : List UInt8 := []
  name : List UInt8 := []
  symbolName : List UInt8 := []
  resolutionStatus : List UInt8 := []
  address : List UInt8 := []
  deriving DecidableEq, Repr

structure ResolvedApi where
  libraryPath : List UInt8 := []
  fileSize : UInt64 := 0
  modifiedTimeNs : UInt64 := 0
  contentHash : List UInt8 := []
  addressBindingsProcessLocal : Bool := true
  parserSchemaFormat : List UInt8 := []
  parserSchemaJson : List UInt8 := []
  symbolCount : UInt64 := 0
  resolvedCount : UInt64 := 0
  unresolvedCount : UInt64 := 0
  symbols : List ResolvedSymbol := []
  deriving DecidableEq, Repr

def resolverSchemaFormatName : List UInt8 := ascii "resolver_json_v1"

section Lists

def appendSymbol (symbols : CLL ResolvedSymbol) (symbol : ResolvedSymbol) : CLL ResolvedSymbol :=
  symbols.store symbol false

def forEachSymbol (symbols : CLL ResolvedSymbol) : List ResolvedSymbol :=
  -- They are stored going backwards, and gone through forwards.
  symbols.forEach true

def symbolList (symbols : List ResolvedSymbol) : CLL ResolvedSymbol :=
  symbols.foldl appendSymbol CLL.empty

end Lists

section Writing

abbrev Members := List (List UInt8 × List UInt8)

def writeMembers (first : Bool) : Members → List UInt8
  | [] => []
  | (key, text) :: rest => jsonKey first key ++ (text ++ writeMembers false rest)

def writeObject (members : Members) : List UInt8 :=
  byte '{' :: (writeMembers true members ++ [byte '}'])

def writeElements (first : Bool) : List (List UInt8) → List UInt8
  | [] => []
  | text :: rest => (if first then [] else [byte ',']) ++ (text ++ writeElements false rest)

def writeBool (value : Bool) : List UInt8 :=
  if value then ascii "true" else ascii "false"

def symbolMembers (symbol : ResolvedSymbol) : Members :=
  [(ascii "key", jsonString symbol.key),
   (ascii "kind", jsonString symbol.kind),
   (ascii "name", jsonString symbol.name),
   (ascii "symbol", jsonString symbol.symbolName),
   (ascii "resolution_status", jsonString symbol.resolutionStatus)] ++
  -- A symbol without an address has no such member.
  if symbol.address = [] then [] else [(ascii "address", jsonString symbol.address)]

def libraryMembers (api : ResolvedApi) : Members :=
  [(ascii "path", jsonString api.libraryPath),
   (ascii "file_size", decimalDigits api.fileSize.toNat),
   (ascii "modified_time_ns", decimalDigits api.modifiedTimeNs.toNat),
   (ascii "content_hash", jsonString api.contentHash),
   (ascii "address_bindings_process_local", writeBool api.addressBindingsProcessLocal)]

def summaryMembers (api : ResolvedApi) : Members :=
  [(ascii "symbol_count", decimalDigits api.symbolCount.toNat),
   (ascii "resolved_count", decimalDigits api.resolvedCount.toNat),
   (ascii "unresolved_count", decimalDigits api.unresolvedCount.toNat)]

def writeSymbols (symbols : List ResolvedSymbol) : List UInt8 :=
  byte '[' :: (writeElements true (symbols.map fun symbol => writeObject (symbolMembers symbol)) ++
    [byte ']'])

def apiMembers (api : ResolvedApi) : Members :=
  [(ascii "format", jsonString resolverSchemaFormatName),
   (ascii "library", writeObject (libraryMembers api)),
   (ascii "summary", writeObject (summaryMembers api)),
   (ascii "api_schema_format", jsonString api.parserSchemaFormat),
   (ascii "api_schema_json", jsonString api.parserSchemaJson),
   (ascii "symbols", writeSymbols api.symbols)]

def encodeResolvedApi (api : ResolvedApi) : List UInt8 :=
  writeObject (apiMembers api)

end Writing

section Reading

/-- Reads a number without a sign. -/
def parseUnsigned : JsonParser UInt64 := do
  JsonParser.skipWhitespace
  let input ← get
  let digits := input.takeWhile isDigit
  if digits = [] then throw (ascii "Expected JSON unsigned integer")
  else
    set (input.dropWhile isDigit)
    match strtoull digits with
    | (parsed, []) => return parsed
    | _ => throw (ascii "Invalid JSON unsigned integer")

def parseBool : JsonParser Bool := do
  JsonParser.skipWhitespace
  let input ← get
  if input.take 4 = ascii "true" then
    set (input.drop 4)
    return true
  else if input.take 5 = ascii "false" then
    set (input.drop 5)
    return false
  else throw (ascii "Expected JSON boolean")

variable {α : Type}

/--
The loop over the members of an object, up to the brace behind them.

The number bounds the turns. Every turn but the last reads a byte, so one more than the length of the
text is enough.
-/
def parseMembers (comma colon : String) (member : α → List UInt8 → JsonParser α) :
    Nat → Bool → α → JsonParser α
  | 0, _, _ => throw []
  | fuel + 1, first, out => do
    if ← JsonParser.consume (byte '}') then return out
    else
      if !first then JsonParser.expect (byte ',') comma
      let key ← JsonParser.parseString
      JsonParser.expect (byte ':') colon
      let out ← member out key
      parseMembers comma colon member fuel false out

/-- An object whose members are read into a value. -/
def parseObject (brace comma colon : String) (member : α → List UInt8 → JsonParser α) (out : α) :
    JsonParser α := do
  JsonParser.expect (byte '{') brace
  let input ← get
  parseMembers comma colon member (input.length + 1) true out

/-- The loop over the elements of an array, up to the bracket behind them. -/
def parseElements (comma : String) (element : JsonParser α) : Nat → Bool → List α → JsonParser (List α)
  | 0, _, _ => throw []
  | fuel + 1, first, elements => do
    if ← JsonParser.consume (byte ']') then return elements
    else
      if !first then JsonParser.expect (byte ',') comma
      let value ← element
      parseElements comma element fuel false (elements ++ [value])

def symbolMember (out : ResolvedSymbol) (key : List UInt8) : JsonParser ResolvedSymbol := do
  if key = ascii "key" then
    let key ← JsonParser.parseString
    return { out with key }
  else if key = ascii "kind" then
    let kind ← JsonParser.parseString
    return { out with kind }
  else if key = ascii "name" then
    let name ← JsonParser.parseString
    return { out with name }
  else if key = ascii "symbol" then
    let symbolName ← JsonParser.parseString
    return { out with symbolName }
  else if key = ascii "resolution_status" then
    let resolutionStatus ← JsonParser.parseString
    return { out with resolutionStatus }
  else if key = ascii "address" then
    let address ← JsonParser.parseString
    return { out with address }
  else throw (ascii "Unexpected JSON field in resolved symbol: " ++ key)

def parseResolvedSymbol : JsonParser ResolvedSymbol :=
  parseObject "Expected JSON object for resolved symbol" "Expected ',' between resolved symbol fields"
    "Expected ':' after resolved symbol key" symbolMember {}

def libraryMember (out : ResolvedApi) (key : List UInt8) : JsonParser ResolvedApi := do
  if key = ascii "path" then
    let libraryPath ← JsonParser.parseString
    return { out with libraryPath }
  else if key = ascii "file_size" then
    let fileSize ← parseUnsigned
    return { out with fileSize }
  else if key = ascii "modified_time_ns" then
    let modifiedTimeNs ← parseUnsigned
    return { out with modifiedTimeNs }
  else if key = ascii "content_hash" then
    let contentHash ← JsonParser.parseString
    return { out with contentHash }
  else if key = ascii "address_bindings_process_local" then
    let addressBindingsProcessLocal ← parseBool
    return { out with addressBindingsProcessLocal }
  else throw (ascii "Unexpected library metadata field: " ++ key)

def summaryMember (out : ResolvedApi) (key : List UInt8) : JsonParser ResolvedApi := do
  if key = ascii "symbol_count" then
    let symbolCount ← parseUnsigned
    return { out with symbolCount }
  else if key = ascii "resolved_count" then
    let resolvedCount ← parseUnsigned
    return { out with resolvedCount }
  else if key = ascii "unresolved_count" then
    let unresolvedCount ← parseUnsigned
    return { out with unresolvedCount }
  else throw (ascii "Unexpected summary field: " ++ key)

def apiMember (out : ResolvedApi) (key : List UInt8) : JsonParser ResolvedApi := do
  if key = ascii "format" then
    let format ← JsonParser.parseString
    if format ≠ resolverSchemaFormatName then
      throw (ascii "Unexpected resolved API format: " ++ format)
    return out
  else if key = ascii "library" then
    parseObject "Expected JSON object for library metadata" "Expected ',' between library metadata fields"
      "Expected ':' after library metadata key" libraryMember out
  else if key = ascii "summary" then
    parseObject "Expected JSON object for summary metadata" "Expected ',' between summary fields"
      "Expected ':' after summary key" summaryMember out
  else if key = ascii "api_schema_format" then
    let parserSchemaFormat ← JsonParser.parseString
    return { out with parserSchemaFormat }
  else if key = ascii "api_schema_json" then
    let parserSchemaJson ← JsonParser.parseString
    return { out with parserSchemaJson }
  else if key = ascii "symbols" then
    JsonParser.expect (byte '[') "Expected JSON array for resolved symbols"
    let input ← get
    let symbols ← parseElements "Expected ',' between resolved symbols" parseResolvedSymbol
      (input.length + 1) true []
    return { out with symbols }
  else throw (ascii "Unexpected top-level resolved API field: " ++ key)

def parseResolvedApi : JsonParser ResolvedApi := do
  let out ← parseObject "Expected JSON object for resolved API" "Expected ',' between resolved API fields"
    "Expected ':' after resolved API key" apiMember {}
  JsonParser.skipWhitespace
  if (← get) ≠ [] then throw (ascii "Unexpected trailing data after resolved API JSON")
  return out

def decodeResolvedApi (json : List UInt8) : Except (List UInt8) ResolvedApi := do
  let (out, _) ← parseResolvedApi json
  if out.parserSchemaFormat ≠ parserSchemaFormatName then
    throw (ascii "Unexpected resolved API schema format: " ++ out.parserSchemaFormat)
  if out.parserSchemaJson = [] then
    throw (ascii "Resolved API JSON is missing api_schema_json")
  return out

end Reading

end AgentC.Cartographer.Resolver

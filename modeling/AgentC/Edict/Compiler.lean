import AgentC.Cartographer.Boxing
import AgentC.Edict.Payloads
import AgentC.Library.Partial
import AgentC.Persistence.SessionNames

/-!
The compiler from Edict source to code: it ends on every source, and its code is read as written.

A token is read ahead of each term. Objects and arrays of JSON nest, so that what compiles them has
a bound on the computation as its first argument, and `none` stands for a bound that is too small.
-/

namespace AgentC.Edict

open Cartographer (decimalDigits isSpace)
open Listree (byte)

/-- The types that tokens have. Those that no part of the tokenizer gives are left out. -/
inductive TokenType where
  | LITERAL
  | IDENTIFIER
  | OPERATOR
  | CONTEXT_OPEN
  | CONTEXT_CLOSE
  | STRING
  | QUOTE
  | EOF
  deriving DecidableEq, Repr

/-- Where the tokenizer is: `line_` and `col_`. -/
structure Place where
  line : UInt32 := 1
  col : UInt32 := 1
  deriving DecidableEq, Repr

def Place.along (place : Place) (count : Nat) : Place :=
  { place with col := place.col + UInt32.ofNat count }

def Place.past (place : Place) (ch : UInt8) : Place :=
  if ch = byte '\n' then ⟨place.line + 1, 1⟩ else place.along 1

structure Token where
  type : TokenType
  value : List UInt8
  hadSpaceBefore : Bool
  place : Place
  deriving DecidableEq, Repr

/-- A token as it is found, with the input behind it and the place there. -/
structure Lexeme where
  type : TokenType
  value : List UInt8
  rest : List UInt8
  place : Place

/-- The loop of `skipWhitespace`. The flag says that the rest of the line is a comment. -/
def skipWhitespace : Bool → List UInt8 → Place → List UInt8 × Place
  | _, [], place => ([], place)
  | comment, ch :: rest, place =>
    -- The bytes of a comment do not count as columns.
    if comment && ch ≠ byte '\n' then skipWhitespace true rest place
    else if isSpace ch then skipWhitespace false rest (place.past ch)
    else if ch = byte '#' then skipWhitespace true rest place
    else (ch :: rest, place)

/-- The loop of `parseLiteral`, with the depth at which it stops. -/
def literalEnd (openChar closeChar : UInt8) : Nat → List UInt8 → Place → Nat × List UInt8 × Place
  | 0, rest, place => (0, rest, place)
  | depth + 1, [], place => (depth + 1, [], place)
  | depth + 1, ch :: rest, place =>
    literalEnd openChar closeChar
      (if ch = openChar then depth + 2 else if ch = closeChar then depth else depth + 1)
      rest (place.past ch)

def parseLiteral (openChar : UInt8) (behind : List UInt8) (place : Place) : Lexeme :=
  let closeChar := if openChar = byte '[' then byte ']' else byte ')'
  let (depth, rest, place) := literalEnd openChar closeChar 1 behind (place.along 1)
  if 0 < depth then ⟨.EOF, [], rest, place⟩
  else ⟨.LITERAL, openChar :: behind.take (behind.length - rest.length), rest, place⟩

/-- The loop of `parseString`, which stops at a quote. The flag stands for a backslash in front. -/
def stringEnd : Bool → List UInt8 → Place → List UInt8 × Place
  -- The zero behind the input is passed over like an escaped character.
  | escaped, [], place => ([], if escaped then place.along 1 else place)
  | escaped, ch :: rest, place =>
    if escaped then stringEnd false rest (place.past ch)
    else if ch = 0x22 then (ch :: rest, place)
    else if ch = 0x5C then stringEnd true rest (place.along 1)
    else stringEnd false rest (place.past ch)

def parseString (behind : List UInt8) (place : Place) : Lexeme :=
  let (rest, place) := stringEnd false behind (place.along 1)
  match rest with
  | [] => ⟨.STRING, 0x22 :: behind, [], place⟩
  | _ :: rest =>
    ⟨.STRING, 0x22 :: behind.take (behind.length - rest.length), rest, place.along 1⟩

def inQuoteWord (ch : UInt8) : Bool :=
  !isSpace ch && ch ∉ ascii "()\x7b\x7d[],"

def parseQuoteWord (behind : List UInt8) (place : Place) : Lexeme :=
  let word := behind.takeWhile inQuoteWord
  ⟨.QUOTE, word, behind.dropWhile inQuoteWord, place.along (word.length + 1)⟩

def inIdentifier (ch : UInt8) : Bool :=
  Persistence.isalnum ch || ch ∈ ascii "_.-$*" || ch = 0x22 || 0x80 ≤ ch

def parseIdentifier (text : List UInt8) (place : Place) : Lexeme :=
  let word := text.takeWhile inIdentifier
  ⟨.IDENTIFIER, word, text.dropWhile inIdentifier, place.along word.length⟩

def parseOperator (ch : UInt8) (behind : List UInt8) (place : Place) : Lexeme :=
  if ch = byte '=' ∧ behind.head? = some (byte '=') then
    ⟨.OPERATOR, [ch, byte '='], behind.tail, place.along 2⟩
  else ⟨.OPERATOR, [ch], behind, place.along 1⟩

def parseContextOperator (op : UInt8) (behind : List UInt8) (place : Place) : Lexeme :=
  ⟨if op ∈ ascii "\x7b<[(" then .CONTEXT_OPEN else .CONTEXT_CLOSE, [op], behind, place.along 1⟩

/-- The token at the start of a text that no blanks are in front of. -/
def lex (jsonMode : Bool) : List UInt8 → Place → Lexeme
  | [], place => ⟨.EOF, [], [], place⟩
  | ch :: behind, place =>
    if ch = byte '[' && !jsonMode then parseLiteral ch behind place
    else if ch = 0x22 then parseString behind place
    else if ch = 0x27 then parseQuoteWord behind place
    else if ch ∈ ascii "\x7b\x7d<>()" || (jsonMode && ch ∈ ascii "[]") then
      parseContextOperator ch behind place
    else if ch ∈ ascii "@!/^:,&|=" then parseOperator ch behind place
    else if inIdentifier ch then parseIdentifier (ch :: behind) place
    -- A character that begins no token is passed over as the end of the input.
    else ⟨.EOF, [ch], behind, place.along 1⟩

/-- The tokenizer, with the input from its `position` on. -/
structure Tokenizer where
  rest : List UInt8
  jsonMode : Bool := false
  place : Place := {}

def Tokenizer.ofInput (input : List UInt8) : Tokenizer :=
  { rest := (skipWhitespace false input {}).1, place := (skipWhitespace false input {}).2 }

def Tokenizer.nextToken (t : Tokenizer) : Token × Tokenizer :=
  let (text, place) := skipWhitespace false t.rest t.place
  let found := lex t.jsonMode text place
  (⟨found.type, found.value, text.length < t.rest.length, place⟩,
    { t with rest := found.rest, place := found.place })

/-- The opcodes without payload that the compiler emits. -/
inductive Operation where
  | SPLICE
  | DUP
  | SWAP
  | POP
  | REF
  | ASSIGN
  | REMOVE
  | REMOVE_HEAD
  | EVAL
  | CTX_PUSH
  | CTX_POP
  | FUN_PUSH
  | FUN_EVAL
  | THROW
  | CATCH
  | LIST_ADD
  | FAIL
  | TEST
  | SPECULATE
  | UNSAFE_EXTENSIONS_ALLOW
  | UNSAFE_EXTENSIONS_BLOCK
  | UNSAFE_EXTENSIONS_STATUS
  | PRINT
  deriving DecidableEq, Repr

def Operation.byte : Operation → UInt8
  | SPLICE => 3
  | DUP => 4
  | SWAP => 5
  | POP => 6
  | REF => 7
  | ASSIGN => 8
  | REMOVE => 9
  | REMOVE_HEAD => 10
  | EVAL => 11
  | CTX_PUSH => 12
  | CTX_POP => 13
  | FUN_PUSH => 14
  | FUN_EVAL => 15
  | THROW => 19
  | CATCH => 20
  | LIST_ADD => 29
  | FAIL => 30
  | TEST => 31
  | SPECULATE => 58
  | UNSAFE_EXTENSIONS_ALLOW => 59
  | UNSAFE_EXTENSIONS_BLOCK => 60
  | UNSAFE_EXTENSIONS_STATUS => 61
  | PRINT => 62

/-- A result, the text of an exception, or nothing where a bound is too small. -/
abbrev Compilation := ExceptT (List UInt8) Option

structure EdictCompiler where
  tokenizer : Tokenizer
  output : List UInt8 := []
  currentToken : Token := ⟨.EOF, [], false, {}⟩

namespace EdictCompiler

def nextToken (c : EdictCompiler) : EdictCompiler :=
  { c with tokenizer := c.tokenizer.nextToken.2, currentToken := c.tokenizer.nextToken.1 }

def setJSONMode (c : EdictCompiler) (mode : Bool) : EdictCompiler :=
  { c with tokenizer := { c.tokenizer with jsonMode := mode } }

/-- Going on with the next token where the current one has a value. -/
def skip (c : EdictCompiler) (value : String) : EdictCompiler :=
  if c.currentToken.value = ascii value then c.nextToken else c

def expect (c : EdictCompiler) (value : String) : Compilation EdictCompiler :=
  if c.currentToken.value = ascii value then pure c.nextToken
  else
    let place := decimalDigits c.currentToken.place.line.toNat ++
      byte ':' :: decimalDigits c.currentToken.place.col.toNat
    throw (ascii "line " ++ place ++ ascii ": unexpected token '" ++ c.currentToken.value ++
      ascii "'")

def emitOperation (c : EdictCompiler) (op : Operation) : EdictCompiler :=
  { c with output := addOp c.output op.byte }

def emitValue (c : EdictCompiler) (value : Value) : EdictCompiler :=
  { c with output := addValue (addOp c.output VMOpcode.PUSHEXT.byte) value }

def emitListStart (c : EdictCompiler) : EdictCompiler :=
  { c with output := addOp c.output VMOpcode.PUSHEXT.byte ++ [VMPushextType.LIST.byte] }

/-- What is between the delimiters of the current token. -/
def inner (c : EdictCompiler) : List UInt8 :=
  (c.currentToken.value.drop 1).take (c.currentToken.value.length - 2)

def keywords : List (List UInt8 × Operation) :=
  [(ascii "dup", .DUP), (ascii "swap", .SWAP), (ascii "print", .PRINT), (ascii "fail", .FAIL),
    (ascii "test", .TEST), (ascii "unsafe_extensions_allow", .UNSAFE_EXTENSIONS_ALLOW),
    (ascii "unsafe_extensions_block", .UNSAFE_EXTENSIONS_BLOCK),
    (ascii "unsafe_extensions_status", .UNSAFE_EXTENSIONS_STATUS)]

def compileIdentifier (c : EdictCompiler) : EdictCompiler :=
  let identifier := c.currentToken.value
  let c := c.nextToken
  if identifier = ascii "speculate" ∧ c.currentToken.type = .LITERAL then
    ((c.emitValue (.string c.inner)).emitOperation .SPECULATE).nextToken
  else
    match keywords.lookup identifier with
    | some op => c.emitOperation op
    | none => (c.emitValue (.string identifier)).emitOperation .REF

def operatorMap : List (List UInt8 × Operation) :=
  [(ascii "@", .ASSIGN), (ascii "!", .EVAL), (ascii "/", .REMOVE), (ascii "&", .THROW),
    (ascii "|", .CATCH)]

def compileOperator (c : EdictCompiler) (op : List UInt8) : Compilation EdictCompiler :=
  if op = ascii "@" then pure ((c.emitOperation .SWAP).emitOperation .ASSIGN)
  else
    match operatorMap.lookup op with
    | some operation => pure (c.emitOperation operation)
    | none => throw (ascii "Unknown operator: " ++ op)

def compileContextOperator (c : EdictCompiler) : EdictCompiler :=
  let op := c.currentToken.value.head?
  c.emitOperation (if op = some 0x7B ∨ op = some (byte '<') then .CTX_PUSH else .CTX_POP)

def isPrefixSigil (value : List UInt8) : Bool :=
  value ∈ [ascii "@", ascii "/", ascii "^"]

/-- The loop that collects prefix sigils. -/
def collectSigils : Nat → EdictCompiler → List (List UInt8) →
    Compilation (List (List UInt8) × EdictCompiler)
  | 0, _, _ => ExceptT.mk none
  | fuel + 1, c, sigils =>
    if c.currentToken.type = .OPERATOR ∧ isPrefixSigil c.currentToken.value = true ∧
        c.currentToken.hadSpaceBefore = false then
      collectSigils fuel c.nextToken (sigils ++ [c.currentToken.value])
    else pure (sigils, c)

/-- The loop over the sigils in front of an identifier. -/
def emitSigils (identifier : List UInt8) : List (List UInt8) → EdictCompiler → EdictCompiler
  | [], c => c
  | sigil :: rest, c =>
    let c := c.emitValue (.string identifier)
    emitSigils identifier rest
      (if sigil = ascii "^" then c
      else if sigil = ascii "@" then c.emitOperation .ASSIGN
      -- Only the last removal cleans up the entry of the dictionary.
      else c.emitOperation (if rest.isEmpty then .REMOVE else .REMOVE_HEAD))

/-- What `compileTerm` does about an operator. -/
def compileSigils (fuel : Nat) (c : EdictCompiler) : Compilation EdictCompiler := do
  let op := c.currentToken.value
  let c := c.nextToken
  if isPrefixSigil op then
    let (sigils, c) ← collectSigils fuel c [op]
    if c.currentToken.type = .IDENTIFIER ∧ c.currentToken.hadSpaceBefore = false then
      return emitSigils c.currentToken.value sigils c.nextToken
    else if sigils.length = 1 then
      if op = ascii "/" then return c.emitOperation .POP
      else if op = ascii "^" then return c.emitOperation .SPLICE
      else compileOperator c op
    else throw (ascii "Prefix sigil chain must end with an identifier")
  else compileOperator c op

mutual

def compileJSONObject : Nat → EdictCompiler → Compilation EdictCompiler
  | 0, _ => ExceptT.mk none
  | fuel + 1, c => do
    let c := (((c.setJSONMode true).nextToken).emitValue .null).emitOperation .CTX_PUSH
    let c ← compileJSONMembers fuel c
    let c ← c.expect "\x7d"
    -- The token behind the object has been read in the mode that ends here.
    return (c.emitOperation .CTX_POP).setJSONMode false

/-- The loop over the members of an object. -/
def compileJSONMembers : Nat → EdictCompiler → Compilation EdictCompiler
  | 0, _ => ExceptT.mk none
  | fuel + 1, c =>
    if c.currentToken.type = .EOF ∨ c.currentToken.value = ascii "\x7d" then pure c
    else if c.currentToken.type = .STRING ∨ c.currentToken.type = .IDENTIFIER then
      let key := if c.currentToken.type = .STRING then c.inner else c.currentToken.value
      let c := c.nextToken
      if c.currentToken.value = ascii ":" then do
        let c ← compileJSONValue fuel c.nextToken
        compileJSONMembers fuel (((c.emitValue (.string key)).emitOperation .ASSIGN).skip ",")
      else pure c
    else pure c

def compileJSONArray : Nat → EdictCompiler → Compilation EdictCompiler
  | 0, _ => ExceptT.mk none
  | fuel + 1, c => do
    let c ← compileJSONElements fuel c.nextToken.emitListStart
    c.expect "]"

/-- The loop over the elements of an array. -/
def compileJSONElements : Nat → EdictCompiler → Compilation EdictCompiler
  | 0, _ => ExceptT.mk none
  | fuel + 1, c =>
    if c.currentToken.type = .EOF ∨ c.currentToken.value = ascii "]" then pure c
    else do
      let c ← compileJSONValue fuel c
      compileJSONElements fuel ((c.emitOperation .LIST_ADD).skip ",")

def compileJSONValue : Nat → EdictCompiler → Compilation EdictCompiler
  | 0, _ => ExceptT.mk none
  | fuel + 1, c =>
    match c.currentToken.type with
    | .STRING | .LITERAL => pure (c.emitValue (.string c.inner)).nextToken
    | .IDENTIFIER => pure (c.emitValue (.string c.currentToken.value)).nextToken
    | .CONTEXT_OPEN =>
      if c.currentToken.value = ascii "\x7b" then compileJSONObject fuel c
      else if c.currentToken.value = ascii "[" then compileJSONArray fuel c
      else pure c.nextToken
    | _ => pure c.nextToken

end

def compileTerm (fuel : Nat) (c : EdictCompiler) : Compilation EdictCompiler :=
  let value := c.currentToken.value
  match c.currentToken.type with
  | .LITERAL | .STRING => pure (c.emitValue (.string c.inner)).nextToken
  | .QUOTE => pure (c.emitValue (.string value)).nextToken
  | .IDENTIFIER => pure c.compileIdentifier
  | .OPERATOR => compileSigils fuel c
  | .CONTEXT_OPEN =>
    if value = ascii "\x7b" then compileJSONObject fuel c
    else if value = ascii "(" ∨ value = ascii "[" then pure (c.emitOperation .FUN_PUSH).nextToken
    else pure c.compileContextOperator.nextToken
  | .CONTEXT_CLOSE =>
    if value = ascii ")" ∨ value = ascii "]" then pure (c.emitOperation .FUN_EVAL).nextToken
    else pure c.compileContextOperator.nextToken
  | .EOF => pure c.nextToken

/-- The loop of `compile`. -/
def compileTerms : Nat → EdictCompiler → Compilation EdictCompiler
  | 0, _ => ExceptT.mk none
  | fuel + 1, c =>
    if c.currentToken.type = .EOF then pure c
    else do
      let c ← compileTerm fuel c
      compileTerms fuel c

def compile (fuel : Nat) (source : List UInt8) : Compilation (List UInt8) := do
  let c ← compileTerms fuel (EdictCompiler.mk (.ofInput source) [] ⟨.EOF, [], false, {}⟩).nextToken
  return c.output

end EdictCompiler

/-! What tokens are found, and that each of them takes some input. -/

/-- A lexeme stands in a text, and takes some of it unless it is the end. -/
structure Lexeme.Fits (found : Lexeme) (text : List UInt8) : Prop where
  rest : found.rest <:+ text
  value : found.value <:+: text
  shorter : found.type ≠ .EOF → found.rest.length < text.length

section Lexing

variable {text behind : List UInt8} {ch : UInt8} {place : Place}

theorem Lexeme.Fits.of_behind {found : Lexeme} (rest : found.rest <:+ behind)
    (value : found.value <:+: ch :: behind) : found.Fits (ch :: behind) where
  rest := rest.trans (List.suffix_cons ch behind)
  value := value
  shorter := fun _ => Nat.lt_succ_of_le rest.length_le

theorem skipWhitespace_suffix (comment : Bool) (text : List UInt8) (place : Place) :
    (skipWhitespace comment text place).1 <:+ text := by
  induction text generalizing comment place with
  | nil => exact List.suffix_rfl
  | cons ch rest ih =>
    unfold skipWhitespace
    -- Every branch but the last one goes on with the rest.
    split_ifs
    · exact (ih _ _).trans (List.suffix_cons ch rest)
    · exact (ih _ _).trans (List.suffix_cons ch rest)
    · exact (ih _ _).trans (List.suffix_cons ch rest)
    · exact List.suffix_rfl

theorem literalEnd_suffix (openChar closeChar : UInt8) (depth : Nat) (text : List UInt8)
    (place : Place) : (literalEnd openChar closeChar depth text place).2.1 <:+ text := by
  induction text generalizing depth place with
  | nil => cases depth <;> exact List.suffix_rfl
  | cons ch rest ih =>
    cases depth with
    | zero => exact List.suffix_rfl
    | succ depth => exact (ih _ _).trans (List.suffix_cons ch rest)

theorem stringEnd_suffix (escaped : Bool) (text : List UInt8) (place : Place) :
    (stringEnd escaped text place).1 <:+ text := by
  induction text generalizing escaped place with
  | nil => exact List.suffix_rfl
  | cons ch rest ih =>
    unfold stringEnd
    split_ifs
    · exact (ih _ _).trans (List.suffix_cons ch rest)
    · exact List.suffix_rfl
    · exact (ih _ _).trans (List.suffix_cons ch rest)
    · exact (ih _ _).trans (List.suffix_cons ch rest)

theorem taken_within (count : Nat) : ch :: behind.take count <:+: ch :: behind :=
  ((List.prefix_cons_inj ch).mpr (List.take_prefix count behind)).isInfix

theorem lex_fits (jsonMode : Bool) (text : List UInt8) (place : Place) :
    (lex jsonMode text place).Fits text := by
  cases text with
  | nil => exact ⟨List.suffix_rfl, List.nil_infix, fun more => absurd rfl more⟩
  | cons ch behind =>
    rw [lex]
    split_ifs with literal string quote context operator word
    · unfold parseLiteral
      generalize (if ch = byte '[' then byte ']' else byte ')') = closeChar
      have ends := literalEnd_suffix ch closeChar 1 behind (place.along 1)
      dsimp only
      split_ifs
      · exact .of_behind ends List.nil_infix
      · exact .of_behind ends (taken_within _)
    · have ends := stringEnd_suffix false behind (place.along 1)
      unfold parseString
      generalize stringEnd false behind (place.along 1) = found at ends
      obtain ⟨rest, after⟩ := found
      subst string
      cases rest with
      | nil => exact .of_behind List.nil_suffix List.infix_rfl
      | cons _ rest => exact .of_behind ((List.suffix_cons _ rest).trans ends) (taken_within _)
    · have taken := (List.takeWhile_prefix inQuoteWord (l := behind)).isInfix
      exact .of_behind (List.dropWhile_suffix _) (taken.trans (List.suffix_cons ch behind).isInfix)
    · exact .of_behind List.suffix_rfl ⟨[], behind, rfl⟩
    · unfold parseOperator
      split_ifs with double
      · obtain ⟨tail, rfl⟩ := List.head?_eq_some_iff.mp double.2
        exact .of_behind (List.suffix_cons _ tail) ⟨[], tail, rfl⟩
      · exact .of_behind List.suffix_rfl ⟨[], behind, rfl⟩
    · -- An identifier takes its first character at least.
      refine .of_behind ?_ (List.takeWhile_prefix _).isInfix
      simpa [parseIdentifier, List.dropWhile_cons, word] using List.dropWhile_suffix _
    · exact ⟨List.suffix_cons ch behind, ⟨[], behind, rfl⟩, fun more => absurd rfl more⟩

end Lexing

/-! What has been emitted, and how much there is left to do. -/

/-- An instruction of compiled code. The start of a list has no value of its own. -/
inductive Instruction where
  | emitted (instruction : Emitted)
  | list

def Instruction.bytes : Instruction → List UInt8
  | .emitted instruction => instruction.bytes
  | .list => [VMOpcode.PUSHEXT.byte, VMPushextType.LIST.byte]

/-- The machine finds an instruction at a place of its code, and the next one behind it. -/
structure Instruction.ReadAt (instruction : Instruction) (code : List UInt8) (ip : Nat) : Prop where
  skipped : instructionEnd code ip = ip + instruction.bytes.length
  plain : ∀ op bare, instruction = .emitted (.plain op bare) → (readByte code ip).1 = op
  value : ∀ value, instruction = .emitted (.pushext value) →
    (readBack code (ip + 1)).1 = some value.stored
  list : instruction = .list → (readValue code (ip + 1)).1 = some .list

/-- Code is made of whole instructions, and the strings in it stand in the source. -/
def Whole (source code : List UInt8) : Prop :=
  ∃ stream : List Instruction, code = stream.flatMap Instruction.bytes ∧
    ∀ text, .emitted (.pushext (.string text)) ∈ stream → text <:+: source

namespace EdictCompiler

variable {source : List UInt8} {n m : Nat} {c : EdictCompiler}

/-- How many tokens may still be read. -/
def work (c : EdictCompiler) : Nat :=
  c.tokenizer.rest.length + if c.currentToken.type = .EOF then 0 else 1

/-- What a compiler of a source keeps, and a bound on the tokens that it may still read. -/
structure Sound (source : List UInt8) (n : Nat) (c : EdictCompiler) : Prop where
  rest : c.tokenizer.rest <:+ source
  value : c.currentToken.value <:+: source
  whole : Whole source c.output
  work : c.work ≤ n

namespace Sound

theorem mono (sound : c.Sound source n) (le : n ≤ m) : c.Sound source m :=
  { sound with work := sound.work.trans le }

/-- Reading a token never adds work, and takes some where there was a token. -/
theorem nextToken (sound : c.Sound source n) :
    c.nextToken.Sound source n ∧
      (c.currentToken.type ≠ .EOF → ∃ k, n = k + 1 ∧ c.nextToken.Sound source k) := by
  have blanks := skipWhitespace_suffix false c.tokenizer.rest c.tokenizer.place
  generalize skipped : skipWhitespace false c.tokenizer.rest c.tokenizer.place = text at blanks
  have fits := lex_fits c.tokenizer.jsonMode text.1 text.2
  have rest : c.nextToken.tokenizer.rest = (lex c.tokenizer.jsonMode text.1 text.2).rest := by
    rw [← skipped]
    rfl
  have token : c.nextToken.currentToken.type = (lex c.tokenizer.jsonMode text.1 text.2).type ∧
      c.nextToken.currentToken.value = (lex c.tokenizer.jsonMode text.1 text.2).value := by
    rw [← skipped]
    exact ⟨rfl, rfl⟩
  have inside := blanks.trans sound.rest
  have suffix : c.nextToken.tokenizer.rest <:+ source := by
    rw [rest]
    exact fits.rest.trans inside
  have value : c.nextToken.currentToken.value <:+: source := by
    rw [token.2]
    exact fits.value.trans inside.isInfix
  have less : c.nextToken.work ≤ c.tokenizer.rest.length := by
    -- A token found here counts for one, and has taken a byte at least.
    have shorter := fits.rest.length_le
    have length := blanks.length_le
    unfold EdictCompiler.work
    rw [rest, token.1]
    split_ifs with ends
    · omega
    · have takes := fits.shorter ends
      omega
  have bound := sound.work
  unfold EdictCompiler.work at bound
  refine ⟨⟨suffix, value, sound.whole, by omega⟩, fun more => ?_⟩
  -- A token that is not the end was counted itself.
  rw [if_neg more] at bound
  exact ⟨n - 1, by omega, suffix, value, sound.whole, by omega⟩

theorem next (sound : c.Sound source n) : c.nextToken.Sound source n :=
  sound.nextToken.1

theorem next_of_token (sound : c.Sound source (n + 1)) (more : c.currentToken.type ≠ .EOF) :
    c.nextToken.Sound source n := by
  obtain ⟨k, same, less⟩ := sound.nextToken.2 more
  exact Nat.succ.inj same ▸ less

theorem token (sound : c.Sound source n) (more : c.currentToken.type ≠ .EOF) : ∃ k, n = k + 1 := by
  obtain ⟨k, same, -⟩ := sound.nextToken.2 more
  exact ⟨k, same⟩

theorem emit (sound : c.Sound source n) (instruction : Instruction)
    (drawn : ∀ text, instruction = .emitted (.pushext (.string text)) → text <:+: source) :
    EdictCompiler.Sound source n { c with output := c.output ++ instruction.bytes } := by
  obtain ⟨stream, same, inside⟩ := sound.whole
  refine { sound with whole := ⟨stream ++ [instruction], ?_, fun text member => ?_⟩ }
  · rw [same, List.flatMap_append, List.flatMap_singleton]
  · rcases List.mem_append.mp member with old | new
    · exact inside text old
    · exact drawn text (List.mem_singleton.mp new).symm

theorem operation (sound : c.Sound source n) (op : Operation) :
    (c.emitOperation op).Sound source n :=
  sound.emit (.emitted (.plain op.byte (by cases op <;> decide))) (fun _ same => by cases same)

theorem string {text : List UInt8} (sound : c.Sound source n) (drawn : text <:+: source) :
    (c.emitValue (.string text)).Sound source n := by
  have emitted := sound.emit (.emitted (.pushext (.string text))) fun other same => by
    cases same
    exact drawn
  rw [Instruction.bytes, ← Emitted.add_eq] at emitted
  exact emitted

theorem inner (sound : c.Sound source n) : c.inner <:+: source :=
  (List.take_prefix _ _).isInfix.trans ((List.drop_suffix _ _).isInfix.trans sound.value)

theorem skip (sound : c.Sound source n) (value : String) : (c.skip value).Sound source n := by
  unfold EdictCompiler.skip
  split
  · exact sound.next
  · exact sound

theorem sigils {identifier : List UInt8} (drawn : identifier <:+: source) :
    ∀ (sigils : List (List UInt8)) {c : EdictCompiler}, c.Sound source n →
      (emitSigils identifier sigils c).Sound source n := by
  intro sigils
  induction sigils with
  | nil => exact id
  | cons sigil rest ih =>
    intro c sound
    have pushed := sound.string drawn
    unfold emitSigils
    refine ih ?_
    split_ifs
    · exact pushed
    all_goals exact pushed.operation _

theorem identifier (sound : c.Sound source (n + 1)) (more : c.currentToken.type ≠ .EOF) :
    c.compileIdentifier.Sound source n := by
  have next := sound.next_of_token more
  unfold compileIdentifier
  dsimp only
  split_ifs
  · exact ((next.string next.inner).operation _).next
  · split
    · exact next.operation _
    · exact (next.string sound.value).operation _

end Sound

section Settling

/-- A part of the compiler comes to the same result from a bound on, and keeps what is sound. -/
abbrev Ends (source : List UInt8) (run : Nat → Compilation EdictCompiler) (bound n : Nat) : Prop :=
  Settles run bound (Sound source n)

theorem expect_ends {bound : Nat} (sound : c.Sound source n) (value : String) :
    Ends source (fun _ => c.expect value) bound n := by
  unfold expect
  split
  · exact .pure sound.next
  · exact .throw _

theorem operator_ends {bound : Nat} (sound : c.Sound source n) (op : List UInt8) :
    Ends source (fun _ => c.compileOperator op) bound n := by
  unfold compileOperator
  split_ifs
  · exact .pure ((sound.operation _).operation _)
  · split
    · exact .pure (sound.operation _)
    · exact .throw _

/-- Each sigil that is collected is a token, so that there is an end to them. -/
theorem collectSigils_ends (n : Nat) : ∀ {c : EdictCompiler} (sigils : List (List UInt8)),
    c.Sound source n →
      Settles (collectSigils · c sigils) (n + 1) fun found => found.2.Sound source n := by
  induction n with
  | zero =>
    intro c sigils sound
    have ended : ¬c.currentToken.type = .OPERATOR := by
      intro operator
      obtain ⟨k, same⟩ := sound.token (by rw [operator]; decide)
      cases same
    refine .now (a := (sigils, c)) (by omega) (fun m => ?_) sound
    rw [collectSigils, if_neg fun all => ended all.1]
  | succ n ih =>
    intro c sigils sound
    by_cases sigil : c.currentToken.type = .OPERATOR ∧ isPrefixSigil c.currentToken.value = true ∧
        c.currentToken.hadSpaceBefore = false
    · have next := sound.next_of_token (by rw [sigil.1]; decide)
      have rest := ih (sigils ++ [c.currentToken.value]) next
      refine .step (rest.mono le_rfl fun found sound => sound.mono (Nat.le_succ n)) fun m => ?_
      rw [collectSigils, if_pos sigil]
    · refine .now (a := (sigils, c)) (by omega) (fun m => ?_) sound
      rw [collectSigils, if_neg sigil]

theorem sigils_ends (sound : c.Sound source (n + 1)) (more : c.currentToken.type ≠ .EOF) :
    Ends source (compileSigils · c) (n + 1) n := by
  have next := sound.next_of_token more
  unfold compileSigils
  dsimp only
  by_cases sigil : isPrefixSigil c.currentToken.value = true
  · simp only [sigil, if_true]
    -- Whatever the chain of sigils is followed by, no token is read twice.
    refine .bind (collectSigils_ends n [c.currentToken.value] next) fun found after => ?_
    obtain ⟨sigils, last⟩ := found
    dsimp only at after ⊢
    split_ifs
    · exact .pure (Sound.sigils after.value sigils after.next)
    · exact .pure (after.operation _)
    · exact .pure (after.operation _)
    · exact operator_ends after _
    · exact .throw _
  · simp only [sigil]
    exact operator_ends next _

/-- What is true of values and of the loops over them when so many tokens may still be read. -/
structure LoopsEnd (source : List UInt8) (n : Nat) : Prop where
  any : ∀ c : EdictCompiler, c.Sound source n → Ends source (compileJSONValue · c) (3 * n + 2) n
  members : ∀ c : EdictCompiler, c.Sound source n →
    Ends source (compileJSONMembers · c) (3 * n + 1) n
  elements : ∀ c : EdictCompiler, c.Sound source n →
    Ends source (compileJSONElements · c) (3 * n + 3) n

namespace LoopsEnd

theorem object (loops : LoopsEnd source n) (sound : c.Sound source (n + 1))
    (more : c.currentToken.type ≠ .EOF) : Ends source (compileJSONObject · c) (3 * n + 4) n := by
  have inside : (c.setJSONMode true).Sound source (n + 1) := { sound with }
  have next := (inside.next_of_token more).emit (.emitted (.pushext .null)) fun _ same => by
    cases same
  rw [Instruction.bytes, ← Emitted.add_eq] at next
  have opened := loops.members _ (next.operation .CTX_PUSH)
  refine Settles.step (n := 3 * n + 3) ?_ fun m => by rw [compileJSONObject]
  refine .bind (opened.mono (by omega) fun _ => id) fun c sound => ?_
  -- A missing brace is an error, which is a result as well.
  refine .bind (expect_ends sound _) fun c sound => ?_
  exact .pure { sound.operation .CTX_POP with }

theorem array (loops : LoopsEnd source n) (sound : c.Sound source (n + 1))
    (more : c.currentToken.type ≠ .EOF) : Ends source (compileJSONArray · c) (3 * n + 4) n := by
  have next := (sound.next_of_token more).emit .list fun _ same => by cases same
  have listed : c.nextToken.emitListStart =
      { c.nextToken with output := c.nextToken.output ++ Instruction.list.bytes } := by
    simp [emitListStart, addOp, Instruction.bytes]
  refine Settles.step ?_ fun m => by rw [compileJSONArray, listed]
  exact .bind (loops.elements _ next) fun c sound => expect_ends sound _

theorem value (loops : LoopsEnd source n) (sound : c.Sound source (n + 1))
    (more : c.currentToken.type ≠ .EOF) : Ends source (compileJSONValue · c) (3 * n + 5) n := by
  -- Whatever the token is, it has been read when the value is over.
  have next {text : List UInt8} (drawn : text <:+: source) :
      (c.emitValue (.string text)).nextToken.Sound source n :=
    (sound.string drawn).next_of_token more
  cases type : c.currentToken.type with
  | STRING | LITERAL =>
    exact .now (by omega) (fun m => by rw [compileJSONValue, type]) (next sound.inner)
  | IDENTIFIER =>
    exact .now (by omega) (fun m => by rw [compileJSONValue, type]) (next sound.value)
  | CONTEXT_OPEN =>
    by_cases object : c.currentToken.value = ascii "\x7b"
    · refine Settles.step (loops.object sound more) fun m => ?_
      rw [compileJSONValue, type]
      dsimp only
      rw [if_pos object]
    · by_cases array : c.currentToken.value = ascii "["
      · refine Settles.step (loops.array sound more) fun m => ?_
        rw [compileJSONValue, type]
        dsimp only
        rw [if_neg object, if_pos array]
      · refine .now (by omega) (fun m => ?_) (sound.next_of_token more)
        rw [compileJSONValue, type]
        dsimp only
        rw [if_neg object, if_neg array]
  | OPERATOR | CONTEXT_CLOSE | QUOTE =>
    exact .now (by omega) (fun m => by rw [compileJSONValue, type]) (sound.next_of_token more)
  | EOF => exact absurd type more

end LoopsEnd

theorem loops_end (n : Nat) : LoopsEnd source n := by
  induction n with
  | zero =>
    -- Only the end of the input is left, at which both loops stop.
    have ended {c : EdictCompiler} (sound : c.Sound source 0) : c.currentToken.type = .EOF := by
      by_contra more
      obtain ⟨k, same⟩ := sound.token more
      cases same
    constructor <;> intro c sound
    · refine .now (by omega) (fun m => ?_) sound.next
      rw [compileJSONValue, ended sound]
    · refine .now (by omega) (fun m => ?_) sound
      rw [compileJSONMembers, if_pos (.inl (ended sound))]
    · refine .now (by omega) (fun m => ?_) sound
      rw [compileJSONElements, if_pos (.inl (ended sound))]
  | succ n ih =>
    constructor <;> intro c sound
    · by_cases ended : c.currentToken.type = .EOF
      · refine .now (by omega) (fun m => ?_) sound.next
        rw [compileJSONValue, ended]
      · exact (ih.value sound ended).mono (by omega) fun c sound => sound.mono (Nat.le_succ n)
    · by_cases stops : c.currentToken.type = .EOF ∨ c.currentToken.value = ascii "\x7d"
      · refine .now (by omega) (fun m => ?_) sound
        rw [compileJSONMembers, if_pos stops]
      · -- The key takes a token, so that one less is left for the value and the members behind.
        have next := sound.next_of_token fun ended => stops (.inl ended)
        have least := next.mono (Nat.le_succ n)
        refine Settles.step (n := 3 * n + 3) ?_ fun m => by rw [compileJSONMembers, if_neg stops]
        dsimp only
        by_cases named : c.currentToken.type = .STRING ∨ c.currentToken.type = .IDENTIFIER
        · simp only [named, if_true]
          by_cases colon : c.nextToken.currentToken.value = ascii ":"
          · simp only [colon, if_true]
            refine .bind ((ih.any _ next.next).mono (by omega) fun _ => id) fun c' after => ?_
            have drawn : (if c.currentToken.type = .STRING then c.inner
                else c.currentToken.value) <:+: source := by
              split
              · exact sound.inner
              · exact sound.value
            have rest := ih.members _ (((after.string drawn).operation .ASSIGN).skip ",")
            exact rest.mono (by omega) fun c sound => sound.mono (Nat.le_succ n)
          · simp only [colon, if_false]
            exact .pure least
        · simp only [named, if_false]
          exact .pure sound
    · by_cases stops : c.currentToken.type = .EOF ∨ c.currentToken.value = ascii "]"
      · refine .now (by omega) (fun m => ?_) sound
        rw [compileJSONElements, if_pos stops]
      · -- The value takes a token, since the loop has seen that there is one.
        have first := ih.value sound fun ended => stops (.inl ended)
        refine Settles.step (n := 3 * n + 5) ?_ fun m => by rw [compileJSONElements, if_neg stops]
        refine .bind first fun c sound => ?_
        have rest := ih.elements _ ((sound.operation .LIST_ADD).skip ",")
        exact rest.mono (by omega) fun c sound => sound.mono (Nat.le_succ n)

theorem term_ends (sound : c.Sound source (n + 1)) (more : c.currentToken.type ≠ .EOF) :
    Ends source (compileTerm · c) (3 * n + 4) n := by
  have next {text : List UInt8} (drawn : text <:+: source) :
      (c.emitValue (.string text)).nextToken.Sound source n :=
    (sound.string drawn).next_of_token more
  have operation (op : Operation) : (c.emitOperation op).nextToken.Sound source n :=
    (sound.operation op).next_of_token more
  cases type : c.currentToken.type with
  | LITERAL | STRING =>
    simp only [compileTerm, type]
    exact .pure (next sound.inner)
  | QUOTE =>
    simp only [compileTerm, type]
    exact .pure (next sound.value)
  | IDENTIFIER =>
    simp only [compileTerm, type]
    exact .pure (sound.identifier more)
  | OPERATOR =>
    simp only [compileTerm, type]
    exact (sigils_ends sound more).mono (by omega) fun _ => id
  | CONTEXT_OPEN =>
    simp only [compileTerm, type]
    split_ifs
    · exact (loops_end n).object sound more
    · exact .pure (operation _)
    · exact .pure (operation _)
  | CONTEXT_CLOSE =>
    simp only [compileTerm, type]
    split_ifs
    · exact .pure (operation _)
    · exact .pure (operation _)
  | EOF => exact absurd type more

theorem terms_end (n : Nat) : ∀ c : EdictCompiler, c.Sound source n →
    Ends source (compileTerms · c) (3 * n + 2) n := by
  induction n with
  | zero =>
    intro c sound
    refine .now (by omega) (fun m => ?_) sound
    rw [compileTerms, if_pos]
    by_contra more
    obtain ⟨k, same⟩ := sound.token more
    cases same
  | succ n ih =>
    intro c sound
    by_cases ended : c.currentToken.type = .EOF
    · refine .now (by omega) (fun m => ?_) sound
      rw [compileTerms, if_pos ended]
    · refine Settles.step (n := 3 * n + 4) ?_ fun m => by rw [compileTerms, if_neg ended]
      -- A term takes its first token at least.
      refine .bind (term_ends sound ended) fun c sound => ?_
      exact (ih c sound).mono (by omega) fun c sound => sound.mono (Nat.le_succ n)

/-- Every source comes to its result, and code is whole. -/
theorem compile_settles (source : List UInt8) :
    Settles (compile · source) (3 * source.length + 2) (Whole source) := by
  have suffix : (Tokenizer.ofInput source).rest <:+ source := skipWhitespace_suffix false source {}
  have start : Sound source source.length ⟨.ofInput source, [], ⟨.EOF, [], false, {}⟩⟩ :=
    ⟨suffix, List.nil_infix, ⟨[], rfl, fun _ member => absurd member List.not_mem_nil⟩,
      suffix.length_le⟩
  exact .bind (terms_end _ _ start.next) fun c sound => .pure sound.whole

end Settling

end EdictCompiler

theorem Instruction.readAt (instruction : Instruction) (front back : List UInt8)
    (short : ∀ text, instruction = .emitted (.pushext (.string text)) → text.length < 2 ^ 31) :
    instruction.ReadAt (front ++ (instruction.bytes ++ back)) front.length := by
  cases instruction with
  | emitted instruction =>
    refine ⟨instructionEnd_append fun text same => short text (congrArg _ same), ?_, ?_, ?_⟩
    · rintro op bare ⟨⟩
      exact congrArg Prod.fst (readByte_append op)
    · rintro value ⟨⟩
      have read := @readBack_append (front ++ [VMOpcode.PUSHEXT.byte]) back value
        fun text same => short text (by subst same; rfl)
      rw [List.append_assoc, List.length_append, List.length_singleton] at read
      rw [Instruction.bytes, Emitted.bytes_pushext]
      exact congrArg Prod.fst read
    · rintro ⟨⟩
  | list =>
    -- The tag of a list is all there is to its payload.
    have first (rest : List UInt8) :
        readByte (front ++ (VMOpcode.PUSHEXT.byte :: rest)) front.length =
          (VMOpcode.PUSHEXT.byte, front.length + 1) := readByte_append _
    have second := @readByte_append (front ++ [VMOpcode.PUSHEXT.byte]) back VMPushextType.LIST.byte
    simp only [List.append_assoc, List.singleton_append, List.length_append, List.length_singleton]
      at second
    have value : readValue (front ++ (Instruction.list.bytes ++ back)) (front.length + 1) =
        (some .list, front.length + 2) := by
      simp +decide [readValue, Instruction.bytes, second]
    refine ⟨?_, ?_, ?_, fun _ => by rw [value]⟩
    · simp only [instructionEnd, Instruction.bytes, List.cons_append, first, if_true]
      exact congrArg Prod.snd value
    · rintro op bare ⟨⟩
    · rintro value ⟨⟩

/--
Code that the compiler returns is made of whole instructions, which the machine reads as emitted.

From the start of each instruction the machine comes to the start of the next one, every value that
is pushed is read back, and every string that is pushed stands in the source.
-/
theorem compile_whole {source code : List UInt8} {fuel : Nat} (short : source.length < 2 ^ 31)
    (enough : 3 * source.length + 2 ≤ fuel)
    (compiled : (EdictCompiler.compile fuel source).run = some (.ok code)) :
    ∃ stream : List Instruction, code = stream.flatMap Instruction.bytes ∧
      (∀ front instruction back, stream = front ++ instruction :: back →
        instruction.ReadAt code (front.flatMap Instruction.bytes).length) ∧
      ∀ text, .emitted (.pushext (.string text)) ∈ stream → text <:+: source := by
  obtain ⟨result, same, holds⟩ := EdictCompiler.compile_settles source
  obtain rfl := Option.some.inj ((same fuel enough).symm.trans compiled)
  obtain ⟨stream, rfl, drawn⟩ := holds code rfl
  refine ⟨stream, rfl, ?_, drawn⟩
  rintro front instruction back rfl
  rw [List.flatMap_append, List.flatMap_cons]
  refine instruction.readAt _ _ fun text string => ?_
  -- What stands in the source is no longer than the source.
  have inside := drawn text (by rw [string]; exact List.mem_append_right _ List.mem_cons_self)
  exact Nat.lt_of_le_of_lt inside.length_le short

/-- An evaluated name is whole code. -/
theorem compile_whole_eval : ∃ (code : List UInt8) (stream : List Instruction),
    (EdictCompiler.compile 8 (ascii "f!")).run = some (.ok code) ∧
      code = stream.flatMap Instruction.bytes ∧
      ∀ front instruction back, stream = front ++ instruction :: back →
        instruction.ReadAt code (front.flatMap Instruction.bytes).length := by
  have compiled : (EdictCompiler.compile 8 (ascii "f!")).run =
      some (.ok [2, 2, 1, 0, 0, 0, 102, 7, 11]) := by decide +kernel
  obtain ⟨stream, same, read, -⟩ := compile_whole (by decide) (by decide) compiled
  exact ⟨_, stream, compiled, same, read⟩

end AgentC.Edict

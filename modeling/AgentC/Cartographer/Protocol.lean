import AgentC.Cartographer.SchemaRoundTrip

/-! The messages between the Cartographer service and its worker, which are texts of tokens. -/

namespace AgentC.Cartographer

open Listree (backslash byte isDigit)

inductive ImportExecutionMode where
  | Sync
  | Deferred
  deriving DecidableEq, Repr

structure ImportRequest where
  libraryPath : List UInt8 := []
  headerPath : List UInt8 := []
  executionMode : ImportExecutionMode := .Sync
  requestId : List UInt8 := []
  deriving DecidableEq, Repr

/-- What the messages carry of the result of an import. -/
structure ImportResult where
  ok : Bool := false
  error : List UInt8 := []
  symbolCount : UInt64 := 0
  executionMode : ImportExecutionMode := .Sync
  status : List UInt8 := []
  requestId : List UInt8 := []
  deriving DecidableEq, Repr

namespace Protocol

def versionName : List UInt8 := ascii "protocol_v2"

def parserSchemaFormatName : List UInt8 := ascii "parser_json_v1"

def importVerb : List UInt8 := ascii "import_request"

def statusVerb : List UInt8 := ascii "import_status"

def executionModeName : ImportExecutionMode → List UInt8
  | .Sync => ascii "sync"
  | .Deferred => ascii "deferred"

def parseExecutionMode (text : List UInt8) : Option ImportExecutionMode :=
  if text = ascii "sync" then some .Sync
  else if text = ascii "deferred" then some .Deferred
  else none

section Tokens

/-- What `quote` writes for one byte. -/
def quoteByte (ch : UInt8) : List UInt8 :=
  if ch = backslash ∨ ch = Listree.quote then [backslash, ch] else [ch]

def quote (value : List UInt8) : List UInt8 :=
  Listree.quote :: (value.flatMap quoteByte ++ [Listree.quote])

abbrev TokenReader (α : Type) := Parser (List UInt8) α

def TokenReader.skipWhitespace : TokenReader Unit :=
  modify (List.dropWhile isSpace)

/-- The loop over a token in quotes, after the opening quote. -/
def readQuoted : List UInt8 → Except (List UInt8) (List UInt8 × List UInt8)
  | [] => .error (ascii "Protocol string is missing a closing quote")
  | ch :: rest =>
    if ch = backslash then
      match rest with
      | [] => .error (ascii "Protocol string ends with dangling escape")
      | escaped :: rest => (readQuoted rest).map fun (token, rest) => (escaped :: token, rest)
    else if ch = Listree.quote then .ok ([], rest)
    else (readQuoted rest).map fun (token, rest) => (ch :: token, rest)

def TokenReader.readToken : TokenReader (List UInt8) := do
  skipWhitespace
  match ← get with
  | [] => throw (ascii "Protocol message ended unexpectedly")
  | ch :: rest =>
    if ch = Listree.quote then
      set rest
      readQuoted
    else
      set ((ch :: rest).dropWhile (!isSpace ·))
      return (ch :: rest).takeWhile (!isSpace ·)

def expectToken (expected : List UInt8) : TokenReader Unit := do
  let token ← TokenReader.readToken
  if token ≠ expected then
    throw (ascii "Expected protocol token '" ++ expected ++ ascii "'")

def expectEndVerb (expectedVerb : List UInt8) : TokenReader Unit := do
  let verb ← TokenReader.readToken
  if verb ≠ expectedVerb then
    throw (ascii "Expected protocol verb '" ++ expectedVerb ++ ascii "'")
  TokenReader.skipWhitespace
  if (← get) ≠ [] then
    throw (ascii "Unexpected trailing data after protocol verb")

/-- The function `strtoull` in base ten: a number, and what stands behind it. -/
def strtoull (text : List UInt8) : UInt64 × List UInt8 :=
  match decimalPrefix text with
  | none => (0, text)
  | some (negative, magnitude) =>
    let number := if 2 ^ 64 ≤ magnitude then UInt64.ofNat (2 ^ 64 - 1)
      else if negative then -UInt64.ofNat magnitude
      else UInt64.ofNat magnitude
    (number, (Listree.skipOne [byte '-', byte '+'] (text.dropWhile isSpace)).dropWhile isDigit)

/-- The number in a token; as a C string the token ends at its first zero byte. -/
def readCount (token : List UInt8) : Except (List UInt8) UInt64 :=
  let (parsed, rest) := strtoull (token.takeWhile (· ≠ 0))
  if rest = [] then .ok parsed
  else .error (ascii "Protocol symbol_count is not numeric: " ++ token)

end Tokens

section Requests

def encodeImportRequest (request : ImportRequest) : List UInt8 :=
  versionName ++
  (ascii " library " ++ quote request.libraryPath ++
  (ascii " header " ++ quote request.headerPath ++
  (ascii " mode " ++ quote (executionModeName request.executionMode) ++
  (ascii " request_id " ++ quote request.requestId ++
  (ascii " " ++ importVerb)))))

def decodeImportRequestFields : TokenReader ImportRequest := do
  expectToken (ascii "library")
  let libraryPath ← TokenReader.readToken
  expectToken (ascii "header")
  let headerPath ← TokenReader.readToken
  expectToken (ascii "mode")
  let modeText ← TokenReader.readToken
  match parseExecutionMode modeText with
  | none => throw (ascii "Unsupported protocol execution mode: " ++ modeText)
  | some executionMode =>
    expectToken (ascii "request_id")
    let requestId ← TokenReader.readToken
    return { libraryPath, headerPath, executionMode, requestId }

def expectVersion : TokenReader Unit := do
  let version ← TokenReader.readToken
  if version ≠ versionName then
    throw (ascii "Unsupported protocol version: " ++ version)

def importRequest : TokenReader ImportRequest := do
  expectVersion
  let request ← decodeImportRequestFields
  expectEndVerb importVerb
  return request

def decodeImportRequest (message : List UInt8) : Except (List UInt8) ImportRequest :=
  (importRequest message).map Prod.fst

end Requests

section Statuses

/-- The status of a request, with what has been found in the header if that is to be sent. -/
def encodeImportStatus (request : ImportRequest) (result : ImportResult)
    (description : Option ParseDescription) : List UInt8 :=
  versionName ++
  (ascii " library " ++ quote request.libraryPath ++
  (ascii " header " ++ quote request.headerPath ++
  (ascii " mode " ++ quote (executionModeName result.executionMode) ++
  (ascii " request_id " ++ quote result.requestId ++
  (ascii " status " ++ quote result.status ++
  (ascii " symbol_count " ++ quote (decimalDigits result.symbolCount.toNat) ++
  (ascii " error " ++ quote result.error ++
  (ascii " api_schema_format " ++ quote parserSchemaFormatName ++
  (ascii " api_schema_json " ++ quote (description.elim [] encodeParseDescription) ++
  (ascii " " ++ statusVerb))))))))))

def readDescription (described : Bool) (encoded : List UInt8) :
    Except (List UInt8) ParseDescription :=
  if described then decodeParseDescription encoded else .ok []

def importStatus (described : Bool) : TokenReader (ImportRequest × ImportResult × ParseDescription) := do
  expectVersion
  let request ← decodeImportRequestFields
  expectToken (ascii "status")
  let status ← TokenReader.readToken
  expectToken (ascii "symbol_count")
  let symbolCount ← TokenReader.readToken
  let parsed ← readCount symbolCount
  expectToken (ascii "error")
  let error ← TokenReader.readToken
  expectToken (ascii "api_schema_format")
  let schemaFormat ← TokenReader.readToken
  if schemaFormat ≠ parserSchemaFormatName then
    throw (ascii "Unsupported API schema format: " ++ schemaFormat)
  expectToken (ascii "api_schema_json")
  let encodedDescription ← TokenReader.readToken
  let ok := decide (status ∈ ["queued", "running", "ready"].map ascii)
  let description ← readDescription described encodedDescription
  expectEndVerb statusVerb
  return (request, { ok, error, symbolCount := parsed, executionMode := request.executionMode, status
                     requestId := request.requestId }, description)

def decodeImportStatus (described : Bool) (message : List UInt8) :
    Except (List UInt8) (ImportRequest × ImportResult × ParseDescription) :=
  (importStatus described message).map Prod.fst

end Statuses

section RoundTrip

theorem readQuoted_byte (ch : UInt8) (rest : List UInt8) :
    readQuoted (quoteByte ch ++ rest) =
      (readQuoted rest).map fun (token, rest) => (ch :: token, rest) := by
  unfold quoteByte
  split
  · rw [List.cons_append, List.singleton_append, readQuoted.eq_def]
    simp only [if_true]
  · next plain =>
    obtain ⟨noBackslash, noQuote⟩ := not_or.mp plain
    rw [List.singleton_append, readQuoted.eq_def]
    simp only [noBackslash, noQuote, if_false]

theorem readQuoted_reads (value : List UInt8) :
    Parser.Reads readQuoted (value.flatMap quoteByte ++ [Listree.quote]) value := by
  intro rest
  induction value with
  | nil =>
    rw [List.flatMap_nil, List.nil_append, List.singleton_append, readQuoted.eq_def]
    rfl
  | cons ch value ih =>
    rw [List.append_assoc] at ih
    rw [List.flatMap_cons, List.append_assoc, List.append_assoc, readQuoted_byte, ih]
    rfl

theorem readToken_quote (value : List UInt8) :
    Parser.Reads TokenReader.readToken (0x20 :: quote value) value := by
  intro rest
  exact readQuoted_reads value rest

def Word (word : List UInt8) : Prop :=
  word ≠ [] ∧ (∀ ch ∈ word, isSpace ch = false) ∧ word.head? ≠ some Listree.quote

instance (word : List UInt8) : Decidable (Word word) :=
  haveI := List.decidableBAll (isSpace · = false) word
  inferInstanceAs (Decidable (_ ∧ _ ∧ _))

theorem readToken_word {word : List UInt8} (isWord : Word word) {rest : List UInt8}
    (ends : rest.takeWhile (!isSpace ·) = []) :
    TokenReader.readToken (0x20 :: (word ++ rest)) = .ok (word, rest) := by
  obtain ⟨some_, plain, unquoted⟩ := isWord
  have visible : ∀ ch ∈ word, (!isSpace ch) = true := fun ch member => by rw [plain ch member]; rfl
  have taken : (word ++ rest).takeWhile (!isSpace ·) = word := by
    rw [List.takeWhile_append_of_pos visible, ends, List.append_nil]
  have left : (word ++ rest).dropWhile (!isSpace ·) = rest := by
    rw [List.dropWhile_append_of_pos visible]
    have whole := List.takeWhile_append_dropWhile (p := (!isSpace ·)) (l := rest)
    rwa [ends, List.nil_append] at whole
  cases word with
  | nil => exact absurd rfl some_
  | cons ch word =>
    have kept : (0x20 :: (ch :: word ++ rest)).dropWhile isSpace = ch :: (word ++ rest) := by
      have first := plain ch List.mem_cons_self
      rw [List.dropWhile_cons, if_pos (by decide), List.cons_append, List.dropWhile_cons, first]
      rfl
    have noQuote : ch ≠ Listree.quote := fun same => unquoted (congrArg some same)
    rw [TokenReader.readToken, Parser.bind_apply]
    change (get >>= _ : TokenReader (List UInt8)) ((0x20 :: (ch :: word ++ rest)).dropWhile isSpace) = _
    rw [kept, Parser.get_bind]
    simp only [noQuote, if_false, Parser.set_bind]
    rw [← List.cons_append, taken, left]
    rfl

theorem expectToken_word {word : List UInt8} (isWord : Word word) (rest : List UInt8) :
    expectToken word (0x20 :: (word ++ 0x20 :: rest)) = .ok ((), 0x20 :: rest) := by
  rw [expectToken, Parser.bind_apply, readToken_word isWord rfl]
  simp only [Except.bind, ne_eq, not_true, if_false]
  rfl

theorem field_bind {α : Type} (word spaced : List UInt8) (isWord : Word word)
    (same : spaced = 0x20 :: (word ++ [0x20])) (value rest : List UInt8)
    (next : List UInt8 → TokenReader α) :
    (do
      expectToken word
      let token ← TokenReader.readToken
      next token : TokenReader α) (spaced ++ quote value ++ rest) = next value rest := by
  have text : spaced ++ quote value ++ rest = 0x20 :: (word ++ 0x20 :: (quote value ++ rest)) := by
    rw [same, List.cons_append, List.append_assoc, List.cons_append, List.append_assoc,
      List.singleton_append, List.cons_append]
  rw [text, Parser.bind_apply, expectToken_word isWord]
  dsimp only [Except.bind]
  rw [Parser.bind_apply, ← List.cons_append, readToken_quote]
  rfl

theorem version_bind {α : Type} {rest : List UInt8} (next : Unit → TokenReader α)
    (blank : rest.head? = some 0x20) : (expectVersion >>= next) (versionName ++ rest) = next () rest := by
  obtain ⟨later, rfl⟩ := List.head?_eq_some_iff.mp blank
  have front : TokenReader.readToken (versionName ++ 0x20 :: later) =
      TokenReader.readToken (0x20 :: (versionName ++ 0x20 :: later)) := rfl
  have read : expectVersion (versionName ++ 0x20 :: later) = .ok ((), 0x20 :: later) := by
    rw [expectVersion, Parser.bind_apply, front, readToken_word (by decide) rfl]
    simp only [Except.bind, ne_eq, not_true, if_false]
    rfl
  rw [Parser.bind_apply, read]
  rfl

theorem expectEndVerb_word {verb : List UInt8} (isWord : Word verb) :
    expectEndVerb verb (0x20 :: verb) = .ok ((), []) := by
  have read : TokenReader.readToken (0x20 :: (verb ++ [])) = .ok (verb, []) :=
    readToken_word isWord rfl
  rw [List.append_nil] at read
  rw [expectEndVerb, Parser.bind_apply, read]
  simp only [Except.bind, ne_eq, not_true, if_false]
  rfl

theorem parseExecutionMode_name (mode : ImportExecutionMode) :
    parseExecutionMode (executionModeName mode) = some mode := by
  cases mode <;> rfl

theorem decodeImportRequestFields_reads (request : ImportRequest) (rest : List UInt8) :
    decodeImportRequestFields (ascii " library " ++ quote request.libraryPath ++
      (ascii " header " ++ quote request.headerPath ++
      (ascii " mode " ++ quote (executionModeName request.executionMode) ++
      (ascii " request_id " ++ quote request.requestId ++ rest)))) = .ok (request, rest) := by
  rw [decodeImportRequestFields, field_bind (ascii "library") (ascii " library ") (by decide) rfl,
    field_bind (ascii "header") (ascii " header ") (by decide) rfl,
    field_bind (ascii "mode") (ascii " mode ") (by decide) rfl, parseExecutionMode_name]
  dsimp only
  rw [field_bind (ascii "request_id") (ascii " request_id ") (by decide) rfl]
  rfl

theorem decodeImportRequest_encodeImportRequest (request : ImportRequest) :
    decodeImportRequest (encodeImportRequest request) = .ok request := by
  have read : importRequest (encodeImportRequest request) = .ok (request, []) := by
    have ended := expectEndVerb_word (by decide : Word importVerb)
    rw [encodeImportRequest, importRequest, version_bind, Parser.bind_apply,
      decodeImportRequestFields_reads]
    · dsimp only [Except.bind]
      rw [Parser.bind_apply]
      exact congrArg (Except.bind · _) ended
    · rfl
  rw [decodeImportRequest, read]
  rfl

theorem strtoull_decimalDigits (n : UInt64) : strtoull (decimalDigits n.toNat) = (n, []) := by
  have digits := fun c => isDigit_of_mem (n := n.toNat) (c := c)
  have some_ := decimalDigits_ne_nil n.toNat
  have parsed : decimalPrefix (decimalDigits n.toNat) = some (false, n.toNat) := by
    have read := decimalPrefix_decimal n.toNat
    have positive : ¬ (n.toNat : Int) < 0 := by omega
    rwa [decimal, if_neg positive, decide_eq_false positive, Int.natAbs_natCast] at read
  have rest : (Listree.skipOne [byte '-', byte '+'] ((decimalDigits n.toNat).dropWhile isSpace)).dropWhile
      isDigit = [] := by
    cases given : decimalDigits n.toNat with
    | nil => exact absurd given some_
    | cons c more =>
      rw [given] at digits
      obtain ⟨visible, minus, plus⟩ := isDigit_visible (digits c List.mem_cons_self)
      have kept : (c :: more).dropWhile isSpace = c :: more := by
        rw [List.dropWhile_cons, visible]
        rfl
      have unsigned : c ∉ [byte '-', byte '+'] := by
        simp only [List.mem_cons, minus, plus, List.not_mem_nil, or_self, not_false_iff]
      rw [kept, Listree.skipOne, if_neg unsigned]
      exact List.dropWhile_eq_nil_iff.mpr digits
  have small : ¬ 2 ^ 64 ≤ n.toNat := Nat.not_le.mpr n.toNat_lt
  simp only [strtoull, parsed, small, if_false, Bool.false_eq_true, rest, UInt64.ofNat_toNat]

theorem readCount_decimalDigits (n : UInt64) : readCount (decimalDigits n.toNat) = .ok n := by
  have noZero : ∀ c ∈ decimalDigits n.toNat, decide (c ≠ 0) = true := by
    intro c member
    refine decide_eq_true ?_
    rintro rfl
    exact absurd (isDigit_of_mem member) (by decide)
  have whole : (decimalDigits n.toNat).takeWhile (fun c => decide (c ≠ 0)) = decimalDigits n.toNat :=
    List.takeWhile_eq_self_iff.mpr noZero
  simp only [readCount, whole, strtoull_decimalDigits, if_true]

theorem decodeImportStatus_encodeImportStatus (request : ImportRequest) (result : ImportResult)
    (description : Option ParseDescription) (described : Bool) :
    decodeImportStatus described (encodeImportStatus request result description) =
      .ok ({ request with executionMode := result.executionMode, requestId := result.requestId },
        { result with ok := decide (result.status ∈ ["queued", "running", "ready"].map ascii) },
        if described then description.getD [] else []) := by
  have fields := decodeImportRequestFields_reads
    { request with executionMode := result.executionMode, requestId := result.requestId }
  have ended := expectEndVerb_word (by decide : Word statusVerb)
  have found : readDescription described (description.elim [] encodeParseDescription) =
      .ok (if described then description.getD [] else []) := by
    cases described with
    | false => rfl
    | true =>
      cases description with
      | none => rfl
      | some description => exact decodeParseDescription_encodeParseDescription description
  dsimp only at fields
  rw [decodeImportStatus, encodeImportStatus, importStatus, version_bind, Parser.bind_apply, fields]
  · dsimp only [Except.bind]
    rw [field_bind (ascii "status") (ascii " status ") (by decide) rfl,
      field_bind (ascii "symbol_count") (ascii " symbol_count ") (by decide) rfl,
      Parser.lift_bind (readCount_decimalDigits _),
      field_bind (ascii "error") (ascii " error ") (by decide) rfl,
      field_bind (ascii "api_schema_format") (ascii " api_schema_format ") (by decide) rfl]
    simp only [ne_eq, not_true, if_false]
    rw [field_bind (ascii "api_schema_json") (ascii " api_schema_json ") (by decide) rfl,
      Parser.lift_bind found, Parser.bind_apply]
    exact congrArg (fun read => Except.map Prod.fst (Except.bind read _)) ended
  · rfl

/--
Requests and statuses are read back as they were written.

A status gives back the library and the header of its request, and everything that it says of the
result: the mode and the number of the request, the status itself, the number of symbols, the error
text and the description.
-/
theorem messages_round_trip :
    (∀ request : ImportRequest, decodeImportRequest (encodeImportRequest request) = .ok request) ∧
    ∀ (request : ImportRequest) (result : ImportResult) (description : ParseDescription),
      ∃ requestOut resultOut,
        decodeImportStatus true (encodeImportStatus request result (some description)) =
          .ok (requestOut, resultOut, description) ∧
        requestOut = { request with executionMode := result.executionMode, requestId := result.requestId } ∧
        resultOut = { result with ok := resultOut.ok } := by
  refine ⟨decodeImportRequest_encodeImportRequest, fun request result description => ?_⟩
  have read := decodeImportStatus_encodeImportStatus request result (some description) true
  exact ⟨_, _, read, rfl, rfl⟩

end RoundTrip

end Protocol

end AgentC.Cartographer

import AgentC.Cartographer.Resolver

/-! The JSON text of a resolved API is read back as the API. -/

namespace AgentC.Cartographer.Resolver

open Listree (byte isDigit)
open Protocol

section Objects

variable {α : Type} {member : α → List UInt8 → JsonParser α} {comma colon : String}

def Closes (rest : List UInt8) : Prop :=
  ∃ later, rest = byte ',' :: later ∨ rest = byte '}' :: later

def Fills (member : α → List UInt8 → JsonParser α) : α → Members → α → Prop
  | out, [], last => out = last
  | out, (key, text) :: rest, last =>
    ∃ next, Parser.ReadsBefore Closes (member out key) text next ∧ Fills member next rest last

theorem Fills.cons {key text : List UInt8} {members : Members} {out next last : α}
    (reads : Parser.ReadsBefore Closes (member out key) text next) (others : Fills member next members last) :
    Fills member out ((key, text) :: members) last :=
  ⟨next, reads, others⟩

theorem closes_writeMembers (members : Members) (rest : List UInt8) :
    Closes (writeMembers false members ++ (byte '}' :: rest)) := by
  cases members with
  | nil => exact ⟨_, Or.inr rfl⟩
  | cons entry members => exact ⟨_, Or.inl rfl⟩

theorem parseMembers_reads : ∀ (members : Members) {fuel : Nat} {first : Bool} {out last : α},
    Fills member out members last → (writeMembers first members).length < fuel →
    Parser.Reads (parseMembers comma colon member fuel first out)
      (writeMembers first members ++ [byte '}']) last
  | [], fuel + 1, first, out, last, fills, enough => by
    intro rest
    obtain rfl := fills
    rw [writeMembers, List.nil_append, parseMembers, Parser.bind_apply, consume_reads (by decide)]
    rfl
  | (key, text) :: members, fuel + 1, first, out, last, fills, enough => by
    intro rest
    obtain ⟨next, reads, others⟩ := fills
    have fits : (writeMembers false members).length < fuel := by
      simp only [writeMembers, jsonKey, jsonString, List.length_append, List.length_cons] at enough
      omega
    have own := reads _ (closes_writeMembers members rest)
    have later := parseMembers_reads members others fits rest
    rw [List.append_assoc, List.singleton_append] at later
    -- Behind the comma, if there is one, come the key, a colon, the value and the other members.
    have inside : (do
        let key ← JsonParser.parseString
        JsonParser.expect (byte ':') colon
        let out ← member out key
        parseMembers comma colon member fuel false out : JsonParser α)
          (jsonString key ++ ([byte ':'] ++ (text ++ (writeMembers false members ++ (byte '}' :: rest))))) =
        .ok (last, rest) := by
      rw [Parser.bind_of_ok (parseString_reads key _), Parser.bind_of_ok (expect_reads (by decide) colon _),
        Parser.bind_of_ok own]
      exact later
    have whole : writeMembers first ((key, text) :: members) ++ [byte '}'] ++ rest =
        (if first then [] else [byte ',']) ++ (jsonString key ++ ([byte ':'] ++ (text ++
          (writeMembers false members ++ (byte '}' :: rest))))) := by
      simp only [writeMembers, jsonKey, List.append_assoc, List.cons_append,
        List.nil_append]
    rw [whole, parseMembers, Parser.bind_apply]
    cases first with
    | true =>
      rw [if_pos rfl, List.nil_append, jsonString, List.cons_append, consume_other (by decide) (by decide)]
      exact inside
    | false =>
      rw [if_neg Bool.false_ne_true, List.singleton_append, consume_other (by decide) (by decide)]
      dsimp only [Except.bind]
      simp only [Bool.false_eq_true, if_false, Bool.not_false, if_true]
      rw [Parser.bind_apply, ← List.singleton_append, expect_reads (by decide)]
      exact inside

theorem parseObject_reads {brace : String} {out last : α} {members : Members}
    (fills : Fills member out members last) :
    Parser.Reads (parseObject brace comma colon member out) (writeObject members) last := by
  intro rest
  have enough : (writeMembers true members).length <
      (writeMembers true members ++ [byte '}'] ++ rest).length + 1 := by
    simp only [List.length_append]
    omega
  rw [writeObject, parseObject, List.cons_append, ← List.singleton_append,
    Parser.bind_of_ok (expect_reads (by decide) brace _), Parser.get_bind]
  exact parseMembers_reads members fills enough rest

theorem parseElements_reads {element : JsonParser α} {write : α → List UInt8}
    (reads : ∀ value, Parser.Reads element (byte '{' :: write value) value) :
    ∀ (values : List α) {fuel : Nat} {first : Bool} {before : List α},
    (writeElements first (values.map fun value => byte '{' :: write value)).length < fuel →
    Parser.Reads (parseElements comma element fuel first before)
      (writeElements first (values.map fun value => byte '{' :: write value) ++ [byte ']'])
      (before ++ values)
  | [], fuel + 1, first, before, enough => by
    intro rest
    rw [List.map_nil, writeElements, List.nil_append, parseElements, Parser.bind_apply,
      consume_reads (by decide), List.append_nil]
    rfl
  | value :: values, fuel + 1, first, before, enough => by
    intro rest
    have fits : (writeElements false (values.map fun value => byte '{' :: write value)).length < fuel := by
      simp only [List.map_cons, writeElements, List.length_append, List.length_cons] at enough
      omega
    have later : parseElements comma element fuel false (before ++ [value]) _ = _ :=
      parseElements_reads reads values fits rest
    rw [List.append_assoc, List.singleton_append, List.append_assoc, List.singleton_append] at later
    -- Behind the comma, if there is one, come the element and the others.
    have inside : (do
        let value ← element
        parseElements comma element fuel false (before ++ [value]) : JsonParser (List α))
          ((byte '{' :: write value) ++
            (writeElements false (values.map fun value => byte '{' :: write value) ++ (byte ']' :: rest))) =
        .ok (before ++ value :: values, rest) := by
      rw [Parser.bind_of_ok (reads value _)]
      exact later
    have whole : writeElements first ((value :: values).map fun value => byte '{' :: write value) ++ [byte ']'] ++
        rest = (if first then [] else [byte ',']) ++ ((byte '{' :: write value) ++
          (writeElements false (values.map fun value => byte '{' :: write value) ++ (byte ']' :: rest))) := by
      simp only [List.map_cons, writeElements, List.append_assoc, List.cons_append,
        List.nil_append]
    rw [whole, parseElements, Parser.bind_apply]
    cases first with
    | true =>
      rw [if_pos rfl, List.nil_append, List.cons_append, consume_other (by decide) (by decide)]
      exact inside
    | false =>
      rw [if_neg Bool.false_ne_true, List.singleton_append, consume_other (by decide) (by decide)]
      dsimp only [Except.bind]
      simp only [Bool.false_eq_true, if_false, Bool.not_false, if_true]
      rw [Parser.bind_apply, ← List.singleton_append, expect_reads (by decide)]
      exact inside

end Objects

section Values

variable {α β : Type}

theorem readsBefore_last {read : JsonParser α} {text : List UInt8} {value : α} {set : α → β}
    (reads : Parser.ReadsBefore Closes read text value) :
    Parser.ReadsBefore Closes (do let value ← read; return set value) text (set value) := by
  intro rest closes
  rw [Parser.bind_of_ok (reads rest closes)]
  rfl

theorem readsBefore_string (value : List UInt8) :
    Parser.ReadsBefore Closes JsonParser.parseString (jsonString value) value :=
  fun rest _ => parseString_reads value rest

theorem readsBefore_bool (value : Bool) : Parser.ReadsBefore Closes parseBool (writeBool value) value := by
  intro rest _
  cases value <;> rfl

theorem readsBefore_unsigned (n : UInt64) :
    Parser.ReadsBefore Closes parseUnsigned (decimalDigits n.toNat) n := by
  intro rest ⟨later, closes⟩
  have digits := fun c => isDigit_of_mem (n := n.toNat) (c := c)
  have some_ := decimalDigits_ne_nil n.toNat
  have front : rest.takeWhile isDigit = [] ∧ rest.dropWhile isDigit = rest := by
    rcases closes with rfl | rfl <;> exact ⟨rfl, rfl⟩
  have taken : (decimalDigits n.toNat ++ rest).takeWhile isDigit = decimalDigits n.toNat := by
    rw [List.takeWhile_append_of_pos digits, front.1, List.append_nil]
  have left : (decimalDigits n.toNat ++ rest).dropWhile isDigit = rest := by
    rw [List.dropWhile_append_of_pos digits, front.2]
  have visible : JsonParser.skipWhitespace (decimalDigits n.toNat ++ rest) =
      .ok ((), decimalDigits n.toNat ++ rest) := by
    cases given : decimalDigits n.toNat with
    | nil => exact absurd given some_
    | cons c more =>
      have digit := digits c (given ▸ List.mem_cons_self)
      exact skipWhitespace_cons (isDigit_visible digit).1 _
  rw [parseUnsigned, Parser.bind_of_ok visible, Parser.get_bind]
  simp only [taken, left, some_, if_false, Parser.set_bind, strtoull_decimalDigits]
  rfl

end Values

section Members

theorem symbolMember_texts (out : ResolvedSymbol) (value : List UInt8) :
    Parser.ReadsBefore Closes (symbolMember out (ascii "key")) (jsonString value) { out with key := value } ∧
    Parser.ReadsBefore Closes (symbolMember out (ascii "kind")) (jsonString value) { out with kind := value } ∧
    Parser.ReadsBefore Closes (symbolMember out (ascii "name")) (jsonString value) { out with name := value } ∧
    Parser.ReadsBefore Closes (symbolMember out (ascii "symbol")) (jsonString value)
      { out with symbolName := value } ∧
    Parser.ReadsBefore Closes (symbolMember out (ascii "resolution_status")) (jsonString value)
      { out with resolutionStatus := value } ∧
    Parser.ReadsBefore Closes (symbolMember out (ascii "address")) (jsonString value)
      { out with address := value } := by
  refine ⟨?_, ?_, ?_, ?_, ?_, ?_⟩
  all_goals
    simp +decide only [symbolMember, if_true, if_false]
    exact readsBefore_last (readsBefore_string value)

theorem fills_symbolMembers (symbol : ResolvedSymbol) :
    Fills symbolMember {} (symbolMembers symbol) symbol := by
  refine .cons (symbolMember_texts _ symbol.key).1 (.cons (symbolMember_texts _ symbol.kind).2.1
    (.cons (symbolMember_texts _ symbol.name).2.2.1 (.cons (symbolMember_texts _ symbol.symbolName).2.2.2.1
    (.cons (symbolMember_texts _ symbol.resolutionStatus).2.2.2.2.1 ?_))))
  change Fills symbolMember { symbol with address := [] }
    (if symbol.address = [] then [] else [(ascii "address", jsonString symbol.address)]) symbol
  by_cases none_ : symbol.address = []
  · -- An address that is not written is read as the empty one.
    rw [if_pos none_, ← none_]
    rfl
  · rw [if_neg none_]
    exact .cons (symbolMember_texts _ symbol.address).2.2.2.2.2 rfl

theorem parseResolvedSymbol_reads (symbol : ResolvedSymbol) :
    Parser.Reads parseResolvedSymbol (writeObject (symbolMembers symbol)) symbol :=
  parseObject_reads (fills_symbolMembers symbol)

theorem libraryMember_texts (out : ResolvedApi) (value : List UInt8) (flag : Bool) :
    Parser.ReadsBefore Closes (libraryMember out (ascii "path")) (jsonString value)
      { out with libraryPath := value } ∧
    Parser.ReadsBefore Closes (libraryMember out (ascii "content_hash")) (jsonString value)
      { out with contentHash := value } ∧
    Parser.ReadsBefore Closes (libraryMember out (ascii "address_bindings_process_local")) (writeBool flag)
      { out with addressBindingsProcessLocal := flag } := by
  refine ⟨?_, ?_, ?_⟩
  all_goals simp +decide only [libraryMember, if_true, if_false]
  · exact readsBefore_last (readsBefore_string value)
  · exact readsBefore_last (readsBefore_string value)
  · exact readsBefore_last (readsBefore_bool flag)

theorem libraryMember_numbers (out : ResolvedApi) (n : UInt64) :
    Parser.ReadsBefore Closes (libraryMember out (ascii "file_size")) (decimalDigits n.toNat)
      { out with fileSize := n } ∧
    Parser.ReadsBefore Closes (libraryMember out (ascii "modified_time_ns")) (decimalDigits n.toNat)
      { out with modifiedTimeNs := n } := by
  constructor
  all_goals
    simp +decide only [libraryMember, if_true, if_false]
    exact readsBefore_last (readsBefore_unsigned n)

theorem fills_libraryMembers (api out : ResolvedApi) :
    Fills libraryMember out (libraryMembers api)
      { out with
        libraryPath := api.libraryPath
        fileSize := api.fileSize
        modifiedTimeNs := api.modifiedTimeNs
        contentHash := api.contentHash
        addressBindingsProcessLocal := api.addressBindingsProcessLocal } :=
  .cons (libraryMember_texts _ api.libraryPath true).1 (.cons (libraryMember_numbers _ api.fileSize).1
    (.cons (libraryMember_numbers _ api.modifiedTimeNs).2 (.cons (libraryMember_texts _ api.contentHash true).2.1
    (.cons (libraryMember_texts _ [] api.addressBindingsProcessLocal).2.2 rfl))))

theorem summaryMember_numbers (out : ResolvedApi) (n : UInt64) :
    Parser.ReadsBefore Closes (summaryMember out (ascii "symbol_count")) (decimalDigits n.toNat)
      { out with symbolCount := n } ∧
    Parser.ReadsBefore Closes (summaryMember out (ascii "resolved_count")) (decimalDigits n.toNat)
      { out with resolvedCount := n } ∧
    Parser.ReadsBefore Closes (summaryMember out (ascii "unresolved_count")) (decimalDigits n.toNat)
      { out with unresolvedCount := n } := by
  refine ⟨?_, ?_, ?_⟩
  all_goals
    simp +decide only [summaryMember, if_true, if_false]
    exact readsBefore_last (readsBefore_unsigned n)

theorem fills_summaryMembers (api out : ResolvedApi) :
    Fills summaryMember out (summaryMembers api)
      { out with
        symbolCount := api.symbolCount
        resolvedCount := api.resolvedCount
        unresolvedCount := api.unresolvedCount } :=
  .cons (summaryMember_numbers _ api.symbolCount).1 (.cons (summaryMember_numbers _ api.resolvedCount).2.1
    (.cons (summaryMember_numbers _ api.unresolvedCount).2.2 rfl))

theorem apiMember_symbols (out : ResolvedApi) (symbols : List ResolvedSymbol) :
    Parser.ReadsBefore Closes (apiMember out (ascii "symbols")) (writeSymbols symbols)
      { out with symbols := symbols } := by
  intro rest _
  simp +decide only [apiMember, if_true, if_false]
  have elements : ∀ fuel, (writeElements true (symbols.map fun symbol => writeObject (symbolMembers symbol))).length <
      fuel → Parser.Reads (parseElements "Expected ',' between resolved symbols" parseResolvedSymbol fuel true [])
        (writeElements true (symbols.map fun symbol => writeObject (symbolMembers symbol)) ++ [byte ']'])
        symbols := by
    intro fuel enough
    have each : ∀ symbol, Parser.Reads parseResolvedSymbol
        (byte '{' :: (writeMembers true (symbolMembers symbol) ++ [byte '}'])) symbol :=
      parseResolvedSymbol_reads
    exact parseElements_reads each symbols enough
  rw [writeSymbols, List.cons_append, ← List.singleton_append,
    Parser.bind_of_ok (expect_reads (by decide) _ _), Parser.get_bind,
    Parser.bind_of_ok (elements _ (by simp only [List.length_append]; omega) rest)]
  rfl

theorem fills_apiMembers (api : ResolvedApi) : Fills apiMember {} (apiMembers api) api := by
  have format : Parser.ReadsBefore Closes (apiMember {} (ascii "format"))
      (jsonString resolverSchemaFormatName) {} := by
    intro rest _
    simp +decide only [apiMember, if_true]
    rw [Parser.bind_of_ok (parseString_reads _ rest)]
    rfl
  have library : ∀ out : ResolvedApi, Parser.ReadsBefore Closes (apiMember out (ascii "library"))
      (writeObject (libraryMembers api))
      { out with
        libraryPath := api.libraryPath
        fileSize := api.fileSize
        modifiedTimeNs := api.modifiedTimeNs
        contentHash := api.contentHash
        addressBindingsProcessLocal := api.addressBindingsProcessLocal } := by
    intro out rest _
    simp +decide only [apiMember, if_true, if_false]
    exact parseObject_reads (fills_libraryMembers api out) rest
  have summary : ∀ out : ResolvedApi, Parser.ReadsBefore Closes (apiMember out (ascii "summary"))
      (writeObject (summaryMembers api))
      { out with
        symbolCount := api.symbolCount
        resolvedCount := api.resolvedCount
        unresolvedCount := api.unresolvedCount } := by
    intro out rest _
    simp +decide only [apiMember, if_true, if_false]
    exact parseObject_reads (fills_summaryMembers api out) rest
  have schemaFormat : ∀ out : ResolvedApi, Parser.ReadsBefore Closes (apiMember out (ascii "api_schema_format"))
      (jsonString api.parserSchemaFormat) { out with parserSchemaFormat := api.parserSchemaFormat } := by
    intro out
    simp +decide only [apiMember, if_true, if_false]
    exact readsBefore_last (readsBefore_string _)
  have schemaJson : ∀ out : ResolvedApi, Parser.ReadsBefore Closes (apiMember out (ascii "api_schema_json"))
      (jsonString api.parserSchemaJson) { out with parserSchemaJson := api.parserSchemaJson } := by
    intro out
    simp +decide only [apiMember, if_true, if_false]
    exact readsBefore_last (readsBefore_string _)
  exact .cons format (.cons (library _) (.cons (summary _) (.cons (schemaFormat _) (.cons (schemaJson _)
    (.cons (apiMember_symbols _ api.symbols) rfl)))))

end Members

/--
A resolved API with the schema of the parser is read back as it was written.

The list of its symbols gives them back in the order in which they were added to it.
-/
theorem api_round_trip (api : ResolvedApi) (format : api.parserSchemaFormat = parserSchemaFormatName)
    (schema : api.parserSchemaJson ≠ []) :
    decodeResolvedApi (encodeResolvedApi api) = .ok api ∧
    forEachSymbol (symbolList api.symbols) = api.symbols := by
  refine ⟨?_, CLL.forEach_foldl_store false api.symbols⟩
  have object : parseObject "Expected JSON object for resolved API" "Expected ',' between resolved API fields"
      "Expected ':' after resolved API key" apiMember {} _ = _ := parseObject_reads (fills_apiMembers api) []
  rw [List.append_nil] at object
  have read : parseResolvedApi (encodeResolvedApi api) = .ok (api, []) := by
    rw [parseResolvedApi, encodeResolvedApi, Parser.bind_of_ok object]
    rfl
  unfold decodeResolvedApi
  rw [read]
  simp only [format, schema, bind, Except.bind, ne_eq, not_true, if_false]
  rfl

/-- An API with a symbol that has no address. -/
theorem api_round_trip_puts : decodeResolvedApi (encodeResolvedApi
      { libraryPath := ascii "libc.so.6", fileSize := 2 ^ 64 - 1, parserSchemaFormat := parserSchemaFormatName
        parserSchemaJson := encodeParseDescription [], symbols := [{ key := ascii "puts" }] }) = .ok
      { libraryPath := ascii "libc.so.6", fileSize := 2 ^ 64 - 1, parserSchemaFormat := parserSchemaFormatName
        parserSchemaJson := encodeParseDescription [], symbols := [{ key := ascii "puts" }] } ∧
    forEachSymbol (symbolList [{ key := ascii "puts" }]) = [{ key := ascii "puts" }] :=
  api_round_trip
    { libraryPath := ascii "libc.so.6", fileSize := 2 ^ 64 - 1, parserSchemaFormat := parserSchemaFormatName
      parserSchemaJson := encodeParseDescription [], symbols := [{ key := ascii "puts" }] }
    rfl (List.cons_ne_nil _ _)

end AgentC.Cartographer.Resolver

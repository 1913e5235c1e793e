import AgentC.Cartographer.BoxingLaws
import AgentC.Cartographer.Schema

/-! The JSON text of a parse description is read back as the description. -/

namespace AgentC.Cartographer.Protocol

open Listree (backslash byte isDigit)

section Strings

theorem parseChars_quote (rest : List UInt8) :
    parseChars (Listree.quote :: rest) = .ok ([], rest) := by
  rw [parseChars.eq_def]
  simp only [if_true]

theorem parseChars_plain {ch : UInt8} (noQuote : ch ≠ Listree.quote) (noBackslash : ch ≠ backslash)
    (rest : List UInt8) :
    parseChars (ch :: rest) = (parseChars rest).map fun (out, rest) => (ch :: out, rest) := by
  rw [parseChars.eq_def]
  simp only [noQuote, noBackslash, if_false, ne_eq, not_false_iff, if_true]

theorem parseChars_escape (ch : UInt8) (rest : List UInt8) :
    parseChars (escapeJsonByte ch ++ rest) =
      (parseChars rest).map fun (out, rest) => (ch :: out, rest) := by
  have special : ∀ letter, unescapeJson letter = some ch →
      parseChars (backslash :: letter :: rest) =
        (parseChars rest).map fun (out, rest) => (ch :: out, rest) := by
    intro letter unescaped
    have opening : ¬ backslash = Listree.quote := by decide
    simp only [parseChars, opening, if_false, ne_eq, not_true, unescaped]
  unfold escapeJsonByte
  -- There is one case for each letter, and one for the bytes that are written as they are.
  split
  · next same => exact special backslash (by rw [same]; rfl)
  split
  · next same => exact special Listree.quote (by rw [same]; rfl)
  split
  · next same => exact special (byte 'n') (by rw [same]; rfl)
  split
  · next same => exact special (byte 'r') (by rw [same]; rfl)
  split
  · next same => exact special (byte 't') (by rw [same]; rfl)
  next noBackslash noQuote _ _ _ =>
    exact parseChars_plain noQuote noBackslash rest

theorem parseChars_reads (value : List UInt8) :
    Parser.Reads parseChars (escapeJsonString value ++ [Listree.quote]) value := by
  intro rest
  induction value with
  | nil => exact parseChars_quote rest
  | cons ch value ih =>
    rw [escapeJsonString, List.flatMap_cons, List.append_assoc, List.append_assoc, parseChars_escape]
    rw [escapeJsonString, List.append_assoc] at ih
    rw [ih]
    rfl

theorem skipWhitespace_cons {ch : UInt8} (visible : isSpace ch = false) (rest : List UInt8) :
    JsonParser.skipWhitespace (ch :: rest) = .ok ((), ch :: rest) := by
  have kept : (ch :: rest).dropWhile isSpace = ch :: rest := by
    rw [List.dropWhile_cons, visible]
    rfl
  exact congrArg (fun input => Except.ok ((), input)) kept

theorem parseString_reads (value : List UInt8) :
    Parser.Reads JsonParser.parseString (jsonString value) value := by
  intro rest
  rw [jsonString, List.cons_append, JsonParser.parseString, Parser.bind_apply,
    skipWhitespace_cons (by decide)]
  exact parseChars_reads value rest

theorem consume_reads {ch : UInt8} (visible : isSpace ch = false) :
    Parser.Reads (JsonParser.consume ch) [ch] true := by
  intro rest
  rw [JsonParser.consume, Parser.bind_apply, List.singleton_append, skipWhitespace_cons visible]
  simp only [Except.bind, Parser.get_bind, if_true, Parser.set_bind]
  rfl

theorem consume_other {ch expected : UInt8} (visible : isSpace ch = false) (other : ch ≠ expected)
    (rest : List UInt8) : JsonParser.consume expected (ch :: rest) = .ok (false, ch :: rest) := by
  rw [JsonParser.consume, Parser.bind_apply, skipWhitespace_cons visible]
  simp only [Except.bind, Parser.get_bind, other, if_false]
  rfl

theorem expect_reads {ch : UInt8} (visible : isSpace ch = false) (error : String) :
    Parser.Reads (JsonParser.expect ch error) [ch] () :=
  (consume_reads visible).last (Parser.Reads.pure ())

end Strings

section Numbers

theorem strtolInt_decimal (n : Int32) :
    strtolInt (decide (n.toInt < 0)) (decimalDigits n.toInt.natAbs) = n := by
  have low := n.le_toInt
  have high := n.toInt_lt
  unfold strtolInt
  rw [foldl_decimalDigits]
  have value : (if decide (n.toInt < 0) = true then max (-(n.toInt.natAbs : Int)) (-2 ^ 63)
      else min (n.toInt.natAbs : Int) (2 ^ 63 - 1)) = n.toInt := by
    by_cases negative : n.toInt < 0
    · simp only [negative, decide_true, if_true]
      omega
    · simp only [negative, decide_false, Bool.false_eq_true, if_false]
      omega
  simp only [value, Int32.ofInt_toInt]

theorem parseInt_cons {ch : UInt8} {input digits rest : List UInt8} (visible : isSpace ch = false)
    (noNull : ch ≠ byte 'n') (some_ : digits ≠ []) (all : ∀ c ∈ digits, isDigit c = true)
    (unsigned : Listree.skipOne [byte '-'] (ch :: input) = digits ++ byte ',' :: rest) :
    JsonParser.parseInt (ch :: input) =
      .ok (some (strtolInt (decide ((ch :: input).head? = some (byte '-'))) digits), byte ',' :: rest) := by
  have taken : (digits ++ byte ',' :: rest).takeWhile isDigit = digits := by
    rw [List.takeWhile_append_of_pos all]
    exact List.append_nil _
  have left : (digits ++ byte ',' :: rest).dropWhile isDigit = byte ',' :: rest := by
    rw [List.dropWhile_append_of_pos all]
    rfl
  have noNull' : (ch :: input).take 4 ≠ ascii "null" := fun same => noNull (List.cons.inj same).1
  rw [JsonParser.parseInt, Parser.bind_apply, skipWhitespace_cons visible]
  simp only [Except.bind, Parser.get_bind, reduceCtorEq, noNull', unsigned, taken, left, some_, if_false,
    Parser.set_bind]
  rfl

/-- A number, or that there is none, is read where no digit follows. -/
theorem parseInt_reads (n : Option Int32) :
    Parser.ReadsBefore (fun rest => ∃ later, rest = byte ',' :: later) JsonParser.parseInt (jsonInt n) n := by
  rintro _ ⟨rest, rfl⟩
  cases n with
  | none => rfl
  | some n =>
    have all := fun c => isDigit_of_mem (n := n.toInt.natAbs) (c := c)
    have some_ := decimalDigits_ne_nil n.toInt.natAbs
    have read := strtolInt_decimal n
    simp only [jsonInt, decimal]
    by_cases negative : n.toInt < 0
    · simp only [negative, if_true, decide_true] at read ⊢
      refine (parseInt_cons (by decide) (by decide) some_ all rfl).trans ?_
      exact congrArg (fun n => Except.ok (some n, byte ',' :: rest)) read
    · simp only [negative, if_false, decide_false] at read ⊢
      cases given : decimalDigits n.toInt.natAbs with
      | nil => exact absurd given some_
      | cons ch more =>
        rw [given] at all some_ read
        have digit : isDigit ch = true := all ch List.mem_cons_self
        obtain ⟨visible, unsigned, -⟩ := isDigit_visible digit
        have noNull : ch ≠ byte 'n' := by
          rintro rfl
          exact absurd digit (by decide)
        have whole : Listree.skipOne [byte '-'] (ch :: more ++ byte ',' :: rest) =
            ch :: more ++ byte ',' :: rest := by
          simp only [List.cons_append, Listree.skipOne, List.mem_singleton, unsigned, if_false]
        refine (parseInt_cons visible noNull some_ all whole).trans ?_
        simp only [List.head?_cons, Option.some.injEq, unsigned, decide_false, read]

end Numbers

section Nodes

variable {children : JsonParser (List NodeDescription)} {out : NodeDescription}

theorem parseField_texts (value : List UInt8) :
    Parser.Reads (parseField children out (ascii "key")) (jsonString value) { out with key := value } ∧
    Parser.Reads (parseField children out (ascii "kind")) (jsonString value) { out with kind := value } ∧
    Parser.Reads (parseField children out (ascii "name")) (jsonString value) { out with name := value } ∧
    Parser.Reads (parseField children out (ascii "type")) (jsonString value) { out with type := value } ∧
    Parser.Reads (parseField children out (ascii "return_type")) (jsonString value)
      { out with returnType := value } := by
  refine ⟨?_, ?_, ?_, ?_, ?_⟩
  all_goals
    simp +decide only [parseField, if_true, if_false]
    exact (parseString_reads value).last (Parser.Reads.pure _)

theorem parseField_ints (value : Option Int32) {rest : List UInt8}
    (more : ∃ later, rest = byte ',' :: later) :
    parseField children out (ascii "size") (jsonInt value ++ rest) =
      .ok ({ out with size := value }, rest) ∧
    parseField children out (ascii "offset") (jsonInt value ++ rest) =
      .ok ({ out with offset := value }, rest) := by
  constructor
  all_goals
    simp +decide only [parseField, if_true, if_false]
    rw [Parser.bind_apply, parseInt_reads value _ more]
    rfl

theorem parseField_children {text : List UInt8} {nodes : List NodeDescription}
    (read : Parser.Reads children text nodes) :
    Parser.Reads (parseField children out (ascii "children")) (byte '[' :: text)
      { out with children := nodes } := by
  simp +decide only [parseField, if_true, if_false]
  exact (expect_reads (by decide) _).bind (read.last (Parser.Reads.pure _))

theorem parseFields_field {fuel : Nat} {first : Bool} {out out' : NodeDescription}
    {key input rest : List UInt8}
    (read : parseField (parseNodes "Expected ',' between child nodes" fuel true []) out key input =
      .ok (out', rest)) :
    parseFields (fuel + 1) first out (jsonKey first key ++ input) = parseFields fuel false out' rest := by
  have keyed := parseString_reads key
  have colon := expect_reads (by decide : isSpace (byte ':') = false) "Expected ':' after JSON object key"
  have comma := expect_reads (by decide : isSpace (byte ',') = false)
    "Expected ',' between JSON object fields"
  -- Behind the comma, if there is one, come the key, a colon and the value.
  have inside : ∀ next : NodeDescription → JsonParser NodeDescription,
      (do
        let key ← JsonParser.parseString
        JsonParser.expect (byte ':') "Expected ':' after JSON object key"
        let out ← parseField (parseNodes "Expected ',' between child nodes" fuel true []) out key
        next out : JsonParser NodeDescription) (jsonString key ++ ([byte ':'] ++ input)) =
        next out' rest := by
    intro next
    rw [Parser.bind_apply, keyed]
    dsimp only [Except.bind]
    rw [Parser.bind_apply, colon]
    dsimp only [Except.bind]
    rw [Parser.bind_apply, read]
    rfl
  rw [parseFields, Parser.bind_apply]
  cases first with
  | true =>
    simp only [jsonKey, if_true, List.nil_append, List.append_assoc]
    rw [jsonString, List.cons_append, consume_other (by decide) (by decide)]
    exact inside _
  | false =>
    simp only [jsonKey, Bool.false_eq_true, if_false, List.append_assoc]
    rw [List.singleton_append, consume_other (by decide) (by decide)]
    dsimp only [Except.bind]
    simp only [Bool.false_eq_true, if_false, Bool.not_false, if_true]
    rw [Parser.bind_apply, ← List.singleton_append, comma]
    exact inside _

mutual

/-- A declaration is read from its text. -/
theorem parseNode_reads : ∀ (node : NodeDescription) {fuel : Nat},
    (appendJsonNode node).length ≤ fuel → Parser.Reads (parseNode fuel) (appendJsonNode node) node
  | ⟨key, kind, name, type, returnType, size, offset, children⟩, fuel, enough => by
    obtain ⟨fuel, rfl, fits⟩ : ∃ left, fuel = left + 10 ∧
        (appendJsonNodes true children).length < left + 1 := by
      simp only [appendJsonNode, jsonKey, jsonString, List.length_cons, List.length_append] at enough
      exact ⟨fuel - 10, by omega, by omega⟩
    have more : ∀ key tail, ∃ later, jsonKey false key ++ tail = byte ',' :: later :=
      fun _ _ => ⟨_, rfl⟩
    intro rest
    rw [appendJsonNode, parseNode, Parser.bind_apply, List.cons_append, ← List.singleton_append,
      expect_reads (by decide)]
    simp only [Except.bind, List.append_assoc]
    -- The fields are read in the order in which they were written.
    rw [parseFields_field ((parseField_texts key).1 _)]
    rw [parseFields_field ((parseField_texts kind).2.1 _)]
    rw [parseFields_field ((parseField_texts name).2.2.1 _)]
    rw [parseFields_field ((parseField_texts type).2.2.2.1 _)]
    rw [parseFields_field ((parseField_texts returnType).2.2.2.2 _)]
    rw [parseFields_field (parseField_ints size (more _ _)).1]
    rw [parseFields_field (parseField_ints offset (more _ _)).2]
    let out : NodeDescription :=
      ⟨key, kind, name, type, returnType, size, offset, emptyNode.children⟩
    have inner := parseNodes_reads "Expected ',' between child nodes" children true [] fits
    have read := @parseField_children _ out _ _ inner (byte '}' :: rest)
    simp only [List.cons_append, List.append_assoc, List.nil_append] at read ⊢
    rw [parseFields_field read, parseFields, Parser.bind_apply, ← List.singleton_append,
      consume_reads (by decide)]
    rfl

/-- Declarations are read from their texts, one after the other. -/
theorem parseNodes_reads (error : String) : ∀ (nodes : List NodeDescription) {fuel : Nat}
    (first : Bool) (before : List NodeDescription), (appendJsonNodes first nodes).length < fuel →
    Parser.Reads (parseNodes error fuel first before) (appendJsonNodes first nodes ++ [byte ']'])
      (before ++ nodes)
  | [], fuel + 1, first, before, enough => by
    intro rest
    rw [appendJsonNodes, List.nil_append, parseNodes, Parser.bind_apply, consume_reads (by decide),
      List.append_nil]
    rfl
  | node :: nodes, fuel + 1, first, before, enough => by
    intro rest
    have begins : ∃ later, appendJsonNode node = byte '{' :: later := by
      cases node
      exact ⟨_, rfl⟩
    obtain ⟨later, text⟩ := begins
    have some_ : 0 < (appendJsonNode node).length := by
      rw [text, List.length_cons]
      omega
    simp only [appendJsonNodes, List.length_append] at enough
    have own : Parser.Reads (parseNode fuel) (appendJsonNode node) node :=
      parseNode_reads node (by omega)
    have fits : (appendJsonNodes false nodes).length < fuel := by omega
    have others := parseNodes_reads error nodes false (before ++ [node]) fits rest
    -- Behind the comma, if there is one, come the declaration and the others.
    have inside : (do
        let node ← parseNode fuel
        parseNodes error fuel false (before ++ [node]) : JsonParser (List NodeDescription))
          (appendJsonNode node ++ (appendJsonNodes false nodes ++ ([byte ']'] ++ rest))) =
        .ok (before ++ node :: nodes, rest) := by
      rw [List.append_assoc, List.append_assoc, List.singleton_append] at others
      rw [Parser.bind_apply, own]
      exact others
    rw [parseNodes, Parser.bind_apply]
    cases first with
    | true =>
      simp only [appendJsonNodes, if_true, List.nil_append, List.append_assoc]
      rw [text, List.cons_append, consume_other (by decide) (by decide), ← List.cons_append, ← text]
      exact inside
    | false =>
      simp only [appendJsonNodes, Bool.false_eq_true, if_false, List.append_assoc]
      rw [List.singleton_append, consume_other (by decide) (by decide)]
      dsimp only [Except.bind]
      simp only [Bool.false_eq_true, if_false, Bool.not_false, if_true]
      rw [Parser.bind_apply, ← List.singleton_append, expect_reads (by decide)]
      exact inside

end

theorem decodeParseDescription_encodeParseDescription (description : ParseDescription) :
    decodeParseDescription (encodeParseDescription description) = .ok description := by
  have some_ : encodeParseDescription description ≠ [] := List.cons_ne_nil _ _
  have fits : (appendJsonNodes true description).length < (encodeParseDescription description).length + 1 := by
    simp only [encodeParseDescription, List.length_cons, List.length_append]
    omega
  have symbols := parseNodes_reads "Expected ',' between top-level symbols" description true [] fits
    [byte '}']
  rw [List.append_assoc] at symbols
  have read : parseSchemaRoot ((encodeParseDescription description).length + 1)
      (encodeParseDescription description) = .ok (description, []) := by
    generalize (encodeParseDescription description).length + 1 = fuel at symbols
    rw [encodeParseDescription, parseSchemaRoot, Parser.bind_apply, ← List.singleton_append,
      expect_reads (by decide)]
    dsimp only [Except.bind]
    rw [Parser.bind_apply, parseString_reads]
    dsimp only [Except.bind]
    simp only [ne_eq, not_true, if_false]
    rw [Parser.bind_apply, ← List.singleton_append, expect_reads (by decide)]
    dsimp only [Except.bind]
    rw [Parser.bind_apply, ← List.singleton_append, expect_reads (by decide)]
    dsimp only [Except.bind]
    rw [Parser.bind_apply]
    exact congrArg (Except.bind · _) symbols
  rw [decodeParseDescription, if_neg some_, read]
  rfl

end Nodes

section Lists

theorem forEachSymbol_symbolList (nodes : List NodeDescription) :
    forEachSymbol (symbolList nodes) = nodes :=
  CLL.forEach_foldl_store true nodes

/--
Every description is read back from its text, with its lists as they were built.

Each list of symbols or of children gives back the declarations in the order in which they were added.
-/
theorem schema_round_trip (description : ParseDescription) :
    decodeParseDescription (encodeParseDescription description) = .ok description ∧
    decodeSymbols (encodeSymbols (symbolList description)) = .ok (symbolList description) ∧
    ∀ nodes : List NodeDescription, forEachSymbol (symbolList nodes) = nodes := by
  have read := decodeParseDescription_encodeParseDescription description
  refine ⟨read, ?_, forEachSymbol_symbolList⟩
  rw [decodeSymbols, encodeSymbols, forEachSymbol_symbolList, read]
  rfl

end Lists

end AgentC.Cartographer.Protocol

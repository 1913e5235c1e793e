import AgentC.Listree.JsonNumbers

/-!
Which texts the JSON parser accepts.

The parser accepts the texts of the grammar with leaves that are wider than those of RFC 8259. It
refuses no JSON text, and a text that it should have refused has a leaf that shows why.
-/

namespace AgentC.Listree

open JsonText

variable {rule : Rule} {input rest : List UInt8}

/-! One equation for each production. -/

theorem parseValue_skipWs (fuel : Nat) (input : List UInt8) :
    parseValue fuel (skipWs input) = parseValue fuel input := by
  cases fuel with
  | zero => rfl
  | succ fuel => simp only [parseValue, skipWs_skipWs]

theorem parseElements_skipWs (fuel : Nat) (input : List UInt8) (children : List ListreeValue) :
    parseElements fuel (skipWs input) children = parseElements fuel input children := by
  cases fuel with
  | zero => rfl
  | succ fuel => simp only [parseElements, parseValue_skipWs]

theorem parseMembers_skipWs (fuel : Nat) (input : List UInt8)
    (items : AATree (List ListreeValue)) :
    parseMembers fuel (skipWs input) items = parseMembers fuel input items := by
  cases fuel with
  | zero => rfl
  | succ fuel => simp only [parseMembers, skipWs_skipWs]

variable {value : ListreeValue} {fuel : Nat} {children : List ListreeValue} {behind : List UInt8}
  {items : AATree (List ListreeValue)}

theorem parseLiteral_sound {literal : List UInt8} {found : ListreeValue}
    (reads : parseLiteral literal value input = some (found, rest)) : input = literal ++ rest := by
  rw [parseLiteral] at reads
  split at reads
  · next stands =>
    obtain ⟨others, rfl⟩ := List.isPrefixOf_iff_prefix.mp stands
    rw [List.drop_left] at reads
    cases reads
    rfl
  · cases reads

theorem parseLiteral_complete (literal : List UInt8) (value : ListreeValue) (rest : List UInt8) :
    parseLiteral literal value (literal ++ rest) = some (value, rest) := by
  rw [parseLiteral, if_pos (List.isPrefixOf_iff_prefix.mpr (List.prefix_append literal rest)),
    List.drop_left]

def Yields (result : Option (ListreeValue × List UInt8)) (rest : List UInt8) : Prop :=
  ∃ value, result = some (value, rest)

theorem parseValue_cases (reads : Yields (parseValue (fuel + 1) input) rest) :
    (∃ word : Literal, skipWs input = word.text ++ rest) ∨
      (∃ c others, skipWs input = c :: others ∧ startsNumber c = true ∧
        Yields (parseNumber (c :: others)) rest) ∨
      (∃ out, parseRawString (skipWs input) = some (out, rest)) ∨
      (∃ inner, skipWs input = byte '{' :: inner ∧
        (skipWs inner = byte '}' :: rest ∨ Yields (parseMembers fuel inner AATree.new_) rest)) ∨
      (∃ inner, skipWs input = byte '[' :: inner ∧
        (skipWs inner = byte ']' :: rest ∨ Yields (parseElements fuel inner []) rest)) := by
  obtain ⟨value, reads⟩ := reads
  rw [parseValue] at reads
  cases visible : skipWs input with
  | nil => simp [visible] at reads
  | cons c others =>
    rw [visible] at reads
    by_cases isQuote : c = quote
    · subst isQuote
      simp only [if_true] at reads
      obtain ⟨found, isFound, pair⟩ := Option.map_eq_some_iff.mp reads
      have behind : found.2 = rest := congrArg Prod.snd pair
      exact Or.inr (Or.inr (Or.inl ⟨found.1, by rw [isFound, ← behind]⟩))
    by_cases isBrace : c = byte '{'
    · subst isBrace
      simp only [if_neg isQuote, if_true] at reads
      refine Or.inr (Or.inr (Or.inr (Or.inl ⟨others, rfl, ?_⟩)))
      cases inside : skipWs others with
      | nil => simp [inside] at reads
      | cons d after =>
        rw [inside] at reads
        by_cases closes : d = byte '}'
        · subst closes
          simp only [if_true] at reads
          cases reads
          exact Or.inl rfl
        · simp only [if_neg closes] at reads
          rw [← inside, parseMembers_skipWs] at reads
          exact Or.inr ⟨value, reads⟩
    by_cases isBracket : c = byte '['
    · subst isBracket
      simp only [if_neg isQuote, if_neg isBrace, if_true] at reads
      refine Or.inr (Or.inr (Or.inr (Or.inr ⟨others, rfl, ?_⟩)))
      cases inside : skipWs others with
      | nil => simp [inside] at reads
      | cons d after =>
        rw [inside] at reads
        by_cases closes : d = byte ']'
        · subst closes
          simp only [if_true] at reads
          cases reads
          exact Or.inl rfl
        · simp only [if_neg closes] at reads
          rw [← inside, parseElements_skipWs] at reads
          exact Or.inr ⟨value, reads⟩
    simp only [if_neg isQuote, if_neg isBrace, if_neg isBracket] at reads
    by_cases isN : c = byte 'n'
    · rw [if_pos isN] at reads
      exact Or.inl ⟨.null, parseLiteral_sound reads⟩
    by_cases isT : c = byte 't'
    · rw [if_neg isN, if_pos isT] at reads
      exact Or.inl ⟨.true, parseLiteral_sound reads⟩
    by_cases isF : c = byte 'f'
    · rw [if_neg isN, if_neg isT, if_pos isF] at reads
      exact Or.inl ⟨.false, parseLiteral_sound reads⟩
    rw [if_neg isN, if_neg isT, if_neg isF] at reads
    by_cases starts : startsNumber c = true
    · have begins : (c = byte '-' || isDigit c) = true := starts
      rw [if_pos begins] at reads
      exact Or.inr (Or.inl ⟨c, others, rfl, starts, value, reads⟩)
    · have differs : ¬ (c = byte '-' || isDigit c) = true := starts
      rw [if_neg differs] at reads
      cases reads

theorem parseValue_literal (word : Literal) (fuel : Nat) (rest : List UInt8) :
    Yields (parseValue (fuel + 1) (word.text ++ rest)) rest := by
  cases word with
  | null => exact ⟨_, parseLiteral_complete Literal.null.text _ rest⟩
  | true => exact ⟨_, parseLiteral_complete Literal.true.text _ rest⟩
  | false => exact ⟨_, parseLiteral_complete Literal.false.text _ rest⟩

theorem parseValue_number {c : UInt8} (starts : startsNumber c = true)
    (reads : Yields (parseNumber (c :: input)) rest) (fuel : Nat) :
    Yields (parseValue (fuel + 1) (c :: input)) rest := by
  have begins : (c = byte '-' || isDigit c) = true := starts
  -- The bytes that begin a number begin nothing else.
  have other {d : UInt8} (noNumber : startsNumber d = false) : c ≠ d := by
    intro same
    rw [same, noNumber] at starts
    cases starts
  have visible : ¬ c ≤ 0x20 := by
    intro space
    have ends := not_inNumber_of_space space
    simp [inNumber, starts] at ends
  obtain ⟨value, reads⟩ := reads
  refine ⟨value, ?_⟩
  rw [parseValue, skipWs_cons visible]
  simp only [if_neg (other (d := quote) (by decide)), if_neg (other (d := byte '{') (by decide)),
    if_neg (other (d := byte '[') (by decide)), if_neg (other (d := byte 'n') (by decide)),
    if_neg (other (d := byte 't') (by decide)), if_neg (other (d := byte 'f') (by decide)),
    if_pos begins, reads]

theorem parseValue_string {body : List UInt8} (accepted : Chars AcceptedChar body) (fuel : Nat)
    (rest : List UInt8) : Yields (parseValue (fuel + 1) (quoted body ++ rest)) rest := by
  obtain ⟨out, reads⟩ := parseRawString_iff.mpr ⟨body, rfl, accepted⟩
  refine ⟨createStringValue out, ?_⟩
  rw [quoted, List.cons_append] at reads ⊢
  rw [parseValue, skipWs_cons (by decide)]
  exact congrArg (Option.map _) reads

theorem parseValue_object (reads : skipWs input = byte '}' :: rest ∨
      Yields (parseMembers fuel input AATree.new_) rest) :
    Yields (parseValue (fuel + 1) (byte '{' :: input)) rest := by
  obtain closes | ⟨value, members⟩ := reads
  · exact ⟨createNullValue, by rw [parseValue, skipWs_cons (by decide)]; simp +decide [closes]⟩
  · -- Members do not begin with a brace, nor where the text ends.
    refine ⟨value, ?_⟩
    rw [← parseMembers_skipWs] at members
    rw [parseValue, skipWs_cons (by decide)]
    cases inside : skipWs input with
    | nil =>
      rw [inside] at members
      cases fuel <;> simp [parseMembers, skipWs, parseRawString] at members
    | cons d after =>
      rw [inside] at members
      have opens : d ≠ byte '}' := by
        intro same
        subst same
        cases fuel with
        | zero => simp [parseMembers] at members
        | succ fuel =>
          rw [parseMembers, skipWs_cons (by decide)] at members
          simp +decide [parseRawString] at members
      simp +decide [inside, opens, members]

theorem value_of_parseElements (reads : Yields (parseElements (fuel + 1) input children) rest) :
    ∃ value behind, parseValue fuel input = some (value, behind) := by
  obtain ⟨found, reads⟩ := reads
  rw [parseElements] at reads
  cases first : parseValue fuel input with
  | none => simp [first] at reads
  | some read => exact ⟨read.1, read.2, rfl⟩

theorem parseValue_array (reads : skipWs input = byte ']' :: rest ∨
      Yields (parseElements fuel input []) rest) :
    Yields (parseValue (fuel + 1) (byte '[' :: input)) rest := by
  obtain closes | ⟨value, elements⟩ := reads
  · exact ⟨.list [], by rw [parseValue, skipWs_cons (by decide)]; simp +decide [closes]⟩
  · -- No value begins with a bracket, nor where the text ends.
    refine ⟨value, ?_⟩
    rw [← parseElements_skipWs] at elements
    rw [parseValue, skipWs_cons (by decide)]
    cases fuel with
    | zero => simp [parseElements] at elements
    | succ fuel =>
      obtain ⟨first, behind, isFirst⟩ := value_of_parseElements ⟨value, elements⟩
      cases inside : skipWs input with
      | nil =>
        rw [inside] at isFirst
        cases fuel <;> simp [parseValue, skipWs] at isFirst
      | cons d after =>
        rw [inside] at isFirst elements
        have opens : d ≠ byte ']' := by
          intro same
          subst same
          cases fuel with
          | zero => simp [parseValue] at isFirst
          | succ fuel =>
            rw [parseValue, skipWs_cons (by decide)] at isFirst
            simp +decide at isFirst
        simp +decide [inside, opens, elements]

theorem parseElements_iff (first : parseValue fuel input = some (value, behind)) :
    Yields (parseElements (fuel + 1) input children) rest ↔
      skipWs behind = byte ']' :: rest ∨ ∃ more, skipWs behind = byte ',' :: more ∧
        Yields (parseElements fuel more (children ++ [value])) rest := by
  have distinct : byte ',' ≠ byte ']' := by decide
  simp only [Yields, parseElements, first]
  cases skipWs behind with
  | nil => simp
  | cons c after =>
    by_cases comma : c = byte ','
    · subst comma
      simp [distinct]
    · by_cases closes : c = byte ']'
      · subst closes
        simp [comma]
      · simp [comma, closes]

theorem member_of_parseMembers (reads : Yields (parseMembers (fuel + 1) input items) rest) :
    ∃ key afterKey afterColon value behind, parseRawString (skipWs input) = some (key, afterKey) ∧
      skipWs afterKey = byte ':' :: afterColon ∧
      parseValue fuel afterColon = some (value, behind) := by
  obtain ⟨found, reads⟩ := reads
  rw [parseMembers] at reads
  cases name : parseRawString (skipWs input) with
  | none => simp [name] at reads
  | some read =>
    cases colon : skipWs read.2 with
    | nil => simp [name, colon] at reads
    | cons c afterColon =>
      by_cases isColon : c = byte ':'
      · subst isColon
        cases first : parseValue fuel afterColon with
        | none => simp [name, colon, first] at reads
        | some value => exact ⟨read.1, read.2, afterColon, value.1, value.2, rfl, colon, first⟩
      · simp [name, colon, isColon] at reads

theorem parseMembers_iff {key afterKey afterColon : List UInt8}
    (name : parseRawString (skipWs input) = some (key, afterKey))
    (colon : skipWs afterKey = byte ':' :: afterColon)
    (first : parseValue fuel afterColon = some (value, behind)) :
    Yields (parseMembers (fuel + 1) input items) rest ↔
      skipWs behind = byte '}' :: rest ∨ ∃ more, skipWs behind = byte ',' :: more ∧
        Yields (parseMembers fuel more (items.addNamedItem key value)) rest := by
  have distinct : byte ',' ≠ byte '}' := by decide
  simp only [Yields, parseMembers, name, colon, first, if_true]
  cases skipWs behind with
  | nil => simp
  | cons c after =>
    by_cases comma : c = byte ','
    · subst comma
      simp [distinct]
    · by_cases closes : c = byte '}'
      · subst closes
        simp [comma]
      · simp [comma, closes]

/-! What is accepted is derived. -/

theorem accepted_spaces {spaces : List UInt8} (low : ∀ c ∈ spaces, c ≤ 0x20) :
    ∀ leaf ∈ spaces.map Leaf.space, Accepted leaf := by
  intro leaf inside
  obtain ⟨c, isSpace, rfl⟩ := List.mem_map.mp inside
  exact low c isSpace

/-- What the parser reads, with so much fuel, is derived by the grammar with accepted leaves. -/
structure Sound (fuel : Nat) : Prop where
  value : ∀ {input rest : List UInt8}, Yields (parseValue fuel input) rest →
    ∃ tree : Tree .value, skipWs input = tree.text ++ rest ∧ ∀ leaf ∈ tree.leaves, Accepted leaf
  elements : ∀ {input rest : List UInt8} {children : List ListreeValue},
    Yields (parseElements fuel input children) rest →
    ∃ tree : Tree .elements, input = tree.text ++ byte ']' :: rest ∧
      ∀ leaf ∈ tree.leaves, Accepted leaf
  members : ∀ {input rest : List UInt8} {items : AATree (List ListreeValue)},
    Yields (parseMembers fuel input items) rest →
    ∃ tree : Tree .members, input = tree.text ++ byte '}' :: rest ∧
      ∀ leaf ∈ tree.leaves, Accepted leaf

theorem Sound.element (sound : Sound fuel) (reads : parseValue fuel input = some (value, behind)) :
    ∃ tree : Tree .element, input = tree.text ++ skipWs behind ∧
      ∀ leaf ∈ tree.leaves, Accepted leaf := by
  obtain ⟨tree, split, accepted⟩ := sound.value ⟨value, reads⟩
  obtain ⟨before, isInput, lowBefore⟩ := skipWs_sound input
  obtain ⟨after, isBehind, lowAfter⟩ := skipWs_sound behind
  refine ⟨.element before tree after, ?_, ?_⟩
  · rw [Tree.text, List.append_assoc, List.append_assoc, ← isBehind, ← split]
    exact isInput
  · simp only [Tree.leaves, List.mem_append, or_imp, forall_and]
    exact ⟨accepted_spaces lowBefore, accepted, accepted_spaces lowAfter⟩

theorem Sound.value_succ (sound : Sound fuel) (reads : Yields (parseValue (fuel + 1) input) rest) :
    ∃ tree : Tree .value, skipWs input = tree.text ++ rest ∧
      ∀ leaf ∈ tree.leaves, Accepted leaf := by
  obtain ⟨word, stands⟩ | ⟨c, others, isInput, starts, value, number⟩ | ⟨out, string⟩ |
    ⟨inner, opens, closes | members⟩ | ⟨inner, opens, closes | elements⟩ := parseValue_cases reads
  · exact ⟨.literal word, stands, by simp [Tree.leaves]⟩
  · obtain ⟨text, split, accepted⟩ := parseNumber_sound starts number
    exact ⟨.number text, by rw [isInput, split]; rfl, by simpa [Tree.leaves] using accepted⟩
  · obtain ⟨body, split, accepted⟩ := parseRawString_iff.mp ⟨out, string⟩
    refine ⟨.string body, split, ?_⟩
    simp only [Tree.leaves, List.mem_singleton, forall_eq]
    exact accepted
  · obtain ⟨inside, split, low⟩ := skipWs_sound inner
    refine ⟨.emptyObject inside, ?_, accepted_spaces low⟩
    rw [opens, split, closes, Tree.text, List.cons_append, List.append_assoc]
    rfl
  · obtain ⟨tree, split, accepted⟩ := sound.members members
    refine ⟨.object tree, ?_, accepted⟩
    rw [opens, split, Tree.text, List.cons_append, List.append_assoc]
    rfl
  · obtain ⟨inside, split, low⟩ := skipWs_sound inner
    refine ⟨.emptyArray inside, ?_, accepted_spaces low⟩
    rw [opens, split, closes, Tree.text, List.cons_append, List.append_assoc]
    rfl
  · obtain ⟨tree, split, accepted⟩ := sound.elements elements
    refine ⟨.array tree, ?_, accepted⟩
    rw [opens, split, Tree.text, List.cons_append, List.append_assoc]
    rfl

theorem Sound.elements_succ (sound : Sound fuel)
    (reads : Yields (parseElements (fuel + 1) input children) rest) :
    ∃ tree : Tree .elements, input = tree.text ++ byte ']' :: rest ∧
      ∀ leaf ∈ tree.leaves, Accepted leaf := by
  obtain ⟨value, behind, first⟩ := value_of_parseElements reads
  obtain ⟨tree, split, accepted⟩ := sound.element first
  obtain closes | ⟨more, goesOn, others⟩ := (parseElements_iff first).mp reads
  · exact ⟨.lastElement tree, by rw [split, closes]; rfl, accepted⟩
  · obtain ⟨tree', split', accepted'⟩ := sound.elements others
    refine ⟨.moreElements tree tree', ?_, ?_⟩
    · rw [split, goesOn, split', Tree.text, List.append_assoc]
      rfl
    · simp only [Tree.leaves, List.mem_append, or_imp, forall_and]
      exact ⟨accepted, accepted'⟩

theorem Sound.members_succ (sound : Sound fuel)
    (reads : Yields (parseMembers (fuel + 1) input items) rest) :
    ∃ tree : Tree .members, input = tree.text ++ byte '}' :: rest ∧
      ∀ leaf ∈ tree.leaves, Accepted leaf := by
  obtain ⟨key, afterKey, afterColon, value, behind, name, colon, first⟩ :=
    member_of_parseMembers reads
  obtain ⟨before, isInput, lowBefore⟩ := skipWs_sound input
  obtain ⟨body, isName, chars⟩ := parseRawString_iff.mp ⟨key, name⟩
  obtain ⟨after, isAfter, lowAfter⟩ := skipWs_sound afterKey
  obtain ⟨tree, split, accepted⟩ := sound.element first
  have opened : input = before ++ (quoted body ++ (after ++ byte ':' :: (tree.text ++
      skipWs behind))) := by
    rw [← split, ← colon, ← isAfter, ← isName]
    exact isInput
  have nameAccepted : Accepted (.string body) := chars
  obtain closes | ⟨more, goesOn, others⟩ := (parseMembers_iff name colon first).mp reads
  · refine ⟨.lastMember before body after tree, ?_, ?_⟩
    · rw [opened, closes, Tree.text]
      simp only [List.append_assoc, List.cons_append]
      rfl
    · simp only [Tree.leaves, List.mem_append, List.mem_cons, or_imp, forall_and, forall_eq]
      exact ⟨accepted_spaces lowBefore, nameAccepted, accepted_spaces lowAfter, accepted⟩
  · obtain ⟨tree', split', accepted'⟩ := sound.members others
    refine ⟨.moreMembers before body after tree tree', ?_, ?_⟩
    · rw [opened, goesOn, split', Tree.text]
      simp only [List.append_assoc, List.cons_append]
      rfl
    · simp only [Tree.leaves, List.mem_append, List.mem_cons, or_imp, forall_and, forall_eq]
      exact ⟨accepted_spaces lowBefore, nameAccepted, accepted_spaces lowAfter, accepted, accepted'⟩

theorem sound (fuel : Nat) : Sound fuel := by
  induction fuel with
  | zero =>
    constructor
    · rintro input rest ⟨value, reads⟩
      simp [parseValue] at reads
    · rintro input rest children ⟨value, reads⟩
      simp [parseElements] at reads
    · rintro input rest items ⟨value, reads⟩
      simp [parseMembers] at reads
  | succ fuel ih => exact ⟨ih.value_succ, ih.elements_succ, ih.members_succ⟩

/-! What is derived is accepted. -/

/-- The parser reads the text of a derivation, with enough fuel, whatever may follow it. -/
def Complete : {rule : Rule} → Tree rule → Prop
  | .value, tree => ∀ fuel rest, 2 * tree.text.length ≤ fuel → Ends rest →
    Yields (parseValue fuel (tree.text ++ rest)) rest
  | .element, tree => ∀ fuel rest, 2 * tree.text.length ≤ fuel → Ends rest →
    ∃ value behind, parseValue fuel (tree.text ++ rest) = some (value, behind) ∧
      skipWs behind = skipWs rest
  | .elements, tree => ∀ fuel rest children, 2 * tree.text.length + 1 ≤ fuel →
    Yields (parseElements fuel (tree.text ++ byte ']' :: rest) children) rest
  | .members, tree => ∀ fuel rest items, 2 * tree.text.length + 1 ≤ fuel →
    Yields (parseMembers fuel (tree.text ++ byte '}' :: rest) items) rest

theorem spaces_of_accepted {spaces : List UInt8}
    (accepted : ∀ leaf ∈ spaces.map Leaf.space, Accepted leaf) : ∀ c ∈ spaces, c ≤ 0x20 :=
  fun c inside => accepted (.space c) (List.mem_map_of_mem inside)

theorem complete_element {before after : List UInt8} {value : Tree .value}
    (complete : Complete value) (lowBefore : ∀ c ∈ before, c ≤ 0x20)
    (lowAfter : ∀ c ∈ after, c ≤ 0x20) : Complete (.element before value after) := by
  intro fuel rest enough ends
  simp only [Tree.text, List.length_append] at enough
  obtain ⟨read, reads⟩ := complete fuel (after ++ rest) (by omega) (ends_spaces lowAfter ends)
  refine ⟨read, after ++ rest, ?_, skipWs_append lowAfter rest⟩
  rw [Tree.text, List.append_assoc, List.append_assoc, ← parseValue_skipWs,
    skipWs_append lowBefore, parseValue_skipWs]
  exact reads

theorem complete_name {before name after : List UInt8} (lowBefore : ∀ c ∈ before, c ≤ 0x20)
    (accepted : Chars AcceptedChar name) (lowAfter : ∀ c ∈ after, c ≤ 0x20) (rest : List UInt8) :
    ∃ key, parseRawString (skipWs (before ++ (quoted name ++ (after ++ byte ':' :: rest)))) =
        some (key, after ++ byte ':' :: rest) ∧
      skipWs (after ++ byte ':' :: rest) = byte ':' :: rest := by
  obtain ⟨key, reads⟩ := parseRawString_iff.mpr ⟨name, rfl, accepted⟩
  refine ⟨key, ?_, by rw [skipWs_append lowAfter, skipWs_cons (by decide)]⟩
  rw [skipWs_append lowBefore]
  rw [quoted, List.cons_append] at reads ⊢
  rw [skipWs_cons (by decide)]
  exact reads

theorem complete (tree : Tree rule) (accepted : ∀ leaf ∈ tree.leaves, Accepted leaf) :
    Complete tree := by
  induction tree with
  | literal word =>
    intro fuel rest enough ends
    have some_text : 0 < word.text.length := by cases word <;> decide
    rw [Tree.text] at enough
    obtain ⟨fuel, rfl⟩ : ∃ k, fuel = k + 1 := ⟨fuel - 1, by omega⟩
    exact parseValue_literal word fuel rest
  | number text =>
    intro fuel rest enough ends
    have number : Accepted (.number text) := accepted _ List.mem_cons_self
    obtain ⟨c, others, rfl, starts⟩ := number.2
    simp only [Tree.text, List.length_cons] at enough
    obtain ⟨fuel, rfl⟩ : ∃ k, fuel = k + 1 := ⟨fuel - 1, by omega⟩
    exact parseValue_number starts (parseNumber_complete number ends) fuel
  | string body =>
    intro fuel rest enough ends
    simp only [Tree.text, quoted, List.length_cons] at enough
    obtain ⟨fuel, rfl⟩ : ∃ k, fuel = k + 1 := ⟨fuel - 1, by omega⟩
    exact parseValue_string (accepted _ List.mem_cons_self) fuel rest
  | emptyObject inside =>
    intro fuel rest enough ends
    simp only [Tree.text, List.length_cons] at enough
    obtain ⟨fuel, rfl⟩ : ∃ k, fuel = k + 1 := ⟨fuel - 1, by omega⟩
    have low := spaces_of_accepted accepted
    rw [Tree.text, List.cons_append, List.append_assoc]
    refine parseValue_object (Or.inl ?_)
    rw [skipWs_append low]
    exact skipWs_cons (by decide) rest
  | object members ih =>
    intro fuel rest enough ends
    simp only [Tree.text, List.length_cons, List.length_append] at enough
    obtain ⟨fuel, rfl⟩ : ∃ k, fuel = k + 1 := ⟨fuel - 1, by omega⟩
    rw [Tree.text, List.cons_append, List.append_assoc]
    exact parseValue_object (Or.inr (ih accepted fuel rest AATree.new_ (by omega)))
  | emptyArray inside =>
    intro fuel rest enough ends
    simp only [Tree.text, List.length_cons] at enough
    obtain ⟨fuel, rfl⟩ : ∃ k, fuel = k + 1 := ⟨fuel - 1, by omega⟩
    have low := spaces_of_accepted accepted
    rw [Tree.text, List.cons_append, List.append_assoc]
    refine parseValue_array (Or.inl ?_)
    rw [skipWs_append low]
    exact skipWs_cons (by decide) rest
  | array elements ih =>
    intro fuel rest enough ends
    simp only [Tree.text, List.length_cons, List.length_append] at enough
    obtain ⟨fuel, rfl⟩ : ∃ k, fuel = k + 1 := ⟨fuel - 1, by omega⟩
    rw [Tree.text, List.cons_append, List.append_assoc]
    exact parseValue_array (Or.inr (ih accepted fuel rest [] (by omega)))
  | element before value after ih =>
    simp only [Tree.leaves, List.mem_append, or_imp, forall_and] at accepted
    exact complete_element (ih accepted.2.1) (spaces_of_accepted accepted.1)
      (spaces_of_accepted accepted.2.2)
  | lastElement last ih =>
    intro fuel rest children enough
    obtain ⟨fuel, rfl⟩ : ∃ k, fuel = k + 1 := ⟨fuel - 1, by omega⟩
    rw [Tree.text] at enough ⊢
    obtain ⟨value, behind, reads, skipped⟩ :=
      ih accepted fuel (byte ']' :: rest) (by omega) (ends_cons (by decide))
    refine (parseElements_iff reads).mpr (Or.inl ?_)
    rw [skipped, skipWs_cons (by decide)]
  | moreElements first others ihFirst ihOthers =>
    intro fuel rest children enough
    simp only [Tree.leaves, List.mem_append, or_imp, forall_and] at accepted
    simp only [Tree.text, List.length_append, List.length_cons] at enough
    obtain ⟨fuel, rfl⟩ : ∃ k, fuel = k + 1 := ⟨fuel - 1, by omega⟩
    obtain ⟨value, behind, reads, skipped⟩ :=
      ihFirst accepted.1 fuel (byte ',' :: (others.text ++ byte ']' :: rest)) (by omega)
        (ends_cons (by decide))
    rw [Tree.text, List.append_assoc]
    refine (parseElements_iff reads).mpr (Or.inr ⟨others.text ++ byte ']' :: rest, ?_, ?_⟩)
    · rw [skipped, skipWs_cons (by decide)]
    · exact ihOthers accepted.2 fuel rest _ (by omega)
  | lastMember before name after last ih =>
    intro fuel rest items enough
    simp only [Tree.leaves, List.mem_append, List.mem_cons, or_imp, forall_and, forall_eq]
      at accepted
    obtain ⟨spaces, chars, inner, others⟩ := accepted
    simp only [Tree.text, quoted, List.length_append, List.length_cons] at enough
    obtain ⟨fuel, rfl⟩ : ∃ k, fuel = k + 1 := ⟨fuel - 1, by omega⟩
    obtain ⟨key, isName, colon⟩ := complete_name (spaces_of_accepted spaces) chars
      (spaces_of_accepted inner) (last.text ++ byte '}' :: rest)
    obtain ⟨value, behind, reads, skipped⟩ :=
      ih others fuel (byte '}' :: rest) (by omega) (ends_cons (by decide))
    simp only [Tree.text, List.append_assoc, List.cons_append]
    refine (parseMembers_iff isName colon reads).mpr (Or.inl ?_)
    rw [skipped, skipWs_cons (by decide)]
  | moreMembers before name after first others ihFirst ihOthers =>
    intro fuel rest items enough
    simp only [Tree.leaves, List.mem_append, List.mem_cons, or_imp, forall_and, forall_eq]
      at accepted
    obtain ⟨spaces, chars, inner, head, tail⟩ := accepted
    simp only [Tree.text, quoted, List.length_append, List.length_cons] at enough
    obtain ⟨fuel, rfl⟩ : ∃ k, fuel = k + 1 := ⟨fuel - 1, by omega⟩
    obtain ⟨key, isName, colon⟩ := complete_name (spaces_of_accepted spaces) chars
      (spaces_of_accepted inner) (first.text ++ byte ',' :: (others.text ++ byte '}' :: rest))
    obtain ⟨value, behind, reads, skipped⟩ :=
      ihFirst head fuel (byte ',' :: (others.text ++ byte '}' :: rest)) (by omega)
        (ends_cons (by decide))
    simp only [Tree.text, List.append_assoc, List.cons_append]
    refine (parseMembers_iff isName colon reads).mpr
      (Or.inr ⟨others.text ++ byte '}' :: rest, ?_, ?_⟩)
    · rw [skipped, skipWs_cons (by decide)]
    · exact ihOthers tail fuel rest _ (by omega)

theorem fromJson_isSome (json : List UInt8) :
    (fromJson json).isSome = true ↔ Derives Accepted json := by
  constructor
  · intro isSome
    cases first : parseValue (2 * json.length + 2) json with
    | none => simp [fromJson, first] at isSome
    | some found =>
      have first : parseValue (2 * json.length + 2) json = some (found.1, found.2) := first
      obtain ⟨tree, split, accepted⟩ := (sound _).element first
      by_cases finished : (skipWs found.2).isEmpty = true
      · rw [List.isEmpty_iff] at finished
        rw [finished, List.append_nil] at split
        exact ⟨tree, split.symm, accepted⟩
      · simp [fromJson, first, finished] at isSome
  · rintro ⟨tree, rfl, accepted⟩
    cases tree with
    | element before value after =>
      have read := complete _ accepted
      obtain ⟨found, behind, reads, skipped⟩ :=
        read (2 * (Tree.element before value after).text.length + 2) [] (by omega) ends_nil
      rw [List.append_nil] at reads
      have finished : (skipWs behind).isEmpty = true := by rw [skipped]; rfl
      rw [fromJson, reads]
      simp [finished]

end AgentC.Listree

import Mathlib.Data.List.TakeWhile
import AgentC.Library.JsonLeaves
import AgentC.Listree.JsonLaws

/-! What the JSON parser accepts as a space, as a string and as a number. -/

namespace AgentC.Listree

open JsonText

def AcceptedChar (char : List UInt8) : Prop :=
  (∃ c, char = [c] ∧ c ≠ quote ∧ c ≠ backslash) ∨ Escaped char

/--
What the parser accepts at a leaf.

A space is any byte up to 0x20. The digits of a number may be missing wherever digits stand, and
may begin with zeros. A string may hold control characters, and bytes that are not UTF-8.
-/
def Accepted : Leaf → Prop
  | .space c => c ≤ 0x20
  | .number text => NumberOf Digits Digits text ∧
    ∃ c others, text = c :: others ∧ startsNumber c = true
  | .string body => Chars AcceptedChar body

variable {input rest : List UInt8}

/-! Spaces. -/

theorem skipWs_sound (input : List UInt8) :
    ∃ spaces, input = spaces ++ skipWs input ∧ ∀ c ∈ spaces, c ≤ 0x20 := by
  refine ⟨input.takeWhile (· ≤ 0x20), (List.takeWhile_append_dropWhile).symm, fun c inside => ?_⟩
  simpa using List.mem_takeWhile_imp inside

theorem skipWs_append {spaces : List UInt8} (low : ∀ c ∈ spaces, c ≤ 0x20) (rest : List UInt8) :
    skipWs (spaces ++ rest) = skipWs rest := by
  induction spaces with
  | nil => rfl
  | cons c spaces ih =>
    have space : c ≤ 0x20 := low c List.mem_cons_self
    rw [List.cons_append, skipWs, List.dropWhile_cons_of_pos (by simpa using space)]
    exact ih fun d inside => low d (List.mem_cons_of_mem c inside)

theorem skipWs_skipWs (input : List UInt8) : skipWs (skipWs input) = skipWs input := by
  obtain ⟨spaces, split, low⟩ := skipWs_sound input
  conv_rhs => rw [split]
  rw [skipWs_append low]

/-! Strings. -/

theorem hexVal_isSome (c : UInt8) : (∃ value, hexVal c = some value) ↔ HexDigit c := by
  unfold hexVal HexDigit
  split
  · next first => simp [first]
  · next first =>
    split
    · next second => simp [second]
    · next second =>
      split
      · next third => simp [third]
      · next third => simp [first, second, third]

theorem hex4Val_sound {value : Nat} (reads : hex4Val input = some (value, rest)) :
    ∃ h0 h1 h2 h3, input = h0 :: h1 :: h2 :: h3 :: rest ∧
      HexDigit h0 ∧ HexDigit h1 ∧ HexDigit h2 ∧ HexDigit h3 := by
  unfold hex4Val at reads
  split at reads
  · next h0 h1 h2 h3 others =>
    split at reads
    · next d0 d1 d2 d3 is0 is1 is2 is3 =>
      cases reads
      exact ⟨h0, h1, h2, h3, rfl, (hexVal_isSome h0).mp ⟨d0, is0⟩, (hexVal_isSome h1).mp ⟨d1, is1⟩,
        (hexVal_isSome h2).mp ⟨d2, is2⟩, (hexVal_isSome h3).mp ⟨d3, is3⟩⟩
    · cases reads
  · cases reads

theorem hex4Val_complete {h0 h1 h2 h3 : UInt8} (digit0 : HexDigit h0) (digit1 : HexDigit h1)
    (digit2 : HexDigit h2) (digit3 : HexDigit h3) (rest : List UInt8) :
    ∃ value, hex4Val (h0 :: h1 :: h2 :: h3 :: rest) = some (value, rest) := by
  obtain ⟨d0, is0⟩ := (hexVal_isSome h0).mpr digit0
  obtain ⟨d1, is1⟩ := (hexVal_isSome h1).mpr digit1
  obtain ⟨d2, is2⟩ := (hexVal_isSome h2).mpr digit2
  obtain ⟨d3, is3⟩ := (hexVal_isSome h3).mpr digit3
  exact ⟨_, by simp only [hex4Val, is0, is1, is2, is3]; rfl⟩

theorem unicodeEscape_cases {cp : Nat} (digits : hex4Val input = some (cp, rest)) :
    (∃ value, unicodeEscape input = some (value, rest)) ∨
      ∃ low lo after value, rest = backslash :: byte 'u' :: low ∧ hex4Val low = some (lo, after) ∧
        unicodeEscape input = some (value, after) := by
  simp only [unicodeEscape, digits]
  split
  · split
    · next c c' low =>
      split
      · next escaped =>
        obtain ⟨rfl, rfl⟩ := escaped
        split
        · next lo after reads =>
          split
          · exact Or.inr ⟨low, lo, after, _, rfl, reads, rfl⟩
          · exact Or.inl ⟨_, rfl⟩
        · exact Or.inl ⟨_, rfl⟩
      · exact Or.inl ⟨_, rfl⟩
    · exact Or.inl ⟨_, rfl⟩
  · exact Or.inl ⟨_, rfl⟩

theorem hex4Val_of_unicodeEscape {value : Nat} {after : List UInt8}
    (reads : unicodeEscape input = some (value, after)) :
    ∃ cp rest, hex4Val input = some (cp, rest) := by
  cases digits : hex4Val input with
  | none => simp [unicodeEscape, digits] at reads
  | some found => exact ⟨found.1, found.2, rfl⟩

/-- The characters that an escape other than `\u` names. -/
def escapes : List UInt8 :=
  [quote, backslash, byte '/', byte 'b', byte 'f', byte 'n', byte 'r', byte 't']

theorem unescape_of_mem {c : UInt8} (listed : c ∈ escapes) (rest : List UInt8) :
    ∃ bytes, unescape (c :: rest) = some (bytes, rest) := by
  simp only [escapes, List.mem_cons, List.not_mem_nil, or_false] at listed
  obtain rfl | rfl | rfl | rfl | rfl | rfl | rfl | rfl := listed
  all_goals exact ⟨_, rfl⟩

/-- Any other escape is none, but for `\u`. -/
theorem unescape_of_not_mem {c : UInt8} (unlisted : c ∉ escapes) (notUnicode : c ≠ byte 'u')
    (rest : List UInt8) : unescape (c :: rest) = none := by
  simp only [escapes, List.mem_cons, List.not_mem_nil, or_false, not_or] at unlisted
  obtain ⟨isQuote, isBackslash, isSlash, isB, isF, isN, isR, isT⟩ := unlisted
  rw [unescape, if_neg isQuote, if_neg isBackslash, if_neg isSlash, if_neg isN, if_neg isR,
    if_neg isT, if_neg isB, if_neg isF, if_neg notUnicode]

theorem unescape_sound {bytes : List UInt8} (reads : unescape input = some (bytes, rest)) :
    ∃ chars, backslash :: input = chars ++ rest ∧ Chars AcceptedChar chars := by
  cases input with
  | nil => simp [unescape] at reads
  | cons c input =>
    by_cases unicode : c = byte 'u'
    · -- One escape with its digits, and perhaps a second one.
      subst unicode
      have step : (unicodeEscape input).map (fun found => (encodeUtf8 found.1, found.2)) =
          some (bytes, rest) := by
        simpa +decide [unescape] using reads
      obtain ⟨found, isFound, pair⟩ := Option.map_eq_some_iff.mp step
      obtain ⟨value, after⟩ := found
      obtain ⟨-, rfl⟩ := Prod.mk.inj pair
      obtain ⟨cp, behind, digits⟩ := hex4Val_of_unicodeEscape isFound
      obtain ⟨h0, h1, h2, h3, rfl, d0, d1, d2, d3⟩ := hex4Val_sound digits
      have first : AcceptedChar [backslash, byte 'u', h0, h1, h2, h3] :=
        Or.inr (Or.inr ⟨h0, h1, h2, h3, rfl, d0, d1, d2, d3⟩)
      obtain ⟨value', one⟩ | ⟨low, lo, after', value', rfl, more, two⟩ := unicodeEscape_cases digits
      · rw [isFound] at one
        cases one
        exact ⟨_, rfl, Chars.single first⟩
      · rw [isFound] at two
        cases two
        obtain ⟨l0, l1, l2, l3, rfl, e0, e1, e2, e3⟩ := hex4Val_sound more
        have second : AcceptedChar [backslash, byte 'u', l0, l1, l2, l3] :=
          Or.inr (Or.inr ⟨l0, l1, l2, l3, rfl, e0, e1, e2, e3⟩)
        exact ⟨_, rfl, Chars.cons first (Chars.single second)⟩
    · -- A character from the list of the escapes.
      have listed : c ∈ escapes := by
        by_contra unlisted
        rw [unescape_of_not_mem unlisted unicode] at reads
        cases reads
      obtain ⟨bytes', named⟩ := unescape_of_mem listed input
      rw [named] at reads
      cases reads
      exact ⟨[backslash, c], rfl, Chars.single (Or.inr (Or.inl ⟨c, rfl, listed⟩))⟩

theorem parseChars_sound (rounds : Nat) {input out : List UInt8}
    (reads : parseChars rounds input = some (out, rest)) :
    ∃ body, input = body ++ quote :: rest ∧ Chars AcceptedChar body := by
  induction rounds generalizing input out with
  | zero => simp [parseChars] at reads
  | succ rounds ih =>
    cases input with
    | nil => simp [parseChars] at reads
    | cons c input =>
      by_cases isQuote : c = quote
      · subst isQuote
        simp only [parseChars, if_true, Option.some.injEq, Prod.mk.injEq] at reads
        obtain ⟨-, rfl⟩ := reads
        exact ⟨[], rfl, Chars.nil⟩
      by_cases isBackslash : c = backslash
      · -- The characters of the escape come before what the later rounds read.
        subst isBackslash
        simp only [parseChars, if_neg isQuote, ne_eq, not_true_eq_false, if_false] at reads
        cases escaped : unescape input with
        | none => simp [escaped] at reads
        | some found =>
          rw [escaped] at reads
          obtain ⟨others, isOthers, pair⟩ := Option.map_eq_some_iff.mp reads
          have escaped : unescape input = some (found.1, found.2) := escaped
          obtain ⟨chars, split, accepted⟩ := unescape_sound escaped
          have behind : others.2 = rest := congrArg Prod.snd pair
          have later : parseChars rounds found.2 = some (others.1, rest) := by
            rw [isOthers, ← behind]
          obtain ⟨body, split', accepted'⟩ := ih later
          refine ⟨chars ++ body, ?_, accepted.append accepted'⟩
          rw [split, split', List.append_assoc]
      · simp only [parseChars, if_neg isQuote, ne_eq, isBackslash, not_false_eq_true, if_true]
          at reads
        obtain ⟨others, isOthers, pair⟩ := Option.map_eq_some_iff.mp reads
        have behind : others.2 = rest := congrArg Prod.snd pair
        have later : parseChars rounds input = some (others.1, rest) := by rw [isOthers, ← behind]
        obtain ⟨body, split, accepted⟩ := ih later
        exact ⟨[c] ++ body, by rw [split]; rfl,
          Chars.cons (Or.inl ⟨c, rfl, isQuote, isBackslash⟩) accepted⟩

/-- A string that goes on with `\u` goes on with four digits. -/
theorem unicode_of_chars {body low : List UInt8} (chars : Chars AcceptedChar body)
    (split : body ++ quote :: rest = backslash :: byte 'u' :: low) :
    ∃ h0 h1 h2 h3 others, low = h0 :: h1 :: h2 :: h3 :: (others ++ quote :: rest) ∧
      Chars AcceptedChar others ∧ others.length < body.length := by
  cases chars with
  | nil => exact absurd (List.cons.inj split).1 (by decide)
  | @cons one others char accepted =>
    obtain ⟨c, rfl, isQuote, isBackslash⟩ | ⟨c, rfl, listed⟩ | ⟨h0, h1, h2, h3, rfl, -⟩ := char
    · exact absurd (List.cons.inj split).1 isBackslash
    · have isU : c = byte 'u' := (List.cons.inj (List.cons.inj split).2).1
      rw [isU] at listed
      exact absurd listed (by decide)
    · refine ⟨h0, h1, h2, h3, others, ?_, accepted, ?_⟩
      · simpa using (List.cons.inj (List.cons.inj split).2).2.symm
      · simp only [List.length_append, List.length_cons]
        omega

theorem unescape_complete {one others : List UInt8} (char : Escaped one)
    (chars : Chars AcceptedChar others) (rest : List UInt8) :
    ∃ escape bytes others', one = backslash :: escape ∧
      unescape (escape ++ (others ++ quote :: rest)) = some (bytes, others' ++ quote :: rest) ∧
      Chars AcceptedChar others' ∧ others'.length ≤ others.length := by
  obtain ⟨c, rfl, listed⟩ | ⟨h0, h1, h2, h3, rfl, d0, d1, d2, d3⟩ := char
  · obtain ⟨bytes, named⟩ := unescape_of_mem listed (others ++ quote :: rest)
    exact ⟨[c], bytes, others, rfl, named, chars, le_rfl⟩
  · obtain ⟨cp, digits⟩ := hex4Val_complete d0 d1 d2 d3 (others ++ quote :: rest)
    obtain ⟨value, one⟩ | ⟨low, lo, after, value, isLow, more, two⟩ := unicodeEscape_cases digits
    · refine ⟨[byte 'u', h0, h1, h2, h3], encodeUtf8 value, others, rfl, ?_, chars, le_rfl⟩
      simp +decide [unescape, one]
    · -- The digits of the second escape are those of the next character.
      obtain ⟨l0, l1, l2, l3, others', rfl, accepted, shorter⟩ := unicode_of_chars chars isLow
      obtain ⟨l0', l1', l2', l3', isSplit, -⟩ := hex4Val_sound more
      simp only [List.cons.injEq] at isSplit
      have behind : after = others' ++ quote :: rest := isSplit.2.2.2.2.symm
      refine ⟨[byte 'u', h0, h1, h2, h3], encodeUtf8 value, others', rfl, ?_, accepted,
        shorter.le⟩
      simp +decide [unescape, two, behind]

theorem parseChars_complete (rounds : Nat) {body : List UInt8} (chars : Chars AcceptedChar body)
    (enough : body.length < rounds) (rest : List UInt8) :
    ∃ out, parseChars rounds (body ++ quote :: rest) = some (out, rest) := by
  induction rounds generalizing body with
  | zero => omega
  | succ rounds ih =>
    have distinct : backslash ≠ quote := by decide
    cases chars with
    | nil => exact ⟨[], by simp [parseChars]⟩
    | @cons one others char accepted =>
      obtain ⟨c, rfl, isQuote, isBackslash⟩ | escaped := char
      · obtain ⟨out, reads⟩ := ih accepted (by simpa using enough)
        exact ⟨c :: out, by simp [parseChars, isQuote, isBackslash, reads]⟩
      · obtain ⟨escape, bytes, others', rfl, named, accepted', shorter⟩ :=
          unescape_complete escaped accepted rest
        rw [List.length_append, List.length_cons] at enough
        obtain ⟨out, reads⟩ := ih accepted' (by omega)
        refine ⟨bytes ++ out, ?_⟩
        simp [parseChars, distinct, named, reads]

theorem parseRawString_iff :
    (∃ out, parseRawString input = some (out, rest)) ↔
      ∃ body, input = quoted body ++ rest ∧ Chars AcceptedChar body := by
  constructor
  · rintro ⟨out, reads⟩
    cases input with
    | nil => simp [parseRawString] at reads
    | cons c input =>
      by_cases isQuote : c = quote
      · subst isQuote
        rw [parseRawString, if_pos rfl] at reads
        obtain ⟨body, rfl, accepted⟩ := parseChars_sound _ reads
        exact ⟨body, by rw [quoted, List.cons_append, List.append_assoc]; rfl, accepted⟩
      · simp [parseRawString, isQuote] at reads
  · rintro ⟨body, rfl, accepted⟩
    have enough : body.length < (body ++ quote :: rest).length + 1 := by
      rw [List.length_append]
      omega
    obtain ⟨out, reads⟩ := parseChars_complete _ accepted enough rest
    refine ⟨out, ?_⟩
    have literal : quoted body ++ rest = quote :: (body ++ quote :: rest) := by
      rw [quoted, List.cons_append, List.append_assoc]
      rfl
    rw [literal, parseRawString, if_pos rfl]
    exact reads

end AgentC.Listree

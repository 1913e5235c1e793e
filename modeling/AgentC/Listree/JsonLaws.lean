import AgentC.Listree.Json

/-! What the parser reads back of what the writer writes: strings, lists and objects. -/

namespace AgentC.Listree

theorem skipWs_cons {c : UInt8} (visible : ¬ c ≤ 0x20) (rest : List UInt8) :
    skipWs (c :: rest) = c :: rest := by
  simp [skipWs, visible]

theorem hexVal_hexDigit : ∀ value : Nat, value < 16 → hexVal (hexDigit value) = some value := by
  decide

theorem hex4Val_hex4 {value : Nat} (small : value < 65536) (rest : List UInt8) :
    hex4Val (hex4 value ++ rest) = some (value, rest) := by
  have digit (n : Nat) : hexVal (hexDigit (n % 16)) = some (n % 16) :=
    hexVal_hexDigit _ (Nat.mod_lt n (by decide))
  simp only [hex4, List.cons_append, List.nil_append, hex4Val, digit, Option.some.injEq,
    Prod.mk.injEq, and_true]
  omega

theorem unescape_unicode {c : UInt8} (control : c < 0x20) (rest : List UInt8) :
    unescape (byte 'u' :: hex4 c.toNat ++ rest) = some ([c], rest) := by
  have small : c.toNat < 32 := control
  have digits : hex4Val (hex4 c.toNat ++ rest) = some (c.toNat, rest) := hex4Val_hex4 (by omega) rest
  -- A control character is no surrogate, and is its own UTF-8 encoding.
  have single : unicodeEscape (hex4 c.toNat ++ rest) = some (c.toNat, rest) := by
    simp only [unicodeEscape, digits]
    rw [if_neg (by omega)]
  have encoded : encodeUtf8 c.toNat = [c] := by
    rw [encodeUtf8, if_pos (by omega), UInt8.ofNat_toNat]
  simp +decide [unescape, single, encoded]

theorem jsonEscape_cases (c : UInt8) :
    (jsonEscape c = [c] ∧ c ≠ quote ∧ c ≠ backslash) ∨
      ∃ escape, jsonEscape c = backslash :: escape ∧
        ∀ rest, unescape (escape ++ rest) = some ([c], rest) := by
  by_cases isQuote : c = quote
  · subst isQuote
    exact Or.inr ⟨[quote], by decide, fun rest => by simp [unescape]⟩
  by_cases isBackslash : c = backslash
  · subst isBackslash
    exact Or.inr ⟨[backslash], by decide, fun rest => by simp +decide [unescape]⟩
  by_cases isN : c = 0x0A
  · subst isN
    exact Or.inr ⟨[byte 'n'], by decide, fun rest => by simp +decide [unescape]⟩
  by_cases isR : c = 0x0D
  · subst isR
    exact Or.inr ⟨[byte 'r'], by decide, fun rest => by simp +decide [unescape]⟩
  by_cases isT : c = 0x09
  · subst isT
    exact Or.inr ⟨[byte 't'], by decide, fun rest => by simp +decide [unescape]⟩
  by_cases isB : c = 0x08
  · subst isB
    exact Or.inr ⟨[byte 'b'], by decide, fun rest => by simp +decide [unescape]⟩
  by_cases isF : c = 0x0C
  · subst isF
    exact Or.inr ⟨[byte 'f'], by decide, fun rest => by simp +decide [unescape]⟩
  by_cases control : c < 0x20
  · refine Or.inr ⟨byte 'u' :: hex4 c.toNat, ?_, unescape_unicode control⟩
    simp [jsonEscape, isQuote, isBackslash, isN, isR, isT, isB, isF, control]
  · refine Or.inl ⟨?_, isQuote, isBackslash⟩
    simp [jsonEscape, isQuote, isBackslash, isN, isR, isT, isB, isF, control]

theorem parseChars_escape (c : UInt8) (rounds : Nat) (rest : List UInt8) :
    parseChars (rounds + 1) (jsonEscape c ++ rest) =
      (parseChars rounds rest).map fun (out, after) => (c :: out, after) := by
  have distinct : backslash ≠ quote := by decide
  rcases jsonEscape_cases c with ⟨raw, notQuote, notBackslash⟩ | ⟨escape, escaped, readBack⟩
  · rw [raw]
    simp [parseChars, notQuote, notBackslash]
  · rw [escaped, List.cons_append]
    simp [parseChars, distinct, readBack]

theorem parseChars_flatMap (data rest : List UInt8) : ∀ rounds : Nat, data.length < rounds →
    parseChars rounds (data.flatMap jsonEscape ++ quote :: rest) = some (data, rest) := by
  induction data with
  | nil =>
    intro rounds enough
    obtain ⟨rounds, rfl⟩ : ∃ k, rounds = k + 1 := ⟨rounds - 1, by omega⟩
    simp [parseChars]
  | cons c data ih =>
    intro rounds enough
    rw [List.length_cons] at enough
    obtain ⟨rounds, rfl⟩ : ∃ k, rounds = k + 1 := ⟨rounds - 1, by omega⟩
    rw [List.flatMap_cons, List.append_assoc, parseChars_escape, ih rounds (by omega)]
    rfl

theorem length_le_flatMap (data : List UInt8) : data.length ≤ (data.flatMap jsonEscape).length := by
  induction data with
  | nil => simp
  | cons c data ih =>
    have one : 1 ≤ (jsonEscape c).length := by
      rcases jsonEscape_cases c with ⟨raw, _⟩ | ⟨escape, escaped, _⟩
      · rw [raw]
        simp
      · rw [escaped]
        simp
    rw [List.flatMap_cons, List.length_append, List.length_cons]
    omega

theorem parseRawString_escape (data rest : List UInt8) :
    parseRawString (jsonEscapeString data ++ rest) = some (data, rest) := by
  have longer := length_le_flatMap data
  simp only [jsonEscapeString, List.cons_append, parseRawString, if_true, List.append_assoc,
    List.nil_append]
  refine parseChars_flatMap data rest _ ?_
  simp only [List.length_append, List.length_cons]
  omega

/-- Reading stops right behind the literal, with its string and with nothing else. -/
theorem parseRawString_inverts (data rest : List UInt8) (result : List UInt8 × List UInt8) :
    parseRawString (jsonEscapeString data ++ rest) = some result ↔ result = (data, rest) := by
  rw [parseRawString_escape]
  exact ⟨fun same => (Option.some.inj same).symm, fun same => same ▸ rfl⟩

end AgentC.Listree

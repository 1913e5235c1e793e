import AgentC.Listree.JsonAcceptance

/-!
How the texts that the JSON parser accepts differ from those of RFC 8259.

Every JSON text is accepted. A text that is accepted and is none has a leaf that the RFC does not
allow, and since a text determines its leaves, every derivation of it shows that leaf.
-/

namespace AgentC.Listree

open JsonText

theorem utf8_bytes (c : Char) :
    ∀ b ∈ String.utf8EncodeChar c, b.toNat = c.toNat ∨ 0x80 ≤ b.toNat := by
  intro b inside
  simp only [String.utf8EncodeChar] at inside
  have size : c.val.toNat = c.toNat := rfl
  split at inside
  · simp only [List.mem_singleton] at inside
    subst inside
    left
    rw [UInt8.toNat_ofNat']
    omega
  · right
    split at inside
    · simp only [List.mem_cons, List.not_mem_nil, or_false] at inside
      obtain rfl | rfl := inside
      all_goals
        rw [UInt8.toNat_ofNat']
        omega
    · split at inside
      · simp only [List.mem_cons, List.not_mem_nil, or_false] at inside
        obtain rfl | rfl | rfl := inside
        all_goals
          rw [UInt8.toNat_ofNat']
          omega
      · simp only [List.mem_cons, List.not_mem_nil, or_false] at inside
        obtain rfl | rfl | rfl | rfl := inside
        all_goals
          rw [UInt8.toNat_ofNat']
          omega

theorem accepted_string {body : List UInt8} (allowed : Rfc8259 (.string body)) :
    Accepted (.string body) := by
  refine Chars.of_each (fun one char others accepted => ?_) allowed
  obtain ⟨c, printable, isQuote, isBackslash, rfl⟩ | escaped := char
  · refine Chars.of_bytes (fun b inside => ?_) accepted
    -- Neither the character itself nor a byte above ASCII is a quote or a backslash.
    have value := utf8_bytes c b inside
    have noQuote : b ≠ quote := by
      intro same
      have is : b.toNat = 0x22 := congrArg UInt8.toNat same
      omega
    have noBackslash : b ≠ backslash := by
      intro same
      have is : b.toNat = 0x5C := congrArg UInt8.toNat same
      omega
    exact Or.inl ⟨b, rfl, noQuote, noBackslash⟩
  · exact Chars.cons (Or.inr escaped) accepted

theorem accepted_number {text : List UInt8} (allowed : Rfc8259 (.number text)) :
    Accepted (.number text) := by
  obtain ⟨minus, whole, fraction, exponent, isText, sign, isWhole, isFraction, isExponent⟩ :=
    allowed
  have digits : Digits whole ∧ ∃ c others, whole = c :: others ∧ startsNumber c = true := by
    obtain rfl | ⟨c, others, rfl, ⟨low, high⟩, all⟩ := isWhole
    · exact ⟨by simp [Digits], 0x30, [], rfl, by decide⟩
    · have digit : 0x30 ≤ c := UInt8.le_trans (by decide : (0x30 : UInt8) ≤ 0x31) low
      refine ⟨fun d inside => ?_, c, others, rfl, by simp [startsNumber, digit, high]⟩
      obtain rfl | tail := List.mem_cons.mp inside
      · exact ⟨digit, high⟩
      · exact all d tail
  obtain ⟨all, c, others, rfl, starts⟩ := digits
  refine ⟨⟨minus, c :: others, fraction, exponent, isText, sign, all, ?_, ?_⟩, ?_⟩
  · obtain none | ⟨run, point, -, isRun⟩ := isFraction
    · exact Or.inl none
    · exact Or.inr ⟨run, point, isRun⟩
  · obtain none | ⟨e, plus, run, isE, mark, isPlus, -, isRun⟩ := isExponent
    · exact Or.inl none
    · exact Or.inr ⟨e, plus, run, isE, mark, isPlus, isRun⟩
  · -- A number begins with its sign, or with the first of its digits.
    obtain rfl | rfl := sign
    · exact ⟨c, _, isText, starts⟩
    · exact ⟨0x2D, _, isText, by decide⟩

theorem accepted_of_rfc8259 {leaf : Leaf} (allowed : Rfc8259 leaf) : Accepted leaf := by
  cases leaf with
  | space c =>
    simp only [Rfc8259, List.mem_cons, List.not_mem_nil, or_false] at allowed
    have low : c.toNat ≤ 0x20 := by
      obtain rfl | rfl | rfl | rfl := allowed
      all_goals decide
    exact low
  | number text => exact accepted_number allowed
  | string body => exact accepted_string allowed

theorem inNumber_of_numberOf {text : List UInt8} (number : NumberOf Digits Digits text) :
    ∀ d ∈ text, inNumber d = true := by
  obtain ⟨minus, whole, fraction, exponent, rfl, sign, digits, isFraction, isExponent⟩ := number
  have digit {d : UInt8} (is : 0x30 ≤ d ∧ d ≤ 0x39) : inNumber d = true := by
    simp [inNumber, startsNumber, is]
  intro d inside
  simp only [List.mem_append] at inside
  obtain isSign | isWhole | inFraction | inExponent := inside
  · obtain rfl | rfl := sign
    · cases isSign
    · rw [List.mem_singleton.mp isSign]
      decide
  · exact digit (digits d isWhole)
  · obtain rfl | ⟨run, rfl, all⟩ := isFraction
    · cases inFraction
    · obtain rfl | isRun := List.mem_cons.mp inFraction
      · decide
      · exact digit (all d isRun)
  · obtain rfl | ⟨e, plus, run, rfl, mark, isPlus, all⟩ := isExponent
    · cases inExponent
    · simp only [List.mem_cons, List.mem_append] at inExponent
      obtain rfl | signed | isRun := inExponent
      · obtain rfl | rfl := mark
        · decide
        · decide
      · obtain rfl | rfl | rfl := isPlus
        · cases signed
        · rw [List.mem_singleton.mp signed]
          decide
        · rw [List.mem_singleton.mp signed]
          decide
      · exact digit (all d isRun)

theorem scanned_hexDigit {c : UInt8} (digit : HexDigit c) : Scanned [c] := by
  refine Or.inl ⟨c, rfl, ?_, ?_⟩
  · intro same
    rw [same, HexDigit] at digit
    exact absurd digit (by decide)
  · intro same
    rw [same, HexDigit] at digit
    exact absurd digit (by decide)

theorem scannable_of_accepted {leaf : Leaf} (accepted : Accepted leaf) : Scannable leaf := by
  cases leaf with
  | space c => exact accepted
  | number text =>
    obtain ⟨number, c, others, rfl, starts⟩ := accepted
    exact ⟨c, others, rfl, starts, fun d inside =>
      inNumber_of_numberOf number d (List.mem_cons_of_mem c inside)⟩
  | string body =>
    refine Chars.of_each (fun one char others scanned => ?_) accepted
    obtain plain | ⟨c, rfl, -⟩ | ⟨h0, h1, h2, h3, rfl, d0, d1, d2, d3⟩ := char
    · exact Chars.cons (Or.inl plain) scanned
    · exact Chars.cons (Or.inr ⟨c, rfl⟩) scanned
    · -- The four digits are characters of their own to a scan.
      have digits : Chars Scanned ([h0, h1, h2, h3] ++ others) := by
        refine Chars.of_bytes (fun c inside => ?_) scanned
        simp only [List.mem_cons, List.not_mem_nil, or_false] at inside
        obtain rfl | rfl | rfl | rfl := inside
        · exact scanned_hexDigit d0
        · exact scanned_hexDigit d1
        · exact scanned_hexDigit d2
        · exact scanned_hexDigit d3
      exact @Chars.cons Scanned [backslash, byte 'u'] _ (Or.inr ⟨byte 'u', rfl⟩) digits

theorem fromJson_of_isJsonText {json : List UInt8} (text : IsJsonText json) :
    (fromJson json).isSome = true := by
  obtain ⟨tree, isText, allowed⟩ := text
  exact (fromJson_isSome json).mpr
    ⟨tree, isText, fun leaf inside => accepted_of_rfc8259 (allowed leaf inside)⟩

/--
The parser accepts exactly the JSON texts among the texts whose leaves are as the RFC has them.

The texts at which it errs are those with its own leaves of which one is none of the RFC: a space
that is another control character, a number without digits where digits belong or with a zero in
front, or a string with a control character or with bytes that are not UTF-8.
-/
theorem fromJson_exact_iff (json : List UInt8) :
    ((fromJson json).isSome = true ↔ IsJsonText json) ↔
      ∀ tree : Tree .element, tree.text = json → (∀ leaf ∈ tree.leaves, Accepted leaf) →
        ∀ leaf ∈ tree.leaves, Rfc8259 leaf := by
  constructor
  · intro exact tree isText accepted
    obtain ⟨tree', isText', allowed⟩ :=
      exact.mp ((fromJson_isSome json).mpr ⟨tree, isText, accepted⟩)
    -- The leaves of the derivation at hand are those of the one by the RFC.
    have same : tree.leaves = tree'.leaves :=
      tree.leaves_unique tree' (fun leaf inside => scannable_of_accepted (accepted leaf inside))
        (fun leaf inside => scannable_of_accepted (accepted_of_rfc8259 (allowed leaf inside)))
        (isText.trans isText'.symm)
    rw [same]
    exact allowed
  · intro proper
    refine ⟨fun isSome => ?_, fromJson_of_isJsonText⟩
    obtain ⟨tree, isText, accepted⟩ := (fromJson_isSome json).mp isSome
    exact ⟨tree, isText, proper tree isText accepted⟩

/-- A minus sign alone is accepted, and is no JSON text. -/
theorem fromJson_minus : (fromJson [0x2D]).isSome = true ∧ ¬ IsJsonText [0x2D] := by
  refine ⟨by decide, fun text => ?_⟩
  obtain ⟨tree, isText, allowed⟩ := text
  -- The one leaf of the text is a number without digits.
  have leaves := tree.scan_eq_leaves fun leaf inside =>
    scannable_of_accepted (accepted_of_rfc8259 (allowed leaf inside))
  rw [isText] at leaves
  have number : Rfc8259 (.number [0x2D]) := allowed _ (leaves ▸ List.mem_cons_self)
  obtain ⟨minus, whole, fraction, exponent, is, sign, isWhole, -⟩ := number
  obtain rfl | ⟨c, others, rfl, ⟨low, -⟩, -⟩ := isWhole
  · obtain rfl | rfl := sign
    · cases is
    · cases is
  · obtain rfl | rfl := sign
    · -- Without a sign, the minus sign would be the first digit.
      simp only [List.nil_append, List.cons_append, List.cons.injEq] at is
      rw [← is.1] at low
      exact absurd low (by decide)
    · simp at is

end AgentC.Listree

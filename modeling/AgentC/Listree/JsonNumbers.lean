import AgentC.Listree.JsonLexemes

/-! What the JSON parser accepts as a number: parts that may be empty, read one after the other. -/

namespace AgentC.Listree

open JsonText

variable {input rest : List UInt8}

def skipWhole (input : List UInt8) : List UInt8 :=
  (skipOne [byte '-'] input).dropWhile isDigit

def skipFraction (input : List UInt8) : List UInt8 :=
  if skipOne [byte '.'] input = input then input
  else (skipOne [byte '.'] input).dropWhile isDigit

/-- What is behind an exponent, where one stands. -/
def skipExponent (input : List UInt8) : List UInt8 :=
  if skipOne [byte 'e', byte 'E'] input = input then input
  else (skipOne [byte '+', byte '-'] (skipOne [byte 'e', byte 'E'] input)).dropWhile isDigit

theorem parseNumber_isSome :
    (∃ value, parseNumber input = some (value, rest)) ↔
      skipExponent (skipFraction (skipWhole input)) = rest ∧ rest ≠ input := by
  have unfolded : parseNumber input =
      if skipExponent (skipFraction (skipWhole input)) = input then none
      else some (createStringValue (input.take
        (input.length - (skipExponent (skipFraction (skipWhole input))).length)),
          skipExponent (skipFraction (skipWhole input))) := rfl
  rw [unfolded]
  split
  · next same =>
    constructor
    · rintro ⟨value, reads⟩
      cases reads
    · rintro ⟨rfl, different⟩
      exact absurd same different
  · next different =>
    constructor
    · rintro ⟨value, reads⟩
      cases reads
      exact ⟨rfl, different⟩
    · rintro ⟨rfl, -⟩
      exact ⟨_, rfl⟩

theorem skipOne_cases (choices input : List UInt8) :
    (∃ c, c ∈ choices ∧ input = c :: skipOne choices input) ∨ skipOne choices input = input := by
  cases input with
  | nil => exact Or.inr rfl
  | cons c input =>
    by_cases listed : c ∈ choices
    · exact Or.inl ⟨c, listed, by rw [skipOne, if_pos listed]⟩
    · exact Or.inr (by rw [skipOne, if_neg listed])

theorem skipOne_of_mem {c : UInt8} {choices : List UInt8} (listed : c ∈ choices)
    (input : List UInt8) : skipOne choices (c :: input) = input := by
  rw [skipOne, if_pos listed]

theorem skipOne_of_head {choices : List UInt8} (head : ∀ c ∈ input.head?, c ∉ choices) :
    skipOne choices input = input := by
  cases input with
  | nil => rfl
  | cons c input => rw [skipOne, if_neg (head c rfl)]

theorem head_append {p : UInt8 → Prop} {part : List UInt8} (first : ∀ c ∈ part.head?, p c)
    (second : ∀ c ∈ rest.head?, p c) : ∀ c ∈ (part ++ rest).head?, p c := by
  cases part with
  | nil => exact second
  | cons d part => exact first

theorem dropWhile_digits {digits : List UInt8} (all : Digits digits)
    (head : ∀ c ∈ rest.head?, isDigit c = false) : (digits ++ rest).dropWhile isDigit = rest := by
  induction digits with
  | nil =>
    cases rest with
    | nil => rfl
    | cons c rest => exact List.dropWhile_cons_of_neg (by simp [head c rfl])
  | cons d digits ih =>
    have digit : isDigit d = true := by
      simpa [isDigit] using all d List.mem_cons_self
    rw [List.cons_append, List.dropWhile_cons_of_pos digit]
    exact ih fun c inside => all c (List.mem_cons_of_mem d inside)

theorem dropWhile_digits_sound (input : List UInt8) :
    ∃ digits, input = digits ++ input.dropWhile isDigit ∧ Digits digits := by
  refine ⟨input.takeWhile isDigit, (List.takeWhile_append_dropWhile).symm, fun c inside => ?_⟩
  simpa [isDigit] using List.mem_takeWhile_imp inside

def IsFraction (fraction : List UInt8) : Prop :=
  fraction = [] ∨ ∃ digits, fraction = byte '.' :: digits ∧ Digits digits

/-- The mark of an exponent, a sign or none, and digits, or nothing at all. -/
def IsExponent (exponent : List UInt8) : Prop :=
  exponent = [] ∨ ∃ e sign digits, exponent = e :: (sign ++ digits) ∧
    (e = byte 'e' ∨ e = byte 'E') ∧ (sign = [] ∨ sign = [byte '+'] ∨ sign = [byte '-']) ∧
    Digits digits

theorem skipWhole_sound (input : List UInt8) :
    ∃ minus whole, input = minus ++ (whole ++ skipWhole input) ∧
      (minus = [] ∨ minus = [byte '-']) ∧ Digits whole := by
  obtain ⟨whole, split, all⟩ := dropWhile_digits_sound (skipOne [byte '-'] input)
  obtain ⟨c, listed, isInput⟩ | same := skipOne_cases [byte '-'] input
  · rw [List.mem_singleton] at listed
    refine ⟨[c], whole, ?_, Or.inr (by rw [listed]), all⟩
    rw [skipWhole, ← split]
    exact isInput
  · refine ⟨[], whole, ?_, Or.inl rfl, all⟩
    rw [skipWhole, ← split, same]
    rfl

theorem skipFraction_sound (input : List UInt8) :
    ∃ fraction, input = fraction ++ skipFraction input ∧ IsFraction fraction := by
  obtain ⟨c, listed, isInput⟩ | same := skipOne_cases [byte '.'] input
  · obtain ⟨digits, split, all⟩ := dropWhile_digits_sound (skipOne [byte '.'] input)
    have moved : skipOne [byte '.'] input ≠ input := by
      intro same
      exact absurd (congrArg List.length isInput) (by rw [same, List.length_cons]; omega)
    rw [List.mem_singleton] at listed
    refine ⟨c :: digits, ?_, Or.inr ⟨digits, by rw [listed], all⟩⟩
    rw [skipFraction, if_neg moved, List.cons_append, ← split]
    exact isInput
  · exact ⟨[], by rw [skipFraction, if_pos same]; rfl, Or.inl rfl⟩

theorem skipExponent_sound (input : List UInt8) :
    ∃ exponent, input = exponent ++ skipExponent input ∧ IsExponent exponent := by
  obtain ⟨e, mark, isInput⟩ | same := skipOne_cases [byte 'e', byte 'E'] input
  · have moved : skipOne [byte 'e', byte 'E'] input ≠ input := by
      intro same
      exact absurd (congrArg List.length isInput) (by rw [same, List.length_cons]; omega)
    simp only [List.mem_cons, List.not_mem_nil, or_false] at mark
    obtain ⟨digits, split, all⟩ :=
      dropWhile_digits_sound (skipOne [byte '+', byte '-'] (skipOne [byte 'e', byte 'E'] input))
    -- A sign is skipped, or there is none.
    obtain ⟨c, signed, isSigned⟩ | plain :=
      skipOne_cases [byte '+', byte '-'] (skipOne [byte 'e', byte 'E'] input)
    · simp only [List.mem_cons, List.not_mem_nil, or_false] at signed
      have sign : [c] = [] ∨ [c] = [byte '+'] ∨ [c] = [byte '-'] := by
        simpa using signed
      refine ⟨e :: ([c] ++ digits), ?_, Or.inr ⟨e, [c], digits, rfl, mark, sign, all⟩⟩
      rw [skipExponent, if_neg moved, List.cons_append, List.append_assoc, ← split,
        List.singleton_append, ← isSigned]
      exact isInput
    · refine ⟨e :: ([] ++ digits), ?_, Or.inr ⟨e, [], digits, rfl, mark, Or.inl rfl, all⟩⟩
      rw [skipExponent, if_neg moved, List.nil_append, List.cons_append, ← split, plain]
      exact isInput
  · exact ⟨[], by rw [skipExponent, if_pos same]; rfl, Or.inl rfl⟩

theorem parseNumber_sound {c : UInt8} {value : ListreeValue} (starts : startsNumber c = true)
    (reads : parseNumber (c :: input) = some (value, rest)) :
    ∃ text, c :: input = text ++ rest ∧ Accepted (.number text) := by
  obtain ⟨isRest, different⟩ := parseNumber_isSome.mp ⟨value, reads⟩
  obtain ⟨minus, whole, split, sign, digits⟩ := skipWhole_sound (c :: input)
  obtain ⟨fraction, split', isFraction⟩ := skipFraction_sound (skipWhole (c :: input))
  obtain ⟨exponent, split'', isExponent⟩ :=
    skipExponent_sound (skipFraction (skipWhole (c :: input)))
  have whole_text : c :: input = (minus ++ (whole ++ (fraction ++ exponent))) ++ rest := by
    rw [← isRest]
    simp only [List.append_assoc]
    rw [← split'', ← split', ← split]
  refine ⟨minus ++ (whole ++ (fraction ++ exponent)), whole_text,
    ⟨minus, whole, fraction, exponent, rfl, sign, digits, isFraction, isExponent⟩, ?_⟩
  -- The text is not empty, since something has been read, and so it begins as the input does.
  cases text : minus ++ (whole ++ (fraction ++ exponent)) with
  | nil => rw [text] at whole_text; exact absurd whole_text.symm different
  | cons d others =>
    rw [text] at whole_text
    exact ⟨d, others, rfl, by rw [← (List.cons.inj whole_text).1]; exact starts⟩

theorem not_of_inNumber {c : UInt8} (ends : inNumber c = false) :
    isDigit c = false ∧ c ≠ byte '-' ∧ c ≠ byte '.' ∧ c ≠ byte 'e' ∧ c ≠ byte 'E' ∧
      c ≠ byte '+' := by
  simp only [inNumber, startsNumber, Bool.or_eq_false_iff, decide_eq_false_iff_not] at ends
  obtain ⟨⟨⟨⟨⟨minus, digit⟩, point⟩, lower⟩, upper⟩, plus⟩ := ends
  exact ⟨digit, minus, point, lower, upper, plus⟩

theorem not_of_digit {c : UInt8} (digit : 0x30 ≤ c ∧ c ≤ 0x39) :
    c ≠ byte '-' ∧ c ≠ byte '+' := by
  constructor
  · intro same
    rw [same] at digit
    exact absurd digit (by decide)
  · intro same
    rw [same] at digit
    exact absurd digit (by decide)

theorem parseNumber_complete {text : List UInt8} (accepted : Accepted (.number text))
    (ends : Ends rest) : ∃ value, parseNumber (text ++ rest) = some (value, rest) := by
  obtain ⟨⟨minus, whole, fraction, exponent, isText, sign, digits, isFraction, isExponent⟩,
    c, others, begins, -⟩ := accepted
  -- What follows each part begins with no byte that would prolong it.
  have behindExponent : ∀ c ∈ rest.head?, isDigit c = false ∧ c ≠ byte '-' ∧ c ≠ byte '.' ∧
      c ≠ byte 'e' ∧ c ≠ byte 'E' ∧ c ≠ byte '+' := fun c head => not_of_inNumber (ends c head)
  have behindFraction : ∀ c ∈ (exponent ++ rest).head?,
      isDigit c = false ∧ c ≠ byte '-' ∧ c ≠ byte '.' := by
    refine head_append ?_ fun c head => ?_
    · obtain rfl | ⟨e, sign, digits, rfl, rfl | rfl, -⟩ := isExponent
      · simp
      all_goals simp; decide
    · obtain ⟨digit, minus, point, -⟩ := behindExponent c head
      exact ⟨digit, minus, point⟩
  have behindWhole : ∀ c ∈ (fraction ++ (exponent ++ rest)).head?,
      isDigit c = false ∧ c ≠ byte '-' := by
    refine head_append ?_ fun c head => ?_
    · obtain rfl | ⟨digits, rfl, -⟩ := isFraction
      · simp
      · simp; decide
    · obtain ⟨digit, minus, -⟩ := behindFraction c head
      exact ⟨digit, minus⟩
  have behindSign : ∀ c ∈ (whole ++ (fraction ++ (exponent ++ rest))).head?, c ≠ byte '-' := by
    refine head_append (fun c head => ?_) fun c head => (behindWhole c head).2
    exact (not_of_digit (digits c (List.mem_of_mem_head? head))).1
  have wholeSkipped : skipWhole (text ++ rest) = fraction ++ (exponent ++ rest) := by
    rw [isText]
    simp only [List.append_assoc]
    have unsigned : skipOne [byte '-'] (minus ++ (whole ++ (fraction ++ (exponent ++ rest)))) =
        whole ++ (fraction ++ (exponent ++ rest)) := by
      obtain rfl | rfl := sign
      · exact skipOne_of_head (by simpa using behindSign)
      · exact skipOne_of_mem (List.mem_singleton.mpr rfl) _
    rw [skipWhole, unsigned, dropWhile_digits digits fun c head => (behindWhole c head).1]
  have fractionSkipped : skipFraction (fraction ++ (exponent ++ rest)) = exponent ++ rest := by
    obtain rfl | ⟨digits, rfl, all⟩ := isFraction
    · rw [List.nil_append, skipFraction, if_pos]
      exact skipOne_of_head (by simpa using fun c head => (behindFraction c head).2.2)
    · have point : skipOne [byte '.'] ((0x2E :: digits) ++ (exponent ++ rest)) =
          digits ++ (exponent ++ rest) := skipOne_of_mem (List.mem_singleton.mpr rfl) _
      rw [skipFraction, point, if_neg, dropWhile_digits all fun c head => (behindFraction c head).1]
      exact fun same => absurd (congrArg List.length same) (by simp)
  have exponentSkipped : skipExponent (exponent ++ rest) = rest := by
    obtain rfl | ⟨e, sign, digits, rfl, mark, isSign, all⟩ := isExponent
    · rw [List.nil_append, skipExponent, if_pos]
      refine skipOne_of_head fun c head => ?_
      obtain ⟨-, -, -, lower, upper, -⟩ := behindExponent c head
      simpa using ⟨lower, upper⟩
    · have marked : skipOne [byte 'e', byte 'E'] ((e :: (sign ++ digits)) ++ rest) =
          sign ++ (digits ++ rest) := by
        rw [List.cons_append, List.append_assoc]
        have listed : e ∈ [byte 'e', byte 'E'] := by
          obtain rfl | rfl := mark
          · exact List.mem_cons_self
          · exact List.mem_cons_of_mem _ List.mem_cons_self
        exact skipOne_of_mem listed _
      have unsigned : skipOne [byte '+', byte '-'] (sign ++ (digits ++ rest)) = digits ++ rest := by
        obtain rfl | rfl | rfl := isSign
        · rw [List.nil_append]
          refine skipOne_of_head (head_append (fun c head => ?_) fun c head => ?_)
          · have digit := not_of_digit (all c (List.mem_of_mem_head? head))
            simpa using ⟨digit.2, digit.1⟩
          · obtain ⟨-, minus, -, -, -, plus⟩ := behindExponent c head
            simpa using ⟨plus, minus⟩
        · exact skipOne_of_mem List.mem_cons_self _
        · exact skipOne_of_mem (List.mem_cons_of_mem _ List.mem_cons_self) _
      rw [skipExponent, marked, unsigned, if_neg,
        dropWhile_digits all fun c head => (behindExponent c head).1]
      refine fun same => absurd (congrArg List.length same) ?_
      simp only [List.cons_append, List.length_cons, List.length_append]
      omega
  refine parseNumber_isSome.mpr ⟨?_, ?_⟩
  · rw [wholeSkipped, fractionSkipped, exponentSkipped]
  · intro same
    have longer := congrArg List.length same
    rw [begins, List.length_append, List.length_cons] at longer
    omega

end AgentC.Listree

import AgentC.Library.JsonGrammar

/-! A text determines the leaves of its derivation: a scan without structure finds them. -/

namespace AgentC.JsonText

variable {rule : Rule} {rest : List UInt8}

def Scanned (char : List UInt8) : Prop :=
  (∃ c, char = [c] ∧ c ≠ quotation ∧ c ≠ escape) ∨ ∃ c, char = [escape, c]

def Scannable : Leaf → Prop
  | .space c => c ≤ 0x20
  | .number text => ∃ c others, text = c :: others ∧ startsNumber c = true ∧
    ∀ d ∈ others, inNumber d = true
  | .string body => Chars Scanned body

def Ends (rest : List UInt8) : Prop :=
  ∀ c ∈ rest.head?, inNumber c = false

theorem ends_nil : Ends [] := by
  simp [Ends]

variable {c : UInt8} {char : List UInt8 → Prop} {body spaces : List UInt8}

theorem ends_cons (other : inNumber c = false) : Ends (c :: rest) := by
  simpa [Ends] using other

theorem not_inNumber_of_space (space : c ≤ 0x20) : inNumber c = false := by
  have all : ∀ n, n ≤ 32 → inNumber (UInt8.ofNat n) = false := by decide
  have one := all c.toNat space
  rwa [UInt8.ofNat_toNat] at one

theorem Chars.single {one : List UInt8} (is : char one) :
    Chars char one := by
  have string := Chars.cons is Chars.nil
  rwa [List.append_nil] at string

theorem Chars.append {body' : List UInt8} (chars : Chars char body) (chars' : Chars char body') :
    Chars char (body ++ body') := by
  induction chars with
  | nil => exact chars'
  | cons one _ ih =>
    rw [List.append_assoc]
    exact Chars.cons one ih

theorem Chars.of_each {char' : List UInt8 → Prop}
    (each : ∀ one, char one → ∀ others, Chars char' others → Chars char' (one ++ others))
    (chars : Chars char body) : Chars char' body := by
  induction chars with
  | nil => exact Chars.nil
  | cons one _ ih => exact each _ one _ ih

theorem Chars.of_bytes {bytes others : List UInt8} (each : ∀ c ∈ bytes, char [c])
    (chars : Chars char others) : Chars char (bytes ++ others) := by
  induction bytes with
  | nil => exact chars
  | cons c bytes ih =>
    exact @Chars.cons char [c] _ (each c List.mem_cons_self)
      (ih fun d inside => each d (List.mem_cons_of_mem c inside))

theorem scan_structure (structural : Place.enter c = (.outside, [])) :
    scan .outside (c :: rest) = scan .outside rest := by
  simp [scan, Place.step, structural]

theorem scan_spaces (low : ∀ c ∈ spaces, c ≤ 0x20) :
    scan .outside (spaces ++ rest) = spaces.map .space ++ scan .outside rest := by
  induction spaces with
  | nil => rfl
  | cons c spaces ih =>
    -- A space is no quotation mark, and is below the bytes of numbers.
    have space : c ≤ 0x20 := low c List.mem_cons_self
    have noQuote : c ≠ quotation := by
      intro same
      rw [same] at space
      exact absurd space (by decide)
    have noNumber : startsNumber c = false := by
      have other := not_inNumber_of_space space
      simp only [inNumber, Bool.or_eq_false_iff] at other
      exact other.1.1.1.1
    have entered : Place.enter c = (.outside, [.space c]) := by
      simp [Place.enter, noQuote, noNumber, space]
    rw [List.cons_append, scan, Place.step, entered,
      ih fun d inside => low d (List.mem_cons_of_mem c inside)]
    rfl

theorem spaces_of_scannable (scannable : ∀ leaf ∈ spaces.map Leaf.space, Scannable leaf) :
    ∀ c ∈ spaces, c ≤ 0x20 :=
  fun c inside => scannable (.space c) (List.mem_map_of_mem inside)

theorem ends_spaces (low : ∀ c ∈ spaces, c ≤ 0x20) (ends : Ends rest) :
    Ends (spaces ++ rest) := by
  cases spaces with
  | nil => exact ends
  | cons c spaces => exact ends_cons (not_inNumber_of_space (low c List.mem_cons_self))

theorem enter_of_startsNumber (starts : startsNumber c = true) :
    Place.enter c = (.number [c], []) := by
  have noQuote : c ≠ quotation := by
    intro same
    rw [same] at starts
    exact absurd starts (by decide)
  rw [Place.enter, if_neg noQuote, if_pos starts]

theorem scan_number {others : List UInt8} (number : ∀ d ∈ others, inNumber d = true)
    (ends : Ends rest) (read : List UInt8) :
    scan (.number read) (others ++ rest) = .number (read ++ others) :: scan .outside rest := by
  induction others generalizing read with
  | nil =>
    -- What follows is read again from outside.
    cases rest with
    | nil => simp [scan, Place.last]
    | cons c rest =>
      have other : inNumber c = false := ends c rfl
      simp [scan, Place.step, other]
  | cons d others ih =>
    have goesOn : inNumber d = true := number d List.mem_cons_self
    rw [List.cons_append, scan, Place.step, if_pos goesOn,
      ih fun c inside => number c (List.mem_cons_of_mem d inside)]
    simp

theorem scan_string (chars : Chars Scanned body) (read : List UInt8) :
    scan (.string read) (body ++ quotation :: rest) =
      .string (read ++ body) :: scan .outside rest := by
  induction chars generalizing read with
  | nil => simp [scan, Place.step]
  | @cons one others char _ ih =>
    have different : escape ≠ quotation := by decide
    obtain ⟨c, rfl, noQuote, noEscape⟩ | ⟨c, rfl⟩ := char
    · simp [scan, Place.step, noQuote, noEscape, ih]
    · simp [scan, Place.step, different, ih]

theorem scan_quoted (chars : Chars Scanned body) :
    scan .outside (quoted body ++ rest) = .string body :: scan .outside rest := by
  have opened : Place.enter quotation = (.string [], []) := by decide
  rw [quoted, List.cons_append, List.append_assoc, scan, Place.step, opened, List.singleton_append,
    scan_string chars]
  rfl

theorem scan_literal (word : Literal) :
    scan .outside (word.text ++ rest) = scan .outside rest := by
  cases word <;> rfl

/-- Derivations with scannable leaves: a scan finds exactly the leaves, and goes on behind the text. -/
theorem Tree.scan_text (tree : Tree rule) (scannable : ∀ leaf ∈ tree.leaves, Scannable leaf)
    (ends : Ends rest) :
    scan .outside (tree.text ++ rest) = tree.leaves ++ scan .outside rest := by
  -- Whatever stands behind a value begins with a space or with a structural character.
  induction tree generalizing rest with
  | literal word => exact scan_literal word
  | number text =>
    obtain ⟨c, others, rfl, starts, goesOn⟩ := scannable (.number text) List.mem_cons_self
    rw [Tree.text, Tree.leaves, List.cons_append, scan, Place.step, enter_of_startsNumber starts,
      List.nil_append, scan_number goesOn ends]
    rfl
  | string body => exact scan_quoted (scannable (.string body) List.mem_cons_self)
  | emptyObject inside =>
    have low := spaces_of_scannable scannable
    rw [Tree.text, Tree.leaves, List.cons_append, scan_structure (by decide), List.append_assoc,
      scan_spaces low, List.singleton_append, scan_structure (by decide)]
  | object members ih =>
    rw [Tree.text, Tree.leaves, List.cons_append, scan_structure (by decide), List.append_assoc,
      List.singleton_append, ih scannable (ends_cons (by decide)), scan_structure (by decide)]
  | emptyArray inside =>
    have low := spaces_of_scannable scannable
    rw [Tree.text, Tree.leaves, List.cons_append, scan_structure (by decide), List.append_assoc,
      scan_spaces low, List.singleton_append, scan_structure (by decide)]
  | array elements ih =>
    rw [Tree.text, Tree.leaves, List.cons_append, scan_structure (by decide), List.append_assoc,
      List.singleton_append, ih scannable (ends_cons (by decide)), scan_structure (by decide)]
  | element before value after ih =>
    simp only [Tree.leaves, List.mem_append, or_imp, forall_and] at scannable
    obtain ⟨first, inner, last⟩ := scannable
    have low := spaces_of_scannable last
    simp only [Tree.text, Tree.leaves, List.append_assoc]
    rw [scan_spaces (spaces_of_scannable first), ih inner (ends_spaces low ends), scan_spaces low]
  | lastElement last ih => exact ih scannable ends
  | moreElements first others ihFirst ihOthers =>
    simp only [Tree.leaves, List.mem_append, or_imp, forall_and] at scannable
    simp only [Tree.text, Tree.leaves, List.append_assoc, List.cons_append]
    rw [ihFirst scannable.1 (ends_cons (by decide)), scan_structure (by decide),
      ihOthers scannable.2 ends]
  | lastMember before name after last ih =>
    simp only [Tree.leaves, List.mem_append, List.mem_cons, or_imp, forall_and, forall_eq]
      at scannable
    obtain ⟨first, chars, inner, others⟩ := scannable
    simp only [Tree.text, Tree.leaves, List.append_assoc, List.cons_append]
    rw [scan_spaces (spaces_of_scannable first), scan_quoted chars,
      scan_spaces (spaces_of_scannable inner), scan_structure (by decide), ih others ends]
  | moreMembers before name after first others ihFirst ihOthers =>
    simp only [Tree.leaves, List.mem_append, List.mem_cons, or_imp, forall_and, forall_eq]
      at scannable
    obtain ⟨spaces, chars, inner, head, tail⟩ := scannable
    simp only [Tree.text, Tree.leaves, List.append_assoc, List.cons_append]
    rw [scan_spaces (spaces_of_scannable spaces), scan_quoted chars,
      scan_spaces (spaces_of_scannable inner), scan_structure (by decide),
      ihFirst head (ends_cons (by decide)), scan_structure (by decide), ihOthers tail ends]

theorem Tree.scan_eq_leaves (tree : Tree rule) (scannable : ∀ leaf ∈ tree.leaves, Scannable leaf) :
    scan .outside tree.text = tree.leaves := by
  have found := tree.scan_text scannable ends_nil
  simpa [scan, Place.last] using found

theorem Tree.leaves_unique (tree tree' : Tree rule)
    (scannable : ∀ leaf ∈ tree.leaves, Scannable leaf)
    (scannable' : ∀ leaf ∈ tree'.leaves, Scannable leaf) (same : tree.text = tree'.text) :
    tree.leaves = tree'.leaves := by
  rw [← tree.scan_eq_leaves scannable, same, tree'.scan_eq_leaves scannable']

end AgentC.JsonText

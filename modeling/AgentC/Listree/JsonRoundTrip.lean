import AgentC.Library.Lists
import AgentC.Listree.JsonLaws

/-! Which values come back from their JSON text, and what becomes of the others. -/

namespace AgentC.Listree

/-- A value whose strings all have their data and whose dictionaries are ordered by name. -/
inductive Proper : ListreeValue → Prop where
  | text (bytes : List UInt8) : Proper (.text bytes)
  | list {children : List ListreeValue} (each : ∀ child ∈ children, Proper child) :
      Proper (.list children)
  | dict {fields : List (Name × ListreeValue)}
      (sorted : fields.Pairwise fun field later => field.1 < later.1)
      (each : ∀ field ∈ fields, Proper field.2) : Proper (.dict fields)

def readBack : Nat → ListreeValue → ListreeValue
  | 0, _ => createNullValue
  | _ + 1, .text bytes => createStringValue bytes
  | _ + 1, .lost length => .lost length
  | remaining + 1, .list children => .list (children.map (readBack remaining))
  | remaining + 1, .dict fields =>
    .dict ((fields.filter fun field => !field.1.isEmpty).map fun field =>
      (field.1, readBack remaining field.2))

/-- A text that is read as a value, whatever follows it, and starts as written values do. -/
structure Token (part : List UInt8) (value : ListreeValue) : Prop where
  starts : ∃ c rest, part = c :: rest ∧ c ∈ [quote, byte '[', byte '{', byte 'n']
  reads : ∀ fuel suffix, 2 * part.length ≤ fuel →
    parseValue fuel (part ++ suffix) = some (value, suffix)

theorem parseElements_tokens {parts : List (List UInt8)} {values : List ListreeValue}
    (tokens : List.Forall₂ Token parts values) (some_ : parts ≠ []) (suffix : List UInt8) :
    ∀ (fuel : Nat) (children : List ListreeValue), 2 * (commaSeparated parts).length < fuel →
      parseElements fuel (commaSeparated parts ++ byte ']' :: suffix) children =
        some (.list (children ++ values), suffix) := by
  induction tokens with
  | nil => exact absurd rfl some_
  | @cons part value parts values token tokens ih =>
    intro fuel children enough
    obtain ⟨fuel, rfl⟩ : ∃ k, fuel = k + 1 := ⟨fuel - 1, by omega⟩
    cases tokens with
    | nil =>
      simp only [commaSeparated] at enough ⊢
      have closing : skipWs (byte ']' :: suffix) = byte ']' :: suffix := skipWs_cons (by decide) _
      rw [parseElements, token.reads fuel _ (by omega)]
      simp only [closing, if_true]
      rw [if_neg (by decide)]
    | @cons next value' parts values token' tokens =>
      simp only [commaSeparated, List.length_append, List.length_cons] at enough
      have comma (rest : List UInt8) : skipWs (byte ',' :: rest) = byte ',' :: rest :=
        skipWs_cons (by decide) _
      have rest := ih (by simp) fuel (children ++ [value]) (by omega)
      rw [commaSeparated, List.append_assoc, List.cons_append, parseElements,
        token.reads fuel _ (by omega)]
      simp only [comma, if_true, rest, List.append_assoc, List.cons_append, List.nil_append]

def memberText (name : Name) (part : List UInt8) : List UInt8 :=
  jsonEscapeString name ++ byte ':' :: part

theorem parseMembers_member {name : Name} {part : List UInt8} {value : ListreeValue}
    (token : Token part value) {fuel : Nat} (enough : 2 * part.length ≤ fuel) (c : UInt8)
    (visible : ¬ c ≤ 0x20) (rest : List UInt8) (items : AATree (List ListreeValue)) :
    parseMembers (fuel + 1) (memberText name part ++ c :: rest) items =
      if c = byte ',' then parseMembers fuel rest (items.addNamedItem name value)
      else if c = byte '}' then some (finishObject (items.addNamedItem name value), rest)
      else none := by
  have opening (rest : List UInt8) :
      skipWs (jsonEscapeString name ++ rest) = jsonEscapeString name ++ rest := by
    simp only [jsonEscapeString, List.cons_append]
    exact skipWs_cons (by decide) _
  have colon (rest : List UInt8) : skipWs (byte ':' :: rest) = byte ':' :: rest :=
    skipWs_cons (by decide) _
  simp only [memberText, List.append_assoc, List.cons_append, parseMembers, opening,
    parseRawString_escape, colon, if_true, token.reads fuel _ enough, skipWs_cons visible]

def MemberToken (text : List UInt8) (field : Name × ListreeValue) : Prop :=
  ∃ part, text = memberText field.1 part ∧ Token part field.2

theorem parseMembers_tokens {texts : List (List UInt8)} {fields : List (Name × ListreeValue)}
    (tokens : List.Forall₂ MemberToken texts fields) (some_ : texts ≠ []) (suffix : List UInt8) :
    ∀ (fuel : Nat) (items : AATree (List ListreeValue)), 2 * (commaSeparated texts).length < fuel →
      parseMembers fuel (commaSeparated texts ++ byte '}' :: suffix) items =
        some (finishObject (fields.foldl (fun items field => items.addNamedItem field.1 field.2)
          items), suffix) := by
  induction tokens with
  | nil => exact absurd rfl some_
  | @cons text field texts fields member tokens ih =>
    intro fuel items enough
    obtain ⟨fuel, rfl⟩ : ∃ k, fuel = k + 1 := ⟨fuel - 1, by omega⟩
    obtain ⟨part, rfl, token⟩ := member
    have longer : part.length ≤ (memberText field.1 part).length := by
      simp only [memberText, List.length_append, List.length_cons]
      omega
    cases tokens with
    | nil =>
      simp only [commaSeparated] at enough ⊢
      rw [parseMembers_member token (by omega) _ (by decide), if_neg (by decide), if_pos rfl]
      rfl
    | @cons next field' texts fields member' tokens =>
      simp only [commaSeparated, List.length_append, List.length_cons] at enough
      have rest := ih (by simp) fuel (items.addNamedItem field.1 field.2) (by omega)
      rw [commaSeparated, List.append_assoc, List.cons_append,
        parseMembers_member token (by omega) _ (by decide), if_pos rfl, rest]
      rfl

theorem token_list {parts : List (List UInt8)} {values : List ListreeValue}
    (tokens : List.Forall₂ Token parts values) :
    Token (byte '[' :: (commaSeparated parts ++ [byte ']'])) (.list values) := by
  refine ⟨⟨_, _, rfl, by simp⟩, fun fuel suffix enough => ?_⟩
  simp only [List.length_cons, List.length_append, List.length_nil] at enough
  obtain ⟨fuel, rfl⟩ : ∃ k, fuel = k + 1 := ⟨fuel - 1, by omega⟩
  have opening (rest : List UInt8) : skipWs (byte '[' :: rest) = byte '[' :: rest :=
    skipWs_cons (by decide) _
  simp only [List.cons_append, List.append_assoc, List.nil_append, parseValue, opening]
  rw [if_neg (by decide), if_neg (by decide), if_pos trivial]
  cases tokens with
  | nil =>
    have closing : skipWs (byte ']' :: suffix) = byte ']' :: suffix := skipWs_cons (by decide) _
    simp only [commaSeparated, List.nil_append, closing, if_true]
  | @cons part value parts values token tokens =>
    -- The first element does not start with a space or the closing bracket.
    have all := List.Forall₂.cons token tokens
    have elements := parseElements_tokens all (by simp) suffix fuel [] (by omega)
    obtain ⟨c, rest, starts, first⟩ := token.starts
    obtain ⟨more, shape⟩ : ∃ more, commaSeparated (part :: parts) = c :: more := by
      cases parts with
      | nil => exact ⟨rest, starts⟩
      | cons next parts => exact ⟨rest ++ byte ',' :: commaSeparated (next :: parts), by
          rw [commaSeparated, starts]
          rfl⟩
    have visible : ¬ c ≤ 0x20 ∧ c ≠ byte ']' := by
      simp only [List.mem_cons, List.not_mem_nil, or_false] at first
      rcases first with rfl | rfl | rfl | rfl <;> decide
    rw [shape] at elements ⊢
    simp only [List.cons_append, skipWs_cons visible.1, visible.2, if_false]
    exact elements

theorem token_object {texts : List (List UInt8)} {fields : List (Name × ListreeValue)}
    (tokens : List.Forall₂ MemberToken texts fields) (some_ : texts ≠ [])
    (sorted : fields.Pairwise fun field later => field.1 < later.1) :
    Token (byte '{' :: (commaSeparated texts ++ [byte '}']))
      (.dict (fields.filter fun field => !field.1.isEmpty)) := by
  refine ⟨⟨_, _, rfl, by simp⟩, fun fuel suffix enough => ?_⟩
  simp only [List.length_cons, List.length_append, List.length_nil] at enough
  obtain ⟨fuel, rfl⟩ : ∃ k, fuel = k + 1 := ⟨fuel - 1, by omega⟩
  have opening (rest : List UInt8) : skipWs (byte '{' :: rest) = byte '{' :: rest :=
    skipWs_cons (by decide) _
  simp only [List.cons_append, List.append_assoc, List.nil_append, parseValue, opening]
  rw [if_neg (by decide), if_pos trivial]
  have members := parseMembers_tokens tokens some_ suffix fuel AATree.new_ (by omega)
  have finished : finishObject (fields.foldl
      (fun items field => items.addNamedItem field.1 field.2) AATree.new_) =
      .dict (fields.filter fun field => !field.1.isEmpty) := by
    rw [finishObject, AATree.entries_foldl_new fields sorted]
    simp [List.filterMap_map, Function.comp_def]
  rw [finished] at members
  -- The first member starts with the quote of its name.
  obtain ⟨more, shape⟩ : ∃ more, commaSeparated texts = quote :: more := by
    cases tokens with
    | nil => exact absurd rfl some_
    | @cons text field texts fields member tokens =>
      obtain ⟨part, rfl, _⟩ := member
      cases texts with
      | nil => exact ⟨_, rfl⟩
      | cons next texts => exact ⟨_, rfl⟩
  rw [shape] at members ⊢
  have visible (rest : List UInt8) : skipWs (quote :: rest) = quote :: rest :=
    skipWs_cons (by decide) _
  simp only [List.cons_append, visible]
  rw [if_neg (by decide)]
  exact members

theorem token_null : Token nullLiteral createNullValue := by
  refine ⟨⟨_, _, rfl, by simp⟩, fun fuel suffix enough => ?_⟩
  obtain ⟨fuel, rfl⟩ : ∃ k, fuel = k + 1 := ⟨fuel - 1, by simp [nullLiteral] at enough; omega⟩
  have opening (rest : List UInt8) : skipWs (byte 'n' :: rest) = byte 'n' :: rest :=
    skipWs_cons (by decide) _
  simp only [nullLiteral, List.cons_append, List.nil_append, parseValue, opening]
  rw [if_neg (by decide), if_neg (by decide), if_neg (by decide), if_pos trivial]
  simp [parseLiteral]

theorem token_text (bytes : List UInt8) : Token (jsonEscapeString bytes) (createStringValue bytes) := by
  refine ⟨⟨_, _, rfl, by simp⟩, fun fuel suffix enough => ?_⟩
  obtain ⟨fuel, rfl⟩ : ∃ k, fuel = k + 1 :=
    ⟨fuel - 1, by simp [jsonEscapeString] at enough; omega⟩
  have opening (rest : List UInt8) : skipWs (quote :: rest) = quote :: rest :=
    skipWs_cons (by decide) _
  have literal := parseRawString_escape bytes suffix
  simp only [jsonEscapeString, List.cons_append] at literal
  simp only [jsonEscapeString, List.cons_append, parseValue, opening, if_true, literal]
  rfl

theorem ltvToJsonHelper_token (remaining : Nat) : ∀ value : ListreeValue, Proper value →
    ∃ out, ltvToJsonHelper remaining value = some out ∧ Token out (readBack remaining value) := by
  -- The induction is on the depth left, since every child is written one level deeper.
  induction remaining with
  | zero => exact fun value _ => ⟨nullLiteral, rfl, token_null⟩
  | succ remaining ih =>
    intro value proper
    cases proper with
    | text bytes => exact ⟨_, rfl, token_text bytes⟩
    | @list children each =>
      obtain ⟨parts, written, tokens⟩ := exists_mapM_forall₂ children
        fun child member => ih child (each child member)
      exact ⟨_, by simp only [ltvToJsonHelper, written, Option.map_some], token_list tokens⟩
    | @dict fields sorted each =>
      by_cases empty : fields = []
      · subst empty
        exact ⟨nullLiteral, rfl, token_null⟩
      · have members : ∃ texts, fields.mapM (fun field =>
              (ltvToJsonHelper remaining field.2).map fun part => memberText field.1 part) = some texts ∧
            List.Forall₂ MemberToken texts
              (fields.map fun field => (field.1, readBack remaining field.2)) :=
          exists_mapM_forall₂ fields fun field member => by
            obtain ⟨part, out, token⟩ := ih field.2 (each field member)
            exact ⟨_, by rw [out]; rfl, part, rfl, token⟩
        obtain ⟨texts, written, tokens⟩ := members
        have nonempty : texts ≠ [] := by
          rintro rfl
          have none_ := List.forall₂_nil_left_iff.mp tokens
          exact empty (List.map_eq_nil_iff.mp none_)
        have ordered : (fields.map fun field => (field.1, readBack remaining field.2)).Pairwise
            fun field later => field.1 < later.1 := List.pairwise_map.mpr sorted
        have object := token_object tokens nonempty ordered
        rw [List.filter_map] at object
        refine ⟨byte '{' :: (commaSeparated texts ++ [byte '}']), ?_, object⟩
        simp only [memberText] at written
        simp only [ltvToJsonHelper, List.isEmpty_iff, empty, if_false, written, Option.map_some]

theorem fromJson_toJson (value : ListreeValue) (proper : Proper value) :
    ∃ out, toJson value = some out ∧ fromJson out = some (readBack 257 value) := by
  obtain ⟨out, written, token⟩ := ltvToJsonHelper_token 257 value proper
  refine ⟨out, written, ?_⟩
  have read := token.reads (2 * out.length + 2) [] (by omega)
  rw [List.append_nil] at read
  simp [fromJson, read, skipWs]

def RoundTrips (value : ListreeValue) : Prop :=
  ∃ out, toJson value = some out ∧ fromJson out = some value

def Fits : Nat → ListreeValue → Prop
  | 0, value => value = createNullValue
  | _ + 1, .text bytes => bytes.length ≤ kBlobSlabBytes
  | _ + 1, .lost _ => False
  | remaining + 1, .list children => ∀ child ∈ children, Fits remaining child
  | remaining + 1, .dict fields => ∀ field ∈ fields, field.1 ≠ [] ∧ Fits remaining field.2

theorem map_eq_self {α : Type} {f : α → α} {items : List α} :
    items.map f = items ↔ ∀ x ∈ items, f x = x := by
  have pointwise := List.map_inj_left (l := items) (f := f) (g := id)
  rwa [List.map_id] at pointwise

theorem readBack_eq_iff (remaining : Nat) : ∀ value : ListreeValue, Proper value →
    (readBack remaining value = value ↔ Fits remaining value) := by
  induction remaining with
  | zero => exact fun value _ => eq_comm
  | succ remaining ih =>
    intro value proper
    cases proper with
    | text bytes =>
      simp only [readBack, Fits, createStringValue]
      split <;> simp_all
    | @list children each =>
      simp only [readBack, Fits, ListreeValue.list.injEq]
      rw [map_eq_self]
      exact forall₂_congr fun child member => ih child (each child member)
    | @dict fields sorted each =>
      simp only [readBack, Fits, ListreeValue.dict.injEq]
      constructor
      · intro same
        -- Nothing was filtered out, since nothing is missing.
        have lengths := congrArg List.length same
        rw [List.length_map] at lengths
        have named := List.length_filter_eq_length_iff.mp lengths
        rw [List.filter_eq_self.mpr named, map_eq_self] at same
        intro field member
        have value := congrArg Prod.snd (same field member)
        exact ⟨by simpa using named field member, (ih field.2 (each field member)).mp value⟩
      · intro fits
        have named : fields.filter (fun field => !field.1.isEmpty) = fields :=
          List.filter_eq_self.mpr fun field member => by simp [(fits field member).1]
        rw [named, map_eq_self]
        intro field member
        rw [(ih field.2 (each field member)).mpr (fits field member).2]

theorem roundTrips_iff_readBack (value : ListreeValue) (proper : Proper value) :
    RoundTrips value ↔ readBack 257 value = value := by
  obtain ⟨out, written, read⟩ := fromJson_toJson value proper
  constructor
  · rintro ⟨out', written', read'⟩
    rw [written] at written'
    cases written'
    exact Option.some.inj (read.symm.trans read')
  · intro same
    exact ⟨out, written, by rw [read, same]⟩

/-- A proper value comes back from its JSON text exactly when it fits. -/
theorem roundTrips_iff_fits (value : ListreeValue) (proper : Proper value) :
    RoundTrips value ↔ Fits 257 value :=
  (roundTrips_iff_readBack value proper).trans (readBack_eq_iff 257 value proper)

/-- An object with an escaped string, a list and a null comes back. -/
theorem roundTrips_iff_fits_nested :
    RoundTrips (.dict [([97], .text [0x22, 0x0A, 0x01]), ([98], .list [.text [], .dict []])]) := by
  refine (roundTrips_iff_fits _ (.dict (by decide) ?_)).mpr ?_
  · simp only [List.forall_mem_cons, List.not_mem_nil, false_implies, implies_true, and_true]
    refine ⟨.text _, .list ?_⟩
    simp only [List.forall_mem_cons, List.not_mem_nil, false_implies, implies_true, and_true]
    exact ⟨.text _, .dict .nil (by simp)⟩
  · simp [Fits, kBlobSlabBytes]

/-- A field with the empty name is written first, and is then lost in the nameless node. -/
theorem roundTrips_fails_for_empty_name :
    ¬ ∀ value, Proper value → RoundTrips value := by
  intro every
  -- The dictionary can be built, by adding the empty name after another one.
  let value := finishObject ((AATree.new_.addNamedItem [98] (.text [49])).addNamedItem [] (.text [50]))
  have shape : value = .dict [([], .text [50]), ([98], .text [49])] := by
    simp +decide [value, finishObject, AATree.new_, AATree.addNamedItem, AATree.add,
      AATree.place, AATree.alter, AATree.entries]
  have proper : Proper value := by
    rw [shape]
    refine .dict (by decide) ?_
    simp only [List.forall_mem_cons, List.not_mem_nil, false_implies, implies_true, and_true]
    exact ⟨.text _, .text _⟩
  have same := (roundTrips_iff_readBack value proper).mp (every value proper)
  rw [shape] at same
  simp [readBack] at same

end AgentC.Listree

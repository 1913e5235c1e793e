import AgentC.Library.JsonMembers
import AgentC.Listree.JsonConformance
import AgentC.Root1.Manifests

/-! What a manifest says of a publication, against what its text is searched for. -/

namespace AgentC.Root1

open JsonText

def PublicationPermission.text : PublicationPermission → Option Bytes
  | .none => Option.none
  | .readOnly => some (ascii "read_only")

inductive FieldValue where
  | number (value : Nat)
  | string (value : Bytes)
  | boolean (value : Bool)
  | permission (value : PublicationPermission)
  deriving DecidableEq

namespace FieldValue

def Is : FieldValue → Tree .value → Prop
  | .number value, .number text => numberValue text = value
  | .string value, .string body => decode none body = value
  | .boolean value, .literal word => word.text = ascii (if value then "true" else "false")
  | .permission value, .string body => value.text = some (decode none body)
  | _, _ => False

end FieldValue

structure NamedField where
  name : Bytes
  value : FieldValue
  /-- What the text is searched for behind the name and its colon. -/
  written : Bytes

namespace NamedField

def ofNumber (name : String) (value : Nat) : NamedField :=
  ⟨ascii name, .number value, decimal value⟩

def HeldBy (field : NamedField) (manifest : Tree .element) : Prop :=
  ∃ value, manifest.inner.lookup field.name = some value ∧ field.value.Is value

end NamedField

def namedFields (publication : PublicationDescriptor) : List NamedField :=
  [.ofNumber "layer_id" publication.layerId.toNat,
    .ofNumber "epoch" publication.epoch.toNat,
    ⟨ascii "permission", .permission publication.permission, quoted (ascii "read_only")⟩,
    ⟨ascii "immutable", .boolean publication.immutable, ascii "true"⟩] ++
  (if publication.rootDescriptor.isEmpty then [] else
    [⟨ascii "root_descriptor", .string publication.rootDescriptor,
      quoted publication.rootDescriptor⟩]) ++
  [.ofNumber "root_layer_id" publication.layerId.toNat,
    .ofNumber "root_slab_id" publication.rootHandle.slabId.toNat,
    .ofNumber "root_offset" publication.rootHandle.offset.toNat,
    .ofNumber "root_generation" publication.rootHandle.generation.toNat]

/-- A manifest is accepted exactly when every named field has the value of the publication. -/
def AcceptsMatching (manifest : Tree .element) (publication : PublicationDescriptor) : Prop :=
  manifestContainsPublicationMetadata manifest.text publication = .ok () ↔
    ∀ field ∈ namedFields publication, field.HeldBy manifest

theorem manifestContainsPublicationMetadata_eq_ok (manifest : Bytes)
    (publication : PublicationDescriptor) :
    manifestContainsPublicationMetadata manifest publication = .ok () ↔
      ∀ field ∈ namedFields publication,
        (quoted field.name ++ 0x3A :: field.written) <:+: manifest := by
  unfold manifestContainsPublicationMetadata namedFields
  simp only [require_bind, require_eq_ok, finds, jsonNumberField,
    jsonStringField, fieldName, NamedField.ofNumber, Bool.or_eq_true]
  by_cases empty : publication.rootDescriptor.isEmpty = true
  · simp [empty, quoted, quotation]
  · simp [empty, quoted, quotation]

theorem namedFields_plain (publication : PublicationDescriptor) {field : NamedField}
    (listed : field ∈ namedFields publication) : Plain field.name := by
  simp only [namedFields, NamedField.ofNumber] at listed
  split at listed
  all_goals
    simp only [List.mem_append, List.mem_cons, List.not_mem_nil, or_false, or_assoc] at listed
    rcases listed with rfl | rfl | rfl | rfl | rfl | rfl | rfl | rfl | rfl
    all_goals
      change Plain (ascii _)
      decide

namespace NamedField

def WrittenIn (field : NamedField) (manifest : Tree .element) : Prop :=
  manifest.Spells field.name field.written

end NamedField

/--
A manifest is accepted rightly exactly when all named fields are both as the publication has them
and written without a space, or when one is not as the publication has it and one is not written.
-/
theorem acceptsMatching_iff (manifest : Tree .element) (publication : PublicationDescriptor)
    (json : ∀ leaf ∈ manifest.leaves, Rfc8259 leaf) :
    AcceptsMatching manifest publication ↔
      (∀ field ∈ namedFields publication, field.HeldBy manifest ∧ field.WrittenIn manifest) ∨
        ((∃ field ∈ namedFields publication, ¬field.HeldBy manifest) ∧
          ∃ field ∈ namedFields publication, ¬field.WrittenIn manifest) := by
  have scannable : ∀ leaf ∈ manifest.leaves, Scannable leaf := fun leaf inside =>
    Listree.scannable_of_accepted (Listree.accepted_of_rfc8259 (json leaf inside))
  -- The search looks for the text of a member, which stands only where a member does.
  have passes : manifestContainsPublicationMetadata manifest.text publication = .ok () ↔
      ∀ field ∈ namedFields publication, field.WrittenIn manifest := by
    rw [manifestContainsPublicationMetadata_eq_ok]
    constructor
    · intro found field listed
      exact (manifest.infix_text_iff (namedFields_plain publication listed) scannable).mp
        (found field listed)
    · intro written field listed
      exact (manifest.infix_text_iff (namedFields_plain publication listed) scannable).mpr
        (written field listed)
  rw [AcceptsMatching, passes]
  constructor
  · intro matching
    by_cases held : ∀ field ∈ namedFields publication, field.HeldBy manifest
    · exact Or.inl fun field listed => ⟨held field listed, matching.mpr held field listed⟩
    · refine Or.inr ⟨by simpa using held, ?_⟩
      by_contra none
      exact held (matching.mp (by simpa using none))
  · rintro (both | ⟨⟨other, listed, unheld⟩, ⟨missing, listed', unwritten⟩⟩)
    · exact ⟨fun _ field listed => (both field listed).1, fun _ field listed => (both field listed).2⟩
    · exact ⟨fun written => absurd (written missing listed') unwritten,
        fun held => absurd (held other listed) unheld⟩

/-! A manifest of a later epoch. -/

def isSimple : Leaf → Bool
  | .space _ => false
  | .number text => text.all isDigit && (text.head?.any fun c => decide (0x31 ≤ c))
  | .string body => body.all fun c =>
    decide (0x20 ≤ c) && decide (c < 0x7F) && c != quotation && c != escape

theorem rfc8259_of_isSimple {leaf : Leaf} (simple : isSimple leaf = true) : Rfc8259 leaf := by
  cases leaf with
  | space c => simp [isSimple] at simple
  | number text =>
    simp only [isSimple, Bool.and_eq_true, List.all_eq_true] at simple
    obtain ⟨digits, first⟩ := simple
    cases text with
    | nil => simp at first
    | cons c rest =>
      -- The whole number is its integer part.
      have digit : ∀ d ∈ c :: rest, 0x30 ≤ d ∧ d ≤ 0x39 := fun d inside => by
        have is := digits d inside
        simp only [isDigit, Bool.and_eq_true, decide_eq_true_eq] at is
        exact is
      have above : 0x31 ≤ c := by simpa using first
      exact ⟨[], c :: rest, [], [], by simp, Or.inl rfl, Or.inr ⟨c, rest, rfl,
        ⟨above, (digit c List.mem_cons_self).2⟩,
        fun d inside => digit d (List.mem_cons_of_mem c inside)⟩, Or.inl rfl, Or.inl rfl⟩
  | string body =>
    simp only [isSimple, List.all_eq_true, Bool.and_eq_true, decide_eq_true_eq, bne_iff_ne] at simple
    have each : ∀ c ∈ body, Unescaped [c] ∨ Escaped [c] := by
      intro c inside
      obtain ⟨⟨⟨low, high⟩, noQuote⟩, noEscape⟩ := simple c inside
      have ascii : ∀ n, n < 0x7F → String.utf8EncodeChar (Char.ofNat n) = [UInt8.ofNat n] ∧
          (Char.ofNat n).toNat = n := by
        decide +kernel
      obtain ⟨encoded, same⟩ := ascii c.toNat high
      rw [UInt8.ofNat_toNat] at encoded
      refine Or.inl ⟨Char.ofNat c.toNat, ?_, ?_, ?_, encoded.symm⟩
      · rw [same]
        exact low
      · rw [same]
        exact fun is => noQuote (UInt8.toNat_inj.mp is)
      · rw [same]
        exact fun is => noEscape (UInt8.toNat_inj.mp is)
    have whole := @Chars.of_bytes (fun char => Unescaped char ∨ Escaped char) body [] each Chars.nil
    rwa [List.append_nil] at whole

def compactMembers (first : Bytes × Tree .value) : List (Bytes × Tree .value) → Tree .members
  | [] => .lastMember [] first.1 [] (.element [] first.2 [])
  | second :: rest =>
    .moreMembers [] first.1 [] (.element [] first.2 []) (compactMembers second rest)

def twelfthManifest : Tree .element :=
  .element [] (.object (compactMembers (ascii "layer_id", .number (ascii "1"))
    [(ascii "epoch", .number (ascii "12")), (ascii "permission", .string (ascii "read_only")),
      (ascii "immutable", .literal .true), (ascii "root_layer_id", .number (ascii "1")),
      (ascii "root_slab_id", .number (ascii "1")), (ascii "root_offset", .number (ascii "1")),
      (ascii "root_generation", .number (ascii "1"))])) []

def firstPublication : PublicationDescriptor :=
  { layerId := 1, epoch := 1, rootHandle := { slabId := 1, offset := 1, generation := 1 } }

theorem twelfthManifest_leaves : ∀ leaf ∈ twelfthManifest.leaves, Rfc8259 leaf := by
  have simple : twelfthManifest.leaves.all isSimple = true := by decide
  exact fun leaf inside => rfc8259_of_isSimple (List.all_eq_true.mp simple leaf inside)

/-- The criterion applies to the manifest. -/
theorem acceptsMatching_iff_twelfth : AcceptsMatching twelfthManifest firstPublication ↔
    (∀ field ∈ namedFields firstPublication,
        field.HeldBy twelfthManifest ∧ field.WrittenIn twelfthManifest) ∨
      ((∃ field ∈ namedFields firstPublication, ¬field.HeldBy twelfthManifest) ∧
        ∃ field ∈ namedFields firstPublication, ¬field.WrittenIn twelfthManifest) :=
  acceptsMatching_iff twelfthManifest firstPublication twelfthManifest_leaves

/-- A manifest of epoch twelve is accepted for a publication of epoch one. -/
theorem acceptsMatching_fails : ∃ (manifest : Tree .element) (publication : PublicationDescriptor),
    IsJsonText manifest.text ∧ (∃ members, manifest.inner = .object members) ∧
      ¬AcceptsMatching manifest publication := by
  refine ⟨twelfthManifest, firstPublication, ⟨twelfthManifest, rfl, twelfthManifest_leaves⟩,
    ⟨_, rfl⟩, fun matching => ?_⟩
  have accepted : manifestContainsPublicationMetadata twelfthManifest.text firstPublication = .ok () := by
    decide +kernel
  have listed : NamedField.ofNumber "epoch" 1 ∈ namedFields firstPublication :=
    List.mem_append_left _ (List.mem_append_left _ (List.mem_cons_of_mem _ List.mem_cons_self))
  -- The epoch of the manifest is another number.
  obtain ⟨value, found, is⟩ := matching.mp accepted _ listed
  have stored : (twelfthManifest.inner.lookup (ascii "epoch")).map Tree.text = some (ascii "12") := by
    decide +kernel
  have same : value.text = ascii "12" := Option.some.inj ((congrArg _ found).symm.trans stored)
  cases value with
  | number text =>
    have one : numberValue text = ((1 : Nat) : Rat) := is
    have twelve : numberValue (ascii "12") = 12 := by decide +kernel
    rw [show text = ascii "12" from same, twelve] at one
    exact absurd one (by decide +kernel)
  | _ => exact is

end AgentC.Root1

import Mathlib.Data.List.Forall2
import AgentC.Listree.Tree

/-! The names of sessions, and the directories that they stand for. -/

namespace AgentC.Persistence

/-- `isalnum` in the locale that programs start with. -/
def isalnum (ch : UInt8) : Bool :=
  (0x30 ≤ ch && ch ≤ 0x39) || (0x41 ≤ ch && ch ≤ 0x5A) || (0x61 ≤ ch && ch ≤ 0x7A)

def isKept (ch : UInt8) : Bool :=
  isalnum ch || ch == 0x2D || ch == 0x5F || ch == 0x2E

/-- `sanitize_session_name`. -/
def sanitizeSessionName (value : List UInt8) : List UInt8 :=
  if value.isEmpty then ascii "default"
  else
    let value := value.map fun ch => if isKept ch then ch else 0x5F
    if value.isEmpty then ascii "default" else value

abbrev Location := List (List UInt8)

def enter (directory : Location) (name : List UInt8) : Location :=
  if name = ascii "." then directory
  else if name = ascii ".." then directory.dropLast
  else directory ++ [name]

/-- The directory of `sessionPath`. Both stores sanitize the name, the second one what the first left. -/
def sessionPath (root : Location) (sessionName : List UInt8) : Location :=
  enter root (sanitizeSessionName (sanitizeSessionName sessionName))

def Inside (directory path : Location) : Prop :=
  directory <+: path

abbrev Files := Location → Option (List UInt8)

/-- What `remove_all` leaves of the files. -/
def removeAll (directory : Location) (files : Files) : Files := fun path =>
  if directory.isPrefixOf path then none else files path

def StrictlyInside (directory path : Location) : Prop :=
  Inside directory path ∧ path ≠ directory

/-- What is promised of two session names. A save of a session changes files of its directory. -/
structure Isolated (root : Location) (s t : List UInt8) : Prop where
  below : StrictlyInside root (sessionPath root s)
  below' : StrictlyInside root (sessionPath root t)
  apart : s ≠ t → ¬Inside (sessionPath root s) (sessionPath root t) ∧
    ¬Inside (sessionPath root t) (sessionPath root s)
  cleared : ∀ files path, ¬StrictlyInside root path → removeAll (sessionPath root s) files path = files path
  loaded : s ≠ t → ∀ files files' : Files,
    (∀ path, ¬Inside (sessionPath root s) path → files' path = files path) →
      ∀ path, Inside (sessionPath root t) path → files' path = files path

def given (value : List UInt8) : List UInt8 :=
  if value.isEmpty then ascii "default" else value

def Confused (a b : UInt8) : Prop :=
  a = b ∨ ((isKept a = false ∨ a = 0x5F) ∧ (isKept b = false ∨ b = 0x5F))

def Alike (s t : List UInt8) : Prop :=
  List.Forall₂ Confused (given s) (given t)

def Plain (value : List UInt8) : Prop :=
  value ≠ ascii "." ∧ value ≠ ascii ".."

section Names

variable {value s t : List UInt8} {root : Location}

def keep (ch : UInt8) : UInt8 :=
  if isKept ch then ch else 0x5F

theorem keep_eq_underscore_iff (ch : UInt8) : keep ch = 0x5F ↔ isKept ch = false ∨ ch = 0x5F := by
  unfold keep
  split
  next kept => simp [kept]
  next replaced => simp [replaced]

theorem keep_eq_iff {ch kept : UInt8} (apart : kept ≠ 0x5F) (allowed : isKept kept = true) :
    keep ch = kept ↔ ch = kept := by
  unfold keep
  split
  next => rfl
  next replaced =>
    exact ⟨fun same => absurd same.symm apart, fun same => absurd (same ▸ allowed) replaced⟩

theorem keep_eq_keep_iff (a b : UInt8) : keep a = keep b ↔ Confused a b := by
  unfold Confused
  rw [← keep_eq_underscore_iff, ← keep_eq_underscore_iff]
  constructor
  · intro same
    by_cases replaced : keep a = 0x5F
    · exact .inr ⟨replaced, same ▸ replaced⟩
    · -- Neither is replaced, so that both stand for themselves.
      have kept : ∀ ch, keep ch ≠ 0x5F → keep ch = ch := by
        intro ch other
        have kept : isKept ch = true := by
          by_contra lost
          exact other ((keep_eq_underscore_iff ch).mpr (.inl (by simpa using lost)))
        exact if_pos kept
      exact .inl ((kept a replaced).symm.trans (same.trans (kept b (same ▸ replaced))))
  · rintro (same | ⟨first, second⟩)
    · rw [same]
    · rw [first, second]

theorem keep_keep (ch : UInt8) : keep (keep ch) = keep ch := by
  by_cases kept : isKept ch = true
  · have same : keep ch = ch := if_pos kept
    rw [same, same]
  · have replaced : keep ch = 0x5F := if_neg kept
    rw [replaced]
    decide

theorem sanitize_eq (value : List UInt8) : sanitizeSessionName value = (given value).map keep := by
  unfold sanitizeSessionName given
  cases value with
  | nil => decide
  | cons ch rest => rfl

theorem sanitize_sanitize (value : List UInt8) :
    sanitizeSessionName (sanitizeSessionName value) = sanitizeSessionName value := by
  have filled : (sanitizeSessionName value).isEmpty = false := by
    rw [sanitize_eq]
    cases value with
    | nil => decide
    | cons ch rest => rfl
  rw [sanitize_eq (sanitizeSessionName value), given, filled, if_neg (by decide), sanitize_eq, List.map_map]
  exact List.map_congr_left fun ch _ => keep_keep ch

theorem sanitize_eq_iff : sanitizeSessionName s = sanitizeSessionName t ↔ Alike s t := by
  rw [sanitize_eq, sanitize_eq, Alike, ← List.forall₂_eq_eq_eq, List.forall₂_map_left_iff,
    List.forall₂_map_right_iff]
  simp only [keep_eq_keep_iff]

theorem sanitize_eq_dots (count : Nat) (filled : 0 < count) :
    sanitizeSessionName value = List.replicate count 0x2E ↔ value = List.replicate count 0x2E := by
  have dots : ∀ list : List UInt8, list.map keep = List.replicate count 0x2E ↔ list = List.replicate count 0x2E := by
    intro list
    simp only [List.eq_replicate_iff, List.length_map, List.mem_map, forall_exists_index, and_imp,
      forall_apply_eq_imp_iff₂]
    exact and_congr_right fun _ => forall₂_congr fun ch _ => keep_eq_iff (by decide) (by decide)
  rw [sanitize_eq, dots]
  cases value with
  | nil =>
    -- The name that stands for none has other characters.
    obtain ⟨count, rfl⟩ := Nat.exists_eq_add_of_le' filled
    constructor
    · intro same
      have first := congrArg List.head? same
      cases first
    · intro same
      cases same
  | cons ch rest => exact Iff.rfl

theorem sessionPath_of_plain (plain : Plain value) :
    sessionPath root value = root ++ [sanitizeSessionName value] := by
  unfold sessionPath enter
  have dot : sanitizeSessionName value = ascii "." ↔ value = ascii "." := sanitize_eq_dots 1 (by decide)
  have dots : sanitizeSessionName value = ascii ".." ↔ value = ascii ".." := sanitize_eq_dots 2 (by decide)
  rw [sanitize_sanitize, if_neg fun same => plain.1 (dot.mp same),
    if_neg fun same => plain.2 (dots.mp same)]

theorem strictlyInside_iff : StrictlyInside root (sessionPath root value) ↔ Plain value := by
  constructor
  · rintro ⟨inside, other⟩
    refine ⟨fun dot => ?_, fun dots => ?_⟩
    · subst dot
      exact other rfl
    · -- The parent of the root is shorter than the root, unless it is the root.
      subst dots
      have parent : sessionPath root (ascii "..") = root.dropLast := rfl
      rw [parent] at inside other
      have lengths := inside.length_le
      rw [List.length_dropLast] at lengths
      have empty : root = [] := List.length_eq_zero_iff.mp (by omega)
      exact other (by rw [empty]; rfl)
  · intro plain
    rw [sessionPath_of_plain plain]
    refine ⟨List.prefix_append _ _, fun same => ?_⟩
    have lengths := congrArg List.length same
    simp at lengths

theorem inside_iff (plain : Plain s) (plain' : Plain t) :
    Inside (sessionPath root s) (sessionPath root t) ↔ Alike s t := by
  rw [sessionPath_of_plain plain, sessionPath_of_plain plain', Inside, List.prefix_append_right_inj]
  rw [← sanitize_eq_iff]
  constructor
  · intro inside
    exact List.singleton_inj.mp (inside.eq_of_length rfl)
  · intro same
    rw [same]

theorem Alike.symm (alike : Alike s t) : Alike t s :=
  sanitize_eq_iff.mp (sanitize_eq_iff.mpr alike).symm

end Names

/--
Two names are isolated, exactly if neither of them is one or two dots, and they are not alike.

Names are alike when they agree up to the characters that are replaced by underscores.
-/
theorem isolated_iff (root : Location) (s t : List UInt8) :
    Isolated root s t ↔ Plain s ∧ Plain t ∧ (s ≠ t → ¬Alike s t) := by
  constructor
  · intro isolated
    have plain := strictlyInside_iff.mp isolated.below
    have plain' := strictlyInside_iff.mp isolated.below'
    exact ⟨plain, plain', fun apart alike => (isolated.apart apart).1 ((inside_iff plain plain').mpr alike)⟩
  · rintro ⟨plain, plain', distinct⟩
    refine ⟨strictlyInside_iff.mpr plain, strictlyInside_iff.mpr plain', fun apart => ?_, ?_, ?_⟩
    · refine ⟨fun inside => distinct apart ((inside_iff plain plain').mp inside), fun inside => ?_⟩
      exact distinct apart ((inside_iff plain' plain).mp inside).symm
    · -- What is cleared is inside the session's directory, which is inside the root.
      intro files path outside
      unfold removeAll
      split
      next reached =>
        obtain ⟨below, other⟩ := strictlyInside_iff.mpr plain
        have reached := List.isPrefixOf_iff_prefix.mp reached
        refine absurd ⟨List.IsPrefix.trans below reached, fun same => other ?_⟩ outside
        have longest : (sessionPath root s).length ≤ root.length := same ▸ reached.length_le
        exact (List.IsPrefix.eq_of_length_le below longest).symm
      next => rfl
    · intro apart files files' changed path inside
      refine changed path fun reached => distinct apart ?_
      -- Two directories on the way to one file are inside each other.
      rcases List.prefix_or_prefix_of_prefix reached inside with nested | nested
      · exact (inside_iff plain plain').mp nested
      · exact ((inside_iff plain' plain).mp nested).symm

/-- Clearing the session of two dots clears what is beside the root. -/
theorem isolated_fails : ∃ root : Location, ∃ s t : List UInt8, s ≠ t ∧ ¬Isolated root s t ∧
    ∃ (files : Files) (path : Location), ¬Inside root path ∧ files path = some [] ∧
      removeAll (sessionPath root s) files path = none := by
  refine ⟨[ascii "state", ascii "sessions"], ascii "..", ascii "main", by decide, ?_, fun _ => some [],
    [ascii "state", ascii "other"], ?_, rfl, rfl⟩
  · intro isolated
    exact (strictlyInside_iff.mp isolated.below).2 rfl
  · unfold Inside
    decide

end AgentC.Persistence

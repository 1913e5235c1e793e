import AgentC.Library.Readers

/-!
Decoding that says how it went: a value, a refusal, an exception or a read outside the text.

Sizes are computed in words of 64 bits, and a decoding remembers whether one of them wrapped.
-/

namespace AgentC

universe u

/-- What ends a decoding before it has its value. -/
inductive Stop
  | refused
  | thrown
  | outside
  deriving DecidableEq, Repr

/-- A decoding that has run: how it ended, and whether a size wrapped on the way. -/
structure Decoding (α : Type u) where
  ended : Except Stop α
  wrapped : Bool

namespace Decoding

variable {α β : Type u}

instance : Monad Decoding where
  pure value := ⟨.ok value, false⟩
  bind first next :=
    match first.ended with
    | .error stop => ⟨.error stop, first.wrapped⟩
    -- A size that wrapped is not forgotten, however the decoding goes on.
    | .ok value => ⟨(next value).ended, first.wrapped || (next value).wrapped⟩

def value (decoding : Decoding α) : Option α :=
  decoding.ended.toOption

def stop (reason : Stop) : Decoding α :=
  ⟨.error reason, false⟩

def ofOption : Option α → Decoding α
  | none => stop .refused
  | some value => pure value

def refuseIf (wrong : Prop) [Decidable wrong] : Decoding Unit :=
  if wrong then stop .refused else pure ()

def sizeT (size : Nat) : Decoding Nat :=
  ⟨.ok (size % 2 ^ 64), decide (2 ^ 64 ≤ size)⟩

def remaining (text : List UInt8) (cursor : Nat) : Decoding Nat :=
  ⟨.ok ((2 ^ 64 + text.length - cursor) % 2 ^ 64), decide (text.length < cursor)⟩

def allocate (memory most width count : Nat) : Decoding Unit :=
  if count ≤ most ∧ width * count ≤ memory then pure () else stop .thrown

def copy (text : List UInt8) (cursor count : Nat) : Decoding (List UInt8) :=
  if cursor + count ≤ text.length then pure ((text.drop cursor).take count) else stop .outside

def word (text : List UInt8) (cursor width : Nat) : Decoding Nat := do
  let bytes ← copy text cursor width
  return ofWordBytes bytes

def many (read : Nat → Decoding (α × Nat)) : Nat → Nat → Decoding (List α × Nat)
  | 0, cursor => pure ([], cursor)
  | count + 1, cursor => do
    let (value, cursor) ← read cursor
    let (values, cursor) ← many read count cursor
    return (value :: values, cursor)

/-- A decoding that gave a value or refused the text, and whose sizes are the true ones. -/
structure Harmless (decoding : Decoding α) : Prop where
  exact : decoding.wrapped = false
  caught : decoding.ended ≠ .error .thrown
  inside : decoding.ended ≠ .error .outside

section Rules

variable {first : Decoding α} {next : α → Decoding β}

@[simp] theorem pure_bind (a : α) (next : α → Decoding β) : (pure a : Decoding α) >>= next = next a := rfl

@[simp] theorem stop_bind (reason : Stop) (next : α → Decoding β) :
    (stop reason : Decoding α) >>= next = stop reason := rfl

@[simp] theorem value_pure (a : α) : (pure a : Decoding α).value = some a := rfl

@[simp] theorem value_ofOption (found : Option α) : (ofOption found).value = found := by
  cases found <;> rfl

@[simp] theorem harmless_pure (a : α) : (pure a : Decoding α).Harmless :=
  ⟨rfl, nofun, nofun⟩

@[simp] theorem harmless_ofOption (found : Option α) : (ofOption found).Harmless := by
  cases found with
  | none => exact ⟨rfl, nofun, nofun⟩
  | some a => exact harmless_pure a

@[simp] theorem not_harmless_thrown : ¬(stop .thrown : Decoding α).Harmless :=
  fun harmless => harmless.caught rfl

theorem pure_inj {a b : α} : (pure a : Decoding α) = pure b ↔ a = b := by
  refine ⟨fun same => ?_, congrArg pure⟩
  exact Except.ok.inj (congrArg ended same)

theorem bind_assoc {γ : Type u} (rest : β → Decoding γ) :
    first >>= next >>= rest = first >>= fun a => next a >>= rest := by
  obtain ⟨ended, wrapped⟩ := first
  cases ended with
  | error reason => rfl
  | ok a =>
    cases known : next a with
    | mk ended other =>
      cases ended with
      | error reason => simp only [bind, known]
      | ok b => simp only [bind, known, Bool.or_assoc]

theorem value_bind : (first >>= next).value = first.value.bind fun a => (next a).value := by
  obtain ⟨ended, wrapped⟩ := first
  cases ended <;> rfl

theorem inside_bind : (first >>= next).ended ≠ .error .outside ↔
    first.ended ≠ .error .outside ∧ ∀ a, first.value = some a → (next a).ended ≠ .error .outside := by
  obtain ⟨ended, wrapped⟩ := first
  cases ended with
  | error reason =>
    -- The second part does not run, and the end of the first is the end of both.
    refine ⟨fun inside => ⟨fun same => ?_, nofun⟩, fun both same => ?_⟩
    · exact inside (congrArg Except.error (Except.error.inj same))
    · exact both.1 (congrArg Except.error (Except.error.inj same))
  | ok a =>
    refine ⟨fun inside => ⟨nofun, fun b same => ?_⟩, fun both => both.2 a rfl⟩
    cases same
    exact inside

theorem harmless_bind :
    (first >>= next).Harmless ↔
      first.Harmless ∧ ∀ a, first.value = some a → (next a).Harmless := by
  obtain ⟨ended, wrapped⟩ := first
  cases ended with
  | error reason =>
    -- The second part does not run, and the end of the first is the end of both.
    have nothing : (⟨.error reason, wrapped⟩ : Decoding α).value = none := rfl
    rw [nothing]
    refine ⟨fun ⟨exact, caught, inside⟩ => ⟨⟨exact, ?_, ?_⟩, nofun⟩,
      fun ⟨⟨exact, caught, inside⟩, _⟩ => ⟨exact, ?_, ?_⟩⟩
    · exact fun same => caught (congrArg Except.error (Except.error.inj same))
    · exact fun same => inside (congrArg Except.error (Except.error.inj same))
    · exact fun same => caught (congrArg Except.error (Except.error.inj same))
    · exact fun same => inside (congrArg Except.error (Except.error.inj same))
  | ok a =>
    have given : (⟨.ok a, wrapped⟩ : Decoding α).value = some a := rfl
    rw [given]
    constructor
    · rintro ⟨exact, caught, inside⟩
      obtain ⟨own, other⟩ := Bool.or_eq_false_iff.mp exact
      refine ⟨⟨own, nofun, nofun⟩, ?_⟩
      intro b same
      cases same
      exact ⟨other, caught, inside⟩
    · rintro ⟨own, others⟩
      obtain ⟨exact, caught, inside⟩ := others a rfl
      exact ⟨Bool.or_eq_false_iff.mpr ⟨own.exact, exact⟩, caught, inside⟩

theorem harmless_sizeT (size : Nat) : (sizeT size).Harmless ↔ size < 2 ^ 64 := by
  constructor
  · intro harmless
    exact Nat.not_le.mp (of_decide_eq_false harmless.exact)
  · intro fits
    exact ⟨decide_eq_false (Nat.not_le.mpr fits), nofun, nofun⟩

theorem sizeT_of_lt {size : Nat} (fits : size < 2 ^ 64) : sizeT size = pure size := by
  unfold sizeT
  rw [Nat.mod_eq_of_lt fits, decide_eq_false (Nat.not_le.mpr fits)]
  rfl

theorem refuseIf_of {wrong : Prop} [Decidable wrong] (holds : wrong) : refuseIf wrong = stop .refused :=
  if_pos holds

theorem refuseIf_of_not {wrong : Prop} [Decidable wrong] (fails : ¬wrong) : refuseIf wrong = pure () :=
  if_neg fails

theorem allocate_of_fits {memory most width count : Nat} (short : count ≤ most)
    (room : width * count ≤ memory) : allocate memory most width count = pure () :=
  if_pos ⟨short, room⟩

theorem allocate_of_not {memory most width count : Nat}
    (full : ¬(count ≤ most ∧ width * count ≤ memory)) :
    allocate memory most width count = stop .thrown :=
  if_neg full

theorem remaining_of_le {text : List UInt8} {cursor : Nat} (inside : cursor ≤ text.length)
    (short : text.length < 2 ^ 64) : remaining text cursor = pure (text.length - cursor) := by
  have left : (2 ^ 64 + text.length - cursor) % 2 ^ 64 = text.length - cursor := by omega
  unfold remaining
  rw [left, decide_eq_false (Nat.not_lt.mpr inside)]
  rfl

theorem copy_of_le {text : List UInt8} {cursor count : Nat} (inside : cursor + count ≤ text.length) :
    copy text cursor count = pure ((text.drop cursor).take count) :=
  if_pos inside

theorem word_of_le {text : List UInt8} {cursor width : Nat} (inside : cursor + width ≤ text.length) :
    word text cursor width = pure (wordAt text cursor width) := by
  unfold word
  rw [copy_of_le inside]
  rfl

theorem harmless_many_succ {read : Nat → Decoding (α × Nat)} {count cursor : Nat} :
    (many read (count + 1) cursor).Harmless ↔
      (read cursor).Harmless ∧ ∀ a next, (read cursor).value = some (a, next) →
        (many read count next).Harmless := by
  rw [many, harmless_bind]
  refine and_congr_right ?_
  intro _
  constructor
  · intro others a next found
    exact (harmless_bind.mp (others (a, next) found)).1
  · rintro others ⟨a, next⟩ found
    exact harmless_bind.mpr ⟨others a next found, fun _ _ => harmless_pure _⟩

theorem many_eq_ofOption {read : Nat → Decoding (α × Nat)} {reader : Reader α} {text : List UInt8}
    {stands : Nat → Nat → Prop}
    (step : ∀ left cursor, stands (left + 1) cursor → read cursor = ofOption (reader text cursor))
    (keeps : ∀ left cursor a next, stands (left + 1) cursor → reader text cursor = some (a, next) →
      stands left next)
    (count : Nat) {cursor : Nat} (start : stands count cursor) :
    many read count cursor = ofOption (reader.many count text cursor) := by
  -- The induction is on the number of things that are left.
  induction count generalizing cursor with
  | zero => rfl
  | succ count ih =>
    rw [many, Reader.many, step count cursor start]
    dsimp only
    cases found : reader text cursor with
    | none => rfl
    | some both =>
      obtain ⟨a, next⟩ := both
      have rest := ih (keeps count cursor a next start found)
      rw [ofOption, pure_bind, Option.bind_some]
      dsimp only
      rw [rest]
      cases reader.many count text next <;> rfl

end Rules

end Decoding

abbrev Screening (ε α : Type) := ExceptT ε Decoding α

namespace Screening

variable {ε α β : Type}

def require (holds : Prop) [Decidable holds] (wrong : ε) : Screening ε Unit :=
  if holds then pure () else throw wrong

def readWord (width : Nat) (wrong : ε) (text : List UInt8) (cursor : Nat) : Screening ε (Nat × Nat) := do
  let next ← Decoding.sizeT (cursor + width)
  require (next ≤ text.length) wrong
  let value ← Decoding.word text cursor width
  return (value, next)

/-- Reading so many things one behind the other. -/
def many (read : Nat → Screening ε (α × Nat)) : Nat → Nat → Screening ε (List α × Nat)
  | 0, cursor => pure ([], cursor)
  | count + 1, cursor => do
    let (value, cursor) ← read cursor
    let (values, cursor) ← many read count cursor
    return (value :: values, cursor)

def Harmless (screening : Screening ε α) : Prop :=
  Decoding.Harmless screening.run

def Inside (screening : Screening ε α) : Prop :=
  Decoding.ended screening.run ≠ .error .outside

def Gives (screening : Screening ε α) (value : α) : Prop :=
  Decoding.value screening.run = some (.ok value)

section Rules

variable {first : Screening ε α} {next : α → Screening ε β} {text : List UInt8} {cursor width : Nat} {wrong : ε}

@[simp] theorem pure_bind (a : α) (next : α → Screening ε β) :
    (pure a : Screening ε α) >>= next = next a := rfl

@[simp] theorem throw_bind (wrong : ε) (next : α → Screening ε β) :
    (throw wrong : Screening ε α) >>= next = throw wrong := rfl

@[simp] theorem lift_pure (a : α) : (liftM (pure a : Decoding α) : Screening ε α) = pure a := rfl

@[simp] theorem harmless_pure (a : α) : (pure a : Screening ε α).Harmless :=
  Decoding.harmless_pure _

@[simp] theorem harmless_throw (wrong : ε) : (throw wrong : Screening ε α).Harmless :=
  Decoding.harmless_pure _

@[simp] theorem gives_pure {a b : α} : (pure a : Screening ε α).Gives b ↔ a = b := by
  show (some (Except.ok a) : Option (Except ε α)) = some (.ok b) ↔ a = b
  simp

@[simp] theorem not_gives_throw {a : α} : ¬(throw wrong : Screening ε α).Gives a := by
  show ¬(some (Except.error wrong) : Option (Except ε α)) = some (.ok a)
  simp

theorem harmless_bind :
    (first >>= next).Harmless ↔ first.Harmless ∧ ∀ a, first.Gives a → (next a).Harmless := by
  refine (@Decoding.harmless_bind _ _ first.run (ExceptT.bindCont next)).trans (and_congr_right fun _ => ?_)
  constructor
  · intro others a gives
    exact others (.ok a) gives
  · rintro others (wrong | a) given
    · exact Decoding.harmless_pure _
    · exact others a given

theorem gives_bind {b : β} : (first >>= next).Gives b ↔ ∃ a, first.Gives a ∧ (next a).Gives b := by
  have whole : Decoding.value (first >>= next).run =
      (Decoding.value first.run).bind fun a => Decoding.value (ExceptT.bindCont next a) :=
    Decoding.value_bind
  unfold Gives
  rw [whole, Option.bind_eq_some_iff]
  constructor
  · rintro ⟨wrong | a, given, gives⟩
    · cases gives
    · exact ⟨a, given, gives⟩
  · rintro ⟨a, given, gives⟩
    exact ⟨.ok a, given, gives⟩

theorem gives_lift {decoding : Decoding α} {a : α} :
    (liftM decoding : Screening ε α).Gives a ↔ decoding.value = some a := by
  have whole : Decoding.value (liftM decoding : Screening ε α).run = decoding.value.bind
      fun a => Decoding.value (pure (Except.ok a) : Decoding (Except ε α)) := Decoding.value_bind
  unfold Gives
  rw [whole, Option.bind_eq_some_iff]
  constructor
  · rintro ⟨b, given, same⟩
    cases same
    exact given
  · intro given
    exact ⟨a, given, rfl⟩

theorem Gives.inside {a : α} (gives : first.Gives a) : first.Inside := by
  intro outside
  have none_ : Decoding.value first.run = none := by rw [Decoding.value, outside]; rfl
  exact Option.some_ne_none _ (gives.symm.trans none_)

theorem Harmless.within (harmless : first.Harmless) : first.Inside :=
  Decoding.Harmless.inside harmless

theorem inside_bind : (first >>= next).Inside ↔
    first.Inside ∧ ∀ a, first.Gives a → (next a).Inside := by
  refine (@Decoding.inside_bind _ _ first.run (ExceptT.bindCont next)).trans
    (and_congr_right fun _ => ?_)
  constructor
  · intro others a gives
    exact others (.ok a) gives
  · rintro others (wrong | a) given
    · exact nofun
    · exact others a given

theorem inside_lift {decoding : Decoding α} :
    (liftM decoding : Screening ε α).Inside ↔ decoding.ended ≠ .error .outside := by
  refine (@Decoding.inside_bind _ _ decoding
    fun a => (pure (Except.ok a) : Decoding (Except ε α))).trans ?_
  exact and_iff_left fun _ _ => nofun

theorem harmless_lift {decoding : Decoding α} :
    (liftM decoding : Screening ε α).Harmless ↔ decoding.Harmless := by
  refine (@Decoding.harmless_bind _ _ decoding
    fun a => (pure (Except.ok a) : Decoding (Except ε α))).trans ?_
  exact and_iff_left fun _ _ => Decoding.harmless_pure _

theorem require_of {holds : Prop} [Decidable holds] (yes : holds) : require holds wrong = pure () :=
  if_pos yes

theorem require_of_not {holds : Prop} [Decidable holds] (no : ¬holds) : require holds wrong = throw wrong :=
  if_neg no

theorem readWord_of_le (inside : cursor + width ≤ text.length) (short : text.length < 2 ^ 64) :
    readWord width wrong text cursor = pure (wordAt text cursor width, cursor + width) := by
  unfold readWord
  rw [Decoding.sizeT_of_lt (inside.trans_lt short), lift_pure, pure_bind, require_of inside, pure_bind,
    Decoding.word_of_le inside]
  rfl

theorem readWord_of_not (past : ¬cursor + width ≤ text.length) (fits : cursor + width < 2 ^ 64) :
    readWord width wrong text cursor = throw wrong := by
  unfold readWord
  rw [Decoding.sizeT_of_lt fits, lift_pure, pure_bind, require_of_not past]
  rfl

end Rules

def inRow (standing : Nat → α) (width : Nat) : Nat → Nat → List α
  | 0, _ => []
  | count + 1, cursor => standing cursor :: inRow standing width count (cursor + width)

@[simp] theorem length_inRow (standing : Nat → α) (width count cursor : Nat) :
    (inRow standing width count cursor).length = count := by
  induction count generalizing cursor with
  | zero => rfl
  | succ count ih => rw [inRow, List.length_cons, ih]

/-- The screening passes just when something holds, with the value, and says what is wrong otherwise. -/
structure Decides (screening : Screening ε α) (holds : Prop) (a : α) : Prop where
  passes : holds → screening = pure a
  refuses : ¬holds → ∃ wrong, screening = throw wrong

namespace Decides

variable {screening : Screening ε α} {first : Screening ε α} {next : α → Screening ε β} {holds also : Prop}
  {a : α} {b : β} {text : List UInt8} {cursor width : Nat} {wrong : ε}

theorem given (a : α) : Decides (pure a : Screening ε α) True a :=
  ⟨fun _ => rfl, fun no => absurd trivial no⟩

theorem thrown (wrong : ε) (a : α) : Decides (throw wrong : Screening ε α) False a :=
  ⟨False.elim, fun _ => ⟨wrong, rfl⟩⟩

theorem congr (decides : Decides screening holds a) (same : holds ↔ also) : Decides screening also a :=
  ⟨fun yes => decides.passes (same.mpr yes), fun no => decides.refuses fun yes => no (same.mp yes)⟩

theorem require (holds : Prop) [Decidable holds] (wrong : ε) : Decides (require holds wrong) holds () :=
  ⟨require_of, fun no => ⟨wrong, require_of_not no⟩⟩

theorem bind (own : Decides first holds a) (rest : holds → Decides (next a) also b) :
    Decides (first >>= next) (holds ∧ also) b where
  passes := by
    rintro ⟨yes, others⟩
    rw [own.passes yes, pure_bind]
    exact (rest yes).passes others
  refuses := by
    intro no
    by_cases yes : holds
    · obtain ⟨wrong, refused⟩ := (rest yes).refuses fun others => no ⟨yes, others⟩
      refine ⟨wrong, ?_⟩
      rw [own.passes yes, pure_bind, refused]
    · obtain ⟨wrong, refused⟩ := own.refuses yes
      refine ⟨wrong, ?_⟩
      rw [refused, throw_bind]

theorem readWord (short : text.length < 2 ^ 64) (fits : cursor + width < 2 ^ 64) :
    Decides (readWord width wrong text cursor) (cursor + width ≤ text.length)
      (wordAt text cursor width, cursor + width) :=
  ⟨fun inside => readWord_of_le inside short, fun past => ⟨wrong, readWord_of_not past fits⟩⟩

theorem word_bind {rest : Nat × Nat → Screening ε β} (short : text.length < 2 ^ 64)
    (fits : cursor + width < 2 ^ 64)
    (others : cursor + width ≤ text.length →
      Decides (rest (wordAt text cursor width, cursor + width)) also b) :
    Decides (Screening.readWord width wrong text cursor >>= rest) (cursor + width ≤ text.length ∧ also) b :=
  (readWord short fits).bind others

theorem many {read : Nat → Screening ε (α × Nat)} {standing : Nat → α} {good : α → Prop} {limit : Nat}
    (step : ∀ cursor, cursor + width ≤ limit →
      Decides (read cursor) (good (standing cursor)) (standing cursor, cursor + width))
    (count : Nat) {cursor : Nat} (room : cursor + width * count ≤ limit) :
    Decides (many read count cursor) (∀ a ∈ inRow standing width count cursor, good a)
      (inRow standing width count cursor, cursor + width * count) := by
  -- The induction is on the number of things that are left.
  induction count generalizing cursor with
  | zero => exact (given _).congr (iff_of_true trivial (List.forall_mem_nil _))
  | succ count ih =>
    rw [Nat.mul_succ] at room
    have later : cursor + width + width * count ≤ limit := by omega
    have behind : cursor + width * (count + 1) = cursor + width + width * count := by
      rw [Nat.mul_succ]
      omega
    rw [behind]
    refine ((step cursor (by omega)).bind fun _ => (ih later).bind fun _ =>
      given (inRow standing width (count + 1) cursor, _)).congr ?_
    rw [and_true]
    exact List.forall_mem_cons.symm

theorem harmless (decides : Decides screening holds a) : screening.Harmless := by
  by_cases yes : holds
  · rw [decides.passes yes]
    exact harmless_pure a
  · obtain ⟨wrong, refused⟩ := decides.refuses yes
    rw [refused]
    exact harmless_throw wrong

theorem gives {other : α} (decides : Decides screening holds a) :
    screening.Gives other ↔ holds ∧ a = other := by
  by_cases yes : holds
  · rw [decides.passes yes, gives_pure]
    exact (and_iff_right yes).symm
  · obtain ⟨wrong, refused⟩ := decides.refuses yes
    rw [refused]
    exact iff_of_false not_gives_throw fun both => yes both.1

end Decides

end Screening

end AgentC

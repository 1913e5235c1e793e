import AgentC.Alloc.Codec
import AgentC.Library.Decoding
import AgentC.Alloc.CodecRoundTrip

/-!
The decoders of slab images and root states, with every size and every read they make.

The heap is a parameter: it hands out blocks of at most `memory` bytes and throws for longer ones.
-/

namespace AgentC

/-- The longest `std::vector<std::byte>`. -/
def maxBytes : Nat := 9223372036854775807

namespace Decoding

section Helpers

/-- A word at the cursor, and the cursor behind it. -/
def readPod (width : Nat) (text : List UInt8) (cursor : Nat) : Decoding (Nat × Nat) := do
  let next ← sizeT (cursor + width)
  refuseIf (text.length < next)
  let value ← word text cursor width
  return (value, next)

/-- As many bytes as the word at the cursor says, and the cursor behind them. -/
def readSized (most memory : Nat) (text : List UInt8) (cursor : Nat) :
    Decoding (List UInt8 × Nat) := do
  let (size, cursor) ← readPod 8 text cursor
  let next ← sizeT (cursor + size)
  refuseIf (text.length < next)
  allocate memory most 1 size
  let value ← copy text cursor size
  return (value, next)

/-- A string at the cursor; `assign` throws for a length that no string has. -/
def readString (memory : Nat) : List UInt8 → Nat → Decoding (List UInt8 × Nat) :=
  readSized maxString memory

/-- Bytes at the cursor; `resize` throws for a length that no vector has. -/
def readBytes (memory : Nat) : List UInt8 → Nat → Decoding (List UInt8 × Nat) :=
  readSized maxBytes memory

end Helpers

section Roots

def readSlabId (text : List UInt8) (cursor : Nat) : Decoding (SlabId × Nat) := do
  let (first, cursor) ← readPod 2 text cursor
  let (second, cursor) ← readPod 2 text cursor
  return (⟨first, second⟩, cursor)

def readAnchor (memory : Nat) (text : List UInt8) (cursor : Nat) :
    Decoding (ArenaRootAnchor × Nat) := do
  let (name, cursor) ← readString memory text cursor
  let (valueSid, cursor) ← readSlabId text cursor
  return (⟨name, valueSid⟩, cursor)

def deserializeArenaRootState (memory : Nat) (text : List UInt8) : Decoding ArenaRootState := do
  -- The text is copied into a string of its own first.
  allocate memory maxString 1 text.length
  let (version, cursor) ← readPod 4 text 0
  let (anchorCount, cursor) ← readPod 8 text cursor
  allocate memory maxAnchors 40 anchorCount
  let (anchors, cursor) ← many (readAnchor memory text) anchorCount cursor
  refuseIf (cursor ≠ text.length)
  return ⟨UInt32.ofNat version, anchors⟩

end Roots

section Images

def readSlot (memory : Nat) (text : List UInt8) (cursor : Nat) :
    Decoding (ArenaStructuredSlot × Nat) := do
  let left ← remaining text cursor
  refuseIf (left < 10)
  let offset ← word text cursor 2
  let payloadSize ← word text (cursor + 2) 8
  let left ← remaining text (cursor + 10)
  -- The size is compared with what is left, so that no sum can wrap.
  refuseIf (left < payloadSize)
  allocate memory maxString 1 payloadSize
  let payload ← copy text (cursor + 10) payloadSize
  return (⟨offset, payload⟩, cursor + 10 + payloadSize)

/-- The image that bytes stand for. -/
def deserializeArenaSlabImage (memory : Nat) (text : List UInt8) : Decoding ArenaSlabImage := do
  refuseIf (text.length < 15)
  match ArenaSlabEncoding.ofByte (← word text 0 1) with
  | none => stop .refused
  | some encoding =>
    let slabIndex ← word text 1 2
    let count ← word text 3 4
    let inUseSize ← word text 7 8
    let inUseBytes ← sizeT (inUseSize * 8)
    let expected ← sizeT (15 + inUseBytes)
    refuseIf (text.length < expected)
    allocate memory maxWords 8 inUseSize
    let words ← copy text 15 inUseBytes
    let inUse := (wordsAt words 0 8 inUseSize).map UInt64.ofNat
    let cursor := 15 + inUseBytes
    let left ← remaining text cursor
    match encoding with
    | .rawBytes =>
      allocate memory maxBytes 1 left
      let bytes ← copy text cursor left
      return { slabIndex, count := UInt32.ofNat count, inUse, encoding := .rawBytes, bytes, structuredSlots := [] }
    | .structured =>
      refuseIf (left < 8)
      let slotCount ← word text cursor 8
      allocate memory maxSlots 40 slotCount
      let (structuredSlots, cursor) ← many (readSlot memory text) slotCount (cursor + 8)
      refuseIf (cursor ≠ text.length)
      return { slabIndex, count := UInt32.ofNat count, inUse, encoding := .structured, bytes := [], structuredSlots }

end Images

section Sizes

def FitsString (text : List UInt8) (cursor : Nat) : Prop :=
  cursor + 8 ≤ text.length → cursor + 8 + wordAt text cursor 8 < 2 ^ 64

def anchorPlace (text : List UInt8) : Nat → Nat → Nat
  | 0, place => place
  | k + 1, place => anchorPlace text k (place + 8 + wordAt text place 8 + 4)

/-- The sizes that a root state gives: room for its anchors, and no name that reaches beyond a word. -/
def FitsRootState (memory : Nat) (text : List UInt8) : Prop :=
  12 ≤ text.length →
    wordAt text 4 8 ≤ maxAnchors ∧ 40 * wordAt text 4 8 ≤ memory ∧
      ∀ k < wordAt text 4 8, FitsString text (anchorPlace text k 12)

/-- The sizes that a slab image gives: counts that do not reach beyond a word, and room for its slots. -/
def FitsSlabImage (memory : Nat) (text : List UInt8) : Prop :=
  15 ≤ text.length → (ArenaSlabEncoding.ofByte (wordAt text 0 1)).isSome →
    let place := 15 + 8 * wordAt text 7 8
    place < 2 ^ 64 ∧
      (place + 8 ≤ text.length → wordAt text 0 1 = ArenaSlabEncoding.structured.byte →
        wordAt text place 8 ≤ maxSlots ∧ 40 * wordAt text place 8 ≤ memory)

end Sizes

end Decoding

end AgentC

namespace AgentC

namespace Decoding

variable {memory cursor : Nat} {text : List UInt8}

section Helpers

theorem readPod_eq (width : Nat) (inside : cursor + width < 2 ^ 64) :
    readPod width text cursor = ofOption (AgentC.readPod width text cursor) := by
  unfold readPod AgentC.readPod
  rw [sizeT_of_lt inside, pure_bind]
  by_cases short : text.length < cursor + width
  · rw [refuseIf_of short, if_pos short]
    rfl
  · rw [refuseIf_of_not short, pure_bind, word_of_le (by omega), if_neg short]
    rfl

theorem readSized_eq {most : Nat} (small : text.length ≤ maxString) (longest : text.length ≤ most)
    (room : text.length < memory) (inside : cursor ≤ text.length) (fits : FitsString text cursor) :
    readSized most memory text cursor = ofOption (AgentC.readString text cursor) := by
  unfold maxString at small
  have pod := @readPod_eq cursor text 8 (by omega)
  unfold readSized AgentC.readString
  rw [pod]
  unfold AgentC.readPod
  by_cases short : text.length < cursor + 8
  · rw [if_pos short]
    rfl
  · have exact := fits (by omega)
    rw [if_neg short]
    dsimp only [ofOption]
    rw [pure_bind]
    dsimp only
    rw [sizeT_of_lt exact, pure_bind, Nat.mod_eq_of_lt exact]
    by_cases beyond : text.length < cursor + 8 + wordAt text cursor 8
    · rw [refuseIf_of beyond, if_pos beyond]
      rfl
    · have bound : ¬maxString < wordAt text cursor 8 := by
        unfold maxString
        omega
      rw [refuseIf_of_not beyond, pure_bind, allocate_of_fits (by omega) (by omega), pure_bind,
        copy_of_le (by omega), if_neg beyond, if_neg bound]
      rfl

theorem readSized_harmless_iff {most : Nat} (small : text.length ≤ maxString)
    (longest : text.length ≤ most) (room : text.length < memory) (inside : cursor ≤ text.length) :
    (readSized most memory text cursor).Harmless ↔ FitsString text cursor := by
  constructor
  · intro harmless stands
    unfold maxString at small
    have pod := @readPod_eq cursor text 8 (by omega)
    have read : AgentC.readPod 8 text cursor = some (wordAt text cursor 8, cursor + 8) :=
      if_neg (Nat.not_lt.mpr stands)
    unfold readSized at harmless
    rw [pod, read, ofOption, pure_bind] at harmless
    -- The sum of the cursor and the size is the first thing computed from the word.
    exact (harmless_sizeT _).mp (harmless_bind.mp harmless).1
  · intro fits
    rw [readSized_eq small longest room inside fits]
    exact harmless_ofOption _

end Helpers

section Roots

theorem readSlabId_eq (inside : cursor ≤ text.length) (small : text.length ≤ maxString) :
    readSlabId text cursor = ofOption (AgentC.readSlabId text cursor) := by
  unfold maxString at small
  have first := @readPod_eq cursor text 2 (by omega)
  have second := @readPod_eq (cursor + 2) text 2 (by omega)
  unfold readSlabId AgentC.readSlabId
  rw [first]
  by_cases short : text.length < cursor + 2
  · have none : AgentC.readPod 2 text cursor = none := if_pos short
    rw [none]
    rfl
  · have read : AgentC.readPod 2 text cursor = some (wordAt text cursor 2, cursor + 2) := if_neg short
    rw [read, ofOption, pure_bind, Option.bind_some]
    dsimp only
    rw [second]
    cases AgentC.readPod 2 text (cursor + 2) <;> rfl

theorem readString_next {name : List UInt8} {next : Nat} (small : text.length ≤ maxString)
    (inside : cursor ≤ text.length) (read : AgentC.readString text cursor = some (name, next)) :
    next = cursor + 8 + wordAt text cursor 8 ∧ next ≤ text.length := by
  refine ⟨?_, (readString_inverse.writes text cursor name next small inside read).2.1⟩
  unfold AgentC.readString AgentC.readPod at read
  split at read
  · cases read
  next size behind pod =>
    split at pod
    · cases pod
    · cases pod
      split at read
      · cases read
      · split at read
        · cases read
        · cases read
          rfl

theorem readAnchor_next {anchor : ArenaRootAnchor} {next : Nat} (small : text.length ≤ maxString)
    (inside : cursor ≤ text.length) (read : AgentC.readAnchor text cursor = some (anchor, next)) :
    next = anchorPlace text 1 cursor ∧ next ≤ text.length := by
  refine ⟨?_, (readAnchor_inverse.writes text cursor anchor next small inside read).2.1⟩
  obtain ⟨⟨name, middle⟩, string, rest⟩ := Option.bind_eq_some_iff.mp read
  obtain ⟨⟨sid, last⟩, ids, same⟩ := Option.map_eq_some_iff.mp rest
  cases same
  obtain ⟨place, _⟩ := readString_next small inside string
  unfold AgentC.readSlabId at ids
  obtain ⟨⟨one, second⟩, first, rest⟩ := Option.bind_eq_some_iff.mp ids
  obtain ⟨⟨two, third⟩, other, same⟩ := Option.map_eq_some_iff.mp rest
  cases same
  -- An id is two words of two bytes each.
  have words : second = middle + 2 ∧ next = second + 2 := by
    unfold AgentC.readPod at first other
    split at first <;> split at other <;> simp_all
  show next = cursor + 8 + wordAt text cursor 8 + 4
  omega

theorem readAnchor_eq (small : text.length ≤ maxString) (room : text.length < memory)
    (inside : cursor ≤ text.length) (fits : FitsString text cursor) :
    readAnchor memory text cursor = ofOption (AgentC.readAnchor text cursor) := by
  have string := readSized_eq small small room inside fits
  unfold readAnchor AgentC.readAnchor readString
  rw [string]
  cases read : AgentC.readString text cursor with
  | none => rfl
  | some both =>
    obtain ⟨name, next⟩ := both
    have ids := readSlabId_eq (readString_next small inside read).2 small
    rw [ofOption, pure_bind, Option.bind_some]
    dsimp only
    rw [ids]
    cases AgentC.readSlabId text next <;> rfl

theorem le_anchorPlace (text : List UInt8) (k place : Nat) : place ≤ anchorPlace text k place := by
  induction k generalizing place with
  | zero => exact le_rfl
  | succ k ih => exact le_trans (by omega) (ih (place + 8 + wordAt text place 8 + 4))

theorem anchors_harmless_iff (small : text.length ≤ maxString) (room : text.length < memory)
    (count : Nat) (inside : cursor ≤ text.length) :
    (many (readAnchor memory text) count cursor).Harmless ↔
      ∀ k < count, FitsString text (anchorPlace text k cursor) := by
  induction count generalizing cursor with
  | zero => exact iff_of_true (harmless_pure _) nofun
  | succ count ih =>
    rw [harmless_many_succ]
    constructor
    · rintro ⟨own, others⟩
      have fits : FitsString text cursor :=
        (readSized_harmless_iff small small room inside).mp (harmless_bind.mp own).1
      rw [readAnchor_eq small room inside fits, value_ofOption] at others
      rintro (_ | k) below
      · exact fits
      · cases read : AgentC.readAnchor text cursor with
        | some both =>
          obtain ⟨anchor, next⟩ := both
          obtain ⟨place, last⟩ := readAnchor_next small inside read
          have rest := (ih last).mp (others anchor next read) k (by omega)
          rw [place] at rest
          exact rest
        | none =>
          -- An anchor that is not there leaves no room for those behind it.
          intro stands
          have behind := le_anchorPlace text k (cursor + 8 + wordAt text cursor 8 + 4)
          have far : cursor + 8 + wordAt text cursor 8 + 4 + 8 ≤ text.length :=
            (Nat.add_le_add_right behind 8).trans stands
          have string : AgentC.readString text cursor = some
              ((text.drop (cursor + 8)).take (wordAt text cursor 8), cursor + 8 + wordAt text cursor 8) := by
            unfold maxString at small
            unfold AgentC.readString AgentC.readPod
            rw [if_neg (by omega)]
            dsimp only
            rw [Nat.mod_eq_of_lt (by omega), if_neg (by omega), if_neg (by unfold maxString; omega)]
          unfold AgentC.readAnchor AgentC.readSlabId AgentC.readPod at read
          rw [string, Option.bind_some] at read
          dsimp only at read
          rw [if_neg (by omega)] at read
          dsimp only [Option.bind_some] at read
          rw [if_neg (by omega)] at read
          cases read
    · intro every
      have fits : FitsString text cursor := every 0 (by omega)
      rw [readAnchor_eq small room inside fits, value_ofOption]
      refine ⟨harmless_ofOption _, ?_⟩
      intro anchor next read
      obtain ⟨place, last⟩ := readAnchor_next small inside read
      refine (ih last).mpr ?_
      intro k below
      rw [place]
      exact every (k + 1) (by omega)

theorem anchors_eq (small : text.length ≤ maxString) (room : text.length < memory)
    (count : Nat) (inside : cursor ≤ text.length)
    (fits : ∀ k < count, FitsString text (anchorPlace text k cursor)) :
    many (readAnchor memory text) count cursor = ofOption (AgentC.readAnchor.many count text cursor) := by
  refine @many_eq_ofOption _ _ AgentC.readAnchor text
    (fun left cursor => cursor ≤ text.length ∧ ∀ k < left, FitsString text (anchorPlace text k cursor))
    ?_ ?_ count cursor ⟨inside, fits⟩
  · rintro left cursor ⟨inside, fits⟩
    exact readAnchor_eq small room inside (fits 0 (by omega))
  · rintro left cursor anchor next ⟨inside, fits⟩ read
    obtain ⟨place, last⟩ := readAnchor_next small inside read
    refine ⟨last, ?_⟩
    intro k below
    rw [place]
    exact fits (k + 1) (by omega)

theorem deserializeArenaRootState_eq (small : text.length ≤ maxString) (room : text.length < memory)
    (fits : FitsRootState memory text) :
    deserializeArenaRootState memory text = ofOption (AgentC.deserializeArenaRootState text) := by
  have version := @readPod_eq 0 text 4 (by decide)
  have anchors := @readPod_eq 4 text 8 (by decide)
  unfold deserializeArenaRootState AgentC.deserializeArenaRootState
  rw [allocate_of_fits small (by omega), pure_bind, version]
  unfold AgentC.readPod at version anchors ⊢
  by_cases short : text.length < 12
  · -- One of the two words in front is missing, and nothing behind them is looked at.
    by_cases shorter : text.length < 0 + 4
    · rw [if_pos shorter]
      rfl
    · rw [if_neg shorter, ofOption, pure_bind, Option.bind_some]
      dsimp only
      rw [Nat.zero_add, anchors, if_pos short]
      rfl
  · obtain ⟨most, block, names⟩ := fits (Nat.not_lt.mp short)
    rw [if_neg (by omega), ofOption, pure_bind, Option.bind_some]
    dsimp only
    rw [Nat.zero_add, anchors, if_neg short, ofOption, pure_bind, Option.bind_some]
    dsimp only
    rw [allocate_of_fits most block, pure_bind, if_neg (Nat.not_lt.mpr most),
      anchors_eq small room _ (Nat.not_lt.mp short) names]
    cases AgentC.readAnchor.many (wordAt text 4 8) text 12 with
    | none => rfl
    | some both =>
      rw [ofOption, pure_bind, Option.bind_some]
      by_cases whole : both.2 = text.length
      · rw [refuseIf_of_not (not_not_intro whole), if_pos whole]
        rfl
      · rw [refuseIf_of whole, if_neg whole]
        rfl

theorem deserializeArenaRootState_harmless_iff (small : text.length ≤ maxString)
    (room : text.length < memory) :
    (deserializeArenaRootState memory text).Harmless ↔ FitsRootState memory text := by
  constructor
  · intro harmless long
    have version := @readPod_eq 0 text 4 (by decide)
    have anchors := @readPod_eq 4 text 8 (by decide)
    have first : AgentC.readPod 4 text 0 = some (wordAt text 0 4, 4) := if_neg (by omega)
    have second : AgentC.readPod 8 text 4 = some (wordAt text 4 8, 12) := if_neg (by omega)
    unfold deserializeArenaRootState at harmless
    rw [allocate_of_fits small (by omega), pure_bind, version, first, ofOption, pure_bind] at harmless
    dsimp only at harmless
    rw [anchors, second, ofOption, pure_bind] at harmless
    dsimp only at harmless
    by_cases given : wordAt text 4 8 ≤ maxAnchors ∧ 40 * wordAt text 4 8 ≤ memory
    · rw [allocate_of_fits given.1 given.2, pure_bind] at harmless
      exact ⟨given.1, given.2,
        (anchors_harmless_iff small room _ long).mp (harmless_bind.mp harmless).1⟩
    · rw [allocate_of_not given, stop_bind] at harmless
      exact absurd harmless not_harmless_thrown
  · intro fits
    rw [deserializeArenaRootState_eq small room fits]
    exact harmless_ofOption _

end Roots

section Images

theorem wordsAt_copied {place width count size : Nat} (part : width * count ≤ size) :
    wordsAt ((text.drop place).take size) 0 width count = wordsAt text place width count := by
  refine List.map_congr_left ?_
  intro k below
  have last : width * k + width ≤ size := by
    have before : width * (k + 1) ≤ width * count :=
      Nat.mul_le_mul_left width (List.mem_range.mp below)
    rw [Nat.mul_succ] at before
    exact before.trans part
  unfold wordAt
  rw [List.drop_take, List.drop_drop, List.take_take, Nat.zero_add, Nat.min_eq_left (by omega)]

theorem readSlot_eq (small : text.length ≤ maxString) (room : text.length < memory)
    (inside : cursor ≤ text.length) :
    readSlot memory text cursor = ofOption (AgentC.readSlot text cursor) := by
  unfold maxString at small
  unfold readSlot AgentC.readSlot
  rw [remaining_of_le inside (by omega), pure_bind]
  by_cases short : text.length - cursor < 10
  · rw [refuseIf_of short, if_pos short]
    rfl
  · rw [refuseIf_of_not short, pure_bind, word_of_le (by omega), pure_bind, word_of_le (by omega),
      pure_bind, remaining_of_le (by omega) (by omega), pure_bind, if_neg short]
    dsimp only
    by_cases beyond : text.length - (cursor + 10) < wordAt text (cursor + 2) 8
    · rw [refuseIf_of beyond, if_pos beyond]
      rfl
    · rw [refuseIf_of_not beyond, pure_bind, allocate_of_fits (by unfold maxString; omega) (by omega),
        pure_bind, copy_of_le (by omega), if_neg beyond]
      rfl

theorem slots_eq (small : text.length ≤ maxString) (room : text.length < memory) (count : Nat)
    (inside : cursor ≤ text.length) :
    many (readSlot memory text) count cursor = ofOption (AgentC.readSlot.many count text cursor) := by
  refine @many_eq_ofOption _ _ AgentC.readSlot text (fun _ cursor => cursor ≤ text.length)
    ?_ ?_ count cursor inside
  · intro _ _ inside
    exact readSlot_eq small room inside
  · intro _ cursor slot next inside read
    exact (readSlot_inverse.writes text cursor slot next small inside read).2.1

theorem deserializeArenaSlabImage_eq (small : text.length ≤ maxString) (room : text.length < memory)
    (fits : FitsSlabImage memory text) :
    deserializeArenaSlabImage memory text = ofOption (AgentC.deserializeArenaSlabImage text) := by
  unfold maxString at small
  unfold deserializeArenaSlabImage AgentC.deserializeArenaSlabImage
  by_cases short : text.length < 15
  · rw [refuseIf_of short, if_pos short]
    rfl
  rw [refuseIf_of_not short, pure_bind, word_of_le (by omega), pure_bind, if_neg short]
  cases known : ArenaSlabEncoding.ofByte (wordAt text 0 1) with
  | none => rfl
  | some encoding =>
    obtain ⟨place, slots⟩ := fits (by omega) (by rw [known]; rfl)
    dsimp only
    rw [word_of_le (by omega), pure_bind, word_of_le (by omega), pure_bind, word_of_le (by omega),
      pure_bind, sizeT_of_lt (by omega), pure_bind, sizeT_of_lt (by omega), pure_bind,
      Nat.mod_eq_of_lt (by omega)]
    by_cases shorter : text.length < 15 + wordAt text 7 8 * 8
    · rw [refuseIf_of shorter, if_pos shorter]
      rfl
    -- From here on the words in use stand in the text, so their count is that of a vector.
    have words : ¬maxWords < wordAt text 7 8 := by
      unfold maxWords
      omega
    rw [refuseIf_of_not shorter, pure_bind, allocate_of_fits (by omega) (by omega), pure_bind,
      copy_of_le (by omega), pure_bind, remaining_of_le (by omega) (by omega), pure_bind,
      if_neg shorter, if_neg words, wordsAt_copied (by omega), Nat.mul_comm (wordAt text 7 8) 8]
    cases encoding with
    | rawBytes =>
      dsimp only
      rw [allocate_of_fits (by unfold maxBytes; omega) (by omega), pure_bind,
        copy_of_le (by omega), pure_bind, List.take_of_length_le (by rw [List.length_drop])]
      rfl
    | structured =>
      dsimp only
      by_cases last : text.length - (15 + 8 * wordAt text 7 8) < 8
      · rw [refuseIf_of last, if_pos last]
        rfl
      have byte : wordAt text 0 1 = ArenaSlabEncoding.structured.byte := by
        unfold ArenaSlabEncoding.ofByte at known
        split at known <;> simp_all [ArenaSlabEncoding.byte]
      obtain ⟨most, block⟩ := slots (by omega) byte
      rw [refuseIf_of_not last, pure_bind, word_of_le (by omega), pure_bind,
        allocate_of_fits most block, pure_bind, slots_eq (by unfold maxString; omega) room _ (by omega),
        if_neg last, if_neg (Nat.not_lt.mpr most)]
      cases AgentC.readSlot.many (wordAt text (15 + 8 * wordAt text 7 8) 8) text
          (15 + 8 * wordAt text 7 8 + 8) with
      | none => rfl
      | some both =>
        obtain ⟨found, next⟩ := both
        rw [ofOption, pure_bind]
        dsimp only
        by_cases whole : next = text.length
        · rw [refuseIf_of_not (not_not_intro whole), if_pos whole]
          rfl
        · rw [refuseIf_of whole, if_neg whole]
          rfl

theorem deserializeArenaSlabImage_harmless_iff (small : text.length ≤ maxString)
    (room : text.length < memory) :
    (deserializeArenaSlabImage memory text).Harmless ↔ FitsSlabImage memory text := by
  constructor
  · intro harmless long known
    unfold maxString at small
    obtain ⟨encoding, known⟩ := Option.isSome_iff_exists.mp known
    unfold deserializeArenaSlabImage at harmless
    rw [refuseIf_of_not (by omega), pure_bind, word_of_le (by omega), pure_bind, known] at harmless
    dsimp only at harmless
    rw [word_of_le (by omega), pure_bind, word_of_le (by omega), pure_bind, word_of_le (by omega),
      pure_bind] at harmless
    -- The product is computed before the sum, and neither may wrap.
    obtain ⟨product, rest⟩ := harmless_bind.mp harmless
    have product := (harmless_sizeT _).mp product
    have rest := rest (wordAt text 7 8 * 8) (by rw [sizeT_of_lt product, value_pure])
    obtain ⟨sum, rest⟩ := harmless_bind.mp rest
    have sum := (harmless_sizeT _).mp sum
    refine ⟨by omega, ?_⟩
    intro stands byte
    have structured : encoding = .structured := by
      rw [byte] at known
      exact (Option.some.inj known).symm
    have rest := rest (15 + wordAt text 7 8 * 8) (by rw [sizeT_of_lt sum, value_pure])
    rw [structured, refuseIf_of_not (by omega), pure_bind,
      allocate_of_fits (by unfold maxWords; omega) (by omega), pure_bind, copy_of_le (by omega),
      pure_bind, remaining_of_le (by omega) (by omega), pure_bind] at rest
    dsimp only at rest
    rw [refuseIf_of_not (by omega), pure_bind, word_of_le (by omega), pure_bind,
      Nat.mul_comm (wordAt text 7 8) 8] at rest
    by_contra full
    rw [allocate_of_not full] at rest
    exact not_harmless_thrown rest
  · intro fits
    rw [deserializeArenaSlabImage_eq small room fits]
    exact harmless_ofOption _

end Images

/--
Decoding is harmless exactly when the sizes in the bytes fit.

The heap hands out every block that is no longer than the text with a byte behind it.
-/
theorem decoding_harmless_iff (memory : Nat) (text : List UInt8) (small : text.length ≤ maxString)
    (room : text.length < memory) :
    ((deserializeArenaSlabImage memory text).Harmless ↔ FitsSlabImage memory text) ∧
      ((deserializeArenaRootState memory text).Harmless ↔ FitsRootState memory text) ∧
      ∀ cursor ≤ text.length,
        (∀ width ≤ 8, (readPod width text cursor).Harmless) ∧
        ((readString memory text cursor).Harmless ↔ FitsString text cursor) ∧
        ((readBytes memory text cursor).Harmless ↔ FitsString text cursor) := by
  refine ⟨deserializeArenaSlabImage_harmless_iff small room,
    deserializeArenaRootState_harmless_iff small room, ?_⟩
  intro cursor inside
  have longest : text.length ≤ maxBytes := small.trans (by decide)
  refine ⟨?_, readSized_harmless_iff small small room inside,
    readSized_harmless_iff small longest room inside⟩
  intro width narrow
  unfold maxString at small
  rw [readPod_eq width (by omega)]
  exact harmless_ofOption _

def wrappingImage : List UInt8 :=
  wordBytes 1 0 ++ wordBytes 2 0 ++ wordBytes 4 0 ++ wordBytes 8 (2 ^ 61)

/-- The sizes of the fifteen bytes do not fit, and a heap of sixteen bytes has room for the text. -/
theorem decoding_harmless_iff_wrapping :
    wrappingImage.length ≤ maxString ∧ wrappingImage.length < 16 ∧
      ((deserializeArenaSlabImage 16 wrappingImage).Harmless ↔ FitsSlabImage 16 wrappingImage) :=
  ⟨by decide, by decide, (decoding_harmless_iff 16 wrappingImage (by decide) (by decide)).1⟩

/-- However large the heap: fifteen bytes pass for long enough, and making room for their words throws. -/
theorem decoding_not_harmless : wrappingImage.length = 15 ∧ ∀ memory,
    (deserializeArenaSlabImage memory wrappingImage).wrapped = true ∧
      (deserializeArenaSlabImage memory wrappingImage).ended = .error .thrown ∧
      ¬(deserializeArenaSlabImage memory wrappingImage).Harmless := by
  refine ⟨by decide, ?_⟩
  intro memory
  -- Both the product and the sum are those of a word, which leaves just the fifteen bytes.
  have whole : deserializeArenaSlabImage memory wrappingImage = ⟨.error .thrown, true⟩ := by
    with_unfolding_all rfl
  rw [whole]
  exact ⟨rfl, rfl, fun harmless => harmless.caught rfl⟩

end Decoding

end AgentC

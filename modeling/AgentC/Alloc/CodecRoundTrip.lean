import AgentC.Alloc.Codec

/-! Slab images and root states are read back as they were written, and only written bytes are read. -/

namespace AgentC

section Readers

variable {longest : Nat}

theorem readPod_inverse (width longest : Nat) :
    (readPod width).Inverse (wordBytes width) (· < 256 ^ width) longest where
  reads := by
    intro before n after fits _
    have inside : ¬(before ++ (wordBytes width n ++ after)).length < before.length + width := by
      simp only [List.length_append, length_wordBytes]
      omega
    unfold readPod
    rw [if_neg inside, wordAt_append fits rfl, length_wordBytes]
  writes := by
    intro text cursor n next _ _ read
    unfold readPod at read
    split at read <;> rename_i inside
    · cases read
    · cases read
      exact ⟨wordAt_lt, by omega, drop_eq_wordAt (by omega)⟩

theorem drop_eq_take_append (text : List UInt8) (cursor size : Nat) :
    text.drop cursor = (text.drop cursor).take size ++ text.drop (cursor + size) := by
  rw [← List.drop_drop, List.take_append_drop]

theorem readString_inverse :
    readString.Inverse stringBytes (·.length ≤ maxString) maxString where
  reads := by
    intro before value after fits short
    have word : before ++ (stringBytes value ++ after) =
        before ++ (wordBytes 8 value.length ++ (value ++ after)) := by
      simp only [stringBytes, List.append_assoc]
    simp only [maxString] at fits
    have read := (readPod_inverse 8 maxString).reads before value.length (value ++ after)
      (show _ < 256 ^ 8 by omega) (word ▸ short)
    rw [length_wordBytes] at read
    have length : (before ++ (stringBytes value ++ after)).length =
        before.length + 8 + value.length + after.length := by
      rw [word]
      simp only [List.length_append, length_wordBytes]
      omega
    have place : before ++ (wordBytes 8 value.length ++ (value ++ after)) =
        (before ++ wordBytes 8 value.length) ++ (value ++ after) := (List.append_assoc _ _ _).symm
    have here : (before ++ wordBytes 8 value.length).length = before.length + 8 := by
      rw [List.length_append, length_wordBytes]
    simp only [maxString] at short
    unfold readString
    rw [word, read, ← word]
    dsimp only
    -- The place behind the string is in the text, so it is no larger than a `size_t`.
    rw [if_neg (by rw [Nat.mod_eq_of_lt (by omega)]; omega),
      if_neg (by simp only [maxString]; omega), word, place, ← here, List.drop_left,
      List.take_left]
    simp only [stringBytes, List.length_append, length_wordBytes, Nat.add_assoc]
  writes := by
    intro text cursor value next short inside read
    unfold readString at read
    split at read
    · cases read
    · rename_i size behind word
      obtain ⟨_, insideWord, bytes⟩ :=
        (readPod_inverse 8 maxString).writes text cursor size behind short inside word
      split at read <;> rename_i outside
      · cases read
      · split at read <;> rename_i long
        · cases read
        · cases read
          simp only [maxString] at short long
          rw [Nat.mod_eq_of_lt (by omega)] at outside
          have length : ((text.drop behind).take size).length = size := by
            rw [List.length_take, List.length_drop]
            omega
          refine ⟨by rw [length]; simp only [maxString]; omega, by omega, ?_⟩
          rw [bytes, stringBytes, length, List.append_assoc, ← drop_eq_take_append]

theorem readSlabId_inverse : readSlabId.Inverse slabIdBytes
    (fun si => si.first < 2 ^ 16 ∧ si.second < 2 ^ 16) maxString :=
  ((readPod_inverse 2 maxString).pair (readPod_inverse 2 maxString)).rename
    (fun both => (⟨both.1, both.2⟩ : SlabId)) (fun si => (si.first, si.second)) (fun _ => rfl) (fun _ => rfl) fun text cursor => by
      unfold readSlabId Reader.pair
      cases readPod 2 text cursor with
      | none => rfl
      | some read =>
        show Option.map _ (readPod 2 text read.2) = Option.map _ (Option.map _ _)
        rw [Option.map_map]
        rfl

theorem readAnchor_inverse : readAnchor.Inverse anchorBytes
    (fun anchor => anchor.name.length ≤ maxString ∧
      anchor.valueSid.first < 2 ^ 16 ∧ anchor.valueSid.second < 2 ^ 16) maxString :=
  (readString_inverse.pair readSlabId_inverse).rename
    (fun both => (⟨both.1, both.2⟩ : ArenaRootAnchor)) (fun anchor => (anchor.name, anchor.valueSid))
    (fun _ => rfl) (fun _ => rfl) fun text cursor => by
      unfold readAnchor Reader.pair
      cases readString text cursor with
      | none => rfl
      | some read =>
        show Option.map _ (readSlabId text read.2) = Option.map _ (Option.map _ _)
        rw [Option.map_map]
        rfl

theorem readSlot_inverse :
    readSlot.Inverse serializeSlot (fun slot => slot.offset < 2 ^ 16) maxString where
  reads := by
    rintro before ⟨offset, payload⟩ after fits short
    have offset_text : before ++ (serializeSlot ⟨offset, payload⟩ ++ after) =
        before ++ (wordBytes 2 offset ++ (wordBytes 8 payload.length ++ (payload ++ after))) := by
      simp only [serializeSlot, List.append_assoc]
    have size_text : before ++ (serializeSlot ⟨offset, payload⟩ ++ after) =
        (before ++ wordBytes 2 offset) ++
          (wordBytes 8 payload.length ++ (payload ++ after)) := by
      simp only [serializeSlot, List.append_assoc]
    have payload_text : before ++ (serializeSlot ⟨offset, payload⟩ ++ after) =
        (before ++ (wordBytes 2 offset ++ wordBytes 8 payload.length)) ++ (payload ++ after) := by
      simp only [serializeSlot, List.append_assoc]
    have length : (before ++ (serializeSlot ⟨offset, payload⟩ ++ after)).length =
        before.length + 10 + payload.length + after.length := by
      rw [payload_text]
      simp only [List.length_append, length_wordBytes]
      omega
    have behind : (before ++ (wordBytes 2 offset ++ wordBytes 8 payload.length)).length =
        before.length + 10 := by
      simp only [List.length_append, length_wordBytes]
    simp only [maxString] at short
    -- The two words stand in front of the payload, which is cut out by its length.
    have first : wordAt (before ++ (serializeSlot ⟨offset, payload⟩ ++ after)) before.length 2 =
        offset := by
      rw [offset_text]
      exact wordAt_append fits rfl
    have second : wordAt (before ++ (serializeSlot ⟨offset, payload⟩ ++ after)) (before.length + 2) 8 =
        payload.length := by
      rw [size_text]
      refine wordAt_append (show _ < 256 ^ 8 by omega) ?_
      rw [List.length_append, length_wordBytes]
    have cut : ((before ++ (serializeSlot ⟨offset, payload⟩ ++ after)).drop
        (before.length + 10)).take payload.length = payload := by
      rw [payload_text, ← behind, List.drop_left, List.take_left]
    unfold readSlot
    rw [if_neg (by omega), first, second]
    dsimp only
    rw [if_neg (by omega), cut, serializeSlot]
    simp only [List.length_append, length_wordBytes, Nat.add_assoc, Nat.reduceAdd]
  writes := by
    intro text cursor slot next short inside read
    unfold readSlot at read
    split at read <;> rename_i header
    · cases read
    · dsimp only at read
      split at read <;> rename_i payload
      · cases read
      · cases read
        have length : ((text.drop (cursor + 10)).take (wordAt text (cursor + 2) 8)).length =
            wordAt text (cursor + 2) 8 := by
          rw [List.length_take, List.length_drop]
          omega
        refine ⟨wordAt_lt, by omega, ?_⟩
        rw [drop_eq_wordAt (by omega : cursor + 2 ≤ text.length),
          drop_eq_wordAt (by omega : cursor + 2 + 8 ≤ text.length), serializeSlot, length]
        simp only [List.append_assoc, Nat.add_assoc, Nat.reduceAdd]
        rw [← Nat.add_assoc, ← drop_eq_take_append]

end Readers

section Roots

/-- What fits in the types of a root state, and its bytes in a string. -/
structure ArenaRootState.Storable (rootState : ArenaRootState) : Prop where
  count : rootState.anchors.length ≤ maxAnchors
  names : ∀ anchor ∈ rootState.anchors, anchor.name.length ≤ maxString
  ids : ∀ anchor ∈ rootState.anchors,
    anchor.valueSid.first < 2 ^ 16 ∧ anchor.valueSid.second < 2 ^ 16
  bytes : (serializeArenaRootState rootState).length ≤ maxString

theorem deserializeArenaRootState_serialize {rootState : ArenaRootState}
    (storable : rootState.Storable) :
    deserializeArenaRootState (serializeArenaRootState rootState) = some rootState := by
  obtain ⟨version, anchors⟩ := rootState
  have counted := storable.count
  have short := storable.bytes
  simp only [maxAnchors] at counted
  let tail := anchors.flatMap anchorBytes
  have version_text : serializeArenaRootState ⟨version, anchors⟩ =
      [] ++ (wordBytes 4 version.toNat ++ (wordBytes 8 anchors.length ++ tail)) := by
    simp only [serializeArenaRootState, tail, List.append_assoc, List.nil_append]
  have count_text : serializeArenaRootState ⟨version, anchors⟩ =
      wordBytes 4 version.toNat ++ (wordBytes 8 anchors.length ++ tail) := version_text
  have anchors_text : serializeArenaRootState ⟨version, anchors⟩ =
      (wordBytes 4 version.toNat ++ wordBytes 8 anchors.length) ++ (tail ++ []) := by
    simp only [serializeArenaRootState, tail, List.append_nil]
  have first := (readPod_inverse 4 maxString).reads [] version.toNat
    (wordBytes 8 anchors.length ++ tail) (show _ < 256 ^ 4 from version.toNat_lt)
    (version_text ▸ short)
  have second := (readPod_inverse 8 maxString).reads (wordBytes 4 version.toNat) anchors.length tail
    (show _ < 256 ^ 8 by omega) (count_text ▸ short)
  have third := (readAnchor_inverse.many anchors.length).reads
    (wordBytes 4 version.toNat ++ wordBytes 8 anchors.length) anchors []
    ⟨rfl, fun anchor member => ⟨storable.names anchor member, storable.ids anchor member⟩⟩
    (anchors_text ▸ short)
  rw [← version_text] at first
  rw [← count_text] at second
  rw [← anchors_text] at third
  simp only [length_wordBytes, List.length_append, List.length_nil, Nat.zero_add] at first second third
  have length : (serializeArenaRootState ⟨version, anchors⟩).length =
      4 + 8 + (anchors.flatMap anchorBytes).length := by
    rw [anchors_text]
    simp only [List.length_append, length_wordBytes, List.append_nil, tail]
  unfold deserializeArenaRootState
  rw [first, Option.bind_some]
  dsimp only
  rw [second, Option.bind_some]
  dsimp only
  rw [if_neg (by simp only [maxAnchors]; omega), third, Option.bind_some]
  dsimp only
  rw [if_pos length.symm, UInt32.ofNat_toNat]

theorem serializeArenaRootState_deserialize {text : List UInt8} {rootState : ArenaRootState}
    (short : text.length ≤ maxString) (read : deserializeArenaRootState text = some rootState) :
    serializeArenaRootState rootState = text := by
  obtain ⟨⟨version, behind⟩, first, read⟩ := Option.bind_eq_some_iff.mp read
  obtain ⟨⟨count, behind'⟩, second, read⟩ := Option.bind_eq_some_iff.mp read
  dsimp only at read second
  split at read
  · cases read
  · obtain ⟨⟨anchors, last⟩, third, read⟩ := Option.bind_eq_some_iff.mp read
    split at read <;> rename_i ended
    · cases read
      obtain ⟨fits, inside, bytes⟩ :=
        (readPod_inverse 4 maxString).writes text 0 version behind short (Nat.zero_le _) first
      obtain ⟨_, inside', bytes'⟩ :=
        (readPod_inverse 8 maxString).writes text behind count behind' short inside second
      obtain ⟨⟨counted, _⟩, _, bytes''⟩ :=
        (readAnchor_inverse.many count).writes text behind' anchors last short inside' third
      dsimp only at ended
      -- Nothing is left behind the last anchor.
      have rest : text.drop last = [] := List.drop_eq_nil_of_le (Nat.le_of_eq ended.symm)
      have small : (UInt32.ofNat version).toNat = version := by
        rw [UInt32.toNat_ofNat']
        exact Nat.mod_eq_of_lt fits
      have all : text = text.drop 0 := rfl
      rw [all, bytes, bytes', bytes'', rest, List.append_nil]
      simp only [serializeArenaRootState, small, counted, List.append_assoc]
    · cases read

end Roots

section Images

structure ArenaSlabImage.Storable (image : ArenaSlabImage) : Prop where
  index : image.slabIndex < 2 ^ 16
  offsets : ∀ slot ∈ image.structuredSlots, slot.offset < 2 ^ 16
  slots : image.structuredSlots.length ≤ maxSlots
  bytes : (serializeArenaSlabImage image).length ≤ maxString

def ArenaSlabImage.OwnPayload (image : ArenaSlabImage) : Prop :=
  match image.encoding with
  | .rawBytes => image.structuredSlots = []
  | .structured => image.bytes = []

theorem ArenaSlabEncoding.ofByte_byte (encoding : ArenaSlabEncoding) :
    ArenaSlabEncoding.ofByte encoding.byte = some encoding := by
  cases encoding <;> rfl

theorem ArenaSlabEncoding.byte_of_ofByte {byte : Nat} {encoding : ArenaSlabEncoding}
    (known : ArenaSlabEncoding.ofByte byte = some encoding) : encoding.byte = byte := by
  match byte, known with
  | 0, known => cases known; rfl
  | 1, known => cases known; rfl

/-- The header and the table of an image, in front of its payload. -/
def imageFront (encoding : ArenaSlabEncoding) (slabIndex : Nat) (count : UInt32)
    (inUse : List UInt64) : List UInt8 :=
  wordBytes 1 encoding.byte ++ wordBytes 2 slabIndex ++ wordBytes 4 count.toNat ++
    wordBytes 8 inUse.length ++ wordsBytes 8 (inUse.map UInt64.toNat)

section Front

variable {encoding : ArenaSlabEncoding} {slabIndex : Nat} {count : UInt32} {inUse : List UInt64}
  {payload text : List UInt8}

@[simp] theorem length_imageFront :
    (imageFront encoding slabIndex count inUse).length = 15 + 8 * inUse.length := by
  simp only [imageFront, List.length_append, length_wordBytes, length_wordsBytes, List.length_map]

/-- The header and the table are read where they were written. -/
theorem front_reads (index : slabIndex < 2 ^ 16) (size : inUse.length < 2 ^ 64)
    (front : text = imageFront encoding slabIndex count inUse ++ payload) :
    wordAt text 0 1 = encoding.byte ∧ wordAt text 1 2 = slabIndex ∧
      UInt32.ofNat (wordAt text 3 4) = count ∧ wordAt text 7 8 = inUse.length ∧
      (wordsAt text 15 8 inUse.length).map UInt64.ofNat = inUse ∧
      text.drop (15 + 8 * inUse.length) = payload := by
  have kind : encoding.byte < 256 ^ 1 := by cases encoding <;> decide
  have fits : ∀ word ∈ inUse.map UInt64.toNat, word < 256 ^ 8 := by
    rintro word member
    obtain ⟨refs, _, rfl⟩ := List.mem_map.mp member
    exact refs.toNat_lt
  -- Each part stands behind those before it.
  let table := wordsBytes 8 (inUse.map UInt64.toNat) ++ payload
  have text₁ : text = [] ++ (wordBytes 1 encoding.byte ++ (wordBytes 2 slabIndex ++
      (wordBytes 4 count.toNat ++ (wordBytes 8 inUse.length ++ table)))) := by
    simp only [front, imageFront, table, List.append_assoc, List.nil_append]
  have text₂ : text = wordBytes 1 encoding.byte ++ (wordBytes 2 slabIndex ++
      (wordBytes 4 count.toNat ++ (wordBytes 8 inUse.length ++ table))) := text₁
  have text₃ : text = (wordBytes 1 encoding.byte ++ wordBytes 2 slabIndex) ++
      (wordBytes 4 count.toNat ++ (wordBytes 8 inUse.length ++ table)) := by
    rw [text₂, List.append_assoc]
  have text₄ : text = (wordBytes 1 encoding.byte ++ wordBytes 2 slabIndex ++
      wordBytes 4 count.toNat) ++ (wordBytes 8 inUse.length ++ table) := by
    rw [text₃, List.append_assoc (wordBytes 1 _ ++ wordBytes 2 _)]
  have text₅ : text = (wordBytes 1 encoding.byte ++ wordBytes 2 slabIndex ++
      wordBytes 4 count.toNat ++ wordBytes 8 inUse.length) ++ table := by
    rw [text₄, List.append_assoc (wordBytes 1 _ ++ wordBytes 2 _ ++ wordBytes 4 _)]
  refine ⟨?_, ?_, ?_, ?_, ?_, ?_⟩
  · rw [text₁]
    exact wordAt_append kind rfl
  · rw [text₂]
    exact wordAt_append index rfl
  · have word : wordAt text 3 4 = count.toNat := by
      rw [text₃]
      exact wordAt_append (show _ < 256 ^ 4 from count.toNat_lt) rfl
    rw [word, UInt32.ofNat_toNat]
  · rw [text₄]
    exact wordAt_append size rfl
  · have words := @wordsAt_append _ payload 15 8 (inUse.map UInt64.toNat) fits
      (show (wordBytes 1 encoding.byte ++ wordBytes 2 slabIndex ++ wordBytes 4 count.toNat ++
        wordBytes 8 inUse.length).length = 15 by simp only [List.length_append, length_wordBytes])
    rw [List.length_map] at words
    rw [text₅, words, List.map_map]
    refine (List.map_congr_left fun refs _ => ?_).trans (List.map_id _)
    exact UInt64.ofNat_toNat
  · have length : (imageFront encoding slabIndex count inUse).length = 15 + 8 * inUse.length :=
      length_imageFront
    rw [front, ← length, List.drop_left]

theorem front_written {size : Nat} (known : ArenaSlabEncoding.ofByte (wordAt text 0 1) = some encoding)
    (counted : wordAt text 7 8 = size) (inside : 15 + 8 * size ≤ text.length) :
    text = imageFront encoding (wordAt text 1 2) (UInt32.ofNat (wordAt text 3 4))
      ((wordsAt text 15 8 size).map UInt64.ofNat) ++ text.drop (15 + 8 * size) := by
  have first : wordAt text 0 1 = encoding.byte := (ArenaSlabEncoding.byte_of_ofByte known).symm
  have third : (UInt32.ofNat (wordAt text 3 4)).toNat = wordAt text 3 4 := by
    rw [UInt32.toNat_ofNat']
    exact Nat.mod_eq_of_lt wordAt_lt
  have table : ((wordsAt text 15 8 size).map UInt64.ofNat).map UInt64.toNat =
      wordsAt text 15 8 size := by
    rw [List.map_map]
    refine (List.map_congr_left fun word member => ?_).trans (List.map_id _)
    show (UInt64.ofNat word).toNat = word
    rw [UInt64.toNat_ofNat']
    exact Nat.mod_eq_of_lt (wordsAt_lt member)
  have all : text = text.drop 0 := rfl
  conv_lhs => rw [all, drop_eq_wordAt (by omega : 0 + 1 ≤ text.length),
    drop_eq_wordAt (by omega : 0 + 1 + 2 ≤ text.length),
    drop_eq_wordAt (by omega : 0 + 1 + 2 + 4 ≤ text.length),
    drop_eq_wordAt (by omega : 0 + 1 + 2 + 4 + 8 ≤ text.length),
    drop_eq_wordsAt (by omega : 0 + 1 + 2 + 4 + 8 + 8 * size ≤ text.length)]
  simp only [imageFront, third, table, List.length_map, length_wordsAt, Nat.zero_add, Nat.reduceAdd,
    List.append_assoc, first, counted]

end Front

theorem deserializeArenaSlabImage_serialize {image : ArenaSlabImage} (storable : image.Storable)
    (own : image.OwnPayload) :
    deserializeArenaSlabImage (serializeArenaSlabImage image) = some image := by
  obtain ⟨slabIndex, count, inUse, encoding, bytes, slots⟩ := image
  have short := storable.bytes
  have few := storable.slots
  let payload := match encoding with
    | .rawBytes => bytes
    | .structured => wordBytes 8 slots.length ++ slots.flatMap serializeSlot
  have front : serializeArenaSlabImage ⟨slabIndex, count, inUse, encoding, bytes, slots⟩ =
      imageFront encoding slabIndex count inUse ++ payload := by
    cases encoding with
    | rawBytes => rfl
    | structured => exact List.append_assoc _ _ _
  generalize serializeArenaSlabImage ⟨slabIndex, count, inUse, encoding, bytes, slots⟩ = text
    at front short
  have length : text.length = 15 + 8 * inUse.length + payload.length := by
    rw [front, List.length_append, length_imageFront]
  simp only [maxString] at short
  simp only [maxSlots] at few
  obtain ⟨kind, index, counted, size, table, rest⟩ :=
    front_reads storable.index (by omega) front
  have expected : ¬text.length < (15 + inUse.length * 8) % 2 ^ 64 := by
    rw [Nat.mod_eq_of_lt (by omega)]
    omega
  have words : ¬maxWords < inUse.length := by
    simp only [maxWords]
    omega
  unfold deserializeArenaSlabImage
  rw [if_neg (by omega), kind, ArenaSlabEncoding.ofByte_byte]
  simp only [index, counted, size, table, if_neg expected, if_neg words, rest]
  cases encoding with
  | rawBytes =>
    have none : slots = [] := own
    rw [none]
  | structured =>
    have none : bytes = [] := own
    -- What stands behind the table is the number of slots, and then the slots.
    have length' : payload.length = 8 + (slots.flatMap serializeSlot).length := by
      rw [List.length_append, length_wordBytes]
    have front₁ : text = imageFront .structured slabIndex count inUse ++
        (wordBytes 8 slots.length ++ slots.flatMap serializeSlot) := front
    have front₂ : text = (imageFront .structured slabIndex count inUse ++
        wordBytes 8 slots.length) ++ (slots.flatMap serializeSlot ++ []) := by
      rw [front₁, List.append_assoc, List.append_nil]
    have slotCount : wordAt text (15 + 8 * inUse.length) 8 = slots.length := by
      rw [front₁]
      exact wordAt_append (show _ < 256 ^ 8 by omega) length_imageFront
    have read := (readSlot_inverse.many slots.length).reads
      (imageFront .structured slabIndex count inUse ++ wordBytes 8 slots.length) slots []
      ⟨rfl, storable.offsets⟩ (by rw [← front₂]; simp only [maxString]; exact short)
    rw [← front₂] at read
    simp only [List.length_append, length_imageFront, length_wordBytes] at read
    have enough : ¬text.length - (15 + 8 * inUse.length) < 8 := by omega
    have many : ¬maxSlots < slots.length := by
      simp only [maxSlots]
      omega
    have ended : 15 + 8 * inUse.length + 8 + (slots.flatMap serializeSlot).length = text.length := by
      omega
    simp only [slotCount, if_neg enough, if_neg many, read, if_pos ended, none]

theorem serializeArenaSlabImage_deserialize {text : List UInt8} {image : ArenaSlabImage}
    (short : text.length ≤ maxString) (read : deserializeArenaSlabImage text = some image) :
    serializeArenaSlabImage image = text := by
  unfold deserializeArenaSlabImage at read
  split at read
  · cases read
  · split at read
    · cases read
    · rename_i encoding known
      dsimp only at read
      split at read <;> rename_i expected
      · cases read
      · split at read <;> rename_i words
        · cases read
        · -- A table that is no longer than a vector has been measured exactly.
          simp only [maxWords] at words
          rw [Nat.mod_eq_of_lt (by omega)] at expected
          have written := front_written known rfl
            (by omega : 15 + 8 * wordAt text 7 8 ≤ text.length)
          cases encoding with
          | rawBytes =>
            cases read
            exact written.symm
          | structured =>
            dsimp only at read
            split at read <;> rename_i header
            · cases read
            · split at read
              · cases read
              · split at read
                · cases read
                · rename_i slots last found
                  split at read <;> rename_i ended
                  · cases read
                    obtain ⟨⟨counted, _⟩, _, bytes⟩ := (readSlot_inverse.many _).writes text _
                      slots last short (by omega) found
                    have rest : text.drop last = [] :=
                      List.drop_eq_nil_of_le (Nat.le_of_eq ended.symm)
                    have count := drop_eq_wordAt
                      (by omega : 15 + 8 * wordAt text 7 8 + 8 ≤ text.length)
                    rw [bytes, rest, List.append_nil] at count
                    rw [count] at written
                    simp only [serializeArenaSlabImage, counted]
                    rw [List.append_assoc]
                    exact written.symm
                  · cases read

theorem ownPayload_of_deserialize {text : List UInt8} {image : ArenaSlabImage}
    (read : deserializeArenaSlabImage text = some image) : image.OwnPayload := by
  unfold deserializeArenaSlabImage at read
  split at read
  · cases read
  · split at read
    · cases read
    · rename_i encoding _
      dsimp only at read
      split at read
      · cases read
      · split at read
        · cases read
        · cases encoding with
          | rawBytes =>
            cases read
            exact rfl
          | structured =>
            dsimp only at read
            split at read
            · cases read
            · split at read
              · cases read
              · split at read
                · cases read
                · split at read <;> cases read
                  exact rfl

/-- Images and root states are read back from their bytes, and only their bytes are read. -/
theorem codec_round_trip :
    (∀ image : ArenaSlabImage, image.Storable → image.OwnPayload →
      deserializeArenaSlabImage (serializeArenaSlabImage image) = some image) ∧
    (∀ (text : List UInt8) (image : ArenaSlabImage), text.length ≤ maxString →
      deserializeArenaSlabImage text = some image → serializeArenaSlabImage image = text) ∧
    (∀ rootState : ArenaRootState, rootState.Storable →
      deserializeArenaRootState (serializeArenaRootState rootState) = some rootState) ∧
    ∀ (text : List UInt8) (rootState : ArenaRootState), text.length ≤ maxString →
      deserializeArenaRootState text = some rootState → serializeArenaRootState rootState = text :=
  ⟨fun _ => deserializeArenaSlabImage_serialize, fun _ _ => serializeArenaSlabImage_deserialize,
    fun _ => deserializeArenaRootState_serialize, fun _ _ => serializeArenaRootState_deserialize⟩

def mixedImage : ArenaSlabImage :=
  { encoding := .rawBytes, structuredSlots := [⟨1, []⟩] }

/-- The slot of such an image is not among its bytes. -/
theorem codec_round_trip_fails_mixed :
    mixedImage.Storable ∧
      deserializeArenaSlabImage (serializeArenaSlabImage mixedImage) ≠ some mixedImage := by
  refine ⟨⟨by decide, by decide, by decide, by decide⟩, by decide⟩

def slotImage : ArenaSlabImage :=
  { slabIndex := 3, count := 1, inUse := [0, 1], encoding := .structured, structuredSlots := [⟨1, [7]⟩] }

/-- Such an image is read back. -/
theorem codec_round_trip_slot :
    deserializeArenaSlabImage (serializeArenaSlabImage slotImage) = some slotImage :=
  codec_round_trip.1 slotImage ⟨by decide, by decide, by decide, by decide⟩ rfl

end Images

end AgentC

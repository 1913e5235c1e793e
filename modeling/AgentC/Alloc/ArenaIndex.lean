import AgentC.Alloc.ArenaStores

/-! The index file of an arena store is read back as it was written, when its names are words. -/

namespace AgentC

open Cartographer (decimalDigits decimalDigits_ne_nil decimalPrefix foldl_decimalDigits isDigit_of_mem
  isDigit_visible isSpace)
open Listree (byte isDigit)

namespace ArenaStore

section Streams

def NoDigit (text : List UInt8) : Prop :=
  ∀ c ∈ text.head?, isDigit c = false

theorem dropWhile_decimalDigits (n : Nat) (rest : List UInt8) :
    (decimalDigits n ++ rest).dropWhile isSpace = decimalDigits n ++ rest := by
  cases given : decimalDigits n with
  | nil => exact absurd given (decimalDigits_ne_nil n)
  | cons c more =>
    have digit : isDigit c = true := isDigit_of_mem (given ▸ List.mem_cons_self)
    rw [List.cons_append, List.dropWhile_cons, (isDigit_visible digit).1]
    rfl

theorem decimalPrefix_append (n : Nat) {rest : List UInt8} (ends : NoDigit rest) :
    decimalPrefix (decimalDigits n ++ rest) = some (false, n) := by
  have digits := fun c => isDigit_of_mem (n := n) (c := c)
  have value := foldl_decimalDigits n
  have front := dropWhile_decimalDigits n rest
  have taken : (decimalDigits n ++ rest).takeWhile isDigit = decimalDigits n := by
    rw [List.takeWhile_append_of_pos digits]
    cases rest with
    | nil => exact List.append_nil _
    | cons c more =>
      rw [List.takeWhile_cons, ends c rfl]
      exact List.append_nil _
  unfold decimalPrefix
  rw [front]
  cases given : decimalDigits n with
  | nil => exact absurd given (decimalDigits_ne_nil n)
  | cons c more =>
    obtain ⟨-, minus, plus⟩ := isDigit_visible (digits c (given ▸ List.mem_cons_self))
    rw [given] at taken value
    simp only [List.cons_append, minus, plus, if_false] at taken ⊢
    rw [taken]
    simp only [List.isEmpty_cons, Bool.false_eq_true, if_false, value]

theorem readUnsigned_eq {bits n : Nat} {text rest : List UInt8} (fits : n < 2 ^ bits)
    (begins : text.dropWhile isSpace = decimalDigits n ++ rest) (ends : NoDigit rest) :
    readUnsigned bits text = .ok (n, rest) := by
  have front := dropWhile_decimalDigits n rest
  have parsed : decimalPrefix text = some (false, n) := by
    have same : decimalPrefix text = decimalPrefix (decimalDigits n ++ rest) := by
      unfold decimalPrefix
      rw [begins, front]
    rw [same, decimalPrefix_append n ends]
  have behind : (Listree.skipOne [byte '-', byte '+'] (text.dropWhile isSpace)).dropWhile isDigit = rest := by
    have digits := fun c => isDigit_of_mem (n := n) (c := c)
    have none : rest.dropWhile isDigit = rest := by
      cases rest with
      | nil => rfl
      | cons c more =>
        rw [List.dropWhile_cons, ends c rfl]
        rfl
    have all : (decimalDigits n ++ rest).dropWhile isDigit = rest := by
      rw [List.dropWhile_append_of_pos digits, none]
    rw [begins]
    cases given : decimalDigits n with
    | nil => exact absurd given (decimalDigits_ne_nil n)
    | cons c more =>
      obtain ⟨-, minus, plus⟩ := isDigit_visible (digits c (given ▸ List.mem_cons_self))
      have unsigned : c ∉ [byte '-', byte '+'] := by
        simp only [List.mem_cons, minus, plus, List.not_mem_nil, or_self, not_false_iff]
      rw [List.cons_append, Listree.skipOne, if_neg unsigned, ← List.cons_append, ← given, all]
  unfold readUnsigned
  rw [Parser.get_bind, parsed]
  dsimp only
  rw [Parser.set_bind, behind, if_pos fits]
  rfl

theorem restOfLine_eq {text line rest : List UInt8} (oneLine : byte '\n' ∉ line)
    (begins : text.dropWhile isSpace = line ++ byte '\n' :: rest) :
    restOfLine text = .ok (line, rest) := by
  have kept : ∀ c ∈ line, decide (c ≠ byte '\n') = true := by
    intro c member
    exact decide_eq_true fun same => oneLine (same ▸ member)
  unfold restOfLine
  rw [Parser.get_bind, begins, Parser.set_bind, List.dropWhile_append_of_pos kept,
    List.takeWhile_append_of_pos kept]
  simp only [List.dropWhile_cons, List.takeWhile_cons, ne_eq, not_true_eq_false, decide_false,
    Bool.false_eq_true, if_false, List.append_nil, List.drop_one, List.tail_cons]
  rfl

theorem restOfLine_last {text line : List UInt8} (oneLine : byte '\n' ∉ line)
    (begins : text.dropWhile isSpace = line) : restOfLine text = .ok (line, []) := by
  have kept : ∀ c ∈ line, decide (c ≠ byte '\n') = true := by
    intro c member
    exact decide_eq_true fun same => oneLine (same ▸ member)
  unfold restOfLine
  rw [Parser.get_bind, begins, Parser.set_bind, List.dropWhile_eq_nil_iff.mpr kept,
    List.takeWhile_eq_self_iff.mpr kept]
  rfl

end Streams

section Metadata

theorem notMem_decimalDigits {c : UInt8} (other : isDigit c = false) (n : Nat) : c ∉ decimalDigits n := by
  intro member
  rw [isDigit_of_mem member] at other
  cases other

/-- The places between commas are read back. -/
theorem decodeCheckpointStarts_encode (starts : List UInt64) :
    decodeCheckpointStarts (encodeCheckpointStarts starts) = some starts := by
  have parts : startParts (encodeCheckpointStarts starts) =
      starts.map fun start => decimalDigits start.toNat := by
    cases starts with
    | nil => rfl
    | cons start rest =>
      have split : (encodeCheckpointStarts (start :: rest)).splitOn (byte ',') =
          (start :: rest).map fun start => decimalDigits start.toNat := by
        refine List.splitOn_intercalate (byte ',') ?_ (by simp only [List.map_cons, ne_eq, reduceCtorEq, not_false_iff])
        intro part member
        obtain ⟨place, _, rfl⟩ := List.mem_map.mp member
        exact notMem_decimalDigits rfl place.toNat
      have last : ((start :: rest).map fun start => decimalDigits start.toNat).getLast? ≠ some [] := by
        intro empty
        obtain ⟨place, _, none⟩ := List.mem_map.mp (List.mem_of_getLast? empty)
        exact decimalDigits_ne_nil _ none
      unfold startParts
      rw [split]
      exact if_neg last
  have full : ((starts.map fun start => decimalDigits start.toNat).any List.isEmpty) = false := by
    rw [List.any_eq_false]
    intro part member
    obtain ⟨place, _, rfl⟩ := List.mem_map.mp member
    rw [Bool.not_eq_true, List.isEmpty_eq_false_iff]
    exact decimalDigits_ne_nil _
  have numbers : (starts.map fun start => decimalDigits start.toNat).map
      (fun part => (Cartographer.Protocol.strtoull part).1) = starts := by
    rw [List.map_map]
    refine (List.map_congr_left ?_).trans (List.map_id starts)
    intro start _
    exact congrArg Prod.fst (Cartographer.Protocol.strtoull_decimalDigits start)
  unfold decodeCheckpointStarts
  dsimp only
  rw [parts, full, numbers]
  rfl

theorem isSpace_encodeCheckpointStarts {starts : List UInt64} {c : UInt8}
    (member : c ∈ encodeCheckpointStarts starts) : isSpace c = false := by
  induction starts with
  | nil => cases member
  | cons start rest ih =>
    cases rest with
    | nil =>
      have alone : encodeCheckpointStarts [start] = decimalDigits start.toNat := List.append_nil _
      rw [alone] at member
      exact (isDigit_visible (isDigit_of_mem member)).1
    | cons next rest =>
      have more : encodeCheckpointStarts (start :: next :: rest) =
          decimalDigits start.toNat ++ byte ',' :: encodeCheckpointStarts (next :: rest) := rfl
      rw [more, List.mem_append, List.mem_cons] at member
      rcases member with own | rfl | others
      · exact (isDigit_visible (isDigit_of_mem own)).1
      · rfl
      · exact ih others

theorem serializeArenaCheckpointMetadata_line (metadata : ArenaCheckpointMetadata) :
    byte '\n' ∉ serializeArenaCheckpointMetadata metadata ∧
      ∀ rest, (serializeArenaCheckpointMetadata metadata ++ rest).dropWhile isSpace =
        serializeArenaCheckpointMetadata metadata ++ rest := by
  have digits := fun n => @notMem_decimalDigits (byte '\n') rfl n
  have starts : byte '\n' ∉ encodeCheckpointStarts metadata.checkpointLogStarts := by
    intro member
    cases isSpace_encodeCheckpointStarts member
  have blank : byte '\n' ≠ byte ' ' := by decide
  refine ⟨?_, ?_⟩
  · simp only [serializeArenaCheckpointMetadata, List.mem_append, List.mem_cons, digits, starts, blank,
      or_self, not_false_iff]
  · intro rest
    unfold serializeArenaCheckpointMetadata
    rw [List.append_assoc, dropWhile_decimalDigits]

theorem noDigit_blank (rest : List UInt8) : NoDigit (byte ' ' :: rest) := by
  intro c isHead
  cases isHead
  rfl

theorem deserializeArenaCheckpointMetadata_serialize (metadata : ArenaCheckpointMetadata) :
    deserializeArenaCheckpointMetadata (serializeArenaCheckpointMetadata metadata) = .ok metadata := by
  obtain ⟨version, slabSize, active, live, log, index, offset, starts⟩ := metadata
  have behind (n : Nat) (rest : List UInt8) :
      (byte ' ' :: (decimalDigits n ++ rest)).dropWhile isSpace = decimalDigits n ++ rest :=
    dropWhile_decimalDigits n rest
  have last : restOfLine (byte ' ' :: encodeCheckpointStarts starts) =
      .ok (encodeCheckpointStarts starts, []) := by
    have line : byte '\n' ∉ encodeCheckpointStarts starts := by
      intro member
      cases isSpace_encodeCheckpointStarts member
    have kept : (encodeCheckpointStarts starts).dropWhile isSpace = encodeCheckpointStarts starts := by
      cases given : encodeCheckpointStarts starts with
      | nil => rfl
      | cons c more =>
        have visible := isSpace_encodeCheckpointStarts (given ▸ List.mem_cons_self : c ∈ _)
        rw [List.dropWhile_cons, visible]
        rfl
    exact restOfLine_last line kept
  unfold deserializeArenaCheckpointMetadata readMetadata serializeArenaCheckpointMetadata
  dsimp only
  -- Each number ends at the blank in front of the next.
  rw [Parser.bind_of_ok (readUnsigned_eq version.toNat_lt (dropWhile_decimalDigits _ _) (noDigit_blank _)),
    Parser.bind_of_ok (readUnsigned_eq slabSize.toNat_lt (behind _ _) (noDigit_blank _)),
    Parser.bind_of_ok (readUnsigned_eq active.toNat_lt (behind _ _) (noDigit_blank _)),
    Parser.bind_of_ok (readUnsigned_eq live.toNat_lt (behind _ _) (noDigit_blank _)),
    Parser.bind_of_ok (readUnsigned_eq log.toNat_lt (behind _ _) (noDigit_blank _)),
    Parser.bind_of_ok (readUnsigned_eq index.toNat_lt (behind _ _) (noDigit_blank _)),
    Parser.bind_of_ok (readUnsigned_eq offset.toNat_lt (behind _ _) (noDigit_blank _)),
    Parser.bind_of_ok last, decodeCheckpointStarts_encode]
  simp only [UInt32.ofNat_toNat, UInt64.ofNat_toNat, UInt16.ofNat_toNat]
  rfl

end Metadata

def Word (name : List UInt8) : Prop :=
  name ≠ [] ∧ ∀ c ∈ name, isSpace c = false

instance (name : List UInt8) : Decidable (Word name) :=
  haveI := List.decidableBAll (isSpace · = false) name
  inferInstanceAs (Decidable (_ ∧ _))

end ArenaStore

namespace FileArenaStore

open ArenaStore

section Entries

def Blank (text : List UInt8) : Prop :=
  ∀ c ∈ text.head?, isSpace c = true

theorem readWord_eq {text word rest : List UInt8} (isWord : Word word) (ends : Blank rest)
    (begins : text.dropWhile isSpace = word ++ rest) : readWord text = .ok (some word, rest) := by
  have kept : ∀ c ∈ word, (!isSpace c) = true := by
    intro c member
    rw [isWord.2 c member]
    rfl
  have behind : rest.takeWhile (!isSpace ·) = [] ∧ rest.dropWhile (!isSpace ·) = rest := by
    cases rest with
    | nil => exact ⟨rfl, rfl⟩
    | cons c more =>
      have blank := ends c rfl
      simp only [List.takeWhile_cons, List.dropWhile_cons, blank, Bool.not_true, Bool.false_eq_true,
        if_false, and_self]
  unfold readWord
  rw [Parser.get_bind, begins, Parser.set_bind, List.dropWhile_append_of_pos kept,
    List.takeWhile_append_of_pos kept, behind.1, behind.2, List.append_nil, if_neg isWord.1]
  rfl

theorem readPayload_eq {text rest : List UInt8} {metadata : ArenaStore.ArenaCheckpointMetadata}
    (begins : text.dropWhile isSpace = serializeArenaCheckpointMetadata metadata ++ byte '\n' :: rest) :
    readPayload text = .ok (metadata, rest) := by
  unfold readPayload
  rw [Parser.bind_of_ok (restOfLine_eq (serializeArenaCheckpointMetadata_line metadata).1 begins),
    deserializeArenaCheckpointMetadata_serialize]
  rfl

theorem dropWhile_blank_serialize (metadata : ArenaStore.ArenaCheckpointMetadata) (rest : List UInt8) :
    (byte ' ' :: (serializeArenaCheckpointMetadata metadata ++ rest)).dropWhile isSpace =
      serializeArenaCheckpointMetadata metadata ++ rest :=
  (serializeArenaCheckpointMetadata_line metadata).2 rest

theorem readEntry_currentLine (index : Index) (metadata : ArenaStore.ArenaCheckpointMetadata)
    (rest : List UInt8) :
    readEntry index (currentLine metadata ++ rest) =
      .ok (some { index with current := some metadata }, rest) := by
  have text : currentLine metadata ++ rest = ascii "current" ++
      byte ' ' :: (serializeArenaCheckpointMetadata metadata ++ byte '\n' :: rest) := by
    have kind : ascii "current " = ascii "current" ++ [byte ' '] := rfl
    simp only [currentLine, kind, List.append_assoc, List.cons_append, List.nil_append]
  have begins : (ascii "current" ++
      byte ' ' :: (serializeArenaCheckpointMetadata metadata ++ byte '\n' :: rest)).dropWhile isSpace =
      ascii "current" ++ byte ' ' :: (serializeArenaCheckpointMetadata metadata ++ byte '\n' :: rest) := rfl
  have ends : Blank (byte ' ' :: (serializeArenaCheckpointMetadata metadata ++ byte '\n' :: rest)) := by
    intro c isHead
    cases isHead
    rfl
  unfold readEntry
  rw [text, Parser.bind_of_ok (readWord_eq (by decide +kernel) ends begins)]
  dsimp only
  rw [if_pos rfl, Parser.bind_of_ok (readPayload_eq (dropWhile_blank_serialize metadata _))]
  rfl

theorem readEntry_namedLine (index : Index) {name : List UInt8} (isWord : Word name)
    (metadata : ArenaStore.ArenaCheckpointMetadata) (rest : List UInt8) :
    readEntry index (namedLine (name, metadata) ++ rest) =
      .ok (some { index with named := index.named.insert name metadata }, rest) := by
  let payload := serializeArenaCheckpointMetadata metadata ++ byte '\n' :: rest
  have text : namedLine (name, metadata) ++ rest =
      ascii "named" ++ byte ' ' :: (name ++ byte ' ' :: payload) := by
    have kind : ascii "named " = ascii "named" ++ [byte ' '] := rfl
    simp only [namedLine, kind, payload, List.append_assoc, List.cons_append, List.nil_append]
  have begins : (ascii "named" ++ byte ' ' :: (name ++ byte ' ' :: payload)).dropWhile isSpace =
      ascii "named" ++ byte ' ' :: (name ++ byte ' ' :: payload) := rfl
  have blank (rest : List UInt8) : Blank (byte ' ' :: rest) := by
    intro c isHead
    cases isHead
    rfl
  -- The name is not empty and begins with no blank, so the one blank in front of it is skipped.
  have second : (byte ' ' :: (name ++ byte ' ' :: payload)).dropWhile isSpace =
      name ++ byte ' ' :: payload := by
    cases name with
    | nil => exact absurd rfl isWord.1
    | cons c more =>
      have visible := isWord.2 c List.mem_cons_self
      show (c :: (more ++ byte ' ' :: payload)).dropWhile isSpace = _
      rw [List.dropWhile_cons, visible]
      rfl
  have other : ascii "named" ≠ ascii "current" := by decide
  unfold readEntry
  rw [text, Parser.bind_of_ok (readWord_eq (by decide +kernel) (blank _) begins)]
  dsimp only
  rw [if_neg other, if_pos rfl, Parser.bind_of_ok (readWord_eq isWord (blank _) second)]
  dsimp only
  rw [Parser.bind_of_ok (readPayload_eq (dropWhile_blank_serialize metadata _))]
  rfl

theorem readEntries_named (entries : List (List UInt8 × ArenaStore.ArenaCheckpointMetadata))
    (words : ∀ entry ∈ entries, Word entry.1) (index : Index) {turns : Nat}
    (enough : entries.length ≤ turns) :
    readEntries turns index (entries.flatMap namedLine) =
      .ok ({ index with named := entries.foldl (fun named entry => named.insert entry.1 entry.2) index.named }, []) := by
  induction entries generalizing index turns with
  | nil =>
    -- Without entries the loop stops for want of a word, or for want of a turn.
    cases turns with
    | zero => rfl
    | succ turns => rfl
  | cons entry rest ih =>
    obtain ⟨own, others⟩ := List.forall_mem_cons.mp words
    cases turns with
    | zero => cases enough
    | succ turns =>
      rw [readEntries, List.flatMap_cons, Parser.bind_of_ok (readEntry_namedLine index own entry.2 _)]
      exact ih others _ (Nat.le_of_succ_le_succ enough)

theorem parseIndex_indexText (index : Index) (words : ∀ entry ∈ index.named.toList, Word entry.1) :
    parseIndex (indexText index) = .ok ⟨index.current,
      index.named.toList.foldl (fun named entry => named.insert entry.1 entry.2) ∅⟩ := by
  have line (entry : List UInt8 × ArenaStore.ArenaCheckpointMetadata) : 1 ≤ (namedLine entry).length := by
    unfold namedLine
    rw [List.length_append]
    exact Nat.le_add_right_of_le (by decide)
  have count (entries : List (List UInt8 × ArenaStore.ArenaCheckpointMetadata)) :
      entries.length ≤ (entries.flatMap namedLine).length := by
    induction entries with
    | nil => exact le_rfl
    | cons entry rest ih =>
      have own := line entry
      rw [List.flatMap_cons, List.length_append, List.length_cons]
      omega
  have entries := count index.named.toList
  obtain ⟨current, named⟩ := index
  unfold parseIndex indexText
  cases current with
  | none =>
    dsimp only [Option.elim_none, List.nil_append]
    rw [readEntries_named named.toList words {} entries]
    rfl
  | some metadata =>
    dsimp only [Option.elim_some]
    have long : 1 ≤ (currentLine metadata).length := by
      unfold currentLine
      rw [List.length_append]
      exact Nat.le_add_right_of_le (by decide)
    obtain ⟨turns, length⟩ : ∃ turns, (currentLine metadata ++ named.toList.flatMap namedLine).length =
        turns + 1 ∧ named.toList.length ≤ turns := by
      refine ⟨(currentLine metadata ++ named.toList.flatMap namedLine).length - 1, ?_⟩
      dsimp only at entries
      rw [List.length_append]
      omega
    rw [length.1, readEntries, Parser.bind_of_ok (readEntry_currentLine {} metadata _)]
    dsimp only
    rw [readEntries_named named.toList words _ length.2]
    rfl

theorem getElem?_foldl_insert {β : Type} (named : Std.TreeMap (List UInt8) β) (name : List UInt8) :
    (named.toList.foldl (fun named entry => named.insert entry.1 entry.2)
      (∅ : Std.TreeMap (List UInt8) β))[name]? = named[name]? := by
  rw [← Std.TreeMap.ofList_equiv_foldl.getElem?_eq]
  cases found : named[name]? with
  | some value =>
    exact Std.TreeMap.getElem?_ofList_of_mem Std.ReflCmp.compare_self named.distinct_keys_toList
      (Std.TreeMap.mem_toList_iff_getElem?_eq_some.mpr found)
  | none =>
    refine Std.TreeMap.getElem?_ofList_of_contains_eq_false ?_
    rw [List.contains_eq_mem, decide_eq_false_iff_not, Std.TreeMap.map_fst_toList_eq_keys,
      Std.TreeMap.mem_keys]
    intro member
    rw [Std.TreeMap.getElem?_eq_some_getElem member] at found
    cases found

end Entries

end FileArenaStore

end AgentC

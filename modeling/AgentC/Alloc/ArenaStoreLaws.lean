import AgentC.Alloc.ArenaIndex
import AgentC.Alloc.CodecRoundTrip
import AgentC.Alloc.ImageRoundTrip
import AgentC.Library.Related

/-!
The store in files refines the store in memory, as long as names are kept apart by the files.

A name of the index has to be one word, and a name of a root state has to be a plain one. An arena
whose images are saved in files comes back from them.
-/

namespace AgentC

open ArenaStore
open Cartographer (decimalDigits isDigit_of_mem)
open Listree (byte isDigit)

namespace Disk

variable {κ : Type} [DecidableEq κ] {disk : Disk κ} {files files' : Files κ} {base one other text : List UInt8}

theorem read_write (written : disk.write files base text = some files') :
    disk.read files' base = some text := by
  obtain ⟨file, opens, rfl⟩ := Option.map_eq_some_iff.mp written
  unfold read
  rw [opens, Option.bind_some, Function.update_self]

theorem read_write_of_ne (plain : PlainName one) (plain' : PlainName other) (differ : one ≠ other)
    (written : disk.write files (base ++ one) text = some files') :
    disk.read files' (base ++ other) = disk.read files (base ++ other) := by
  obtain ⟨file, opens, rfl⟩ := Option.map_eq_some_iff.mp written
  unfold read
  cases opens' : disk.resolve (base ++ other) with
  | none => rfl
  | some file' =>
    have apart : file' ≠ file := by
      rintro rfl
      exact differ (disk.apart base one other file' plain plain' opens opens')
    rw [Option.bind_some, Option.bind_some, Function.update_of_ne apart]

theorem exists_write (opens : (disk.resolve base).isSome) :
    ∃ files', disk.write files base text = some files' := by
  obtain ⟨file, opens⟩ := Option.isSome_iff_exists.mp opens
  exact ⟨_, Option.map_eq_some_iff.mpr ⟨file, opens, rfl⟩⟩

end Disk

namespace FileArenaStore

section Names

def slabSuffix (slabIndex : Nat) : List UInt8 :=
  ascii ".slab." ++ decimalDigits slabIndex

def rootSuffix (name : List UInt8) : List UInt8 :=
  ascii ".root." ++ name

theorem plain_nil : PlainName [] := ⟨nofun, nofun⟩

theorem plain_slabSuffix (slabIndex : Nat) : PlainName (slabSuffix slabIndex) := by
  have slash := @notMem_decimalDigits (byte '/') rfl slabIndex
  have zero := @notMem_decimalDigits 0 rfl slabIndex
  have front : byte '/' ∉ ascii ".slab." ∧ (0 : UInt8) ∉ ascii ".slab." := by decide
  unfold PlainName slabSuffix
  rw [List.mem_append, List.mem_append]
  exact ⟨not_or.mpr ⟨front.1, slash⟩, not_or.mpr ⟨front.2, zero⟩⟩

theorem plain_rootSuffix {name : List UInt8} (plain : PlainName name) : PlainName (rootSuffix name) := by
  have front : byte '/' ∉ ascii ".root." ∧ (0 : UInt8) ∉ ascii ".root." := by decide
  unfold PlainName rootSuffix
  rw [List.mem_append, List.mem_append]
  exact ⟨not_or.mpr ⟨front.1, plain.1⟩, not_or.mpr ⟨front.2, plain.2⟩⟩

theorem slabSuffix_injective : Function.Injective slabSuffix := by
  intro one other same
  have digits := List.append_cancel_left same
  have read := @decimalPrefix_append one [] nofun
  have read' := @decimalPrefix_append other [] nofun
  rw [List.append_nil] at read read'
  rw [digits, read'] at read
  cases read
  rfl

theorem slabSuffix_ne_rootSuffix (slabIndex : Nat) (name : List UInt8) :
    slabSuffix slabIndex ≠ rootSuffix name := by
  intro same
  cases same

end Names

/-- What keeps a call from telling the stores apart. -/
def Fits {κ : Type} (disk : Disk κ) (path : List UInt8) : ArenaStore.Call → Prop
  | .saveCurrent _ => (disk.resolve path).isSome
  | .saveNamedCheckpoint name _ => Word name ∧ (disk.resolve path).isSome
  | .saveSlab slab =>
    slab.Storable ∧ slab.OwnPayload ∧ (disk.resolve (path ++ slabSuffix slab.slabIndex)).isSome
  | .saveRootState name rootState =>
    rootState.Storable ∧ PlainName name ∧ (disk.resolve (path ++ rootSuffix name)).isSome
  | .loadRootState name => PlainName name
  | .loadCurrent | .loadNamedCheckpoint _ | .loadSlab _ => True

variable {κ : Type} [DecidableEq κ]

/-- The index on the disk says what is in memory. -/
structure Indexes (memory : MemoryArenaStore) (index : Index) : Prop where
  current : index.current = memory.current
  named : ∀ name, index.named[name]? = memory.named name
  words : ∀ name metadata, memory.named name = some metadata → Word name

/-- The files of a store hold what another store holds in memory. -/
structure Holds (disk : Disk κ) (path : List UInt8) (memory : MemoryArenaStore) (files : Files κ) :
    Prop where
  index : ∃ index, Indexes memory index ∧
    (disk.read files path = none ∧ index = {} ∨ disk.read files path = some (indexText index))
  slabs : ∀ slabIndex, disk.read files (path ++ slabSuffix slabIndex) =
    (memory.slabs slabIndex).map serializeArenaSlabImage
  rootStates : ∀ name, PlainName name → disk.read files (path ++ rootSuffix name) =
    (memory.rootStates name).map serializeArenaRootState
  storableSlabs : ∀ slabIndex slab, memory.slabs slabIndex = some slab → slab.Storable ∧ slab.OwnPayload
  storableRoots : ∀ name rootState, memory.rootStates name = some rootState → rootState.Storable

section Holding

variable {disk : Disk κ} {path : List UInt8} {memory : MemoryArenaStore} {files files' : Files κ}

omit [DecidableEq κ] in
theorem holds_fresh (disk : Disk κ) (path : List UInt8) : Holds disk path {} (fun _ => none) where
  index := by
    have nothing : disk.read (fun _ => none) path = none := by
      unfold Disk.read
      cases disk.resolve path <;> rfl
    exact ⟨{}, ⟨rfl, fun _ => Std.TreeMap.getElem?_emptyc, nofun⟩, Or.inl ⟨nothing, rfl⟩⟩
  slabs slabIndex := by
    unfold Disk.read
    cases disk.resolve (path ++ slabSuffix slabIndex) <;> rfl
  rootStates name _ := by
    unfold Disk.read
    cases disk.resolve (path ++ rootSuffix name) <;> rfl
  storableSlabs := nofun
  storableRoots := nofun

omit [DecidableEq κ] in
theorem Holds.readAll (holds : Holds disk path memory files) :
    ∃ index, Indexes memory index ∧ FileArenaStore.readAll disk files ⟨path⟩ = some index := by
  obtain ⟨index, indexes, ⟨absent, rfl⟩ | stored⟩ := holds.index
  · refine ⟨{}, indexes, ?_⟩
    unfold FileArenaStore.readAll
    rw [absent]
  · have words : ∀ entry ∈ index.named.toList, Word entry.1 := by
      intro entry member
      have found := Std.TreeMap.mem_toList_iff_getElem?_eq_some.mp member
      rw [indexes.named] at found
      exact indexes.words entry.1 entry.2 found
    refine ⟨⟨index.current, index.named.toList.foldl (fun named entry => named.insert entry.1 entry.2) ∅⟩,
      ⟨indexes.current, ?_, indexes.words⟩, ?_⟩
    · intro name
      exact (getElem?_foldl_insert index.named name).trans (indexes.named name)
    · unfold FileArenaStore.readAll
      rw [stored]
      dsimp only
      rw [parseIndex_indexText index words]
      rfl

theorem Holds.writeIndex (holds : Holds disk path memory files) {index : Index}
    {memory' : MemoryArenaStore} (indexes : Indexes memory' index)
    (slabs : memory'.slabs = memory.slabs) (rootStates : memory'.rootStates = memory.rootStates)
    (written : disk.write files path (indexText index) = some files') : Holds disk path memory' files' where
  index := ⟨index, indexes, Or.inr (Disk.read_write written)⟩
  slabs := by
    intro slabIndex
    have differ : [] ≠ slabSuffix slabIndex := nofun
    rw [← List.append_nil path] at written
    rw [Disk.read_write_of_ne plain_nil (plain_slabSuffix slabIndex) differ written, slabs, holds.slabs]
  rootStates := by
    intro name plain
    have differ : [] ≠ rootSuffix name := nofun
    rw [← List.append_nil path] at written
    rw [Disk.read_write_of_ne plain_nil (plain_rootSuffix plain) differ written, rootStates,
      holds.rootStates name plain]
  storableSlabs := slabs ▸ holds.storableSlabs
  storableRoots := rootStates ▸ holds.storableRoots

theorem Holds.index_of_write (holds : Holds disk path memory files) {suffix text : List UInt8}
    (plain : PlainName suffix) (beside : suffix ≠ [])
    (written : disk.write files (path ++ suffix) text = some files') {memory' : MemoryArenaStore}
    (current : memory'.current = memory.current) (named : memory'.named = memory.named) :
    ∃ index, Indexes memory' index ∧
      (disk.read files' path = none ∧ index = {} ∨ disk.read files' path = some (indexText index)) := by
  obtain ⟨index, indexes, stored⟩ := holds.index
  have kept := Disk.read_write_of_ne plain plain_nil beside written
  rw [List.append_nil] at kept
  rw [kept]
  exact ⟨index, ⟨indexes.current.trans current.symm, named ▸ indexes.named, named ▸ indexes.words⟩, stored⟩

theorem Holds.writeSlab (holds : Holds disk path memory files) {slab : ArenaSlabImage}
    (storable : slab.Storable) (own : slab.OwnPayload)
    (written : disk.write files (path ++ slabSuffix slab.slabIndex) (serializeArenaSlabImage slab) =
      some files') :
    Holds disk path { memory with slabs := Function.update memory.slabs slab.slabIndex (some slab) } files' where
  index := holds.index_of_write (plain_slabSuffix slab.slabIndex) nofun written rfl rfl
  slabs := by
    intro slabIndex
    by_cases same : slabIndex = slab.slabIndex
    · subst same
      rw [Disk.read_write written]
      dsimp only
      rw [Function.update_self]
      rfl
    · have differ : slabSuffix slab.slabIndex ≠ slabSuffix slabIndex :=
        fun equal => same (slabSuffix_injective equal).symm
      rw [Disk.read_write_of_ne (plain_slabSuffix _) (plain_slabSuffix _) differ written, holds.slabs]
      dsimp only
      rw [Function.update_of_ne same]
  rootStates := by
    intro name plain
    rw [Disk.read_write_of_ne (plain_slabSuffix _) (plain_rootSuffix plain)
      (slabSuffix_ne_rootSuffix _ _) written, holds.rootStates name plain]
  storableSlabs := by
    intro slabIndex found given
    by_cases same : slabIndex = slab.slabIndex
    · subst same
      dsimp only at given
      rw [Function.update_self] at given
      cases given
      exact ⟨storable, own⟩
    · dsimp only at given
      rw [Function.update_of_ne same] at given
      exact holds.storableSlabs slabIndex found given
  storableRoots := holds.storableRoots

theorem Holds.writeRootState (holds : Holds disk path memory files) {name : List UInt8}
    {rootState : ArenaRootState} (storable : rootState.Storable) (plain : PlainName name)
    (written : disk.write files (path ++ rootSuffix name) (serializeArenaRootState rootState) =
      some files') :
    Holds disk path { memory with rootStates := Function.update memory.rootStates name (some rootState) }
      files' where
  index := holds.index_of_write (plain_rootSuffix plain) nofun written rfl rfl
  slabs := by
    intro slabIndex
    rw [Disk.read_write_of_ne (plain_rootSuffix plain) (plain_slabSuffix _)
      (slabSuffix_ne_rootSuffix _ _).symm written, holds.slabs]
  rootStates := by
    intro other plain'
    by_cases same : other = name
    · subst same
      rw [Disk.read_write written]
      dsimp only
      rw [Function.update_self]
      rfl
    · have differ : rootSuffix name ≠ rootSuffix other :=
        fun equal => same (List.append_cancel_left equal).symm
      rw [Disk.read_write_of_ne (plain_rootSuffix plain) (plain_rootSuffix plain') differ written,
        holds.rootStates other plain']
      dsimp only
      rw [Function.update_of_ne same]
  storableSlabs := holds.storableSlabs
  storableRoots := by
    intro other found given
    by_cases same : other = name
    · subst same
      dsimp only at given
      rw [Function.update_self] at given
      cases given
      exact storable
    · dsimp only at given
      rw [Function.update_of_ne same] at given
      exact holds.storableRoots other found given

end Holding

section Running

variable {disk : Disk κ} {path : List UInt8} {memory : MemoryArenaStore} {files : Files κ}

theorem Holds.call (holds : Holds disk path memory files) {call : ArenaStore.Call}
    (fits : Fits disk path call) :
    (FileArenaStore.call disk files ⟨path⟩ call).1 = (memory.call call).1 ∧
      Holds disk path (memory.call call).2 (FileArenaStore.call disk files ⟨path⟩ call).2 := by
  obtain ⟨index, indexes, read⟩ := holds.readAll
  cases call with
  | loadCurrent =>
    refine ⟨?_, holds⟩
    show Answer.checkpoint ((FileArenaStore.readAll disk files ⟨path⟩).bind Index.current) = _
    rw [read, Option.bind_some, indexes.current]
    rfl
  | loadNamedCheckpoint name =>
    refine ⟨?_, holds⟩
    show Answer.checkpoint ((FileArenaStore.readAll disk files ⟨path⟩).bind
      fun index => index.named[name]?) = _
    rw [read, Option.bind_some, indexes.named]
    rfl
  | saveCurrent checkpoint =>
    obtain ⟨files', written⟩ := @Disk.exists_write κ _ disk files path
      (indexText { index with current := some checkpoint }) fits
    have both : FileArenaStore.call disk files ⟨path⟩ (.saveCurrent checkpoint) =
        (.saved true, files') := by
      unfold FileArenaStore.call saved writeAll
      dsimp only
      rw [read, Option.bind_some, written]
      rfl
    have indexes' : Indexes (memory.call (.saveCurrent checkpoint)).2
        { index with current := some checkpoint } := ⟨rfl, indexes.named, indexes.words⟩
    rw [both]
    exact ⟨rfl, holds.writeIndex indexes' rfl rfl written⟩
  | saveNamedCheckpoint name checkpoint =>
    obtain ⟨isWord, opens⟩ := fits
    obtain ⟨files', written⟩ := @Disk.exists_write κ _ disk files path
      (indexText { index with named := index.named.insert name checkpoint }) opens
    have both : FileArenaStore.call disk files ⟨path⟩ (.saveNamedCheckpoint name checkpoint) =
        (.saved true, files') := by
      unfold FileArenaStore.call saved writeAll
      dsimp only
      rw [read, Option.bind_some, written]
      rfl
    have indexes' : Indexes (memory.call (.saveNamedCheckpoint name checkpoint)).2
        { index with named := index.named.insert name checkpoint } := by
      refine ⟨indexes.current, ?_, ?_⟩
      · intro other
        show (index.named.insert name checkpoint)[other]? =
          Function.update memory.named name (some checkpoint) other
        rw [Std.TreeMap.getElem?_insert]
        by_cases same : other = name
        · subst same
          rw [if_pos Std.ReflCmp.compare_self, Function.update_self]
        · have apart : compare name other ≠ .eq :=
            fun equal => same (Std.LawfulEqCmp.eq_of_compare equal).symm
          rw [if_neg apart, Function.update_of_ne same, indexes.named]
      · intro other metadata given
        by_cases same : other = name
        · exact same ▸ isWord
        · refine indexes.words other metadata ?_
          dsimp only [MemoryArenaStore.call] at given
          rwa [Function.update_of_ne same] at given
    rw [both]
    exact ⟨rfl, holds.writeIndex indexes' rfl rfl written⟩
  | saveSlab slab =>
    obtain ⟨storable, own, opens⟩ := fits
    obtain ⟨files', written⟩ := @Disk.exists_write κ _ disk files _ (serializeArenaSlabImage slab) opens
    have both : FileArenaStore.call disk files ⟨path⟩ (.saveSlab slab) = (.saved true, files') := by
      show saved files (disk.write files (path ++ slabSuffix slab.slabIndex) _) = _
      rw [written]
      rfl
    rw [both]
    exact ⟨rfl, holds.writeSlab storable own written⟩
  | loadSlab slabIndex =>
    refine ⟨?_, holds⟩
    show Answer.slab ((disk.read files (path ++ slabSuffix slabIndex)).bind deserializeArenaSlabImage) =
      .slab (memory.slabs slabIndex)
    rw [holds.slabs]
    cases found : memory.slabs slabIndex with
    | none => rfl
    | some slab =>
      obtain ⟨storable, own⟩ := holds.storableSlabs slabIndex slab found
      rw [Option.map_some, Option.bind_some, deserializeArenaSlabImage_serialize storable own]
  | saveRootState name rootState =>
    obtain ⟨storable, plain, opens⟩ := fits
    obtain ⟨files', written⟩ :=
      @Disk.exists_write κ _ disk files _ (serializeArenaRootState rootState) opens
    have both : FileArenaStore.call disk files ⟨path⟩ (.saveRootState name rootState) =
        (.saved true, files') := by
      show saved files (disk.write files (path ++ rootSuffix name) _) = _
      rw [written]
      rfl
    rw [both]
    exact ⟨rfl, holds.writeRootState storable plain written⟩
  | loadRootState name =>
    refine ⟨?_, holds⟩
    show Answer.rootState ((disk.read files (path ++ rootSuffix name)).bind deserializeArenaRootState) =
      .rootState (memory.rootStates name)
    rw [holds.rootStates name fits]
    cases found : memory.rootStates name with
    | none => rfl
    | some rootState =>
      rw [Option.map_some, Option.bind_some,
        deserializeArenaRootState_serialize (holds.storableRoots name rootState found)]

theorem Holds.answers (holds : Holds disk path memory files)
    (calls : List (FileArenaStore × ArenaStore.Call))
    (fits : ∀ pair ∈ calls, pair.1.path = path ∧ Fits disk path pair.2) :
    FileArenaStore.answers disk files calls = memory.answers (calls.map Prod.snd) := by
  -- The induction is on the calls that are left; what the files hold carries it.
  induction calls generalizing memory files with
  | nil => rfl
  | cons pair rest ih =>
    obtain ⟨⟨own, fit⟩, others⟩ := List.forall_mem_cons.mp fits
    obtain ⟨⟨path'⟩, call⟩ := pair
    obtain rfl : path' = path := own
    obtain ⟨same, holds'⟩ := holds.call fit
    rw [FileArenaStore.answers, List.map_cons, MemoryArenaStore.answers, same, ih holds' others]

end Running

/--
Stores in files at one path answer as one store in memory does, whichever of them is called.

Every call has to fit: named metadata goes under words, root states go under plain names, images
and root states can be stored, and what is written goes to paths that open.
-/
theorem answers_eq_memory {κ : Type} [DecidableEq κ] (disk : Disk κ) (path : List UInt8)
    (calls : List (FileArenaStore × ArenaStore.Call))
    (fits : ∀ pair ∈ calls, pair.1.path = path ∧ Fits disk path pair.2) :
    answers disk (fun _ => none) calls = MemoryArenaStore.answers {} (calls.map Prod.snd) :=
  (holds_fresh disk path).answers calls fits

/-- A disk on which every path without a zero byte opens a file of its own. -/
def flatDisk : Disk (List UInt8) where
  resolve path := if (0 : UInt8) ∈ path then none else some path
  apart := by
    intro base one other file _ _ opens opens'
    have first : base ++ one = file := by
      split at opens
      · cases opens
      · exact Option.some.inj opens
    have second : base ++ other = file := by
      split at opens'
      · cases opens'
      · exact Option.some.inj opens'
    exact List.append_cancel_left (first.trans second.symm)

/-- Metadata saved under a word by one store, and loaded by another. -/
theorem answers_eq_memory_bootstrap :
    let calls : List (FileArenaStore × ArenaStore.Call) :=
      [(⟨ascii "arena"⟩, .saveCurrent { checkpointLogStarts := [3, 5] }),
        (⟨ascii "arena"⟩, .saveNamedCheckpoint (ascii "bootstrap") {}),
        (⟨ascii "arena"⟩, .loadCurrent)]
    (∀ pair ∈ calls, pair.1.path = ascii "arena" ∧ Fits flatDisk (ascii "arena") pair.2) ∧
      answers flatDisk (fun _ => none) calls = MemoryArenaStore.answers {} (calls.map Prod.snd) := by
  have fits : ∀ pair ∈ ([(⟨ascii "arena"⟩, .saveCurrent { checkpointLogStarts := [3, 5] }),
      (⟨ascii "arena"⟩, .saveNamedCheckpoint (ascii "bootstrap") {}),
      (⟨ascii "arena"⟩, .loadCurrent)] : List (FileArenaStore × ArenaStore.Call)),
      pair.1.path = ascii "arena" ∧ Fits flatDisk (ascii "arena") pair.2 := by
    have opens : (flatDisk.resolve (ascii "arena")).isSome := by decide
    have isWord : Word (ascii "bootstrap") := by decide
    refine List.forall_mem_cons.mpr ⟨⟨rfl, opens⟩, List.forall_mem_cons.mpr ⟨⟨rfl, isWord, opens⟩,
      List.forall_mem_cons.mpr ⟨⟨rfl, trivial⟩, nofun⟩⟩⟩
  exact ⟨fits, answers_eq_memory flatDisk (ascii "arena") _ fits⟩

/-- Saving metadata under an empty name succeeds, and nothing can be loaded from the files any more. -/
theorem answers_ne_memory_empty_name :
    let calls : List ArenaStore.Call := [.saveCurrent {}, .saveNamedCheckpoint [] {}, .loadCurrent]
    answers flatDisk (fun _ => none) (calls.map (⟨ascii "arena"⟩, ·)) =
        [.saved true, .saved true, .checkpoint none] ∧
      MemoryArenaStore.answers {} calls = [.saved true, .saved true, .checkpoint (some {})] := by
  refine ⟨by decide +kernel, by decide +kernel⟩

end FileArenaStore

namespace FileArenaStore

section Restart

variable {T : Type} {κ : Type} [DecidableEq κ] (disk : Disk κ) (store : FileArenaStore)

/-- The loop of `saveAllocatorImagesToStore` over the images. -/
def saveImages : List ArenaSlabImage → Files κ → Bool × Files κ
  | [], files => (true, files)
  | image :: rest, files =>
    if (store.call disk files (.saveSlab image)).1 = .saved true then
      saveImages rest (store.call disk files (.saveSlab image)).2
    else (false, (store.call disk files (.saveSlab image)).2)

variable {disk} {path : List UInt8} {memory : MemoryArenaStore} {files : Files κ}

/-- Images of different slabs are all in the store when the last one has been saved. -/
theorem Holds.saveImages (images : List ArenaSlabImage)
    (apart : (images.map ArenaSlabImage.slabIndex).Nodup)
    (fits : ∀ image ∈ images, Fits disk path (.saveSlab image)) :
    ∀ {memory : MemoryArenaStore} {files : Files κ}, Holds disk path memory files →
      ∃ memory' files', FileArenaStore.saveImages disk ⟨path⟩ images files = (true, files') ∧
        Holds disk path memory' files' ∧
        (∀ image ∈ images, memory'.slabs image.slabIndex = some image) ∧
        ∀ index ∉ images.map ArenaSlabImage.slabIndex, memory'.slabs index = memory.slabs index := by
  induction images with
  | nil =>
    intro memory files holds
    exact ⟨memory, files, rfl, holds, fun _ member => (by cases member), fun _ _ => rfl⟩
  | cons image rest ih =>
    intro memory files holds
    obtain ⟨new, others⟩ := List.nodup_cons.mp apart
    obtain ⟨fit, fits⟩ := List.forall_mem_cons.mp fits
    obtain ⟨answer, after⟩ := holds.call fit
    obtain ⟨memory', files', ran, holds', found, kept⟩ := ih others fits after
    refine ⟨memory', files', ?_, holds', List.forall_mem_cons.mpr ⟨?_, found⟩, fun index missing => ?_⟩
    · have told : (FileArenaStore.call disk files ⟨path⟩ (.saveSlab image)).1 = .saved true := answer
      rw [FileArenaStore.saveImages, if_pos told, ran]
    · -- The later images go under other indices.
      rw [kept _ new]
      exact Function.update_self ..
    · obtain ⟨other, later⟩ := not_or.mp (mt List.mem_cons.mpr missing)
      rw [kept index later]
      exact Function.update_of_ne other ..

end Restart

end FileArenaStore

end AgentC

import Std.Data.TreeMap
import AgentC.Alloc.Codec
import AgentC.Alloc.Slab
import AgentC.Cartographer.Protocol

/-! The stores of saved arenas: one that keeps them in memory, and one that keeps them in files. -/

namespace AgentC

open Cartographer (decimalDigits decimalPrefix isSpace)
open Listree (byte isDigit)

namespace ArenaStore

/-- The metadata of a checkpoint as the stores keep it. -/
structure ArenaCheckpointMetadata where
  version : UInt32 := 1
  slabSize : UInt32 := UInt32.ofNat AgentC.slabSize
  activeSlabCount : UInt32 := 0
  liveSlotCount : UInt32 := 0
  allocationLogSize : UInt64 := 0
  highestSlabIndex : UInt16 := 0
  highestSlabOffset : UInt16 := 0
  checkpointLogStarts : List UInt64 := []
  deriving DecidableEq, Repr

section Metadata

def encodeCheckpointStarts (starts : List UInt64) : List UInt8 :=
  [byte ','].intercalate (starts.map fun start => decimalDigits start.toNat)

/-- What `getline` finds between the commas of a text; behind the last comma it finds no empty part. -/
def startParts (text : List UInt8) : List (List UInt8) :=
  let parts := text.splitOn (byte ',')
  if parts.getLast? = some [] then parts.dropLast else parts

def decodeCheckpointStarts (text : List UInt8) : Option (List UInt64) :=
  let parts := startParts text
  if parts.any List.isEmpty then none
  else some (parts.map fun part => (Cartographer.Protocol.strtoull part).1)

def serializeArenaCheckpointMetadata (metadata : ArenaCheckpointMetadata) : List UInt8 :=
  decimalDigits metadata.version.toNat ++ byte ' ' ::
  (decimalDigits metadata.slabSize.toNat ++ byte ' ' ::
  (decimalDigits metadata.activeSlabCount.toNat ++ byte ' ' ::
  (decimalDigits metadata.liveSlotCount.toNat ++ byte ' ' ::
  (decimalDigits metadata.allocationLogSize.toNat ++ byte ' ' ::
  (decimalDigits metadata.highestSlabIndex.toNat ++ byte ' ' ::
  (decimalDigits metadata.highestSlabOffset.toNat ++ byte ' ' ::
  encodeCheckpointStarts metadata.checkpointLogStarts))))))

abbrev StreamReader (α : Type) := Parser Unit α

/-- An unsigned number of so many bits; as in C a sign counts, and a number that is too large fails. -/
def readUnsigned (bits : Nat) : StreamReader Nat := do
  let text ← get
  match decimalPrefix text with
  | none => throw ()
  | some (negative, magnitude) =>
    set ((Listree.skipOne [byte '-', byte '+'] (text.dropWhile isSpace)).dropWhile isDigit)
    if magnitude < 2 ^ bits then
      return if negative then (2 ^ bits - magnitude) % 2 ^ bits else magnitude
    else throw ()

def restOfLine : StreamReader (List UInt8) := do
  let text := (← get).dropWhile isSpace
  set ((text.dropWhile (· ≠ byte '\n')).drop 1)
  return text.takeWhile (· ≠ byte '\n')

def readMetadata : StreamReader ArenaCheckpointMetadata := do
  let version ← readUnsigned 32
  let slabSize ← readUnsigned 32
  let activeSlabCount ← readUnsigned 32
  let liveSlotCount ← readUnsigned 32
  let allocationLogSize ← readUnsigned 64
  let highestSlabIndex ← readUnsigned 16
  let highestSlabOffset ← readUnsigned 16
  let starts ← restOfLine
  match decodeCheckpointStarts starts with
  | none => throw ()
  | some checkpointLogStarts =>
    return {
      version := UInt32.ofNat version
      slabSize := UInt32.ofNat slabSize
      activeSlabCount := UInt32.ofNat activeSlabCount
      liveSlotCount := UInt32.ofNat liveSlotCount
      allocationLogSize := UInt64.ofNat allocationLogSize
      highestSlabIndex := UInt16.ofNat highestSlabIndex
      highestSlabOffset := UInt16.ofNat highestSlabOffset
      checkpointLogStarts }

def deserializeArenaCheckpointMetadata (text : List UInt8) : Except Unit ArenaCheckpointMetadata :=
  (readMetadata text).map Prod.fst

end Metadata

inductive Call
  | loadCurrent
  | saveCurrent (checkpoint : ArenaCheckpointMetadata)
  | saveNamedCheckpoint (name : List UInt8) (checkpoint : ArenaCheckpointMetadata)
  | loadNamedCheckpoint (name : List UInt8)
  | saveSlab (slab : ArenaSlabImage)
  | loadSlab (slabIndex : Nat)
  | saveRootState (name : List UInt8) (rootState : ArenaRootState)
  | loadRootState (name : List UInt8)

/-- What a call of a store returns: whether it saved, or what it loaded. -/
inductive Answer
  | saved (ok : Bool)
  | checkpoint (found : Option ArenaCheckpointMetadata)
  | slab (found : Option ArenaSlabImage)
  | rootState (found : Option ArenaRootState)
  deriving DecidableEq

end ArenaStore

open ArenaStore

/-- The store that keeps in memory what is saved. -/
structure MemoryArenaStore where
  current : Option ArenaStore.ArenaCheckpointMetadata := none
  named : List UInt8 → Option ArenaStore.ArenaCheckpointMetadata := fun _ => none
  slabs : Nat → Option ArenaSlabImage := fun _ => none
  rootStates : List UInt8 → Option ArenaRootState := fun _ => none

namespace MemoryArenaStore

def call (store : MemoryArenaStore) : ArenaStore.Call → Answer × MemoryArenaStore
  | .loadCurrent => (.checkpoint store.current, store)
  | .saveCurrent checkpoint => (.saved true, { store with current := some checkpoint })
  | .saveNamedCheckpoint name checkpoint =>
    (.saved true, { store with named := Function.update store.named name (some checkpoint) })
  | .loadNamedCheckpoint name => (.checkpoint (store.named name), store)
  | .saveSlab slab =>
    (.saved true, { store with slabs := Function.update store.slabs slab.slabIndex (some slab) })
  | .loadSlab slabIndex => (.slab (store.slabs slabIndex), store)
  | .saveRootState name rootState =>
    (.saved true, { store with rootStates := Function.update store.rootStates name (some rootState) })
  | .loadRootState name => (.rootState (store.rootStates name), store)

def answers (store : MemoryArenaStore) : List ArenaStore.Call → List Answer
  | [] => []
  | call :: rest => (store.call call).1 :: (store.call call).2.answers rest

end MemoryArenaStore

def PlainName (name : List UInt8) : Prop :=
  byte '/' ∉ name ∧ (0 : UInt8) ∉ name

/--
The names of a disk: which file a path opens, where it opens one.

Entries of one directory that have different names are different files.
-/
structure Disk (κ : Type) where
  resolve : List UInt8 → Option κ
  apart : ∀ base one other file, PlainName one → PlainName other →
    resolve (base ++ one) = some file → resolve (base ++ other) = some file → one = other

abbrev Files (κ : Type) := κ → Option (List UInt8)

namespace Disk

variable {κ : Type} [DecidableEq κ]

def read (disk : Disk κ) (files : Files κ) (path : List UInt8) : Option (List UInt8) :=
  (disk.resolve path).bind files

def write (disk : Disk κ) (files : Files κ) (path text : List UInt8) : Option (Files κ) :=
  (disk.resolve path).map fun file => Function.update files file (some text)

end Disk

/-- The store that keeps in files what is saved. -/
structure FileArenaStore where
  path : List UInt8
  deriving DecidableEq

namespace FileArenaStore

section Index

/-- What the index file says: the current metadata, and the metadata under names. -/
structure Index where
  current : Option ArenaStore.ArenaCheckpointMetadata := none
  named : Std.TreeMap (List UInt8) ArenaStore.ArenaCheckpointMetadata := ∅

/-- A word of a stream behind blanks; nothing when only blanks are left. -/
def readWord : StreamReader (Option (List UInt8)) := do
  let text := (← get).dropWhile isSpace
  set (text.dropWhile (!isSpace ·))
  let word := text.takeWhile (!isSpace ·)
  return if word = [] then none else some word

def readPayload : StreamReader ArenaStore.ArenaCheckpointMetadata := do
  let payload ← restOfLine
  deserializeArenaCheckpointMetadata payload

/-- One turn of the loop over the entries: the index with one entry more, or nothing at the end. -/
def readEntry (index : Index) : StreamReader (Option Index) := do
  match ← readWord with
  | none => return none
  | some kind =>
    if kind = ascii "current" then
      let metadata ← readPayload
      return some { index with current := some metadata }
    else if kind = ascii "named" then
      match ← readWord with
      | none => throw ()
      | some name =>
        let metadata ← readPayload
        return some { index with named := index.named.insert name metadata }
    else throw ()

/-- The loop over the entries, for so many turns. -/
def readEntries : Nat → Index → StreamReader Index
  | 0, index => return index
  | turns + 1, index => do
    match ← readEntry index with
    | none => return index
    | some index => readEntries turns index

def parseIndex (text : List UInt8) : Except Unit Index :=
  (readEntries text.length {} text).map Prod.fst

def currentLine (metadata : ArenaStore.ArenaCheckpointMetadata) : List UInt8 :=
  ascii "current " ++ (serializeArenaCheckpointMetadata metadata ++ [byte '\n'])

def namedLine (entry : List UInt8 × ArenaStore.ArenaCheckpointMetadata) : List UInt8 :=
  ascii "named " ++ (entry.1 ++ byte ' ' :: (serializeArenaCheckpointMetadata entry.2 ++ [byte '\n']))

def indexText (index : Index) : List UInt8 :=
  (index.current.elim [] currentLine) ++ index.named.toList.flatMap namedLine

end Index

variable {κ : Type} [DecidableEq κ] (disk : Disk κ) (files : Files κ) (store : FileArenaStore)

def readAll : Option Index :=
  match disk.read files store.path with
  | none => some {}
  | some text => (parseIndex text).toOption

def writeAll (index : Index) : Option (Files κ) :=
  disk.write files store.path (indexText index)

def slabPath (slabIndex : Nat) : List UInt8 :=
  store.path ++ (ascii ".slab." ++ decimalDigits slabIndex)

def rootPath (name : List UInt8) : List UInt8 :=
  store.path ++ (ascii ".root." ++ name)

def saved (files : Files κ) (written : Option (Files κ)) : Answer × Files κ :=
  (.saved written.isSome, written.getD files)

def call : ArenaStore.Call → Answer × Files κ
  | .loadCurrent => (.checkpoint ((store.readAll disk files).bind Index.current), files)
  | .saveCurrent checkpoint =>
    saved files ((store.readAll disk files).bind fun index =>
      store.writeAll disk files { index with current := some checkpoint })
  | .saveNamedCheckpoint name checkpoint =>
    saved files ((store.readAll disk files).bind fun index =>
      store.writeAll disk files { index with named := index.named.insert name checkpoint })
  | .loadNamedCheckpoint name =>
    (.checkpoint ((store.readAll disk files).bind fun index => index.named[name]?), files)
  | .saveSlab slab =>
    saved files (disk.write files (store.slabPath slab.slabIndex) (serializeArenaSlabImage slab))
  | .loadSlab slabIndex =>
    (.slab ((disk.read files (store.slabPath slabIndex)).bind deserializeArenaSlabImage), files)
  | .saveRootState name rootState =>
    saved files (disk.write files (store.rootPath name) (serializeArenaRootState rootState))
  | .loadRootState name =>
    (.rootState ((disk.read files (store.rootPath name)).bind deserializeArenaRootState), files)

def answers (disk : Disk κ) (files : Files κ) : List (FileArenaStore × ArenaStore.Call) → List Answer
  | [] => []
  | (store, call) :: rest =>
    (store.call disk files call).1 :: answers disk (store.call disk files call).2 rest

end FileArenaStore

end AgentC

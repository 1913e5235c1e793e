import AgentC.Library.Words
import AgentC.Alloc.Blobs
import AgentC.Alloc.Graphs
import AgentC.Alloc.Pointers
import AgentC.Listree.Tree

/-! Where values keep their bytes, inline or in a blob, and the nodes that hold them together. -/

namespace AgentC.Storage

/-- The flags of a value (`LtvFlags`), one field for each bit. -/
structure LtvFlags where
  duplicate : Bool := false
  own : Bool := false
  binary : Bool := false
  null : Bool := false
  immediate : Bool := false
  staticView : Bool := false
  slabBlob : Bool := false
  logicVar : Bool := false
  iterator : Bool := false
  list : Bool := false
  readOnly : Bool := false
  deriving DecidableEq, Repr

def LtvFlags.withoutFree (flags : LtvFlags) : LtvFlags :=
  { flags with duplicate := false, own := false }

/-- The 16 bytes that the union `payload` shares between its two members. -/
structure Payload where
  bytes : List UInt8
  size : bytes.length = 16
  deriving DecidableEq, Repr

namespace Payload

/-- Writing the first inline bytes and the inline length, which leaves the bytes between alone. -/
def sso (old : Payload) (data : List UInt8) (length : UInt8) (fits : data.length ≤ 15) :
    Payload where
  bytes := data ++ ((old.bytes.take 15).drop data.length ++ [length])
  size := by
    simp only [List.length_append, List.length_drop, List.length_take, old.size,
      List.length_singleton]
    omega

def ext (pointer : List UInt8) (length : Nat) (fits : pointer.length = 8) : Payload where
  bytes := pointer ++ (wordBytes 8 length ++ [])
  size := by simp [fits]

def blobPointer (id : SlabId) : List UInt8 :=
  wordBytes 2 id.first ++ (wordBytes 2 id.second ++ wordBytes 4 0)

theorem length_blobPointer (id : SlabId) : (blobPointer id).length = 8 := by
  simp [blobPointer]

end Payload

/-- What a value keeps besides its children. -/
structure ListreeValue where
  flags : LtvFlags
  payload : Payload
  pinnedCount : Int32 := 0

namespace ListreeValue

def getLength (value : ListreeValue) : Nat :=
  if value.flags.immediate then wordAt value.payload.bytes 15 1 else wordAt value.payload.bytes 8 8

def blobId (value : ListreeValue) : SlabId :=
  ⟨wordAt value.payload.bytes 0 2, wordAt value.payload.bytes 2 2⟩

/--
The bytes behind the pointer that `getData` returns.

Nothing is said of raw pointers, which no value with bytes of its own holds.
-/
def getData (value : ListreeValue) (blobs : BlobAllocator) (length : Nat) : Option (List UInt8) :=
  if value.flags.immediate then some (value.payload.bytes.take length)
  else if value.flags.slabBlob then blobs.readBlob value.blobId length
  else none

/-- The value whose pointer member names a blob. -/
def ofBlob (id : SlabId) (length : Nat) (flags : LtvFlags) : ListreeValue where
  flags := { flags.withoutFree with slabBlob := true }
  payload := .ext (Payload.blobPointer id) length (Payload.length_blobPointer id)

/-- A value over a new blob. The constructor does not look whether the blob could be stored. -/
def overBlob (create : Nat → Option (Nat → UInt8)) (blobs : BlobAllocator) (data : List UInt8)
    (flags : LtvFlags) : Option ListreeValue × BlobAllocator :=
  match blobs.allocate create data with
  | (some id, blobs) => (some (ofBlob id data.length flags), blobs)
  | (none, blobs) => (none, blobs)

/--
The string constructor. `old` is what the value's memory held, and `create` what a new blob slab
starts with, or that creating it throws; the value is then missing.
-/
def ofString (old : Payload) (create : Nat → Option (Nat → UInt8)) (blobs : BlobAllocator)
    (str : List UInt8) (flags : LtvFlags) : Option ListreeValue × BlobAllocator :=
  let flags := { flags with duplicate := true }
  let immediate := { flags.withoutFree with immediate := true }
  if short : 0 < str.length ∧ str.length ≤ 15 then
    (some { flags := immediate
            payload := old.sso str (UInt8.ofNat str.length) short.2 }, blobs)
  else if 0 < str.length then overBlob create blobs str flags
  else
    -- The empty string is kept inline, and ends with a zero byte.
    (some { flags := immediate, payload := old.sso [0] 0 (by simp) }, blobs)

def ofBuffer (old : Payload) (create : Nat → Option (Nat → UInt8)) (blobs : BlobAllocator)
    (address : Nat) (data : List UInt8) (flags : LtvFlags) :
    Option ListreeValue × BlobAllocator :=
  let wantsCopy := flags.duplicate || flags.own
  if short : (0 < data.length ∧ data.length ≤ 15) ∧ wantsCopy then
    (some { flags := { flags.withoutFree with immediate := true }
            payload := old.sso data (UInt8.ofNat data.length) short.1.2 }, blobs)
  else if 0 < data.length then
    if wantsCopy then overBlob create blobs data flags
    else (some { flags, payload := .ext (wordBytes 8 address) data.length (length_wordBytes 8 _) },
      blobs)
  else (some { flags, payload := .ext (wordBytes 8 0) 0 (length_wordBytes 8 _) }, blobs)

end ListreeValue

/-- The calls that create a value. -/
inductive Creation where
  | createStringValue (str : List UInt8) (flags : LtvFlags)
  | createBinaryValue (address : Nat) (data : List UInt8)
  | createNullValue
  | createListValue
  | createCursorValue (address : Nat) (cursor : List UInt8)

namespace Creation

def bytes : Creation → Option (List UInt8)
  | .createStringValue str _ => some str
  | .createBinaryValue _ data => some data
  | .createNullValue | .createListValue | .createCursorValue _ _ => none

def construct (old : Payload) (create : Nat → Option (Nat → UInt8)) (blobs : BlobAllocator) :
    Creation → Option ListreeValue × BlobAllocator
  | .createStringValue str flags => ListreeValue.ofString old create blobs str flags
  | .createBinaryValue address data =>
    ListreeValue.ofBuffer old create blobs address data { duplicate := true, own := true, binary := true }
  | .createNullValue => ListreeValue.ofBuffer old create blobs 0 [] { null := true }
  | .createListValue => ListreeValue.ofBuffer old create blobs 0 [] { list := true }
  | .createCursorValue address cursor =>
    ListreeValue.ofBuffer old create blobs address cursor { iterator := true }

end Creation

/-- What the environment answers while a value is created. -/
structure Environment where
  slab : Nat → Bool
  /-- What a new blob slab starts with, when it can be had. -/
  blob : Nat → Option (Nat → UInt8)
  old : Payload

/-- The values that live, and the blobs. -/
structure ValueHeap where
  values : Allocator ListreeValue
  blobs : BlobAllocator

namespace ValueHeap

instance : Inhabited ListreeValue :=
  ⟨{ flags := { null := true }, payload := .ext (wordBytes 8 0) 0 (length_wordBytes 8 _) }⟩

def initial : ValueHeap where
  values := Allocator.initial
  blobs := BlobAllocator.initial

/-- Creating a value, and the pointer that is returned to it. An exception returns nothing. -/
def create (h : ValueHeap) (env : Environment) (creation : Creation) :
    Option SlabId × ValueHeap :=
  match h.values.allocRaw env.slab with
  | (.ok si, values) =>
    match creation.construct env.old env.blob h.blobs with
    | (some value, blobs) =>
      let (held, values) := CPtr.fromSlabId (values.placeItem si value) si
      (some held, ⟨values, blobs⟩)
    | (none, blobs) => (none, ⟨values, blobs⟩)
  | (.error _, values) => (none, ⟨values, h.blobs⟩)

/-- Changing how often a value is pinned, unless it is immortal. -/
def repin (h : ValueHeap) (si : SlabId) (change : Int32 → Int32) : Option ValueHeap :=
  (h.values.getPtr si).map fun value =>
    if h.values.slotIsStaticImmortal si then h
    else { h with
      values := h.values.placeItem si { value with pinnedCount := change value.pinnedCount } }

end ValueHeap

inductive HeapCall where
  | create (env : Environment) (creation : Creation)
  | retain (si : SlabId)
  /-- A pointer to a value goes away. -/
  | release (si : SlabId)
  | pin (si : SlabId)
  | unpin (si : SlabId)

def ValueHeap.step (h : ValueHeap) : HeapCall → Option ValueHeap
  | .create env creation => some (h.create env creation).2
  | .retain si =>
    -- There is no memory for as many pointers as the count could not tell apart.
    if (h.values.refs si).toNat + 1 < 2 ^ 64 then
      some { h with values := (CPtr.fromSlabId h.values si).2 }
    else none
  | .release si => some { h with values := CPtr.destroy h.values si }
  | .pin si => h.repin si (· + 1)
  | .unpin si => h.repin si fun count => if 0 < count then count - 1 else count

def ListreeValue.Returns (value : ListreeValue) (blobs : BlobAllocator) (data : List UInt8) : Prop :=
  value.getLength = data.length ∧ (data ≠ [] → value.getData blobs data.length = some data)

def ValueHeap.Returns (h : ValueHeap) (si : SlabId) (data : List UInt8) : Prop :=
  ∃ value, h.values.getPtr si = some value ∧ value.Returns h.blobs data

def ValueHeap.Live (si : SlabId) (h : ValueHeap) : Prop :=
  h.values.valid si = true

/--
Whether there is a place for a value's bytes: inline, or else in a blob slab, which no caller's flag
may hide.
-/
def Creation.Fits (creation : Creation) (blobs : BlobAllocator) : Prop :=
  ∀ data, creation.bytes = some data → data.length ≤ 15 ∨
    ((∀ str flags, creation = .createStringValue str flags → flags.immediate = false) ∧
      ∃ i, i < numSlabs ∧ blobs.fillLevel i + data.length ≤ BlobSlab.size)

/-- The allocators that items of values live in. -/
inductive ArenaKind where
  | treeNode
  | listNode
  | valueRef
  | item
  | value
  deriving DecidableEq, Repr

/-- `AATree<ListreeItem>`. -/
structure TreeNode where
  left : SlabId
  right : SlabId
  name : Name
  level : Nat
  data : SlabId

/-- `CLL<ListreeValueRef>`. -/
structure ListNode where
  backward : SlabId
  forward : SlabId
  data : SlabId

/-- `ListreeValueRef`. -/
structure ValueRef where
  value : SlabId

/-- `ListreeItem`. -/
structure ItemNode where
  name : Name
  values : SlabId

/--
A `ListreeValue` with its children.

The cursor of an iterator lives in no arena: the references that it holds are the program's own.
-/
structure ValueNode where
  list : SlabId
  tree : SlabId
  content : ListreeValue

def Node : ArenaKind → Type
  | .treeNode => TreeNode
  | .listNode => ListNode
  | .valueRef => ValueRef
  | .item => ItemNode
  | .value => ValueNode

/-- The owning pointers of an item. -/
def Node.handles : ∀ k, Node k → List (Handle ArenaKind)
  | .treeNode, (node : TreeNode) =>
    [⟨.treeNode, node.left⟩, ⟨.treeNode, node.right⟩, ⟨.item, node.data⟩]
  | .listNode, (node : ListNode) =>
    [⟨.listNode, node.backward⟩, ⟨.listNode, node.forward⟩, ⟨.valueRef, node.data⟩]
  | .valueRef, (node : ValueRef) => [⟨.value, node.value⟩]
  | .item, (node : ItemNode) => [⟨.listNode, node.values⟩]
  | .value, (node : ValueNode) => [⟨.listNode, node.list⟩, ⟨.treeNode, node.tree⟩]

def Node.reassigned : ∀ k, Node k → List (Handle ArenaKind)
  | .value, (node : ValueNode) => [⟨.listNode, node.list⟩, ⟨.treeNode, node.tree⟩]
  | _, _ => []

/-- What `resetTransient` leaves of an item. -/
def Node.cleared : ∀ k, Node k → Node k
  | .treeNode, (node : TreeNode) =>
    show TreeNode from { node with name := [], level := 0 }
  | .listNode, (node : ListNode) => node
  | .valueRef, (node : ValueRef) => node
  | .item, (node : ItemNode) => show ItemNode from { node with name := [] }
  | .value, _ =>
    show ValueNode from
      { list := {}
        tree := {}
        content :=
          { flags := { null := true }
            payload := .ext (wordBytes 8 0) 0 (length_wordBytes 8 _)
            pinnedCount := 0 } }

def nodeTraits : HandleTraits ArenaKind Node where
  handles := Node.handles
  reassigned := Node.reassigned
  cleared := Node.cleared

def oneItem {T : Type} (count : UInt64) (item : T) : Allocator T where
  slabs := fun index =>
    if index = 0 then some
      { count := 2
        inUse := fun offset => if offset = 0 then 1 else if offset = 1 then count else 0
        items := fun _ => item
        mappedBacking := false
        staticImmortal := false }
    else none

/-- A value that the program holds, and a reference to it that was made after a checkpoint. -/
def oneReference : Arenas Node
  | .valueRef => oneItem 1 (show ValueRef from { value := ⟨0, 1⟩ })
  | .value => oneItem 3 (show ValueNode from
      { list := {}
        tree := {}
        content :=
          { flags := { null := true }
            payload := .ext (wordBytes 8 0) 0 (length_wordBytes 8 _)
            pinnedCount := 0 } })
  | .treeNode => {}
  | .listNode => {}
  | .item => {}

end AgentC.Storage

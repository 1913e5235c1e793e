import Mathlib.Data.List.Infix
import AgentC.Listree.Tree
import AgentC.Root1.Broker
import AgentC.StaticImage.SlotTable

/-! Publications, and what is looked for in the texts of their manifests. -/

namespace AgentC.Root1

abbrev PublicationLayerId := UInt32

/-- What consumers may do with a publication. -/
inductive PublicationPermission where
  | none
  | readOnly
  deriving DecidableEq, Repr

/-- What a publisher advertises of a publication. -/
structure PublicationDescriptor where
  layerId : PublicationLayerId := 0
  owner : ParticipantId := 0
  epoch : UInt64 := 0
  manifestPath : Bytes := []
  manifestHash : Bytes := []
  rootDescriptor : Bytes := []
  rootHandle : SlabPayloadHandle := {}
  permission : PublicationPermission := .readOnly
  immutable : Bool := true
  deriving DecidableEq, Repr

def require (holds : Bool) (message : String) : Except String Unit :=
  if holds then .ok () else .error message

theorem require_bind {α : Type} {holds : Bool} {message : String} {next : Unit → Except String α}
    {result : α} :
    (require holds message >>= next) = .ok result ↔ holds = true ∧ next () = .ok result := by
  cases holds with
  | true => simp [require, bind, Except.bind]
  | false => simp [require, bind, Except.bind]

theorem require_eq_ok {holds : Bool} {message : String} {passed : Unit} :
    require holds message = .ok passed ↔ holds = true := by
  cases holds <;> simp [require]

/-- `std::to_string` of a number. -/
def decimal (value : Nat) : Bytes :=
  (Nat.toDigits 10 value).map fun digit => UInt8.ofNat digit.toNat

def fieldName (name : Bytes) : Bytes :=
  0x22 :: name ++ [0x22, 0x3A]

def jsonNumberField (name : Bytes) (value : Nat) : Bytes :=
  fieldName name ++ decimal value

def jsonStringField (name value : Bytes) : Bytes :=
  fieldName name ++ 0x22 :: value ++ [0x22]

def finds (text part : Bytes) : Bool :=
  decide (part <:+: text)

/-- Searching a manifest for the fields of a publication, one after the other. -/
def manifestContainsPublicationMetadata (manifest : Bytes) (publication : PublicationDescriptor) :
    Except String Unit := do
  require (finds manifest (jsonNumberField (ascii "layer_id") publication.layerId.toNat))
    "publication manifest layer mismatch"
  require (finds manifest (jsonNumberField (ascii "epoch") publication.epoch.toNat))
    "publication manifest epoch mismatch"
  require (finds manifest (jsonStringField (ascii "permission") (ascii "read_only")))
    "publication manifest permission mismatch"
  require (finds manifest (fieldName (ascii "immutable") ++ ascii "true"))
    "publication manifest immutability mismatch"
  require (publication.rootDescriptor.isEmpty ||
      finds manifest (jsonStringField (ascii "root_descriptor") publication.rootDescriptor))
    "publication manifest root descriptor mismatch"
  require (finds manifest (jsonNumberField (ascii "root_layer_id") publication.layerId.toNat))
    "publication manifest root layer mismatch"
  require (finds manifest
      (jsonNumberField (ascii "root_slab_id") publication.rootHandle.slabId.toNat))
    "publication manifest root slab mismatch"
  require (finds manifest
      (jsonNumberField (ascii "root_offset") publication.rootHandle.offset.toNat))
    "publication manifest root offset mismatch"
  require (finds manifest
      (jsonNumberField (ascii "root_generation") publication.rootHandle.generation.toNat))
    "publication manifest root generation mismatch"

def fnv1a64Hex (bytes : Bytes) : Bytes :=
  ascii "fnv1a64:" ++ StaticImage.fnv1a64 bytes

def validatePublicationManifest (files : Bytes → Option Bytes)
    (publication : PublicationDescriptor) : Except String Unit :=
  match files publication.manifestPath with
  | none => .error "publication manifest cannot be opened"
  | some manifest => do
    require (fnv1a64Hex manifest = publication.manifestHash) "publication manifest hash mismatch"
    manifestContainsPublicationMetadata manifest publication

end AgentC.Root1

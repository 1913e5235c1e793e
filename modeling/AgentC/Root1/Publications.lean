import Mathlib.Logic.Function.Basic
import AgentC.Root1.Manifests

/-! The publication registry: its operations, and what each of them changes. -/

namespace AgentC.Root1

structure PublicationLeaseRecord where
  owner : ParticipantId
  expiresAtTick : UInt64
  deriving DecidableEq, Repr

/-- The part of the broker that publications concern. -/
structure PublicationRegistry where
  participants : ParticipantId → Bool := fun _ => false
  nextPublicationLayerId : PublicationLayerId := 1
  publicationLeases : PublicationLayerId → Option PublicationLeaseRecord := fun _ => none
  publications : PublicationLayerId → Option PublicationDescriptor := fun _ => none

namespace PublicationRegistry

def isTaken (r : PublicationRegistry) (id : PublicationLayerId) : Bool :=
  id = 0 || (r.publicationLeases id).isSome || (r.publications id).isSome

/--
Drawing identities until one is not taken: the identity, and how many were drawn. Where all of them
have been drawn in vain, the loop never ends.
-/
def drawLayer (r : PublicationRegistry) : Nat → PublicationLayerId →
    Option (PublicationLayerId × Nat)
  | 0, _ => none
  | rounds + 1, id =>
    if r.isTaken id then (r.drawLayer rounds (id + 1)).map fun drawn => (drawn.1, drawn.2 + 1)
    else some (id, 1)

def leasePublicationLayer (r : PublicationRegistry) (owner : ParticipantId)
    (expiresAtTick : UInt64) : Option (PublicationLayerId × PublicationRegistry) :=
  if owner = 0 then some (0, r)
  else if r.participants owner then
    (r.drawLayer (2 ^ 32) r.nextPublicationLayerId).map fun drawn =>
      (drawn.1, { r with
        nextPublicationLayerId := drawn.1 + 1
        publicationLeases :=
          Function.update r.publicationLeases drawn.1 (some ⟨owner, expiresAtTick⟩) })
  else some (0, r)

def renewPublicationLease (r : PublicationRegistry) (layerId : PublicationLayerId)
    (owner : ParticipantId) (expiresAtTick : UInt64) : Bool × PublicationRegistry :=
  if layerId = 0 ∨ owner = 0 then (false, r)
  else
    match r.publicationLeases layerId with
    | none => (false, r)
    | some lease =>
      if lease.owner = owner ∧ r.participants owner then
        (true, { r with publicationLeases :=
          Function.update r.publicationLeases layerId (some { lease with expiresAtTick }) })
      else (false, r)

/-- What a publication has to be before the registry is asked. -/
def checkPublication (files : Bytes → Option Bytes) (publication : PublicationDescriptor) :
    Except String Unit := do
  require (publication.layerId ≠ 0) "publication layer id is required"
  require (publication.owner ≠ 0) "publication owner is required"
  require (publication.epoch ≠ 0) "publication epoch is required"
  require (!publication.manifestPath.isEmpty && !publication.manifestHash.isEmpty)
    "publication manifest path/hash are required"
  require (publication.immutable && publication.permission = .readOnly)
    "publication must be immutable and read-only"
  require (publication.rootHandle.layerId = 0 || publication.rootHandle.layerId = publication.layerId)
    "publication root handle layer mismatch"
  validatePublicationManifest files publication

def admits (r : PublicationRegistry) (publication : PublicationDescriptor) : Except String Unit :=
  match r.publicationLeases publication.layerId with
  | none => .error "publication layer is not leased"
  | some lease => do
    require (lease.owner = publication.owner) "publication owner does not hold the layer lease"
    require (r.participants publication.owner) "publication owner is not an active participant"
    match r.publications publication.layerId with
    | none => .ok ()
    | some current => require (current.epoch < publication.epoch) "publication epoch is stale"

def stored (publication : PublicationDescriptor) : PublicationDescriptor :=
  if publication.rootHandle.layerId = 0 then
    { publication with
      rootHandle := { publication.rootHandle with layerId := publication.layerId } }
  else publication

/-- Registering a publication, which fails with the first check that does. -/
def registerPublication (r : PublicationRegistry) (files : Bytes → Option Bytes)
    (publication : PublicationDescriptor) : Except String PublicationRegistry := do
  checkPublication files publication
  r.admits publication
  return { r with publications :=
    Function.update r.publications publication.layerId (some (stored publication)) }

def lookupPublication (r : PublicationRegistry) (layerId : PublicationLayerId) :
    Option PublicationDescriptor :=
  if layerId = 0 then none
  else if (r.publicationLeases layerId).isSome then r.publications layerId
  else none

/-- Ending the leases of some layers, and what is published on them. -/
def erase (r : PublicationRegistry) (layers : PublicationLayerId → Bool) : PublicationRegistry :=
  { r with
    publicationLeases := fun id => if layers id then none else r.publicationLeases id
    publications := fun id => if layers id then none else r.publications id }

def retirePublication (r : PublicationRegistry) (layerId : PublicationLayerId)
    (owner : ParticipantId) : Bool × PublicationRegistry :=
  if layerId = 0 ∨ owner = 0 then (false, r)
  else
    match r.publicationLeases layerId with
    | none => (false, r)
    | some lease =>
      if lease.owner = owner then (true, r.erase (· = layerId)) else (false, r)

/-- Whether the lease of a layer has run out. -/
def expired (r : PublicationRegistry) (nowTick : UInt64) (layerId : PublicationLayerId) : Bool :=
  match r.publicationLeases layerId with
  | none => false
  | some lease => lease.expiresAtTick ≤ nowTick

def recoverExpiredPublicationLeases (r : PublicationRegistry) (nowTick : UInt64) :
    PublicationRegistry :=
  r.erase (r.expired nowTick)

end PublicationRegistry

/-- What is asked of the registry. Manifests are read from the files as they are then. -/
inductive PublicationEvent where
  | registerParticipant (participant : ParticipantId)
  | leasePublicationLayer (owner : ParticipantId) (expiresAtTick : UInt64)
  | renewPublicationLease (layerId : PublicationLayerId) (owner : ParticipantId)
      (expiresAtTick : UInt64)
  | registerPublication (files : Bytes → Option Bytes) (publication : PublicationDescriptor)
  | lookupPublication (layerId : PublicationLayerId)
  | retirePublication (layerId : PublicationLayerId) (owner : ParticipantId)
  | recoverExpiredPublicationLeases (nowTick : UInt64)

end AgentC.Root1

namespace AgentC.Root1

namespace PublicationRegistry

variable {r r' : PublicationRegistry} {id : PublicationLayerId}

theorem drawLayer_eq_some {rounds : Nat} {first : PublicationLayerId} {drawn : Nat}
    (draws : r.drawLayer rounds first = some (id, drawn)) :
    1 ≤ drawn ∧ id + 1 = first + UInt32.ofNat drawn ∧ r.isTaken id = false := by
  -- Each round draws one identity.
  induction rounds generalizing first drawn with
  | zero => simp [drawLayer] at draws
  | succ rounds ih =>
    rw [drawLayer] at draws
    split_ifs at draws with taken
    · obtain ⟨later, isLater, pair⟩ := Option.map_eq_some_iff.mp draws
      obtain ⟨rfl, rfl⟩ := Prod.mk.inj pair
      obtain ⟨-, place, free⟩ := ih isLater
      refine ⟨Nat.le_add_left _ _, ?_, free⟩
      rw [place, UInt32.ofNat_add, UInt32.add_assoc, UInt32.add_comm 1]
      rfl
    · obtain ⟨rfl, rfl⟩ := Prod.mk.inj (Option.some.inj draws)
      exact ⟨Nat.le_refl _, rfl, by simpa using taken⟩

theorem drawLayer_free {rounds : Nat} (positive : 0 < rounds) (free : r.isTaken id = false) :
    r.drawLayer rounds id = some (id, 1) := by
  obtain ⟨rounds, rfl⟩ := Nat.exists_eq_add_of_lt positive
  rw [Nat.zero_add, drawLayer, free, if_neg Bool.false_ne_true]

theorem drawLayer_taken {rounds : Nat} {found : PublicationLayerId} {drawn : Nat}
    (taken : r.isTaken id = true) (draws : r.drawLayer rounds (id + 1) = some (found, drawn)) :
    r.drawLayer (rounds + 1) id = some (found, drawn + 1) := by
  rw [drawLayer, if_pos taken, draws]
  rfl

theorem leasePublicationLayer_eq_some {owner : ParticipantId} {expiresAtTick : UInt64}
    (leases : r.leasePublicationLayer owner expiresAtTick = some (id, r')) :
    id = 0 ∧ r' = r ∨
      ∃ drawn, r.drawLayer (2 ^ 32) r.nextPublicationLayerId = some (id, drawn) ∧
        r' = { r with
          nextPublicationLayerId := id + 1
          publicationLeases := Function.update r.publicationLeases id (some ⟨owner, expiresAtTick⟩) } := by
  unfold leasePublicationLayer at leases
  split_ifs at leases
  · obtain ⟨rfl, rfl⟩ := Prod.mk.inj (Option.some.inj leases)
    exact Or.inl ⟨rfl, rfl⟩
  · obtain ⟨drawn, draws, pair⟩ := Option.map_eq_some_iff.mp leases
    obtain ⟨rfl, rfl⟩ := Prod.mk.inj pair
    exact Or.inr ⟨drawn.2, draws, rfl⟩
  · obtain ⟨rfl, rfl⟩ := Prod.mk.inj (Option.some.inj leases)
    exact Or.inl ⟨rfl, rfl⟩

theorem not_isTaken (free : r.isTaken id = false) :
    id ≠ 0 ∧ r.publicationLeases id = none ∧ r.publications id = none := by
  simpa [isTaken, and_assoc] using free

theorem renewPublicationLease_cases (layerId : PublicationLayerId) (owner : ParticipantId)
    (expiresAtTick : UInt64) :
    (r.renewPublicationLease layerId owner expiresAtTick).2 = r ∨
      ∃ lease, r.publicationLeases layerId = some lease ∧
        (r.renewPublicationLease layerId owner expiresAtTick).2 = { r with
          publicationLeases :=
            Function.update r.publicationLeases layerId (some { lease with expiresAtTick }) } := by
  unfold renewPublicationLease
  split_ifs
  · exact Or.inl rfl
  · cases leased : r.publicationLeases layerId with
    | none => exact Or.inl rfl
    | some lease =>
      dsimp only
      split_ifs
      · exact Or.inr ⟨lease, rfl, rfl⟩
      · exact Or.inl rfl

theorem retirePublication_cases (layerId : PublicationLayerId) (owner : ParticipantId) :
    r.retirePublication layerId owner = (false, r) ∨
      r.retirePublication layerId owner = (true, r.erase (· = layerId)) := by
  unfold retirePublication
  split_ifs
  · exact Or.inl rfl
  · cases r.publicationLeases layerId with
    | none => exact Or.inl rfl
    | some lease =>
      dsimp only
      split_ifs
      · exact Or.inr rfl
      · exact Or.inl rfl

theorem registerPublication_eq_ok {files : Bytes → Option Bytes}
    {publication : PublicationDescriptor}
    (registers : r.registerPublication files publication = .ok r') :
    publication.immutable = true ∧ publication.permission = .readOnly ∧
      (∃ lease, r.publicationLeases publication.layerId = some lease ∧
        lease.owner = publication.owner) ∧
      (∀ current, r.publications publication.layerId = some current →
        current.epoch < publication.epoch) ∧
      r' = { r with publications :=
        Function.update r.publications publication.layerId (some (stored publication)) } := by
  cases checked : checkPublication files publication with
  | error message => simp [registerPublication, checked, bind, Except.bind] at registers
  | ok passed =>
    cases admitted : r.admits publication with
    | error message => simp [registerPublication, checked, admitted, bind, Except.bind] at registers
    | ok passed =>
      have same : { r with
          publications :=
            Function.update r.publications publication.layerId (some (stored publication)) } =
          r' := by
        simpa [registerPublication, checked, admitted, bind, Except.bind, pure, Except.pure]
          using registers
      simp only [checkPublication, require_bind, Bool.and_eq_true, decide_eq_true_eq] at checked
      obtain ⟨-, -, -, -, ⟨immutable, readOnly⟩, -⟩ := checked
      unfold admits at admitted
      cases leased : r.publicationLeases publication.layerId with
      | none => simp [leased] at admitted
      | some lease =>
        simp only [leased, require_bind, decide_eq_true_eq] at admitted
        obtain ⟨owned, -, newer⟩ := admitted
        refine ⟨immutable, readOnly, ⟨lease, rfl, owned⟩, fun current found => ?_, same.symm⟩
        simp only [found, require_eq_ok, decide_eq_true_eq] at newer
        exact newer

@[simp] theorem stored_layerId (publication : PublicationDescriptor) :
    (stored publication).layerId = publication.layerId := by
  unfold stored
  split_ifs <;> rfl

@[simp] theorem stored_epoch (publication : PublicationDescriptor) :
    (stored publication).epoch = publication.epoch := by
  unfold stored
  split_ifs <;> rfl

theorem stored_rest (publication : PublicationDescriptor) :
    (stored publication).immutable = publication.immutable ∧
      (stored publication).permission = publication.permission ∧
      (stored publication).owner = publication.owner := by
  unfold stored
  split_ifs <;> exact ⟨rfl, rfl, rfl⟩

end PublicationRegistry

end AgentC.Root1

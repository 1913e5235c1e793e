import AgentC.Library.Runs
import AgentC.Root1.Publications

/-! What was leased, published and ended, and what the registry answers of it. -/

namespace AgentC.Root1

/-- What a registry is noted to have done. -/
inductive PublicationNote where
  | leased (draw : Nat) (layerId : PublicationLayerId)
  | registered (publication : PublicationDescriptor)
  | ended (layers : PublicationLayerId → Bool)

/-- Whether a layer is leased after a history, of which the newest note comes first. -/
def leasedNow (id : PublicationLayerId) : List PublicationNote → Bool
  | [] => false
  | .leased _ layerId :: before => layerId = id || leasedNow id before
  | .registered _ :: before => leasedNow id before
  | .ended layers :: before => !layers id && leasedNow id before

def lastRegistration (id : PublicationLayerId) : List PublicationNote → Option PublicationDescriptor
  | [] => none
  | .leased _ layerId :: before => if layerId = id then none else lastRegistration id before
  | .registered publication :: before =>
    if publication.layerId = id then some publication else lastRegistration id before
  | .ended layers :: before => if layers id then none else lastRegistration id before

/--
A layer is leased only while it is not, and then with an identity that the counter has not given for
a whole round; and a registration raises the epoch of its layer while the lease lasts.
-/
def Orderly : List PublicationNote → Prop
  | [] => True
  | .leased draw id :: before =>
    (leasedNow id before = false ∧
      ∀ earlier, .leased earlier id ∈ before → earlier + 2 ^ 32 ≤ draw) ∧ Orderly before
  | .registered publication :: before =>
    (∀ last, lastRegistration publication.layerId before = some last →
      last.epoch < publication.epoch) ∧ Orderly before
  | .ended _ :: before => Orderly before

/-- A registry with its history. `drawn` counts the identities that its counter has given. -/
structure PublicationChronicle where
  registry : PublicationRegistry := {}
  drawn : Nat := 0
  notes : List PublicationNote := []

namespace PublicationChronicle

def step (c : PublicationChronicle) : PublicationEvent → Option PublicationChronicle
  | .registerParticipant participant => some { c with
      registry := { c.registry with
        participants := Function.update c.registry.participants participant true } }
  | .leasePublicationLayer owner expiresAtTick =>
    (c.registry.leasePublicationLayer owner expiresAtTick).map fun leased =>
      if leased.1 = 0 then { c with registry := leased.2 }
      else
        let drawn := ((c.registry.drawLayer (2 ^ 32) c.registry.nextPublicationLayerId).map
          Prod.snd).getD 0
        { registry := leased.2
          drawn := c.drawn + drawn
          notes := .leased (c.drawn + drawn - 1) leased.1 :: c.notes }
  | .renewPublicationLease layerId owner expiresAtTick => some { c with
      registry := (c.registry.renewPublicationLease layerId owner expiresAtTick).2 }
  | .registerPublication files publication =>
    match c.registry.registerPublication files publication with
    | .error _ => some c
    | .ok registry => some { c with
        registry
        notes := .registered (PublicationRegistry.stored publication) :: c.notes }
  | .lookupPublication _ => some c
  | .retirePublication layerId owner =>
    let retired := c.registry.retirePublication layerId owner
    some { c with
      registry := retired.2
      notes := if retired.1 then .ended (· = layerId) :: c.notes else c.notes }
  | .recoverExpiredPublicationLeases nowTick => some { c with
      registry := c.registry.recoverExpiredPublicationLeases nowTick
      notes := .ended (c.registry.expired nowTick) :: c.notes }

/--
What is published is leased to its owner and read-only, the history is orderly, and a lookup answers
with the last registration of it.
-/
structure Lawful (c : PublicationChronicle) : Prop where
  held : ∀ id publication, c.registry.publications id = some publication →
    publication.layerId = id ∧ publication.immutable = true ∧
      publication.permission = .readOnly ∧
      ∃ lease, c.registry.publicationLeases id = some lease ∧ lease.owner = publication.owner
  orderly : Orderly c.notes
  found : ∀ id, c.registry.lookupPublication id = lastRegistration id c.notes

/-- What else holds of the registry and its history. -/
structure Kept (c : PublicationChronicle) : Prop where
  held : ∀ id publication, c.registry.publications id = some publication →
    publication.layerId = id ∧ publication.immutable = true ∧
      publication.permission = .readOnly ∧
      ∃ lease, c.registry.publicationLeases id = some lease ∧ lease.owner = publication.owner
  orderly : Orderly c.notes
  zero : c.registry.publicationLeases 0 = none
  leases : ∀ id, (c.registry.publicationLeases id).isSome = leasedNow id c.notes
  published : ∀ id, c.registry.publications id = lastRegistration id c.notes
  counter : c.registry.nextPublicationLayerId = UInt32.ofNat (1 + c.drawn)
  draws : ∀ draw id, .leased draw id ∈ c.notes → id = UInt32.ofNat (1 + draw) ∧ draw < c.drawn

variable {c d : PublicationChronicle}

theorem Kept.lawful (kept : Kept c) : Lawful c where
  held := kept.held
  orderly := kept.orderly
  found id := by
    rw [← kept.published, PublicationRegistry.lookupPublication]
    -- Without a lease there is no publication.
    have nothing (unleased : c.registry.publicationLeases id = none) :
        c.registry.publications id = none := by
      cases found : c.registry.publications id with
      | none => rfl
      | some publication =>
        obtain ⟨-, -, -, lease, leased, -⟩ := kept.held id publication found
        rw [unleased] at leased
        cases leased
    by_cases zero : id = 0
    · subst zero
      rw [if_pos rfl, nothing kept.zero]
    · rw [if_neg zero]
      cases leased : c.registry.publicationLeases id with
      | none => exact (nothing leased).symm
      | some lease => rfl

namespace Kept

theorem start : Kept {} where
  held id publication found := by cases found
  orderly := trivial
  zero := rfl
  leases id := rfl
  published id := rfl
  counter := rfl
  draws draw id noted := by cases noted

theorem registerParticipant (kept : Kept c) (participants : ParticipantId → Bool) :
    Kept { c with registry := { c.registry with participants } } :=
  ⟨kept.held, kept.orderly, kept.zero, kept.leases, kept.published, kept.counter, kept.draws⟩

theorem lease (kept : Kept c) {owner : ParticipantId} {expiresAtTick : UInt64}
    {id : PublicationLayerId} {drawn : Nat}
    (draws : c.registry.drawLayer (2 ^ 32) c.registry.nextPublicationLayerId = some (id, drawn)) :
    Kept {
      registry := { c.registry with
        nextPublicationLayerId := id + 1
        publicationLeases :=
          Function.update c.registry.publicationLeases id (some ⟨owner, expiresAtTick⟩) }
      drawn := c.drawn + drawn
      notes := .leased (c.drawn + drawn - 1) id :: c.notes } := by
  obtain ⟨some_, place, free⟩ := PublicationRegistry.drawLayer_eq_some draws
  obtain ⟨nonzero, unleased, unpublished⟩ := PublicationRegistry.not_isTaken free
  have counter : id + 1 = UInt32.ofNat (1 + (c.drawn + drawn)) := by
    rw [place, kept.counter, ← UInt32.ofNat_add, Nat.add_assoc]
  have given : id = UInt32.ofNat (1 + (c.drawn + drawn - 1)) := by
    have one : (1 + (c.drawn + drawn)) = 1 + (c.drawn + drawn - 1) + 1 := by omega
    rw [one, UInt32.ofNat_add] at counter
    exact (UInt32.add_left_inj 1).mp counter
  constructor
  · intro other publication found
    obtain ⟨layer, immutable, readOnly, lease, leased, owned⟩ := kept.held other publication found
    have apart : other ≠ id := by
      rintro rfl
      rw [unleased] at leased
      cases leased
    exact ⟨layer, immutable, readOnly, lease, (Function.update_of_ne apart ..).trans leased, owned⟩
  · refine ⟨⟨?_, fun earlier noted => ?_⟩, kept.orderly⟩
    · rw [← kept.leases, unleased]
      rfl
    · -- Both draws give the same identity, and the earlier one was before all of these.
      obtain ⟨isEarlier, before⟩ := kept.draws earlier id noted
      have same := congrArg UInt32.toNat (isEarlier.symm.trans given)
      simp only [UInt32.toNat_ofNat'] at same
      omega
  · exact (Function.update_of_ne (Ne.symm nonzero) ..).trans kept.zero
  · intro other
    dsimp only [leasedNow]
    by_cases same : other = id
    · subst same
      simp
    · rw [Function.update_of_ne same, kept.leases, decide_eq_false (Ne.symm same), Bool.false_or]
  · intro other
    show c.registry.publications other = if id = other then none else lastRegistration other c.notes
    split_ifs with same
    · rw [← same]
      exact unpublished
    · exact kept.published other
  · exact counter
  · intro draw other noted
    rcases List.mem_cons.mp noted with new | old
    · cases new
      exact ⟨given, show c.drawn + drawn - 1 < c.drawn + drawn by omega⟩
    · obtain ⟨isGiven, before⟩ := kept.draws draw other old
      exact ⟨isGiven, show draw < c.drawn + drawn by omega⟩

theorem renew (kept : Kept c) {layerId : PublicationLayerId} {lease : PublicationLeaseRecord}
    (leased : c.registry.publicationLeases layerId = some lease) (expiresAtTick : UInt64) :
    Kept { c with registry := { c.registry with
      publicationLeases := Function.update c.registry.publicationLeases layerId
        (some { lease with expiresAtTick }) } } := by
  constructor
  · intro id publication found
    obtain ⟨layer, immutable, readOnly, lease', leased', owned⟩ := kept.held id publication found
    refine ⟨layer, immutable, readOnly, ?_⟩
    by_cases same : id = layerId
    · subst same
      rw [leased, Option.some.injEq] at leased'
      subst leased'
      exact ⟨_, Function.update_self .., owned⟩
    · exact ⟨lease', (Function.update_of_ne same ..).trans leased', owned⟩
  · exact kept.orderly
  · have apart : 0 ≠ layerId := by
      rintro rfl
      rw [kept.zero] at leased
      cases leased
    exact (Function.update_of_ne apart ..).trans kept.zero
  · intro id
    rw [← kept.leases]
    by_cases same : id = layerId
    · subst same
      simp [leased]
    · exact congrArg Option.isSome (Function.update_of_ne same ..)
  · exact kept.published
  · exact kept.counter
  · exact kept.draws

theorem register (kept : Kept c) {publication : PublicationDescriptor}
    {lease : PublicationLeaseRecord}
    (immutable : publication.immutable = true) (readOnly : publication.permission = .readOnly)
    (leased : c.registry.publicationLeases publication.layerId = some lease)
    (owned : lease.owner = publication.owner)
    (newer : ∀ current, c.registry.publications publication.layerId = some current →
      current.epoch < publication.epoch) :
    Kept { c with
      registry := { c.registry with
        publications := Function.update c.registry.publications publication.layerId
          (some (PublicationRegistry.stored publication)) }
      notes := .registered (PublicationRegistry.stored publication) :: c.notes } := by
  obtain ⟨sameImmutable, samePermission, sameOwner⟩ := PublicationRegistry.stored_rest publication
  constructor
  · intro id found isFound
    by_cases same : id = publication.layerId
    · subst same
      have isStored : PublicationRegistry.stored publication = found := by
        simpa using isFound
      subst isStored
      exact ⟨PublicationRegistry.stored_layerId publication, sameImmutable.trans immutable,
        samePermission.trans readOnly, lease, leased, owned.trans sameOwner.symm⟩
    · exact kept.held id found ((Function.update_of_ne same ..).symm.trans isFound)
  · refine ⟨fun last isLast => ?_, kept.orderly⟩
    rw [PublicationRegistry.stored_layerId, ← kept.published] at isLast
    rw [PublicationRegistry.stored_epoch]
    exact newer last isLast
  · exact kept.zero
  · exact kept.leases
  · intro id
    show Function.update _ _ _ id =
      if (PublicationRegistry.stored publication).layerId = id then _ else _
    rw [PublicationRegistry.stored_layerId]
    by_cases same : id = publication.layerId
    · subst same
      rw [Function.update_self, if_pos rfl]
    · rw [Function.update_of_ne same, if_neg (Ne.symm same)]
      exact kept.published id
  · exact kept.counter
  · intro draw id noted
    rcases List.mem_cons.mp noted with new | old
    · cases new
    · exact kept.draws draw id old

theorem erase (kept : Kept c) (layers : PublicationLayerId → Bool) :
    Kept { c with registry := c.registry.erase layers, notes := .ended layers :: c.notes } := by
  constructor
  · intro id publication found
    have remains : layers id = false := by
      cases ends : layers id with
      | false => rfl
      | true => simp [PublicationRegistry.erase, ends] at found
    simp only [PublicationRegistry.erase, remains, Bool.false_eq_true, if_false] at found ⊢
    exact kept.held id publication found
  · exact kept.orderly
  · simp only [PublicationRegistry.erase, kept.zero, ite_self]
  · intro id
    simp only [PublicationRegistry.erase, leasedNow, ← kept.leases]
    cases layers id <;> rfl
  · intro id
    simp only [PublicationRegistry.erase, lastRegistration, ← kept.published]
  · exact kept.counter
  · intro draw id noted
    rcases List.mem_cons.mp noted with new | old
    · cases new
    · exact kept.draws draw id old

theorem step (kept : Kept c) {event : PublicationEvent} (stepped : c.step event = some d) :
    Kept d := by
  cases event with
  | registerParticipant participant =>
    cases stepped
    exact kept.registerParticipant _
  | leasePublicationLayer owner expiresAtTick =>
    obtain ⟨leased, isLeased, rfl⟩ := Option.map_eq_some_iff.mp stepped
    rcases PublicationRegistry.leasePublicationLayer_eq_some isLeased with
      ⟨zero, same⟩ | ⟨drawn, draws, same⟩
    · simp only [zero, same, if_true]
      exact kept
    · have nonzero : leased.1 ≠ 0 :=
        (PublicationRegistry.not_isTaken (PublicationRegistry.drawLayer_eq_some draws).2.2).1
      simp only [if_neg nonzero, same, draws, Option.map_some, Option.getD_some]
      exact kept.lease draws
  | renewPublicationLease layerId owner expiresAtTick =>
    cases stepped
    rcases c.registry.renewPublicationLease_cases layerId owner expiresAtTick with
      same | ⟨lease, leased, same⟩
    · rw [same]
      exact kept
    · rw [same]
      exact kept.renew leased expiresAtTick
  | registerPublication files publication =>
    cases registers : c.registry.registerPublication files publication with
    | error message =>
      simp only [PublicationChronicle.step, registers, Option.some.injEq] at stepped
      exact stepped ▸ kept
    | ok registry =>
      simp only [PublicationChronicle.step, registers, Option.some.injEq] at stepped
      subst stepped
      obtain ⟨immutable, readOnly, ⟨lease, leased, owned⟩, newer, rfl⟩ :=
        PublicationRegistry.registerPublication_eq_ok registers
      exact kept.register immutable readOnly leased owned newer
  | lookupPublication layerId =>
    cases stepped
    exact kept
  | retirePublication layerId owner =>
    cases stepped
    rcases c.registry.retirePublication_cases layerId owner with same | same
    · simp only [same, Bool.false_eq_true, if_false]
      exact kept
    · simp only [same, if_true]
      exact kept.erase _
  | recoverExpiredPublicationLeases nowTick =>
    cases stepped
    exact kept.erase _

end Kept

end PublicationChronicle

/--
In every state of the registry, what is published is leased to its owner and read-only, leases and
registrations came in order, and a lookup answers with the last registration under the lease.
-/
theorem publications_lawful (events : List PublicationEvent) :
    Throughout PublicationChronicle.step PublicationChronicle.Lawful {} events := by
  have kept : Throughout PublicationChronicle.step PublicationChronicle.Kept {} events :=
    throughout_of_stepsMeet (fun _ _ _ kept _ stepped => kept.step stepped) events _
      PublicationChronicle.Kept.start (stepsMeet_of_forall events _ fun _ _ _ => trivial)
  exact Throughout.imp (fun _ kept => kept.lawful) events _ kept

def layersLeased (notes : List PublicationNote) : List PublicationLayerId :=
  notes.filterMap fun note =>
    match note with
    | .leased _ id => some id
    | _ => none

def leaseAndRecover : List PublicationEvent :=
  [.leasePublicationLayer 1 0, .recoverExpiredPublicationLeases 0]

def wrapAround : List PublicationEvent :=
  .registerParticipant 1 :: (List.replicate (2 ^ 32 - 1) leaseAndRecover).flatten ++
    [.leasePublicationLayer 1 0]

structure Unleased (c : PublicationChronicle) (next : Nat) : Prop where
  participant : c.registry.participants 1 = true
  counter : c.registry.nextPublicationLayerId = UInt32.ofNat next
  leases : c.registry.publicationLeases = fun _ => none
  publications : c.registry.publications = fun _ => none

namespace Unleased

variable {c : PublicationChronicle} {next : Nat}

theorem isTaken (unleased : Unleased c next) (id : PublicationLayerId) :
    c.registry.isTaken id = decide (id = 0) := by
  simp [PublicationRegistry.isTaken, unleased.leases, unleased.publications]

theorem step_lease (unleased : Unleased c next) {id : PublicationLayerId} {drawn : Nat}
    (draws : c.registry.drawLayer (2 ^ 32) c.registry.nextPublicationLayerId = some (id, drawn))
    (nonzero : id ≠ 0) :
    c.step (.leasePublicationLayer 1 0) = some
      { registry := { c.registry with
          nextPublicationLayerId := id + 1
          publicationLeases := Function.update c.registry.publicationLeases id (some ⟨1, 0⟩) }
        drawn := c.drawn + drawn
        notes := .leased (c.drawn + drawn - 1) id :: c.notes } := by
  have one : (1 : ParticipantId) ≠ 0 := by decide
  simp only [PublicationChronicle.step, PublicationRegistry.leasePublicationLayer, if_neg one,
    unleased.participant, if_true, draws, Option.map_some, if_neg nonzero, Option.getD_some]

theorem round (unleased : Unleased c next) (nonzero : UInt32.ofNat next ≠ 0) :
    ∃ d, runFrom PublicationChronicle.step c leaseAndRecover = some d ∧ Unleased d (next + 1) ∧
      layersLeased d.notes = UInt32.ofNat next :: layersLeased c.notes := by
  have draws : c.registry.drawLayer (2 ^ 32) c.registry.nextPublicationLayerId =
      some (UInt32.ofNat next, 1) := by
    rw [unleased.counter]
    exact PublicationRegistry.drawLayer_free (by norm_num)
      ((unleased.isTaken _).trans (decide_eq_false nonzero))
  rw [leaseAndRecover, runFrom_cons (unleased.step_lease draws nonzero)]
  refine ⟨_, rfl, ⟨unleased.participant, ?_, ?_, ?_⟩, rfl⟩
  · exact (UInt32.ofNat_add next 1).symm
  · funext id
    dsimp only [PublicationRegistry.recoverExpiredPublicationLeases, PublicationRegistry.erase]
    by_cases same : id = UInt32.ofNat next
    · subst same
      simp [PublicationRegistry.expired]
    · rw [Function.update_of_ne same, unleased.leases, ite_self]
  · funext id
    show (if PublicationRegistry.expired _ 0 id then none else c.registry.publications id) = none
    rw [unleased.publications, ite_self]

theorem rounds {c : PublicationChronicle} (unleased : Unleased c 1) (k : Nat) (small : k < 2 ^ 32) :
    ∃ d, runFrom PublicationChronicle.step c (List.replicate k leaseAndRecover).flatten = some d ∧
      Unleased d (1 + k) ∧ (0 < k → 1 ∈ layersLeased d.notes) := by
  induction k with
  | zero => exact ⟨c, rfl, unleased, fun positive => absurd positive (Nat.lt_irrefl 0)⟩
  | succ k ih =>
    obtain ⟨d, runs, unleased', first⟩ := ih (by omega)
    have nonzero : UInt32.ofNat (1 + k) ≠ 0 := by
      intro zero
      have value := congrArg UInt32.toNat zero
      simp only [UInt32.toNat_ofNat', UInt32.toNat_zero] at value
      omega
    obtain ⟨e, more, unleased'', leased⟩ := unleased'.round nonzero
    refine ⟨e, ?_, unleased'', fun _ => ?_⟩
    · rw [List.replicate_succ', List.flatten_append, runFrom_append, runs]
      simpa using more
    · rw [leased]
      by_cases positive : 0 < k
      · exact List.mem_cons_of_mem _ (first positive)
      · have zero : k = 0 := by omega
        subst zero
        exact List.mem_cons_self

end Unleased

def newcomer : PublicationChronicle where
  registry := { participants := Function.update (fun _ => false) 1 true }

/-- When the counter comes round, the first layer is leased again. -/
theorem layer_leased_twice :
    ∃ c, runFrom PublicationChronicle.step {} wrapAround = some c ∧
      ¬ (layersLeased c.notes).Nodup := by
  have unleased : Unleased newcomer 1 := ⟨by simp [newcomer], rfl, rfl, rfl⟩
  obtain ⟨d, runs, unleased', first⟩ := unleased.rounds (2 ^ 32 - 1) (by norm_num)
  -- The counter gives zero, which is passed over, and then one.
  have draws : d.registry.drawLayer (2 ^ 32) d.registry.nextPublicationLayerId = some (1, 2) := by
    have zero : d.registry.nextPublicationLayerId = 0 := unleased'.counter
    rw [zero]
    exact PublicationRegistry.drawLayer_taken (unleased'.isTaken 0)
      (PublicationRegistry.drawLayer_free (by norm_num) (unleased'.isTaken 1))
  obtain ⟨e, leases⟩ : ∃ e, d.step (.leasePublicationLayer 1 0) = some e :=
    ⟨_, unleased'.step_lease draws (by decide)⟩
  have leased : layersLeased e.notes = 1 :: layersLeased d.notes := by
    rw [unleased'.step_lease draws (by decide), Option.some.injEq] at leases
    rw [← leases]
    rfl
  refine ⟨e, ?_, ?_⟩
  · rw [wrapAround, List.cons_append, runFrom_cons (show _ = some newcomer from rfl), runFrom_append,
      runs, Option.bind_some, runFrom_cons leases]
    rfl
  · rw [leased, List.nodup_cons]
    exact fun distinct => distinct.1 (first (by norm_num))

end AgentC.Root1

import AgentC.Root1.BrokerLaws

/-! What a lease says about the tenure it was registered in, access by access. -/

namespace AgentC.Root1

def deadlineAfter (key : ResourceKey) (deadline : Option UInt64) : Event → Option UInt64
  -- A tenure begins without a lease, and nothing is leased when nobody owns the resource.
  | .acquired at_ _ | .granted at_ _ _ _ | .freed at_ _ _ => if at_ = key then none else deadline
  | .leased at_ _ expiresAtTick => if at_ = key then some expiresAtTick else deadline
  -- A deadline can only be moved when it was set in this tenure.
  | .renewed at_ _ expiresAtTick =>
    if at_ = key then deadline.map fun _ => expiresAtTick else deadline
  | _ => deadline

def deadline (key : ResourceKey) (past : List Event) : Option UInt64 :=
  past.foldl (deadlineAfter key) none

def Event.expiry : Event → Option (ResourceKey × UInt64)
  | .granted key _ _ (.expired nowTick) | .freed key _ (.expired nowTick) => some (key, nowTick)
  | _ => none

/-- Every expiry so far hit a tenure with a lease of its own whose latest deadline had passed. -/
def Timely (past : List Event) : Prop :=
  ∀ before event after key nowTick, past = before ++ event :: after →
    event.expiry = some (key, nowTick) → ∃ due, deadline key before = some due ∧ due ≤ nowTick

/-- The leases in the table belong to current tenures, one for each resource at most. -/
structure Leased (b : Broker) (past : List Event) : Prop where
  distinct : (b.leases.map Prod.fst).Nodup
  current : ∀ key lease, (key, lease) ∈ b.leases → lease.owner ≠ 0 ∧
    b.owner key = lease.owner ∧ deadline key past = some lease.expiresAtTick

/-- A lease that a sweep took out of the table still belongs to the current tenure. -/
structure Collected (b : Broker) (past : List Event) (key : ResourceKey) (owner : ParticipantId)
    (nowTick : UInt64) : Prop where
  nonzero : owner ≠ 0
  owns : b.owner key = owner
  gone : ∀ lease, (key, lease) ∉ b.leases
  due : ∃ due, deadline key past = some due ∧ due ≤ nowTick

def Work.Spares (key : ResourceKey) : Work → Prop
  | .handOff at_ _ _ _ | .registerLease at_ _ _ => at_ ≠ key
  | _ => True

def Work.Settled (b : Broker) : Work → Prop
  | .handOff key owner cause _ => owner ≠ 0 ∧ b.owner key = owner ∧
      (cause = .released → ∀ lease, (key, lease) ∉ b.leases)
  | _ => True

section Deadlines

variable {key : ResourceKey} {past events : List Event}

theorem deadline_append (key : ResourceKey) (past events : List Event) :
    deadline key (past ++ events) = events.foldl (deadlineAfter key) (deadline key past) :=
  List.foldl_append

def Event.Leaves (key : ResourceKey) : Event → Prop
  | .acquired at_ _ | .granted at_ _ _ _ | .freed at_ _ _ | .leased at_ _ _ | .renewed at_ _ _ =>
    at_ ≠ key
  | _ => True

theorem deadline_leaves (leaves : ∀ event ∈ events, event.Leaves key) :
    deadline key (past ++ events) = deadline key past := by
  rw [deadline_append]
  generalize deadline key past = now
  induction events with
  | nil => rfl
  | cons event rest ih =>
    have same : deadlineAfter key now event = now := by
      have leave := leaves event List.mem_cons_self
      cases event with
      | acquired | granted | freed | leased | renewed => exact if_neg leave
      | _ => rfl
    rw [List.foldl_cons, same]
    exact ih fun event member => leaves event (List.mem_cons_of_mem _ member)

theorem Timely.append (timely : Timely past) {event : Event} (rest : List Event)
    (only : ∀ later ∈ rest, later.expiry = none)
    (now : ∀ key nowTick, event.expiry = some (key, nowTick) →
      ∃ due, deadline key past = some due ∧ due ≤ nowTick) : Timely (past ++ event :: rest) := by
  intro before found after key nowTick split expiry
  rcases List.append_eq_append_iff.mp split with ⟨front, rfl, tail⟩ | ⟨front, rfl, tail⟩
  · cases front with
    | nil =>
      obtain ⟨rfl, -⟩ := List.cons.inj tail
      rw [List.append_nil]
      exact now key nowTick expiry
    | cons first mid =>
      -- Only the first of the new events may be an expiry.
      obtain ⟨-, rfl⟩ := List.cons.inj tail
      have none := only found (List.mem_append_right _ List.mem_cons_self)
      rw [none] at expiry
      cases expiry
  · cases front with
    | nil =>
      rw [List.nil_append] at tail
      obtain ⟨rfl, -⟩ := List.cons.inj tail
      have same := now key nowTick expiry
      rwa [List.append_nil] at same
    | cons first mid =>
      obtain ⟨rfl, rfl⟩ := List.cons.inj tail
      exact timely before found mid key nowTick rfl expiry

theorem Timely.append_none (timely : Timely past)
    (none : ∀ event ∈ events, event.expiry = none) : Timely (past ++ events) := by
  cases events with
  | nil => rwa [List.append_nil]
  | cons event rest =>
    refine timely.append rest (fun later member => none later (List.mem_cons_of_mem _ member)) ?_
    intro key nowTick expiry
    rw [none event List.mem_cons_self] at expiry
    cases expiry

end Deadlines

namespace Broker

variable {b : Broker}

theorem mem_of_mem_leasesInOrder {order : List ResourceKey} {entry : ResourceKey × LeaseRecord}
    (member : entry ∈ b.leasesInOrder order) : entry ∈ b.leases := by
  rcases List.mem_append.mp member with named | other
  · obtain ⟨key, -, found⟩ := List.mem_filterMap.mp named
    obtain ⟨lease, looked, rfl⟩ := Option.map_eq_some_iff.mp found
    obtain ⟨before, after, same, -⟩ := List.lookup_eq_some_iff.mp looked
    rw [same]
    exact List.mem_append_right _ List.mem_cons_self
  · exact (List.mem_filter.mp other).1

theorem mem_of_lookup {key : ResourceKey} {lease : LeaseRecord}
    (looked : b.leases.lookup key = some lease) : (key, lease) ∈ b.leases := by
  obtain ⟨before, after, same, -⟩ := List.lookup_eq_some_iff.mp looked
  rw [same]
  exact List.mem_append_right _ List.mem_cons_self

end Broker

namespace Leased

variable {b c : Broker} {past events : List Event}

theorem initial : Leased Broker.initial [] where
  distinct := List.nodup_nil
  current := fun _ _ member => nomatch member

theorem shrink (leased : Leased b past) (fewer : c.leases.Sublist b.leases)
    (owners : ∀ key lease, (key, lease) ∈ c.leases → c.owner key = b.owner key)
    (leaves : ∀ key lease, (key, lease) ∈ c.leases → ∀ event ∈ events, event.Leaves key) :
    Leased c (past ++ events) where
  distinct := leased.distinct.sublist (fewer.map Prod.fst)
  current := fun key lease member => by
    obtain ⟨nonzero, owns, due⟩ := leased.current key lease (fewer.subset member)
    refine ⟨nonzero, (owners key lease member).trans owns, ?_⟩
    rw [deadline_leaves (leaves key lease member)]
    exact due

theorem store (leased : Leased b past) {key : ResourceKey} {owner : ParticipantId}
    {expiresAtTick : UInt64} (nonzero : owner ≠ 0) (owns : b.owner key = owner) {event : Event}
    (stores : deadlineAfter key (deadline key past) event = some expiresAtTick)
    (leaves : ∀ other, other ≠ key → event.Leaves other) :
    Leased (b.setLease key ⟨owner, expiresAtTick⟩) (past ++ [event]) where
  distinct := by
    have others : ((b.eraseLease key).leases.map Prod.fst).Nodup :=
      leased.distinct.sublist (List.filter_sublist.map Prod.fst)
    refine List.nodup_cons.mpr ⟨fun member => ?_, others⟩
    obtain ⟨entry, kept, same⟩ := List.mem_map.mp member
    exact absurd same (by simpa using (List.mem_filter.mp kept).2)
  current := fun other lease member => by
    rcases List.mem_cons.mp member with new | old
    · cases new
      exact ⟨nonzero, owns, by rw [deadline_append]; exact stores⟩
    · obtain ⟨inside, apart⟩ := List.mem_filter.mp old
      have apart : other ≠ key := by simpa using apart
      obtain ⟨nonzero', owns', due⟩ := leased.current other lease inside
      refine ⟨nonzero', owns', ?_⟩
      rw [deadline_leaves fun e only => List.mem_singleton.mp only ▸ leaves other apart]
      exact due

theorem free (leased : Leased b past) {key : ResourceKey} (unowned : b.words key = 0)
    (lease : LeaseRecord) : (key, lease) ∉ b.leases := fun member => by
  obtain ⟨nonzero, owns, -⟩ := leased.current key lease member
  exact nonzero (owns.symm.trans ((congrArg ownerOf unowned).trans ownerOf_zero))

theorem attempt (leased : Leased b past) {key : ResourceKey} {p : ParticipantId}
    (unowned : b.words key = 0) {answers : List Event}
    (quiet : ∀ event ∈ answers, ∀ other, event.Leaves other) :
    Leased (b.setWord key p) (past ++ .acquired key p :: answers) := by
  have apart : ∀ other lease, (other, lease) ∈ b.leases → other ≠ key :=
    fun other lease member same => leased.free unowned lease (same ▸ member)
  refine leased.shrink (List.Sublist.refl _) (fun other lease member => ?_) ?_
  · exact Broker.owner_setWord_other (apart other lease member) p
  · intro other lease member event among
    rcases List.mem_cons.mp among with rfl | answer
    · exact Ne.symm (apart other lease member)
    · exact quiet event answer other

end Leased

theorem Broker.owner_handOff_other (b : Broker) {key other : ResourceKey} (apart : other ≠ key)
    (owner : ParticipantId) (cause : Cause) (reason : Bytes) :
    (b.handOff key owner cause reason).shared.owner other = b.owner other := by
  obtain ⟨next, rest, -, words, -⟩ | ⟨-, words, -⟩ := b.handOff_cases key owner cause reason
  · exact congrArg ownerOf ((congrFun words other).trans (Broker.words_setWord_other apart _))
  · exact congrArg ownerOf ((congrFun words other).trans (Broker.words_setWord_other apart _))

theorem Broker.handOff_event (b : Broker) (key : ResourceKey) (owner : ParticipantId)
    (cause : Cause) (reason : Bytes) : ∃ event, (b.handOff key owner cause reason).events = [event] ∧
      (∀ other, other ≠ key → event.Leaves other) ∧
      ∀ at_ nowTick, event.expiry = some (at_, nowTick) → at_ = key ∧ cause = .expired nowTick := by
  have expiry : ∀ at_ nowTick, (match cause with
      | .expired now => some (key, now) | _ => none) = some (at_, nowTick) →
      at_ = key ∧ cause = .expired nowTick := by
    intro at_ nowTick found
    cases cause with
    | expired now => cases found; exact ⟨rfl, rfl⟩
    | released | abandoned => cases found
  obtain ⟨next, rest, -, -, -, -, -, events⟩ | ⟨-, -, -, -, -, events⟩ :=
    b.handOff_cases key owner cause reason
  · refine ⟨_, events, fun other apart => Ne.symm apart, fun at_ nowTick found => ?_⟩
    exact expiry at_ nowTick (by cases cause <;> exact found)
  · refine ⟨_, events, fun other apart => Ne.symm apart, fun at_ nowTick found => ?_⟩
    exact expiry at_ nowTick (by cases cause <;> exact found)

theorem Broker.leases_handOff {b : Broker} {key : ResourceKey} {owner : ParticipantId}
    {cause : Cause} (reason : Bytes) (gone : cause = .released → ∀ lease, (key, lease) ∉ b.leases) :
    (b.handOff key owner cause reason).shared.leases.Sublist b.leases ∧
      ∀ lease, (key, lease) ∉ (b.handOff key owner cause reason).shared.leases := by
  have same : (b.handOff key owner cause reason).shared.leases =
      (if cause = .released then b else b.eraseLease key).leases := by
    obtain ⟨_, _, -, -, -, -, same, -⟩ | ⟨-, -, -, -, same, -⟩ :=
      b.handOff_cases key owner cause reason <;> exact same
  rw [same]
  -- A revocation erases the lease itself; before a release it has to be gone.
  split
  · next given => exact ⟨List.Sublist.refl _, gone given⟩
  · refine ⟨List.filter_sublist, fun lease member => ?_⟩
    simpa using (List.mem_filter.mp member).2

end AgentC.Root1

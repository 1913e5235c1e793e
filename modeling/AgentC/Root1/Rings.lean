import Mathlib.Logic.Function.Basic
import AgentC.Library.Fifo
import AgentC.Library.Runs
import AgentC.Root1.Broker

/-! The ring between one producer and one consumer, access by access. -/

namespace AgentC.Root1

/-- The two counters, which run on and wrap around, and the slots. -/
structure MailboxRing where
  head : UInt64 := 0
  tail : UInt64 := 0
  slots : Fin kMailboxRingCapacity → MailboxDescriptor := fun _ => {}

def MailboxRing.slot (counter : UInt64) : Fin kMailboxRingCapacity :=
  ⟨counter.toNat % kMailboxRingCapacity, Nat.mod_lt _ (by decide)⟩

/-- `approximateSize`, with both counters read at once. -/
def MailboxRing.approximateSize (ring : MailboxRing) : Nat :=
  (ring.tail - ring.head).toNat

/-- How far `tryPush` has come. -/
inductive Pushing where
  | idle
  | loaded (descriptor : MailboxDescriptor) (tail : UInt64)
  /-- It has loaded the head and found room. -/
  | checked (descriptor : MailboxDescriptor) (tail : UInt64)
  | written (descriptor : MailboxDescriptor) (tail : UInt64)

/-- How far `tryPop` has come. -/
inductive Popping where
  | idle
  | loaded (head : UInt64)
  /-- It has loaded the tail and found that there is a descriptor. -/
  | checked (head : UInt64)
  /-- It has read the slot. -/
  | read (descriptor : MailboxDescriptor) (head : UInt64)

/-- A ring with its producer and its consumer, and what their calls have returned. -/
structure RingUse where
  ring : MailboxRing := {}
  producer : Pushing := .idle
  consumer : Popping := .idle
  past : List (Attempt MailboxDescriptor) := []

/-- The next access of one of the two; an idle one starts a call. -/
inductive RingTurn where
  | push (descriptor : MailboxDescriptor)
  | produce
  | pop
  | consume

namespace RingUse

def start : RingUse := {}

/-- The first access of `tryPush`. -/
def push (s : RingUse) (descriptor : MailboxDescriptor) : Option RingUse :=
  match s.producer with
  | .idle => some { s with producer := .loaded descriptor s.ring.tail }
  | _ => none

/-- The other accesses of `tryPush`. -/
def produce (s : RingUse) : Option RingUse :=
  match s.producer with
  | .idle => none
  | .loaded descriptor tail =>
    if (tail - s.ring.head).toNat ≥ kMailboxRingCapacity then
      some { s with producer := .idle, past := s.past ++ [.refused descriptor] }
    else some { s with producer := .checked descriptor tail }
  | .checked descriptor tail =>
    let slots := Function.update s.ring.slots (MailboxRing.slot tail) descriptor
    some { s with ring := { s.ring with slots }, producer := .written descriptor tail }
  | .written descriptor tail =>
    some { s with
      ring := { s.ring with tail := tail + 1 }
      producer := .idle
      past := s.past ++ [.pushed descriptor] }

/-- The first access of `tryPop`. -/
def pop (s : RingUse) : Option RingUse :=
  match s.consumer with
  | .idle => some { s with consumer := .loaded s.ring.head }
  | _ => none

/-- The other accesses of `tryPop`. -/
def consume (s : RingUse) : Option RingUse :=
  match s.consumer with
  | .idle => none
  | .loaded head =>
    if head = s.ring.tail then some { s with consumer := .idle, past := s.past ++ [.empty] }
    else some { s with consumer := .checked head }
  | .checked head => some { s with consumer := .read (s.ring.slots (MailboxRing.slot head)) head }
  | .read descriptor head =>
    some { s with
      ring := { s.ring with head := head + 1 }
      consumer := .idle
      past := s.past ++ [.popped descriptor] }

def step (s : RingUse) : RingTurn → Option RingUse
  | .push descriptor => s.push descriptor
  | .produce => s.produce
  | .pop => s.pop
  | .consume => s.consume

end RingUse

/-- What the producer knows about the ring. -/
def Pushing.Knows (ring : MailboxRing) (queue : List MailboxDescriptor) : Pushing → Prop
  | .idle => True
  | .loaded _ tail => tail = ring.tail
  | .checked _ tail => tail = ring.tail ∧ queue.length < kMailboxRingCapacity
  | .written descriptor tail =>
    tail = ring.tail ∧ queue.length < kMailboxRingCapacity ∧
      ring.slots (MailboxRing.slot tail) = descriptor

/-- What the consumer knows about the ring. -/
def Popping.Knows (ring : MailboxRing) (queue : List MailboxDescriptor) : Popping → Prop
  | .idle => True
  | .loaded head => head = ring.head
  | .checked head => head = ring.head ∧ queue ≠ []
  | .read descriptor head => head = ring.head ∧ queue.head? = some descriptor

/-- The descriptors of a queue stand in the slots from the head on, and the tail is behind them. -/
structure MailboxRing.Holds (ring : MailboxRing) (queue : List MailboxDescriptor) : Prop where
  tail_eq : ring.tail = ring.head + UInt64.ofNat queue.length
  slot_eq : ∀ (i : Nat) (descriptor : MailboxDescriptor), queue[i]? = some descriptor →
    ring.slots (slot (ring.head + UInt64.ofNat i)) = descriptor

/-- The ring stands for a bounded queue that allows all that the calls have returned. -/
structure RingUse.StandsFor (s : RingUse) (queue : List MailboxDescriptor) : Prop where
  follows : Fifo.Follows kMailboxRingCapacity s.past queue
  holds : s.ring.Holds queue
  producing : s.producer.Knows s.ring queue
  consuming : s.consumer.Knows s.ring queue

namespace MailboxRing

variable {ring : MailboxRing} {queue : List MailboxDescriptor}

theorem slot_add (counter : UInt64) (i : Nat) :
    (slot (counter + UInt64.ofNat i)).val = (counter.toNat + i) % kMailboxRingCapacity := by
  -- The capacity divides the number of counter values.
  simp only [slot, kMailboxRingCapacity, UInt64.toNat_add, UInt64.toNat_ofNat']
  omega

theorem slot_inj {counter : UInt64} {i j : Nat} (first : i < kMailboxRingCapacity)
    (second : j < kMailboxRingCapacity)
    (same : slot (counter + UInt64.ofNat i) = slot (counter + UInt64.ofNat j)) : i = j := by
  have places := congrArg Fin.val same
  rw [slot_add, slot_add] at places
  simp only [kMailboxRingCapacity] at first second places
  omega

theorem Holds.size_eq (holds : ring.Holds queue) (fits : queue.length ≤ kMailboxRingCapacity) :
    (ring.tail - ring.head).toNat = queue.length := by
  simp only [kMailboxRingCapacity] at fits
  rw [holds.tail_eq, UInt64.add_comm, UInt64.add_sub_cancel, UInt64.toNat_ofNat']
  omega

theorem Holds.head_eq_tail_iff (holds : ring.Holds queue)
    (fits : queue.length ≤ kMailboxRingCapacity) : ring.head = ring.tail ↔ queue = [] := by
  have size := holds.size_eq fits
  constructor
  · intro same
    rw [same, UInt64.sub_self] at size
    exact List.length_eq_zero_iff.mp size.symm
  · intro none_
    have tail_eq := holds.tail_eq
    rw [none_] at tail_eq
    simpa using tail_eq.symm

theorem next_place (counter : UInt64) (i : Nat) :
    counter + UInt64.ofNat i + 1 = counter + UInt64.ofNat (i + 1) := by
  rw [UInt64.ofNat_add, UInt64.add_assoc]
  rfl

theorem Holds.write (holds : ring.Holds queue) (room : queue.length < kMailboxRingCapacity)
    (descriptor : MailboxDescriptor) :
    ({ ring with slots := Function.update ring.slots (slot ring.tail) descriptor } :
      MailboxRing).Holds queue where
  tail_eq := holds.tail_eq
  slot_eq := by
    intro i held found
    have inside : i < queue.length := (List.getElem?_eq_some_iff.mp found).1
    have apart : slot (ring.head + UInt64.ofNat i) ≠ slot ring.tail := by
      rw [holds.tail_eq]
      exact fun same => absurd (slot_inj (by omega) room same) (by omega)
    exact (Function.update_of_ne apart ..).trans (holds.slot_eq i held found)

theorem Holds.push (holds : ring.Holds queue) {descriptor : MailboxDescriptor}
    (written : ring.slots (slot ring.tail) = descriptor) :
    ({ ring with tail := ring.tail + 1 } : MailboxRing).Holds (queue ++ [descriptor]) where
  tail_eq := by
    rw [List.length_append, List.length_singleton, ← next_place, ← holds.tail_eq]
  slot_eq := by
    intro i held found
    by_cases inside : i < queue.length
    · rw [List.getElem?_append_left inside] at found
      exact holds.slot_eq i held found
    · -- Behind the others there is only the new descriptor.
      rw [List.getElem?_append_right (by omega)] at found
      obtain ⟨first, same⟩ := List.getElem?_eq_some_iff.mp found
      rw [List.length_singleton] at first
      have here : i = queue.length := by omega
      subst here
      rw [← holds.tail_eq, written]
      simpa using same

theorem Holds.pop {descriptor : MailboxDescriptor} (holds : ring.Holds (descriptor :: queue)) :
    ({ ring with head := ring.head + 1 } : MailboxRing).Holds queue where
  tail_eq := by
    rw [holds.tail_eq, List.length_cons, Nat.add_comm, UInt64.ofNat_add, ← UInt64.add_assoc]
    rfl
  slot_eq := by
    intro i held found
    have place : ring.head + 1 + UInt64.ofNat i = ring.head + UInt64.ofNat (i + 1) := by
      rw [Nat.add_comm i, UInt64.ofNat_add, ← UInt64.add_assoc]
      rfl
    rw [place]
    exact holds.slot_eq (i + 1) held found

theorem Holds.front (holds : ring.Holds queue) (some_ : queue ≠ []) :
    queue.head? = some (ring.slots (slot ring.head)) := by
  obtain ⟨descriptor, rest, rfl⟩ := List.exists_cons_of_ne_nil some_
  have stands := holds.slot_eq 0 descriptor rfl
  rw [← stands]
  simp

end MailboxRing

variable {ring changed : MailboxRing} {queue after : List MailboxDescriptor}

theorem Pushing.Knows.stable {producer : Pushing} (knows : producer.Knows ring queue)
    (tail : changed.tail = ring.tail) (slots : changed.slots = ring.slots)
    (fewer : after.length ≤ queue.length) : producer.Knows changed after := by
  cases producer with
  | idle => trivial
  | loaded descriptor loaded => exact Eq.trans knows tail.symm
  | checked descriptor loaded => exact ⟨knows.1.trans tail.symm, by have := knows.2; omega⟩
  | written descriptor loaded =>
    refine ⟨knows.1.trans tail.symm, by have := knows.2.1; omega, ?_⟩
    rw [slots]
    exact knows.2.2

theorem Popping.Knows.stable {consumer : Popping} (knows : consumer.Knows ring queue)
    (head : changed.head = ring.head) (more : queue <+: after) :
    consumer.Knows changed after := by
  obtain ⟨added, rfl⟩ := more
  cases consumer with
  | idle => trivial
  | loaded loaded => exact Eq.trans knows head.symm
  | checked loaded =>
    exact ⟨knows.1.trans head.symm, fun none_ => knows.2 (List.append_eq_nil_iff.mp none_).1⟩
  | read descriptor loaded =>
    refine ⟨knows.1.trans head.symm, ?_⟩
    rw [List.head?_append, knows.2]
    rfl

namespace RingUse

variable {s next : RingUse}

theorem StandsFor.room_iff (stands : s.StandsFor queue) {descriptor : MailboxDescriptor}
    {tail : UInt64} (loaded : s.producer = .loaded descriptor tail) :
    (tail - s.ring.head).toNat ≥ kMailboxRingCapacity ↔ queue.length = kMailboxRingCapacity := by
  have knows := stands.producing
  have fits := stands.follows.length_le
  rw [loaded] at knows
  rw [show tail = s.ring.tail from knows, stands.holds.size_eq fits]
  omega

theorem StandsFor.produce (stands : s.StandsFor queue) (stepped : s.produce = some next) :
    ∃ after, next.StandsFor after := by
  have knows := stands.producing
  unfold RingUse.produce at stepped
  cases at_ : s.producer with
  | idle =>
    rw [at_] at stepped
    cases stepped
  | loaded descriptor tail =>
    have judged := stands.room_iff at_
    have fits := stands.follows.length_le
    rw [at_] at knows
    simp only [at_] at stepped
    split at stepped
    case isTrue full =>
      cases stepped
      exact ⟨queue, stands.follows.next (.refused (judged.mp full)), stands.holds, trivial,
        stands.consuming⟩
    case isFalse room =>
      cases stepped
      refine ⟨queue, stands.follows, stands.holds, ⟨knows, ?_⟩, stands.consuming⟩
      have notFull := fun full => room (judged.mpr full)
      omega
  | checked descriptor tail =>
    rw [at_] at knows
    obtain ⟨rfl, room⟩ := knows
    simp only [at_, Option.some.injEq] at stepped
    subst stepped
    exact ⟨queue, stands.follows, stands.holds.write room descriptor,
      ⟨rfl, room, Function.update_self ..⟩, stands.consuming.stable rfl List.prefix_rfl⟩
  | written descriptor tail =>
    rw [at_] at knows
    obtain ⟨rfl, room, written⟩ := knows
    simp only [at_, Option.some.injEq] at stepped
    subst stepped
    exact ⟨queue ++ [descriptor], stands.follows.next (.pushed room), stands.holds.push written,
      trivial, stands.consuming.stable rfl (List.prefix_append ..)⟩

theorem StandsFor.consume (stands : s.StandsFor queue) (stepped : s.consume = some next) :
    ∃ after, next.StandsFor after := by
  have knows := stands.consuming
  unfold RingUse.consume at stepped
  cases at_ : s.consumer with
  | idle =>
    rw [at_] at stepped
    cases stepped
  | loaded head =>
    rw [at_] at knows
    have judged := stands.holds.head_eq_tail_iff stands.follows.length_le
    simp only [at_] at stepped
    split at stepped
    case isTrue same =>
      cases stepped
      rw [show head = s.ring.head from knows] at same
      have none_ := judged.mp same
      subst none_
      exact ⟨[], stands.follows.next .empty, stands.holds, stands.producing, trivial⟩
    case isFalse apart =>
      cases stepped
      rw [show head = s.ring.head from knows] at apart
      exact ⟨queue, stands.follows, stands.holds, stands.producing, knows,
        fun none_ => apart (judged.mpr none_)⟩
  | checked head =>
    rw [at_] at knows
    obtain ⟨rfl, some_⟩ := knows
    simp only [at_, Option.some.injEq] at stepped
    subst stepped
    exact ⟨queue, stands.follows, stands.holds, stands.producing, rfl, stands.holds.front some_⟩
  | read descriptor head =>
    rw [at_] at knows
    obtain ⟨rfl, front⟩ := knows
    obtain ⟨rest, rfl⟩ := List.head?_eq_some_iff.mp front
    simp only [at_, Option.some.injEq] at stepped
    subst stepped
    exact ⟨rest, stands.follows.next .popped, stands.holds.pop,
      stands.producing.stable rfl rfl (Nat.le_succ _), trivial⟩

theorem StandsFor.step (stands : s.StandsFor queue) {turn : RingTurn}
    (stepped : s.step turn = some next) : ∃ after, next.StandsFor after := by
  cases turn with
  | push descriptor =>
    -- The calls start by loading the counter that only they change.
    simp only [RingUse.step, RingUse.push] at stepped
    split at stepped
    case h_1 =>
      cases stepped
      exact ⟨queue, stands.follows, stands.holds, rfl, stands.consuming⟩
    case h_2 => cases stepped
  | produce => exact stands.produce stepped
  | pop =>
    simp only [RingUse.step, RingUse.pop] at stepped
    split at stepped
    case h_1 =>
      cases stepped
      exact ⟨queue, stands.follows, stands.holds, stands.producing, rfl⟩
    case h_2 => cases stepped
  | consume => exact stands.consume stepped

theorem standsFor_start : start.StandsFor [] where
  follows := .nil
  holds := ⟨rfl, fun _ _ found => by cases found⟩
  producing := trivial
  consuming := trivial

theorem StandsFor.slots_apart (stands : s.StandsFor queue) {descriptor : MailboxDescriptor}
    {tail head : UInt64} (writing : s.producer = .checked descriptor tail)
    (reading : s.consumer = .checked head) : MailboxRing.slot tail ≠ MailboxRing.slot head := by
  have producing := stands.producing
  have consuming := stands.consuming
  rw [writing] at producing
  rw [reading] at consuming
  obtain ⟨rfl, room⟩ := producing
  obtain ⟨rfl, some_⟩ := consuming
  have nonempty := List.length_pos_of_ne_nil some_
  have start : s.ring.head = s.ring.head + UInt64.ofNat 0 := by simp
  rw [stands.holds.tail_eq]
  conv => rhs; rw [start]
  intro same
  exact absurd (MailboxRing.slot_inj room (by decide) same) (by omega)

/--
What the calls have returned is what a bounded queue returns, and the ring holds that queue.

Pushes and pops take effect when they store their counter, and a refused push when it loads the
head. At that access a push is refused when all slots are taken, and only then.
-/
structure Refines (s : RingUse) (queue : List MailboxDescriptor) : Prop where
  follows : Fifo.Follows kMailboxRingCapacity s.past queue
  size : s.ring.approximateSize = queue.length
  conserved : Attempt.pushes s.past = Attempt.pops s.past ++ queue
  full : ∀ front descriptor back, s.past = front ++ .refused descriptor :: back →
    (Attempt.pushes front).length = (Attempt.pops front).length + kMailboxRingCapacity
  room : ∀ front descriptor back, s.past = front ++ .pushed descriptor :: back →
    (Attempt.pushes front).length < (Attempt.pops front).length + kMailboxRingCapacity
  refused : ∀ descriptor tail, s.producer = .loaded descriptor tail →
    ((s.produce.map fun next => next.past) = some (s.past ++ [.refused descriptor]) ↔
      queue.length = kMailboxRingCapacity)
  apart : ∀ descriptor tail head, s.producer = .checked descriptor tail →
    s.consumer = .checked head → MailboxRing.slot tail ≠ MailboxRing.slot head

theorem StandsFor.refines (stands : s.StandsFor queue) : s.Refines queue where
  follows := stands.follows
  size := stands.holds.size_eq stands.follows.length_le
  conserved := stands.follows.pushes_eq
  full := fun _ _ _ past => (past ▸ stands.follows).full_of_refused
  room := fun _ _ _ past => (past ▸ stands.follows).room_of_pushed
  refused := by
    intro descriptor tail loaded
    rw [← stands.room_iff loaded]
    simp only [RingUse.produce, loaded]
    split
    case isTrue full => simp [full]
    case isFalse room => simp [room]
  apart := fun _ _ _ writing reading => stands.slots_apart writing reading

/-- Whatever the order of the accesses, the ring is a queue of at most 64 descriptors. -/
theorem ring_refines (turns : List RingTurn) :
    Throughout RingUse.step (fun s => ∃ queue, s.Refines queue) start turns := by
  -- Every access keeps that the ring stands for some queue, and nothing is asked of the accesses.
  have free : StepsMeet RingUse.step (fun _ _ => True) start turns :=
    stepsMeet_of_forall turns start fun _ _ _ => trivial
  have kept : Throughout RingUse.step (fun s => ∃ queue, s.StandsFor queue) start turns := by
    refine throughout_of_stepsMeet ?_ turns start ⟨[], standsFor_start⟩ free
    intro s turn next stands _ stepped
    obtain ⟨queue, stands⟩ := stands
    exact stands.step stepped
  refine Throughout.imp ?_ turns start kept
  intro s stands
  obtain ⟨queue, stands⟩ := stands
  exact ⟨queue, stands.refines⟩

end RingUse

end AgentC.Root1

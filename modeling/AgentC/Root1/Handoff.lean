import AgentC.Root1.BrokerLaws

/-! A resource has one owner at a time, and passes to its waiters in the order in which they queued. -/

namespace AgentC.Root1

def enqueuedOn (key : ResourceKey) (past : List Event) : List ParticipantId :=
  past.filterMap fun
    | .enqueued at_ participant => if at_ = key then some participant else none
    | _ => none

def grantedOn (key : ResourceKey) (past : List Event) : List ParticipantId :=
  past.filterMap fun
    | .granted at_ _ next _ => if at_ = key then some next else none
    | _ => none

/-- How one event changes who has been made the owner of a resource and has not lost it since. -/
def holdersAfter (key : ResourceKey) (holders : List ParticipantId) :
    Event → List ParticipantId
  | .acquired at_ participant => if at_ = key then participant :: holders else holders
  | .granted at_ owner next _ => if at_ = key then next :: holders.erase owner else holders
  | .freed at_ owner _ => if at_ = key then holders.erase owner else holders
  | _ => holders

def holders (key : ResourceKey) (past : List Event) : List ParticipantId :=
  past.foldl (holdersAfter key) []

section Append

variable (key : ResourceKey) (past events : List Event)

theorem enqueuedOn_append :
    enqueuedOn key (past ++ events) = enqueuedOn key past ++ enqueuedOn key events :=
  List.filterMap_append

theorem grantedOn_append :
    grantedOn key (past ++ events) = grantedOn key past ++ grantedOn key events :=
  List.filterMap_append

theorem holders_append :
    holders key (past ++ events) = events.foldl (holdersAfter key) (holders key past) :=
  List.foldl_append

end Append

/-- What the past of a resource and its present say about one another. -/
structure Ordered (b : Broker) (past : List Event) (key : ResourceKey) : Prop where
  /-- The grants so far, followed by the queue, are everything that was ever queued. -/
  queue : enqueuedOn key past = grantedOn key past ++ b.waiters key
  distinct : (b.waiters key).Nodup
  known : ∀ p ∈ b.waiters key, b.isValidParticipantLocked p ∧ p ≠ 0 ∧ p < kOwnerMask
  busy : b.waiters key ≠ [] → b.owner key ≠ 0
  held : holders key past = if b.owner key = 0 then [] else [b.owner key]
  clean : b.owner key = 0 → b.words key = 0
  /-- A participant told that it is queued has one grant to come, and waits until it comes. -/
  answered : ∀ before after p, past = before ++ .answered key p .queued :: after →
    (enqueuedOn key before).count p = (grantedOn key before).count p + 1 ∧
      (p ∈ b.waiters key ∨ p ∈ grantedOn key after)

def Event.Elsewhere (key : ResourceKey) : Event → Prop
  | .acquired at_ _ | .enqueued at_ _ | .granted at_ _ _ _ | .freed at_ _ _ => at_ ≠ key
  | .answered at_ _ status => at_ ≠ key ∨ status ≠ .queued
  | _ => True

def Event.About (key : ResourceKey) : Event → Prop
  | .acquired at_ _ | .enqueued at_ _ | .granted at_ _ _ _ | .freed at_ _ _
  | .answered at_ _ _ => at_ = key
  | _ => False

theorem Event.elsewhere_of_about {event : Event} {key other : ResourceKey}
    (about : event.About key) (apart : other ≠ key) : event.Elsewhere other := by
  cases event with
  | acquired | enqueued | granted | freed => exact fun same => apart (same.symm.trans about)
  | answered => exact Or.inl fun same => apart (same.symm.trans about)
  | leased | renewed | reportedDown => cases about

theorem Event.elsewhere_of_quiet {event : Event} (quiet : event.quiet) (key : ResourceKey) :
    event.Elsewhere key := by
  cases event with
  | answered at_ p status => exact Or.inr (by simpa [Event.quiet] using quiet)
  | leased | renewed | reportedDown => trivial
  | acquired | enqueued | granted | freed => cases quiet

section Elsewhere

variable {key : ResourceKey} {events : List Event}

theorem enqueuedOn_elsewhere (elsewhere : ∀ event ∈ events, event.Elsewhere key) :
    enqueuedOn key events = [] := by
  refine List.filterMap_eq_nil_iff.mpr fun event member => ?_
  have apart := elsewhere event member
  cases event with
  | enqueued at_ p => exact if_neg apart
  | _ => rfl

theorem grantedOn_elsewhere (elsewhere : ∀ event ∈ events, event.Elsewhere key) :
    grantedOn key events = [] := by
  refine List.filterMap_eq_nil_iff.mpr fun event member => ?_
  have apart := elsewhere event member
  cases event with
  | granted at_ owner next cause => exact if_neg apart
  | _ => rfl

theorem holders_elsewhere (elsewhere : ∀ event ∈ events, event.Elsewhere key)
    (past : List Event) : holders key (past ++ events) = holders key past := by
  unfold holders
  rw [List.foldl_append]
  generalize past.foldl (holdersAfter key) [] = now
  -- Each event in turn leaves the holders alone.
  induction events with
  | nil => rfl
  | cons event rest ih =>
    have apart := elsewhere event List.mem_cons_self
    have same : holdersAfter key now event = now := by
      cases event with
      | acquired | granted | freed => exact if_neg apart
      | _ => rfl
    rw [List.foldl_cons, same]
    exact ih fun event member => elsewhere event (List.mem_cons_of_mem _ member)

theorem split_before {past before after : List Event} {answer : Event}
    (absent : answer ∉ events) (split : past ++ events = before ++ answer :: after) :
    ∃ mid, past = before ++ answer :: mid ∧ after = mid ++ events := by
  rcases List.append_eq_append_iff.mp split with ⟨front, rfl, rest⟩ | ⟨front, rfl, rest⟩
  · -- The answer would lie in the events.
    exact absurd (rest ▸ List.mem_append_right _ List.mem_cons_self) absent
  · cases front with
    | nil =>
      simp only [List.nil_append] at rest
      exact absurd (rest ▸ List.mem_cons_self) absent
    | cons first mid =>
      obtain ⟨rfl, rfl⟩ := List.cons.inj rest
      exact ⟨mid, rfl, rfl⟩

end Elsewhere

namespace Ordered

variable {b c : Broker} {past events : List Event} {key : ResourceKey} {p : ParticipantId}

theorem initial (key : ResourceKey) : Ordered Broker.initial [] key where
  queue := rfl
  distinct := List.nodup_nil
  known := List.forall_mem_nil _
  busy := fun waiting => absurd rfl waiting
  held := (if_pos ownerOf_zero).symm
  clean := fun _ => rfl
  answered := fun before after p split => by simp at split

theorem answered_extend (ordered : Ordered b past key)
    (unanswered : ∀ p, .answered key p .queued ∉ events)
    (moved : ∀ p ∈ b.waiters key, p ∈ c.waiters key ∨ p ∈ grantedOn key events) :
    ∀ before after p, past ++ events = before ++ .answered key p .queued :: after →
      (enqueuedOn key before).count p = (grantedOn key before).count p + 1 ∧
        (p ∈ c.waiters key ∨ p ∈ grantedOn key after) := by
  intro before after p split
  obtain ⟨mid, earlier, rfl⟩ := split_before (unanswered p) split
  rw [grantedOn_append]
  -- A participant that waited may have been granted the resource by the last events.
  obtain ⟨one, waits | granted⟩ := ordered.answered before mid p earlier
  · exact ⟨one, (moved p waits).imp_right fun now => List.mem_append_right _ now⟩
  · exact ⟨one, Or.inr (List.mem_append_left _ granted)⟩

theorem elsewhere (ordered : Ordered b past key) (words : c.words key = b.words key)
    (waiters : c.waiters key = b.waiters key)
    (known : ∀ p, b.isValidParticipantLocked p → c.isValidParticipantLocked p)
    (apart : ∀ event ∈ events, event.Elsewhere key) : Ordered c (past ++ events) key := by
  have owner : c.owner key = b.owner key := congrArg ownerOf words
  refine ⟨?_, waiters ▸ ordered.distinct, fun p member => ?_, ?_, ?_, ?_, ?_⟩
  · rw [enqueuedOn_append, grantedOn_append, enqueuedOn_elsewhere apart,
      grantedOn_elsewhere apart, List.append_nil, List.append_nil, waiters]
    exact ordered.queue
  · rw [waiters] at member
    obtain ⟨valid, rest⟩ := ordered.known p member
    exact ⟨known p valid, rest⟩
  · rw [waiters, owner]; exact ordered.busy
  · rw [holders_elsewhere apart, owner]; exact ordered.held
  · rw [owner, words]; exact ordered.clean
  · refine ordered.answered_extend (fun p member => ?_) fun p member => Or.inl (waiters ▸ member)
    -- A queued answer for this resource is not elsewhere.
    exact (apart _ member).elim (fun other => other rfl) (fun other => other rfl)

theorem same (ordered : Ordered b past key) (words : c.words key = b.words key)
    (waiters : c.waiters key = b.waiters key)
    (known : ∀ p, b.isValidParticipantLocked p → c.isValidParticipantLocked p) :
    Ordered c past key := by
  have still := ordered.elsewhere words waiters known (List.forall_mem_nil _)
  rwa [List.append_nil] at still

theorem marked (ordered : Ordered b past key) (owned : b.owner key ≠ 0) :
    Ordered (b.setWord key (b.words key ||| kContendedBit)) past key := by
  have same : (b.setWord key (b.words key ||| kContendedBit)).owner key = b.owner key := by
    rw [Broker.owner_setWord_same, ownerOf_mark]
    rfl
  exact ⟨ordered.queue, ordered.distinct, ordered.known, fun _ => same.symm ▸ owned,
    same.symm ▸ ordered.held, fun zero => absurd (same.symm.trans zero) owned, ordered.answered⟩

theorem acquired (ordered : Ordered b past key) (free : b.words key = 0) (nonzero : p ≠ 0)
    (small : p < kOwnerMask) : Ordered (b.setWord key p) (past ++ [.acquired key p]) key := by
  have unowned : b.owner key = 0 := (congrArg ownerOf free).trans ownerOf_zero
  have owned : (b.setWord key p).owner key = p :=
    (Broker.owner_setWord_same key p).trans (ownerOf_id small)
  have before : holders key past = [] := by rw [ordered.held, if_pos unowned]
  refine ⟨?_, ordered.distinct, ordered.known, fun _ => by rw [owned]; exact nonzero, ?_,
    fun zero => absurd (owned.symm.trans zero) nonzero, ?_⟩
  · rw [enqueuedOn_append, grantedOn_append]
    show enqueuedOn key past ++ [] = (grantedOn key past ++ []) ++ b.waiters key
    rw [List.append_nil, List.append_nil]
    exact ordered.queue
  · rw [holders_append, before, owned, if_neg nonzero]
    exact if_pos rfl
  · exact ordered.answered_extend (by simp) fun q member => Or.inl member

theorem joined (ordered : Ordered b past key) (owned : b.owner key ≠ 0)
    (valid : b.isValidParticipantLocked p) (nonzero : p ≠ 0) (small : p < kOwnerMask)
    (absent : p ∉ b.waiters key) :
    Ordered (b.setWaiters key (b.waiters key ++ [p])) (past ++ [.enqueued key p]) key := by
  have queue : (b.setWaiters key (b.waiters key ++ [p])).waiters key = b.waiters key ++ [p] :=
    Broker.waiters_setWaiters_same key _
  refine ⟨?_, ?_, fun q member => ?_, fun _ => owned, ?_, ordered.clean, ?_⟩
  · have entered : enqueuedOn key [.enqueued key p] = [p] := by simp [enqueuedOn]
    rw [enqueuedOn_append, grantedOn_append, entered, queue, ordered.queue]
    show _ = (grantedOn key past ++ []) ++ _
    rw [List.append_nil, List.append_assoc]
  · rw [queue]
    exact List.nodup_append.mpr ⟨ordered.distinct, List.nodup_singleton p,
      fun q waits r last => fun same => absent (List.mem_singleton.mp last ▸ same ▸ waits)⟩
  · rw [queue] at member
    cases List.mem_append.mp member with
    | inl waits => exact ordered.known q waits
    | inr last =>
      rw [List.mem_singleton.mp last]
      exact ⟨valid, nonzero, small⟩
  · rw [holders_append]
    exact ordered.held
  · refine ordered.answered_extend (by simp) fun q member => Or.inl ?_
    rw [queue]
    exact List.mem_append_left _ member

theorem told (ordered : Ordered b past key) (waits : p ∈ b.waiters key) :
    Ordered b (past ++ [.answered key p .queued]) key := by
  have queue : enqueuedOn key (past ++ [.answered key p .queued]) =
      grantedOn key (past ++ [.answered key p .queued]) ++ b.waiters key := by
    rw [enqueuedOn_append, grantedOn_append]
    show enqueuedOn key past ++ [] = (grantedOn key past ++ []) ++ b.waiters key
    rw [List.append_nil, List.append_nil]
    exact ordered.queue
  refine ⟨queue, ordered.distinct, ordered.known, ordered.busy, ?_, ordered.clean,
    fun before after q split => ?_⟩
  · rw [holders_append]
    exact ordered.held
  · -- The answer is either the new one or one of the earlier ones.
    rcases List.eq_nil_or_concat after with rfl | ⟨mid, last, rfl⟩
    · obtain ⟨rfl, same⟩ := List.append_inj' split rfl
      cases same
      refine ⟨?_, Or.inl waits⟩
      rw [ordered.queue, List.count_append, List.count_eq_one_of_mem ordered.distinct waits]
    · have parts : past = before ++ .answered key q .queued :: mid ∧ last = .answered key p .queued := by
        rw [List.concat_eq_append, ← List.cons_append, ← List.append_assoc] at split
        obtain ⟨earlier, same⟩ := List.append_inj' split rfl
        exact ⟨earlier, (List.singleton_inj.mp same).symm⟩
      obtain ⟨earlier, rfl⟩ := parts
      obtain ⟨one, now⟩ := ordered.answered before mid q earlier
      refine ⟨one, now.imp_right fun granted => ?_⟩
      rw [List.concat_eq_append, grantedOn_append]
      exact List.mem_append_left _ granted

theorem granted (ordered : Ordered b past key) {next : ParticipantId} {rest : List ParticipantId}
    (waiting : b.waiters key = next :: rest) (cause : Cause) :
    Ordered (b.passTo key next rest) (past ++ [.granted key (b.owner key) next cause]) key := by
  obtain ⟨-, nonzero, small⟩ := ordered.known next (waiting ▸ List.mem_cons_self)
  have owned : (b.passTo key next rest).owner key = next :=
    (Broker.owner_setWord_same key _).trans (ownerOf_pass small rest.isEmpty)
  have queue : (b.passTo key next rest).waiters key = rest := by simp [Broker.passTo]
  have out : grantedOn key [.granted key (b.owner key) next cause] = [next] := by simp [grantedOn]
  have distinct := ordered.distinct
  rw [waiting] at distinct
  refine ⟨?_, by rw [queue]; exact (List.nodup_cons.mp distinct).2, fun q member => ?_,
    fun _ => by rw [owned]; exact nonzero, ?_,
    fun zero => absurd (owned.symm.trans zero) nonzero, ?_⟩
  · rw [enqueuedOn_append, grantedOn_append, out, queue, ordered.queue, waiting]
    show (_ ++ _) ++ [] = _
    rw [List.append_nil, List.append_assoc]
    rfl
  · rw [queue] at member
    exact ordered.known q (waiting ▸ List.mem_cons_of_mem _ member)
  · -- Before, the owner was the only holder.
    have busy : b.owner key ≠ 0 := ordered.busy (by rw [waiting]; exact List.cons_ne_nil _ _)
    have held := ordered.held
    rw [if_neg busy] at held
    rw [holders_append, held, owned, if_neg nonzero]
    simp [holdersAfter]
  · refine ordered.answered_extend (by simp) fun q member => ?_
    rw [waiting] at member
    rw [queue, out]
    cases List.mem_cons.mp member with
    | inl first => exact Or.inr (List.mem_singleton.mpr first)
    | inr behind => exact Or.inl behind

theorem freed (ordered : Ordered b past key) (owned : b.owner key ≠ 0)
    (alone : b.waiters key = []) (cause : Cause) :
    Ordered (b.clear key) (past ++ [.freed key (b.owner key) cause]) key := by
  have owner : (b.clear key).owner key = 0 :=
    (Broker.owner_setWord_same key 0).trans ownerOf_zero
  have queue : (b.clear key).waiters key = [] := by simp [Broker.clear]
  refine ⟨?_, queue ▸ List.nodup_nil, fun q member => ?_, fun waits => absurd queue waits, ?_,
    fun _ => by simp [Broker.clear], ?_⟩
  · rw [enqueuedOn_append, grantedOn_append, queue]
    show enqueuedOn key past ++ [] = (grantedOn key past ++ []) ++ []
    rw [ordered.queue, alone, List.append_nil, List.append_nil]
  · rw [queue] at member
    cases member
  · have held := ordered.held
    rw [if_neg owned] at held
    rw [holders_append, held, owner, if_pos rfl]
    simp [holdersAfter]
  · refine ordered.answered_extend (by simp) fun q member => ?_
    rw [alone] at member
    cases member

end Ordered

def Work.Anytime : Work → Prop
  | .tryAcquire _ p | .acquireFast _ p | .checkOwner _ p => p ≠ 0 ∧ p < kOwnerMask
  | .retryAcquire _ _ | .enqueue _ _ | .handOff _ _ _ _ => False
  | _ => True

/-- An access that may come next, given what its section has found out so far. -/
def Work.Due (b : Broker) : Work → Prop
  | .retryAcquire _ p => b.isValidParticipantLocked p ∧ p ≠ 0 ∧ p < kOwnerMask
  | .enqueue key p => b.owner key ≠ 0 ∧ b.isValidParticipantLocked p ∧ p ≠ 0 ∧ p < kOwnerMask
  | .handOff key owner _ _ => owner ≠ 0 ∧ b.owner key = owner
  | item => item.Anytime

def Ready (b : Broker) : List Work → Prop
  | [] => True
  | item :: rest => item.Due b ∧ ∀ later ∈ rest, later.Anytime

/-- A segment that may begin at any time. -/
def Fresh : Segment Work → Prop
  | .free item => ∃ key p, (item = .tryAcquire key p ∨ item = .acquireFast key p) ∧
      p ≠ 0 ∧ p < kOwnerMask
  | .locked work => ∀ item ∈ work, item.Anytime

def AllOrdered (b : Broker) (past : List Event) : Prop :=
  ∀ key, Ordered b past key

theorem Work.Anytime.due {item : Work} (anytime : item.Anytime) (b : Broker) : item.Due b := by
  cases item with
  | retryAcquire | enqueue | handOff => cases anytime
  | _ => exact anytime

theorem ready_of_anytime {work : List Work} (anytime : ∀ item ∈ work, item.Anytime) (b : Broker) :
    Ready b work := by
  cases work with
  | nil => trivial
  | cons item rest =>
    exact ⟨(anytime item List.mem_cons_self).due b,
      fun later member => anytime later (List.mem_cons_of_mem _ member)⟩

theorem Work.anytime_of_not_decides {item : Work} (other : item.decides = false) :
    item.Anytime := by
  cases item with
  | tryAcquire | acquireFast | checkOwner | retryAcquire | enqueue | checkTenure | handOff =>
    cases other
  | _ => trivial

theorem Ready.setWord {b : Broker} {work : List Work} (ready : Ready b work) {key : ResourceKey}
    (free : b.words key = 0) (p : ParticipantId) : Ready (b.setWord key p) work := by
  have unowned : b.owner key = 0 := (congrArg ownerOf free).trans ownerOf_zero
  cases work with
  | nil => trivial
  | cons item rest =>
    refine ⟨?_, ready.2⟩
    have due := ready.1
    -- Only two accesses look at an owner, and the owner they saw is not zero.
    cases item with
    | enqueue other q =>
      have apart : other ≠ key := fun same => due.1 (same ▸ unowned)
      exact ⟨by rw [Broker.owner_setWord_other apart]; exact due.1, due.2⟩
    | handOff other owner cause reason =>
      have apart : other ≠ key := fun same => due.1 (due.2 ▸ same ▸ unowned)
      exact ⟨due.1, by rw [Broker.owner_setWord_other apart]; exact due.2⟩
    | _ => exact due

namespace AllOrdered

variable {b : Broker} {past : List Event} {key : ResourceKey} {p : ParticipantId}

theorem at_key {c : Broker} {events : List Event} (ordered : AllOrdered b past)
    (here : Ordered c (past ++ events) key)
    (words : ∀ other, other ≠ key → c.words other = b.words other)
    (waiters : ∀ other, other ≠ key → c.waiters other = b.waiters other)
    (known : ∀ p, b.isValidParticipantLocked p → c.isValidParticipantLocked p)
    (about : ∀ event ∈ events, event.About key) : AllOrdered c (past ++ events) := by
  intro other
  by_cases same : other = key
  · rw [same]; exact here
  · exact (ordered other).elsewhere (words other same) (waiters other same) known
      fun event member => Event.elsewhere_of_about (about event member) same

theorem aside {out : Outcome Broker Work Event} (ordered : AllOrdered b past)
    (aside : Aside b out) : AllOrdered out.shared (past ++ out.events) := fun key =>
  (ordered key).elsewhere (congrFun aside.words key) (congrFun aside.waiters key) aside.known
    fun event member => Event.elsewhere_of_quiet (aside.quiet event member) key

/-- An answer other than `queued` keeps everything in order. -/
theorem answered (ordered : AllOrdered b past) {status : AcquireStatus}
    (notQueued : status ≠ .queued) : AllOrdered b (past ++ [.answered key p status]) :=
  fun other => (ordered other).elsewhere rfl rfl (fun _ known => known) fun event member => by
    rw [List.mem_singleton.mp member]
    exact Or.inr notQueued

theorem acquired (ordered : AllOrdered b past) (free : b.words key = 0) (nonzero : p ≠ 0)
    (small : p < kOwnerMask) : AllOrdered (b.setWord key p) (past ++ [.acquired key p]) :=
  ordered.at_key ((ordered key).acquired free nonzero small)
    (fun _ apart => Broker.words_setWord_other apart p) (fun _ _ => rfl) (fun _ known => known)
    (by simp [Event.About])

theorem acquiredAnswered (ordered : AllOrdered b past) (free : b.words key = 0) (nonzero : p ≠ 0)
    (small : p < kOwnerMask) : AllOrdered (b.setWord key p)
      (past ++ [.acquired key p, .answered key p .acquired]) := by
  have told : AllOrdered (b.setWord key p)
      ((past ++ [.acquired key p]) ++ [.answered key p .acquired]) :=
    (ordered.acquired free nonzero small).answered (by decide)
  rwa [List.append_assoc] at told

theorem enqueue (ordered : AllOrdered b past) (owned : b.owner key ≠ 0)
    (valid : b.isValidParticipantLocked p) (nonzero : p ≠ 0) (small : p < kOwnerMask) :
    AllOrdered (perform b (.enqueue key p)).shared
      (past ++ (perform b (.enqueue key p)).events) := by
  rw [perform]
  by_cases member : p ∈ b.waiters key
  · -- A participant that waits already is only told so.
    simp only [if_pos member]
    exact ordered.at_key (((ordered key).marked owned).told member)
      (fun _ apart => Broker.words_setWord_other apart _) (fun _ _ => rfl)
      (fun _ known => known) (by simp [Event.About])
  · simp only [if_neg member]
    have joined := (ordered key).joined owned valid nonzero small member
    have told := (joined.marked owned).told (p := p) (by
      show p ∈ (b.setWaiters key (b.waiters key ++ [p])).waiters key
      rw [Broker.waiters_setWaiters_same]
      exact List.mem_append_right _ (List.mem_singleton_self p))
    rw [List.append_assoc] at told
    exact ordered.at_key told (fun _ apart => Broker.words_setWord_other apart _)
      (fun _ apart => Broker.waiters_setWaiters_other apart _) (fun _ known => known)
      (by simp [Event.About])

theorem handOff (ordered : AllOrdered b past) {owner : ParticipantId} (nonzero : owner ≠ 0)
    (owns : b.owner key = owner) (cause : Cause) (reason : Bytes) :
    AllOrdered (b.handOff key owner cause reason).shared
      (past ++ (b.handOff key owner cause reason).events) := by
  subst owns
  have known := fun p member => ((ordered key).known p member).1
  obtain ⟨next, rest, found, words, waiters, valid, -, events⟩ |
    ⟨found, words, waiters, valid, -, events⟩ := b.handOff_cases key (b.owner key) cause reason
  · -- Every waiter is registered, so the first one is next.
    have passed := (ordered key).granted (Broker.nextWaiter_of_known known found) cause
    have here := passed.same (congrFun words key) (congrFun waiters key) valid
    rw [events]
    refine ordered.at_key here (fun other apart => ?_) (fun other apart => ?_) valid
      (by simp [Event.About])
    · rw [words]
      exact Broker.words_setWord_other apart _
    · rw [waiters]
      exact Broker.waiters_setWaiters_other apart _
  · -- Nobody waits, so the resource is free.
    have freed := (ordered key).freed nonzero (Broker.eq_nil_of_nextWaiter known found) cause
    have here := freed.same (congrFun words key) (congrFun waiters key) valid
    rw [events]
    refine ordered.at_key here (fun other apart => ?_) (fun other apart => ?_) valid
      (by simp [Event.About])
    · rw [words]
      exact Broker.words_setWord_other apart _
    · rw [waiters]
      exact Broker.waiters_setWaiters_other apart _

end AllOrdered

end AgentC.Root1

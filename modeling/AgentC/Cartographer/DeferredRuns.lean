import AgentC.Cartographer.DeferredSteps

/-! Deferred imports are attributed correctly as long as no name stands for two requests at once. -/

namespace AgentC.Cartographer

namespace CartographerService

variable {s next : CartographerService} {number other : Nat}

section Starts

theorem sound_start (forked : Bool) : (start forked).Sound where
  available := id
  started := Or.inl
  exited := by rintro ⟨⟩
  ended := by
    rintro rfl
    exact ⟨rfl, rfl⟩
  lost := fun _ => rfl
  distinct := by cases forked <;> exact List.nodup_nil
  called := by rintro _ _ ⟨⟩
  read := by rintro _ ⟨⟩
  sent := fun _ _ => (nomatch ·)
  handled := by
    cases forked
    · rintro _ _ ⟨⟩
    · rintro _ _ ⟨⟩
  answered := fun _ _ => (nomatch ·)
  chained := by rintro _ _ ⟨⟩
  settled := by rintro _ _ _ ⟨⟩
  recorded := by rintro _ _ ⟨⟩
  named := by rintro _ _ ⟨⟩
  filed := by rintro _ _ ⟨⟩

end Starts

section Progress

def Active (s : CartographerService) (number : Nat) : Prop :=
  number ∈ s.upcoming ∨ ∃ message, (message, number) ∈ s.fromChild

theorem Sound.pending_of_active {state : DeferredState} (sound : s.Sound) (idle : s.caller.call = none)
    (active : s.Active number) (has : s.state? number = some state) :
    isPendingStatus state.status = true := by
  have chain := sound.chained number state has
  -- A response on its way comes after the status, and nothing comes after an end.
  have followed : told s.fromChild number ≠ [] → isPendingStatus state.status = true := by
    intro more
    cases tells : told s.fromChild number with
    | nil => exact absurd tells more
    | cons status rest =>
      rw [tells] at chain
      exact (List.isChain_cons_cons.mp chain).1.pending
  obtain upcoming | ⟨message, member⟩ := active
  · simp only [CartographerService.upcoming, idle, List.mem_append, List.mem_map, Option.mem_toList, Prod.exists,
      exists_eq_right, reduceCtorEq, exists_false, or_false] at upcoming
    obtain ⟨request, task⟩ | ⟨message, sent⟩ := upcoming
    · obtain ⟨own, has', -, running⟩ := sound.handled request number task
      obtain rfl := Option.some.inj (has.symm.trans has')
      by_cases more : told s.fromChild number = []
      · rw [more] at running
        exact isPendingStatus_iff.mpr (Or.inr running)
      · exact followed more
    · obtain ⟨own, has', -, -, queued⟩ := sound.sent message number sent
      obtain rfl := Option.some.inj (has.symm.trans has')
      exact isPendingStatus_iff.mpr (Or.inl queued)
  · refine followed fun silent => ?_
    rw [told, List.map_eq_nil_iff, List.filter_eq_nil_iff] at silent
    exact silent _ member (decide_eq_true rfl)

/-- A step that changes no state, and tells nothing that was not to be told before. -/
structure Quiet (s next : CartographerService) : Prop where
  requests : next.requests = s.requests
  own : next.own = s.own
  latest : next.latest = s.latest
  active : ∀ number, next.Active number → s.Active number

/-- What a step can do to the states. -/
inductive Step (s : CartographerService) : DeferredEvent → CartographerService → Prop where
  | quiet {event : DeferredEvent} {next : CartographerService} (quiet : s.Quiet next) : Step s event next
  | queue {request : ImportRequest} (idle : s.caller = .idle) (library : request.libraryPath ≠ [])
      (header : request.headerPath ≠ []) : Step s (.importDeferred request) (s.queue request)
  | recordFailure {request : ImportRequest} {number : Nat} {flags : Flags}
      (failing : s.caller = .failing request number flags) :
      Step s .recordFailure (s.recordFailure request number flags)
  | deliver {message : List UInt8} {number : Nat} {rest : List (List UInt8 × Nat)}
      (reading : s.flags.childAvailable = true) (answers : s.fromChild = (message, number) :: rest) :
      Step s .deliver { s.respond message number with fromChild := rest }
  | disconnect (reading : s.flags.childAvailable = true) (gone : s.worker = .gone)
      (empty : s.fromChild = []) : Step s .disconnect s.disconnect

theorem Quiet.of_upcoming (requests : next.requests = s.requests) (own : next.own = s.own)
    (latest : next.latest = s.latest) (responses : next.fromChild = s.fromChild)
    (upcoming : next.upcoming.Sublist s.upcoming) : s.Quiet next where
  requests := requests
  own := own
  latest := latest
  active := by
    rintro number (member | ⟨message, member⟩)
    · exact Or.inl (upcoming.subset member)
    · exact Or.inr ⟨message, responses ▸ member⟩

theorem step_cases {event : DeferredEvent} (sound : s.Sound) (stepped : s.step event = some next) :
    s.Step event next := by
  cases event with
  | importDeferred request =>
    cases caller : s.caller with
    | idle =>
      simp only [step, caller] at stepped
      split at stepped
      · cases stepped
        exact .quiet (.of_upcoming rfl rfl rfl rfl (List.Sublist.refl _))
      next valid =>
        cases stepped
        obtain ⟨library, header⟩ := not_or.mp valid
        exact .queue caller library header
    | queued | flagged | failing | joining => simp only [step, caller, reduceCtorEq] at stepped
  | readFlags =>
    cases caller : s.caller with
    | queued request number =>
      simp only [step, caller, Option.some.injEq] at stepped
      subst stepped
      refine .quiet (.of_upcoming rfl rfl rfl rfl ?_)
      simp only [upcoming, caller, Caller.call, List.Sublist.refl]
    | idle | flagged | failing | joining => simp only [step, caller, reduceCtorEq] at stepped
  | write =>
    cases caller : s.caller with
    | flagged request number flags =>
      have unwritten : s.Step .write { s with caller := .failing request number flags } := by
        refine .quiet (.of_upcoming rfl rfl rfl rfl ?_)
        simp only [upcoming, caller, Caller.call, List.Sublist.refl]
      have written : s.Step .write
          { s with caller := .idle
                   toChild := s.toChild ++ [(Protocol.encodeImportRequest request, number)] } := by
        refine .quiet (.of_upcoming rfl rfl rfl rfl ?_)
        simp only [upcoming, caller, Caller.call, Option.toList_none, List.map_nil, List.append_nil,
          List.map_append, List.map_cons, Option.toList_some, List.Sublist.refl]
      simp only [step, caller] at stepped
      split at stepped
      · split at stepped
        · exact Option.some.inj stepped ▸ unwritten
        · exact Option.some.inj stepped ▸ written
        · exact Option.some.inj stepped ▸ written
      · exact Option.some.inj stepped ▸ unwritten
    | idle | queued | failing | joining => simp only [step, caller, reduceCtorEq] at stepped
  | recordFailure =>
    cases caller : s.caller with
    | failing request number flags =>
      simp only [step, caller, Option.some.injEq] at stepped
      exact stepped ▸ .recordFailure caller
    | idle | queued | flagged | joining => simp only [step, caller, reduceCtorEq] at stepped
  | terminateSubprocess =>
    cases caller : s.caller with
    | idle =>
      simp only [step, caller, Option.some.injEq] at stepped
      subst stepped
      refine .quiet (.of_upcoming rfl rfl rfl rfl ?_)
      simp only [upcoming, caller, Caller.call, List.Sublist.refl]
    | queued | flagged | failing | joining => simp only [step, caller, reduceCtorEq] at stepped
  | join =>
    cases caller : s.caller with
    | joining =>
      simp only [step, caller] at stepped
      split at stepped
      · cases stepped
      · cases stepped
        refine .quiet (.of_upcoming rfl rfl rfl rfl ?_)
        simp only [upcoming, caller, Caller.call, List.Sublist.refl]
    | idle | queued | flagged | failing => simp only [step, caller, reduceCtorEq] at stepped
  | receive =>
    simp only [step] at stepped
    split at stepped
    next message number rest waiting sent =>
      obtain ⟨state, -, written, -⟩ := sound.sent message number (by rw [sent]; exact List.mem_cons_self)
      rw [written, Protocol.decodeImportRequest_encodeImportRequest] at stepped
      cases stepped
      have order : s.upcoming = number :: (rest.map Prod.snd ++ s.caller.call.toList.map Prod.snd) := by
        rw [upcoming, waiting, sent]
        rfl
      refine .quiet ⟨rfl, rfl, rfl, ?_⟩
      rintro other (member | ⟨message', member⟩)
      · exact Or.inl (order ▸ member)
      · obtain member | last := List.mem_append.mp member
        · exact Or.inr ⟨message', member⟩
        · obtain ⟨-, rfl⟩ := Prod.mk.inj (List.mem_singleton.mp last)
          exact Or.inl (order ▸ List.mem_cons_self)
    next => cases stepped
  | finish loaded parsed =>
    cases worker : s.worker with
    | handling request number =>
      simp only [step, worker, Option.some.injEq] at stepped
      subst stepped
      have order : s.upcoming =
          number :: (s.toChild.map Prod.snd ++ s.caller.call.toList.map Prod.snd) := by
        rw [upcoming, worker]
        rfl
      refine .quiet ⟨rfl, rfl, rfl, ?_⟩
      rintro other (member | ⟨message', member⟩)
      · exact Or.inl (order ▸ List.mem_cons_of_mem _ member)
      · obtain member | last := List.mem_append.mp member
        · exact Or.inr ⟨message', member⟩
        · obtain ⟨-, rfl⟩ := Prod.mk.inj (List.mem_singleton.mp last)
          exact Or.inl (order ▸ List.mem_cons_self)
    | waiting | gone => simp only [step, worker, reduceCtorEq] at stepped
  | exit =>
    simp only [step] at stepped
    split at stepped
    · cases stepped
    · cases stepped
      refine .quiet (.of_upcoming rfl rfl rfl rfl ?_)
      exact List.Sublist.append (List.nil_sublist _)
        (List.Sublist.append (List.nil_sublist _) (List.Sublist.refl _))
  | deliver =>
    simp only [step] at stepped
    split at stepped
    next message number rest reading answers => exact Option.some.inj stepped ▸ .deliver reading answers
    next => cases stepped
  | disconnect =>
    simp only [step] at stepped
    split at stepped
    next reading gone empty => exact Option.some.inj stepped ▸ .disconnect reading gone empty
    next => cases stepped

theorem Sound.forward {event : DeferredEvent} {state : DeferredState} (sound : s.Sound)
    (taken : s.Step event next) (has : s.state? number = some state) :
    ∃ state', next.state? number = some state' ∧ Forward state.status state'.status := by
  have stays : Forward state.status state.status := Or.inl rfl
  cases taken with
  | quiet quiet => exact ⟨state, by rw [state?, quiet.own]; exact has, stays⟩
  | queue => exact ⟨state, state?_queue_of_some has, stays⟩
  | @recordFailure request called flags failing =>
    rw [state?_recordFailure]
    split
    next own =>
      subst own
      refine ⟨_, by rw [has, Option.map_some], ?_⟩
      have ended := isPendingStatus_failureStatus flags
      obtain ⟨-, own, has', -, -, status⟩ := sound.called request called (by rw [failing]; rfl)
      obtain rfl := Option.some.inj (has.symm.trans has')
      obtain queued | ⟨exited, failed⟩ := status
      · exact Forward.of_pending (isPendingStatus_iff.mpr (Or.inl queued)) ended
      · -- The reader has found the worker gone before, and that is what is recorded again.
        have begun : flags.begun = true := by
          rw [sound.read flags (by rw [failing]; rfl), Flags.begun, exited, Bool.true_or]
        refine Or.inl (failed.trans ?_)
        exact (if_pos begun).symm
    next => exact ⟨state, has, stays⟩
  | @deliver message about rest reading answers =>
    obtain ⟨change, own, has', responded, kept⟩ := sound.response answers
    have changed : ({ s.respond message about with fromChild := rest } : CartographerService).state? number =
        if about = number then (s.state? number).map change else s.state? number := by
      rw [responded]
      exact state?_note s about number change
    rw [changed]
    split
    next same =>
      refine ⟨_, by rw [has, Option.map_some], ?_⟩
      have chain := sound.chained number state has
      rw [answers, told_cons, if_pos same] at chain
      rw [(kept state).2.2]
      exact (List.isChain_cons_cons.mp chain).1.forward
    next => exact ⟨state, has, stays⟩
  | disconnect =>
    refine ⟨state.disconnect, by rw [state?_disconnect, has, Option.map_some], ?_⟩
    obtain ⟨same, -⟩ | ⟨pending, failed⟩ := disconnect_status state
    · rw [same]
      exact stays
    · exact Forward.of_pending pending (by rw [failed]; decide)

end Progress

section Names

/--
The states under the names are those of the requests that were queued under them last.

Nothing is told any more of a request whose name another one has got.
-/
structure Filed (s : CartographerService) : Prop where
  same : ∀ requestId, s.requests requestId = s.alone requestId
  current : ∀ number state, s.Active number → s.state? number = some state →
    s.latest state.request.requestId = some number
  separate : s.own.Pairwise fun one other => one.generated = true ∨ other.generated = true →
    one.state.request.requestId ≠ other.state.request.requestId

/--
A request with a name that cannot be mistaken.

A name that is made here is not in use. A name that is given was not made here, and the request that
it stood for last, if there is one, is no longer pending.
-/
def Unmistakable (s : CartographerService) : DeferredEvent → Prop
  | .importDeferred request =>
    request.libraryPath ≠ [] → request.headerPath ≠ [] →
      if request.requestId = [] then s.requests (generatedId s.nextDeferredRequestId) = none
      else
        (∀ own ∈ s.own, own.generated = true → own.state.request.requestId ≠ request.requestId) ∧
        ∀ state, s.requests request.requestId = some state → isPendingStatus state.status = false
  | _ => True

theorem filed_start (forked : Bool) : (start forked).Filed where
  same := fun _ => rfl
  current := by rintro _ _ _ ⟨⟩
  separate := List.Pairwise.nil

theorem Filed.quiet (filed : s.Filed) (quiet : s.Quiet next) : next.Filed where
  same := by
    intro requestId
    rw [quiet.requests, filed.same, alone, alone, quiet.latest, quiet.own]
  current := by
    intro number state active has
    rw [state?, quiet.own] at has
    rw [quiet.latest]
    exact filed.current number state (quiet.active number active) has
  separate := by
    rw [quiet.own]
    exact filed.separate

theorem Filed.change {state : DeferredState} {change : DeferredState → DeferredState} (sound : s.Sound)
    (filed : s.Filed) (has : s.state? number = some state)
    (latest : s.latest state.request.requestId = some number) (requestId : RequestId) :
    ((s.alter state.request.requestId change).note number change).requests requestId =
      ((s.alter state.request.requestId change).note number change).alone requestId := by
  have changed : ((s.alter state.request.requestId change).note number change).alone requestId =
      (s.latest requestId).bind fun other =>
        if number = other then (s.state? other).map change else s.state? other :=
    congrArg (s.latest requestId).bind (funext fun other => state?_note s number other change)
  have own := filed.same requestId
  rw [changed]
  rw [alone_eq] at own
  by_cases named : requestId = state.request.requestId
  · subst named
    rw [latest, Option.bind_some] at own
    rw [latest, Option.bind_some, if_pos rfl, ← own]
    exact Function.update_self ..
  · have other : ∀ last, s.latest requestId = some last → number ≠ last := by
      rintro last stands rfl
      obtain ⟨state', has', same⟩ := sound.filed requestId number stands
      obtain rfl := Option.some.inj (has.symm.trans has')
      exact named same.symm
    refine (Function.update_of_ne named ..).trans (own.trans ?_)
    cases stands : s.latest requestId with
    | none => rfl
    | some last => rw [Option.bind_some, Option.bind_some, if_neg (other last stands)]

def tag (own : Queued) : Bool × RequestId :=
  (own.generated, own.state.request.requestId)

theorem Filed.separate_of_tags (filed : s.Filed) (same : next.own.map tag = s.own.map tag) :
    next.own.Pairwise fun one other => one.generated = true ∨ other.generated = true →
      one.state.request.requestId ≠ other.state.request.requestId := by
  have tags : ∀ own : List Queued,
      (own.Pairwise fun one other => one.generated = true ∨ other.generated = true →
        one.state.request.requestId ≠ other.state.request.requestId) ↔
      (own.map tag).Pairwise fun one other => one.1 = true ∨ other.1 = true → one.2 ≠ other.2 := by
    intro own
    rw [List.pairwise_map]
    exact Iff.rfl
  rw [tags, same, ← tags]
  exact filed.separate

theorem map_tag_note {change : DeferredState → DeferredState}
    (kept : ∀ state, (change state).request = state.request) (number : Nat) :
    (s.note number change).own.map tag = s.own.map tag := by
  refine List.ext_getElem? fun i => ?_
  rw [List.getElem?_map, List.getElem?_map]
  simp only [note, List.getElem?_modify, Option.map_eq_map, Option.map_map]
  congr 1
  funext own
  simp only [Function.comp_apply]
  split
  · simp only [tag, kept]
  · rfl

theorem Filed.note {state : DeferredState} (change : DeferredState → DeferredState) (sound : s.Sound)
    (filed : s.Filed) (has : s.state? number = some state)
    (latest : s.latest state.request.requestId = some number)
    (kept : ∀ state, (change state).request = state.request)
    (requests : next.requests = ((s.alter state.request.requestId change).note number change).requests)
    (own : next.own = (s.note number change).own) (sameLatest : next.latest = s.latest)
    (active : ∀ other, next.Active other → s.Active other) : next.Filed where
  same := by
    intro requestId
    rw [requests, filed.change sound has latest, alone, alone, own, sameLatest]
    rfl
  current := by
    intro other state' active' has'
    have changed : next.state? other =
        if number = other then (s.state? other).map change else s.state? other := by
      rw [state?, own]
      exact state?_note s number other change
    rw [changed] at has'
    rw [sameLatest]
    split at has'
    next =>
      obtain ⟨before, has'', rfl⟩ := Option.map_eq_some_iff.mp has'
      rw [kept]
      exact filed.current other before (active other active') has''
    next => exact filed.current other state' (active other active') has'
  separate := filed.separate_of_tags (by rw [own, map_tag_note kept])

theorem Filed.disconnect (filed : s.Filed) : s.disconnect.Filed where
  same := by
    intro requestId
    have same := filed.same requestId
    rw [alone_eq] at same ⊢
    refine (congrArg (Option.map DeferredState.disconnect) same).trans ?_
    have changed : s.disconnect.state? = fun number => (s.state? number).map DeferredState.disconnect :=
      funext fun number => state?_disconnect s number
    rw [changed]
    exact Option.map_bind ..
  current := by
    intro number state active has
    rw [state?_disconnect] at has
    obtain ⟨before, has', rfl⟩ := Option.map_eq_some_iff.mp has
    rw [disconnect_request]
    exact filed.current number before active has'
  separate := by
    refine filed.separate_of_tags ?_
    simp only [CartographerService.disconnect, List.map_map]
    refine List.map_congr_left fun own _ => ?_
    simp only [Function.comp_apply, tag, disconnect_request]

theorem mem_own {own : Queued} (member : own ∈ s.own) : ∃ number, s.state? number = some own.state := by
  obtain ⟨number, found⟩ := List.mem_iff_getElem?.mp member
  exact ⟨number, by rw [state?, found, Option.map_some]⟩

theorem Filed.used (sound : s.Sound) (filed : s.Filed) {state : DeferredState}
    (has : s.state? number = some state) : ∃ last, s.requests state.request.requestId = some last := by
  obtain ⟨last, latest⟩ := sound.named number state has
  obtain ⟨state', has', -⟩ := sound.filed _ last latest
  exact ⟨state', by rw [filed.same, alone_eq, latest, Option.bind_some, has']⟩

theorem Filed.queue {request : ImportRequest} (sound : s.Sound) (filed : s.Filed)
    (idle : s.caller = .idle) (library : request.libraryPath ≠ []) (header : request.headerPath ≠ [])
    (unmistakable : s.Unmistakable (.importDeferred request)) : (s.queue request).Filed := by
  have clear := unmistakable library header
  have name : (s.queuedRequest request).requestId =
      if request.requestId = [] then generatedId s.nextDeferredRequestId else request.requestId := rfl
  have uncalled : s.caller.call = none := by rw [idle]; rfl
  -- No response that is still to come is about the name.
  have free : ∀ number state, s.Active number → s.state? number = some state →
      state.request.requestId ≠ (s.queuedRequest request).requestId := by
    intro number state active has named
    have pending := sound.pending_of_active uncalled active has
    have stored : s.requests (s.queuedRequest request).requestId = some state := by
      rw [filed.same, alone_eq, ← named, filed.current number state active has, Option.bind_some, has]
    rw [name] at stored
    split at clear
    next made =>
      rw [if_pos made, clear] at stored
      cases stored
    next given =>
      rw [if_neg given] at stored
      rw [clear.2 state stored] at pending
      cases pending
  refine ⟨fun requestId => ?_, fun number state active has => ?_, ?_⟩
  · have changed : (s.queue request).alone requestId =
        (Function.update s.latest (s.queuedRequest request).requestId (some s.own.length) requestId).bind
          fun number => if number = s.own.length then some (.queued (s.queuedRequest request))
            else s.state? number :=
      congrArg (Option.bind _) (funext fun number => state?_queue s request number)
    rw [changed]
    by_cases named : requestId = (s.queuedRequest request).requestId
    · subst named
      rw [Function.update_self, Option.bind_some, if_pos rfl]
      exact Function.update_self ..
    · rw [Function.update_of_ne named]
      refine (Function.update_of_ne named ..).trans ((filed.same requestId).trans ?_)
      rw [alone_eq]
      cases latest : s.latest requestId with
      | none => rfl
      | some last =>
        obtain ⟨state, has, -⟩ := sound.filed requestId last latest
        have below := lt_of_state? has
        rw [Option.bind_some, Option.bind_some, if_neg (by omega)]
  · rw [state?_queue] at has
    split at has
    next new =>
      cases has
      rw [new]
      exact Function.update_self ..
    next old =>
      have active' : s.Active number := by
        obtain member | responses := active
        · refine Or.inl ?_
          have same : (s.queue request).upcoming = s.upcoming ++ [s.own.length] := by
            simp only [upcoming, idle, CartographerService.queue, Caller.call, Option.toList_none,
              List.map_nil, List.append_nil, Option.toList_some, List.map_cons, List.append_assoc]
          rw [same] at member
          obtain member | last := List.mem_append.mp member
          · exact member
          · exact absurd (List.mem_singleton.mp last) old
        · exact Or.inr responses
      exact (Function.update_of_ne (free number state active' has) ..).trans
        (filed.current number state active' has)
  · refine List.pairwise_append.mpr ⟨filed.separate, List.pairwise_singleton _ _, ?_⟩
    rintro one member other last made
    obtain rfl := List.mem_singleton.mp last
    obtain ⟨number, has⟩ := mem_own member
    change one.state.request.requestId ≠ (s.queuedRequest request).requestId
    rw [name]
    split at clear
    next generated =>
      rw [if_pos generated]
      intro named
      obtain ⟨state, stored⟩ := filed.used sound has
      rw [named, clear] at stored
      cases stored
    next given =>
      rw [if_neg given]
      obtain generated | new := made
      · exact clear.1 one member generated
      · exact absurd (of_decide_eq_true new) given

theorem Filed.step {event : DeferredEvent} (sound : s.Sound) (filed : s.Filed)
    (unmistakable : s.Unmistakable event) (taken : s.Step event next) : next.Filed := by
  cases taken with
  | quiet quiet => exact filed.quiet quiet
  | queue idle library header => exact filed.queue sound idle library header unmistakable
  | @recordFailure request called flags failing =>
    obtain ⟨latest, own, has, rfl, -, -⟩ := sound.called request called (by rw [failing]; rfl)
    refine filed.note
      (fun state => state.fail own.request flags.failureStatus (failureError flags.failureStatus))
      sound has latest (fun _ => rfl) rfl rfl rfl ?_
    rintro other (member | responses)
    · refine Or.inl (List.Sublist.subset ?_ member)
      exact List.Sublist.append (List.Sublist.refl _)
        (List.Sublist.append (List.Sublist.refl _) (List.nil_sublist _))
    · exact Or.inr responses
  | @deliver message about rest reading answers =>
    obtain ⟨change, own, has, responded, kept⟩ := sound.response answers
    have latest := filed.current about own
      (Or.inr ⟨message, by rw [answers]; exact List.mem_cons_self⟩) has
    rw [responded]
    refine filed.note change sound has latest (fun state => (kept state).1) rfl rfl rfl ?_
    rintro other (member | ⟨message', member⟩)
    · exact Or.inl member
    · exact Or.inr ⟨message', by rw [answers]; exact List.mem_cons_of_mem _ member⟩
  | disconnect reading gone empty => exact filed.disconnect

end Names

section Attribution

/--
Every request is answered for itself.

What is answered about a name is what would be answered about the request that was queued under it
last, if that had a state for itself; a request whose name was made here shares it with no other
one; and when the worker has gone, none is left pending.
-/
structure Attributed (s : CartographerService) : Prop where
  separate : s.own.Pairwise fun one other => one.generated = true ∨ other.generated = true →
    one.state.request.requestId ≠ other.state.request.requestId
  importStatus : ∀ requestId,
    Cartographer.importStatus s.requests requestId = Cartographer.importStatus s.alone requestId
  collect : ∀ requestId, Cartographer.collect s.requests requestId = Cartographer.collect s.alone requestId
  settled : s.flags.childAvailable = false → s.caller.call = none → ∀ requestId,
    isPendingStatus (Cartographer.importStatus s.requests requestId).result.status = false

/-- The status that is answered about a request moves only forward. -/
def MovesForward (s : CartographerService) (event : DeferredEvent) : Prop :=
  ∀ next, s.step event = some next → ∀ requestId number, s.latest requestId = some number →
    next.latest requestId = some number →
    Forward (Cartographer.importStatus s.requests requestId).result.status
      (Cartographer.importStatus next.requests requestId).result.status

theorem importStatus_status {requests : Requests} {requestId : RequestId} {state : DeferredState}
    (kept : requests requestId = some state) (recorded : state.Recorded) :
    (Cartographer.importStatus requests requestId).result.status = state.status := by
  obtain ⟨request, result, description, written, same⟩ := recorded
  simp only [Cartographer.importStatus, kept, written, Protocol.decodeImportStatus_encodeImportStatus,
    same]

theorem Filed.attributed (sound : s.Sound) (filed : s.Filed) : s.Attributed where
  separate := filed.separate
  importStatus := by
    intro requestId
    rw [funext filed.same]
  collect := by
    intro requestId
    rw [funext filed.same]
  settled := by
    intro gone uncalled requestId
    cases stored : s.requests requestId with
    | none =>
      simp only [Cartographer.importStatus, stored, missingAnswer]
      decide
    | some state =>
      have same := filed.same requestId
      rw [stored, alone_eq] at same
      obtain ⟨number, -, has⟩ := Option.bind_eq_some_iff.mp same.symm
      rw [importStatus_status stored (sound.recorded number state has)]
      by_contra pending
      obtain ⟨request, call⟩ := sound.settled gone number state has (by simpa using pending)
      rw [uncalled] at call
      cases call

theorem Filed.movesForward {event : DeferredEvent} (sound : s.Sound) (filed : s.Filed)
    (unmistakable : s.Unmistakable event) : s.MovesForward event := by
  intro next stepped requestId number before after
  have taken := step_cases sound stepped
  have sound' := sound.step stepped
  have filed' := filed.step sound unmistakable taken
  obtain ⟨state, has, -⟩ := sound.filed requestId number before
  obtain ⟨state', has', forward⟩ := sound.forward taken has
  have stored : s.requests requestId = some state := by
    rw [filed.same, alone_eq, before, Option.bind_some, has]
  have stored' : next.requests requestId = some state' := by
    rw [filed'.same, alone_eq, after, Option.bind_some, has']
  rw [importStatus_status stored (sound.recorded number state has),
    importStatus_status stored' (sound'.recorded number state' has')]
  exact forward

/--
Deferred imports are attributed correctly as long as no name can be mistaken.

In every state each request is answered for itself, and its status moves only forward.
-/
theorem deferred_imports_attributed (forked : Bool) (events : List DeferredEvent)
    (unmistakable : StepsMeet step Unmistakable (start forked) events) :
    Throughout step Attributed (start forked) events ∧
      StepsMeet step MovesForward (start forked) events := by
  have begin_ : (start forked).Sound ∧ (start forked).Filed := ⟨sound_start forked, filed_start forked⟩
  have kept : ∀ (s : CartographerService) (event : DeferredEvent) (next : CartographerService),
      s.Sound ∧ s.Filed → s.Unmistakable event → s.step event = some next →
      (next.Sound ∧ next.Filed) ∧ s.MovesForward event := by
    rintro s event next ⟨sound, filed⟩ unmistakable stepped
    exact ⟨⟨sound.step stepped, filed.step sound unmistakable (step_cases sound stepped)⟩,
      filed.movesForward sound unmistakable⟩
  have through : Throughout step (fun s => s.Sound ∧ s.Filed) (start forked) events :=
    throughout_of_stepsMeet
      (fun s event next both met stepped => (kept s event next both met stepped).1)
      events (start forked) begin_ unmistakable
  exact ⟨Throughout.imp (fun s both => both.2.attributed both.1) events (start forked) through,
    stepsMeet_of_invariant kept events (start forked) begin_ unmistakable⟩

def requestFor (library : String) : ImportRequest :=
  { libraryPath := ascii library, headerPath := ascii "m.h", requestId := ascii "job" }

/-- A request that is queued, handled and answered, before the worker goes. -/
theorem deferred_imports_attributed_once :
    Throughout step Attributed (start true) [.importDeferred (requestFor "m.so"), .readFlags, .write, .receive,
        .finish false (.ok []), .deliver, .deliver, .exit, .disconnect] ∧
      StepsMeet step MovesForward (start true) [.importDeferred (requestFor "m.so"), .readFlags, .write,
        .receive, .finish false (.ok []), .deliver, .deliver, .exit, .disconnect] := by
  refine deferred_imports_attributed true _ ?_
  refine fun _ _ => ⟨fun _ _ => ?_, fun _ _ => ⟨trivial, fun _ _ => ⟨trivial, fun _ _ => ⟨trivial,
    fun _ _ => ⟨trivial, fun _ _ => ⟨trivial, fun _ _ => ⟨trivial, fun _ _ => ⟨trivial,
    fun _ _ => ⟨trivial, trivial⟩⟩⟩⟩⟩⟩⟩⟩⟩
  exact ⟨List.forall_mem_nil _, fun _ => (nomatch ·)⟩

def usedAgain : List DeferredEvent :=
  [.importDeferred (requestFor "old.so"), .readFlags, .write, .receive, .importDeferred (requestFor "new.so"),
    .finish false (.ok []), .deliver, .deliver]

/-- The failure of the first request is reported as that of the second, which is still queued. -/
theorem deferred_imports_attributed_fails :
    ¬ ∀ forked events, Throughout step Attributed (start forked) events := by
  have told : (runFrom step (start true) usedAgain).map (fun s =>
      ((Cartographer.importStatus s.requests (ascii "job")).result.status,
        (Cartographer.importStatus s.alone (ascii "job")).result.status)) =
      some (ascii "import_failed", ascii "queued") := by
    decide +kernel
  intro always
  obtain ⟨s, ran, statuses⟩ := Option.map_eq_some_iff.mp told
  have attributed := Throughout.last usedAgain (start true) s (always true usedAgain) ran
  obtain ⟨given, own⟩ := Prod.mk.inj statuses
  rw [attributed.importStatus, own] at given
  exact absurd given (by decide)

end Attribution

end CartographerService

end AgentC.Cartographer

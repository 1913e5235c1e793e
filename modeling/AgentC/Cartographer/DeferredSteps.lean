import AgentC.Cartographer.DeferredLaws

/-! Every step leaves the requests where they can be told apart, with their responses in order. -/

namespace AgentC.Cartographer

namespace CartographerService

variable {s next : CartographerService} {number other : Nat}

section Calls

theorem Sound.known (sound : s.Sound) (member : number ∈ s.upcoming) :
    ∃ state, s.state? number = some state := by
  simp only [upcoming, List.mem_append, List.mem_map, Option.mem_toList, Prod.exists,
    exists_eq_right] at member
  obtain ⟨request, task⟩ | ⟨message, sent⟩ | ⟨request, call⟩ := member
  · obtain ⟨state, has, -⟩ := sound.handled request number task
    exact ⟨state, has⟩
  · obtain ⟨state, has, -⟩ := sound.sent message number sent
    exact ⟨state, has⟩
  · obtain ⟨-, state, has, -⟩ := sound.called request number call
    exact ⟨state, has⟩

theorem Sound.fresh (sound : s.Sound) : s.own.length ∉ s.upcoming ∧ told s.fromChild s.own.length = [] := by
  constructor
  · intro member
    obtain ⟨state, has⟩ := sound.known member
    exact absurd (lt_of_state? has) (by omega)
  · refine told_eq_nil fun message member => ?_
    obtain ⟨state, -, -, has, -⟩ := sound.answered message _ member
    exact absurd (lt_of_state? has) (by omega)

theorem state?_queue_of_some {request : ImportRequest} {state : DeferredState}
    (has : s.state? number = some state) : (s.queue request).state? number = some state := by
  have below := lt_of_state? has
  rw [state?_queue, if_neg (by omega), has]

theorem Sound.queue (sound : s.Sound) (idle : s.caller = .idle) (request : ImportRequest) :
    (s.queue request).Sound where
  available := sound.available
  started := sound.started
  exited := sound.exited
  ended := sound.ended
  lost := sound.lost
  distinct := by
    have before := sound.distinct
    have new := sound.fresh.1
    have same : (s.queue request).upcoming = s.upcoming ++ [s.own.length] := by
      simp only [upcoming, idle, CartographerService.queue, Caller.call, Option.toList_none, List.map_nil,
        List.append_nil, Option.toList_some, List.map_cons, List.append_assoc]
    rw [same]
    exact List.nodup_append_comm.mpr (List.nodup_cons.mpr ⟨new, before⟩)
  called := by
    rintro _ _ ⟨⟩
    exact ⟨Function.update_self .., _, (state?_queue s request _).trans (if_pos rfl), rfl,
      sound.fresh.2, Or.inl rfl⟩
  read := by rintro _ ⟨⟩
  sent := by
    intro message number member
    obtain ⟨state, has, rest⟩ := sound.sent message number member
    exact ⟨state, state?_queue_of_some has, rest⟩
  handled := by
    intro request' number task
    obtain ⟨state, has, rest⟩ := sound.handled request' number task
    exact ⟨state, state?_queue_of_some has, rest⟩
  answered := by
    intro message number member
    obtain ⟨state, result, description, has, rest⟩ := sound.answered message number member
    exact ⟨state, result, description, state?_queue_of_some has, rest⟩
  chained := by
    intro number state has
    rw [state?_queue] at has
    split at has
    next new =>
      have silent : told (s.queue request).fromChild number = [] := by
        rw [new]
        exact sound.fresh.2
      rw [silent]
      exact List.isChain_singleton _
    next => exact sound.chained number state has
  settled := by
    intro gone number state has pending
    rw [state?_queue] at has
    split at has
    next new => exact ⟨_, by rw [new]; rfl⟩
    next =>
      obtain ⟨request', call⟩ := sound.settled gone number state has pending
      rw [idle] at call
      cases call
  recorded := by
    intro number state has
    rw [state?_queue] at has
    split at has
    next new =>
      cases has
      exact ⟨_, _, none, rfl, rfl⟩
    next => exact sound.recorded number state has
  named := by
    intro number state has
    by_cases same : state.request.requestId = (s.queuedRequest request).requestId
    · exact ⟨s.own.length, by rw [same]; exact Function.update_self ..⟩
    · rw [state?_queue] at has
      split at has
      next new =>
        cases has
        exact absurd rfl same
      next =>
        obtain ⟨last, latest⟩ := sound.named number state has
        exact ⟨last, (Function.update_of_ne same ..).trans latest⟩
  filed := by
    intro requestId number latest
    by_cases named : requestId = (s.queuedRequest request).requestId
    · subst named
      obtain rfl : s.own.length = number := by
        simpa only [CartographerService.queue, Function.update_self, Option.some.injEq] using latest
      exact ⟨_, (state?_queue s request _).trans (if_pos rfl), rfl⟩
    · have before : s.latest requestId = some number := by
        simpa only [CartographerService.queue, Function.update_of_ne named] using latest
      obtain ⟨state, has, same⟩ := sound.filed requestId number before
      exact ⟨state, state?_queue_of_some has, same⟩

theorem Sound.apart (sound : s.Sound) :
    (∀ request number message other, s.caller.call = some (request, number) →
      (message, other) ∈ s.toChild → number ≠ other) ∧
    (∀ request number request' other, s.caller.call = some (request, number) →
      s.worker.task = some (request', other) → number ≠ other) ∧
    ∀ message number request other, (message, number) ∈ s.toChild →
      s.worker.task = some (request, other) → number ≠ other := by
  obtain ⟨-, later, before⟩ := List.nodup_append.mp sound.distinct
  obtain ⟨-, -, between⟩ := List.nodup_append.mp later
  refine ⟨fun request number message other call sent => ?_,
    fun request number request' other call task => ?_, fun message number request other sent task => ?_⟩
  · refine (between other (List.mem_map_of_mem sent) number ?_).symm
    simp only [call, Option.toList_some, List.map_cons, List.map_nil, List.mem_singleton]
  · refine (before other ?_ number (List.mem_append_right _ ?_)).symm
    · simp only [task, Option.toList_some, List.map_cons, List.map_nil, List.mem_singleton]
    · simp only [call, Option.toList_some, List.map_cons, List.map_nil, List.mem_singleton]
  · refine (before other ?_ number (List.mem_append_left _ (List.mem_map_of_mem sent))).symm
    simp only [task, Option.toList_some, List.map_cons, List.map_nil, List.mem_singleton]

theorem isPendingStatus_failureStatus (flags : Flags) : isPendingStatus flags.failureStatus = false := by
  unfold Flags.failureStatus
  split
  · decide
  · decide

theorem state?_recordFailure (s : CartographerService) (request : ImportRequest) (number : Nat)
    (flags : Flags) (other : Nat) :
    (s.recordFailure request number flags).state? other =
      if number = other then (s.state? other).map fun state =>
        state.fail request flags.failureStatus (failureError flags.failureStatus)
      else s.state? other :=
  state?_note s number other fun state =>
    state.fail request flags.failureStatus (failureError flags.failureStatus)

theorem Sound.recordFailure {request : ImportRequest} {flags : Flags} (sound : s.Sound)
    (failing : s.caller = .failing request number flags) :
    (s.recordFailure request number flags).Sound := by
  have call : s.caller.call = some (request, number) := by rw [failing]; rfl
  obtain ⟨-, own, has, -, silent, -⟩ := sound.called request number call
  obtain ⟨notSent, notHandled, -⟩ := sound.apart
  obtain ⟨change, kept, recorded, ended, changed⟩ : ∃ change : DeferredState → DeferredState,
      (∀ state, (change state).request = state.request) ∧
      (∀ state, (change state).Recorded) ∧
      (∀ state, isPendingStatus (change state).status = false) ∧
      ∀ other, (s.recordFailure request number flags).state? other =
        if number = other then (s.state? other).map change else s.state? other :=
    ⟨fun state => state.fail request flags.failureStatus (failureError flags.failureStatus), fun _ => rfl,
      fun _ => ⟨_, _, none, rfl, rfl⟩, fun _ => isPendingStatus_failureStatus flags, state?_recordFailure s request number flags⟩
  have same : ∀ {other state}, number ≠ other → s.state? other = some state →
      (s.recordFailure request number flags).state? other = some state := by
    intro other state different has
    rw [changed, if_neg different, has]
  exact {
    available := sound.available
    started := sound.started
    exited := sound.exited
    ended := sound.ended
    lost := sound.lost
    distinct := by
      refine List.Nodup.sublist ?_ sound.distinct
      exact List.Sublist.append (List.Sublist.refl _)
        (List.Sublist.append (List.Sublist.refl _) (List.nil_sublist _))
    called := by rintro _ _ ⟨⟩
    read := by rintro _ ⟨⟩
    sent := by
      intro message other member
      obtain ⟨state, has, rest⟩ := sound.sent message other member
      exact ⟨state, same (notSent _ _ _ _ call member) has, rest⟩
    handled := by
      intro request' other task
      obtain ⟨state, has, rest⟩ := sound.handled request' other task
      exact ⟨state, same (notHandled _ _ _ _ call task) has, rest⟩
    answered := by
      intro message other member
      obtain ⟨state, result, description, has, written, named⟩ := sound.answered message other member
      by_cases own : number = other
      · refine ⟨change state, result, description, ?_, ?_, ?_⟩
        · rw [changed, if_pos own, has, Option.map_some]
        · rw [kept]
          exact written
        · rw [kept]
          exact named
      · exact ⟨state, result, description, same own has, written, named⟩
    chained := by
      intro other state has
      rw [changed] at has
      split at has
      next own =>
        have silent' : told (s.recordFailure request number flags).fromChild other = [] := own ▸ silent
        rw [silent']
        exact List.isChain_singleton _
      next => exact sound.chained other state has
    settled := by
      intro gone other state has pending
      rw [changed] at has
      split at has
      next own =>
        obtain ⟨before, -, rfl⟩ := Option.map_eq_some_iff.mp has
        rw [ended] at pending
        cases pending
      next own =>
        obtain ⟨request', call'⟩ := sound.settled gone other state has pending
        rw [call, Option.some.injEq, Prod.mk.injEq] at call'
        exact absurd call'.2 own
    recorded := by
      intro other state has
      rw [changed] at has
      split at has
      next own =>
        obtain ⟨before, -, rfl⟩ := Option.map_eq_some_iff.mp has
        exact recorded before
      next => exact sound.recorded other state has
    named := by
      intro other state has
      rw [changed] at has
      split at has
      next own =>
        obtain ⟨before, has', rfl⟩ := Option.map_eq_some_iff.mp has
        rw [kept]
        exact sound.named other before has'
      next => exact sound.named other state has
    filed := by
      intro requestId other latest
      obtain ⟨state, has, named⟩ := sound.filed requestId other latest
      by_cases own : number = other
      · refine ⟨change state, ?_, (congrArg ImportRequest.requestId (kept state)).trans named⟩
        rw [changed, if_pos own, has, Option.map_some]
      · exact ⟨state, same own has, named⟩ }

end Calls

section Transport

variable {message : List UInt8} {request : ImportRequest} {flags : Flags}

theorem Sound.readFlags (sound : s.Sound) (queued : s.caller = .queued request number) :
    { s with caller := .flagged request number s.flags : CartographerService }.Sound := by
  have call : s.caller.call = some (request, number) := by rw [queued]; rfl
  refine { sound with distinct := ?_, called := ?_, read := ?_, settled := ?_ }
  · have distinct := sound.distinct
    rw [upcoming, call] at distinct
    exact distinct
  · rintro _ _ ⟨⟩
    exact sound.called request number call
  · rintro _ ⟨⟩
    rfl
  · intro gone other state has pending
    obtain ⟨request', call'⟩ := sound.settled gone other state has pending
    exact ⟨request', call.symm.trans call' ▸ rfl⟩

theorem Sound.unwritten (sound : s.Sound) (flagged : s.caller = .flagged request number flags) :
    { s with caller := .failing request number flags : CartographerService }.Sound := by
  have call : s.caller.call = some (request, number) := by rw [flagged]; rfl
  have read : s.caller.read = some flags := by rw [flagged]; rfl
  refine { sound with distinct := ?_, called := ?_, read := ?_, settled := ?_ }
  · have distinct := sound.distinct
    rw [upcoming, call] at distinct
    exact distinct
  · rintro _ _ ⟨⟩
    exact sound.called request number call
  · rintro _ ⟨⟩
    exact sound.read flags read
  · intro gone other state has pending
    obtain ⟨request', call'⟩ := sound.settled gone other state has pending
    exact ⟨request', call.symm.trans call' ▸ rfl⟩

theorem Sound.write (sound : s.Sound) (flagged : s.caller = .flagged request number flags)
    (working : s.worker ≠ .gone) :
    { s with caller := .idle, toChild := s.toChild ++ [(Protocol.encodeImportRequest request, number)] :
      CartographerService }.Sound := by
  have call : s.caller.call = some (request, number) := by rw [flagged]; rfl
  -- As long as there is a worker, there is a reader.
  have available : s.flags.childAvailable ≠ false := fun gone => working (sound.ended gone).1
  obtain ⟨-, own, has, same, silent, status⟩ := sound.called request number call
  refine { sound with lost := ?_, distinct := ?_, called := ?_, read := ?_, sent := ?_, settled := ?_ }
  · exact fun gone => absurd gone working
  · have distinct := sound.distinct
    rw [upcoming, call] at distinct
    simpa only [upcoming, Caller.call, Option.toList_none, List.map_nil, List.append_nil, List.map_append,
      List.map_cons, Option.toList_some] using distinct
  · rintro _ _ ⟨⟩
  · rintro _ ⟨⟩
  · intro message other member
    obtain member | last := List.mem_append.mp member
    · exact sound.sent message other member
    · obtain ⟨rfl, rfl⟩ := Prod.mk.inj (List.mem_singleton.mp last)
      refine ⟨own, has, by rw [same], silent, ?_⟩
      obtain queued | ⟨exited, -⟩ := status
      · exact queued
      · exact absurd (sound.exited exited) available
  · exact fun gone => absurd gone available

theorem Sound.terminate (sound : s.Sound) (idle : s.caller = .idle) :
    { s with caller := .joining, flags := { s.flags with toChildOpen := false } :
      CartographerService }.Sound := by
  refine { sound with distinct := ?_, called := ?_, read := ?_, settled := ?_ }
  · have distinct := sound.distinct
    rw [upcoming, idle] at distinct
    exact distinct
  · rintro _ _ ⟨⟩
  · rintro _ ⟨⟩
  · intro gone other state has pending
    obtain ⟨request, call⟩ := sound.settled gone other state has pending
    rw [idle] at call
    cases call

theorem Sound.join (sound : s.Sound) (joining : s.caller = .joining)
    (gone : s.flags.childAvailable = false) :
    { s with caller := .idle, flags := { s.flags with childStarted := false } :
      CartographerService }.Sound := by
  refine { sound with
    available := ?_
    started := ?_
    distinct := ?_
    called := ?_
    read := ?_
    settled := ?_ }
  · exact fun available => absurd (gone.symm.trans available) (by decide)
  · rintro ⟨⟩
  · have distinct := sound.distinct
    rw [upcoming, joining] at distinct
    exact distinct
  · rintro _ _ ⟨⟩
  · rintro _ ⟨⟩
  · intro _ other state has pending
    obtain ⟨request, call⟩ := sound.settled gone other state has pending
    rw [joining] at call
    cases call

end Transport

section Working

theorem Sound.exit (sound : s.Sound) :
    { s with worker := .gone, toChild := [] : CartographerService }.Sound := by
  refine { sound with ended := ?_, lost := ?_, distinct := ?_, sent := ?_, handled := ?_ }
  · exact fun gone => ⟨rfl, (sound.ended gone).2⟩
  · exact fun _ => rfl
  · refine List.Nodup.sublist ?_ sound.distinct
    exact List.Sublist.append (List.nil_sublist _) (List.Sublist.append (List.nil_sublist _) (List.Sublist.refl _))
  · exact fun _ _ => (nomatch ·)
  · rintro _ _ ⟨⟩

theorem told_concat_self (responses : List (List UInt8 × Nat)) (message : List UInt8) (number : Nat) :
    told (responses ++ [(message, number)]) number = told responses number ++ [statusOf message] := by
  rw [told_concat, if_pos rfl]

theorem told_concat_of_ne {message : List UInt8} (responses : List (List UInt8 × Nat))
    (different : number ≠ other) :
    told (responses ++ [(message, number)]) other = told responses other := by
  rw [told_concat, if_neg different]

theorem Sound.receive {message : List UInt8} {rest : List (List UInt8 × Nat)} {state : DeferredState}
    (sound : s.Sound) (waiting : s.worker = .waiting) (sent : s.toChild = (message, number) :: rest)
    (has : s.state? number = some state) :
    { s with toChild := rest, worker := .handling state.request number
             fromChild := s.fromChild ++ [(runningMessage state.request, number)] :
      CartographerService }.Sound := by
  have working : s.worker ≠ .gone := by rw [waiting]; exact Worker.noConfusion
  have available : s.flags.childAvailable ≠ false := fun gone => working (sound.ended gone).1
  have first : (message, number) ∈ s.toChild := by rw [sent]; exact List.mem_cons_self
  obtain ⟨own, same, -, silent, status⟩ := sound.sent message number first
  obtain rfl := Option.some.inj (has.symm.trans same)
  have order : s.upcoming = number :: (rest.map Prod.snd ++ s.caller.call.toList.map Prod.snd) := by
    rw [upcoming, waiting, sent]
    rfl
  have distinct := sound.distinct
  rw [order] at distinct
  obtain ⟨notLater, -⟩ := List.nodup_cons.mp distinct
  have notCalled : ∀ request other, s.caller.call = some (request, other) → number ≠ other :=
    fun request other call => (sound.apart.1 request other message number call first).symm
  have notSent : ∀ message other, (message, other) ∈ rest → number ≠ other := by
    rintro message other member rfl
    exact notLater (List.mem_append_left _ (List.mem_map_of_mem member))
  refine { sound with
    ended := ?_, lost := ?_, distinct := ?_, called := ?_, sent := ?_, handled := ?_, answered := ?_
    chained := ?_ }
  · exact fun gone => absurd gone available
  · rintro ⟨⟩
  · exact distinct
  · intro request other call
    obtain ⟨latest, own, has', same', silent', status'⟩ := sound.called request other call
    exact ⟨latest, own, has', same',
      (told_concat_of_ne s.fromChild (notCalled request other call)).trans silent', status'⟩
  · intro message' other member
    obtain ⟨own, has', written, silent', status'⟩ := sound.sent message' other
      (by rw [sent]; exact List.mem_cons_of_mem _ member)
    exact ⟨own, has', written,
      (told_concat_of_ne s.fromChild (notSent message' other member)).trans silent', status'⟩
  · rintro _ _ ⟨⟩
    refine ⟨state, has, rfl, ?_⟩
    rw [told_concat_self, silent]
    exact statusOf_encodeImportStatus ..
  · intro message' other member
    obtain member | last := List.mem_append.mp member
    · exact sound.answered message' other member
    · obtain ⟨rfl, rfl⟩ := Prod.mk.inj (List.mem_singleton.mp last)
      exact ⟨state, _, none, has, rfl, rfl⟩
  · intro other own has'
    by_cases different : number = other
    · subst different
      obtain rfl := Option.some.inj (has.symm.trans has')
      rw [told_concat_self, silent, status]
      refine (List.isChain_pair).mpr (Or.inl ⟨rfl, ?_⟩)
      exact statusOf_encodeImportStatus ..
    · rw [told_concat_of_ne s.fromChild different]
      exact sound.chained other own has'

theorem workerResult_ended (request : ImportRequest) (loaded : Bool)
    (parsed : Except (List UInt8) ParseDescription) :
    isPendingStatus (workerResult request loaded parsed).1.status = false ∧
      (workerResult request loaded parsed).1.requestId = request.requestId := by
  have failed : isPendingStatus statusImportFailed = false := by decide
  have ready : isPendingStatus statusReady = false := by decide
  unfold workerResult
  split
  · exact ⟨failed, rfl⟩
  split
  · exact ⟨failed, rfl⟩
  split
  · exact ⟨failed, rfl⟩
  split
  · exact ⟨failed, rfl⟩
  · exact ⟨ready, rfl⟩

theorem Sound.finish {request : ImportRequest} (sound : s.Sound) (loaded : Bool)
    (parsed : Except (List UInt8) ParseDescription) (handling : s.worker = .handling request number) :
    { s with worker := .waiting
             fromChild := s.fromChild ++ [(resultMessage request loaded parsed, number)] :
      CartographerService }.Sound := by
  have working : s.worker ≠ .gone := by rw [handling]; exact Worker.noConfusion
  have available : s.flags.childAvailable ≠ false := fun gone => working (sound.ended gone).1
  have task : s.worker.task = some (request, number) := by rw [handling]; rfl
  obtain ⟨ended, named⟩ := workerResult_ended request loaded parsed
  obtain ⟨state, has, same, running⟩ := sound.handled request number task
  obtain ⟨-, notCalled, notSent⟩ := sound.apart
  refine { sound with
    ended := ?_, lost := ?_, distinct := ?_, called := ?_, sent := ?_, handled := ?_, answered := ?_
    chained := ?_ }
  · exact fun gone => absurd gone available
  · rintro ⟨⟩
  · refine List.Nodup.sublist ?_ sound.distinct
    exact List.Sublist.append (List.nil_sublist _) (List.Sublist.refl _)
  · intro request' other call
    obtain ⟨latest, own, has', same', silent', status'⟩ := sound.called request' other call
    exact ⟨latest, own, has', same', (told_concat_of_ne s.fromChild
      (notCalled request' other request number call task).symm).trans silent', status'⟩
  · intro message other member
    obtain ⟨own, has', written, silent', status'⟩ := sound.sent message other member
    exact ⟨own, has', written, (told_concat_of_ne s.fromChild
      (notSent message other request number member task).symm).trans silent', status'⟩
  · rintro _ _ ⟨⟩
  · intro message other member
    obtain member | last := List.mem_append.mp member
    · exact sound.answered message other member
    · obtain ⟨rfl, rfl⟩ := Prod.mk.inj (List.mem_singleton.mp last)
      exact ⟨state, _, _, has, by rw [same]; rfl, by rw [same]; exact named⟩
  · intro other own has'
    by_cases different : number = other
    · subst different
      obtain rfl := Option.some.inj (has.symm.trans has')
      rw [told_concat_self]
      refine isChain_concat.mpr ⟨sound.chained number state has, Or.inr ⟨running, ?_⟩⟩
      rw [resultMessage, statusOf_encodeImportStatus]
      exact ended
    · rw [told_concat_of_ne s.fromChild different]
      exact sound.chained other own has'

end Working

section Reading

theorem respond_eq (s : CartographerService) (number : Nat) {message : List UInt8} {state : DeferredState}
    {result : ImportResult} {description : Option ParseDescription}
    (written : message = Protocol.encodeImportStatus state.request result description) :
    s.respond message number =
      ((s.alter result.requestId fun state => state.respond message
          { result with ok := decide (result.status ∈ ["queued", "running", "ready"].map ascii) }
          (description.getD [])).note number fun state => state.respond message
          { result with ok := decide (result.status ∈ ["queued", "running", "ready"].map ascii) }
          (description.getD [])) := by
  rw [respond, written, Protocol.decodeImportStatus_encodeImportStatus]
  rfl

theorem Sound.response {message : List UInt8} {rest : List (List UInt8 × Nat)} (sound : s.Sound)
    (answers : s.fromChild = (message, number) :: rest) :
    ∃ (change : DeferredState → DeferredState) (state : DeferredState),
      s.state? number = some state ∧
      s.respond message number = (s.alter state.request.requestId change).note number change ∧
      ∀ state, (change state).request = state.request ∧ (change state).Recorded ∧
        (change state).status = statusOf message := by
  have first : (message, number) ∈ s.fromChild := by rw [answers]; exact List.mem_cons_self
  obtain ⟨state, result, description, has, written, named⟩ := sound.answered message number first
  have responded := respond_eq s number written
  have status : statusOf message = result.status := by rw [written, statusOf_encodeImportStatus]
  rw [named] at responded
  exact ⟨_, state, has, responded, fun state => ⟨rfl, ⟨_, _, _, written, rfl⟩, status.symm⟩⟩

theorem Sound.deliver {message : List UInt8} {rest : List (List UInt8 × Nat)} (sound : s.Sound)
    (reading : s.flags.childAvailable = true) (answers : s.fromChild = (message, number) :: rest) :
    { s.respond message number with fromChild := rest }.Sound := by
  obtain ⟨change, state, has, responded, kept⟩ := sound.response answers
  rw [responded]
  have changed : ∀ other, { (s.alter state.request.requestId change).note number change with
      fromChild := rest }.state? other =
        if number = other then (s.state? other).map change else s.state? other :=
    fun other => state?_note s number other change
  have before : ∀ other, told s.fromChild other =
      if number = other then statusOf message :: told rest other else told rest other := by
    intro other
    rw [answers, told_cons]
  -- Nothing is told of a request that is not handled yet.
  have answered : ∀ other, told s.fromChild other = [] → number ≠ other := by
    rintro _ silent rfl
    rw [before, if_pos rfl] at silent
    cases silent
  have silent : ∀ other, told s.fromChild other = [] → told rest other = [] := by
    intro other silent
    have different := answered other silent
    rwa [before, if_neg different] at silent
  have same : ∀ {other own}, number ≠ other → s.state? other = some own →
      { (s.alter state.request.requestId change).note number change with
        fromChild := rest }.state? other = some own := by
    intro other own different has
    rw [changed, if_neg different, has]
  exact {
    available := sound.available
    started := sound.started
    exited := sound.exited
    ended := fun gone => absurd (gone.symm.trans reading) (by decide)
    lost := sound.lost
    distinct := sound.distinct
    called := by
      intro request other call
      obtain ⟨latest, own, has, called, quiet, status⟩ := sound.called request other call
      exact ⟨latest, own, same (answered other quiet) has, called, silent other quiet, status⟩
    read := sound.read
    sent := by
      intro message' other member
      obtain ⟨own, has, written, quiet, status⟩ := sound.sent message' other member
      exact ⟨own, same (answered other quiet) has, written, silent other quiet, status⟩
    handled := by
      intro request other task
      obtain ⟨own, has', handled, running⟩ := sound.handled request other task
      rw [before] at running
      split at running
      next about =>
        refine ⟨change own, ?_, (kept own).1.trans handled, ?_⟩
        · rw [changed, if_pos about, has', Option.map_some]
        · rw [(kept own).2.2]
          rwa [List.getLast?_cons, Option.getD_some] at running
      next different => exact ⟨own, same different has', handled, running⟩
    answered := by
      intro message' other member
      obtain ⟨own, result, description, has', written, named⟩ := sound.answered message' other
        (by rw [answers]; exact List.mem_cons_of_mem _ member)
      by_cases about : number = other
      · refine ⟨change own, result, description, ?_, by rw [(kept own).1]; exact written,
          by rw [(kept own).1]; exact named⟩
        rw [changed, if_pos about, has', Option.map_some]
      · exact ⟨own, result, description, same about has', written, named⟩
    chained := by
      intro other own has'
      rw [changed] at has'
      split at has'
      next about =>
        obtain ⟨old, has'', rfl⟩ := Option.map_eq_some_iff.mp has'
        have chain := sound.chained other old has''
        rw [before, if_pos about] at chain
        rw [(kept old).2.2]
        exact (List.isChain_cons.mp chain).2
      next different =>
        have chain := sound.chained other own has'
        rwa [before, if_neg different] at chain
    settled := fun gone => absurd (gone.symm.trans reading) (by decide)
    recorded := by
      intro other own has'
      rw [changed] at has'
      split at has'
      next about =>
        obtain ⟨old, -, rfl⟩ := Option.map_eq_some_iff.mp has'
        exact (kept old).2.1
      next => exact sound.recorded other own has'
    named := by
      intro other own has'
      rw [changed] at has'
      split at has'
      next about =>
        obtain ⟨old, has'', rfl⟩ := Option.map_eq_some_iff.mp has'
        rw [(kept old).1]
        exact sound.named other old has''
      next => exact sound.named other own has'
    filed := by
      intro requestId other latest
      obtain ⟨own, has', named⟩ := sound.filed requestId other latest
      by_cases about : number = other
      · refine ⟨change own, ?_, (congrArg ImportRequest.requestId (kept own).1).trans named⟩
        rw [changed, if_pos about, has', Option.map_some]
      · exact ⟨own, same about has', named⟩ }

theorem disconnect_request (state : DeferredState) : state.disconnect.request = state.request := by
  unfold DeferredState.disconnect
  split <;> rfl

theorem disconnect_status (state : DeferredState) :
    state.disconnect = state ∧ isPendingStatus state.status = false ∨
    isPendingStatus state.status = true ∧ state.disconnect.status = statusTransportFailed := by
  unfold DeferredState.disconnect
  cases pending : isPendingStatus state.status with
  | false =>
    rw [if_pos (by simp only [Bool.not_false, Bool.or_true])]
    exact Or.inl ⟨rfl, rfl⟩
  | true =>
    have notReady : isReadyStatus state.status = false := by
      obtain queued | running := isPendingStatus_iff.mp pending
      · rw [queued]
        decide
      · rw [running]
        decide
    rw [notReady, if_neg (by decide)]
    exact Or.inr ⟨rfl, rfl⟩

theorem disconnect_recorded {state : DeferredState} (recorded : state.Recorded) :
    state.disconnect.Recorded := by
  unfold DeferredState.disconnect
  split
  · exact recorded
  · exact ⟨_, _, none, rfl, rfl⟩

theorem Sound.disconnect (sound : s.Sound) (reading : s.flags.childAvailable = true)
    (gone : s.worker = .gone) (empty : s.fromChild = []) : s.disconnect.Sound := by
  have unsent := sound.lost gone
  have silent : ∀ other, told s.fromChild other = [] := by
    intro other
    rw [empty]
    rfl
  exact {
    available := fun reading => (nomatch reading)
    started := fun _ => Or.inr rfl
    exited := fun _ => rfl
    ended := fun _ => ⟨gone, empty⟩
    lost := sound.lost
    distinct := sound.distinct
    called := by
      intro request other call
      obtain ⟨latest, own, has, called, quiet, status⟩ := sound.called request other call
      refine ⟨latest, own.disconnect, ?_, (disconnect_request own).trans called, quiet, ?_⟩
      · rw [state?_disconnect, has, Option.map_some]
      · obtain ⟨same, ended⟩ | ⟨-, failed⟩ := disconnect_status own
        · obtain queued | ⟨-, failed⟩ := status
          · rw [queued] at ended
            cases ended
          · exact Or.inr ⟨rfl, by rw [same, failed]⟩
        · exact Or.inr ⟨rfl, failed⟩
    read := by
      intro flags read
      have begun : s.flags.begun = true := by rw [Flags.begun, sound.available reading, Bool.or_true]
      rw [sound.read flags read, begun]
      rfl
    sent := by
      intro message other member
      have none_ : s.disconnect.toChild = [] := unsent
      rw [none_] at member
      cases member
    handled := by
      intro request other task
      have none_ : s.disconnect.worker = .gone := gone
      rw [none_] at task
      cases task
    answered := by
      intro message other member
      have none_ : s.disconnect.fromChild = [] := empty
      rw [none_] at member
      cases member
    chained := by
      intro other state _
      have quiet : told s.disconnect.fromChild other = [] := silent other
      rw [quiet]
      exact List.isChain_singleton _
    settled := by
      intro _ other state has pending
      rw [state?_disconnect] at has
      obtain ⟨own, -, rfl⟩ := Option.map_eq_some_iff.mp has
      obtain ⟨same, ended⟩ | ⟨-, failed⟩ := disconnect_status own
      · rw [same, ended] at pending
        cases pending
      · rw [failed] at pending
        cases pending
    recorded := by
      intro other state has
      rw [state?_disconnect] at has
      obtain ⟨own, has', rfl⟩ := Option.map_eq_some_iff.mp has
      exact disconnect_recorded (sound.recorded other own has')
    named := by
      intro other state has
      rw [state?_disconnect] at has
      obtain ⟨own, has', rfl⟩ := Option.map_eq_some_iff.mp has
      rw [disconnect_request]
      exact sound.named other own has'
    filed := by
      intro requestId other latest
      obtain ⟨own, has, named⟩ := sound.filed requestId other latest
      refine ⟨own.disconnect, ?_, by rw [disconnect_request, named]⟩
      rw [state?_disconnect, has, Option.map_some] }

end Reading

section Steps

theorem Sound.step {event : DeferredEvent} (sound : s.Sound) (stepped : s.step event = some next) :
    next.Sound := by
  cases event with
  | importDeferred request =>
    cases caller : s.caller with
    | idle =>
      simp only [CartographerService.step, caller] at stepped
      split at stepped
      · exact Option.some.inj stepped ▸ sound
      · exact Option.some.inj stepped ▸ sound.queue caller request
    | queued | flagged | failing | joining => simp only [CartographerService.step, caller, reduceCtorEq] at stepped
  | readFlags =>
    cases caller : s.caller with
    | queued request number =>
      simp only [CartographerService.step, caller, Option.some.injEq] at stepped
      exact stepped ▸ sound.readFlags caller
    | idle | flagged | failing | joining => simp only [CartographerService.step, caller, reduceCtorEq] at stepped
  | write =>
    cases caller : s.caller with
    | flagged request number flags =>
      simp only [CartographerService.step, caller] at stepped
      split at stepped
      · split at stepped
        next gone => exact Option.some.inj stepped ▸ sound.unwritten caller
        next waiting =>
          exact Option.some.inj stepped ▸ sound.write caller (by rw [waiting]; exact Worker.noConfusion)
        next handling =>
          exact Option.some.inj stepped ▸ sound.write caller (by rw [handling]; exact Worker.noConfusion)
      · exact Option.some.inj stepped ▸ sound.unwritten caller
    | idle | queued | failing | joining => simp only [CartographerService.step, caller, reduceCtorEq] at stepped
  | recordFailure =>
    cases caller : s.caller with
    | failing request number flags =>
      simp only [CartographerService.step, caller, Option.some.injEq] at stepped
      exact stepped ▸ sound.recordFailure caller
    | idle | queued | flagged | joining => simp only [CartographerService.step, caller, reduceCtorEq] at stepped
  | terminateSubprocess =>
    cases caller : s.caller with
    | idle =>
      simp only [CartographerService.step, caller, Option.some.injEq] at stepped
      exact stepped ▸ sound.terminate caller
    | queued | flagged | failing | joining => simp only [CartographerService.step, caller, reduceCtorEq] at stepped
  | join =>
    cases caller : s.caller with
    | joining =>
      simp only [CartographerService.step, caller] at stepped
      split at stepped
      · cases stepped
      next gone => exact Option.some.inj stepped ▸ sound.join caller (Bool.eq_false_iff.mpr gone)
    | idle | queued | flagged | failing => simp only [CartographerService.step, caller, reduceCtorEq] at stepped
  | receive =>
    simp only [CartographerService.step] at stepped
    split at stepped
    next message number rest waiting sent =>
      obtain ⟨state, has, written, -⟩ := sound.sent message number (by rw [sent]; exact List.mem_cons_self)
      rw [written, Protocol.decodeImportRequest_encodeImportRequest] at stepped
      exact Option.some.inj stepped ▸ sound.receive waiting sent has
    next => cases stepped
  | finish loaded parsed =>
    cases worker : s.worker with
    | handling request number =>
      simp only [CartographerService.step, worker, Option.some.injEq] at stepped
      exact stepped ▸ sound.finish loaded parsed worker
    | waiting | gone => simp only [CartographerService.step, worker, reduceCtorEq] at stepped
  | exit =>
    simp only [CartographerService.step] at stepped
    split at stepped
    · cases stepped
    · exact Option.some.inj stepped ▸ sound.exit
  | deliver =>
    simp only [CartographerService.step] at stepped
    split at stepped
    next message number rest reading answers =>
      exact Option.some.inj stepped ▸ sound.deliver reading answers
    next => cases stepped
  | disconnect =>
    simp only [CartographerService.step] at stepped
    split at stepped
    next reading gone empty => exact Option.some.inj stepped ▸ sound.disconnect reading gone empty
    next => cases stepped

end Steps

end CartographerService

end AgentC.Cartographer

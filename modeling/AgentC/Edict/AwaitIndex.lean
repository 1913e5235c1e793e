import AgentC.Edict.AwaitRestored
import AgentC.Edict.AwaitRounds

/-! In which runs the await index lists exactly the parked continuations. -/

namespace AgentC.Edict

open Root1 (ParticipantId)
open Root1AwaitScheduler (Listed Lists nothingTaken)

def PollPhase.taken : PollPhase → ParticipantId → List Root1ContinuationHandle
  | .delivering _ q handles _ => Function.update nothingTaken q handles
  | .resuming _ q handle handles _ => Function.update nothingTaken q (handle :: handles)
  | _ => nothingTaken

namespace AwaitWorld

/-- `parks` has the handles of the table, and so it was for everything that was saved. -/
structure Sound (w : AwaitWorld) : Prop where
  listed : w.scheduler.Listed w.parks
  saved : ∀ n ∈ w.saves, n.scheduler.Listed n.parks ∧ n.order.Perm n.parks

end AwaitWorld

namespace Root1AwaitScheduler

variable {s : Root1AwaitScheduler} {p : ParticipantId} {h : Root1ContinuationHandle}

theorem isParked_of_parkedFor (parked : s.parkedFor p h = true) : s.isParked h = true := by
  obtain ⟨c, entry, state, -⟩ := entry_of_parkedFor parked
  simp [isParked, entry, state]

theorem ownedBy_of_parked (parked : s.isParked h = true) : s.ownedBy p h = s.parkedFor p h := by
  cases entry : s.continuations h with
  | none => simp [ownedBy, parkedFor, entry]
  | some c =>
    have state : c.state = .parked := by simpa [isParked, entry] using parked
    simp [ownedBy, parkedFor, entry, state]

theorem ownedBy_of_parkedFor (parked : s.parkedFor p h = true) : s.ownedBy p h = true :=
  (ownedBy_of_parked (isParked_of_parkedFor parked)).trans parked

theorem parkedFor_restored {t : Root1AwaitScheduler}
    (table : ∀ h, t.continuations h = (s.continuations h).map (·.restored)) :
    t.parkedFor p h = s.parkedFor p h := by
  simp only [parkedFor, table h]
  cases s.continuations h <;> rfl

end Root1AwaitScheduler

namespace Snapshot

end Snapshot

namespace AwaitWorld

variable {w next : AwaitWorld}

/-- Whatever `deliver` or the return of a callback stores goes under the handle it is about. -/
theorem told_valid {c : ParkedContinuation} {h : Root1ContinuationHandle} (sound : w.Sound)
    (entry : w.scheduler.continuations h = some c) {new : ParkedContinuation}
    (handle : new.handle = c.handle) (valid : new.state ≠ .invalid) :
    (w.scheduler.store h new).Listed w.parks :=
  sound.listed.store entry (handle.trans (sound.listed.named h c entry).1) valid

section Poll

theorem Sound.advance (sound : w.Sound) (stepped : w.advance = some next) : next.Sound := by
  have settled (timeoutMs : Int) (order : List Root1ContinuationHandle)
      (ready : List ParticipantId) : (w.settle timeoutMs order ready).Sound := by
    unfold settle
    dsimp only
    split
    · exact ⟨sound.listed.timeOut _, sound.saved⟩
    · exact ⟨sound.listed, sound.saved⟩
  unfold AwaitWorld.advance at stepped
  split at stepped
  · cases stepped
  · cases stepped
  · split at stepped
    · cases stepped
      exact settled _ _ _
    · cases stepped
      exact ⟨sound.listed, sound.saved⟩
  · cases stepped
    exact settled _ _ _
  · cases stepped
    exact ⟨sound.listed, sound.saved⟩
  · cases stepped
    exact ⟨sound.listed, sound.saved⟩
  · cases stepped
    unfold serve
    dsimp only
    split
    · exact ⟨sound.listed, sound.saved⟩
    · split
      · exact ⟨sound.listed, sound.saved⟩
      · exact ⟨sound.listed.reindexed _, sound.saved⟩
  · cases stepped
    exact ⟨sound.listed, sound.saved⟩
  · cases stepped
    unfold deliver
    split
    · exact ⟨sound.listed, sound.saved⟩
    · next c entry =>
      -- What is delivered is stored under the handle it is about.
      dsimp only
      split
      · exact ⟨sound.listed, sound.saved⟩
      · split
        · have valid := (sound.listed.named _ c entry).2
          exact ⟨w.told_valid sound entry rfl valid, sound.saved⟩
        · exact ⟨w.told_valid sound entry rfl nofun, sound.saved⟩

theorem Sound.returns (sound : w.Sound) {code : Int32} (stepped : w.returns code = some next) :
    next.Sound := by
  unfold AwaitWorld.returns at stepped
  split at stepped
  · dsimp only at stepped
    split at stepped
    · next c entry =>
      cases stepped
      exact ⟨w.told_valid sound entry rfl nofun, sound.saved⟩
    · cases stepped
      exact ⟨sound.listed, sound.saved⟩
  · cases stepped

end Poll

section Steps

theorem counted (sound : w.Sound) (next : UInt64) :
    { w.scheduler with nextId := next }.Listed w.parks :=
  ⟨sound.listed.keys, sound.listed.distinct, sound.listed.handles, sound.listed.named⟩

theorem Sound.park (sound : w.Sound) (participant : ParticipantId) (resume : Bool) :
    (w.park participant resume).Sound := by
  unfold AwaitWorld.park Root1AwaitScheduler.park
  by_cases zero : participant = 0
  · simp only [zero, if_true, ne_eq, not_true_eq_false, false_and, if_false]
    exact ⟨sound.listed, sound.saved⟩
  · simp only [zero, if_false, ne_eq, not_false_eq_true, true_and]
    cases free : w.scheduler.continuations w.scheduler.nextId with
    | none =>
      rw [if_pos (Option.isNone_none)]
      exact ⟨(w.counted sound _).add free nofun, sound.saved⟩
    | some c =>
      have held : (w.scheduler.continuations w.scheduler.nextId).isSome = true := by rw [free]; rfl
      rw [if_neg (by simp)]
      exact ⟨(w.counted sound _).add_taken held, sound.saved⟩

theorem Sound.step {event : AwaitEvent} (sound : w.Sound) (stepped : w.step event = some next) :
    next.Sound := by
  cases event with
  | access item =>
    simp only [AwaitWorld.step, Option.ite_none_right_eq_some] at stepped
    obtain ⟨-, ⟨rfl⟩⟩ := stepped
    exact ⟨sound.listed, sound.saved⟩
  | park participant resume =>
    simp only [AwaitWorld.step, Option.ite_none_right_eq_some] at stepped
    obtain ⟨-, ⟨rfl⟩⟩ := stepped
    exact sound.park participant resume
  | cancel handle =>
    simp only [AwaitWorld.step, Option.ite_none_right_eq_some] at stepped
    obtain ⟨-, ⟨rfl⟩⟩ := stepped
    exact ⟨sound.listed.markTerminal handle nofun, sound.saved⟩
  | drop handle =>
    simp only [AwaitWorld.step, Option.ite_none_right_eq_some] at stepped
    obtain ⟨-, ⟨rfl⟩⟩ := stepped
    exact ⟨sound.listed.drop handle, sound.saved⟩
  | poll timeoutMs events keys order =>
    simp only [AwaitWorld.step, Option.ite_none_right_eq_some] at stepped
    obtain ⟨-, ⟨rfl⟩⟩ := stepped
    exact ⟨sound.listed, sound.saved⟩
  | advance => exact sound.advance stepped
  | returns code => exact sound.returns stepped
  | save order =>
    simp only [AwaitWorld.step, Option.ite_none_right_eq_some] at stepped
    obtain ⟨⟨-, visited⟩, ⟨rfl⟩⟩ := stepped
    refine ⟨sound.listed, fun n member => ?_⟩
    rcases List.mem_append.mp member with old | new
    · exact sound.saved n old
    · rw [List.mem_singleton.mp new]
      exact ⟨sound.listed, visited.trans sound.listed.handles⟩
  | load index =>
    simp only [AwaitWorld.step] at stepped
    cases found : w.saves[index]? with
    | none => rw [found] at stepped; cases stepped
    | some n =>
      rw [found] at stepped
      simp only [Option.ite_none_right_eq_some] at stepped
      obtain ⟨-, ⟨rfl⟩⟩ := stepped
      obtain ⟨listed, visited⟩ := sound.saved n (List.mem_of_getElem? found)
      exact ⟨(Root1AwaitScheduler.loaded listed visited w.scheduler).1, sound.saved⟩

theorem taken_of_idle {phase : PollPhase} (idle : phase.isIdle = true) :
    phase.taken = nothingTaken := by
  cases phase with
  | idle => rfl
  | waited | taking | serving | delivering | resuming => cases idle

end Steps

theorem initial_sound : Sound {} where
  listed := ⟨fun h => by simp, List.nodup_nil, List.Perm.nil, nofun⟩
  saved := nofun

end AwaitWorld

end AgentC.Edict

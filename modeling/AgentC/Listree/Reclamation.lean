import Mathlib.Tactic.IntervalCases
import AgentC.Alloc.Ownership

/-! The handles of values while values are built and dropped again, and the slots that stay valid. -/

namespace AgentC

universe u

/-- The handles of values, the program's own and those in the nodes that values are stored in. -/
structure ValueHandles (T : Type u) where
  ptrs : CPtrs T
  /-- References that an allocation made and that no handle stands for, each numbered like a handle. -/
  raw : List Nat := []

inductive ValueCall (T : Type u) where
  /-- Any of `createNullValue`, `createListValue`, `createStringValue` and `createBinaryValue`. -/
  | create (create : Nat → Bool) (item : T)
  | put (value : Nat)
  | addNamedItem (value : Nat)
  /-- Copying, moving, assigning or destroying a handle, as `get` and the ends of nodes do. -/
  | handle (call : CPtrCall T)

namespace CPtrCall

variable {T : Type u}

/-- The handles that an operation names. -/
def named : CPtrCall T → List Nat
  | .make _ _ => []
  | .copyConstruct other => [other]
  | .moveConstruct other => [other]
  | .copyAssign target other => [target, other]
  | .moveAssign target other => [target, other]
  | .readopt other => [other]
  | .destroy target => [target]

def makes : CPtrCall T → Bool
  | .make _ _ => true
  | _ => false

end CPtrCall

namespace ValueHandles

variable {T : Type u} [Inhabited T]

def store (next value : Nat) : Nat → List (CPtrCall T)
  | 0 => [.copyConstruct value]
  | params + 1 => .copyConstruct value :: (store (next + 1) next params ++ [.destroy next])

/-- The parameter of `put`, and that of the reference's constructor. -/
def put (next value : Nat) : List (CPtrCall T) :=
  store next value 2

/-- The parameters of `addNamedItem` and `addItemValue`, and that of the reference's constructor. -/
def addNamedItem (next value : Nat) : List (CPtrCall T) :=
  store next value 3

/-- Operations one after the other, none of which names a reference that no handle stands for. -/
def perform (s : ValueHandles T) (calls : List (CPtrCall T)) : Option (ValueHandles T) :=
  if ∀ call ∈ calls, call.makes = false ∧ ∀ k ∈ call.named, k ∉ s.raw then
    (runFrom CPtrs.step s.ptrs calls).map fun ptrs => { s with ptrs := ptrs }
  else none

def step (s : ValueHandles T) : ValueCall T → Option (ValueHandles T)
  | .create create item =>
    match s.ptrs.arena.allocate create item with
    | (.ok si, arena) =>
      -- The handle takes a reference of its own, and the one of the allocation stays.
      let allocated := ({ s.ptrs with arena := arena } : CPtrs T).push si
      (allocated.step (.copyConstruct s.ptrs.next)).map fun ptrs =>
        { ptrs := ptrs, raw := s.ptrs.next :: s.raw }
    | (.error _, arena) => some { s with ptrs := { s.ptrs with arena := arena } }
  | .put value => s.perform (put s.ptrs.next value)
  | .addNamedItem value => s.perform (addNamedItem s.ptrs.next value)
  | .handle call => s.perform [call]

def initial : ValueHandles T :=
  { ptrs := CPtrs.initial }

/--
Values are built and all handles made for it are dropped again.

No more handles are made than a reference count can count.
-/
structure Builds (s : ValueHandles T) (calls : List (ValueCall T)) (t : ValueHandles T) : Prop where
  history : ∃ calls, runFrom step initial calls = some s
  ran : runFrom step s calls = some t
  built : t.raw ≠ s.raw
  dropped : ∀ k < t.ptrs.next,
    k ∈ t.raw ∨ t.ptrs.slabId k = some {} ∨ t.ptrs.slabId k = s.ptrs.slabId k
  room : t.ptrs.next + 1 < 2 ^ 64

def Reclaims (s t : ValueHandles T) : Prop :=
  ∀ si, t.ptrs.arena.valid si = s.ptrs.arena.valid si

end ValueHandles

namespace CPtrs

variable {T : Type u} [Inhabited T] {w w' : CPtrs T} {call : CPtrCall T}

omit [Inhabited T] in
theorem push_slabId (w : CPtrs T) (si : SlabId) (k : Nat) :
    (w.push si).slabId k = if k = w.next then some si else w.slabId k := rfl

omit [Inhabited T] in
theorem set_slabId (w : CPtrs T) (index : Nat) (held : Option SlabId) (k : Nat) :
    (w.set index held).slabId k = if k = index then held else w.slabId k := rfl

omit [Inhabited T] in
theorem fromSlabId_fst (arena : Allocator T) (other : SlabId) :
    (CPtr.fromSlabId arena other).1 = other ∨ (CPtr.fromSlabId arena other).1 = ⟨0, 0⟩ := by
  unfold CPtr.fromSlabId
  split
  · exact Or.inl rfl
  · exact Or.inr rfl

/-- What an operation that makes nothing does to the handles. -/
structure Rearranges (w : CPtrs T) (call : CPtrCall T) (w' : CPtrs T) : Prop where
  next : w.next ≤ w'.next
  kept : ∀ k < w.next, k ∉ call.named → w'.slabId k = w.slabId k
  held : ∀ k si, w'.slabId k = some si → si ≠ ⟨0, 0⟩ → ∃ j, w.slabId j = some si

/-- Handles come to hold only what other handles hold. -/
theorem step_rearranges (makes : call.makes = false) (stepped : w.step call = some w') :
    Rearranges w call w' := by
  have moved {other : Nat} {source : SlabId} (holds : w.slabId other = some source) :
      Rearranges w (.moveConstruct other) ((w.set other (some {})).push source) := by
    refine ⟨Nat.le_succ _, fun k below unnamed => ?_, fun k si held set => ?_⟩
    · have old : k ≠ (w.set other (some {})).next := Nat.ne_of_lt below
      rw [push_slabId, if_neg old, set_slabId,
        if_neg fun same => unnamed (List.mem_singleton.mpr same)]
    · rw [push_slabId] at held
      split at held
      · exact ⟨other, holds.trans held⟩
      · rw [set_slabId] at held
        split at held
        · exact absurd (Option.some.inj held).symm set
        · exact ⟨k, held⟩
  cases call with
  | make create item => cases makes
  | copyConstruct other =>
    obtain ⟨source, holds, rfl⟩ := Option.map_eq_some_iff.mp stepped
    refine ⟨Nat.le_succ _, fun k below _ => ?_, fun k si held set => ?_⟩
    · exact if_neg (Nat.ne_of_lt below)
    · rw [push_slabId] at held
      split at held
      · rcases fromSlabId_fst w.arena source with same | null
        · exact ⟨other, holds.trans (same ▸ held)⟩
        · exact absurd ((Option.some.inj held).symm.trans null) set
      · exact ⟨k, held⟩
  | moveConstruct other =>
    obtain ⟨source, holds, rfl⟩ := Option.map_eq_some_iff.mp stepped
    exact moved holds
  | readopt other =>
    obtain ⟨source, holds, rfl⟩ := Option.map_eq_some_iff.mp stepped
    exact ⟨(moved holds).next, (moved holds).kept, (moved holds).held⟩
  | destroy target =>
    obtain ⟨source, holds, rfl⟩ := Option.map_eq_some_iff.mp stepped
    refine ⟨Nat.le_refl _, fun k below unnamed => ?_, fun k si held set => ?_⟩
    · exact if_neg fun same => unnamed (List.mem_singleton.mpr same)
    · rw [set_slabId] at held
      split at held
      · cases held
      · exact ⟨k, held⟩
  | copyAssign target other =>
    cases left : w.slabId target with
    | none => simp [step, left] at stepped
    | some old =>
      cases right : w.slabId other with
      | none => simp [step, left, right] at stepped
      | some source =>
        by_cases same : target = other
        · simp only [step, right, same, if_true, Option.some.injEq] at stepped
          subst stepped
          exact ⟨Nat.le_refl _, fun _ _ _ => rfl, fun k si held _ => ⟨k, held⟩⟩
        · simp only [step, left, right, same, if_false, Option.some.injEq] at stepped
          subst stepped
          refine ⟨Nat.le_refl _, fun k _ unnamed => ?_, fun k si held set => ?_⟩
          · exact if_neg fun (here : k = target) => unnamed (here ▸ List.mem_cons_self)
          · rw [set_slabId] at held
            split at held
            · rcases fromSlabId_fst
                (if w.arena.valid old then w.arena.modrefs old (-1) else w.arena) source with
                same | null
              · exact ⟨other, right.trans (same ▸ held)⟩
              · exact absurd ((Option.some.inj held).symm.trans null) set
            · exact ⟨k, held⟩
  | moveAssign target other =>
    cases left : w.slabId target with
    | none => simp [step, left] at stepped
    | some old =>
      cases right : w.slabId other with
      | none => simp [step, left, right] at stepped
      | some source =>
        by_cases same : target = other
        · simp only [step, right, same, if_true, Option.some.injEq] at stepped
          subst stepped
          exact ⟨Nat.le_refl _, fun _ _ _ => rfl, fun k si held _ => ⟨k, held⟩⟩
        · simp only [step, left, right, same, if_false, Option.some.injEq] at stepped
          subst stepped
          refine ⟨Nat.le_refl _, fun k _ unnamed => ?_, fun k si held set => ?_⟩
          · rw [set_slabId, if_neg fun (here : k = other) => unnamed
              (here ▸ List.mem_cons_of_mem _ List.mem_cons_self), set_slabId,
              if_neg fun (here : k = target) => unnamed (here ▸ List.mem_cons_self)]
          · rw [set_slabId] at held
            split at held
            · exact absurd (Option.some.inj held).symm set
            · rw [set_slabId] at held
              split at held
              · exact ⟨other, right.trans held⟩
              · exact ⟨k, held⟩

/-- Each slot that a handle holds is also held by a reference that no handle stands for. -/
structure Leaky (w : CPtrs T) (raw : List Nat) : Prop where
  owned : w.Owned
  set : ∀ r ∈ raw, ∃ si, si ≠ ⟨0, 0⟩ ∧ w.slabId r = some si
  every : ∀ k si, w.slabId k = some si → si ≠ ⟨0, 0⟩ → ∃ r ∈ raw, w.slabId r = some si

variable {raw : List Nat}

omit [Inhabited T] in
theorem Owned.room (owned : w.Owned) (few : w.next + 1 < 2 ^ 64) (si : SlabId) :
    Room w.arena si := by
  intro valid
  have counted := owned.counted si (Allocator.valid_iff.mp valid).1
  have most : w.holders si ≤ w.next := Nat.count_le _
  omega

omit [Inhabited T] in
theorem Leaky.held (leaky : Leaky w raw) {si : SlabId} (valid : w.arena.valid si = true) :
    ∃ r ∈ raw, w.slabId r = some si := by
  obtain ⟨set, holds⟩ := Allocator.valid_iff.mp valid
  have counted := leaky.owned.counted si set
  by_contra none
  have unheld : w.holders si = 0 := Nat.count_iff_forall_not.mpr fun k _ held =>
    none (leaky.every k si held set)
  rw [unheld] at counted
  exact holds (UInt64.toNat_inj.mp counted)

omit [Inhabited T] in
theorem Leaky.sound (leaky : Leaky w raw) (few : w.next + 1 < 2 ^ 64)
    (unnamed : ∀ k ∈ call.named, k ∉ raw) : w.Sound call := by
  cases call with
  | copyConstruct other => exact fun source _ => leaky.owned.room few source
  | copyAssign target other =>
    refine fun old source left _ _ => ⟨fun set last => ?_, fun _ => leaky.owned.room few source⟩
    obtain ⟨r, member, held⟩ := leaky.every target old left set
    have apart : target ≠ r := fun same => unnamed target List.mem_cons_self (same ▸ member)
    have two := holders_two apart (leaky.owned.living target old left)
      (leaky.owned.living r old held) left held
    have counted := leaky.owned.counted old set
    rw [last] at counted
    have one : (1 : UInt64).toNat = 1 := rfl
    omega
  | make create item => trivial
  | moveConstruct other => trivial
  | moveAssign target other => trivial
  | readopt other => trivial
  | destroy target => trivial

theorem Leaky.step (leaky : Leaky w raw) (few : w.next + 1 < 2 ^ 64) (makes : call.makes = false)
    (unnamed : ∀ k ∈ call.named, k ∉ raw) (stepped : w.step call = some w') :
    Leaky w' raw ∧ ∀ r ∈ raw, w'.slabId r = w.slabId r := by
  have moves := step_rearranges makes stepped
  have kept : ∀ r ∈ raw, w'.slabId r = w.slabId r := fun r member => by
    obtain ⟨si, _, held⟩ := leaky.set r member
    exact moves.kept r (leaky.owned.living r si held) fun named => unnamed r named member
  refine ⟨⟨owned_of_sound leaky.owned (leaky.sound few unnamed) stepped, fun r member => ?_,
    fun k si held set => ?_⟩, kept⟩
  · rw [kept r member]
    exact leaky.set r member
  · obtain ⟨j, before⟩ := moves.held k si held set
    obtain ⟨r, member, holds⟩ := leaky.every j si before set
    exact ⟨r, member, (kept r member).trans holds⟩

theorem run_next (calls : List (CPtrCall T)) (makes : ∀ call ∈ calls, call.makes = false)
    (ran : runFrom CPtrs.step w calls = some w') : w.next ≤ w'.next := by
  induction calls generalizing w with
  | nil => exact Nat.le_of_eq (congrArg next (Option.some.inj ran))
  | cons call rest ih =>
    obtain ⟨mid, stepped, later⟩ := Option.bind_eq_some_iff.mp ran
    exact Nat.le_trans (step_rearranges (makes call List.mem_cons_self) stepped).next
      (ih (fun other member => makes other (List.mem_cons_of_mem call member)) later)

theorem Leaky.run (calls : List (CPtrCall T)) (leaky : Leaky w raw) (few : w'.next + 1 < 2 ^ 64)
    (harmless : ∀ call ∈ calls, call.makes = false ∧ ∀ k ∈ call.named, k ∉ raw)
    (ran : runFrom CPtrs.step w calls = some w') :
    Leaky w' raw ∧ (∀ r ∈ raw, w'.slabId r = w.slabId r) ∧ w.next ≤ w'.next := by
  induction calls generalizing w with
  | nil =>
    obtain rfl := Option.some.inj ran
    exact ⟨leaky, fun _ _ => rfl, Nat.le_refl _⟩
  | cons call rest ih =>
    obtain ⟨mid, stepped, later⟩ := Option.bind_eq_some_iff.mp ran
    obtain ⟨makes, unnamed⟩ := harmless call List.mem_cons_self
    have remaining := fun other (member : other ∈ rest) =>
      harmless other (List.mem_cons_of_mem call member)
    have first := (step_rearranges makes stepped).next
    have least := run_next rest (fun other member => (remaining other member).1) later
    obtain ⟨leaky, kept⟩ := leaky.step (by omega) makes unnamed stepped
    obtain ⟨leaky, still, _⟩ := ih leaky remaining later
    exact ⟨leaky, fun r member => (still r member).trans (kept r member), by omega⟩

end CPtrs

namespace ValueHandles

variable {T : Type u} [Inhabited T] {s t : ValueHandles T}

/-- What every call keeps: references stay, and new ones are of slots that were free. -/
structure Grows (s t : ValueHandles T) : Prop where
  leaky : t.ptrs.Leaky t.raw
  next : s.ptrs.next ≤ t.ptrs.next
  stays : ∀ si, s.ptrs.arena.valid si = true → t.ptrs.arena.valid si = true
  taken : t.raw = s.raw ∨ ∃ si, s.ptrs.arena.valid si = false ∧ t.ptrs.arena.valid si = true

omit [Inhabited T] in
theorem stays_of_kept (before : s.ptrs.Leaky s.raw) (after : t.ptrs.Leaky t.raw)
    (kept : ∀ r ∈ s.raw, t.ptrs.slabId r = s.ptrs.slabId r) (si : SlabId)
    (valid : s.ptrs.arena.valid si = true) : t.ptrs.arena.valid si = true := by
  obtain ⟨r, member, held⟩ := before.held valid
  exact after.owned.valid ((kept r member).trans held) (Allocator.valid_iff.mp valid).1

theorem perform_grows {calls : List (CPtrCall T)} (leaky : s.ptrs.Leaky s.raw)
    (performed : s.perform calls = some t) (few : t.ptrs.next + 1 < 2 ^ 64) : Grows s t := by
  unfold perform at performed
  split at performed
  · rename_i harmless
    obtain ⟨ptrs, ran, rfl⟩ := Option.map_eq_some_iff.mp performed
    obtain ⟨after, kept, next⟩ := leaky.run calls few harmless ran
    exact ⟨after, next, stays_of_kept (t := { s with ptrs := ptrs }) leaky after kept, Or.inl rfl⟩
  · cases performed

theorem create_grows {create : Nat → Bool} {item : T} (leaky : s.ptrs.Leaky s.raw)
    (created : s.step (.create create item) = some t) (few : t.ptrs.next + 1 < 2 ^ 64) :
    Grows s t := by
  rcases leaky.owned.plain.allocate create item with
    ⟨e, arena, failed, plain, refs, _⟩ | ⟨si, arena, took, _, set, free, _⟩
  · simp only [step, failed, Option.some.injEq] at created
    subst created
    have after : CPtrs.Leaky { s.ptrs with arena := arena } s.raw :=
      ⟨⟨plain, leaky.owned.living, fun other apart =>
        (congrArg UInt64.toNat (refs other)).trans (leaky.owned.counted other apart)⟩,
        leaky.set, leaky.every⟩
    exact ⟨after, Nat.le_refl _,
      stays_of_kept (t := { s with ptrs := { s.ptrs with arena := arena } }) leaky after
        fun _ _ => rfl, Or.inl rfl⟩
  · simp only [step, took] at created
    obtain ⟨ptrs, copied, rfl⟩ := Option.map_eq_some_iff.mp created
    have made : s.ptrs.step (.make create item) =
        some (({ s.ptrs with arena := arena } : CPtrs T).push si) := by
      simp only [CPtrs.step, took]
    have making : s.ptrs.Sound (.make create item) := trivial
    have owned := CPtrs.owned_of_sound leaky.owned making made
    have moves := CPtrs.step_rearranges rfl copied
    have fresh : (({ s.ptrs with arena := arena } : CPtrs T).push si).slabId s.ptrs.next =
      some si := if_pos rfl
    have older (k : Nat) (different : k ≠ s.ptrs.next) :
        (({ s.ptrs with arena := arena } : CPtrs T).push si).slabId k = s.ptrs.slabId k :=
      if_neg different
    -- The copy changes none of the handles before it.
    have next : s.ptrs.next + 1 ≤ ptrs.next := moves.next
    have copies : ∀ k, k ≤ s.ptrs.next → ptrs.slabId k =
        (({ s.ptrs with arena := arena } : CPtrs T).push si).slabId k := fun k below => by
      obtain ⟨source, _, rfl⟩ := Option.map_eq_some_iff.mp copied
      have inside : k ≠ (({ s.ptrs with arena := arena } : CPtrs T).push si).next :=
        Nat.ne_of_lt (Nat.lt_succ_of_le below)
      exact if_neg inside
    have kept : ∀ r ∈ s.raw, ptrs.slabId r = s.ptrs.slabId r := fun r member => by
      obtain ⟨other, _, held⟩ := leaky.set r member
      have below := leaky.owned.living r other held
      exact (copies r (Nat.le_of_lt below)).trans (older r (Nat.ne_of_lt below))
    have own : ptrs.slabId s.ptrs.next = some si := (copies _ (Nat.le_refl _)).trans fresh
    have room : (({ s.ptrs with arena := arena } : CPtrs T).push si).next + 1 < 2 ^ 64 :=
      Nat.lt_of_le_of_lt (Nat.succ_le_succ next) few
    have copying : (({ s.ptrs with arena := arena } : CPtrs T).push si).Sound
        (.copyConstruct s.ptrs.next) := fun source _ => owned.room room source
    have after : ptrs.Leaky (s.ptrs.next :: s.raw) := by
      refine ⟨CPtrs.owned_of_sound owned copying copied, fun r member => ?_,
        fun k other held apart => ?_⟩
      · rcases List.mem_cons.mp member with rfl | old
        · exact ⟨si, set, own⟩
        · rw [kept r old]
          exact leaky.set r old
      · obtain ⟨j, before⟩ := moves.held k other held apart
        by_cases here : j = s.ptrs.next
        · rw [here, fresh] at before
          exact ⟨s.ptrs.next, List.mem_cons_self, own.trans before⟩
        · rw [older j here] at before
          obtain ⟨r, member, holds⟩ := leaky.every j other before apart
          exact ⟨r, List.mem_cons_of_mem _ member, (kept r member).trans holds⟩
    refine ⟨after, Nat.le_of_succ_le next, stays_of_kept (t := ⟨ptrs, s.ptrs.next :: s.raw⟩) leaky
      after kept, Or.inr ⟨si, ?_, after.owned.valid own set⟩⟩
    refine Bool.eq_false_iff.mpr fun valid => ?_
    exact (Allocator.valid_iff.mp valid).2 free

theorem step_grows {call : ValueCall T} (leaky : s.ptrs.Leaky s.raw)
    (stepped : s.step call = some t) (few : t.ptrs.next + 1 < 2 ^ 64) : Grows s t := by
  cases call with
  | create create item => exact create_grows leaky stepped few
  | put value => exact perform_grows leaky stepped few
  | addNamedItem value => exact perform_grows leaky stepped few
  | handle call => exact perform_grows leaky stepped few

omit [Inhabited T] in
theorem Grows.trans {x : ValueHandles T} (first : Grows s t) (second : Grows t x) : Grows s x where
  leaky := second.leaky
  next := Nat.le_trans first.next second.next
  stays := fun si valid => second.stays si (first.stays si valid)
  taken := by
    rcases second.taken with same | ⟨si, free, valid⟩
    · rcases first.taken with old | ⟨si, free, valid⟩
      · exact Or.inl (same.trans old)
      · exact Or.inr ⟨si, free, second.stays si valid⟩
    · -- A slot that is free later was free before.
      refine Or.inr ⟨si, Bool.eq_false_iff.mpr fun before => ?_, valid⟩
      rw [first.stays si before] at free
      cases free

theorem step_next {call : ValueCall T} (stepped : s.step call = some t) :
    s.ptrs.next ≤ t.ptrs.next := by
  have performed {calls : List (CPtrCall T)} (performed : s.perform calls = some t) :
      s.ptrs.next ≤ t.ptrs.next := by
    unfold perform at performed
    split at performed
    · rename_i harmless
      obtain ⟨ptrs, ran, rfl⟩ := Option.map_eq_some_iff.mp performed
      exact CPtrs.run_next calls (fun call member => (harmless call member).1) ran
    · cases performed
  cases call with
  | create create item =>
    simp only [step] at stepped
    split at stepped
    · obtain ⟨ptrs, copied, rfl⟩ := Option.map_eq_some_iff.mp stepped
      exact Nat.le_of_succ_le (CPtrs.step_rearranges rfl copied).next
    · obtain rfl := Option.some.inj stepped
      exact Nat.le_refl _
  | put value => exact performed stepped
  | addNamedItem value => exact performed stepped
  | handle call => exact performed stepped

theorem run_next (calls : List (ValueCall T)) (ran : runFrom step s calls = some t) :
    s.ptrs.next ≤ t.ptrs.next := by
  induction calls generalizing s with
  | nil => exact Nat.le_of_eq (congrArg (fun x => x.ptrs.next) (Option.some.inj ran))
  | cons call rest ih =>
    obtain ⟨mid, stepped, later⟩ := Option.bind_eq_some_iff.mp ran
    exact Nat.le_trans (step_next stepped) (ih later)

theorem run_grows (calls : List (ValueCall T)) (leaky : s.ptrs.Leaky s.raw)
    (ran : runFrom step s calls = some t) (few : t.ptrs.next + 1 < 2 ^ 64) : Grows s t := by
  induction calls generalizing s with
  | nil =>
    obtain rfl := Option.some.inj ran
    exact ⟨leaky, Nat.le_refl _, fun _ valid => valid, Or.inl rfl⟩
  | cons call rest ih =>
    obtain ⟨mid, stepped, later⟩ := Option.bind_eq_some_iff.mp ran
    have least := run_next rest later
    have first := step_grows leaky stepped (by omega)
    exact first.trans (ih first.leaky later)

theorem initial_leaky : (initial : ValueHandles T).ptrs.Leaky [] :=
  ⟨CPtrs.initial_owned, fun _ member => absurd member List.not_mem_nil,
    fun k si held => by simp [initial, CPtrs.initial] at held⟩

/-- Building a value and dropping all handles to it leaves a slot valid that was free before. -/
theorem never_reclaims {calls : List (ValueCall T)} (builds : Builds s calls t) :
    ¬Reclaims s t := by
  obtain ⟨history, reached⟩ := builds.history
  have whole := builds.room
  intro reclaims
  have few : s.ptrs.next + 1 < 2 ^ 64 := by
    have least := run_next calls builds.ran
    omega
  have leaky := (run_grows history initial_leaky reached few).leaky
  rcases (run_grows calls leaky builds.ran whole).taken with same | ⟨si, free, valid⟩
  · exact builds.built same
  · rw [reclaims si, free] at valid
    cases valid

def createAndDrop : List (ValueCall UInt8) :=
  [.create (fun _ => true) 7, .handle (.destroy 1)]

set_option maxRecDepth 100000 in
theorem createAndDrop_leaves : ∃ t, Builds initial createAndDrop t ∧
    t.ptrs.arena.valid ⟨0, 1⟩ = true ∧
      (initial : ValueHandles UInt8).ptrs.arena.valid ⟨0, 1⟩ = false := by
  have facts : (runFrom step initial createAndDrop).map (fun t =>
      (t.raw, t.ptrs.next, t.ptrs.slabId 0, t.ptrs.slabId 1, t.ptrs.arena.valid ⟨0, 1⟩)) =
        some ([0], 2, some ⟨0, 1⟩, none, true) ∧
      (initial : ValueHandles UInt8).ptrs.arena.valid ⟨0, 1⟩ = false := by
    decide +kernel
  obtain ⟨t, ran, all⟩ := Option.map_eq_some_iff.mp facts.1
  simp only [Prod.mk.injEq] at all
  obtain ⟨raw, next, first, second, valid⟩ := all
  refine ⟨t, ⟨⟨[], rfl⟩, ran, ?_, fun k below => ?_, ?_⟩, valid, facts.2⟩
  · rw [raw]
    exact List.cons_ne_nil 0 []
  · rw [next] at below
    interval_cases k
    · exact Or.inl (raw ▸ List.mem_cons_self)
    · exact Or.inr (Or.inr second)
  · rw [next]
    decide

/-- So the run does not give back what it took. -/
theorem never_reclaims_createAndDrop :
    ∃ t, Builds initial createAndDrop t ∧ ¬Reclaims initial t := by
  obtain ⟨t, builds, _⟩ := createAndDrop_leaves
  exact ⟨t, builds, never_reclaims builds⟩

/-- The slot of the value is valid afterwards, and was not before. -/
theorem reclaims_fails : ∃ t, Builds initial createAndDrop t ∧ ¬Reclaims initial t := by
  obtain ⟨t, builds, valid, free⟩ := createAndDrop_leaves
  refine ⟨t, builds, fun reclaims => ?_⟩
  rw [reclaims, free] at valid
  cases valid

end ValueHandles

end AgentC

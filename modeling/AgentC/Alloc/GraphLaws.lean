import Mathlib.Data.List.Flatten
import AgentC.Alloc.Graphs
import AgentC.Alloc.ReferenceLaws
import AgentC.Alloc.Bookkeeping

/-! When the strict reset gives up each reference that discarded slots hold exactly once. -/

namespace AgentC

universe u

namespace Allocator

variable {T : Type u} {s : Allocator T} {si : SlabId}

theorem modrefs_neg_refs (holds : s.refs si ≠ 0) (other : SlabId) :
    (s.modrefs si (-1)).refs other =
      if other = si ∧ s.slotIsStaticImmortal si = false then s.refs other - 1
      else s.refs other := by
  rcases modrefs_cases s si (-1) with ⟨same, outside | immortal⟩ | ⟨slab, addressed, mortal, written⟩
  · exact absurd (by simp only [refs, outside]) holds
  · rw [same, if_neg fun both => by rw [immortal] at both; exact absurd both.2 (by decide)]
  · obtain ⟨inside, stored⟩ := slabOf_eq_some.mp addressed
    rw [written]
    by_cases here : other = si
    · subst here
      rw [refs_setSlab_same _ inside, Slab.setInUse_same, if_pos ⟨rfl, mortal⟩,
        refs_of_slab addressed, word_add_neg_one]
    · rw [if_neg fun both => here both.1]
      exact refs_setSlab stored fun own => Slab.setInUse_other slab _ (SlabId.second_ne here own)

theorem modrefs_immortal (s : Allocator T) (si other : SlabId) (delta : Int) :
    (s.modrefs si delta).slotIsStaticImmortal other = s.slotIsStaticImmortal other := by
  rcases modrefs_cases s si delta with ⟨same, _⟩ | ⟨slab, addressed, _, written⟩
  · rw [same]
  · rw [written]
    have flag : (slab.setInUse si.second (slab.inUse si.second + UInt64.ofInt delta)).staticImmortal =
      slab.staticImmortal := rfl
    exact slotIsStaticImmortal_setSlab (slabOf_eq_some.mp addressed).2 flag other

def itemAt (s : Allocator T) (si : SlabId) : Option T :=
  (s.slabOf si).map fun slab => slab.items si.second

theorem itemAt_setSlab {index : Nat} {before after : Slab T} (stored : s.slabs index = some before)
    (other : SlabId)
    (same : other.first = index → after.items other.second = before.items other.second) :
    (s.setSlab index after).itemAt other = s.itemAt other := by
  unfold itemAt
  rw [slabOf_setSlab]
  by_cases inside : other.InRange
  · by_cases here : other.first = index
    · subst here
      rw [if_pos ⟨inside, rfl⟩, slabOf_eq_some.mpr ⟨inside, stored⟩, Option.map_some, same rfl]
      rfl
    · rw [if_neg fun both => here both.2]
  · rw [if_neg fun both => inside both.1]

theorem modrefs_itemAt (s : Allocator T) (si other : SlabId) (delta : Int) :
    (s.modrefs si delta).itemAt other = s.itemAt other := by
  rcases modrefs_cases s si delta with ⟨same, _⟩ | ⟨slab, addressed, _, written⟩
  · rw [same]
  · rw [written]
    exact itemAt_setSlab (slabOf_eq_some.mp addressed).2 other fun _ => rfl

theorem placeItem_immortal (s : Allocator T) (si other : SlabId) (item : T) :
    (s.placeItem si item).slotIsStaticImmortal other = s.slotIsStaticImmortal other := by
  unfold placeItem
  split
  · rename_i slab stored
    have flag : (slab.setItem si.second item).staticImmortal = slab.staticImmortal := rfl
    exact slotIsStaticImmortal_setSlab stored flag other
  · rfl

theorem placeItem_itemAt (s : Allocator T) {si other : SlabId} (different : other ≠ si) (item : T) :
    (s.placeItem si item).itemAt other = s.itemAt other := by
  unfold placeItem
  split
  · rename_i slab stored
    refine itemAt_setSlab stored other fun own => ?_
    exact if_neg (SlabId.second_ne different own)
  · rfl

theorem freeSlot_refs_le (s : Allocator T) (si other : SlabId) :
    ((s.freeSlot si).2.refs other).toNat ≤ (s.refs other).toNat := by
  -- Only the slab of the slot is written, and none of its counts but the number of held slots.
  have slabs : (s.freeSlot si).2.slabs = s.slabs ∨
      (s.freeSlot si).2.slabs = (s.dropSlab si.first).slabs ∨
      ∃ slab count, s.slabs si.first = some slab ∧
        (s.freeSlot si).2.slabs = (s.setSlab si.first { slab with count := count }).slabs := by
    unfold freeSlot
    by_cases outside : s.checkpoints.isEmpty = true
    · rw [if_pos outside]
      cases stored : s.slabs si.first with
      | none => simp [stored]
      | some slab =>
        by_cases last : slab.count - 1 = 0
        · exact Or.inr (Or.inl (by simp [stored, last, dropSlab]))
        · exact Or.inr (Or.inr ⟨slab, slab.count - 1, rfl, by simp [stored, last, setSlab]⟩)
    · rw [if_neg outside]
      cases stored : s.slabs si.first with
      | none => simp [stored, protectSlot, invalidateCheckpointFastPath]
      | some slab =>
        by_cases last : slab.count - 1 = 0
        · exact Or.inr (Or.inl (by
            simp [stored, last, dropSlab, protectSlot, invalidateCheckpointFastPath]))
        · exact Or.inr (Or.inr ⟨slab, slab.count - 1, rfl, by
            simp [stored, last, setSlab, protectSlot, invalidateCheckpointFastPath]⟩)
  rcases slabs with same | gone | ⟨slab, count, stored, written⟩
  · rw [refs_of_slabs (congrFun same _)]
  · rw [refs_of_slabs (congrFun gone _)]
    by_cases own : other.first = si.first
    · have absent : (s.dropSlab si.first).slabs other.first = none := if_pos own
      rw [refs_of_absent absent]
      exact Nat.zero_le _
    · have kept : (s.dropSlab si.first).slabs other.first = s.slabs other.first := if_neg own
      rw [refs_of_slabs kept]
  · rw [refs_of_slabs (congrFun written _)]
    exact Nat.le_of_eq (congrArg UInt64.toNat (refs_setSlab stored fun _ => rfl))

end Allocator

namespace Arenas

variable {K : Type} [DecidableEq K] {T : K → Type u} {traits : HandleTraits K T}
variable {w v x : Arenas T} {handle other : Handle K}

section Reading

theorem set_same (w : Arenas T) (k : K) (arena : Allocator (T k)) : w.set k arena k = arena :=
  dif_pos rfl

theorem set_other (w : Arenas T) {k other : K} (arena : Allocator (T k)) (different : other ≠ k) :
    w.set k arena other = w other :=
  dif_neg different

omit [DecidableEq K] in
theorem item_eq (w : Arenas T) (handle : Handle K) :
    w.item handle = (w handle.kind).itemAt handle.slot := rfl

omit [DecidableEq K] in
theorem valid_iff : w.valid handle = true ↔ handle.slot ≠ ⟨0, 0⟩ ∧ w.refs handle ≠ 0 :=
  Allocator.valid_iff

end Reading

section GivingUp

/-- References are given up, and nothing else changes. -/
structure GivesUp (w v : Arenas T) (dropped : List (Handle K)) : Prop where
  refs : ∀ handle, handle.slot ≠ ⟨0, 0⟩ → (v.refs handle).toNat = w.countLeft dropped handle
  immortal : ∀ handle, v.slotIsStaticImmortal handle = w.slotIsStaticImmortal handle
  item : ∀ handle, v.item handle = w.item handle

theorem countLeft_of_not_mem {dropped : List (Handle K)} (absent : handle ∉ dropped) :
    w.countLeft dropped handle = (w.refs handle).toNat := by
  unfold countLeft
  rw [List.count_eq_zero.mpr absent]
  split
  · rfl
  · exact Nat.sub_zero _

theorem GivesUp.countLeft {dropped : List (Handle K)} (first : GivesUp w v dropped)
    (later : List (Handle K)) {handle : Handle K} (set : handle.slot ≠ ⟨0, 0⟩) :
    v.countLeft later handle = w.countLeft (dropped ++ later) handle := by
  unfold Arenas.countLeft
  rw [first.immortal, first.refs handle set, Arenas.countLeft, List.count_append]
  split
  · rfl
  · omega

theorem GivesUp.refl (w : Arenas T) : GivesUp w w [] :=
  ⟨fun _ _ => (countLeft_of_not_mem List.not_mem_nil).symm, fun _ => rfl, fun _ => rfl⟩

theorem GivesUp.trans {dropped later : List (Handle K)} (first : GivesUp w v dropped)
    (second : GivesUp v x later) : GivesUp w x (dropped ++ later) where
  refs := fun handle set => (second.refs handle set).trans (first.countLeft later set)
  immortal := fun handle => (second.immortal handle).trans (first.immortal handle)
  item := fun handle => (second.item handle).trans (first.item handle)

theorem givesUp_of_invalid (invalid : handle.slot = ⟨0, 0⟩ ∨ w.refs handle = 0 ∨
    w.slotIsStaticImmortal handle = true) : GivesUp w w [handle] := by
  refine ⟨fun other set => ?_, fun _ => rfl, fun _ => rfl⟩
  by_cases here : other = handle
  · subst here
    unfold Arenas.countLeft
    rcases invalid with null | free | immortal
    · exact absurd null set
    · rw [free]
      split
      · rfl
      · exact (Nat.zero_sub _).symm
    · rw [if_pos immortal]
  · exact (countLeft_of_not_mem fun member => here (List.mem_singleton.mp member)).symm

theorem modrefs_givesUp (holds : w.refs handle ≠ 0) :
    GivesUp w (w.set handle.kind ((w handle.kind).modrefs handle.slot (-1))) [handle] := by
  have here := set_same w handle.kind ((w handle.kind).modrefs handle.slot (-1))
  have others := fun k (different : k ≠ handle.kind) =>
    set_other w ((w handle.kind).modrefs handle.slot (-1)) different
  refine ⟨fun other set => ?_, fun other => ?_, fun other => ?_⟩
  · obtain ⟨kind, slot⟩ := other
    by_cases same : handle = ⟨kind, slot⟩
    · subst same
      unfold Arenas.countLeft Arenas.refs slotIsStaticImmortal
      dsimp only
      rw [here, Allocator.modrefs_neg_refs holds, List.count_singleton_self]
      by_cases immortal : (w kind).slotIsStaticImmortal slot = true
      · rw [if_pos immortal, if_neg fun both => by rw [immortal] at both; cases both.2]
      · rw [if_neg immortal, if_pos ⟨rfl, Bool.eq_false_iff.mpr immortal⟩]
        exact word_sub_one_toNat holds
    · rw [countLeft_of_not_mem fun member => same (List.mem_singleton.mp member).symm]
      unfold Arenas.refs
      dsimp only
      by_cases own : kind = handle.kind
      · subst own
        rw [here, Allocator.modrefs_neg_refs holds,
          if_neg fun both => same (congrArg (Handle.mk handle.kind) both.1.symm)]
      · rw [others kind own]
  · obtain ⟨kind, slot⟩ := other
    unfold slotIsStaticImmortal
    dsimp only
    by_cases own : kind = handle.kind
    · subst own
      rw [here, Allocator.modrefs_immortal]
    · rw [others kind own]
  · obtain ⟨kind, slot⟩ := other
    rw [item_eq, item_eq]
    dsimp only
    by_cases own : kind = handle.kind
    · subst own
      rw [here, Allocator.modrefs_itemAt]
    · rw [others kind own]

theorem release_givesUp (w : Arenas T) (handle : Handle K) :
    GivesUp w (w.release handle) [handle] := by
  unfold release
  by_cases valid : w.valid handle = true
  · rw [if_pos valid]
    exact modrefs_givesUp (valid_iff.mp valid).2
  · rw [if_neg valid]
    rw [valid_iff] at valid
    refine givesUp_of_invalid ?_
    by_cases null : handle.slot = ⟨0, 0⟩
    · exact Or.inl null
    · exact Or.inr (Or.inl (by_contra fun holds => valid ⟨null, holds⟩))

theorem releases_givesUp (handles : List (Handle K)) (w : Arenas T) :
    GivesUp w (handles.foldl release w) handles := by
  induction handles generalizing w with
  | nil => exact GivesUp.refl w
  | cons handle rest ih => exact (release_givesUp w handle).trans (ih (w.release handle))

end GivingUp

section Lowering

variable (traits)

def Below (w v : Arenas T) : Prop :=
  ∀ handle, (v.refs handle).toNat ≤ (w.refs handle).toNat

omit [DecidableEq K] in
theorem Below.refl (w : Arenas T) : Below w w :=
  fun _ => Nat.le_refl _

omit [DecidableEq K] in
theorem Below.trans (first : Below w v) (second : Below v x) : Below w x :=
  fun handle => Nat.le_trans (second handle) (first handle)

theorem Below.set {k : K} {arena : Allocator (T k)}
    (below : ∀ si, (arena.refs si).toNat ≤ ((w k).refs si).toNat) : Below w (w.set k arena) := by
  intro handle
  obtain ⟨kind, slot⟩ := handle
  unfold Arenas.refs
  dsimp only
  by_cases own : kind = k
  · subst own
    rw [set_same]
    exact below slot
  · rw [set_other w arena own]

omit [DecidableEq K] in
theorem Below.foldl {A : Type*} {f : Arenas T → A → Arenas T} (each : ∀ w a, Below w (f w a))
    (list : List A) (w : Arenas T) : Below w (list.foldl f w) := by
  induction list generalizing w with
  | nil => exact Below.refl w
  | cons a rest ih => exact (each w a).trans (ih (f w a))

theorem Below.modrefs (holds : w.refs handle ≠ 0) :
    Below w (w.set handle.kind ((w handle.kind).modrefs handle.slot (-1))) := by
  refine Below.set fun si => ?_
  rw [Allocator.modrefs_neg_refs holds]
  split
  · rename_i here
    have positive : (w handle.kind).refs si ≠ 0 := by
      rw [here.1]
      exact holds
    rw [word_sub_one_toNat positive]
    exact Nat.sub_le _ _
  · exact Nat.le_refl _

theorem release_below (w : Arenas T) (handle : Handle K) : Below w (w.release handle) := by
  unfold release
  split
  · rename_i valid
    exact Below.modrefs (valid_iff.mp valid).2
  · exact Below.refl w

/-- Neither does giving up a reference by `deallocate`, whatever is destroyed with the slot. -/
theorem drop_below (depth : Nat) (w : Arenas T) (handle : Handle K) :
    Below w (drop traits depth w handle) := by
  induction depth generalizing w handle with
  | zero =>
    unfold drop
    split
    · exact Below.refl w
    · split
      · rename_i valid
        have lowered := Below.modrefs (valid_iff.mp valid).2
        dsimp only
        split
        · exact lowered.trans (Below.set fun si => Allocator.freeSlot_refs_le _ _ si)
        · exact lowered
      · exact Below.refl w
  | succ depth ih =>
    unfold drop
    split
    · exact Below.refl w
    · split
      · rename_i valid
        have lowered := Below.modrefs (valid_iff.mp valid).2
        dsimp only
        split
        · -- What the destroyed item held is given up before the slot is.
          refine (lowered.trans ?_).trans (Below.set fun si => Allocator.freeSlot_refs_le _ _ si)
          exact Below.foldl ih _ _
        · exact lowered
      · exact Below.refl w

theorem resetSlot_below (depth : Nat) (w : Arenas T) (handle : Handle K) :
    Below w (w.resetSlot traits depth handle) := by
  unfold resetSlot
  split
  · exact Below.refl w
  · unfold resetTransient
    split
    · exact Below.refl w
    · dsimp only
      refine ((Below.foldl release_below _ w).trans (Below.foldl (drop_below traits depth) _ _)).trans
        (Below.set fun si => ?_)
      exact Nat.le_of_eq (congrArg UInt64.toNat (Allocator.placeItem_refs _ _ _ _))

theorem clearedFrom_refs_le {A : Type u} {s : Allocator A} {index start : Nat} {count : UInt64}
    {slab : Slab A} (stored : s.slabs index = some slab) (si : SlabId) :
    ((s.setSlab index (slab.clearedFrom start count)).refs si).toNat ≤ (s.refs si).toNat := by
  by_cases cleared : si.first = index ∧ start ≤ si.second
  · by_cases inside : si.InRange
    · have zero : (s.setSlab index (slab.clearedFrom start count)).refs si = 0 := by
        rw [← cleared.1, Allocator.refs_setSlab_same _ inside]
        exact if_pos cleared.2
      rw [zero]
      exact Nat.zero_le _
    · have outside : ¬(si.first < numSlabs ∧ si.second < slabSize) := inside
      simp [Allocator.refs, Allocator.slabOf, outside]
  · refine Nat.le_of_eq (congrArg UInt64.toNat (Allocator.refs_setSlab stored fun own => ?_))
    exact if_neg fun late => cleared ⟨own, late⟩

theorem resetSlab_below (depth : Nat) (k : K) (start : Nat) (count : UInt64) (w : Arenas T)
    (index : Nat) : Below w (w.resetSlab traits depth k start count index) := by
  unfold resetSlab
  split
  · exact Below.refl w
  · have walked := Below.foldl (resetSlot_below traits depth) (slotsFrom k index start) w
    dsimp only
    split
    · exact walked
    · rename_i stored
      exact walked.trans (Below.set fun si => clearedFrom_refs_le stored si)

end Lowering

section Hooks

variable (traits)

/-- A slot loses its last reference while references are given up. -/
structure RunsOut (w v : Arenas T) (dropped : List (Handle K)) (handle : Handle K) : Prop where
  set : handle.slot ≠ ⟨0, 0⟩
  mortal : w.slotIsStaticImmortal handle = false
  holds : w.refs handle ≠ 0
  free : v.refs handle = 0
  all : (w.refs handle).toNat ≤ dropped.count handle

theorem RunsOut.extend {dropped first later : List (Handle K)} (out : RunsOut v x dropped handle)
    (before : GivesUp w v first) : RunsOut w x (first ++ dropped ++ later) handle := by
  have left := before.refs handle out.set
  rw [Arenas.countLeft, if_neg (by rw [← before.immortal, out.mortal]; decide)] at left
  have positive := Nat.pos_of_ne_zero fun zero => out.holds (UInt64.toNat_inj.mp zero)
  have all := out.all
  refine ⟨out.set, (before.immortal handle).symm.trans out.mortal, fun free => ?_, out.free, ?_⟩
  · rw [free] at left
    simp only [UInt64.toNat_zero, Nat.zero_sub] at left
    omega
  · rw [List.count_append, List.count_append]
    omega

/-- Giving up a reference by `deallocate` frees nothing but a slot that runs out by it. -/
theorem drop_givesUp_or (depth : Nat) (w : Arenas T) (handle : Handle K) :
    GivesUp w (drop traits depth w handle) [handle] ∨
      RunsOut w (drop traits depth w handle) [handle] handle := by
  by_cases immortal : w.slotIsStaticImmortal handle = true
  · refine Or.inl ?_
    unfold drop
    rw [if_pos immortal]
    exact givesUp_of_invalid (Or.inr (Or.inr immortal))
  · by_cases valid : w.valid handle = true
    · obtain ⟨set, holds⟩ := valid_iff.mp valid
      have lowered := modrefs_givesUp holds
      unfold drop
      rw [if_neg immortal, if_pos valid]
      dsimp only
      by_cases last : (w.set handle.kind
          ((w handle.kind).modrefs handle.slot (-1))).refs handle = 0
      · rw [if_pos last]
        refine Or.inr ⟨set, Bool.eq_false_iff.mpr immortal, holds, ?_, ?_⟩
        · -- What is destroyed with the slot raises no count, and neither does freeing it.
          refine UInt64.toNat_inj.mp (Nat.le_zero.mp
            (Nat.le_trans ?_ (Nat.le_of_eq (congrArg UInt64.toNat last))))
          cases depth with
          | zero => exact Below.set (fun si => Allocator.freeSlot_refs_le _ _ si) handle
          | succ depth =>
            exact (Below.trans (Below.foldl (drop_below traits depth) _ _)
              (Below.set fun si => Allocator.freeSlot_refs_le _ _ si)) handle
        · have left := lowered.refs handle set
          rw [last, Arenas.countLeft, if_neg immortal] at left
          simp only [UInt64.toNat_zero] at left
          omega
      · rw [if_neg last]
        exact Or.inl lowered
    · refine Or.inl ?_
      unfold drop
      rw [if_neg immortal, if_neg valid]
      rw [valid_iff] at valid
      by_cases null : handle.slot = ⟨0, 0⟩
      · exact givesUp_of_invalid (Or.inl null)
      · exact givesUp_of_invalid (Or.inr (Or.inl (by_contra fun holds => valid ⟨null, holds⟩)))

theorem drops_givesUp_or (depth : Nat) (handles : List (Handle K)) (w : Arenas T) :
    GivesUp w (handles.foldl (drop traits depth) w) handles ∨
      ∃ handle ∈ handles, RunsOut w (handles.foldl (drop traits depth) w) handles handle := by
  induction handles generalizing w with
  | nil => exact Or.inl (GivesUp.refl w)
  | cons handle rest ih =>
    have below := Below.foldl (drop_below traits depth) rest
      (drop traits depth w handle)
    rcases drop_givesUp_or traits depth w handle with gives | out
    · rcases ih (drop traits depth w handle) with later | ⟨other, member, out⟩
      · exact Or.inl (gives.trans later)
      · have extended := @RunsOut.extend K _ T w _ _ other _ _ [] out gives
        rw [List.append_nil] at extended
        exact Or.inr ⟨other, List.mem_cons_of_mem handle member, extended⟩
    · -- What ran out is not held again.
      have free := below handle
      rw [out.free] at free
      refine Or.inr ⟨handle, List.mem_cons_self, out.set, out.mortal, out.holds,
        UInt64.toNat_inj.mp (Nat.le_zero.mp free), ?_⟩
      exact Nat.le_trans out.all ((List.singleton_sublist.mpr List.mem_cons_self).count_le _)

structure ResetsSlot (w v : Arenas T) (dropped : List (Handle K)) (handle : Handle K) : Prop where
  refs : ∀ other, other.slot ≠ ⟨0, 0⟩ → (v.refs other).toNat = w.countLeft dropped other
  immortal : ∀ other, v.slotIsStaticImmortal other = w.slotIsStaticImmortal other
  item : ∀ other, other ≠ handle → v.item other = w.item other

theorem resetSlot_resets_or (depth : Nat) (holds : w.refs handle ≠ 0) :
    ResetsSlot w (w.resetSlot traits depth handle) (w.givenUp traits handle) handle ∨
      ∃ other ∈ w.reassigned traits handle,
        RunsOut w (w.resetSlot traits depth handle) (w.givenUp traits handle) other := by
  obtain ⟨slab, addressed, _⟩ := Allocator.slab_of_refs holds
  have found : w.item handle = some (slab.items handle.slot.second) := by
    unfold item
    rw [addressed]
    rfl
  have hook : w.resetSlot traits depth handle = w.resetTransient traits depth handle := if_neg holds
  rw [hook]
  unfold resetTransient givenUp held reassigned
  rw [found]
  dsimp only
  rw [Option.map_some, Option.map_some, Option.getD_some, Option.getD_some]
  generalize slab.items handle.slot.second = item
  have released := releases_givesUp (traits.handles handle.kind item) w
  generalize (traits.handles handle.kind item).foldl release w = mid at released
  have placed (x : Arenas T) (other : Handle K) :
      (x.set handle.kind ((x handle.kind).placeItem handle.slot
        (traits.cleared handle.kind item))).refs other = x.refs other := by
    obtain ⟨kind, slot⟩ := other
    unfold Arenas.refs
    dsimp only
    by_cases own : kind = handle.kind
    · subst own
      rw [set_same, Allocator.placeItem_refs]
    · rw [set_other _ _ own]
  rcases drops_givesUp_or traits depth (traits.reassigned handle.kind item) mid with
    gives | ⟨other, member, out⟩
  · have all := released.trans gives
    refine Or.inl ⟨fun other set => ?_, fun other => ?_, fun other different => ?_⟩
    · rw [placed]
      exact all.refs other set
    · refine Eq.trans ?_ (all.immortal other)
      obtain ⟨kind, slot⟩ := other
      unfold slotIsStaticImmortal
      dsimp only
      by_cases own : kind = handle.kind
      · subst own
        rw [set_same, Allocator.placeItem_immortal]
      · rw [set_other _ _ own]
    · refine Eq.trans ?_ (all.item other)
      obtain ⟨kind, slot⟩ := other
      rw [item_eq, item_eq]
      dsimp only
      by_cases own : kind = handle.kind
      · subst own
        rw [set_same]
        exact Allocator.placeItem_itemAt _
          (fun same => different (congrArg (Handle.mk handle.kind) same)) _
      · rw [set_other _ _ own]
  · have extended := @RunsOut.extend K _ T w _ _ other _ _ [] out released
    rw [List.append_nil] at extended
    refine Or.inr ⟨other, member, extended.set, extended.mortal, extended.holds, ?_, extended.all⟩
    rw [placed]
    exact extended.free

end Hooks

section Slots

omit [DecidableEq K] in
theorem mem_slotsFrom {k : K} {index start : Nat} : handle ∈ slotsFrom k index start ↔
    handle.kind = k ∧ handle.slot.first = index ∧ start ≤ handle.slot.second ∧
      handle.slot.second < slabSize := by
  unfold slotsFrom
  rw [List.range_eq_range', List.drop_range', List.mem_map]
  constructor
  · rintro ⟨offset, inside, rfl⟩
    rw [List.mem_range'_1] at inside
    refine ⟨rfl, rfl, ?_, ?_⟩ <;> dsimp only <;> omega
  · intro here
    obtain ⟨kind, first, second⟩ := handle
    obtain ⟨rfl, rfl, late, inside⟩ := here
    dsimp only at late inside
    exact ⟨second, List.mem_range'_1.mpr (by omega), rfl⟩

omit [DecidableEq K] in
theorem nodup_slotsFrom (k : K) (index start : Nat) : (slotsFrom k index start).Nodup := by
  unfold slotsFrom
  refine List.Nodup.map (fun a b same => ?_) (List.nodup_range.sublist (List.drop_sublist start _))
  exact congrArg (fun handle => handle.slot.second) same

omit [DecidableEq K] in
theorem mem_slotsPast {k : K} {watermark : SlabId} (inside : watermark.InRange) :
    handle ∈ slotsPast k watermark ↔
      handle.kind = k ∧ handle.slot.InRange ∧ Allocator.Past watermark handle.slot := by
  unfold slotsPast slotsAbove
  rw [List.mem_append, List.mem_flatMap, List.range_eq_range', List.drop_range']
  obtain ⟨kind, first, second⟩ := handle
  obtain ⟨own, offset⟩ := watermark
  have bounded : own < numSlabs := inside.1
  have above : (∃ index, index ∈ List.range' (0 + (own + 1) * 1) (numSlabs - (own + 1)) ∧
      (⟨kind, ⟨first, second⟩⟩ : Handle K) ∈ slotsFrom k index 0) ↔
      kind = k ∧ own < first ∧ first < numSlabs ∧ second < slabSize := by
    constructor
    · rintro ⟨index, listed, member⟩
      rw [List.mem_range'_1] at listed
      obtain ⟨rfl, same, _, inside⟩ := mem_slotsFrom.mp member
      dsimp only at same inside
      exact ⟨rfl, by omega, by omega, inside⟩
    · rintro ⟨rfl, later, bounded, inside⟩
      exact ⟨first, List.mem_range'_1.mpr (by omega),
        mem_slotsFrom.mpr ⟨rfl, rfl, Nat.zero_le _, inside⟩⟩
  rw [above]
  unfold Allocator.Past SlabId.InRange
  by_cases set : (⟨own, offset⟩ : SlabId).isSet = true
  · rw [if_pos set, mem_slotsFrom]
    have apart := SlabId.isSet_iff.mp set
    dsimp only [SlabId.Before]
    simp only [ne_eq, SlabId.mk.injEq] at apart ⊢
    constructor
    · rintro (⟨rfl, later, bounded, inside⟩ | ⟨rfl, rfl, later, inside⟩)
      · exact ⟨rfl, ⟨bounded, inside⟩, by omega, fun _ => Or.inl later⟩
      · exact ⟨rfl, ⟨bounded, inside⟩, by omega, fun _ => Or.inr ⟨rfl, by omega⟩⟩
    · rintro ⟨rfl, ⟨bounded, inside⟩, _, past⟩
      rcases past apart with later | ⟨rfl, later⟩
      · exact Or.inl ⟨rfl, later, bounded, inside⟩
      · exact Or.inr ⟨rfl, rfl, by omega, inside⟩
  · rw [if_neg set, mem_slotsFrom]
    -- Without a watermark all slots but the null slot are past it.
    have null : (⟨own, offset⟩ : SlabId) = ⟨0, 0⟩ := by
      by_contra apart
      exact set (SlabId.isSet_iff.mpr apart)
    simp only [SlabId.mk.injEq] at null
    obtain ⟨rfl, rfl⟩ := null
    dsimp only
    simp only [ne_eq, SlabId.mk.injEq, not_and]
    constructor
    · rintro (⟨rfl, later, bounded, inside⟩ | ⟨rfl, rfl, later, inside⟩)
      · exact ⟨rfl, ⟨bounded, inside⟩, by omega, fun impossible => (impossible trivial).elim⟩
      · exact ⟨rfl, ⟨bounded, inside⟩, by omega, fun impossible => (impossible trivial).elim⟩
    · rintro ⟨rfl, ⟨bounded, inside⟩, other, _⟩
      by_cases zero : first = 0
      · exact Or.inr ⟨rfl, zero, by have := other zero; omega, inside⟩
      · exact Or.inl ⟨rfl, by omega, bounded, inside⟩

omit [DecidableEq K] in
theorem mem_slotsPast_of_visited {k : K} {watermark : SlabId}
    (visited : handle ∈ slotsVisited k watermark) : handle ∈ slotsPast k watermark := by
  unfold slotsVisited at visited
  unfold slotsPast
  rw [List.mem_append] at visited ⊢
  refine visited.imp id fun own => ?_
  split at own
  · rename_i set
    rwa [if_pos set]
  · exact absurd own List.not_mem_nil

end Slots

section Walking

variable {watermark : K → SlabId} {order : List K}
variable {seen gone : Handle K → Prop} {done : List (Handle K)}

/-- One turn of the slots that are reset. -/
def turn (traits : HandleTraits K T) (w : Arenas T) (done : List (Handle K)) (handle : Handle K) :
    List (Handle K) :=
  if w.countLeft (done.flatMap (w.givenUp traits)) handle = 0 then done else done ++ [handle]

/-- After the resets of some slots, the slots that were not seen have what these left them. -/
structure Walked (traits : HandleTraits K T) (w : Arenas T) (seen : Handle K → Prop)
    (done : List (Handle K)) (v : Arenas T) : Prop where
  refs : ∀ handle, handle.slot ≠ ⟨0, 0⟩ → ¬seen handle →
    (v.refs handle).toNat = w.countLeft (done.flatMap (w.givenUp traits)) handle
  immortal : ∀ handle, v.slotIsStaticImmortal handle = w.slotIsStaticImmortal handle
  item : ∀ handle, ¬seen handle → v.item handle = w.item handle

/-- A slot that was there at the checkpoint lost its last reference to the resets of some slots. -/
def Doomed (traits : HandleTraits K T) (watermark : K → SlabId) (order : List K) (w : Arenas T)
    (done : List (Handle K)) (v : Arenas T) : Prop :=
  ∃ handle, Kept watermark handle ∧ w.slotIsStaticImmortal handle = false ∧
    w.heldBy traits (discarded watermark order) handle ≠ 0 ∧ v.refs handle = 0 ∧
      (w.refs handle).toNat ≤ (done.flatMap (w.givenUp traits)).count handle

theorem turn_grows (w : Arenas T) (done : List (Handle K)) (handle : Handle K) :
    done <+: turn traits w done handle := by
  unfold turn
  split
  · exact List.prefix_rfl
  · exact List.prefix_append done [handle]

theorem Doomed.mono {later : List (Handle K)} (doomed : Doomed traits watermark order w done v)
    (below : Below v x) (grown : done <+: later) : Doomed traits watermark order w later x := by
  obtain ⟨handle, kept, mortal, held, free, all⟩ := doomed
  have least := below handle
  rw [free] at least
  refine ⟨handle, kept, mortal, held, UInt64.toNat_inj.mp (Nat.le_zero.mp least), ?_⟩
  obtain ⟨rest, rfl⟩ := grown
  rw [List.flatMap_append, List.count_append]
  omega

theorem Walked.weaken {more : Handle K → Prop} (walked : Walked traits w seen done v)
    (grown : ∀ handle, seen handle → more handle) : Walked traits w more done v :=
  ⟨fun handle set fresh => walked.refs handle set fun old => fresh (grown handle old),
    walked.immortal, fun handle fresh => walked.item handle fun old => fresh (grown handle old)⟩

theorem Walked.resetSlot (depth : Nat) (walked : Walked traits w seen done v)
    (sub : ∀ k item, ∀ other ∈ traits.reassigned k item, other ∈ traits.handles k item)
    (fresh : ¬seen handle) (set : handle.slot ≠ ⟨0, 0⟩)
    (old : ∀ other, Kept watermark other → ¬seen other)
    (member : handle ∈ discarded watermark order)
    (targets : ∀ other ∈ w.reassigned traits handle,
      other.slot = ⟨0, 0⟩ ∨ Kept watermark other ∨ v.refs other = 0) :
    Walked traits w (fun other => seen other ∨ other = handle) (turn traits w done handle)
        (v.resetSlot traits depth handle) ∨
      Doomed traits watermark order w (turn traits w done handle)
        (v.resetSlot traits depth handle) := by
  have count := walked.refs handle set fresh
  by_cases free : v.refs handle = 0
  · have same : v.resetSlot traits depth handle = v := if_pos free
    have skipped : turn traits w done handle = done := by
      rw [free] at count
      exact if_pos count.symm
    rw [same, skipped]
    exact Or.inl (walked.weaken fun other before => Or.inl before)
  · have taken : turn traits w done handle = done ++ [handle] := by
      refine if_neg fun zero => free (UInt64.toNat_inj.mp ?_)
      rw [count, zero]
      rfl
    have given : v.givenUp traits handle = w.givenUp traits handle := by
      unfold givenUp held reassigned
      rw [walked.item handle fresh]
    have assigned : v.reassigned traits handle = w.reassigned traits handle := by
      unfold reassigned
      rw [walked.item handle fresh]
    have drops : (done ++ [handle]).flatMap (w.givenUp traits) =
        done.flatMap (w.givenUp traits) ++ w.givenUp traits handle := by
      rw [List.flatMap_append, List.flatMap_singleton]
    rw [taken]
    rcases resetSlot_resets_or traits depth free with resets | ⟨other, among, out⟩
    · refine Or.inl ⟨fun other set unseen => ?_, fun other => ?_, fun other unseen => ?_⟩
      · rw [resets.refs other set, given, drops]
        unfold Arenas.countLeft
        rw [walked.immortal, walked.refs other set fun before => unseen (Or.inl before),
          Arenas.countLeft, List.count_append]
        split
        · rfl
        · omega
      · exact (resets.immortal other).trans (walked.immortal other)
      · refine (resets.item other fun same => unseen (Or.inr same)).trans ?_
        exact walked.item other fun before => unseen (Or.inl before)
    · -- Only a slot that was there at the checkpoint can run out by it.
      rw [assigned] at among
      have kept : Kept watermark other := by
        rcases targets other among with null | kept | free
        · exact absurd null out.set
        · exact kept
        · exact absurd free out.holds
      have mortal : w.slotIsStaticImmortal other = false :=
        (walked.immortal other).symm.trans out.mortal
      refine Or.inr ⟨other, kept, mortal, ?_, out.free, ?_⟩
      · -- The slot that is reset holds the reference, and is itself discarded.
        have holds : w.refs handle ≠ 0 := by
          intro zero
          apply free
          refine UInt64.toNat_inj.mp (count.trans ?_)
          unfold Arenas.countLeft
          rw [zero]
          split
          · rfl
          · exact Nat.zero_sub _
        have listed : other ∈ w.references traits handle := by
          unfold references held
          rw [if_neg holds]
          unfold reassigned at among
          cases found : w.item handle with
          | none =>
            rw [found] at among
            exact absurd among List.not_mem_nil
          | some item =>
            rw [found] at among
            exact sub handle.kind item other among
        refine Nat.ne_of_gt (List.count_pos_iff.mpr ?_)
        exact List.mem_flatMap.mpr ⟨handle, member, listed⟩
      · have left := walked.refs other out.set (old other kept)
        rw [Arenas.countLeft, if_neg (by rw [mortal]; decide)] at left
        have all := out.all
        rw [given] at all
        rw [drops, List.count_append]
        omega

/-- What holds after some slots were seen: they are walked, or a slot is lost for good. -/
def Stands (traits : HandleTraits K T) (watermark : K → SlabId) (order : List K) (w : Arenas T)
    (seen : Handle K → Prop) (done : List (Handle K)) (v : Arenas T) : Prop :=
  Walked traits w seen done v ∨ Doomed traits watermark order w done v

theorem Stands.weaken {more : Handle K → Prop} (stands : Stands traits watermark order w seen done v)
    (grown : ∀ handle, seen handle → more handle) : Stands traits watermark order w more done v :=
  stands.imp (fun walked => walked.weaken grown) id

/--
What a rollback of several allocators may rely on: hooks reassign what they gave up, and that only
to slots of allocators that were rolled back before.
-/
structure Orderly (traits : HandleTraits K T) (watermark : K → SlabId) (order : List K) : Prop where
  sub : ∀ k item, ∀ other ∈ traits.reassigned k item, other ∈ traits.handles k item
  earlier : ∀ before k after, order = before ++ k :: after →
    ∀ item, ∀ other ∈ traits.reassigned k item, other.kind ∈ before
  distinct : order.Nodup
  inside : ∀ k, (watermark k).InRange

namespace Orderly

variable (orderly : Orderly traits watermark order)

include orderly

omit [DecidableEq K] in
theorem mem_discarded : handle ∈ discarded watermark order ↔ handle.kind ∈ order ∧
    handle.slot.InRange ∧ Allocator.Past (watermark handle.kind) handle.slot := by
  unfold discarded
  rw [List.mem_flatMap]
  constructor
  · rintro ⟨k, listed, member⟩
    obtain ⟨rfl, range, past⟩ := (mem_slotsPast (orderly.inside k)).mp member
    exact ⟨listed, range, past⟩
  · rintro ⟨listed, range, past⟩
    exact ⟨handle.kind, listed, (mem_slotsPast (orderly.inside _)).mpr ⟨rfl, range, past⟩⟩

omit [DecidableEq K] in
theorem set (handle : Handle K) (member : handle ∈ discarded watermark order) :
    handle.slot ≠ ⟨0, 0⟩ :=
  (orderly.mem_discarded.mp member).2.2.1

omit [DecidableEq K] in
theorem apart (handle : Handle K) (member : handle ∈ discarded watermark order) :
    ¬Kept watermark handle :=
  fun kept => kept.2 (orderly.mem_discarded.mp member).2.2

end Orderly

/-- The slots to which a slot's references are given up twice are of the checkpoint, or free. -/
def Targets (traits : HandleTraits K T) (watermark : K → SlabId) (w v : Arenas T)
    (handle : Handle K) : Prop :=
  ∀ other ∈ w.reassigned traits handle,
    other.slot = ⟨0, 0⟩ ∨ Kept watermark other ∨ v.refs other = 0

omit [DecidableEq K] in
theorem Targets.below (targets : Targets traits watermark w v handle) (below : Below v x) :
    Targets traits watermark w x handle := by
  intro other member
  refine (targets other member).imp id (Or.imp id fun free => ?_)
  have least := below other
  rw [free] at least
  exact UInt64.toNat_inj.mp (Nat.le_zero.mp least)

variable (orderly : Orderly traits watermark order)

include orderly

theorem Stands.resetSlots (depth : Nat) (slots : List (Handle K)) (distinct : slots.Nodup)
    (stands : Stands traits watermark order w seen done v)
    (old : ∀ handle, seen handle → handle ∈ discarded watermark order)
    (fresh : ∀ handle ∈ slots, ¬seen handle ∧ handle ∈ discarded watermark order)
    (targets : ∀ handle ∈ slots, Targets traits watermark w v handle) :
    Stands traits watermark order w (fun handle => seen handle ∨ handle ∈ slots)
      (slots.foldl (turn traits w) done) (slots.foldl (resetSlot traits depth) v) := by
  induction slots generalizing seen done v with
  | nil => exact stands.weaken fun handle before => Or.inl before
  | cons handle rest ih =>
    obtain ⟨new, distinct⟩ := List.nodup_cons.mp distinct
    obtain ⟨unseen, member⟩ := fresh handle List.mem_cons_self
    have below := resetSlot_below traits depth v handle
    have next : Stands traits watermark order w (fun other => seen other ∨ other = handle)
        (turn traits w done handle) (v.resetSlot traits depth handle) := by
      rcases stands with walked | doomed
      · exact walked.resetSlot depth orderly.sub unseen (orderly.set handle member)
          (fun other kept before => orderly.apart other (old other before) kept) member
          (targets handle List.mem_cons_self)
      · exact Or.inr (doomed.mono below (turn_grows w done handle))
    have later := ih distinct next
      (fun other before => before.elim (old other) fun same => same ▸ member)
      (fun other within => by
        obtain ⟨unseen, member⟩ := fresh other (List.mem_cons_of_mem handle within)
        exact ⟨fun before => before.elim unseen fun same => new (same ▸ within), member⟩)
      (fun other within => (targets other (List.mem_cons_of_mem handle within)).below below)
    refine later.weaken fun other before => ?_
    rcases before with (before | same) | within
    · exact Or.inl before
    · exact Or.inr (same ▸ List.mem_cons_self)
    · exact Or.inr (List.mem_cons_of_mem handle within)

omit orderly in
theorem clearedFrom_eq {k : K} {index : Nat} (start : Nat) (count : UInt64) {slab : Slab (T k)}
    (stored : (v k).slabs index = some slab) (handle : Handle K) :
    let x := v.set k ((v k).setSlab index (slab.clearedFrom start count))
    (handle ∈ slotsFrom k index start → x.refs handle = 0) ∧
      (handle ∉ slotsFrom k index start → x.refs handle = v.refs handle) ∧
      x.slotIsStaticImmortal handle = v.slotIsStaticImmortal handle ∧
      x.item handle = v.item handle := by
  intro x
  obtain ⟨kind, slot⟩ := handle
  by_cases own : kind = k
  · subst own
    have here : x kind = (v kind).setSlab index (slab.clearedFrom start count) := set_same v kind _
    have flag : (slab.clearedFrom start count).staticImmortal = slab.staticImmortal := rfl
    refine ⟨fun member => ?_, fun outside => ?_, ?_, ?_⟩
    · obtain ⟨_, same, late, inside⟩ := mem_slotsFrom.mp member
      dsimp only at same late inside
      have zero : ((x kind).refs slot).toNat = 0 := by
        rw [here]
        by_cases bounded : slot.first < numSlabs
        · rw [← same, Allocator.refs_setSlab_same _ ⟨bounded, inside⟩]
          exact congrArg UInt64.toNat (if_pos late)
        · have outside : ¬(slot.first < numSlabs ∧ slot.second < slabSize) :=
            fun both => bounded both.1
          simp [Allocator.refs, Allocator.slabOf, outside]
      exact UInt64.toNat_inj.mp zero
    · show (x kind).refs slot = (v kind).refs slot
      rw [here]
      by_cases inside : slot.second < slabSize
      · refine Allocator.refs_setSlab stored fun same => if_neg fun late => ?_
        exact outside (mem_slotsFrom.mpr ⟨rfl, same, late, inside⟩)
      · have outside : ¬(slot.first < numSlabs ∧ slot.second < slabSize) :=
          fun both => inside both.2
        simp [Allocator.refs, Allocator.slabOf, outside]
    · show (x kind).slotIsStaticImmortal slot = (v kind).slotIsStaticImmortal slot
      rw [here]
      exact Allocator.slotIsStaticImmortal_setSlab stored flag slot
    · rw [item_eq, item_eq]
      dsimp only
      rw [here]
      exact Allocator.itemAt_setSlab stored slot fun _ => rfl
  · have here : x kind = v kind := set_other v _ own
    refine ⟨fun member => absurd (mem_slotsFrom.mp member).1 own, fun _ => ?_, ?_, ?_⟩
    · show (x kind).refs slot = (v kind).refs slot
      rw [here]
    · show (x kind).slotIsStaticImmortal slot = (v kind).slotIsStaticImmortal slot
      rw [here]
    · rw [item_eq, item_eq]
      dsimp only
      rw [here]

omit orderly in
theorem Stands.clearedFrom {k : K} {index start : Nat} {count : UInt64} {slab : Slab (T k)}
    (stands : Stands traits watermark order w seen done v)
    (stored : (v k).slabs index = some slab)
    (visited : ∀ handle ∈ slotsFrom k index start, seen handle) :
    Stands traits watermark order w seen done
      (v.set k ((v k).setSlab index (slab.clearedFrom start count))) := by
  have cleared := clearedFrom_eq start count stored
  rcases stands with walked | doomed
  · refine Or.inl ⟨fun handle set unseen => ?_, fun handle => ?_, fun handle unseen => ?_⟩
    · rw [(cleared handle).2.1 fun member => unseen (visited handle member)]
      exact walked.refs handle set unseen
    · exact (cleared handle).2.2.1.trans (walked.immortal handle)
    · exact (cleared handle).2.2.2.trans (walked.item handle unseen)
  · refine Or.inr (doomed.mono (fun handle => ?_) List.prefix_rfl)
    by_cases member : handle ∈ slotsFrom k index start
    · rw [(cleared handle).1 member]
      exact Nat.zero_le _
    · rw [(cleared handle).2.1 member]

omit orderly [DecidableEq K] in
theorem refs_of_absent {k : K} {index start : Nat} (absent : (v k).slabs index = none)
    (member : handle ∈ slotsFrom k index start) : v.refs handle = 0 := by
  obtain ⟨kind, slot⟩ := handle
  obtain ⟨rfl, rfl, _, _⟩ := mem_slotsFrom.mp member
  exact Allocator.refs_of_absent absent

omit orderly in
theorem resetSlots_of_free (depth : Nat) (slots : List (Handle K))
    (free : ∀ handle ∈ slots, v.refs handle = 0) : slots.foldl (resetSlot traits depth) v = v := by
  induction slots with
  | nil => rfl
  | cons handle rest ih =>
    have same : v.resetSlot traits depth handle = v := if_pos (free handle List.mem_cons_self)
    rw [List.foldl_cons, same]
    exact ih fun other member => free other (List.mem_cons_of_mem handle member)

omit orderly in
theorem resetSlab_cases (traits : HandleTraits K T) (depth : Nat) (k : K) (start : Nat)
    (count : UInt64) (v : Arenas T) (index : Nat) :
    let walked := (slotsFrom k index start).foldl (resetSlot traits depth) v
    ((walked k).slabs index = none ∧ v.resetSlab traits depth k start count index = walked) ∨
      ∃ slab, (walked k).slabs index = some slab ∧
        v.resetSlab traits depth k start count index =
          walked.set k ((walked k).setSlab index (slab.clearedFrom start count)) := by
  intro walked
  unfold resetSlab
  cases before : (v k).slabs index with
  | none =>
    have same : walked = v := resetSlots_of_free depth _ fun _ member => refs_of_absent before member
    rw [same]
    exact Or.inl ⟨before, rfl⟩
  | some slab =>
    dsimp only
    cases after : (walked k).slabs index with
    | none => exact Or.inl ⟨rfl, rfl⟩
    | some slab => exact Or.inr ⟨slab, rfl, rfl⟩

theorem Stands.resetSlab (depth : Nat) {k : K} {index start : Nat} (count : UInt64)
    (stands : Stands traits watermark order w seen done v)
    (old : ∀ handle, seen handle → handle ∈ discarded watermark order)
    (fresh : ∀ handle ∈ slotsFrom k index start,
      ¬seen handle ∧ handle ∈ discarded watermark order)
    (targets : ∀ handle ∈ slotsFrom k index start, Targets traits watermark w v handle) :
    Stands traits watermark order w (fun handle => seen handle ∨ handle ∈ slotsFrom k index start)
        ((slotsFrom k index start).foldl (turn traits w) done)
        (v.resetSlab traits depth k start count index) ∧
      ∀ handle ∈ slotsFrom k index start,
        (v.resetSlab traits depth k start count index).refs handle = 0 := by
  have walked := stands.resetSlots orderly depth (slotsFrom k index start)
    (nodup_slotsFrom k index start) old fresh targets
  rcases resetSlab_cases traits depth k start count v index with
    ⟨absent, same⟩ | ⟨slab, stored, same⟩
  · rw [same]
    exact ⟨walked, fun handle member => refs_of_absent absent member⟩
  · rw [same]
    exact ⟨walked.clearedFrom stored fun _ member => Or.inr member,
      fun handle member => (clearedFrom_eq start count stored handle).1 member⟩

theorem Stands.resetSlabs (depth : Nat) {k : K} (indices : List Nat) (distinct : indices.Nodup)
    (stands : Stands traits watermark order w seen done v)
    (old : ∀ handle, seen handle → handle ∈ discarded watermark order)
    (fresh : ∀ handle ∈ indices.flatMap fun index => slotsFrom k index 0,
      ¬seen handle ∧ handle ∈ discarded watermark order)
    (targets : ∀ handle ∈ indices.flatMap fun index => slotsFrom k index 0,
      Targets traits watermark w v handle) :
    let slots := indices.flatMap fun index => slotsFrom k index 0
    Stands traits watermark order w (fun handle => seen handle ∨ handle ∈ slots)
        (slots.foldl (turn traits w) done) (indices.foldl (Arenas.resetSlab traits depth k 0 0) v) ∧
      ∀ handle ∈ slots, (indices.foldl (Arenas.resetSlab traits depth k 0 0) v).refs handle = 0 := by
  induction indices generalizing seen done v with
  | nil =>
    exact ⟨stands.weaken fun handle before => Or.inl before,
      fun _ member => absurd member List.not_mem_nil⟩
  | cons index rest ih =>
    obtain ⟨new, distinct⟩ := List.nodup_cons.mp distinct
    have here : ∀ handle ∈ slotsFrom k index 0,
        handle ∈ (index :: rest).flatMap fun index => slotsFrom k index 0 := fun handle member =>
      List.mem_flatMap.mpr ⟨index, List.mem_cons_self, member⟩
    have after : ∀ handle ∈ rest.flatMap fun index => slotsFrom k index 0,
        handle ∈ (index :: rest).flatMap fun index => slotsFrom k index 0 := fun handle member => by
      rw [List.flatMap_cons]
      exact List.mem_append_right _ member
    have below := resetSlab_below traits depth k 0 0 v index
    obtain ⟨first, cleared⟩ := stands.resetSlab orderly depth 0 old
      (fun handle member => fresh handle (here handle member))
      (fun handle member => targets handle (here handle member))
    obtain ⟨later, others⟩ := ih distinct first
      (fun handle before => before.elim (old handle) fun member =>
        (fresh handle (here handle member)).2)
      (fun handle member => by
        obtain ⟨unseen, listed⟩ := fresh handle (after handle member)
        refine ⟨fun before => before.elim unseen fun own => ?_, listed⟩
        -- Slots of different slabs are different.
        obtain ⟨other, among, elsewhere⟩ := List.mem_flatMap.mp member
        have same := (mem_slotsFrom.mp own).2.1.symm.trans (mem_slotsFrom.mp elsewhere).2.1
        exact new (same ▸ among))
      (fun handle member => (targets handle (after handle member)).below below)
    intro slots
    have split : slots = slotsFrom k index 0 ++ rest.flatMap fun index => slotsFrom k index 0 :=
      List.flatMap_cons
    rw [split, List.foldl_append]
    refine ⟨later.weaken fun handle before => ?_, fun handle member => ?_⟩
    · rw [List.mem_append]
      exact or_assoc.mp before
    · rcases List.mem_append.mp member with own | elsewhere
      · have least := Below.foldl (resetSlab_below traits depth k 0 0) rest
          (v.resetSlab traits depth k 0 0 index) handle
        rw [cleared handle own] at least
        exact UInt64.toNat_inj.mp (Nat.le_zero.mp least)
      · exact others handle elsewhere

omit orderly in
theorem rollbackStrict_below (traits : HandleTraits K T) (depth : Nat) (k : K) (mark : SlabId)
    (v : Arenas T) : Below v (v.rollbackStrictAppendOnlyFromWatermark traits depth k mark) := by
  have above := Below.foldl (resetSlab_below traits depth k 0 0)
    ((List.range numSlabs).drop (mark.first + 1)) v
  unfold rollbackStrictAppendOnlyFromWatermark
  dsimp only
  split
  · exact above.trans (resetSlab_below traits depth k _ _ _ _)
  · split
    · exact above
    · rename_i stored
      refine above.trans (Below.set fun si => ?_)
      exact clearedFrom_refs_le stored si

theorem Stands.rollback (depth : Nat) {k : K}
    (stands : Stands traits watermark order w seen done v)
    (old : ∀ handle, seen handle → handle ∈ discarded watermark order)
    (fresh : ∀ handle ∈ slotsPast k (watermark k),
      ¬seen handle ∧ handle ∈ discarded watermark order)
    (targets : ∀ handle ∈ slotsPast k (watermark k), Targets traits watermark w v handle) :
    let x := v.rollbackStrictAppendOnlyFromWatermark traits depth k (watermark k)
    Stands traits watermark order w
        (fun handle => seen handle ∨ handle ∈ slotsPast k (watermark k))
        ((slotsVisited k (watermark k)).foldl (turn traits w) done) x ∧
      ∀ handle ∈ slotsPast k (watermark k), x.refs handle = 0 := by
  have among : ∀ handle ∈ slotsAbove k (watermark k), handle ∈ slotsPast k (watermark k) :=
    fun handle member => List.mem_append_left _ member
  have distinct : ((List.range numSlabs).drop ((watermark k).first + 1)).Nodup :=
    List.nodup_range.sublist (List.drop_sublist _ _)
  obtain ⟨above, cleared⟩ := stands.resetSlabs orderly depth _ distinct old
    (fun handle member => fresh handle (among handle member))
    (fun handle member => targets handle (among handle member))
  have below := Below.foldl (resetSlab_below traits depth k 0 0)
    ((List.range numSlabs).drop ((watermark k).first + 1)) v
  have later : ∀ handle, seen handle ∨ handle ∈ slotsAbove k (watermark k) →
      handle ∈ discarded watermark order := fun handle before =>
    before.elim (old handle) fun member => (fresh handle (among handle member)).2
  unfold rollbackStrictAppendOnlyFromWatermark slotsVisited
  by_cases set : (watermark k).isSet = true
  · have own : ∀ handle ∈ slotsFrom k (watermark k).first ((watermark k).second + 1),
        handle ∈ slotsPast k (watermark k) := fun handle member => by
      unfold slotsPast
      rw [if_pos set]
      exact List.mem_append_right _ member
    rw [if_pos set, if_pos set, List.foldl_append]
    obtain ⟨last, freed⟩ := above.resetSlab orderly depth
      (UInt64.ofNat ((watermark k).second + 1)) later
      (fun handle member => by
        obtain ⟨unseen, listed⟩ := fresh handle (own handle member)
        refine ⟨fun before => before.elim unseen fun higher => ?_, listed⟩
        -- The watermark's own slab is none of those above it.
        obtain ⟨index, within, elsewhere⟩ := List.mem_flatMap.mp higher
        rw [List.range_eq_range', List.drop_range', List.mem_range'_1] at within
        have same := (mem_slotsFrom.mp member).2.1.symm.trans (mem_slotsFrom.mp elsewhere).2.1
        omega)
      (fun handle member => (targets handle (own handle member)).below below)
    have least := resetSlab_below traits depth k ((watermark k).second + 1)
      (UInt64.ofNat ((watermark k).second + 1)) (((List.range numSlabs).drop
        ((watermark k).first + 1)).foldl (Arenas.resetSlab traits depth k 0 0) v) (watermark k).first
    refine ⟨last.weaken fun handle before => ?_, fun handle member => ?_⟩
    · rcases before with (before | higher) | here
      · exact Or.inl before
      · exact Or.inr (among handle higher)
      · exact Or.inr (own handle here)
    · unfold slotsPast at member
      rw [if_pos set] at member
      rcases List.mem_append.mp member with higher | here
      · have low := least handle
        rw [cleared handle higher] at low
        exact UInt64.toNat_inj.mp (Nat.le_zero.mp low)
      · exact freed handle here
  · have own : ∀ handle ∈ slotsFrom k 0 1, handle ∈ slotsPast k (watermark k) :=
      fun handle member => by
        unfold slotsPast
        rw [if_neg set]
        exact List.mem_append_right _ member
    rw [if_neg set, if_neg set, List.append_nil]
    have wider : Stands traits watermark order w
        (fun handle => seen handle ∨ handle ∈ slotsPast k (watermark k)) _ _ :=
      above.weaken fun handle before => before.imp id (among handle)
    have inPast : ∀ handle ∈ slotsPast k (watermark k),
        handle ∈ slotsAbove k (watermark k) ∨ handle ∈ slotsFrom k 0 1 := fun handle member => by
      unfold slotsPast at member
      rw [if_neg set] at member
      exact List.mem_append.mp member
    dsimp only
    -- The first slab is cleared without coming by its slots.
    split
    · rename_i absent
      refine ⟨wider, fun handle member => ?_⟩
      rcases inPast handle member with higher | here
      · exact cleared handle higher
      · exact refs_of_absent absent here
    · rename_i slab stored
      refine ⟨wider.clearedFrom stored fun handle member => Or.inr (own handle member),
        fun handle member => ?_⟩
      have after := clearedFrom_eq 1 (if slab.inUse 0 = 0 then 0 else 1) stored handle
      by_cases here : handle ∈ slotsFrom k 0 1
      · exact after.1 here
      · exact (after.2.1 here).trans (cleared handle ((inPast handle member).resolve_right here))

theorem Stands.rollbacks (depth : Nat) (before after : List K) (whole : order = before ++ after)
    (stands : Stands traits watermark order w
      (fun handle => handle ∈ before.flatMap fun k => slotsPast k (watermark k)) done v)
    (cleared : ∀ handle ∈ before.flatMap fun k => slotsPast k (watermark k), v.refs handle = 0) :
    Stands traits watermark order w (fun handle => handle ∈ discarded watermark order)
      ((after.flatMap fun k => slotsVisited k (watermark k)).foldl (turn traits w) done)
      (v.rollbackAll traits depth watermark after) := by
  induction after generalizing before done v with
  | nil =>
    refine stands.weaken fun handle seen => ?_
    unfold discarded
    rwa [whole, List.append_nil]
  | cons k after ih =>
    have listed : k ∈ order := by
      rw [whole]
      exact List.mem_append_right _ List.mem_cons_self
    have new : k ∉ before := by
      have distinct := orderly.distinct
      rw [whole, List.nodup_append] at distinct
      exact fun early => distinct.2.2 k early k List.mem_cons_self rfl
    obtain ⟨next, freed⟩ := stands.rollback orderly depth
      (fun handle member => by
        obtain ⟨other, early, past⟩ := List.mem_flatMap.mp member
        refine List.mem_flatMap.mpr ⟨other, ?_, past⟩
        rw [whole]
        exact List.mem_append_left _ early)
      (fun handle member => by
        refine ⟨fun early => ?_, List.mem_flatMap.mpr ⟨k, listed, member⟩⟩
        -- The slots of other allocators are of other kinds.
        obtain ⟨other, among, past⟩ := List.mem_flatMap.mp early
        have same := ((mem_slotsPast (orderly.inside k)).mp member).1.symm.trans
          ((mem_slotsPast (orderly.inside other)).mp past).1
        exact new (same ▸ among))
      (fun handle member other among => by
        obtain ⟨rfl, _, _⟩ := (mem_slotsPast (orderly.inside k)).mp member
        unfold reassigned at among
        cases found : w.item handle with
        | none =>
          rw [found] at among
          exact absurd among List.not_mem_nil
        | some item =>
          rw [found] at among
          have early := orderly.earlier before handle.kind after whole item other among
          by_cases null : other.slot = ⟨0, 0⟩
          · exact Or.inl null
          · by_cases past : Allocator.Past (watermark other.kind) other.slot
            · refine Or.inr (Or.inr ?_)
              by_cases range : other.slot.InRange
              · exact cleared other (List.mem_flatMap.mpr
                  ⟨other.kind, early, (mem_slotsPast (orderly.inside _)).mpr ⟨rfl, range, past⟩⟩)
              · have outside : ¬(other.slot.first < numSlabs ∧ other.slot.second < slabSize) := range
                simp [Arenas.refs, Allocator.refs, Allocator.slabOf, outside]
            · exact Or.inr (Or.inl ⟨null, past⟩))
    have joined : (before ++ [k]).flatMap (fun k => slotsPast k (watermark k)) =
        before.flatMap (fun k => slotsPast k (watermark k)) ++ slotsPast k (watermark k) := by
      rw [List.flatMap_append, List.flatMap_singleton]
    have below := rollbackStrict_below traits depth k (watermark k) v
    rw [List.flatMap_cons, List.foldl_append]
    refine ih (before ++ [k]) (by rw [whole, List.append_assoc]; rfl)
      (next.weaken fun handle seen => ?_) fun handle member => ?_
    · rw [joined]
      exact List.mem_append.mpr seen
    · rw [joined] at member
      rcases List.mem_append.mp member with early | here
      · have least := below handle
        rw [cleared handle early] at least
        exact UInt64.toNat_inj.mp (Nat.le_zero.mp least)
      · exact freed handle here

theorem rollbackAll_stands (depth : Nat) (w : Arenas T) :
    Stands traits watermark order w (fun handle => handle ∈ discarded watermark order)
      (w.reset traits watermark order) (w.rollbackAll traits depth watermark order) := by
  have start : Walked traits w (fun handle => handle ∈ ([] : List (Handle K))) [] w :=
    ⟨fun _ _ _ => (countLeft_of_not_mem List.not_mem_nil).symm, fun _ => rfl, fun _ _ => rfl⟩
  exact Stands.rollbacks orderly depth [] order rfl (Or.inl start)
    fun handle member => absurd member List.not_mem_nil

end Walking

section Counting

variable {watermark : K → SlabId} {order : List K}

theorem count_flatMap_append {A : Type*} (f g : A → List (Handle K)) (list : List A) :
    (list.flatMap fun a => f a ++ g a).count handle =
      (list.flatMap f).count handle + (list.flatMap g).count handle := by
  induction list with
  | nil => rfl
  | cons a rest ih =>
    simp only [List.flatMap_cons, List.count_append, ih]
    omega

theorem count_flatMap_filter {A : Type*} (f : A → List (Handle K)) (p : A → Bool) (list : List A) :
    (list.flatMap f).count handle = ((list.filter p).flatMap f).count handle +
      ((list.filter fun a => !p a).flatMap f).count handle := by
  induction list with
  | nil => rfl
  | cons a rest ih =>
    cases chosen : p a <;>
      simp only [List.filter_cons, chosen, Bool.not_true, Bool.not_false, if_true, if_false,
        Bool.false_eq_true, List.flatMap_cons, List.count_append, ih] <;> omega

omit [DecidableEq K] in
theorem flatMap_of_unique {A B : Type*} {f : A → List B} {a : A} {list : List A}
    (distinct : list.Nodup) (member : a ∈ list) (others : ∀ b ∈ list, b ≠ a → f b = []) :
    list.flatMap f = f a := by
  induction list with
  | nil => exact absurd member List.not_mem_nil
  | cons b rest ih =>
    obtain ⟨new, distinct⟩ := List.nodup_cons.mp distinct
    rw [List.flatMap_cons]
    rcases List.mem_cons.mp member with rfl | later
    · rw [List.flatMap_eq_nil_iff.mpr fun c among =>
        others c (List.mem_cons_of_mem _ among) fun same => new (same ▸ among), List.append_nil]
    · rw [others b List.mem_cons_self fun same => new (same ▸ later), List.nil_append]
      exact ih distinct later fun c among => others c (List.mem_cons_of_mem _ among)

theorem turns_sublist (traits : HandleTraits K T) (w : Arenas T) (slots done : List (Handle K)) :
    ∃ chosen, slots.foldl (turn traits w) done = done ++ chosen ∧ chosen.Sublist slots := by
  induction slots generalizing done with
  | nil => exact ⟨[], (List.append_nil done).symm, List.Sublist.refl _⟩
  | cons handle rest ih =>
    rw [List.foldl_cons, turn]
    split
    · obtain ⟨chosen, equal, sub⟩ := ih done
      exact ⟨chosen, equal, sub.cons handle⟩
    · obtain ⟨chosen, equal, sub⟩ := ih (done ++ [handle])
      refine ⟨handle :: chosen, ?_, sub.cons_cons handle⟩
      rw [equal, List.append_assoc]
      rfl

theorem refs_of_turn (w : Arenas T) (slots done : List (Handle K))
    (held : ∀ handle ∈ done, w.refs handle ≠ 0) :
    ∀ handle ∈ slots.foldl (turn traits w) done, w.refs handle ≠ 0 := by
  induction slots generalizing done with
  | nil => exact held
  | cons handle rest ih =>
    refine ih _ fun other member => ?_
    unfold turn at member
    split at member
    · exact held other member
    · rename_i left
      rcases List.mem_append.mp member with early | here
      · exact held other early
      · rw [List.mem_singleton.mp here]
        intro free
        apply left
        unfold countLeft
        rw [free]
        split
        · rfl
        · exact Nat.zero_sub _

variable (orderly : Orderly traits watermark order)

omit [DecidableEq K] in
theorem first_lt_of_above {k : K} {mark : SlabId} (member : handle ∈ slotsAbove k mark) :
    mark.first < handle.slot.first := by
  obtain ⟨index, within, here⟩ := List.mem_flatMap.mp member
  rw [List.range_eq_range', List.drop_range', List.mem_range'_1] at within
  have same := (mem_slotsFrom.mp here).2.1
  omega

omit [DecidableEq K] in
theorem nodup_slotsPast (k : K) (mark : SlabId) : (slotsPast k mark).Nodup := by
  have above : (slotsAbove k mark).Nodup := by
    refine List.nodup_flatMap.mpr ⟨fun index _ => nodup_slotsFrom k index 0, ?_⟩
    refine (List.nodup_range.sublist (List.drop_sublist _ _)).imp fun different => ?_
    intro handle here there
    exact different ((mem_slotsFrom.mp here).2.1.symm.trans (mem_slotsFrom.mp there).2.1)
  unfold slotsPast
  refine List.nodup_append.mpr ⟨above, ?_, fun handle higher other own same => ?_⟩
  · split <;> exact nodup_slotsFrom _ _ _
  · -- The slabs past the watermark's own have higher indices.
    have later := first_lt_of_above higher
    rw [same] at later
    split at own
    · exact absurd (mem_slotsFrom.mp own).2.1 (by omega)
    · exact absurd (mem_slotsFrom.mp own).2.1 (by omega)

include orderly

omit [DecidableEq K] in
theorem nodup_discarded : (discarded watermark order).Nodup := by
  refine List.nodup_flatMap.mpr ⟨fun k _ => nodup_slotsPast k (watermark k), ?_⟩
  refine orderly.distinct.imp fun different => ?_
  intro handle here there
  exact different (((mem_slotsPast (orderly.inside _)).mp here).1.symm.trans
    ((mem_slotsPast (orderly.inside _)).mp there).1)

omit [DecidableEq K] orderly in
theorem slotsVisited_sublist (k : K) (mark : SlabId) :
    (slotsVisited k mark).Sublist (slotsPast k mark) := by
  unfold slotsVisited slotsPast
  refine List.Sublist.append (List.Sublist.refl _) ?_
  split
  · exact List.Sublist.refl _
  · exact List.nil_sublist _

omit orderly in
theorem mem_reset (w : Arenas T) (member : handle ∈ w.reset traits watermark order) :
    (∃ k ∈ order, handle ∈ slotsVisited k (watermark k)) ∧ w.refs handle ≠ 0 := by
  obtain ⟨chosen, equal, sub⟩ := turns_sublist traits w
    (order.flatMap fun k => slotsVisited k (watermark k)) []
  have listed : handle ∈ chosen := by
    rw [List.nil_append] at equal
    rw [← equal]
    exact member
  exact ⟨List.mem_flatMap.mp (sub.subset listed),
    refs_of_turn w _ [] (fun _ none => absurd none List.not_mem_nil) handle member⟩

omit orderly in
theorem reset_sublist (w : Arenas T) :
    (w.reset traits watermark order).Sublist (discarded watermark order) := by
  obtain ⟨chosen, equal, sub⟩ := turns_sublist traits w
    (order.flatMap fun k => slotsVisited k (watermark k)) []
  rw [List.nil_append] at equal
  have same : w.reset traits watermark order = chosen := equal
  rw [same]
  exact sub.trans (List.Sublist.flatMap_right order fun k _ =>
    slotsVisited_sublist k (watermark k))

theorem heldBy_discarded (w : Arenas T) (handle : Handle K) :
    w.heldBy traits (discarded watermark order) handle =
      ((w.reset traits watermark order).flatMap (w.held traits)).count handle +
        w.heldBy traits ((discarded watermark order).filter
          (· ∉ w.reset traits watermark order)) handle := by
  have distinct := nodup_discarded orderly
  have sub : (w.reset traits watermark order).Sublist (discarded watermark order) := reset_sublist w
  -- The slots that are reset are those of the discarded slots that are listed as such.
  have chosen : ((discarded watermark order).filter
      (· ∈ w.reset traits watermark order)).Perm (w.reset traits watermark order) := by
    refine (List.perm_ext_iff_of_nodup (distinct.filter _) (distinct.sublist sub)).mpr
      fun other => ?_
    rw [List.mem_filter, decide_eq_true_eq]
    exact ⟨And.right, fun member => ⟨sub.subset member, member⟩⟩
  have held : (w.reset traits watermark order).flatMap (w.references traits) =
      (w.reset traits watermark order).flatMap (w.held traits) := by
    refine List.flatMap_congr fun other member => if_neg ?_
    exact refs_of_turn w _ [] (fun _ none => absurd none List.not_mem_nil) other member
  unfold heldBy
  rw [count_flatMap_filter (w.references traits)
    (fun other => decide (other ∈ w.reset traits watermark order)), ← held,
    (chosen.flatMap_right _).count_eq]
  simp only [decide_not]

/--
After all allocators were rolled back, the slots that were there at the checkpoint have their counts
of then exactly when the references that are not given up and those given up twice balance.
-/
theorem restored_iff_balanced (depth : Nat) {w : Arenas T} {before : Handle K → Nat}
    (retained : Retained traits watermark order before w) :
    Restored watermark before (w.rollbackAll traits depth watermark order) ↔
      Balanced traits watermark order w := by
  have stands := rollbackAll_stands orderly depth w
  have given (handle : Handle K) :
      ((w.reset traits watermark order).flatMap (w.givenUp traits)).count handle =
        ((w.reset traits watermark order).flatMap (w.held traits)).count handle +
          ((w.reset traits watermark order).flatMap (w.reassigned traits)).count handle :=
    count_flatMap_append (w.held traits) (w.reassigned traits) _
  have held (handle : Handle K) :
      w.heldBy traits (discarded watermark order) handle = _ := heldBy_discarded orderly w handle
  constructor
  · intro restored handle kept mortal
    have counted := retained.counted handle kept mortal
    have live := retained.live handle kept mortal
    rcases stands with walked | doomed
    · have left := walked.refs handle kept.1 fun member => orderly.apart handle member kept
      rw [restored handle kept, countLeft, if_neg (by rw [mortal]; decide), given, counted,
        held handle] at left
      rw [held handle] at live
      by_cases gone : before handle = 0
      · -- A slot that was free at the checkpoint is referred to by no discarded slot.
        have none : ((w.reset traits watermark order).flatMap (w.held traits)).count handle +
            w.heldBy traits ((discarded watermark order).filter
              (· ∉ w.reset traits watermark order)) handle = 0 := by
          by_contra some
          exact live some gone
        have twice : ((w.reset traits watermark order).flatMap
            (w.reassigned traits)).count handle = 0 := by
          refine List.count_eq_zero.mpr fun member => ?_
          obtain ⟨other, among, listed⟩ := List.mem_flatMap.mp member
          have also : handle ∈ w.held traits other := by
            unfold reassigned at listed
            unfold Arenas.held
            cases found : w.item other with
            | none =>
              rw [found] at listed
              exact absurd listed List.not_mem_nil
            | some item =>
              rw [found] at listed
              exact orderly.sub other.kind item handle listed
          have positive := List.count_pos_iff.mpr (List.mem_flatMap.mpr ⟨other, among, also⟩)
          omega
        omega
      · omega
    · -- A slot that is lost does not have its count of then.
      obtain ⟨other, kept, mortal, some, free, _⟩ := doomed
      have count := restored other kept
      rw [free] at count
      exact absurd count.symm (retained.live other kept mortal some)
  · intro balanced handle kept
    rcases stands with walked | ⟨other, kept, mortal, some, _, all⟩
    · have left := walked.refs handle kept.1 fun member => orderly.apart handle member kept
      rw [left, countLeft]
      by_cases immortal : w.slotIsStaticImmortal handle = true
      · rw [if_pos immortal]
        exact retained.immortal handle kept immortal
      · have mortal := Bool.eq_false_iff.mpr immortal
        have even := balanced handle kept mortal
        rw [if_neg immortal, given, retained.counted handle kept mortal, held handle]
        omega
    · -- No slot is given up more often than it is referred to, so none is lost.
      have even := balanced other kept mortal
      have live := retained.live other kept mortal some
      rw [given, retained.counted other kept mortal, held other] at all
      omega

end Counting

end Arenas

end AgentC

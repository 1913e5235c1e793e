import AgentC.Alloc.GraphLaws
import AgentC.Listree.Storage

/-! Rolling back the allocators of values, list nodes, tree nodes, references and items together. -/

namespace AgentC.Storage

def rollbackOrder : List ArenaKind :=
  [.treeNode, .listNode, .valueRef, .item, .value]

def rollbackValues (depth : Nat) (watermark : ArenaKind → SlabId) (w : Arenas Node) : Arenas Node :=
  w.rollbackAll nodeTraits depth watermark rollbackOrder

theorem rollbackOrder_orderly {watermark : ArenaKind → SlabId} (inside : ∀ k, (watermark k).InRange) :
    Arenas.Orderly nodeTraits watermark rollbackOrder where
  sub := by
    intro k item other member
    cases k with
    | value => exact member
    | treeNode => exact absurd member List.not_mem_nil
    | listNode => exact absurd member List.not_mem_nil
    | valueRef => exact absurd member List.not_mem_nil
    | item => exact absurd member List.not_mem_nil
  earlier := by
    intro before k after split item other member
    cases k with
    | treeNode => exact absurd member List.not_mem_nil
    | listNode => exact absurd member List.not_mem_nil
    | valueRef => exact absurd member List.not_mem_nil
    | item => exact absurd member List.not_mem_nil
    | value =>
      have first : before = [.treeNode, .listNode, .valueRef, .item] := by
        have same : [ArenaKind.treeNode, .listNode, .valueRef, .item] ++ .value :: [] =
          before ++ .value :: after := split
        exact ((List.append_cons_inj_of_notMem (by decide) List.not_mem_nil).mp same).1.symm
      rw [first]
      rcases List.mem_cons.mp member with rfl | last
      · exact List.mem_cons_of_mem _ List.mem_cons_self
      · rcases List.mem_cons.mp last with rfl | none
        · exact List.mem_cons_self
        · exact absurd none List.not_mem_nil
  distinct := by decide
  inside := inside

/--
Rolling back all allocators gives the slots of the checkpoint their counts of then exactly when, for
each of them, as many references are held by discarded slots that are not reset as are held by
values that are reset, which give them up twice.
-/
theorem rollback_restores_iff (depth : Nat) {watermark : ArenaKind → SlabId}
    (inside : ∀ k, (watermark k).InRange) {w : Arenas Node} {before : Handle ArenaKind → Nat}
    (retained : w.Retained nodeTraits watermark rollbackOrder before) :
    (rollbackValues depth watermark w).Restored watermark before ↔
      w.Balanced nodeTraits watermark rollbackOrder :=
  Arenas.restored_iff_balanced (rollbackOrder_orderly inside) depth retained

def valueOnly : ArenaKind → SlabId
  | .value => ⟨0, 1⟩
  | _ => {}

theorem oneItem_refs {T : Type} {count : UInt64} {item : T} {si : SlabId}
    (holds : (oneItem count item).refs si ≠ 0) : si = ⟨0, 0⟩ ∨ si = ⟨0, 1⟩ := by
  obtain ⟨first, second⟩ := si
  obtain ⟨slab, addressed, held⟩ := Allocator.slab_of_refs holds
  have stored := (Allocator.slabOf_eq_some.mp addressed).2
  simp only [oneItem] at stored
  split at stored
  · rename_i zero
    obtain rfl := Option.some.inj stored
    dsimp only at held zero
    split at held
    · rename_i null
      exact Or.inl (by rw [zero, null])
    · split at held
      · rename_i one
        exact Or.inr (by rw [zero, one])
      · exact absurd rfl held
  · cases stored

theorem valueOnly_inRange (k : ArenaKind) : (valueOnly k).InRange := by
  unfold SlabId.InRange slabSize numSlabs
  cases k <;> decide

theorem oneReference_discarded {handle : Handle ArenaKind}
    (member : handle ∈ Arenas.discarded valueOnly rollbackOrder)
    (holds : oneReference.refs handle ≠ 0) : handle = ⟨.valueRef, ⟨0, 1⟩⟩ := by
  have orderly := rollbackOrder_orderly valueOnly_inRange
  obtain ⟨_, _, past⟩ := orderly.mem_discarded.mp member
  obtain ⟨kind, slot⟩ := handle
  cases kind with
  | valueRef =>
    rcases oneItem_refs holds with null | here
    · exact absurd null past.1
    · exact congrArg _ here
  | value =>
    rcases oneItem_refs holds with null | here
    · exact absurd null past.1
    · -- The value itself is the watermark.
      dsimp only at here
      rw [here] at past
      exact absurd (past.2 (by decide)) (SlabId.not_before_self _)
  | treeNode => exact absurd (Allocator.refs_of_absent rfl) holds
  | listNode => exact absurd (Allocator.refs_of_absent rfl) holds
  | item => exact absurd (Allocator.refs_of_absent rfl) holds

theorem oneReference_references : (Arenas.discarded valueOnly rollbackOrder).flatMap
    (oneReference.references nodeTraits) = [⟨.value, ⟨0, 1⟩⟩] := by
  have orderly := rollbackOrder_orderly valueOnly_inRange
  have member : ⟨.valueRef, ⟨0, 1⟩⟩ ∈ Arenas.discarded valueOnly rollbackOrder := by
    refine orderly.mem_discarded.mpr ⟨by decide, ?_, by decide, fun set => absurd rfl set⟩
    unfold SlabId.InRange slabSize numSlabs
    decide
  refine (Arenas.flatMap_of_unique (Arenas.nodup_discarded orderly) member
    fun other listed different => ?_).trans ?_
  · refine if_pos ?_
    by_contra holds
    exact different (oneReference_discarded listed holds)
  · have addressed : (oneReference .valueRef).slabOf ⟨0, 1⟩ = _ :=
      Allocator.slabOf_eq_some.mpr ⟨(orderly.mem_discarded.mp member).2.1, rfl⟩
    have held : oneReference.refs ⟨.valueRef, ⟨0, 1⟩⟩ = 1 := Allocator.refs_of_slab addressed
    unfold Arenas.references Arenas.held Arenas.item
    rw [held, if_neg (by decide)]
    dsimp only
    rw [addressed]
    rfl

def countsOfValue (handle : Handle ArenaKind) : Nat :=
  if handle = ⟨.value, ⟨0, 1⟩⟩ then 2 else (oneReference.refs handle).toNat

theorem oneReference_mortal (handle : Handle ArenaKind) :
    oneReference.slotIsStaticImmortal handle = false := by
  obtain ⟨kind, slot⟩ := handle
  unfold Arenas.slotIsStaticImmortal Allocator.slotIsStaticImmortal
  by_cases first : slot.first = 0
  · cases kind <;> simp [oneReference, oneItem, first]
  · cases kind <;> simp [oneReference, oneItem, first]

theorem oneReference_retained :
    oneReference.Retained nodeTraits valueOnly rollbackOrder countsOfValue := by
  have value : (oneReference.refs ⟨.value, ⟨0, 1⟩⟩).toNat = 3 := by
    have addressed : (oneReference .value).slabOf ⟨0, 1⟩ = _ :=
      Allocator.slabOf_eq_some.mpr ⟨valueOnly_inRange .value, rfl⟩
    exact congrArg UInt64.toNat (Allocator.refs_of_slab addressed)
  refine ⟨fun handle _ _ => ?_, fun handle _ immortal => ?_, fun handle _ _ held => ?_⟩
  · unfold Arenas.heldBy countsOfValue
    rw [oneReference_references]
    by_cases here : handle = ⟨.value, ⟨0, 1⟩⟩
    · rw [if_pos here, here, value, List.count_singleton_self]
    · rw [if_neg here, List.count_singleton, if_neg fun same => here (beq_iff_eq.mp same).symm]
      rfl
  · rw [oneReference_mortal] at immortal
    cases immortal
  · unfold Arenas.heldBy at held
    rw [oneReference_references] at held
    have here := List.mem_singleton.mp (List.count_pos_iff.mp (Nat.pos_of_ne_zero held))
    unfold countsOfValue
    rw [if_pos here]
    decide

/-- At this state both sides can be read off. -/
theorem rollback_restores_iff_oneReference :
    (rollbackValues 0 valueOnly oneReference).Restored valueOnly countsOfValue ↔
      oneReference.Balanced nodeTraits valueOnly rollbackOrder :=
  rollback_restores_iff 0 valueOnly_inRange oneReference_retained

/-- The reference lies in the first slab, which is cleared without giving it up. -/
theorem rollback_restores_fails :
    oneReference.Retained nodeTraits valueOnly rollbackOrder countsOfValue ∧
      ¬(rollbackValues 0 valueOnly oneReference).Restored valueOnly countsOfValue := by
  have orderly := rollbackOrder_orderly valueOnly_inRange
  refine ⟨oneReference_retained, fun restored => ?_⟩
  have balanced := (Arenas.restored_iff_balanced orderly 0 oneReference_retained).mp restored
  have none : oneReference.reset nodeTraits valueOnly rollbackOrder = [] := by
    refine List.eq_nil_iff_forall_not_mem.mpr fun handle member => ?_
    have listed := (Arenas.reset_sublist _).subset member
    obtain ⟨⟨k, _, visited⟩, holds⟩ := Arenas.mem_reset _ member
    -- Only the reference is held, and its slab is not come by.
    rw [oneReference_discarded listed holds] at visited
    have kind := ((Arenas.mem_slotsPast (valueOnly_inRange k)).mp
      (Arenas.mem_slotsPast_of_visited visited)).1
    rw [← kind] at visited
    unfold Arenas.slotsVisited at visited
    rw [if_neg (by decide), List.append_nil] at visited
    exact absurd (Arenas.first_lt_of_above visited) (Nat.lt_irrefl 0)
  have equal := balanced ⟨.value, ⟨0, 1⟩⟩ ⟨by decide, fun past =>
    absurd (past.2 (by decide)) (SlabId.not_before_self _)⟩ (oneReference_mortal _)
  rw [none] at equal
  unfold Arenas.heldBy at equal
  simp only [List.not_mem_nil, not_false_eq_true, decide_true, List.filter_true,
    oneReference_references] at equal
  exact absurd equal (by decide)

end AgentC.Storage

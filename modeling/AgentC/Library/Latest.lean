import Mathlib

/-! A bounded list of the latest entries under rising keys, with one entry for each key. -/

namespace AgentC

universe u v

variable {α : Type u} {κ : Type v} [LinearOrder κ] (key : α → κ)

def dropOldest (cap : Nat) (kept : List α) : List α :=
  kept.drop (kept.length - cap)

/-- An entry replaces the last one if that has its key, and otherwise is added behind it. -/
def putLatest (cap : Nat) (kept : List α) (new : α) : List α :=
  match kept.getLast? with
  | some last =>
    if key last = key new then kept.dropLast ++ [new] else dropOldest cap (kept ++ [new])
  | none => dropOldest cap (kept ++ [new])

/-- What is kept of the entries that were put in: the last one of each of the latest keys. -/
structure KeepsLatest (cap : Nat) (kept puts : List α) : Prop where
  rising : kept.Pairwise (key · < key ·)
  bounded : kept.length ≤ cap
  lastPut : ∀ entry ∈ kept, (puts.filter (key · = key entry)).getLast? = some entry
  latest : ∀ entry ∈ puts, (∃ other ∈ kept, key other = key entry) ∨
    kept.length = cap ∧ ∀ other ∈ kept, key entry < key other

variable {key} {cap : Nat} {kept puts : List α} {new : α}

theorem KeepsLatest.nil : KeepsLatest key cap [] [] where
  rising := .nil
  bounded := Nat.zero_le _
  lastPut := fun _ member => absurd member List.not_mem_nil
  latest := fun _ member => absurd member List.not_mem_nil

theorem dropOldest_append (room : 0 < cap) :
    dropOldest cap (kept ++ [new]) = kept.drop (kept.length + 1 - cap) ++ [new] := by
  unfold dropOldest
  rw [List.length_append, List.length_singleton, List.drop_append_of_le_length (by omega)]

theorem dropOldest_dropOldest_append :
    dropOldest cap (dropOldest cap kept ++ [new]) = dropOldest cap (kept ++ [new]) := by
  unfold dropOldest
  rw [List.length_append, List.length_append, List.length_singleton, List.length_drop]
  by_cases few : kept.length ≤ cap
  · rw [Nat.sub_eq_zero_of_le few, List.drop_zero, Nat.sub_zero]
  · -- As many are kept as fit, so one more of them goes.
    rw [← List.drop_append_of_le_length (Nat.sub_le _ _), List.drop_drop]
    congr 1
    omega

theorem dropOldest_append_of_le {later : List α} (fits : later.length ≤ cap) :
    dropOldest cap (kept ++ later) = kept.drop (kept.length + later.length - cap) ++ later := by
  unfold dropOldest
  rw [List.length_append, List.drop_append_of_le_length (by omega)]

theorem putLatest_eq (room : 0 < cap) :
    ∃ front, putLatest key cap kept new = front ++ [new] ∧ ∀ entry ∈ front, entry ∈ kept := by
  unfold putLatest
  split
  · split
    · exact ⟨_, rfl, fun entry member => List.dropLast_subset _ member⟩
    · exact ⟨_, dropOldest_append room, fun entry member => List.mem_of_mem_drop member⟩
  · exact ⟨_, dropOldest_append room, fun entry member => List.mem_of_mem_drop member⟩

theorem getLast?_filter_self :
    ((puts ++ [new]).filter (key · = key new)).getLast? = some new := by
  simp [List.filter_append]

theorem getLast?_filter_other {entry : α} (other : key new ≠ key entry) :
    ((puts ++ [new]).filter (key · = key entry)).getLast? =
      (puts.filter (key · = key entry)).getLast? := by
  simp [List.filter_append, other]

theorem KeepsLatest.mem (keeps : KeepsLatest key cap kept puts) {entry : α}
    (member : entry ∈ kept) : entry ∈ puts :=
  List.mem_of_mem_filter (List.mem_of_getLast? (keeps.lastPut entry member))

theorem KeepsLatest.le_last (keeps : KeepsLatest key cap kept puts) {entry last : α}
    (member : entry ∈ kept) (final : kept.getLast? = some last) : key entry ≤ key last := by
  obtain ⟨front, rfl⟩ := List.getLast?_eq_some_iff.mp final
  rcases List.mem_append.mp member with before | same
  · exact le_of_lt ((List.pairwise_append.mp keeps.rising).2.2 entry before last
      List.mem_cons_self)
  · exact le_of_eq (congrArg key (List.mem_singleton.mp same))

/-- An entry with the last key takes the last one's place. -/
theorem KeepsLatest.replace {front : List α} {last : α}
    (keeps : KeepsLatest key cap (front ++ [last]) puts) (same : key last = key new) :
    KeepsLatest key cap (front ++ [new]) (puts ++ [new]) := by
  obtain ⟨risingFront, -, below⟩ := List.pairwise_append.mp keeps.rising
  have before : ∀ entry ∈ front, key entry < key new := fun entry member =>
    same ▸ below entry member last List.mem_cons_self
  refine ⟨?_, ?_, ?_, ?_⟩
  · refine List.pairwise_append.mpr ⟨risingFront, List.pairwise_singleton .., ?_⟩
    intro entry member other single
    rw [List.mem_singleton.mp single]
    exact before entry member
  · simpa using keeps.bounded
  · intro entry member
    rcases List.mem_append.mp member with there | single
    · rw [getLast?_filter_other (ne_of_gt (before entry there))]
      exact keeps.lastPut entry (List.mem_append_left _ there)
    · rw [List.mem_singleton.mp single]
      exact getLast?_filter_self
  · intro entry member
    rcases List.mem_append.mp member with put | single
    · -- Where the last entry stood for this key, the new one does now.
      rcases keeps.latest entry put with ⟨other, there, equal⟩ | ⟨full, above⟩
      · rcases List.mem_append.mp there with front | final
        · exact Or.inl ⟨other, List.mem_append_left _ front, equal⟩
        · rw [List.mem_singleton.mp final, same] at equal
          exact Or.inl ⟨new, List.mem_append_right _ List.mem_cons_self, equal⟩
      · refine Or.inr ⟨by simpa using full, fun other there => ?_⟩
        rcases List.mem_append.mp there with front | final
        · exact above other (List.mem_append_left _ front)
        · rw [List.mem_singleton.mp final, ← same]
          exact above last (List.mem_append_right _ List.mem_cons_self)
    · rw [List.mem_singleton.mp single]
      exact Or.inl ⟨new, List.mem_append_right _ List.mem_cons_self, rfl⟩

/-- An entry with a higher key than all others is added, and the oldest one goes if there is no room. -/
theorem KeepsLatest.add (keeps : KeepsLatest key cap kept puts) (room : 0 < cap)
    (above : ∀ entry ∈ kept, key entry < key new) :
    KeepsLatest key cap (dropOldest cap (kept ++ [new])) (puts ++ [new]) := by
  have bounded := keeps.bounded
  rw [dropOldest_append room]
  have kept_ : ∀ entry ∈ kept.drop (kept.length + 1 - cap), entry ∈ kept :=
    fun entry member => List.mem_of_mem_drop member
  refine ⟨?_, ?_, ?_, ?_⟩
  · refine List.pairwise_append.mpr ⟨keeps.rising.drop, List.pairwise_singleton .., ?_⟩
    intro entry member other single
    rw [List.mem_singleton.mp single]
    exact above entry (kept_ entry member)
  · rw [List.length_append, List.length_drop, List.length_singleton]
    omega
  · intro entry member
    rcases List.mem_append.mp member with there | single
    · rw [getLast?_filter_other (ne_of_gt (above entry (kept_ entry there)))]
      exact keeps.lastPut entry (kept_ entry there)
    · rw [List.mem_singleton.mp single]
      exact getLast?_filter_self
  · intro entry member
    rcases List.mem_append.mp member with put | single
    · -- An entry that is not kept any more is below all the others, and they are as many as fit.
      have gone : (∀ other ∈ kept.drop (kept.length + 1 - cap), key entry < key other) →
          key entry < key new → kept.length = cap →
          (kept.drop (kept.length + 1 - cap) ++ [new]).length = cap ∧
            ∀ other ∈ kept.drop (kept.length + 1 - cap) ++ [new], key entry < key other := by
        intro older newer full
        refine ⟨?_, fun other there => ?_⟩
        · rw [List.length_append, List.length_drop, List.length_singleton]
          omega
        · rcases List.mem_append.mp there with stays | final
          · exact older other stays
          · rw [List.mem_singleton.mp final]
            exact newer
      rcases keeps.latest entry put with ⟨other, there, equal⟩ | ⟨full, lower⟩
      · rw [← List.take_append_drop (kept.length + 1 - cap) kept] at there
        rcases List.mem_append.mp there with dropped | stays
        · have full : kept.length = cap := by
            by_contra less
            rw [show kept.length + 1 - cap = 0 by omega, List.take_zero] at dropped
            exact List.not_mem_nil dropped
          refine Or.inr (gone (fun later stays => ?_) ?_ full)
          · rw [← equal]
            have rising := keeps.rising
            rw [← List.take_append_drop (kept.length + 1 - cap) kept] at rising
            exact (List.pairwise_append.mp rising).2.2 other dropped later stays
          · rw [← equal]
            exact above other (List.mem_of_mem_take dropped)
        · exact Or.inl ⟨other, List.mem_append_left _ stays, equal⟩
      · refine Or.inr (gone (fun later stays => lower later (kept_ later stays)) ?_ full)
        -- The list is as long as the bound, so it has an entry between the two.
        obtain ⟨other, there⟩ := List.exists_mem_of_length_pos (full ▸ room)
        exact lt_trans (lower other there) (above other there)
    · rw [List.mem_singleton.mp single]
      exact Or.inl ⟨new, List.mem_append_right _ List.mem_cons_self, rfl⟩

/-- The latest entries stay right exactly when no entry is put in behind a later one. -/
theorem KeepsLatest.put_iff (keeps : KeepsLatest key cap kept puts) (room : 0 < cap) :
    KeepsLatest key cap (putLatest key cap kept new) (puts ++ [new]) ↔
      ∀ last ∈ kept.getLast?, key last ≤ key new := by
  constructor
  · intro after last final
    by_contra late
    have before : key new < key last := lt_of_not_ge late
    have put := keeps.mem (List.mem_of_getLast? final)
    obtain ⟨front, eq, -⟩ : ∃ front, putLatest key cap kept new = front ++ [new] ∧ _ :=
      putLatest_eq room
    rw [eq] at after
    have lower : ∀ other ∈ front ++ [new], key other ≤ key new := fun other there =>
      after.le_last there List.getLast?_concat
    -- The later entry has been put in, and nothing behind the new one stands for it.
    rcases after.latest last (List.mem_append_left _ put) with ⟨other, there, equal⟩ | ⟨-, above⟩
    · exact absurd (equal ▸ lower other there) (not_le_of_gt before)
    · exact lt_asymm before (above new (List.mem_append_right _ List.mem_cons_self))
  · intro ordered
    unfold putLatest
    split
    · rename_i last final
      obtain ⟨front, rfl⟩ := List.getLast?_eq_some_iff.mp final
      split
      · rename_i same
        rw [List.dropLast_concat]
        exact keeps.replace same
      · rename_i differs
        have higher := lt_of_le_of_ne (ordered last final) differs
        exact keeps.add room fun entry member => lt_of_le_of_lt (keeps.le_last member final) higher
    · rename_i none_
      rw [List.getLast?_eq_none_iff.mp none_] at keeps ⊢
      exact keeps.add room fun entry member => absurd member List.not_mem_nil

end AgentC

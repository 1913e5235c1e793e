import Mathlib.Data.List.Basic

/-! Lists read back in equal pieces, and fallible maps over lists. -/

namespace AgentC

universe u v w

variable {α : Type u} {β : Type v} {width : Nat}

theorem drop_take_flatMap {f : α → List β} (equal : ∀ x, (f x).length = width) :
    ∀ (items : List α) (position : Nat) (inside : position < items.length),
      ((items.flatMap f).drop (position * width)).take width = f (items.get ⟨position, inside⟩) := by
  -- Dropping one whole piece moves to the next position.
  intro items
  induction items with
  | nil => intro position inside; simp at inside
  | cons item rest ih =>
    intro position inside
    cases position with
    | zero =>
      -- The first piece is a prefix of the concatenation.
      rw [Nat.zero_mul, List.drop_zero, List.flatMap_cons]
      rw [List.take_append_of_le_length (Nat.le_of_eq (equal item).symm), ← equal item, List.take_length]
      rfl
    | succ position =>
      have below : position < rest.length := by simpa using inside
      rw [List.flatMap_cons, Nat.succ_mul, Nat.add_comm, ← List.drop_drop]
      rw [← equal item, List.drop_left, equal item]
      exact ih position below

theorem length_flatMap_const {f : α → List β} (equal : ∀ x, (f x).length = width) (items : List α) :
    (items.flatMap f).length = items.length * width := by
  induction items with
  | nil => simp
  | cons item rest ih => rw [List.flatMap_cons, List.length_append, ih, equal, List.length_cons,
      Nat.succ_mul, Nat.add_comm]

theorem getElem?_flatMap_const {f : α → List β} (equal : ∀ x, (f x).length = width) (items : List α)
    {position offset : Nat} (inside : position < items.length) (small : offset < width) :
    (items.flatMap f)[position * width + offset]? = (f items[position])[offset]? := by
  have piece := drop_take_flatMap equal items position inside
  rw [List.get_eq_getElem] at piece
  rw [← piece, List.getElem?_take_of_lt small, List.getElem?_drop]

section FallibleMaps

variable {α : Type u} {β : Type v}

variable {f : α → Option β}

theorem mapM_cons_eq_some {x : α} {rest : List α} {ys : List β} :
    (x :: rest).mapM f = some ys ↔
      ∃ y tail, f x = some y ∧ rest.mapM f = some tail ∧ ys = y :: tail := by
  rw [List.mapM_cons]
  -- Each of the two steps may fail on its own.
  cases head : f x with
  | none => simp
  | some y =>
    cases tail : rest.mapM f with
    | none => simp
    | some zs =>
      simp only [Option.pure_def, Option.bind_eq_bind, Option.bind_some, Option.some.injEq]
      constructor
      · intro same
        exact ⟨y, zs, rfl, rfl, same.symm⟩
      · rintro ⟨y', zs', rfl, rfl, rfl⟩
        rfl

theorem exists_mapM_forall₂ {γ : Type w} {g : α → γ} {related : β → γ → Prop} (items : List α)
    (each : ∀ x ∈ items, ∃ y, f x = some y ∧ related y (g x)) :
    ∃ ys, items.mapM f = some ys ∧ List.Forall₂ related ys (items.map g) := by
  induction items with
  | nil => exact ⟨[], rfl, .nil⟩
  | cons x rest ih =>
    obtain ⟨y, head, holds⟩ := each x List.mem_cons_self
    obtain ⟨tail, mapped, all⟩ := ih fun other member => each other (List.mem_cons_of_mem x member)
    exact ⟨y :: tail, mapM_cons_eq_some.mpr ⟨y, tail, head, mapped, rfl⟩, .cons holds all⟩

end FallibleMaps

end AgentC

import Mathlib.Data.List.Forall2
import Mathlib.Data.Option.Basic

/-! Partial results and lists that are related element by element. -/

namespace AgentC

universe u v w x

variable {α : Type u} {β : Type v} {γ : Type w} {δ : Type x}

variable {a : Option α} {b : Option β}

theorem rel_bind {q : γ → δ → Prop} {f : α → Option γ} {g : β → Option δ} (first : Option.Rel r a b)
    (rest : ∀ a b, r a b → Option.Rel q (f a) (g b)) : Option.Rel q (a.bind f) (b.bind g) := by
  cases first with
  | some related => exact rest _ _ related
  | none => exact .none

theorem rel_map {q : γ → δ → Prop} {f : α → γ} {g : β → δ} (first : Option.Rel r a b)
    (rest : ∀ a b, r a b → q (f a) (g b)) :
    Option.Rel q (a.map f) (b.map g) := by
  cases first with
  | some related => exact .some (rest _ _ related)
  | none => exact .none

variable {r : α → β → Prop} {left : List α} {right : List β}

theorem rel_getElem? (each : List.Forall₂ r left right) (i : Nat) :
    Option.Rel r left[i]? right[i]? := by
  induction each generalizing i with
  | nil => exact .none
  | cons first _ ih =>
    cases i with
    | zero => exact .some first
    | succ i => exact ih i

theorem forall₂_set (each : List.Forall₂ r left right) {a : α} {b : β} (related : r a b) (i : Nat) :
    List.Forall₂ r (left.set i a) (right.set i b) := by
  induction each generalizing i with
  | nil => exact .nil
  | cons first rest ih =>
    cases i with
    | zero => exact .cons related rest
    | succ i => exact .cons first (ih i)

theorem mapM_eq_some {f : α → Option β} : ∀ {list : List α} {out : List β},
    list.mapM f = some out ↔ list.map f = out.map some
  | [], out => by cases out <;> simp
  | a :: rest, out => by
    rw [List.mapM_cons, List.map_cons]
    cases first : f a with
    | none => cases out <;> simp
    | some b =>
      cases others : rest.mapM f with
      | none =>
        cases out with
        | nil => simp
        | cons c out =>
          have missing : ¬rest.mapM f = some out → _ := (not_congr mapM_eq_some).mp
          simp only [others] at missing
          simpa using fun _ => missing (by simp)
      | some bs =>
        cases out with
        | nil => simp
        | cons c out =>
          have each : rest.mapM f = some out ↔ _ := mapM_eq_some
          rw [others] at each
          simp [← each]

theorem mapM_column {f : α → β → Option γ} {columns : List β} {i : Nat} {x : β}
    (column : columns[i]? = some x) : ∀ {list : List α} {rows : List (List γ)},
    (list.mapM fun a => columns.mapM (f a)) = some rows →
      rows.map (·[i]?) = list.map fun a => f a x := by
  intro list
  induction list with
  | nil =>
    intro rows computed
    cases computed
    rfl
  | cons a rest ih =>
    intro rows computed
    have each := mapM_eq_some.mp computed
    cases rows with
    | nil => cases each
    | cons row rows =>
      obtain ⟨first, others⟩ := List.cons.inj each
      -- The entry in this row is what was computed for the column.
      have entries := congrArg (·[i]?) (mapM_eq_some.mp first)
      simp only [List.getElem?_map, column, Option.map_some] at entries
      have entry : row[i]? = f a x := by
        cases found : row[i]? with
        | none => simp [found] at entries
        | some c => simpa [found] using entries.symm
      rw [List.map_cons, List.map_cons, entry, ih (mapM_eq_some.mpr others)]

end AgentC

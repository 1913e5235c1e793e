import Mathlib.Data.Option.Basic

/-! Results that are missing until a bound on the computation is large enough. -/

namespace AgentC

universe u v

variable {α : Type u} {β : Type v}

def Approximates (x y : Option α) : Prop :=
  ∀ r, x = some r → y = some r

namespace Approximates

theorem refl (x : Option α) : Approximates x x :=
  fun _ found => found

theorem none (y : Option α) : Approximates Option.none y :=
  fun _ found => by cases found

theorem trans {x y z : Option α} (first : Approximates x y) (second : Approximates y z) :
    Approximates x z :=
  fun r found => second r (first r found)

theorem bind {x y : Option α} {f g : α → Option β} (first : Approximates x y)
    (rest : ∀ a, Approximates (f a) (g a)) : Approximates (x.bind f) (y.bind g) := by
  intro r found
  obtain ⟨a, here, there⟩ := Option.bind_eq_some_iff.mp found
  exact Option.bind_eq_some_iff.mpr ⟨a, first a here, rest a r there⟩

theorem map {x y : Option α} (f : α → β) (first : Approximates x y) :
    Approximates (x.map f) (y.map f) := by
  intro r found
  obtain ⟨a, here, rfl⟩ := Option.map_eq_some_iff.mp found
  exact Option.map_eq_some_iff.mpr ⟨a, first a here, rfl⟩

theorem mapM {f g : α → Option β} (each : ∀ a, Approximates (f a) (g a)) :
    ∀ list : List α, Approximates (list.mapM f) (list.mapM g)
  | [] => refl _
  | a :: rest => by
    rw [List.mapM_cons, List.mapM_cons]
    exact bind (each a) fun b => bind (mapM each rest) fun bs => refl _

theorem of_succ {f : Nat → Option α} (step : ∀ n, Approximates (f n) (f (n + 1))) {n m : Nat}
    (le : n ≤ m) : Approximates (f n) (f m) := by
  induction le with
  | refl => exact refl _
  | step _ ih => exact ih.trans (step _)

theorem unique {f : Nat → Option α} (step : ∀ n, Approximates (f n) (f (n + 1))) {n m : Nat}
    {a b : α} (first : f n = some a) (second : f m = some b) : a = b := by
  -- Both are the result at the larger of the two bounds.
  have here := of_succ step (Nat.le_max_left n m) a first
  have there := of_succ step (Nat.le_max_right n m) b second
  exact Option.some.inj (here.symm.trans there)

end Approximates

section Settles

variable {ε α β : Type u} {run run' : Nat → ExceptT ε Option α} {n m : Nat} {good good' : α → Prop}

/-- From a bound on the result is always the same, and what is returned is good. -/
def Settles (run : Nat → ExceptT ε Option α) (n : Nat) (good : α → Prop) : Prop :=
  ∃ r, (∀ m, n ≤ m → run m = ExceptT.mk (some r)) ∧ ∀ a, r = .ok a → good a

namespace Settles

theorem pure {a : α} (holds : good a) : Settles (fun _ => (Pure.pure a : ExceptT ε Option α)) n good :=
  ⟨.ok a, fun _ _ => rfl, fun _ same => Except.ok.inj same ▸ holds⟩

theorem throw (e : ε) : Settles (fun _ => (MonadExcept.throw e : ExceptT ε Option α)) n good :=
  ⟨.error e, fun _ _ => rfl, fun _ same => by cases same⟩

theorem mono (settles : Settles run n good) (le : n ≤ m) (weaker : ∀ a, good a → good' a) :
    Settles run m good' := by
  obtain ⟨r, same, holds⟩ := settles
  exact ⟨r, fun k enough => same k (Nat.le_trans le enough), fun a here => weaker a (holds a here)⟩

theorem bind {second : Nat → α → ExceptT ε Option β} {good' : β → Prop}
    (first : Settles run n good) (rest : ∀ a, good a → Settles (second · a) n good') :
    Settles (fun m => run m >>= second m) n good' := by
  obtain ⟨r, same, holds⟩ := first
  cases r with
  | error e =>
    refine ⟨.error e, fun m enough => ?_, fun _ here => by cases here⟩
    dsimp only
    rw [same m enough]
    rfl
  | ok a =>
    obtain ⟨r', same', holds'⟩ := rest a (holds a rfl)
    refine ⟨r', fun m enough => ?_, holds'⟩
    dsimp only
    rw [same m enough]
    exact same' m enough

/-- One unit of the bound is used up by a call. -/
theorem step (settles : Settles run n good) (calls : ∀ m, run' (m + 1) = run m) :
    Settles run' (n + 1) good := by
  obtain ⟨r, same, holds⟩ := settles
  refine ⟨r, fun m enough => ?_, holds⟩
  obtain ⟨m, rfl⟩ := Nat.exists_eq_add_of_le' (Nat.le_of_add_left_le enough)
  rw [calls, same m (by omega)]

/-- A call that returns without another one. -/
theorem now {a : α} (positive : 0 < n) (calls : ∀ m, run' (m + 1) = Pure.pure a) (holds : good a) :
    Settles run' n good :=
  (step (n := 0) (pure holds) calls).mono positive fun _ => id

end Settles

end Settles

end AgentC

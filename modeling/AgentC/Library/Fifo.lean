import Mathlib.Data.List.Induction

/-! A queue of bounded length, and the histories of attempts that such a queue allows. -/

namespace AgentC

universe u

/-- What one attempt to put something in, or to take something out, came to. -/
inductive Attempt (α : Type u) where
  | pushed (entry : α)
  | refused (entry : α)
  | popped (entry : α)
  | empty
  deriving DecidableEq, Repr

namespace Attempt

variable {α : Type u}

def pushes (past : List (Attempt α)) : List α :=
  past.flatMap fun
    | .pushed entry => [entry]
    | _ => []

def pops (past : List (Attempt α)) : List α :=
  past.flatMap fun
    | .popped entry => [entry]
    | _ => []

@[simp] theorem pushes_append (front back : List (Attempt α)) :
    pushes (front ++ back) = pushes front ++ pushes back := by
  simp [pushes]

@[simp] theorem pops_append (front back : List (Attempt α)) :
    pops (front ++ back) = pops front ++ pops back := by
  simp [pops]

end Attempt

namespace Fifo

variable {α : Type u}

/-- One attempt on a queue for at most `capacity` entries, the oldest entry first. -/
inductive Step (capacity : Nat) : List α → Attempt α → List α → Prop where
  | pushed {queue : List α} {entry : α} (room : queue.length < capacity) :
      Step capacity queue (.pushed entry) (queue ++ [entry])
  | refused {queue : List α} {entry : α} (full : queue.length = capacity) :
      Step capacity queue (.refused entry) queue
  | popped {queue : List α} {entry : α} : Step capacity (entry :: queue) (.popped entry) queue
  | empty : Step capacity [] .empty []

/-- A history that a queue allows, with what is in the queue at its end. -/
inductive Follows (capacity : Nat) : List (Attempt α) → List α → Prop where
  | nil : Follows capacity [] []
  | next {past : List (Attempt α)} {queue after : List α} {attempt : Attempt α}
      (before : Follows capacity past queue) (step : Step capacity queue attempt after) :
      Follows capacity (past ++ [attempt]) after

variable {capacity : Nat} {past : List (Attempt α)} {queue : List α}

theorem Follows.length_le (follows : Follows capacity past queue) : queue.length ≤ capacity := by
  induction follows with
  | nil => exact Nat.zero_le capacity
  | next _ step ih =>
    cases step with
    | pushed room =>
      rw [List.length_append, List.length_singleton]
      omega
    | refused full => omega
    | popped =>
      rw [List.length_cons] at ih
      omega
    | empty => exact ih

theorem Follows.pushes_eq (follows : Follows capacity past queue) :
    Attempt.pushes past = Attempt.pops past ++ queue := by
  -- Only the ends change: a push adds behind the queue, a pop moves its front over.
  induction follows with
  | nil => rfl
  | next _ step ih =>
    rw [Attempt.pushes_append, Attempt.pops_append, ih]
    cases step <;> simp [Attempt.pushes, Attempt.pops]

theorem Follows.split {attempt : Attempt α} {back : List (Attempt α)} :
    ∀ {front : List (Attempt α)} {queue : List α},
      Follows capacity (front ++ attempt :: back) queue →
        ∃ before after, Follows capacity front before ∧ Step capacity before attempt after := by
  -- The induction takes away what was attempted last.
  induction back using List.reverseRecOn with
  | nil =>
    intro front queue follows
    generalize whole : front ++ [attempt] = past at follows
    cases follows with
    | nil => simp at whole
    | next before step =>
      obtain ⟨rfl, same⟩ := List.append_inj' whole rfl
      cases same
      exact ⟨_, _, before, step⟩
  | append_singleton rest last ih =>
    intro front queue follows
    generalize whole : front ++ attempt :: (rest ++ [last]) = past at follows
    cases follows with
    | nil => simp at whole
    | next before step =>
      rw [← List.cons_append, ← List.append_assoc] at whole
      obtain ⟨rfl, -⟩ := List.append_inj' whole rfl
      exact ih before

theorem Follows.full_of_refused {front back : List (Attempt α)} {entry : α}
    (follows : Follows capacity (front ++ .refused entry :: back) queue) :
    (Attempt.pushes front).length = (Attempt.pops front).length + capacity := by
  obtain ⟨before, after, led, step⟩ := follows.split
  rw [led.pushes_eq, List.length_append]
  cases step with
  | refused full => rw [full]

theorem Follows.room_of_pushed {front back : List (Attempt α)} {entry : α}
    (follows : Follows capacity (front ++ .pushed entry :: back) queue) :
    (Attempt.pushes front).length < (Attempt.pops front).length + capacity := by
  obtain ⟨before, after, led, step⟩ := follows.split
  rw [led.pushes_eq, List.length_append]
  cases step with
  | pushed room => omega

end Fifo

end AgentC

import Mathlib.Data.List.Infix

/-! Longest common subsequences, and lists that two others are interleaved to. -/

namespace AgentC

universe u v

variable {α : Type u} {β : Type v}

structure IsLongestCommon (common xs ys : List α) : Prop where
  left : common.Sublist xs
  right : common.Sublist ys
  longest : ∀ other : List α, other.Sublist xs → other.Sublist ys → other.length ≤ common.length

/-- The length of the longest common subsequences. -/
def lcsLength [DecidableEq α] : List α → List α → Nat
  | [], _ => 0
  | _ :: _, [] => 0
  | x :: xs, y :: ys =>
    if x = y then lcsLength xs ys + 1
    else max (lcsLength xs (y :: ys)) (lcsLength (x :: xs) ys)
termination_by xs ys => xs.length + ys.length

@[simp] theorem lcsLength_nil_left [DecidableEq α] (ys : List α) : lcsLength [] ys = 0 := by
  rw [lcsLength]

@[simp] theorem lcsLength_nil_right [DecidableEq α] (xs : List α) : lcsLength xs [] = 0 := by
  cases xs <;> rw [lcsLength]

theorem length_le_lcsLength [DecidableEq α] (xs ys : List α) {common : List α}
    (left : common.Sublist xs) (right : common.Sublist ys) :
    common.length ≤ lcsLength xs ys := by
  -- The cases are those of the recursion: an empty list, equal heads, different heads.
  induction xs, ys using lcsLength.induct generalizing common with
  | case1 ys =>
    rw [List.sublist_nil.mp left]
    exact Nat.zero_le _
  | case2 x xs =>
    rw [List.sublist_nil.mp right]
    exact Nat.zero_le _
  | case3 xs x ys ih =>
    rw [lcsLength, if_pos rfl]
    -- Without its head, a common subsequence is one of the tails.
    have left : common.tail.Sublist xs := by simpa using left.tail
    have right : common.tail.Sublist ys := by simpa using right.tail
    have tail := ih left right
    rw [List.length_tail] at tail
    omega
  | case4 x xs y ys different ihLeft ihRight =>
    rw [lcsLength, if_neg different]
    -- A head that both lists began with would be equal to both heads.
    cases left with
    | cons _ left => exact (ihLeft left right).trans (Nat.le_max_left _ _)
    | cons_cons _ left =>
      cases right with
      | cons _ right => exact (ihRight (left.cons_cons x) right).trans (Nat.le_max_right _ _)
      | cons_cons _ right => exact absurd rfl different

theorem IsLongestCommon.of_length [DecidableEq α] {common xs ys : List α}
    (left : common.Sublist xs) (right : common.Sublist ys)
    (long : lcsLength xs ys ≤ common.length) : IsLongestCommon common xs ys where
  left := left
  right := right
  longest _ left' right' := (length_le_lcsLength xs ys left' right').trans long

/-- The third list has the elements of the first two, each of them in its order. -/
inductive Interleaves : List α → List α → List α → Prop
  | nil : Interleaves [] [] []
  | left {x : α} {xs ys zs : List α} : Interleaves xs ys zs → Interleaves (x :: xs) ys (x :: zs)
  | right {y : α} {xs ys zs : List α} : Interleaves xs ys zs → Interleaves xs (y :: ys) (y :: zs)

namespace Interleaves

variable {xs ys zs : List α}

theorem of_right (zs : List α) : Interleaves [] zs zs := by
  induction zs with
  | nil => exact nil
  | cons z zs ih => exact ih.right

theorem sublist (inter : Interleaves xs ys zs) : xs.Sublist zs := by
  induction inter with
  | nil => exact List.Sublist.slnil
  | left _ ih => exact ih.cons_cons _
  | right _ ih => exact ih.cons _

end Interleaves

end AgentC

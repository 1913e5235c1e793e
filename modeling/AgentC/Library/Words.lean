import Mathlib.Data.List.Basic
import Mathlib.Tactic.Ring

/-! Words in bytes with the lowest byte first, and where they stand in a text. -/

namespace AgentC

def wordBytes : Nat → Nat → List UInt8
  | 0, _ => []
  | width + 1, n => UInt8.ofNat n :: wordBytes width (n / 256)

def ofWordBytes : List UInt8 → Nat
  | [] => 0
  | byte :: rest => byte.toNat + 256 * ofWordBytes rest

def wordAt (text : List UInt8) (place width : Nat) : Nat :=
  ofWordBytes ((text.drop place).take width)

def wordsBytes (width : Nat) (words : List Nat) : List UInt8 :=
  words.flatMap (wordBytes width)

def wordsAt (text : List UInt8) (place width count : Nat) : List Nat :=
  (List.range count).map fun k => wordAt text (place + width * k) width

@[simp] theorem length_wordBytes (width n : Nat) : (wordBytes width n).length = width := by
  induction width generalizing n with
  | zero => rfl
  | succ width ih => rw [wordBytes, List.length_cons, ih]

theorem ofWordBytes_wordBytes {width n : Nat} (fits : n < 256 ^ width) :
    ofWordBytes (wordBytes width n) = n := by
  induction width generalizing n with
  | zero =>
    rw [pow_zero] at fits
    exact (Nat.lt_one_iff.mp fits).symm
  | succ width ih =>
    have higher : n / 256 < 256 ^ width := by
      rw [pow_succ] at fits
      exact Nat.div_lt_of_lt_mul (by omega)
    have low : (UInt8.ofNat n).toNat = n % 256 := UInt8.toNat_ofNat'
    rw [wordBytes, ofWordBytes, ih higher, low]
    omega

theorem wordBytes_ofWordBytes (bytes : List UInt8) :
    wordBytes bytes.length (ofWordBytes bytes) = bytes := by
  induction bytes with
  | nil => rfl
  | cons byte rest ih =>
    have small := byte.toNat_lt
    have low : UInt8.ofNat (byte.toNat + 256 * ofWordBytes rest) = byte := by
      refine UInt8.toNat_inj.mp ?_
      rw [UInt8.toNat_ofNat']
      omega
    have high : (byte.toNat + 256 * ofWordBytes rest) / 256 = ofWordBytes rest := by omega
    rw [List.length_cons, ofWordBytes, wordBytes, low, high, ih]

theorem ofWordBytes_lt (bytes : List UInt8) : ofWordBytes bytes < 256 ^ bytes.length := by
  induction bytes with
  | nil => exact Nat.one_pos
  | cons byte rest ih =>
    have small := byte.toNat_lt
    rw [ofWordBytes, List.length_cons, pow_succ]
    omega

section Places

variable {text before after : List UInt8} {place width n : Nat}

theorem wordAt_of_drop (fits : n < 256 ^ width) (stands : text.drop place = wordBytes width n ++ after) :
    wordAt text place width = n := by
  unfold wordAt
  rw [stands, List.take_left' (length_wordBytes width n), ofWordBytes_wordBytes fits]

theorem drop_behind {bytes : List UInt8} (stands : text.drop place = bytes ++ after)
    (length : bytes.length = width) : text.drop (place + width) = after := by
  rw [← List.drop_drop, stands, List.drop_left' length]

theorem wordAt_append (fits : n < 256 ^ width) (here : before.length = place) :
    wordAt (before ++ (wordBytes width n ++ after)) place width = n :=
  wordAt_of_drop fits (List.drop_left' here)

theorem drop_eq_wordAt (inside : place + width ≤ text.length) :
    text.drop place = wordBytes width (wordAt text place width) ++ text.drop (place + width) := by
  have length : ((text.drop place).take width).length = width := by
    rw [List.length_take, List.length_drop]
    omega
  have bytes := wordBytes_ofWordBytes ((text.drop place).take width)
  rw [length] at bytes
  unfold wordAt
  rw [bytes, ← List.drop_drop, List.take_append_drop]

theorem wordAt_lt : wordAt text place width < 256 ^ width := by
  refine (ofWordBytes_lt _).trans_le (Nat.pow_le_pow_right (by decide) ?_)
  rw [List.length_take]
  exact Nat.min_le_left _ _

theorem wordsAt_succ {count : Nat} : wordsAt text place width (count + 1) =
    wordAt text place width :: wordsAt text (place + width) width count := by
  unfold wordsAt
  rw [List.range_succ_eq_map, List.map_cons, List.map_map, Nat.mul_zero, Nat.add_zero]
  refine congrArg _ (List.map_congr_left fun k _ => ?_)
  show wordAt text (place + width * (k + 1)) width = _
  rw [Nat.mul_succ, Nat.add_comm (width * k), Nat.add_assoc]

theorem wordsAt_append {words : List Nat} (fits : ∀ word ∈ words, word < 256 ^ width)
    (here : before.length = place) :
    wordsAt (before ++ (wordsBytes width words ++ after)) place width words.length = words := by
  induction words generalizing before place with
  | nil => rfl
  | cons word rest ih =>
    obtain ⟨own, others⟩ := List.forall_mem_cons.mp fits
    have first : before ++ (wordsBytes width (word :: rest) ++ after) =
        before ++ (wordBytes width word ++ (wordsBytes width rest ++ after)) := by
      simp only [wordsBytes, List.flatMap_cons, List.append_assoc]
    have later : before ++ (wordBytes width word ++ (wordsBytes width rest ++ after)) =
        (before ++ wordBytes width word) ++ (wordsBytes width rest ++ after) := by
      rw [List.append_assoc]
    have behind : (before ++ wordBytes width word).length = place + width := by
      rw [List.length_append, length_wordBytes, here]
    rw [List.length_cons, wordsAt_succ, first, wordAt_append own here, later, ih others behind]

theorem drop_eq_wordsAt {count : Nat} (inside : place + width * count ≤ text.length) :
    text.drop place =
      wordsBytes width (wordsAt text place width count) ++ text.drop (place + width * count) := by
  induction count generalizing place with
  | zero => rfl
  | succ count ih =>
    rw [Nat.mul_succ] at inside
    have behind : place + width + width * count = place + width * (count + 1) := by
      rw [Nat.mul_succ]
      omega
    rw [wordsAt_succ, drop_eq_wordAt (by omega : place + width ≤ text.length),
      ih (by omega), behind]
    simp only [wordsBytes, List.flatMap_cons, List.append_assoc]

theorem wordsAt_lt {count word : Nat} (member : word ∈ wordsAt text place width count) :
    word < 256 ^ width := by
  obtain ⟨k, _, rfl⟩ := List.mem_map.mp member
  exact wordAt_lt

@[simp] theorem length_wordsAt {count : Nat} : (wordsAt text place width count).length = count := by
  rw [wordsAt, List.length_map, List.length_range]

@[simp] theorem length_wordsBytes {words : List Nat} :
    (wordsBytes width words).length = width * words.length := by
  induction words with
  | nil => rfl
  | cons word rest ih =>
    rw [wordsBytes, List.flatMap_cons, List.length_append, length_wordBytes]
    show width + (wordsBytes width rest).length = _
    rw [ih, List.length_cons, Nat.mul_succ, Nat.add_comm]

end Places

end AgentC

import Mathlib.Data.List.TakeWhile
import Mathlib.Data.Nat.Digits.Lemmas
import AgentC.Cartographer.Boxing

/-! Scalars that are packed and unpacked: decimal texts, bytes of numbers, and the tables of types. -/

namespace AgentC.Cartographer

open Listree (isDigit kBlobSlabBytes)

section Decimals

theorem isDigit_of_mem {n : Nat} {c : UInt8} (member : c ∈ decimalDigits n) : isDigit c = true := by
  unfold decimalDigits at member
  split at member
  · obtain rfl := List.mem_singleton.mp member
    rfl
  · obtain ⟨digit, isDigit', rfl⟩ := List.mem_map.mp member
    have small : digit < 10 := Nat.digits_lt_base (by decide) (List.mem_reverse.mp isDigit')
    interval_cases digit <;> rfl

theorem decimalDigits_ne_nil (n : Nat) : decimalDigits n ≠ [] := by
  unfold decimalDigits
  split
  · exact List.cons_ne_nil _ _
  · next positive =>
    simp only [ne_eq, List.map_eq_nil_iff, List.reverse_eq_nil_iff, Nat.digits_eq_nil_iff_eq_zero]
    exact positive

theorem foldl_decimalDigits (n : Nat) :
    (decimalDigits n).foldl (fun n c => 10 * n + (c.toNat - 0x30)) 0 = n := by
  unfold decimalDigits
  split
  · next zero => exact zero.symm
  · have read : ∀ digits : List Nat, (∀ digit ∈ digits, digit < 10) →
        (digits.reverse.map fun digit => UInt8.ofNat (0x30 + digit)).foldl
          (fun n c => 10 * n + (c.toNat - 0x30)) 0 = Nat.ofDigits 10 digits := by
      intro digits small
      rw [List.foldl_map, List.foldl_reverse, Nat.ofDigits_eq_foldr]
      induction digits with
      | nil => rfl
      | cons digit digits ih =>
        obtain ⟨own, others⟩ := List.forall_mem_cons.mp small
        have code : (UInt8.ofNat (0x30 + digit)).toNat = 0x30 + digit := by
          rw [UInt8.toNat_ofNat']
          omega
        rw [List.foldr_cons, List.foldr_cons, ih others, code, Nat.add_sub_cancel_left, Nat.add_comm]
        rfl
    rw [read _ fun digit member => Nat.digits_lt_base (by decide) member, Nat.ofDigits_digits]

theorem isDigit_visible {c : UInt8} (digit : isDigit c = true) :
    isSpace c = false ∧ c ≠ Listree.byte '-' ∧ c ≠ Listree.byte '+' := by
  have codes : Listree.byte '-' = 0x2D ∧ Listree.byte '+' = 0x2B := ⟨rfl, rfl⟩
  simp only [isDigit, Bool.and_eq_true, decide_eq_true_eq, UInt8.le_iff_toNat_le, UInt8.reduceToNat]
    at digit
  simp only [isSpace, codes, ne_eq, Bool.or_eq_false_iff, Bool.and_eq_false_iff,
    decide_eq_false_iff_not, ← UInt8.toNat_inj, UInt8.le_iff_toNat_le, UInt8.reduceToNat]
  omega

theorem decimalPrefix_decimal (n : Int) : decimalPrefix (decimal n) = some (decide (n < 0), n.natAbs) := by
  have digits := fun c => isDigit_of_mem (n := n.natAbs) (c := c)
  have whole : (decimalDigits n.natAbs).takeWhile isDigit = decimalDigits n.natAbs :=
    List.takeWhile_eq_self_iff.mpr digits
  have nonempty : (decimalDigits n.natAbs).isEmpty = false := by
    rw [List.isEmpty_eq_false_iff]
    exact decimalDigits_ne_nil _
  unfold decimal
  split
  next negative =>
    have text : (Listree.byte '-' :: decimalDigits n.natAbs).dropWhile isSpace =
        Listree.byte '-' :: decimalDigits n.natAbs := rfl
    simp only [decimalPrefix, text, if_true, whole, nonempty, foldl_decimalDigits, negative,
      Bool.false_eq_true, if_false, decide_true]
  next positive =>
    cases given : decimalDigits n.natAbs with
    | nil => exact absurd given (decimalDigits_ne_nil _)
    | cons c rest =>
      have digit : isDigit c = true := digits c (by rw [given]; exact List.mem_cons_self)
      obtain ⟨visible, unsigned⟩ := isDigit_visible digit
      have text : (c :: rest).dropWhile isSpace = c :: rest := by
        rw [List.dropWhile_cons, visible]
        rfl
      rw [given] at whole nonempty
      have value := foldl_decimalDigits n.natAbs
      rw [given] at value
      simp only [decimalPrefix, text, unsigned.1, unsigned.2, if_false, whole, nonempty, value,
        positive, Bool.false_eq_true, decide_false]

theorem parseSigned_decimal (bits : Nat) (n : Int) :
    parseSigned bits (decimal n) =
      if -(2 : Int) ^ (bits - 1) ≤ n ∧ n < 2 ^ (bits - 1) then some n else none := by
  have value : (if decide (n < 0) = true then -(n.natAbs : Int) else n.natAbs) = n := by
    by_cases negative : n < 0
    · simp only [negative, decide_true, if_true]
      omega
    · simp only [negative, decide_false, Bool.false_eq_true, if_false]
      omega
  simp only [parseSigned, decimalPrefix_decimal, Option.bind_some, value]

theorem parseUnsigned_decimal {n : Int} (natural : 0 ≤ n) (fits : n < 2 ^ 64) :
    parseUnsigned (decimal n) = some n := by
  have small : n.natAbs < 2 ^ 64 := by omega
  have positive : ¬ n < 0 := by omega
  simp only [parseUnsigned, decimalPrefix_decimal, Option.bind_some, small, positive, decide_false,
    Bool.false_eq_true, if_false, if_true, Option.some.injEq]
  omega

theorem length_decimal {n : Int} (low : -2 ^ 64 < n) (high : n < 2 ^ 64) :
    (decimal n).length ≤ kBlobSlabBytes := by
  have small : n.natAbs < 10 ^ 20 := by omega
  have digits : (decimalDigits n.natAbs).length ≤ 20 := by
    unfold decimalDigits
    split
    · decide
    · rw [List.length_map, List.length_reverse]
      exact (Nat.digits_length_le_iff (by decide) _).mpr small
  have length : (decimal n).length ≤ 21 := by
    unfold decimal
    split
    · rw [List.length_cons]
      omega
    · omega
  refine length.trans ?_
  unfold kBlobSlabBytes
  decide

theorem decimal_injective : Function.Injective decimal := by
  intro n m same
  have read := congrArg decimalPrefix same
  rw [decimalPrefix_decimal, decimalPrefix_decimal, Option.some.injEq, Prod.mk.injEq] at read
  obtain ⟨sign, magnitude⟩ := read
  have sign' : n < 0 ↔ m < 0 := by
    have := congrArg (· = true) sign
    simpa using this
  omega

end Decimals

section Words

theorem leBytes_eq (size : Nat) (n : Int) :
    leBytes size n = wordBytes size (n % 256 ^ size).toNat := by
  have shifted : ∀ (size m : Nat),
      ((List.range size).map fun i => UInt8.ofNat (m / 256 ^ i)) = wordBytes size m := by
    intro size
    induction size with
    | zero => intro m; rfl
    | succ size ih =>
      intro m
      rw [List.range_succ_eq_map, List.map_cons, List.map_map, wordBytes, ← ih (m / 256)]
      refine congrArg₂ List.cons (by rw [pow_zero, Nat.div_one]) (List.map_congr_left fun i _ => ?_)
      rw [Function.comp_apply, Nat.div_div_eq_div_mul, ← pow_succ']
  exact shifted size _

@[simp] theorem length_leBytes (size : Nat) (n : Int) : (leBytes size n).length = size := by
  rw [leBytes_eq, length_wordBytes]

theorem ofWordBytes_leBytes (size : Nat) (n : Int) :
    (ofWordBytes (leBytes size n) : Int) = n % 256 ^ size := by
  have positive : (0 : Int) < 256 ^ size := by positivity
  have low := Int.emod_nonneg n positive.ne'
  have high := Int.emod_lt_of_pos n positive
  rw [leBytes_eq, ofWordBytes_wordBytes, Int.toNat_of_nonneg low]
  exact (Int.toNat_lt low).mpr (by exact_mod_cast high)

def InRange (size : Nat) (signed : Bool) (n : Int) : Prop :=
  if signed then -(256 : Int) ^ size ≤ 2 * n ∧ 2 * n < 256 ^ size else 0 ≤ n ∧ n < 256 ^ size

instance (size : Nat) (signed : Bool) (n : Int) : Decidable (InRange size signed n) :=
  inferInstanceAs (Decidable (if signed then _ else _))

def ofBytes (signed : Bool) (bytes : List UInt8) : Int :=
  if signed then ofSignedBytes bytes else ofWordBytes bytes

theorem ofBytes_leBytes {size : Nat} {signed : Bool} {n : Int} (fits : InRange size signed n) :
    ofBytes signed (leBytes size n) = n := by
  have word := ofWordBytes_leBytes size n
  have positive : (0 : Int) < 256 ^ size := by positivity
  cases signed with
  | false =>
    obtain ⟨low, high⟩ := fits
    exact word.trans (Int.emod_eq_of_lt low high)
  | true =>
    obtain ⟨low, high⟩ := fits
    simp only [ofBytes, if_true, ofSignedBytes, length_leBytes]
    by_cases negative : n < 0
    · have wrapped : n % 256 ^ size = n + 256 ^ size := by
        rw [← Int.add_emod_right, Int.emod_eq_of_lt (by omega) (by omega)]
      have above : ¬ 2 * ofWordBytes (leBytes size n) < 256 ^ size := by
        zify
        omega
      rw [if_neg above]
      omega
    · have same : n % 256 ^ size = n := Int.emod_eq_of_lt (by omega) (by omega)
      have below : 2 * ofWordBytes (leBytes size n) < 256 ^ size := by
        zify
        omega
      rw [if_pos below]
      omega

theorem leBytes_ofBytes (signed : Bool) (bytes : List UInt8) :
    leBytes bytes.length (ofBytes signed bytes) = bytes := by
  have small : (ofWordBytes bytes : Int) < 256 ^ bytes.length := by
    exact_mod_cast ofWordBytes_lt bytes
  have word : ofBytes signed bytes % 256 ^ bytes.length = ofWordBytes bytes := by
    cases signed with
    | false => exact Int.emod_eq_of_lt (Int.natCast_nonneg _) small
    | true =>
      simp only [ofBytes, if_true, ofSignedBytes]
      split
      · exact Int.emod_eq_of_lt (Int.natCast_nonneg _) small
      · rw [Int.sub_emod_right]
        exact Int.emod_eq_of_lt (Int.natCast_nonneg _) small
  rw [leBytes_eq, word, Int.toNat_natCast, wordBytes_ofWordBytes]

end Words

section Tables

structure IntType where
  size : Nat
  signed : Bool
  deriving DecidableEq, Repr

/-- The integer types of C under the names that the tables of the code know, as LP64 has them. -/
def canonicalInts : List (List UInt8 × IntType) :=
  [("char", 1, true), ("signed char", 1, true), ("unsigned char", 1, false), ("short", 2, true),
    ("short int", 2, true), ("unsigned short", 2, false), ("unsigned short int", 2, false),
    ("int", 4, true), ("signed int", 4, true), ("unsigned int", 4, false), ("long", 8, true),
    ("long int", 8, true), ("unsigned long", 8, false), ("unsigned long int", 8, false),
    ("long long", 8, true), ("long long int", 8, true), ("unsigned long long", 8, false),
    ("unsigned long long int", 8, false)].map fun (name, size, signed) => (ascii name, ⟨size, signed⟩)

/-- What the typedefs of the platform stand for. -/
def typedefInts : List (List UInt8 × IntType) :=
  [("__time_t", 8, true), ("__clock_t", 8, true), ("__syscall_slong_t", 8, true),
    ("__syscall_ulong_t", 8, false), ("__blkcnt_t", 8, true), ("__blkcnt64_t", 8, true),
    ("__off_t", 8, true), ("__off64_t", 8, true), ("__loff_t", 8, true), ("__ino_t", 8, false),
    ("__ino64_t", 8, false), ("__nlink_t", 8, false), ("__fsfilcnt_t", 8, false),
    ("__fsfilcnt64_t", 8, false), ("__fsblkcnt_t", 8, false), ("__fsblkcnt64_t", 8, false),
    ("__pid_t", 4, true), ("__uid_t", 4, false), ("__gid_t", 4, false), ("__dev_t", 8, false),
    ("__suseconds_t", 8, true), ("suseconds_t", 8, true), ("ssize_t", 8, true),
    ("ptrdiff_t", 8, true), ("intptr_t", 8, true), ("__intptr_t", 8, true), ("int64_t", 8, true),
    ("time_t", 8, true), ("clock_t", 8, true), ("size_t", 8, false), ("uint64_t", 8, false),
    ("uintptr_t", 8, false), ("__int32_t", 4, true), ("__mode_t", 4, false),
    ("__socklen_t", 4, false), ("__useconds_t", 4, false), ("int32_t", 4, true),
    ("__uint32_t", 4, false), ("uint32_t", 4, false), ("__int16_t", 2, true), ("int16_t", 2, true),
    ("__uint16_t", 2, false), ("uint16_t", 2, false), ("__int8_t", 1, true), ("int8_t", 1, true),
    ("__uint8_t", 1, false), ("uint8_t", 1, false)].map fun (name, size, signed) =>
      (ascii name, ⟨size, signed⟩)

def lp64Int (type : List UInt8) : Option IntType :=
  (canonicalInts ++ typedefInts).lookup type

def takenInt (type : List UInt8) : Option IntType :=
  canonicalInts.lookup (canonicalType type)

def IntType.parse (type : IntType) : List UInt8 → Option Int :=
  if type.signed then parseSigned (if type.size = 8 then 64 else 32) else parseUnsigned

theorem mem_of_lookup {α : Type} {table : List (List UInt8 × α)} {name : List UInt8} {value : α}
    (found : table.lookup name = some value) : (name, value) ∈ table := by
  obtain ⟨front, back, rfl, -⟩ := List.lookup_eq_some_iff.mp found
  exact List.mem_append_right _ List.mem_cons_self

variable {type : List UInt8} {taken : IntType}

theorem scalar_of_taken (is : takenInt type = some taken) :
    scalarSize type = taken.size ∧
    (∀ floats s, packScalar floats type (some (.string (some s))) =
      packNumber taken.size taken.parse s) ∧
    ∀ floats buffer src, unpackScalar floats type buffer src =
      (load buffer src taken.size).map fun bytes =>
        Node.createStringValue (decimal (ofBytes taken.signed bytes)) := by
  have known := mem_of_lookup is
  unfold scalarSize packScalar unpackScalar
  generalize canonicalType type = t at known
  -- There is one case for each name.
  simp only [canonicalInts, List.map_cons, List.map_nil, List.mem_cons, Prod.mk.injEq,
    List.not_mem_nil, or_false] at known
  rcases known with ⟨rfl, rfl⟩ | ⟨rfl, rfl⟩ | ⟨rfl, rfl⟩ | ⟨rfl, rfl⟩ | ⟨rfl, rfl⟩ | ⟨rfl, rfl⟩ |
    ⟨rfl, rfl⟩ | ⟨rfl, rfl⟩ | ⟨rfl, rfl⟩ | ⟨rfl, rfl⟩ | ⟨rfl, rfl⟩ | ⟨rfl, rfl⟩ | ⟨rfl, rfl⟩ |
    ⟨rfl, rfl⟩ | ⟨rfl, rfl⟩ | ⟨rfl, rfl⟩ | ⟨rfl, rfl⟩ | ⟨rfl, rfl⟩ <;>
  exact ⟨rfl, fun _ _ => rfl, fun _ _ _ => rfl⟩

/-- How the type that a name is taken for is related to the one that C has under it. -/
structure Taken (own taken : IntType) : Prop where
  large : own.size ≤ taken.size
  word : taken.size ≤ 8
  /-- Only types of eight bytes are taken for larger ones. -/
  same : taken.size ≠ 8 → taken.size = own.size
  small : taken.size < 4 → taken = own
  medium : 4 < taken.size → taken.size = 8
  unsigned : taken.signed = false → taken = own

theorem taken_of_lp64 {own : IntType} (is : lp64Int type = some own) :
    ∃ taken, takenInt type = some taken ∧ Taken own taken := by
  have every : ∀ entry ∈ canonicalInts ++ typedefInts,
      ∃ taken ∈ canonicalInts.map Prod.snd, takenInt entry.1 = some taken ∧
        entry.2.size ≤ taken.size ∧ taken.size ≤ 8 ∧ (taken.size ≠ 8 → taken.size = entry.2.size) ∧
        (taken.size < 4 → taken = entry.2) ∧ (4 < taken.size → taken.size = 8) ∧
        (taken.signed = false → taken = entry.2) := by
    decide +kernel
  obtain ⟨taken, -, is', large, word, same, small, medium, unsigned⟩ := every _ (mem_of_lookup is)
  exact ⟨taken, is', large, word, same, small, medium, unsigned⟩

theorem parse_decimal {own : IntType} {n : Int} (related : Taken own taken)
    (fits : InRange own.size own.signed n) :
    (InRange taken.size taken.signed n → taken.parse (decimal n) = some n) ∧
      (¬ InRange taken.size taken.signed n → taken.parse (decimal n) = none) := by
  obtain ⟨size, signed⟩ := taken
  obtain ⟨large, word, same, small, medium, unsigned⟩ := related
  cases signed with
  | false =>
    -- An unsigned type is taken for itself.
    obtain rfl := unsigned rfl
    refine ⟨fun _ => ?_, fun outside => absurd fits outside⟩
    obtain ⟨low, high⟩ := fits
    refine parseUnsigned_decimal low (high.trans_le ?_)
    have wide : (256 : Int) ^ size ≤ 256 ^ 8 := pow_le_pow_right₀ (by decide) word
    exact wide.trans (by decide)
  | true =>
    simp only [IntType.parse, if_true, parseSigned_decimal, InRange]
    by_cases eight : size = 8
    · subst eight
      simp only [if_true]
      constructor
      · intro inside
        rw [if_pos (by omega)]
      · intro outside
        rw [if_neg (by omega)]
    · have size4 : size ≤ 4 := by
        by_contra larger
        exact eight (medium (by simpa using larger))
      by_cases four : size = 4
      · subst four
        simp only [Nat.reduceEqDiff, if_false]
        constructor
        · intro inside
          rw [if_pos (by omega)]
        · intro outside
          rw [if_neg (by omega)]
      · -- A smaller type is taken for itself, and is read with room to spare.
        obtain rfl := small (by omega : size < 4)
        obtain ⟨low, high⟩ := fits
        have narrow : (256 : Int) ^ size ≤ 256 ^ 4 := pow_le_pow_right₀ (by decide) size4
        refine ⟨fun _ => ?_, fun outside => absurd ⟨low, high⟩ outside⟩
        rw [if_neg eight, if_pos]
        constructor <;> omega

end Tables

end AgentC.Cartographer

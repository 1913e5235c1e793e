import Mathlib.Data.List.Basic

/-! Blocks of bytes written into a buffer one after the other, and whether each is found there afterwards. -/

namespace AgentC

structure Block where
  place : Nat
  bytes : List UInt8
  deriving DecidableEq, Repr

namespace Block

def at? (block : Block) (i : Nat) : Option UInt8 :=
  if block.place ≤ i then block.bytes[i - block.place]? else none

def Inside (block : Block) (size : Nat) : Prop :=
  block.place + block.bytes.length ≤ size

def range (block : Block) (buffer : List UInt8) : List UInt8 :=
  (buffer.drop block.place).take block.bytes.length

def Agree (block other : Block) : Prop :=
  ∀ i byte byte', block.at? i = some byte → other.at? i = some byte' → byte = byte'

def Within (block : Block) (place size : Nat) : Prop :=
  place ≤ block.place ∧ block.place + block.bytes.length ≤ place + size

def Apart (block other : Block) : Prop :=
  block.place + block.bytes.length ≤ other.place ∨ other.place + other.bytes.length ≤ block.place

theorem Apart.symm {block other : Block} (apart : block.Apart other) : other.Apart block :=
  Or.symm apart

theorem Agree.symm {block other : Block} (agree : block.Agree other) : other.Agree block :=
  fun i byte byte' has has' => (agree i byte' byte has' has).symm

theorem Apart.agree {block other : Block} (apart : block.Apart other) : block.Agree other := by
  intro i byte byte' has has'
  unfold at? at has has'
  split at has
  · next behind =>
    split at has'
    · next behind' =>
      have within := (List.getElem?_eq_some_iff.mp has).1
      have within' := (List.getElem?_eq_some_iff.mp has').1
      unfold Apart at apart
      omega
    · cases has'
  · cases has

end Block

def overwrite (buffer : List UInt8) (block : Block) : List UInt8 :=
  buffer.take block.place ++ (block.bytes ++ buffer.drop (block.place + block.bytes.length))

section Laws

variable {buffer : List UInt8} {block : Block} {blocks : List Block}

theorem length_overwrite (inside : block.Inside buffer.length) :
    (overwrite buffer block).length = buffer.length := by
  unfold Block.Inside at inside
  simp only [overwrite, List.length_append, List.length_take, List.length_drop]
  omega

theorem getElem?_overwrite (inside : block.Inside buffer.length) (i : Nat) :
    (overwrite buffer block)[i]? = (block.at? i).or buffer[i]? := by
  unfold Block.Inside at inside
  have front : (buffer.take block.place).length = block.place := by
    rw [List.length_take]
    omega
  unfold overwrite Block.at?
  by_cases before : i < block.place
  · rw [List.getElem?_append_left (by omega), List.getElem?_take_of_lt before, if_neg (by omega),
      Option.none_or]
  · rw [List.getElem?_append_right (by omega), front, if_pos (by omega)]
    by_cases within : i - block.place < block.bytes.length
    · rw [List.getElem?_append_left within, List.getElem?_eq_getElem within, Option.some_or]
    · -- Behind the block the buffer goes on where it was.
      have place : block.place + block.bytes.length + (i - block.place - block.bytes.length) = i := by
        omega
      have none_ : block.bytes[i - block.place]? = none := List.getElem?_eq_none (by omega)
      rw [List.getElem?_append_right (by omega), List.getElem?_drop, place, none_, Option.none_or]

theorem length_foldl_overwrite (inside : ∀ block ∈ blocks, block.Inside buffer.length) :
    (blocks.foldl overwrite buffer).length = buffer.length := by
  induction blocks generalizing buffer with
  | nil => rfl
  | cons block blocks ih =>
    obtain ⟨own, others⟩ := List.forall_mem_cons.mp inside
    have length := length_overwrite own
    rw [List.foldl_cons, ih (by rwa [length]), length]

theorem Block.range_eq_iff : block.range buffer = block.bytes ↔
    ∀ i byte, block.at? i = some byte → buffer[i]? = some byte := by
  constructor
  · intro same i byte has
    unfold Block.at? at has
    split at has
    · next behind =>
      have within := (List.getElem?_eq_some_iff.mp has).1
      rw [← same, Block.range, List.getElem?_take_of_lt within, List.getElem?_drop,
        Nat.add_sub_cancel' behind] at has
      exact has
    · cases has
  · intro has
    refine List.ext_getElem? fun k => ?_
    rw [Block.range]
    by_cases within : k < block.bytes.length
    · rw [List.getElem?_take_of_lt within, List.getElem?_drop, List.getElem?_eq_getElem within]
      refine has _ _ ?_
      rw [Block.at?, if_pos (Nat.le_add_right ..), Nat.add_sub_cancel_left,
        List.getElem?_eq_getElem within]
    · rw [List.getElem?_eq_none (l := block.bytes) (by omega)]
      exact List.getElem?_eq_none (by rw [List.length_take]; omega)

theorem getElem?_foldl_overwrite (inside : ∀ block ∈ blocks, block.Inside buffer.length)
    (agree : ∀ block ∈ blocks, ∀ other ∈ blocks, block.Agree other) {i : Nat} {byte : UInt8}
    (has : (∃ block ∈ blocks, block.at? i = some byte) ∨
      (buffer[i]? = some byte ∧ ∀ block ∈ blocks, block.at? i = none ∨ block.at? i = some byte)) :
    (blocks.foldl overwrite buffer)[i]? = some byte := by
  -- The induction is on the blocks that are left to write; what has been written stays or is the same.
  induction blocks generalizing buffer with
  | nil =>
    obtain ⟨_, member, -⟩ | ⟨has, -⟩ := has
    · cases member
    · exact has
  | cons block blocks ih =>
    obtain ⟨own, others⟩ := List.forall_mem_cons.mp inside
    have still : ∀ later ∈ blocks, later.Inside (overwrite buffer block).length := by
      rwa [length_overwrite own]
    have agree' : ∀ later ∈ blocks, ∀ other ∈ blocks, later.Agree other := fun later member other member' =>
      agree later (List.mem_cons_of_mem _ member) other (List.mem_cons_of_mem _ member')
    refine ih still agree' ?_
    obtain ⟨writer, member, has⟩ | ⟨has, rest⟩ := has
    · obtain rfl | member := List.mem_cons.mp member
      · refine Or.inr ⟨by rw [getElem?_overwrite own, has, Option.some_or], fun later member => ?_⟩
        cases given : later.at? i with
        | none => exact Or.inl rfl
        | some byte' =>
          have same := agree writer List.mem_cons_self later (List.mem_cons_of_mem _ member) i byte
            byte' has given
          rw [same]
          exact Or.inr rfl
      · exact Or.inl ⟨writer, member, has⟩
    · refine Or.inr ⟨?_, fun later member => rest later (List.mem_cons_of_mem _ member)⟩
      rw [getElem?_overwrite own]
      obtain given | given := rest block List.mem_cons_self
      · rw [given, Option.none_or, has]
      · rw [given, Option.some_or]

theorem foldl_overwrite_iff (inside : ∀ block ∈ blocks, block.Inside buffer.length) :
    (∀ block ∈ blocks, block.range (blocks.foldl overwrite buffer) = block.bytes) ↔
      ∀ block ∈ blocks, ∀ other ∈ blocks, block.Agree other := by
  constructor
  · intro found block member other member' i byte byte' has has'
    have first := Block.range_eq_iff.mp (found block member) i byte has
    have second := Block.range_eq_iff.mp (found other member') i byte' has'
    exact Option.some.inj (first.symm.trans second)
  · intro agree block member
    refine Block.range_eq_iff.mpr fun i byte has => ?_
    exact getElem?_foldl_overwrite inside agree (Or.inl ⟨block, member, has⟩)

end Laws

end AgentC

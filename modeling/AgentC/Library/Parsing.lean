import Mathlib.Init

/-! Reading a text from its front, with errors, and which texts a value is read from. -/

namespace AgentC

variable {ε α β : Type}

abbrev Parser (ε α : Type) := StateT (List UInt8) (Except ε) α

namespace Parser

def Reads (read : Parser ε α) (text : List UInt8) (value : α) : Prop :=
  ∀ rest, read (text ++ rest) = .ok (value, rest)

def ReadsBefore (follows : List UInt8 → Prop) (read : Parser ε α) (text : List UInt8) (value : α) :
    Prop :=
  ∀ rest, follows rest → read (text ++ rest) = .ok (value, rest)

variable {read : Parser ε α} {next : α → Parser ε β} {text text' : List UInt8} {value : α} {value' : β}

theorem bind_apply (read : Parser ε α) (next : α → Parser ε β) (input : List UInt8) :
    (read >>= next) input = (read input).bind fun (value, rest) => next value rest := rfl

theorem bind_of_ok {input rest : List UInt8} (reads : read input = .ok (value, rest)) :
    (read >>= next) input = next value rest := by
  rw [bind_apply, reads]
  rfl

theorem get_bind (next : List UInt8 → Parser ε β) (input : List UInt8) :
    (get >>= next) input = next input input := rfl

theorem set_bind (rest : List UInt8) (next : PUnit → Parser ε β) (input : List UInt8) :
    (set rest >>= next) input = next () rest := rfl

theorem lift_bind {result : Except ε α} (is : result = .ok value) (next : α → Parser ε β)
    (input : List UInt8) : (liftM result >>= next) input = next value input := by
  rw [is]
  rfl

theorem Reads.pure (value : α) : Reads (ε := ε) (Pure.pure value) [] value :=
  fun _ => rfl

theorem Reads.bind (first : Reads read text value) (second : Reads (next value) text' value') :
    Reads (read >>= next) (text ++ text') value' := by
  intro rest
  rw [bind_apply, List.append_assoc, first]
  exact second rest

theorem Reads.last (only : Reads read text value) (result : Reads (next value) [] value') :
    Reads (read >>= next) text value' := by
  simpa only [List.append_nil] using only.bind result

end Parser

end AgentC

import AgentC.Listree.CircularList

/-! Values that hold a list, put to and taken from at either of its ends. -/

namespace AgentC

universe u

variable {V : Type u}

/-- What is asked of a value that holds a list. A value that is put may be no value. -/
inductive ListCall (V : Type u) where
  | put (value : Option V) (atEnd : Bool)
  | get (pop fromEnd : Bool)

structure ListValue (V : Type u) where
  readOnly : Bool
  /-- Every reference of the list leads to a value or to none. -/
  list : CLL (Option V)

namespace ListValue

def new : ListValue V where
  readOnly := false
  list := .empty

def put (ltv : ListValue V) (value : Option V) (atEnd : Bool) : ListValue V :=
  if ltv.readOnly then ltv else { ltv with list := ltv.list.store value atEnd }

/-- The value at one end, taken out of the list or not. Nothing is taken out of a value that is read-only. -/
def get (ltv : ListValue V) (pop fromEnd : Bool) : Option V × ListValue V :=
  match ltv.list.get fromEnd with
  | none => (none, ltv)
  | some value =>
    (value, if pop && !ltv.readOnly then { ltv with list := ltv.list.remove fromEnd } else ltv)

def forEachList (ltv : ListValue V) (forward : Bool) : List (Option V) :=
  ltv.list.forEach forward

def call (ltv : ListValue V) : ListCall V → Option V × ListValue V
  | .put value atEnd => (none, ltv.put value atEnd)
  | .get pop fromEnd => ltv.get pop fromEnd

def after (ltv : ListValue V) : List (ListCall V) → ListValue V
  | [] => ltv
  | call :: later => (ltv.call call).2.after later

def answers (ltv : ListValue V) : List (ListCall V) → List (Option V)
  | [] => []
  | call :: later => (ltv.call call).1 :: (ltv.call call).2.answers later

def popped (ltv : ListValue V) : ListCall V → List (Option V)
  | .put _ _ => []
  | .get pop fromEnd => if pop then (ltv.list.get fromEnd).toList else []

def poppedBy (ltv : ListValue V) : List (ListCall V) → List (Option V)
  | [] => []
  | call :: later => ltv.popped call ++ (ltv.call call).2.poppedBy later

end ListValue

/-! ### Queues with two ends -/

namespace Deque

variable {α : Type u}

def push (queue : List α) (value : α) (front : Bool) : List α :=
  if front then value :: queue else queue ++ [value]

def peek (queue : List α) (front : Bool) : Option α :=
  if front then queue.head? else queue.getLast?

def drop (queue : List α) (front : Bool) : List α :=
  if front then queue.tail else queue.dropLast

def call (queue : List (Option V)) : ListCall V → Option V × List (Option V)
  | .put value atEnd => (none, push queue value atEnd)
  | .get pop fromEnd => ((peek queue fromEnd).join, if pop then drop queue fromEnd else queue)

def after (queue : List (Option V)) : List (ListCall V) → List (Option V)
  | [] => queue
  | made :: later => after (call queue made).2 later

def answers (queue : List (Option V)) : List (ListCall V) → List (Option V)
  | [] => []
  | made :: later => (call queue made).1 :: answers (call queue made).2 later

def pushed : List (ListCall V) → List (Option V)
  | [] => []
  | .put value _ :: later => value :: pushed later
  | .get _ _ :: later => pushed later

end Deque

/-! ### A value that holds a list is such a queue -/

namespace CLL

variable {α : Type u} {list : CLL α} {values : List α}

theorem Holds.get (holds : list.Holds true values) (fromEnd : Bool) :
    list.get fromEnd = Deque.peek values fromEnd := by
  -- Both ends are the next one in a direction of their own.
  have next : ∀ {fwd : Bool} {values : List α}, list.Holds fwd values → list.get fwd = values.head? := by
    intro fwd values holds
    obtain ⟨⟨nodes, rings, stored⟩, bare⟩ := holds
    cases nodes with
    | nil =>
      have itself : list.lnk fwd 0 = 0 := by simpa using And.left (by simpa using rings.linked)
      have none_ : values = [] := by simpa using stored.symm
      rw [CLL.get, itself, bare, none_]
      rfl
    | cons node later =>
      have leads : list.lnk fwd 0 = node := (List.isChain_cons_cons.mp rings.linked).1.1
      cases values with
      | nil => simp at stored
      | cons value values =>
        rw [CLL.get, leads]
        exact (List.cons.inj stored).1
  cases fromEnd with
  | true => exact next holds
  | false =>
    have last := next holds.reverse
    rwa [List.head?_reverse] at last

theorem Holds.push (holds : list.Holds true values) (value : α) (atEnd : Bool) :
    (list.store value atEnd).Holds true (Deque.push values value atEnd) := by
  cases atEnd with
  | true => exact holds.store value
  | false =>
    have stored := (holds.reverse.store value).reverse
    rwa [List.reverse_cons, List.reverse_reverse] at stored

theorem Holds.drop {value : α} (holds : list.Holds true values) (fromEnd : Bool)
    (next : list.get fromEnd = some value) :
    (list.remove fromEnd).Holds true (Deque.drop values fromEnd) := by
  rw [holds.get fromEnd] at next
  cases fromEnd with
  | true =>
    obtain ⟨later, rfl⟩ := List.head?_eq_some_iff.mp next
    exact holds.remove
  | false =>
    obtain ⟨earlier, rfl⟩ := List.getLast?_eq_some_iff.mp next
    have turned := holds.reverse
    rw [List.reverse_append, List.reverse_singleton, List.singleton_append] at turned
    have removed := (Holds.remove turned).reverse
    rw [List.reverse_reverse] at removed
    rwa [show Deque.drop (earlier ++ [value]) false = earlier from List.dropLast_concat]

end CLL

/-- The value takes what it is given and holds the values of a queue. -/
structure ListValue.Queues (ltv : ListValue V) (queue : List (Option V)) : Prop where
  writable : ltv.readOnly = false
  holds : ltv.list.Holds true queue

namespace ListValue.Queues

variable {ltv : ListValue V} {queue : List (Option V)}

theorem new : (ListValue.new : ListValue V).Queues [] where
  writable := rfl
  holds := CLL.holds_empty true

theorem call (queues : ltv.Queues queue) (made : ListCall V) :
    (ltv.call made).1 = (Deque.call queue made).1 ∧
      (ltv.call made).2.Queues (Deque.call queue made).2 := by
  obtain ⟨writable, holds⟩ := queues
  cases made with
  | put value atEnd =>
    refine ⟨rfl, ?_, ?_⟩
    · simp only [ListValue.call, put, writable, Bool.false_eq_true, if_false]
    · simp only [ListValue.call, put, writable, Bool.false_eq_true, if_false]
      exact holds.push value atEnd
  | get pop fromEnd =>
    have ends := holds.get fromEnd
    cases next : ltv.list.get fromEnd with
    | none =>
      -- Nothing is there, and a queue without values stays one.
      have bare : queue = [] := by
        rw [next] at ends
        cases fromEnd with
        | true => exact List.head?_eq_none_iff.mp ends.symm
        | false => exact List.getLast?_eq_none_iff.mp ends.symm
      subst bare
      have stays : (if pop then Deque.drop [] fromEnd else ([] : List (Option V))) = [] := by
        cases pop <;> cases fromEnd <;> rfl
      simp only [ListValue.call, get, next, Deque.call, ← ends, stays]
      exact ⟨rfl, writable, holds⟩
    | some value =>
      simp only [ListValue.call, get, next, Deque.call, ← ends, writable, Bool.not_false, Bool.and_true]
      refine ⟨rfl, ?_⟩
      cases pop with
      | false => exact ⟨writable, holds⟩
      | true => exact ⟨rfl, holds.drop fromEnd next⟩

theorem perm (queues : ltv.Queues queue) (made : ListCall V) :
    (ltv.popped made ++ (Deque.call queue made).2).Perm (Deque.pushed [made] ++ queue) := by
  cases made with
  | put value atEnd =>
    cases atEnd with
    | true => exact List.Perm.refl _
    | false => exact (List.perm_append_singleton value queue)
  | get pop fromEnd =>
    cases pop with
    | false => exact List.Perm.refl _
    | true =>
      simp only [popped, queues.holds.get fromEnd, Deque.call, Deque.pushed, if_true, List.nil_append]
      cases fromEnd with
      | true => cases queue <;> exact List.Perm.refl _
      | false =>
        rcases List.eq_nil_or_concat queue with rfl | ⟨earlier, value, rfl⟩
        · exact List.Perm.refl _
        · simp only [Deque.peek, Deque.drop, List.concat_eq_append, List.getLast?_concat,
            List.dropLast_concat, Bool.false_eq_true, if_false, Option.toList_some]
          exact List.perm_append_comm

theorem calls (made : List (ListCall V)) : ∀ {ltv : ListValue V} {queue : List (Option V)},
    ltv.Queues queue →
      ltv.answers made = Deque.answers queue made ∧
      (ltv.after made).Queues (Deque.after queue made) ∧
      (ltv.poppedBy made ++ Deque.after queue made).Perm (Deque.pushed made ++ queue) := by
  -- The induction follows the calls, with the queue beside the value.
  induction made with
  | nil => exact fun queues => ⟨rfl, queues, List.Perm.refl _⟩
  | cons made later ih =>
    intro ltv queue queues
    obtain ⟨answered, queues'⟩ := queues.call made
    obtain ⟨answers, kept, counted⟩ := ih queues'
    refine ⟨?_, kept, ?_⟩
    · rw [ListValue.answers, Deque.answers, answered, answers]
    · have joined : Deque.pushed (made :: later) = Deque.pushed [made] ++ Deque.pushed later := by
        cases made <;> rfl
      rw [ListValue.poppedBy, Deque.after, joined, List.append_assoc]
      -- The queue of the induction hypothesis is the one behind the first call.
      calc List.Perm _ (ltv.popped made ++ (Deque.pushed later ++ (Deque.call queue made).2)) :=
          counted.append_left _
        List.Perm _ (Deque.pushed later ++ (ltv.popped made ++ (Deque.call queue made).2)) :=
          List.perm_append_comm_assoc _ _ _
        List.Perm _ (Deque.pushed later ++ (Deque.pushed [made] ++ queue)) := (queues.perm made).append_left _
        List.Perm _ (Deque.pushed [made] ++ (Deque.pushed later ++ queue)) := List.perm_append_comm_assoc _ _ _
        _ = (Deque.pushed [made] ++ Deque.pushed later) ++ queue := (List.append_assoc _ _ _).symm

end ListValue.Queues

/--
Whatever is put to and taken from a value that holds a list, it answers as a queue with two ends, and
both directions visit the values of the queue.

A look at an end changes nothing. What was taken out and what is left is what was put, each put once.
-/
theorem listValue_deque (made : List (ListCall V)) :
    (ListValue.new : ListValue V).answers made = Deque.answers [] made ∧
    (ListValue.new.after made).forEachList true = Deque.after [] made ∧
    (ListValue.new.after made).forEachList false = (Deque.after [] made).reverse ∧
    (∀ fromEnd, ((ListValue.new.after made).call (.get false fromEnd)).2 = ListValue.new.after made) ∧
    (ListValue.new.poppedBy made ++ (ListValue.new.after made).forEachList true).Perm
      (Deque.pushed made) := by
  obtain ⟨answers, queues, counted⟩ := ListValue.Queues.calls made .new
  have visited : (ListValue.new.after made).forEachList true = Deque.after [] made := queues.holds.forEach
  refine ⟨answers, visited, queues.holds.reverse.forEach, ?_, ?_⟩
  · intro fromEnd
    simp only [ListValue.call, ListValue.get, Bool.false_and, Bool.false_eq_true, if_false]
    cases (ListValue.new.after made).list.get fromEnd <;> rfl
  · rwa [visited, ← List.append_nil (Deque.pushed made)]

end AgentC

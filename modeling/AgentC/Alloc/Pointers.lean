import AgentC.Library.Runs
import AgentC.Alloc.Allocator

/-! `CPtr`, the owning pointer: what each of its operations does to the slot it holds. -/

namespace AgentC

universe u

namespace CPtr

variable {T : Type u}

def fromSlabId (arena : Allocator T) (other : SlabId) : SlabId × Allocator T :=
  match arena.tryRetain other with
  | (true, arena) => (other, arena)
  | (false, arena) => ({}, arena)

def copyConstruct (arena : Allocator T) (other : SlabId) : SlabId × Allocator T :=
  fromSlabId arena other

/-- Copy assignment to a different pointer, which drops the old reference by `modrefs`. -/
def copyAssign (arena : Allocator T) (slabId other : SlabId) : SlabId × Allocator T :=
  let dropped := if arena.valid slabId then arena.modrefs slabId (-1) else arena
  fromSlabId dropped other

/-- Move assignment to a different pointer, which drops the old reference by `deallocate`. -/
def moveAssign (arena : Allocator T) (slabId other : SlabId) : SlabId × Allocator T :=
  (other, if arena.valid slabId then (arena.deallocate slabId).2 else arena)

def destroy (arena : Allocator T) (slabId : SlabId) : Allocator T :=
  if arena.valid slabId then (arena.deallocate slabId).2 else arena

end CPtr

/-- An allocator with all the pointers into it, numbered in the order they were constructed. -/
structure CPtrs (T : Type u) where
  arena : Allocator T
  next : Nat := 0
  /-- The slot each living pointer holds. The null slot stands for an empty pointer. -/
  slabId : Nat → Option SlabId := fun _ => none

/-- An operation on pointers. Constructors make the next pointer. -/
inductive CPtrCall (T : Type u) where
  | make (create : Nat → Bool) (item : T)
  | copyConstruct (other : Nat)
  | moveConstruct (other : Nat)
  | copyAssign (target other : Nat)
  | moveAssign (target other : Nat)
  /-- `adoptRaw(other.release())`, which leaves the reference count alone. -/
  | readopt (other : Nat)
  | destroy (target : Nat)

namespace CPtrs

variable {T : Type u}

def push (w : CPtrs T) (si : SlabId) : CPtrs T :=
  { w with
    next := w.next + 1
    slabId := fun k => if k = w.next then some si else w.slabId k }

def set (w : CPtrs T) (index : Nat) (held : Option SlabId) : CPtrs T :=
  { w with slabId := fun k => if k = index then held else w.slabId k }

def holders (w : CPtrs T) (si : SlabId) : Nat :=
  Nat.count (fun k => w.slabId k = some si) w.next

/-- The state an operation leaves behind. Operations on pointers that do not live are undefined. -/
def step [Inhabited T] (w : CPtrs T) : CPtrCall T → Option (CPtrs T)
  | .make create item =>
    match w.arena.allocate create item with
    | (.ok si, arena) => some (({ w with arena := arena } : CPtrs T).push si)
    | (.error _, arena) => some { w with arena := arena }
  | .copyConstruct other =>
    (w.slabId other).map fun source =>
      let (si, arena) := CPtr.copyConstruct w.arena source
      ({ w with arena := arena } : CPtrs T).push si
  | .moveConstruct other =>
    (w.slabId other).map fun source => (w.set other (some {})).push source
  | .copyAssign target other =>
    match w.slabId target, w.slabId other with
    | some old, some source =>
      if target = other then some w
      else
        let (si, arena) := CPtr.copyAssign w.arena old source
        some (({ w with arena := arena } : CPtrs T).set target (some si))
    | _, _ => none
  | .moveAssign target other =>
    match w.slabId target, w.slabId other with
    | some old, some source =>
      if target = other then some w
      else
        let (si, arena) := CPtr.moveAssign w.arena old source
        some ((({ w with arena := arena } : CPtrs T).set target (some si)).set other (some {}))
    | _, _ => none
  | .readopt other =>
    (w.slabId other).map fun source => (w.set other (some {})).push source
  | .destroy target =>
    (w.slabId target).map fun held =>
      ({ w with arena := CPtr.destroy w.arena held } : CPtrs T).set target none

def initial [Inhabited T] : CPtrs T :=
  { arena := Allocator.initial }

end CPtrs

end AgentC

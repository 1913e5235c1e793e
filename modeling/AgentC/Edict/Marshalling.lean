import AgentC.Cartographer.FfiLaws
import AgentC.Cartographer.Ffi

/-! Calls of functions that have been imported from C, and what libffi is given for each of them. -/

namespace AgentC.Edict

open Cartographer

/-- The parts of the machine that a call of an imported function uses. -/
structure Caller where
  stack : List ArgValue
  error_message : Option (List UInt8)
  allow_unsafe_ffi_calls : Bool
  /-- The slot that the next value is created in. -/
  fresh : SlabId

namespace Caller

def setError (vm : Caller) (message : List UInt8) : Caller :=
  { vm with error_message := some message }

end Caller

/-- What evaluating a value as an imported function does. -/
structure Dispatched where
  /-- The value was such a function, so it is not evaluated in another way. -/
  handled : Bool
  vm : Caller
  invocations : List Invocation

def stringField (node : Node) (name : String) : List UInt8 :=
  ((node.getValue (ascii name)).bind Node.valueToString).getD []

/-- Imports that are marked as unsafe are called only with permission. -/
def enforceImportedFunctionPolicy (vm : Caller) (funcDef : Node) : Bool :=
  if stringField funcDef "imported_via" ≠ ascii "cartographer_service" then true
  else !(stringField funcDef "safety" == ascii "unsafe" && !vm.allow_unsafe_ffi_calls)

/-- Taking arguments from the stack, the last one first. The first argument comes first. -/
def popArguments : Nat → List ArgValue → List ArgValue → Option (List ArgValue) × List ArgValue
  | 0, args, stack => (some args, stack)
  | _ + 1, _, [] => (none, [])
  | count + 1, args, arg :: stack => popArguments count (arg :: args) stack

section Calls

variable (ffi : Ffi) (buildClosureValue : Node → ArgValue → Option ArgValue)

/-- An argument for a parameter that declares a signature becomes a callback. -/
def convertCallback (paramNode : Node) (arg : ArgValue) : Option ArgValue :=
  let signatureItem := (paramNode.find (ascii "signature")).orElse fun _ =>
    paramNode.find (ascii "callback_signature")
  match signatureItem.bind List.head? with
  | none => some arg
  | some signature =>
    if (paramNode.getValue (ascii "type")).bind Node.valueToString ≠ some (ascii "pointer") then
      some arg
    else if arg.binary?.map List.length = some 8 then some arg
    else buildClosureValue signature arg

/-- Calling a function for every choice of values, with the first argument changing last. -/
def executeIterativeFFI (funcName : List UInt8) (funcDef : Node) :
    List ArgValue → List ArgValue → List Invocation
  | [], builtArgs => [ffi.invoke funcName funcDef (.list builtArgs)]
  | arg :: rest, builtArgs =>
    arg.choices.flatMap fun val => executeIterativeFFI funcName funcDef rest (builtArgs ++ [val])

def isIterator : ArgValue → Bool
  | .iterator .. => true
  | _ => false

def resultValue (fresh : SlabId) : Invocation → ArgValue
  | .called call => ffi.converted call
  | _ => .value fresh false []

/-- `evalDispatchFFI`, for a value that is not in list mode. -/
def evalDispatchFFI (vm : Caller) (v : Node) : Dispatched :=
  let other : Dispatched := ⟨false, vm, []⟩
  if (v.getValue (ascii "kind")).bind Node.valueToString ≠ some (ascii "Function") then other
  else
    match (v.getValue (ascii "name")).bind Node.valueToString with
    | none => other
    | some funcName =>
      if !enforceImportedFunctionPolicy vm v then
        ⟨true, vm.setError (ascii "Cartographer blocked unsafe import: " ++ funcName), []⟩
      else
        let resolution := (v.find (ascii "resolution_status")).map fun item =>
          item.head?.bind Node.valueToString
        match resolution with
        | some none => other
        | some (some status) =>
          if status ≠ ascii "resolved" then
            ⟨true, vm.setError (ascii "Cannot invoke unresolved FFI function: " ++ funcName), []⟩
          else call funcName
        | none => call funcName
where
  /-- The call itself, once the function is known. -/
  call (funcName : List UInt8) : Dispatched :=
    let paramNodes := childNodes v
    match popArguments paramNodes.length [] vm.stack with
    | (none, stack) => ⟨true, { vm with stack }.setError (ascii "Stack underflow for FFI call"), []⟩
    | (some popped, stack) =>
      match (paramNodes.zip popped).mapM fun (node, arg) => convertCallback buildClosureValue node arg with
      | none =>
        ⟨true, { vm with stack }.setError (ascii "Failed to create FFI closure from signature"), []⟩
      | some args =>
        if args.any isIterator then
          let invocations := executeIterativeFFI ffi funcName v args []
          let results := ArgValue.list vm.fresh (invocations.map (resultValue ffi vm.fresh))
          ⟨true, { vm with stack := results :: stack }, invocations⟩
        else
          let invocation := ffi.invoke funcName v (.list args)
          ⟨true, { vm with stack := resultValue ffi vm.fresh invocation :: stack }, [invocation]⟩

end Calls

end AgentC.Edict

namespace AgentC.Edict

open Cartographer Listree

def everyChoice : List ArgValue → List (List ArgValue)
  | [] => [[]]
  | arg :: rest => arg.choices.flatMap fun val => (everyChoice rest).map (val :: ·)

def declaredCall (ffi : Ffi) (f : NodeDescription) (values : List ArgValue) : Call where
  funcName := f.name
  rtype := f.declaredReturn
  args := List.zipWith (fun type value => (type, ffi.convertValue value type)) f.declaredTypes values

/--
A function is called as it is declared, for values that are pushed in the order of the call.

An iterator stands for each of its values in turn. `args` are arguments given to `invoke` itself.
-/
structure Marshals (ffi : Ffi) (buildClosureValue : Node → ArgValue → Option ArgValue) (vm : Caller)
    (f : NodeDescription) (values : List ArgValue) (args : Arguments) : Prop where
  calls : (evalDispatchFFI ffi buildClosureValue { vm with stack := values.reverse ++ vm.stack }
      (materializeNode f)).invocations =
    (everyChoice values).map fun chosen => .called (declaredCall ffi f chosen)
  closure : ffi.createClosure (materializeNode f) = some (f.declaredReturn, f.declaredTypes)
  slots : ffi.invoke f.name (materializeNode f) args ≠ .fault

def Callable (ffi : Ffi) (f : NodeDescription) : Prop :=
  f.name ≠ [] ∧ f.name.length ≤ kBlobSlabBytes ∧ isBlocked f.name = false ∧
    ffi.symbols f.name = true

/-- What makes a function be called as it is declared. -/
structure Marshallable (ffi : Ffi) (f : NodeDescription) (values : List ArgValue)
    (args : Arguments) : Prop where
  /-- The types by the parameters' names are the types in the order of the declaration. -/
  inOrder : f.storedTypes = f.declaredTypes
  returns : f.returnType.length ≤ kBlobSlabBytes
  callable : everyChoice values = [] ∨ Callable ffi f
  slots : isBlocked f.name = true ∨ ffi.symbols f.name = false ∨
    SlotsSuffice args.values.length f.children.length

section Laws

variable {ffi : Ffi} {buildClosureValue : Node → ArgValue → Option ArgValue} {vm : Caller}
  {f : NodeDescription} {values : List ArgValue} {args : Arguments}

theorem popArguments_reverse (values args below : List ArgValue) :
    popArguments values.length args (values.reverse ++ below) = (some (values ++ args), below) := by
  induction values using List.reverseRecOn generalizing args with
  | nil => rfl
  | append_singleton front last ih =>
    rw [List.length_append, List.length_singleton, List.reverse_append, List.reverse_singleton,
      List.singleton_append, List.cons_append, popArguments, ih, List.append_assoc,
      List.singleton_append]

theorem convertCallback_materializeNode (c : NodeDescription) (arg : ArgValue) :
    convertCallback buildClosureValue (materializeNode c) arg = some arg := by
  unfold convertCallback
  rw [find_absent c (by decide), find_absent c (by decide)]
  rfl

theorem convertCallbacks_materializeNode (entries : List (Name × NodeDescription))
    (values : List ArgValue) (arity : entries.length = values.length) :
    ((entries.map fun entry => materializeNode entry.2).zip values).mapM
      (fun x => convertCallback buildClosureValue x.1 x.2) = some values := by
  induction entries generalizing values with
  | nil =>
    rw [List.length_eq_zero_iff.mp arity.symm]
    rfl
  | cons entry rest ih =>
    cases values with
    | nil => cases arity
    | cons value values =>
      rw [List.map_cons, List.zip_cons_cons, List.mapM_cons, convertCallback_materializeNode,
        ih values (Nat.succ.inj arity)]
      rfl

theorem length_of_mem_everyChoice {chosen : List ArgValue} (member : chosen ∈ everyChoice values) :
    chosen.length = values.length := by
  induction values generalizing chosen with
  | nil => rw [List.mem_singleton.mp member]
  | cons arg rest ih =>
    obtain ⟨val, -, others⟩ := List.mem_flatMap.mp member
    obtain ⟨tail, isChoice, rfl⟩ := List.mem_map.mp others
    rw [List.length_cons, List.length_cons, ih isChoice]

theorem executeIterativeFFI_eq {funcName : List UInt8} {funcDef : Node} (built : List ArgValue) :
    executeIterativeFFI ffi funcName funcDef values built =
      (everyChoice values).map fun chosen => ffi.invoke funcName funcDef (.list (built ++ chosen)) := by
  induction values generalizing built with
  | nil => simp [executeIterativeFFI, everyChoice]
  | cons arg rest ih =>
    rw [executeIterativeFFI, everyChoice, List.map_flatMap]
    refine List.flatMap_congr fun val _ => ?_
    rw [ih, List.map_map]
    refine List.map_congr_left fun chosen _ => ?_
    simp

theorem everyChoice_eq (plain : values.any isIterator = false) : everyChoice values = [values] := by
  induction values with
  | nil => rfl
  | cons arg rest ih =>
    obtain ⟨single, others⟩ := Bool.or_eq_false_iff.mp plain
    rw [everyChoice, ih others]
    cases arg with
    | value | list => rfl
    | iterator => cases single

theorem invocations_evalDispatchFFI (declares : f.Declares)
    (arity : values.length = f.children.length) (named : f.name ≠ [])
    (fits : f.name.length ≤ kBlobSlabBytes) :
    (evalDispatchFFI ffi buildClosureValue { vm with stack := values.reverse ++ vm.stack }
        (materializeNode f)).invocations =
      (everyChoice values).map fun chosen =>
        ffi.invoke f.name (materializeNode f) (.list chosen) := by
  have kind : ((materializeNode f).getValue (ascii "kind")).bind Node.valueToString =
      some (ascii "Function") := by
    rw [getValue_kind, declares.function]
    exact bytes_createStringValue (word_fits (by decide)) (by decide)
  have name : ((materializeNode f).getValue (ascii "name")).bind Node.valueToString =
      some f.name := by
    rw [getValue_name]
    exact bytes_createStringValue fits named
  have policy : ∀ vm, enforceImportedFunctionPolicy vm (materializeNode f) = true := by
    intro vm
    have absent : stringField (materializeNode f) "imported_via" = [] := by
      unfold stringField Node.getValue
      rw [find_absent f (by decide)]
      rfl
    unfold enforceImportedFunctionPolicy
    rw [absent, if_pos (by decide)]
  have resolution : (materializeNode f).find (ascii "resolution_status") = none :=
    find_absent f (by decide)
  have entries : (AATree.byName (f.children.map fun c => (c.key, c))).length = values.length := by
    unfold AATree.byName
    rw [List.length_insertionSort, List.length_map, arity]
  have count : (childNodes (materializeNode f)).length = values.length := by
    rw [childNodes_materializeNode declares, List.length_map, entries]
  -- No argument becomes a callback.
  have kept : ((childNodes (materializeNode f)).zip values).mapM
      (fun x => convertCallback buildClosureValue x.1 x.2) = some values := by
    rw [childNodes_materializeNode declares]
    exact convertCallbacks_materializeNode _ _ entries
  unfold evalDispatchFFI
  simp only [kind, name, policy, resolution, ne_eq, not_true_eq_false, if_false, Bool.not_true,
    Option.map_none, evalDispatchFFI.call, count, popArguments_reverse, List.append_nil, kept]
  cases iterates : values.any isIterator with
  | true => exact executeIterativeFFI_eq []
  | false =>
    rw [everyChoice_eq iterates]
    rfl

theorem invocations_unnamed (unnamed : ¬(f.name ≠ [] ∧ f.name.length ≤ kBlobSlabBytes)) :
    (evalDispatchFFI ffi buildClosureValue vm (materializeNode f)).invocations = [] := by
  have name : ((materializeNode f).getValue (ascii "name")).bind Node.valueToString = none := by
    rw [getValue_name, Option.bind_some]
    by_cases fits : f.name.length ≤ kBlobSlabBytes
    · have empty : f.name = [] := not_not.mp fun named => unnamed ⟨named, fits⟩
      simp [empty, Node.createStringValue, Node.valueToString, Node.bytes]
    · simp [fits, Node.createStringValue, Node.valueToString, Node.bytes]
  unfold evalDispatchFFI
  simp only [name]
  split <;> rfl

section Exact

variable (accepts : ∀ rtype types, ffi.ffi_prep_cif rtype types = true) (declares : f.Declares)

include accepts declares

theorem closure_iff : ffi.createClosure (materializeNode f) = some (f.declaredReturn, f.declaredTypes) ↔
    f.returnType.length ≤ kBlobSlabBytes ∧ f.storedTypes = f.declaredTypes := by
  unfold Ffi.createClosure
  rw [returnType_materializeNode, parameterTypes_materializeNode declares]
  by_cases fits : f.returnType.length ≤ kBlobSlabBytes
  · rw [if_pos fits, Option.bind_some, if_pos (accepts _ _)]
    simp [fits]
  · rw [if_neg fits]
    simp [fits]

theorem slots_iff (returns : f.returnType.length ≤ kBlobSlabBytes) :
    ffi.invoke f.name (materializeNode f) args ≠ .fault ↔
      isBlocked f.name = true ∨ ffi.symbols f.name = false ∨
        SlotsSuffice args.values.length f.children.length := by
  cases blocked : isBlocked f.name with
  | true =>
    rw [invoke_refused _ _ (Or.inl blocked)]
    exact iff_of_true nofun (Or.inl rfl)
  | false =>
  cases found : ffi.symbols f.name with
  | false =>
    rw [invoke_refused _ _ (Or.inr found)]
    exact iff_of_true nofun (Or.inr (Or.inl rfl))
  | true =>
    have returned := returnType_materializeNode f
    rw [if_pos returns] at returned
    have spec := @invoke_eq ffi f.name (materializeNode f) args _ blocked found returned accepts
    rw [parameterTypes_materializeNode declares, length_storedTypes] at spec
    rcases spec with ⟨suffice, called⟩ | ⟨short, fault⟩
    · rw [called]
      exact iff_of_true nofun (Or.inr (Or.inr suffice))
    · rw [fault]
      exact iff_of_false (fun fine => fine rfl) (by simpa using short)

theorem invoke_choice (callable : Callable ffi f) (returns : f.returnType.length ≤ kBlobSlabBytes)
    {chosen : List ArgValue} (arity : chosen.length = f.children.length) :
    ffi.invoke f.name (materializeNode f) (.list chosen) = .called ⟨f.name, f.declaredReturn,
      List.zipWith (fun type value => (type, ffi.convertValue value type)) f.storedTypes chosen⟩ := by
  obtain ⟨-, -, allowed, found⟩ := callable
  have returned := returnType_materializeNode f
  rw [if_pos returns] at returned
  have spec := @invoke_eq ffi f.name (materializeNode f) (.list chosen) _ allowed found returned
    accepts
  rw [parameterTypes_materializeNode declares, length_storedTypes] at spec
  rcases spec with ⟨-, called⟩ | ⟨short, -⟩
  · exact called
  · refine absurd ?_ short
    show SlotsSuffice chosen.length _
    rw [arity]
    exact slotsSuffice_self _

theorem calls_iff (arity : values.length = f.children.length)
    (returns : f.returnType.length ≤ kBlobSlabBytes) (inOrder : f.storedTypes = f.declaredTypes) :
    (evalDispatchFFI ffi buildClosureValue { vm with stack := values.reverse ++ vm.stack }
        (materializeNode f)).invocations =
      (everyChoice values).map (fun chosen => .called (declaredCall ffi f chosen)) ↔
    everyChoice values = [] ∨ Callable ffi f := by
  by_cases named : f.name ≠ [] ∧ f.name.length ≤ kBlobSlabBytes
  swap
  · rw [invocations_unnamed named]
    constructor
    · exact fun none_ => Or.inl (List.map_eq_nil_iff.mp none_.symm)
    · rintro (none_ | callable)
      · rw [none_]
        rfl
      · exact absurd ⟨callable.1, callable.2.1⟩ named
  rw [invocations_evalDispatchFFI declares arity named.1 named.2]
  constructor
  · intro calls
    cases choices : everyChoice values with
    | nil => exact Or.inl rfl
    | cons chosen others =>
      rw [choices] at calls
      have first : ffi.invoke f.name (materializeNode f) (.list chosen) = .called _ :=
        (List.cons.inj calls).1
      -- A refused call is none that was declared.
      have made : ¬(isBlocked f.name = true ∨ ffi.symbols f.name = false) := by
        intro closed
        rw [invoke_refused _ _ closed] at first
        cases first
      exact Or.inr ⟨named.1, named.2, Bool.not_eq_true _ ▸ fun blocked => made (Or.inl blocked),
        Bool.not_eq_false _ ▸ fun missing => made (Or.inr missing)⟩
  · rintro (none_ | callable)
    · rw [none_]
      rfl
    · refine List.map_congr_left fun chosen member => ?_
      rw [invoke_choice accepts declares callable returns
        ((length_of_mem_everyChoice member).trans arity), inOrder]
      rfl

/--
A function is called as it is declared exactly when the types by the parameters' names are the
types in the order of the declaration, and nothing else keeps it from being called.
-/
theorem marshals_iff (arity : values.length = f.children.length) :
    Marshals ffi buildClosureValue vm f values args ↔ Marshallable ffi f values args := by
  constructor
  · rintro ⟨calls, closure, slots⟩
    obtain ⟨returns, inOrder⟩ := (closure_iff accepts declares).mp closure
    exact ⟨inOrder, returns, (calls_iff accepts declares arity returns inOrder).mp calls,
      (slots_iff accepts declares returns).mp slots⟩
  · rintro ⟨inOrder, returns, callable, slots⟩
    exact ⟨(calls_iff accepts declares arity returns inOrder).mpr callable,
      (closure_iff accepts declares).mpr ⟨returns, inOrder⟩,
      (slots_iff accepts declares returns).mpr slots⟩

end Exact

end Laws

def anyLibrary : Ffi where
  symbols _ := true
  ffi_prep_cif _ _ := true
  converted _ := .value {} false []
  stof _ := none
  stod _ := none

def parameter (name type : String) (size : Int32) : NodeDescription :=
  ⟨ascii name, ascii "Parameter", ascii name, ascii type, [], some size, none, []⟩

/-- `int scale(int a, double b)`, with any names for its parameters. -/
def scale (first second : String) : NodeDescription :=
  ⟨ascii "scale", ascii "Function", ascii "scale", ascii "int (int, double)", ascii "int", some 1,
    none, [parameter first "int" 4, parameter second "double" 8]⟩

theorem declares_scale {first second : String} (named : ascii first ≠ [] ∧ ascii second ≠ [])
    (distinct : ascii first ≠ ascii second) : (scale first second).Declares where
  function := rfl
  parameters := by simp [scale, parameter]
  named := by simpa [scale, parameter] using named
  distinct := by simpa [scale, parameter] using distinct

def idle : Caller :=
  ⟨[], none, false, {}⟩

/-- With the names in order the function is called as it is declared. -/
theorem marshals_scale : Marshals anyLibrary (fun _ _ => none) idle (scale "a" "b")
    [.value {} false (ascii "7"), .value {} false (ascii "2.5")] (.list []) := by
  refine (marshals_iff (fun _ _ => rfl) (declares_scale (by decide) (by decide)) rfl).mpr
    ⟨?_, ?_, Or.inr ⟨by decide, ?_, by decide, rfl⟩, Or.inr (Or.inr (Or.inl rfl))⟩
  · unfold NodeDescription.storedTypes NodeDescription.storedType kBlobSlabBytes
    decide
  · unfold kBlobSlabBytes
    decide
  · unfold kBlobSlabBytes
    decide

theorem storedTypes_scale : (scale "x" "factor").storedTypes = [.double, .sint32] := by
  unfold NodeDescription.storedTypes NodeDescription.storedType kBlobSlabBytes
  decide

/--
With names in another order the first value is handed over as the second type, and a closure has
its types the other way round. A third value is converted by a type that has not been stored.
-/
theorem marshals_fails :
    (evalDispatchFFI anyLibrary (fun _ _ => none)
        { idle with stack := [.value {} false (ascii "2.5"), .value {} false (ascii "7")] }
        (materializeNode (scale "x" "factor"))).invocations ≠
      [.called (declaredCall anyLibrary (scale "x" "factor")
        [.value {} false (ascii "7"), .value {} false (ascii "2.5")])] ∧
    anyLibrary.createClosure (materializeNode (scale "x" "factor")) =
      some (.sint32, [.double, .sint32]) ∧
    anyLibrary.invoke (ascii "scale") (materializeNode (scale "x" "factor"))
      (.list (List.replicate 3 (.value {} false (ascii "7")))) = .fault := by
  have declares : (scale "x" "factor").Declares := declares_scale (by decide) (by decide)
  have returns : (scale "x" "factor").returnType.length ≤ kBlobSlabBytes := by
    unfold kBlobSlabBytes
    decide
  have short : (scale "x" "factor").name.length ≤ kBlobSlabBytes := by
    unfold kBlobSlabBytes
    decide
  refine ⟨fun calls => ?_, ?_, ?_⟩
  · have made := @invocations_evalDispatchFFI anyLibrary (fun _ _ => none) idle (scale "x" "factor")
      [.value {} false (ascii "7"), .value {} false (ascii "2.5")] declares rfl (by decide) short
    rw [everyChoice_eq rfl, List.map_singleton, invoke_choice (fun _ _ => rfl) declares
      ⟨by decide, short, by decide, rfl⟩ returns rfl, storedTypes_scale] at made
    -- The first argument is an `int`, and it is handed over as a `double`.
    have same := calls.symm.trans made
    injection same with first
    injection first with first
    injection first with _ _ args
    injection args with first
    injection first with type
    cases type
  · unfold Ffi.createClosure
    rw [returnType_materializeNode, parameterTypes_materializeNode declares, if_pos returns,
      storedTypes_scale]
    rfl
  · have returned := returnType_materializeNode (scale "x" "factor")
    rw [if_pos returns] at returned
    have spec := @invoke_eq anyLibrary (ascii "scale") (materializeNode (scale "x" "factor"))
      (.list (List.replicate 3 (.value {} false (ascii "7")))) _ (by decide) rfl returned
      fun _ _ => rfl
    rw [parameterTypes_materializeNode declares, storedTypes_scale] at spec
    rcases spec with ⟨suffice, -⟩ | ⟨-, fault⟩
    · rcases suffice with none_ | ⟨typed, -⟩
      · cases none_
      · exact absurd typed (by decide)
    · exact fault

end AgentC.Edict

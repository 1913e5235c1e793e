import AgentC.Cartographer.Ffi

/-! The types that calls find in a declaration's node, and the slots that they are stored in. -/

namespace AgentC.Cartographer

open Listree (kBlobSlabBytes)

section Nodes

/-- The items of a declaration's node, in the order in which they are added. -/
def NodeDescription.fields (f : NodeDescription) : List (Name × Node) :=
  [(ascii "kind", Node.createStringValue f.kind), (ascii "name", Node.createStringValue f.name),
    (ascii "type", Node.createStringValue f.type)] ++
  (match f.size with
    | some size => [(ascii "size", Node.binary (intBytes size))]
    | none => []) ++
  (if f.returnType.isEmpty then []
    else [(ascii "return_type", Node.createStringValue f.returnType)]) ++
  (match f.offset with
    | some offset => [(ascii "offset", Node.binary (intBytes offset))]
    | none => []) ++
  [(ascii "children", Node.dict (AATree.dictionary (f.children.map fun child =>
    (child.key, materializeNode child))))]

theorem find_materializeNode (f : NodeDescription) (name : Name) :
    (materializeNode f).find name = (f.fields.lookup name).map fun value => [value] := by
  obtain ⟨key, kind, fname, type, returns, size, offset, children⟩ := f
  unfold materializeNode NodeDescription.fields
  rw [materializeChildren_eq]
  refine AATree.join_find_dictionary ?_ ?_
  -- The names are those in the source, with three of them optional.
  · cases size <;> cases offset <;> cases returns.isEmpty <;> simp [ascii]
  · cases size <;> cases offset <;> cases returns.isEmpty <;>
      simp only [List.map_append, List.map_cons, List.map_nil, List.append_nil, Bool.false_eq_true,
        if_true, if_false] <;> decide

theorem getValue_materializeNode (f : NodeDescription) (name : Name) :
    (materializeNode f).getValue name = f.fields.lookup name := by
  unfold Node.getValue
  rw [find_materializeNode]
  cases f.fields.lookup name <;> rfl

variable (f : NodeDescription)

theorem getValue_kind :
    (materializeNode f).getValue (ascii "kind") = some (Node.createStringValue f.kind) := by
  rw [getValue_materializeNode]
  rfl

theorem getValue_name :
    (materializeNode f).getValue (ascii "name") = some (Node.createStringValue f.name) := by
  rw [getValue_materializeNode]
  rfl

theorem getValue_type :
    (materializeNode f).getValue (ascii "type") = some (Node.createStringValue f.type) := by
  rw [getValue_materializeNode]
  rfl

theorem getValue_return_type :
    (materializeNode f).getValue (ascii "return_type") =
      if f.returnType.isEmpty then none else some (Node.createStringValue f.returnType) := by
  rw [getValue_materializeNode]
  obtain ⟨key, kind, fname, type, returns, size, offset, children⟩ := f
  unfold NodeDescription.fields
  cases size <;> cases offset <;> cases returns.isEmpty <;> rfl

theorem getValue_children :
    (materializeNode f).getValue (ascii "children") =
      some (.dict (AATree.dictionary (f.children.map fun child =>
        (child.key, materializeNode child)))) := by
  rw [getValue_materializeNode]
  obtain ⟨key, kind, fname, type, returns, size, offset, children⟩ := f
  unfold NodeDescription.fields
  cases size <;> cases offset <;> cases returns.isEmpty <;> rfl

theorem find_absent {name : Name} (absent : name ∉ ["kind", "name", "type", "size", "return_type",
    "offset", "children"].map ascii) : (materializeNode f).find name = none := by
  rw [find_materializeNode]
  have known : ∀ field ∈ f.fields, field.1 ∈ ["kind", "name", "type", "size", "return_type",
      "offset", "children"].map ascii := by
    obtain ⟨key, kind, fname, type, returns, size, offset, children⟩ := f
    unfold NodeDescription.fields
    cases size <;> cases offset <;> cases returns.isEmpty <;> simp
  rw [List.lookup_eq_none_iff.mpr, Option.map_none]
  intro field member
  have differs : name ≠ field.1 := fun same => absent (same ▸ known field member)
  simpa using differs

theorem bytes_createStringValue {text : List UInt8} (fits : text.length ≤ kBlobSlabBytes)
    (nonempty : text ≠ []) : (Node.createStringValue text).bytes = some text := by
  unfold Node.createStringValue Node.bytes
  rw [if_pos fits]
  simp [nonempty]

theorem word_fits {word : String} (short : (ascii word).length ≤ 65536) :
    (ascii word).length ≤ kBlobSlabBytes := by
  unfold kBlobSlabBytes
  exact short

end Nodes

/-- The type that is stored for a parameter. A text that is too long counts as `int`. -/
def NodeDescription.storedType (c : NodeDescription) : FFIType :=
  if c.type.length ≤ kBlobSlabBytes then getFFIType c.type else .sint32

def NodeDescription.declaredTypes (f : NodeDescription) : List FFIType :=
  f.children.map fun c => getFFIType c.type

def NodeDescription.storedTypes (f : NodeDescription) : List FFIType :=
  (AATree.byName (f.children.map fun c => (c.key, c))).map fun entry => entry.2.storedType

def NodeDescription.declaredReturn (f : NodeDescription) : FFIType :=
  if f.returnType.isEmpty then .void else getFFIType f.returnType

/-- A function whose children are parameters with different names. -/
structure NodeDescription.Declares (f : NodeDescription) : Prop where
  function : f.kind = ascii "Function"
  parameters : ∀ c ∈ f.children, c.kind = ascii "Parameter"
  named : ∀ c ∈ f.children, c.key ≠ []
  distinct : (f.children.map NodeDescription.key).Nodup

section Types

variable {f : NodeDescription}

theorem isParameterNode_materializeNode {c : NodeDescription} (kind : c.kind = ascii "Parameter") :
    isParameterNode (materializeNode c) = true := by
  unfold isParameterNode
  rw [getValue_kind, kind, Option.bind_some,
    bytes_createStringValue (word_fits (by decide)) (by decide), beq_self_eq_true]

theorem parameterType_materializeNode (c : NodeDescription) :
    parameterType (materializeNode c) = c.storedType := by
  unfold parameterType NodeDescription.storedType
  rw [getValue_type, Option.bind_some]
  by_cases fits : c.type.length ≤ kBlobSlabBytes
  · rw [if_pos fits]
    by_cases empty : c.type = []
    · have none_ : (Node.createStringValue []).bytes = none := by
        simp [Node.createStringValue, Node.bytes]
      rw [empty, none_]
      rfl
    · rw [bytes_createStringValue fits empty]
  · rw [if_neg fits]
    simp only [Node.createStringValue, if_neg fits, Node.bytes]
    rfl

theorem childNodes_materializeNode (declares : f.Declares) :
    childNodes (materializeNode f) =
      (AATree.byName (f.children.map fun c => (c.key, c))).map fun entry =>
        materializeNode entry.2 := by
  unfold childNodes
  rw [getValue_children]
  simp only
  rw [AATree.entries_dictionary]
  · have sorted : AATree.byName (f.children.map fun c => (c.key, materializeNode c)) =
        (AATree.byName (f.children.map fun c => (c.key, c))).map fun entry =>
          (entry.1, materializeNode entry.2) := by
      have mapped := List.map_insertionSort AATree.NotAfter AATree.NotAfter
        (fun entry : Name × NodeDescription => (entry.1, materializeNode entry.2))
        (f.children.map fun c => (c.key, c)) fun _ _ _ _ => Iff.rfl
      rw [List.map_map] at mapped
      exact mapped.symm
    rw [sorted, List.filterMap_map, List.filterMap_map]
    exact congrFun List.filterMap_eq_map _
  · intro field member
    obtain ⟨c, isChild, rfl⟩ := List.mem_map.mp member
    exact declares.named c isChild
  · rw [List.map_map]
    exact declares.distinct

theorem parameterTypes_materializeNode (declares : f.Declares) :
    parameterTypes (materializeNode f) = f.storedTypes := by
  unfold parameterTypes NodeDescription.storedTypes
  rw [childNodes_materializeNode declares, List.filter_eq_self.mpr, List.map_map]
  · exact List.map_congr_left fun entry _ => parameterType_materializeNode entry.2
  · intro node member
    obtain ⟨entry, sorted, rfl⟩ := List.mem_map.mp member
    obtain ⟨c, isChild, rfl⟩ := List.mem_map.mp ((List.mem_insertionSort _).mp sorted)
    exact isParameterNode_materializeNode (declares.parameters c isChild)

theorem length_storedTypes (f : NodeDescription) : f.storedTypes.length = f.children.length := by
  unfold NodeDescription.storedTypes AATree.byName
  rw [List.length_map, List.length_insertionSort, List.length_map]

theorem returnType_materializeNode (f : NodeDescription) :
    returnType (materializeNode f) =
      if f.returnType.length ≤ kBlobSlabBytes then some f.declaredReturn else none := by
  unfold returnType NodeDescription.declaredReturn
  rw [getValue_return_type]
  by_cases empty : f.returnType = []
  · simp only [empty, List.isEmpty_nil, if_true, List.length_nil, Nat.zero_le]
    rfl
  · have stored : f.returnType.isEmpty = false := by simp [empty]
    rw [stored]
    simp only [Bool.false_eq_true, if_false, Node.createStringValue]
    by_cases fits : f.returnType.length ≤ kBlobSlabBytes
    · rw [if_pos fits, if_pos fits]
    · rw [if_neg fits, if_neg fits]

end Types

section Slots

variable (ffi : Ffi)

theorem storeTypes_append (types : List FFIType) : ∀ (front : List FFIType) (free : Nat),
    storeTypes (front.map some ++ List.replicate free none) front.length types =
      if types.length ≤ free then
        some ((front ++ types).map some ++ List.replicate (free - types.length) none)
      else none := by
  induction types with
  | nil => intro front free; simp [storeTypes]
  | cons type rest ih =>
    intro front free
    cases free with
    | zero => simp [storeTypes]
    | succ free =>
      -- The next slot is the first free one.
      have next : (front.map some ++ List.replicate (free + 1) none).set front.length (some type) =
          (front ++ [type]).map some ++ List.replicate free none := by
        rw [List.set_append_right _ _ (by simp), List.length_map, Nat.sub_self,
          List.replicate_succ, List.set_cons_zero]
        simp
      rw [storeTypes, if_pos (by simp), next, show front.length + 1 = (front ++ [type]).length by simp,
        ih (front ++ [type]) free]
      simp

theorem storeTypes_replicate (types : List FFIType) (capacity : Nat) :
    storeTypes (List.replicate capacity none) 0 types =
      if types.length ≤ capacity then
        some (types.map some ++ List.replicate (capacity - types.length) none)
      else none :=
  storeTypes_append types [] capacity

theorem convertArguments_eq (free : Nat) : ∀ (types : List FFIType) (values : List ArgValue),
    ffi.convertArguments (types.map some ++ List.replicate free none) values =
      if values.length ≤ types.length then
        some (List.zipWith (fun type value => (type, ffi.convertValue value type)) types values)
      else none
  | types, [] => by
    rw [if_pos (show ([] : List ArgValue).length ≤ types.length from Nat.zero_le _),
      List.zipWith_nil_right]
    cases types <;> cases free <;> rfl
  | [], value :: rest => by
    rw [if_neg (by simp)]
    cases free <;> rfl
  | type :: types, value :: rest => by
    rw [List.map_cons, List.cons_append, Ffi.convertArguments, convertArguments_eq free types rest]
    simp only [List.length_cons, Nat.add_le_add_iff_right, List.zipWith_cons_cons]
    split <;> rfl

def SlotsSuffice (nargs params : Nat) : Prop :=
  nargs = 0 ∨ nargs ≤ params ∧ params ≤ typeSlots nargs

theorem slotsSuffice_self (n : Nat) : SlotsSuffice n n := by
  unfold SlotsSuffice typeSlots
  split <;> omega

theorem invoke_refused {ffi : Ffi} {funcName : List UInt8} (definition : Node) (args : Arguments)
    (closed : isBlocked funcName = true ∨ ffi.symbols funcName = false) :
    ffi.invoke funcName definition args = .refused := by
  unfold Ffi.invoke
  rcases closed with blocked | missing
  · exact if_pos blocked
  · rw [missing]
    split <;> rfl

/-- What `invoke` does with a function that it may call. -/
theorem invoke_eq {ffi : Ffi} {funcName : List UInt8} {definition : Node} {args : Arguments}
    {rtype : FFIType} (allowed : isBlocked funcName = false) (found : ffi.symbols funcName = true)
    (returns : returnType definition = some rtype)
    (accepts : ∀ rtype types, ffi.ffi_prep_cif rtype types = true) :
    (SlotsSuffice args.values.length (parameterTypes definition).length ∧
      ffi.invoke funcName definition args = .called ⟨funcName, rtype,
        List.zipWith (fun type value => (type, ffi.convertValue value type))
          (parameterTypes definition) args.values⟩) ∨
    (¬SlotsSuffice args.values.length (parameterTypes definition).length ∧
      ffi.invoke funcName definition args = .fault) := by
  unfold Ffi.invoke SlotsSuffice
  rw [allowed, found, returns]
  simp only [Bool.false_eq_true, if_false, Bool.not_true, accepts, if_true]
  generalize args.values = values
  cases values with
  | nil =>
    -- No slot is used.
    refine Or.inl ⟨Or.inl rfl, ?_⟩
    simp [Ffi.convertArguments]
  | cons value rest =>
    rw [if_neg (by simp), storeTypes_replicate]
    by_cases fits : (parameterTypes definition).length ≤ typeSlots (value :: rest).length
    · rw [if_pos fits, Option.bind_some, convertArguments_eq]
      by_cases typed : (value :: rest).length ≤ (parameterTypes definition).length
      · rw [if_pos typed]
        exact Or.inl ⟨Or.inr ⟨typed, fits⟩, rfl⟩
      · rw [if_neg typed]
        refine Or.inr ⟨?_, rfl⟩
        rintro (none_ | ⟨less, -⟩)
        · cases none_
        · exact typed less
    · rw [if_neg fits]
      refine Or.inr ⟨?_, rfl⟩
      rintro (none_ | ⟨-, less⟩)
      · cases none_
      · exact fits less

end Slots

end AgentC.Cartographer

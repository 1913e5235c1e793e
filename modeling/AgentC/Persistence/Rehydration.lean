import AgentC.Listree.Tree

/-! The runtime member of an agent root, and what a start of the host brings into it. -/

namespace AgentC.Persistence

/--
A value of an agent root, without shared parts.

A node has its bytes, unless it is null, and its items in the order of their names. Each item has a
history of references, the latest first, which may lead to no value.
-/
inductive AgentValue where
  | list (readOnly : Bool) (children : List AgentValue)
  | node (readOnly binary : Bool) (bytes : Option (List UInt8))
      (members : List (Name × List (Option AgentValue)))

inductive Json where
  | null
  | string (bytes : List UInt8)
  | array (items : List Json)
  | object (fields : Name → Option Json)

def Json.field : Json → Name → Option Json
  | .object fields, name => fields name
  | _, _ => none

namespace AgentValue

/-- `createNullValue`. -/
def null : AgentValue :=
  .node false false none []

/-- `createStringValue`. -/
def text (bytes : List UInt8) : AgentValue :=
  .node false false (some bytes) []

def object (fields : List (Name × AgentValue)) : AgentValue :=
  .node false false none (fields.map fun field => (field.1, [some field.2]))

variable (v : AgentValue)

def find (name : Name) : Option (List (Option AgentValue)) :=
  match v with
  | .node _ _ _ members => members.lookup name
  | .list _ _ => none

/-- `find` with `getValue(false, false)`. -/
def latest (name : Name) : Option AgentValue :=
  (v.find name).bind fun history => history.head?.join

def isReadOnly : Bool :=
  match v with
  | .node readOnly _ _ _ => readOnly
  | .list readOnly _ => readOnly

def isPlain : Bool :=
  match v with
  | .node _ binary _ _ => !binary
  | .list _ _ => false

def withMembers (change : List (Name × List (Option AgentValue)) → List (Name × List (Option AgentValue))) :
    AgentValue :=
  match v with
  | .node readOnly binary bytes members => .node readOnly binary bytes (change members)
  | .list readOnly children => .list readOnly children

def alterMember (name : Name) (change : List (Option AgentValue) → List (Option AgentValue)) :
    List (Name × List (Option AgentValue)) → List (Name × List (Option AgentValue))
  | [] => []
  | (other, history) :: rest =>
    if other = name then (other, change history) :: rest else (other, history) :: alterMember name change rest

/-- Members with one more, in the order of the names. -/
def insertMember (name : Name) (history : List (Option AgentValue)) :
    List (Name × List (Option AgentValue)) → List (Name × List (Option AgentValue))
  | [] => [(name, history)]
  | (other, others) :: rest =>
    if name < other then (name, history) :: (other, others) :: rest
    else (other, others) :: insertMember name history rest

/-- `addItemValue` for an item that was found, at the end that is read or at the other one. -/
def addItemValue (name : Name) (value : AgentValue) (atEnd : Bool) : AgentValue :=
  if v.isReadOnly then v
  else v.withMembers (alterMember name fun history =>
    if atEnd then history ++ [some value] else some value :: history)

/-- `addNamedItem`, which makes an item if there is none. -/
def addNamedItem (name : Name) (value : AgentValue) : AgentValue :=
  if v.isReadOnly then v
  else if (v.find name).isSome then v.addItemValue name value false
  else v.withMembers (insertMember name [some value])

def remove (pinned : Name → Bool) (name : Name) : AgentValue :=
  if v.isReadOnly || pinned name then v
  else v.withMembers (List.filter fun member => member.1 ≠ name)

def setLatest (name : Name) (value : AgentValue) : AgentValue :=
  v.withMembers (alterMember name fun history => some value :: history.tail)

/-- What the JSON text of a value says. The first argument is 257 less the depth. -/
def toJson : Nat → AgentValue → Json
  | 0, _ => .null
  | remaining + 1, .list _ children => .array (children.map (toJson remaining))
  | remaining + 1, .node _ binary bytes members =>
    if binary then .null
    else if members.isEmpty then
      match bytes with
      | some bytes => .string bytes
      | none => .null
    else
      -- An item without a value is left out.
      .object fun name =>
        ((members.lookup name).bind fun history => history.head?.join).map (toJson remaining)

end AgentValue

open AgentValue

/-- What stands outside: the modules that bindings come from, the JSON library and the provider catalog. -/
structure Host where
  /-- What running the bootstrap script leaves of a root, unless it throws. -/
  importBindings : AgentValue → Option AgentValue
  binds : Name → Bool
  /-- Whether the JSON library takes the text of a value. -/
  parses : Json → Bool
  /-- The configuration that the catalog gives for a provider and a model, unless it throws. -/
  runtimeConfigValue : Name → Name → Option AgentValue
  pinned : Name → Bool
  unbound : binds (ascii "runtime") = false
  /-- Running the script changes nothing of a root but the bindings. -/
  leaves : ∀ root after, importBindings root = some after →
    after.isPlain = root.isPlain ∧ after.isReadOnly = root.isReadOnly ∧
      ∀ name, binds name = false → after.find name = root.find name

/-- The libraries that the metadata names. -/
structure VmRuntimeImportArtifacts where
  runtimeLibraryPath : List UInt8
  extensionsLibraryPath : List UInt8

section Rehydration

def stringField (json : Json) (key : String) (fallback : List UInt8) : List UInt8 :=
  match json.field (ascii key) with
  | some (.string bytes) => bytes
  | _ => fallback

def filename (path : List UInt8) : List UInt8 :=
  (path.reverse.takeWhile (· ≠ 0x2F)).reverse

/-- What is told about a rehydration. -/
def runtimeRehydrationMetadata (artifacts : VmRuntimeImportArtifacts)
    (lifecycleEvent configPathHint : List UInt8) :
    AgentValue :=
  let binding := object [
    (ascii "extensions_library", text (filename artifacts.extensionsLibraryPath)),
    (ascii "kind", text (ascii "embedded_imported_agentc_runtime")),
    (ascii "module_name", text (ascii "agentc")),
    (ascii "runtime_library", text (filename artifacts.runtimeLibraryPath))]
  object ([(ascii "binding", binding)] ++
    (if configPathHint.isEmpty then [] else [(ascii "config_path_hint", text configPathHint)]) ++
    [(ascii "config_source", text (ascii (if configPathHint.isEmpty then "host-defaults" else "config-file"))),
      (ascii "last_event", text lifecycleEvent),
      (ascii "status", text (ascii "complete")),
      (ascii "transient_handles_persisted", text (ascii "not-persisted")),
      (ascii "transient_state_rebuilt", text (ascii "rebuilt"))])

def bound (root : AgentValue) : Bool :=
  (root.find (ascii "agentc_call")).isSome && (root.find (ascii "ext")).isSome &&
    (root.find (ascii "runtimeffi")).isSome

def importMissing (host : Host) (root : AgentValue) : Option AgentValue :=
  if bound root then some root else host.importBindings root

def runtimeOf (root : AgentValue) : AgentValue :=
  (root.latest (ascii "runtime")).getD null

def requested (config : Json) (runtime : AgentValue) (key : String) : List UInt8 :=
  stringField (runtime.toJson 257) key (stringField config key [])

def update (runtime : AgentValue) (name : Name) (value : AgentValue) : AgentValue :=
  if (runtime.find name).isSome then runtime.addItemValue name value true
  else runtime.addNamedItem name value

/-- A default is set where the runtime has none, or asks for the empty one. -/
def setRuntimeString (config : Json) (runtime : AgentValue) (resolved : Json) (key : String)
    (updated : AgentValue) : AgentValue :=
  let asked := requested config runtime key
  if ((runtime.toJson 257).field (ascii key)).isNone || asked.isEmpty then
    update updated (ascii key) (text (stringField resolved key asked))
  else updated

/-- The root with its runtime changed. The object is shared, so that changes reach it where it was put. -/
def attach (root runtime : AgentValue) : AgentValue :=
  match root.find (ascii "runtime") with
  | none => root.addNamedItem (ascii "runtime") runtime
  | some history =>
    match history.head?.join with
    | some _ => root.setLatest (ascii "runtime") runtime
    | none => root.addItemValue (ascii "runtime") runtime true

/-- The runtime with the defaults, the contract and the metadata of a call. -/
def rehydrated (config : Json) (runtime resolved contract metadata : AgentValue) : AgentValue :=
  let resolvedJson := resolved.toJson 257
  let updated := setRuntimeString config runtime resolvedJson "default_provider" runtime
  let updated := setRuntimeString config runtime resolvedJson "default_model" updated
  let updated := update updated (ascii "provider_contract") contract
  update updated (ascii "rehydration") metadata

/-- `rehydrate_vm_runtime_state`. Nothing is returned when it throws. -/
def rehydrateVmRuntimeState (host : Host) (config : Json) (artifacts : VmRuntimeImportArtifacts)
    (lifecycleEvent configPathHint : List UInt8) (root : AgentValue) : Option AgentValue :=
  (importMissing host root).bind fun root =>
    let root := root.remove host.pinned (ascii "__vm_runtime_response")
    let root := root.remove host.pinned (ascii "vm_runtime_handle")
    let runtime := runtimeOf root
    let metadata := runtimeRehydrationMetadata artifacts lifecycleEvent configPathHint
    if host.parses (runtime.toJson 257) && host.parses (metadata.toJson 257) then
      (host.runtimeConfigValue (requested config runtime "default_provider")
        (requested config runtime "default_model")).bind fun resolved =>
          if host.parses (resolved.toJson 257) then
            (resolved.latest (ascii "provider_contract")).map fun contract =>
              attach root (rehydrated config runtime resolved contract metadata)
          else none
    else none

end Rehydration

section Members

variable {members : List (Name × List (Option AgentValue))} {name other : Name}

theorem lookup_cons_ite (first : Name) (history : List (Option AgentValue)) :
    ((first, history) :: members).lookup other = if other = first then some history else members.lookup other := by
  rw [List.lookup_cons]
  by_cases same : other = first
  · rw [if_pos same, beq_iff_eq.mpr same]
  · rw [if_neg same, beq_false_of_ne same]

theorem lookup_alterMember (change : List (Option AgentValue) → List (Option AgentValue)) :
    (alterMember name change members).lookup other =
      if other = name then (members.lookup name).map change else members.lookup other := by
  induction members with
  | nil => simp [alterMember]
  | cons member rest ih =>
    rcases member with ⟨first, history⟩
    rw [alterMember]
    by_cases here : first = name
    · subst here
      simp only [if_true, lookup_cons_ite, Option.map_some]
      split <;> rfl
    · rw [if_neg here, lookup_cons_ite, lookup_cons_ite, lookup_cons_ite, ih]
      by_cases same : other = first
      · simp [same, here]
      · simp [same, Ne.symm here]

theorem lookup_insertMember (history : List (Option AgentValue)) (new : members.lookup name = none) :
    (insertMember name history members).lookup other =
      if other = name then some history else members.lookup other := by
  induction members with
  | nil => rw [insertMember, lookup_cons_ite]
  | cons member rest ih =>
    rcases member with ⟨first, others⟩
    rw [lookup_cons_ite] at new
    by_cases here : name = first
    · rw [if_pos here] at new
      cases new
    · rw [if_neg here] at new
      rw [insertMember]
      split
      · rw [lookup_cons_ite]
      · rw [lookup_cons_ite, ih new, lookup_cons_ite]
        by_cases same : other = first
        · simp [same, Ne.symm here]
        · simp [same]

theorem lookup_filter_ne : (members.filter fun member => member.1 ≠ name).lookup other =
    if other = name then none else members.lookup other := by
  induction members with
  | nil => simp
  | cons member rest ih =>
    rcases member with ⟨first, history⟩
    by_cases here : first = name
    · rw [List.filter_cons_of_neg (by simp [here]), ih, lookup_cons_ite]
      by_cases same : other = name
      · simp [same]
      · simp [same, here]
    · rw [List.filter_cons_of_pos (by simpa using here), lookup_cons_ite, ih, lookup_cons_ite]
      by_cases same : other = first
      · simp [same, here]
      · simp [same]

end Members

namespace AgentValue

variable {v : AgentValue} {name other : Name} {value : AgentValue}

/-- What `addItemValue` leaves under the names. -/
theorem find_addItemValue (atEnd : Bool) : (v.addItemValue name value atEnd).find other =
    if other = name ∧ v.isReadOnly = false then
      (v.find name).map fun history => if atEnd then history ++ [some value] else some value :: history
    else v.find other := by
  unfold addItemValue
  cases v with
  | list readOnly children => cases readOnly <;> simp [find, isReadOnly, withMembers]
  | node readOnly binary bytes members =>
    cases readOnly with
    | true => simp [isReadOnly]
    | false => simp [find, isReadOnly, withMembers, lookup_alterMember]

/-- What `addNamedItem` leaves under the names of a node, when there was no item. -/
theorem find_addNamedItem {readOnly binary : Bool} {bytes : Option (List UInt8)}
    {members : List (Name × List (Option AgentValue))} (new : members.lookup name = none) :
    ((node readOnly binary bytes members).addNamedItem name value).find other =
      if other = name ∧ readOnly = false then some [some value] else members.lookup other := by
  unfold addNamedItem
  cases readOnly with
  | true => simp [isReadOnly, find]
  | false => simp [isReadOnly, find, new, withMembers, lookup_insertMember]

/-- What `remove` leaves under the names. -/
theorem find_remove (pinned : Name → Bool) (apart : other ≠ name) :
    (v.remove pinned name).find other = v.find other := by
  unfold AgentValue.remove
  split
  · rfl
  · cases v with
    | list readOnly children => rfl
    | node readOnly binary bytes members =>
      show (members.filter _).lookup other = members.lookup other
      rw [lookup_filter_ne, if_neg apart]

/-- What `setLatest` leaves under the names. -/
theorem find_setLatest : (v.setLatest name value).find other =
    if other = name then (v.find name).map fun history => some value :: history.tail else v.find other := by
  unfold setLatest
  cases v with
  | list readOnly children => simp [find, withMembers]
  | node readOnly binary bytes members => simp [find, withMembers, lookup_alterMember]

theorem field_toJson (remaining : Nat) :
    (v.toJson (remaining + 1)).field name = if v.isPlain then (v.latest name).map (toJson remaining) else none := by
  cases v with
  | list readOnly children => rfl
  | node readOnly binary bytes members =>
    cases binary with
    | true => rfl
    | false =>
      cases members with
      | nil => cases bytes <;> rfl
      | cons member rest => rfl

theorem toJson_string_iff (remaining : Nat) (bytes : List UInt8) :
    v.toJson (remaining + 1) = .string bytes ↔ ∃ readOnly, v = node readOnly false (some bytes) [] := by
  cases v with
  | list readOnly children => simp [toJson]
  | node readOnly binary own members =>
    -- Of the nodes, only those with bytes alone are told as a text.
    cases binary with
    | true => simp [toJson]
    | false =>
      cases members with
      | cons member rest => simp [toJson]
      | nil => cases own <;> simp [toJson]

theorem flags_withMembers
    (change : List (Name × List (Option AgentValue)) → List (Name × List (Option AgentValue))) :
    (v.withMembers change).isPlain = v.isPlain ∧ (v.withMembers change).isReadOnly = v.isReadOnly := by
  cases v with
  | list readOnly children => exact ⟨rfl, rfl⟩
  | node readOnly binary bytes members => exact ⟨rfl, rfl⟩

theorem flags_addItemValue (atEnd : Bool) : (v.addItemValue name value atEnd).isPlain = v.isPlain ∧
    (v.addItemValue name value atEnd).isReadOnly = v.isReadOnly := by
  unfold addItemValue
  split
  · exact ⟨rfl, rfl⟩
  · exact flags_withMembers _

theorem flags_addNamedItem : (v.addNamedItem name value).isPlain = v.isPlain ∧
    (v.addNamedItem name value).isReadOnly = v.isReadOnly := by
  unfold addNamedItem
  split
  · exact ⟨rfl, rfl⟩
  · split
    · exact flags_addItemValue false
    · exact flags_withMembers _

theorem flags_remove (pinned : Name → Bool) : (v.remove pinned name).isPlain = v.isPlain ∧
    (v.remove pinned name).isReadOnly = v.isReadOnly := by
  unfold AgentValue.remove
  split
  · exact ⟨rfl, rfl⟩
  · exact flags_withMembers _

end AgentValue

section Update

variable {runtime : AgentValue} {name other : Name} {value : AgentValue}

theorem flags_update : (update runtime name value).isPlain = runtime.isPlain ∧
    (update runtime name value).isReadOnly = runtime.isReadOnly := by
  unfold update
  split
  · exact flags_addItemValue true
  · exact flags_addNamedItem

theorem find_update (plain : runtime.isPlain = true) : (update runtime name value).find other =
    if other = name ∧ runtime.isReadOnly = false then some ((runtime.find name).getD [] ++ [some value])
    else runtime.find other := by
  unfold update
  cases there : runtime.find name with
  | some history =>
    rw [Option.isSome_some, if_pos rfl, find_addItemValue, there]
    rfl
  | none =>
    cases runtime with
    | list readOnly children => cases plain
    | node readOnly binary bytes members =>
      rw [Option.isSome_none, if_neg (by decide), find_addNamedItem there]
      rfl

theorem latest_update (plain : runtime.isPlain = true) : (update runtime name value).latest name =
    if runtime.isReadOnly = false ∧ (runtime.find name).getD [] = [] then some value
    else runtime.latest name := by
  unfold latest
  rw [find_update plain]
  cases runtime.isReadOnly with
  | true => simp
  | false =>
    -- What is read is the other end of the history than the one that was added at.
    cases runtime.find name with
    | none => simp
    | some history => cases history <;> simp

theorem find_update_ne (plain : runtime.isPlain = true) (apart : other ≠ name) :
    (update runtime name value).find other = runtime.find other := by
  rw [find_update plain, if_neg fun same => apart same.1]

end Update

/-- A value that is put under a name of the runtime can be seen there, or is already. -/
def Takes (runtime : AgentValue) (name : Name) (value : AgentValue) : Prop :=
  (runtime.latest name).map (toJson 255) = some (value.toJson 255) ∨
    (runtime.isReadOnly = false ∧ (runtime.find name).getD [] = [])

section Takes

variable {runtime : AgentValue} {name : Name} {value : AgentValue}

theorem shown_update_iff (plain : runtime.isPlain = true) :
    ((update runtime name value).latest name).map (toJson 255) = some (value.toJson 255) ↔
      Takes runtime name value := by
  rw [latest_update plain]
  unfold Takes
  split
  next free => exact ⟨fun _ => .inr free, fun _ => rfl⟩
  next kept => exact ⟨.inl, fun takes => takes.resolve_right kept⟩

theorem takes_congr {updated : AgentValue} (items : updated.find name = runtime.find name)
    (flags : updated.isReadOnly = runtime.isReadOnly) : Takes updated name value ↔ Takes runtime name value := by
  unfold Takes latest
  rw [items, flags]

end Takes

section Defaults

variable {config : Json} {runtime updated : AgentValue} {resolved : Json} {key : String} {other : Name}

theorem flags_setRuntimeString :
    (setRuntimeString config runtime resolved key updated).isPlain = updated.isPlain ∧
    (setRuntimeString config runtime resolved key updated).isReadOnly = updated.isReadOnly := by
  unfold setRuntimeString
  dsimp only
  split
  · exact flags_update
  · exact ⟨rfl, rfl⟩

theorem find_setRuntimeString_ne (plain : updated.isPlain = true) (apart : other ≠ ascii key) :
    (setRuntimeString config runtime resolved key updated).find other = updated.find other := by
  unfold setRuntimeString
  dsimp only
  split
  · exact find_update_ne plain apart
  · rfl

theorem stringField_kept (none : stringField (runtime.toJson 257) key [] = [])
    (kept : ¬(((runtime.toJson 257).field (ascii key)).isNone ||
      (requested config runtime key).isEmpty) = true) (bytes : List UInt8) :
    ∃ shown, (runtime.toJson 257).field (ascii key) = some shown ∧ shown ≠ .string bytes := by
  unfold requested at kept
  unfold stringField at none kept
  cases field : (runtime.toJson 257).field (ascii key) with
  | none => simp [field] at kept
  | some shown =>
    refine ⟨shown, rfl, ?_⟩
    rintro rfl
    -- An empty text would be asked for, and then the default is set.
    simp only [field] at none kept
    simp [none] at kept

theorem shown_setRuntimeString_iff (plain : runtime.isPlain = true) (same : updated.isPlain = true)
    (items : updated.find (ascii key) = runtime.find (ascii key)) (flags : updated.isReadOnly = runtime.isReadOnly)
    (none : stringField (runtime.toJson 257) key [] = []) :
    ((setRuntimeString config runtime resolved key updated).latest (ascii key)).map (toJson 255) =
        some (.string (stringField resolved key (requested config runtime key))) ↔
      Takes runtime (ascii key) (text (stringField resolved key (requested config runtime key))) := by
  rw [← takes_congr items flags]
  unfold setRuntimeString
  dsimp only
  split
  next set => exact shown_update_iff same
  next kept =>
    -- What is there is no text, and it hides the default whether or not that is set.
    obtain ⟨shown, there, apart⟩ := stringField_kept none kept
      (stringField resolved key (requested config runtime key))
    rw [field_toJson, if_pos plain] at there
    unfold Takes latest
    rw [items]
    unfold latest at there
    cases history : runtime.find (ascii key) with
    | none => simp [history] at there
    | some history' =>
      rw [history] at there
      cases history' with
      | nil => simp at there
      | cons first rest =>
        cases first with
        | none => simp at there
        | some first =>
          have no : ¬first.toJson 255 = .string (stringField resolved key (requested config runtime key)) := by
            intro text
            refine apart ?_
            have there : first.toJson 256 = shown := by simpa using there
            rw [← there, toJson_string_iff]
            exact (toJson_string_iff 254 _).mp text
          simp [text, toJson, no]

end Defaults

section Attach

variable {root runtime : AgentValue} {name : Name}

theorem latest_attach (plain : root.isPlain = true) : (attach root runtime).latest (ascii "runtime") =
    if (root.latest (ascii "runtime")).isSome ∨
      (root.isReadOnly = false ∧ (root.find (ascii "runtime")).getD [] = []) then some runtime else none := by
  cases there : root.find (ascii "runtime") with
  | none =>
    cases root with
    | list readOnly children => cases plain
    | node readOnly binary bytes members =>
      have none : members.lookup (ascii "runtime") = none := there
      simp only [attach, there, latest, find_addNamedItem there]
      cases readOnly <;> simp [isReadOnly, none]
  | some history =>
    cases history with
    | nil =>
      simp only [attach, there, latest, List.head?_nil, Option.join_none, find_addItemValue]
      cases root.isReadOnly <;> simp
    | cons first rest =>
      cases first with
      | none =>
        -- The runtime goes to the end of the item that is not read.
        simp only [attach, there, latest, List.head?_cons, Option.join_some, find_addItemValue]
        cases root.isReadOnly <;> simp
      | some first =>
        simp only [attach, there, latest, List.head?_cons, Option.join_some, find_setLatest]
        simp

theorem find_attach_ne (apart : name ≠ ascii "runtime") :
    (attach root runtime).find name = root.find name := by
  unfold attach
  split
  next there =>
    cases root with
    | list readOnly children => cases readOnly <;> rfl
    | node readOnly binary bytes members =>
      rw [find_addNamedItem there, if_neg fun same => apart same.1]
      rfl
  next =>
    split
    · rw [find_setLatest, if_neg apart]
    · rw [find_addItemValue, if_neg fun same => apart same.1]

theorem plain_attach : (attach root runtime).isPlain = root.isPlain := by
  unfold attach
  split
  · exact flags_addNamedItem.1
  · split
    · exact (flags_withMembers _).1
    · exact (flags_addItemValue true).1

end Attach

def runtimeField (root : AgentValue) (name : Name) : Option Json :=
  ((root.toJson 257).field (ascii "runtime")).bind fun runtime => runtime.field name

structure Resolves (host : Host) (config : Json) (root resolved contract : AgentValue) : Prop where
  configured : host.runtimeConfigValue (requested config (runtimeOf root) "default_provider")
    (requested config (runtimeOf root) "default_model") = some resolved
  found : resolved.latest (ascii "provider_contract") = some contract

section Visible

variable (host : Host) (config : Json) (artifacts : VmRuntimeImportArtifacts)
  (lifecycleEvent configPathHint : List UInt8) (root resolved contract : AgentValue)

def GivesNone (key : String) : Prop :=
  stringField ((runtimeOf root).toJson 257) key [] = []

def resolvedDefault (key : String) : List UInt8 :=
  stringField (resolved.toJson 257) key (requested config (runtimeOf root) key)

/-- After a rehydration the root shows what it brought, and has the rest as it was. -/
structure Visible (after : AgentValue) : Prop where
  contract : runtimeField after (ascii "provider_contract") = some (contract.toJson 255)
  metadata : runtimeField after (ascii "rehydration") =
    some ((runtimeRehydrationMetadata artifacts lifecycleEvent configPathHint).toJson 255)
  provider : GivesNone root "default_provider" → runtimeField after (ascii "default_provider") =
    some (.string (resolvedDefault config root resolved "default_provider"))
  model : GivesNone root "default_model" → runtimeField after (ascii "default_model") =
    some (.string (resolvedDefault config root resolved "default_model"))
  -- The bindings of the runtime are brought anew, if one of them is missing.
  others : ∀ name, name ≠ ascii "runtime" → name ≠ ascii "__vm_runtime_response" →
    name ≠ ascii "vm_runtime_handle" → (bound root = true ∨ host.binds name = false) →
      after.find name = root.find name

/-- The root reads its runtime from an item that takes it, and the runtime takes what is brought. -/
structure Admits : Prop where
  shown : root.isPlain = true
  attached : (root.latest (ascii "runtime")).isSome ∨
    (root.isReadOnly = false ∧ (root.find (ascii "runtime")).getD [] = [])
  plain : (runtimeOf root).isPlain = true
  contract : Takes (runtimeOf root) (ascii "provider_contract") contract
  metadata : Takes (runtimeOf root) (ascii "rehydration")
    (runtimeRehydrationMetadata artifacts lifecycleEvent configPathHint)
  provider : GivesNone root "default_provider" → Takes (runtimeOf root) (ascii "default_provider")
    (text (resolvedDefault config root resolved "default_provider"))
  model : GivesNone root "default_model" → Takes (runtimeOf root) (ascii "default_model")
    (text (resolvedDefault config root resolved "default_model"))

end Visible

section Runtime

variable {config : Json} {runtime resolved contract metadata : AgentValue} {name : Name}

/-- The runtime after the defaults were set. -/
def defaulted (config : Json) (runtime resolved : AgentValue) : AgentValue :=
  setRuntimeString config runtime (resolved.toJson 257) "default_model"
    (setRuntimeString config runtime (resolved.toJson 257) "default_provider" runtime)

theorem flags_defaulted : (defaulted config runtime resolved).isPlain = runtime.isPlain ∧
    (defaulted config runtime resolved).isReadOnly = runtime.isReadOnly := by
  unfold defaulted
  exact ⟨flags_setRuntimeString.1.trans flags_setRuntimeString.1,
    flags_setRuntimeString.2.trans flags_setRuntimeString.2⟩

theorem find_defaulted (plain : runtime.isPlain = true) (noProvider : name ≠ ascii "default_provider")
    (noModel : name ≠ ascii "default_model") :
    (defaulted config runtime resolved).find name = runtime.find name := by
  unfold defaulted
  rw [find_setRuntimeString_ne (flags_setRuntimeString.1.trans plain) noModel,
    find_setRuntimeString_ne plain noProvider]

theorem flags_rehydrated :
    (rehydrated config runtime resolved contract metadata).isPlain = runtime.isPlain :=
  flags_update.1.trans (flags_update.1.trans flags_defaulted.1)

theorem find_rehydrated (plain : runtime.isPlain = true) (noContract : name ≠ ascii "provider_contract")
    (noMetadata : name ≠ ascii "rehydration") :
    (rehydrated config runtime resolved contract metadata).find name = (defaulted config runtime resolved).find name := by
  have plain : (defaulted config runtime resolved).isPlain = true := flags_defaulted.1.trans plain
  exact (find_update_ne (flags_update.1.trans plain) noMetadata).trans (find_update_ne plain noContract)

theorem contract_rehydrated_iff (plain : runtime.isPlain = true) :
    ((rehydrated config runtime resolved contract metadata).latest (ascii "provider_contract")).map (toJson 255) =
      some (contract.toJson 255) ↔ Takes runtime (ascii "provider_contract") contract := by
  have defaults : (defaulted config runtime resolved).isPlain = true := flags_defaulted.1.trans plain
  -- The metadata is put elsewhere, and the defaults were too.
  have kept : (rehydrated config runtime resolved contract metadata).find (ascii "provider_contract") =
      (update (defaulted config runtime resolved) (ascii "provider_contract") contract).find
        (ascii "provider_contract") :=
    find_update_ne (flags_update.1.trans defaults) (by decide)
  unfold latest at *
  rw [kept, ← takes_congr (find_defaulted plain (by decide) (by decide)) flags_defaulted.2]
  exact shown_update_iff defaults

theorem metadata_rehydrated_iff (plain : runtime.isPlain = true) :
    ((rehydrated config runtime resolved contract metadata).latest (ascii "rehydration")).map (toJson 255) =
      some (metadata.toJson 255) ↔ Takes runtime (ascii "rehydration") metadata := by
  have defaults : (defaulted config runtime resolved).isPlain = true := flags_defaulted.1.trans plain
  have kept : (update (defaulted config runtime resolved) (ascii "provider_contract") contract).find
      (ascii "rehydration") = runtime.find (ascii "rehydration") :=
    (find_update_ne defaults (by decide)).trans (find_defaulted plain (by decide) (by decide))
  rw [← takes_congr kept (flags_update.2.trans flags_defaulted.2)]
  exact shown_update_iff (flags_update.1.trans defaults)

theorem provider_rehydrated_iff (plain : runtime.isPlain = true)
    (none : stringField (runtime.toJson 257) "default_provider" [] = []) :
    ((rehydrated config runtime resolved contract metadata).latest (ascii "default_provider")).map (toJson 255) =
        some (.string (stringField (resolved.toJson 257) "default_provider"
          (requested config runtime "default_provider"))) ↔
      Takes runtime (ascii "default_provider") (text (stringField (resolved.toJson 257) "default_provider"
        (requested config runtime "default_provider"))) := by
  -- The model is set after the provider, under another name.
  have kept : (rehydrated config runtime resolved contract metadata).find (ascii "default_provider") =
      (setRuntimeString config runtime (resolved.toJson 257) "default_provider" runtime).find
        (ascii "default_provider") :=
    (find_rehydrated plain (by decide) (by decide)).trans
      (find_setRuntimeString_ne (flags_setRuntimeString.1.trans plain) (by decide))
  have shown := @shown_setRuntimeString_iff config runtime runtime (resolved.toJson 257) "default_provider"
    plain plain rfl rfl none
  unfold latest at shown ⊢
  rw [kept]
  exact shown

theorem model_rehydrated_iff (plain : runtime.isPlain = true)
    (none : stringField (runtime.toJson 257) "default_model" [] = []) :
    ((rehydrated config runtime resolved contract metadata).latest (ascii "default_model")).map (toJson 255) =
        some (.string (stringField (resolved.toJson 257) "default_model"
          (requested config runtime "default_model"))) ↔
      Takes runtime (ascii "default_model") (text (stringField (resolved.toJson 257) "default_model"
        (requested config runtime "default_model"))) := by
  have kept : (rehydrated config runtime resolved contract metadata).find (ascii "default_model") =
      (defaulted config runtime resolved).find (ascii "default_model") :=
    find_rehydrated plain (by decide) (by decide)
  have shown := @shown_setRuntimeString_iff config runtime
    (setRuntimeString config runtime (resolved.toJson 257) "default_provider" runtime) (resolved.toJson 257)
    "default_model" plain (flags_setRuntimeString.1.trans plain) (find_setRuntimeString_ne plain (by decide))
    flags_setRuntimeString.2 none
  unfold latest at shown ⊢
  rw [kept]
  exact shown

end Runtime

section Rehydrate

variable {host : Host} {config : Json} {artifacts : VmRuntimeImportArtifacts}
  {lifecycleEvent configPathHint : List UInt8} {root imported after resolved contract : AgentValue} {name : Name}

theorem importMissing_leaves (run : importMissing host root = some imported) :
    imported.isPlain = root.isPlain ∧ imported.isReadOnly = root.isReadOnly ∧
      ∀ name, (bound root = true ∨ host.binds name = false) → imported.find name = root.find name := by
  unfold importMissing at run
  split at run
  next =>
    cases run
    exact ⟨rfl, rfl, fun _ _ => rfl⟩
  next missing =>
    obtain ⟨plain, readOnly, members⟩ := host.leaves root imported run
    exact ⟨plain, readOnly, fun name free => members name (free.resolve_left missing)⟩

theorem rehydrate_cases
    (run : rehydrateVmRuntimeState host config artifacts lifecycleEvent configPathHint root = some after)
    (resolves : Resolves host config root resolved contract) :
    ∃ cleared : AgentValue, cleared.isPlain = root.isPlain ∧ cleared.isReadOnly = root.isReadOnly ∧
      (∀ name, name ≠ ascii "__vm_runtime_response" → name ≠ ascii "vm_runtime_handle" →
        (bound root = true ∨ host.binds name = false) → cleared.find name = root.find name) ∧
      after = attach cleared (rehydrated config (runtimeOf root) resolved contract
        (runtimeRehydrationMetadata artifacts lifecycleEvent configPathHint)) := by
  unfold rehydrateVmRuntimeState at run
  obtain ⟨imported, bindings, run⟩ := Option.bind_eq_some_iff.mp run
  obtain ⟨plain, readOnly, members⟩ := importMissing_leaves bindings
  -- The scratch members are no runtime, so the runtime is the one that the root had.
  have cleared : ∀ name, name ≠ ascii "__vm_runtime_response" → name ≠ ascii "vm_runtime_handle" →
      (bound root = true ∨ host.binds name = false) →
        ((imported.remove host.pinned (ascii "__vm_runtime_response")).remove host.pinned
          (ascii "vm_runtime_handle")).find name = root.find name := by
    intro name noResponse noHandle free
    rw [find_remove _ noHandle, find_remove _ noResponse, members name free]
  have runtime : runtimeOf ((imported.remove host.pinned (ascii "__vm_runtime_response")).remove host.pinned
      (ascii "vm_runtime_handle")) = runtimeOf root := by
    unfold runtimeOf latest
    rw [cleared _ (by decide) (by decide) (.inr host.unbound)]
  refine ⟨_, ?_, ?_, cleared, ?_⟩
  · rw [(flags_remove _).1, (flags_remove _).1, plain]
  · rw [(flags_remove _).2, (flags_remove _).2, readOnly]
  · simp only [runtime, resolves.configured, Option.bind_some, resolves.found, Option.map_some] at run
    split at run
    · split at run
      · exact (Option.some.inj run).symm
      · cases run
    · cases run

theorem runtimeField_attach {cleared runtime : AgentValue} (plain : cleared.isPlain = root.isPlain)
    (readOnly : cleared.isReadOnly = root.isReadOnly)
    (item : cleared.find (ascii "runtime") = root.find (ascii "runtime")) :
    runtimeField (attach cleared runtime) name =
      if root.isPlain = true ∧ ((root.latest (ascii "runtime")).isSome ∨
        (root.isReadOnly = false ∧ (root.find (ascii "runtime")).getD [] = [])) ∧ runtime.isPlain = true then
        (runtime.latest name).map (toJson 255) else none := by
  unfold runtimeField
  rw [field_toJson, plain_attach, plain]
  by_cases shown : root.isPlain = true
  · have same : cleared.latest (ascii "runtime") = root.latest (ascii "runtime") := by
      unfold latest
      rw [item]
    rw [if_pos shown, latest_attach (plain.trans shown), readOnly, item, same]
    by_cases there : (root.latest (ascii "runtime")).isSome = true ∨
        (root.isReadOnly = false ∧ (root.find (ascii "runtime")).getD [] = [])
    · rw [if_pos there, Option.map_some, Option.bind_some, field_toJson]
      simp [shown, there]
    · simp [there]
  · simp [shown]

/--
A rehydration is visible, exactly if the root reads its runtime from an item that takes it, and
nothing else is read where the runtime gets what was brought.
-/
theorem rehydrate_visible_iff
    (run : rehydrateVmRuntimeState host config artifacts lifecycleEvent configPathHint root = some after)
    (resolves : Resolves host config root resolved contract) :
    Visible host config artifacts lifecycleEvent configPathHint root resolved contract after ↔
      Admits config artifacts lifecycleEvent configPathHint root resolved contract := by
  obtain ⟨cleared, flags, readOnly, members, rfl⟩ := rehydrate_cases run resolves
  have item : cleared.find (ascii "runtime") = root.find (ascii "runtime") :=
    members _ (by decide) (by decide) (.inr host.unbound)
  have shows := fun name => @runtimeField_attach root name cleared (rehydrated config (runtimeOf root) resolved contract
    (runtimeRehydrationMetadata artifacts lifecycleEvent configPathHint)) flags readOnly item
  rw [flags_rehydrated] at shows
  by_cases seen : root.isPlain = true ∧ ((root.latest (ascii "runtime")).isSome ∨
      (root.isReadOnly = false ∧ (root.find (ascii "runtime")).getD [] = [])) ∧ (runtimeOf root).isPlain = true
  · simp only [if_pos seen] at shows
    obtain ⟨shown, attached, plain⟩ := seen
    constructor
    · rintro ⟨contract, metadata, provider, model, _⟩
      rw [shows] at contract metadata
      refine ⟨shown, attached, plain, (contract_rehydrated_iff plain).mp contract,
        (metadata_rehydrated_iff plain).mp metadata, fun none => ?_, fun none => ?_⟩
      · exact (provider_rehydrated_iff plain none).mp ((shows _).symm.trans (provider none))
      · exact (model_rehydrated_iff plain none).mp ((shows _).symm.trans (model none))
    · rintro ⟨_, _, _, contract, metadata, provider, model⟩
      refine ⟨(shows _).trans ((contract_rehydrated_iff plain).mpr contract),
        (shows _).trans ((metadata_rehydrated_iff plain).mpr metadata), fun none => ?_, fun none => ?_, ?_⟩
      · exact (shows _).trans ((provider_rehydrated_iff plain none).mpr (provider none))
      · exact (shows _).trans ((model_rehydrated_iff plain none).mpr (model none))
      · intro name noRuntime noResponse noHandle free
        rw [find_attach_ne noRuntime, members name noResponse noHandle free]
  · -- A runtime that is not read from the root shows nothing at all.
    simp only [if_neg seen] at shows
    constructor
    · intro visible
      have contract := visible.contract
      rw [shows] at contract
      cases contract
    · intro admits
      exact absurd ⟨admits.shown, admits.attached, admits.plain⟩ seen

def googleContract : AgentValue :=
  object [(ascii "id", text (ascii "google"))]

def oneProviderHost : Host where
  importBindings := some
  binds := fun _ => false
  parses := fun _ => true
  runtimeConfigValue := fun _ _ => some (object [
    (ascii "default_model", text (ascii "m")),
    (ascii "default_provider", text (ascii "google")),
    (ascii "provider_contract", googleContract)])
  pinned := fun _ => false
  unbound := rfl
  leaves := by
    intro root after same
    cases same
    exact ⟨rfl, rfl, fun _ _ => rfl⟩

def boundRoot (runtime : List (Name × AgentValue)) : AgentValue :=
  object [
    (ascii "agentc_call", text (ascii "call")),
    (ascii "ext", object []),
    (ascii "runtime", object runtime),
    (ascii "runtimeffi", object [])]

/-- A runtime that holds nothing yet shows what is brought. -/
theorem rehydrate_visible_iff_empty : ∃ resolved after,
    rehydrateVmRuntimeState oneProviderHost (.object fun _ => none) ⟨[], []⟩ (ascii "startup-fresh") []
      (boundRoot []) = some after ∧
    Visible oneProviderHost (.object fun _ => none) ⟨[], []⟩ (ascii "startup-fresh") [] (boundRoot [])
      resolved googleContract after := by
  refine ⟨_, _, rfl, (rehydrate_visible_iff rfl ⟨rfl, rfl⟩).mpr ?_⟩
  exact ⟨rfl, .inl rfl, rfl, .inr ⟨rfl, rfl⟩, .inr ⟨rfl, rfl⟩, fun _ => .inr ⟨rfl, rfl⟩,
    fun _ => .inr ⟨rfl, rfl⟩⟩

def defaultRuntime : List (Name × AgentValue) := [
  (ascii "default_model", text (ascii "m")),
  (ascii "default_provider", text (ascii "google")),
  (ascii "provider_contract", null)]

/-- A new root goes on showing null for the contract. -/
theorem rehydrate_visible_fails : ∃ resolved after,
    rehydrateVmRuntimeState oneProviderHost (.object fun _ => none) ⟨[], []⟩ (ascii "startup-fresh") []
      (boundRoot defaultRuntime) = some after ∧
    Resolves oneProviderHost (.object fun _ => none) (boundRoot defaultRuntime) resolved googleContract ∧
    runtimeField after (ascii "provider_contract") = some .null ∧
    ¬Visible oneProviderHost (.object fun _ => none) ⟨[], []⟩ (ascii "startup-fresh") []
      (boundRoot defaultRuntime) resolved googleContract after := by
  refine ⟨_, _, rfl, ⟨rfl, rfl⟩, rfl, fun visible => ?_⟩
  -- What is read is the end that the contract was not added at.
  have shown : some Json.null = some (googleContract.toJson 255) := visible.contract
  cases shown

end Rehydrate

end AgentC.Persistence

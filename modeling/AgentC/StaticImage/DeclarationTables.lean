import AgentC.Library.Lists
import AgentC.StaticImage.DeclarationImage

/-! The tables that the writer of images fills, each as a function of the declarations and of all strings. -/

namespace AgentC.StaticImage

section Strings

variable {strings later : List (List UInt8)} {text : List UInt8}

def addString (strings : List (List UInt8)) (text : List UInt8) : List (List UInt8) :=
  if text ∈ strings then strings else strings ++ [text]

theorem prefix_addString (strings : List (List UInt8)) (text : List UInt8) :
    strings <+: addString strings text := by
  unfold addString
  split
  · exact List.prefix_rfl
  · exact List.prefix_append _ _

theorem mem_addString (strings : List (List UInt8)) (text : List UInt8) :
    text ∈ addString strings text := by
  unfold addString
  split
  · assumption
  · exact List.mem_append_right _ (List.mem_singleton_self text)

theorem length_addString (strings : List (List UInt8)) (text : List UInt8) :
    (addString strings text).length ≤ strings.length + 1 := by
  unfold addString
  split
  · omega
  · rw [List.length_append, List.length_singleton]

theorem prefix_foldl_addString (texts strings : List (List UInt8)) :
    strings <+: texts.foldl addString strings := by
  induction texts generalizing strings with
  | nil => exact List.prefix_rfl
  | cons text texts ih => exact (prefix_addString strings text).trans (ih _)

theorem length_foldl_addString (texts strings : List (List UInt8)) :
    (texts.foldl addString strings).length ≤ strings.length + texts.length := by
  induction texts generalizing strings with
  | nil => exact le_rfl
  | cons text texts ih =>
    have one := length_addString strings text
    have all := ih (addString strings text)
    rw [List.foldl_cons, List.length_cons]
    omega

theorem mem_foldl_addString {texts : List (List UInt8)} (member : text ∈ texts)
    (strings : List (List UInt8)) :
    text ∈ texts.foldl addString strings := by
  induction texts generalizing strings with
  | nil => cases member
  | cons first texts ih =>
    rcases List.mem_cons.mp member with rfl | other
    · exact (prefix_foldl_addString texts _).subset (mem_addString strings text)
    · exact ih other _

theorem idxOf_of_grows (grows : strings <+: later) (member : text ∈ strings) :
    later.idxOf text = strings.idxOf text := by
  obtain ⟨added, rfl⟩ := grows
  exact List.idxOf_append_of_mem member

theorem idxOf?_of_mem (member : text ∈ strings) : strings.idxOf? text = some (strings.idxOf text) := by
  obtain ⟨place, found⟩ := Option.isSome_iff_exists.mp (List.isSome_idxOf?.mpr member)
  obtain ⟨inside, same, first⟩ := List.idxOf?_eq_some_iff.mp found
  have here := List.idxOf_lt_length_of_mem member
  have least : strings.idxOf text = place := by
    refine le_antisymm (Nat.le_of_not_lt fun before => ?_) (Nat.le_of_not_lt fun before => ?_)
    · exact absurd same (beq_eq_false_iff_ne.mp (List.not_of_lt_findIdx before))
    · exact first _ before (List.getElem_idxOf here)
  rw [found, least]

theorem intern_eq {writer : Writer} (few : writer.strings.length < 2 ^ 32) (text : List UInt8) :
    intern writer text =
      ((addString writer.strings text).idxOf text, { writer with strings := addString writer.strings text }) := by
  unfold intern addString
  by_cases member : text ∈ writer.strings
  · have place := List.idxOf_lt_length_of_mem member
    rw [idxOf?_of_mem member, if_pos member]
    dsimp only
    rw [uint32_of_lt (by omega)]
  · have missing : writer.strings.idxOf? text = none := List.idxOf?_eq_none_iff.mpr member
    rw [missing, if_neg member]
    dsimp only
    rw [uint32_of_lt few, List.idxOf_append_of_notMem member, List.idxOf_cons_self, Nat.add_zero]

theorem internAll_eq {writer : Writer} {texts : List (List UInt8)}
    (few : writer.strings.length + texts.length ≤ 2 ^ 32) :
    internAll writer texts =
      (texts.map (texts.foldl addString writer.strings).idxOf,
        { writer with strings := texts.foldl addString writer.strings }) := by
  induction texts generalizing writer with
  | nil => rfl
  | cons text texts ih =>
    rw [List.length_cons] at few
    have one := length_addString writer.strings text
    have own := idxOf_of_grows (prefix_foldl_addString texts (addString writer.strings text))
      (mem_addString writer.strings text)
    rw [internAll, intern_eq (by omega)]
    dsimp only
    rw [ih (by dsimp only; omega), List.foldl_cons, List.map_cons, own]

theorem addString_of_mem (member : text ∈ strings) : addString strings text = strings :=
  if_pos member

theorem makeStringFields_eq {fields : List (Nat × List UInt8)} {values : List StaticSlotTableValueRecord}
    (few : strings.length < 2 ^ 32) (room : values.length + fields.length ≤ 2 ^ 32)
    (known : ∀ field ∈ fields, field.2 ∈ strings) (declarations : List StaticSlotTableDeclaration)
    (trees : List StaticSlotTableTreeRecord) (items : List StaticSlotTableItemRecord) (listEntries : List Nat) :
    makeStringFields ⟨strings, declarations, values, trees, items, listEntries⟩ fields =
      ((fields.zipIdx values.length).map fun field => ⟨field.1.1, field.2⟩,
        ⟨strings, declarations,
          values ++ fields.map fun field => ⟨.String, strings.idxOf field.2, 0, 0⟩, trees, items, listEntries⟩) := by
  induction fields generalizing values with
  | nil => rw [makeStringFields, List.map_nil, List.append_nil]; rfl
  | cons field fields ih =>
    obtain ⟨own, others⟩ := List.forall_mem_cons.mp known
    rw [List.length_cons] at room
    have more : (values ++ [(⟨.String, strings.idxOf field.2, 0, 0⟩ : StaticSlotTableValueRecord)]).length +
        fields.length ≤ 2 ^ 32 := by
      rw [List.length_append, List.length_singleton]
      omega
    rw [makeStringFields, makeStringValue, intern_eq few]
    dsimp only
    rw [addString_of_mem own, ih more others, uint32_of_lt (by omega)]
    dsimp only
    rw [List.length_append, List.length_singleton, List.append_assoc]
    rfl

end Strings

section Names

def sortedNames : List (List UInt8 × Nat) :=
  sortWords nameTexts

theorem nodup_nameTexts : nameTexts.Nodup := by
  decide +kernel

theorem sortedNames_perm : sortedNames.Perm nameTexts.zipIdx :=
  sortWords_perm nameTexts

@[simp] theorem length_sortedNames : sortedNames.length = 16 := by
  rw [sortedNames_perm.length_eq]
  rfl

theorem getElem?_of_mem_sortedNames {name : List UInt8} {place : Nat}
    (member : (name, place) ∈ sortedNames) :
    nameTexts[place]? = some name :=
  List.mem_zipIdx_iff_getElem?.mp (sortedNames_perm.mem_iff.mp member)

theorem sortedNames_pairwise : sortedNames.Pairwise fun a b => a.1 < b.1 := by
  have ordered : sortedNames.Pairwise fun a b => a.1 ≤ b.1 := sortWords_ordered nameTexts
  have distinct : (sortedNames.map Prod.fst).Nodup := by
    rw [(sortedNames_perm.map Prod.fst).nodup_iff, List.zipIdx_map_fst]
    exact nodup_nameTexts
  have apart := List.pairwise_map.mp distinct
  refine (ordered.and apart).imp fun both => List.not_le.mp fun back => ?_
  exact both.2 (List.le_antisymm both.1 back)

def objectItems (strings : List (List UInt8)) (base : Nat) : List StaticSlotTableItemRecord :=
  sortedNames.map fun field => ⟨strings.idxOf field.1, base + field.2⟩

theorem sortItems_eq {strings : List (List UInt8)} (known : ∀ name ∈ nameTexts, name ∈ strings)
    (base : Nat) :
    sortItems strings ((nameTexts.zipIdx base).map fun field => ⟨strings.idxOf field.1, field.2⟩) =
      objectItems strings base := by
  have shifted : nameTexts.zipIdx base =
      nameTexts.zipIdx.map fun field => (field.1, base + field.2) := by
    rw [List.zipIdx_eq_map_add]
  unfold sortItems objectItems sortedNames sortWords
  rw [shifted, List.map_map]
  refine (List.map_mergeSort fun a first b second => ?_).symm
  have text : ∀ name ∈ nameTexts, strings.getD (strings.idxOf name) [] = name := fun name member => by
    have inside := List.idxOf_lt_length_of_mem (known name member)
    rw [List.getD_eq_getElem?_getD, List.getElem?_eq_getElem inside, List.getElem_idxOf, Option.getD_some]
  have own := text a.1 (List.fst_mem_of_mem_zipIdx first)
  have other := text b.1 (List.fst_mem_of_mem_zipIdx second)
  refine decide_eq_decide.mpr ?_
  dsimp only [Function.comp]
  rw [own, other]

end Names

section Tables

variable {strings later : List (List UInt8)} {symbols : List (Option ImageValue)} {symbol : Option ImageValue}

@[simp] theorem length_fieldTexts (symbol : Option ImageValue) : (fieldTexts symbol).length = 16 := by
  rw [fieldTexts, List.length_map]
  rfl

/-- The values of a declaration: its texts, and the object that holds them. -/
def symbolValues (strings : List (List UInt8)) (symbol : Option ImageValue) (index : Nat) :
    List StaticSlotTableValueRecord :=
  (fieldTexts symbol).map (fun text => ⟨.String, strings.idxOf text, 0, 0⟩) ++ [⟨.Object, 0, index, 1⟩]

@[simp] theorem length_symbolValues (strings : List (List UInt8)) (symbol : Option ImageValue) (index : Nat) :
    (symbolValues strings symbol index).length = 17 := by
  rw [symbolValues, List.length_append, List.length_map, length_fieldTexts, List.length_singleton]

@[simp] theorem length_objectItems (strings : List (List UInt8)) (base : Nat) :
    (objectItems strings base).length = 16 := by
  rw [objectItems, List.length_map, length_sortedNames]

/-- The tables of declarations, when the strings are these in the end. -/
def tablesOf (strings : List (List UInt8)) (symbols : List (Option ImageValue)) : Writer where
  strings := strings
  declarations := symbols.map fun symbol => declarationRecord ((fieldTexts symbol).map strings.idxOf)
  values := symbols.zipIdx.flatMap fun symbol => symbolValues strings symbol.1 symbol.2
  trees := (List.range symbols.length).map fun k => ⟨16 * k, 16⟩
  items := (List.range symbols.length).flatMap fun k => objectItems strings (17 * k)
  listEntries := (List.range symbols.length).map fun k => 17 * k + 16

theorem length_values : (tablesOf strings symbols).values.length = 17 * symbols.length := by
  rw [tablesOf]
  dsimp only
  rw [length_flatMap_const (fun _ => length_symbolValues _ _ _), List.length_zipIdx, Nat.mul_comm]

theorem length_items : (tablesOf strings symbols).items.length = 16 * symbols.length := by
  rw [tablesOf]
  dsimp only
  rw [length_flatMap_const (fun _ => length_objectItems _ _), List.length_range, Nat.mul_comm]

structure Known (strings : List (List UInt8)) (symbols : List (Option ImageValue)) : Prop where
  names : ∀ name ∈ nameTexts, name ∈ strings
  texts : ∀ symbol ∈ symbols, ∀ text ∈ fieldTexts symbol, text ∈ strings

theorem tablesOf_of_grows (grows : strings <+: later) (known : Known strings symbols) :
    tablesOf later symbols = { tablesOf strings symbols with strings := later } := by
  have texts : ∀ symbol ∈ symbols, (fieldTexts symbol).map later.idxOf = (fieldTexts symbol).map strings.idxOf :=
    fun symbol member => List.map_congr_left fun text inside =>
      idxOf_of_grows grows (known.texts symbol member text inside)
  have declarations : symbols.map (fun symbol => declarationRecord ((fieldTexts symbol).map later.idxOf)) =
      symbols.map fun symbol => declarationRecord ((fieldTexts symbol).map strings.idxOf) :=
    List.map_congr_left fun symbol member => by rw [texts symbol member]
  have values : (symbols.zipIdx.flatMap fun symbol => symbolValues later symbol.1 symbol.2) =
      symbols.zipIdx.flatMap fun symbol => symbolValues strings symbol.1 symbol.2 := by
    refine List.flatMap_congr fun symbol member => ?_
    refine congrArg (· ++ _) (List.map_congr_left fun text inside => ?_)
    rw [idxOf_of_grows grows (known.texts symbol.1 (List.fst_mem_of_mem_zipIdx member) text inside)]
  have items : ((List.range symbols.length).flatMap fun k => objectItems later (17 * k)) =
      (List.range symbols.length).flatMap fun k => objectItems strings (17 * k) := by
    refine List.flatMap_congr fun k _ => List.map_congr_left fun field member => ?_
    have name := List.mem_of_getElem? (getElem?_of_mem_sortedNames member)
    rw [idxOf_of_grows grows (known.names field.1 name)]
  unfold tablesOf
  rw [declarations, values, items]

def addTexts (strings : List (List UInt8)) (symbol : Option ImageValue) : List (List UInt8) :=
  (fieldTexts symbol).foldl addString strings

theorem prefix_addTexts (strings : List (List UInt8)) (symbol : Option ImageValue) :
    strings <+: addTexts strings symbol :=
  prefix_foldl_addString _ _

theorem length_addTexts (strings : List (List UInt8)) (symbol : Option ImageValue) :
    (addTexts strings symbol).length ≤ strings.length + 16 := by
  have all := length_foldl_addString (fieldTexts symbol) strings
  rwa [length_fieldTexts] at all

theorem Known.add (known : Known strings symbols) (symbol : Option ImageValue) :
    Known (addTexts strings symbol) (symbols ++ [symbol]) where
  names := fun name member => (prefix_addTexts strings symbol).subset (known.names name member)
  texts := by
    intro other member text inside
    rcases List.mem_append.mp member with before | last
    · exact (prefix_addTexts strings symbol).subset (known.texts other before text inside)
    · rw [List.mem_singleton.mp last] at inside
      exact mem_foldl_addString inside strings

theorem tablesOf_append (strings : List (List UInt8)) (symbols : List (Option ImageValue))
    (symbol : Option ImageValue) :
    tablesOf strings (symbols ++ [symbol]) =
      { strings := strings
        declarations := (tablesOf strings symbols).declarations ++
          [declarationRecord ((fieldTexts symbol).map strings.idxOf)]
        values := (tablesOf strings symbols).values ++ symbolValues strings symbol symbols.length
        trees := (tablesOf strings symbols).trees ++ [⟨16 * symbols.length, 16⟩]
        items := (tablesOf strings symbols).items ++ objectItems strings (17 * symbols.length)
        listEntries := (tablesOf strings symbols).listEntries ++ [17 * symbols.length + 16] } := by
  unfold tablesOf
  rw [List.length_append, List.length_singleton, List.range_succ, List.zipIdx_append, Nat.zero_add]
  simp only [List.map_append, List.flatMap_append, List.map_cons, List.map_nil, List.flatMap_cons,
    List.flatMap_nil, List.append_nil, List.zipIdx_cons, List.zipIdx_nil]

theorem items_of_zip {names texts : List (List UInt8)} (same : names.length = texts.length)
    (number : List UInt8 → Nat) (base : Nat) :
    (((names.map number).zip texts).zipIdx base).map
        (fun field => (⟨field.1.1, field.2⟩ : StaticSlotTableItemRecord)) =
      (names.zipIdx base).map fun field => ⟨number field.1, field.2⟩ := by
  have first : ((names.map number).zip texts).map Prod.fst = names.map number :=
    List.map_fst_zip (by rw [List.length_map]; exact Nat.le_of_eq same)
  calc
    _ = ((((names.map number).zip texts).map Prod.fst).zipIdx base).map
        (fun field => (⟨field.1, field.2⟩ : StaticSlotTableItemRecord)) := by
      rw [List.zipIdx_map, List.map_map]
      rfl
    _ = _ := by
      rw [first, List.zipIdx_map, List.map_map]
      rfl

theorem values_of_zip {names texts : List (List UInt8)} (same : names.length = texts.length)
    (number idOf : List UInt8 → Nat) :
    ((names.map number).zip texts).map
        (fun field => (⟨.String, idOf field.2, 0, 0⟩ : StaticSlotTableValueRecord)) =
      texts.map fun text => ⟨.String, idOf text, 0, 0⟩ := by
  have second : ((names.map number).zip texts).map Prod.snd = texts :=
    List.map_snd_zip (by rw [List.length_map]; exact Nat.le_of_eq same.symm)
  calc
    _ = (((names.map number).zip texts).map Prod.snd).map
        (fun text => (⟨.String, idOf text, 0, 0⟩ : StaticSlotTableValueRecord)) := by
      rw [List.map_map]
      rfl
    _ = _ := by rw [second]

theorem writeSymbol_of_known {writer : Writer} (known : ∀ name ∈ nameTexts, name ∈ writer.strings)
    (present : symbol.isSome) (fewStrings : writer.strings.length + 16 < 2 ^ 32)
    (fewValues : writer.values.length + 17 < 2 ^ 32) (fewItems : writer.items.length < 2 ^ 32)
    (fewTrees : writer.trees.length < 2 ^ 32) :
    writeSymbol (nameTexts.map writer.strings.idxOf) writer symbol =
      { strings := addTexts writer.strings symbol
        declarations := writer.declarations ++
          [declarationRecord ((fieldTexts symbol).map (addTexts writer.strings symbol).idxOf)]
        values := writer.values ++ symbolValues (addTexts writer.strings symbol) symbol writer.trees.length
        trees := writer.trees ++ [⟨writer.items.length, 16⟩]
        items := writer.items ++ objectItems (addTexts writer.strings symbol) writer.values.length
        listEntries := writer.listEntries ++ [writer.values.length + 16] } := by
  obtain ⟨strings, declarations, values, trees, items, listEntries⟩ := writer
  dsimp only at *
  have grows := prefix_addTexts strings symbol
  have bound := length_addTexts strings symbol
  have names : nameTexts.map strings.idxOf =
      nameTexts.map (addTexts strings symbol).idxOf :=
    List.map_congr_left fun name member => (idxOf_of_grows grows (known name member)).symm
  -- The texts get their numbers first, so that no string is new when the values are made.
  have ids : internAll ⟨strings, declarations, values, trees, items, listEntries⟩ (fieldTexts symbol) =
      ((fieldTexts symbol).map (addTexts strings symbol).idxOf,
        ⟨addTexts strings symbol, declarations, values, trees, items, listEntries⟩) :=
    internAll_eq (by rw [length_fieldTexts]; exact fewStrings.le)
  have equal : nameTexts.length = (fieldTexts symbol).length := by
    rw [length_fieldTexts]
    rfl
  have sorted := sortItems_eq (fun name member => grows.subset (known name member)) values.length
  have room : values.length + ((nameTexts.map (addTexts strings symbol).idxOf).zip (fieldTexts symbol)).length ≤
      2 ^ 32 := by
    rw [List.length_zip, List.length_map, equal, length_fieldTexts]
    omega
  have texts : ∀ field ∈ (nameTexts.map (addTexts strings symbol).idxOf).zip (fieldTexts symbol),
      field.2 ∈ addTexts strings symbol := fun field member =>
    mem_foldl_addString (List.of_mem_zip member).2 strings
  have small : (addTexts strings symbol).length < 2 ^ 32 := by omega
  unfold writeSymbol
  rw [if_neg (by rw [Option.isNone_eq_false_iff.mpr present]; exact Bool.false_ne_true), ids, names]
  dsimp only
  rw [makeStringFields_eq small room texts]
  dsimp only
  rw [items_of_zip equal, values_of_zip equal _ (addTexts strings symbol).idxOf, sorted,
    length_objectItems, List.length_append, List.length_map,
    length_fieldTexts, uint32_of_lt fewTrees, uint32_of_lt fewItems, uint32_of_lt (by omega),
    uint32_of_lt (by omega), symbolValues, List.append_assoc]

theorem writeSymbol_eq (known : Known strings symbols) (present : symbol.isSome)
    (fewStrings : strings.length + 16 < 2 ^ 32) (few : 17 * symbols.length + 17 < 2 ^ 32) :
    writeSymbol (nameTexts.map strings.idxOf) (tablesOf strings symbols) symbol =
      tablesOf (addTexts strings symbol) (symbols ++ [symbol]) := by
  have values : (tablesOf strings symbols).values.length = 17 * symbols.length := length_values
  have items : (tablesOf strings symbols).items.length = 16 * symbols.length := length_items
  have trees : (tablesOf strings symbols).trees.length = symbols.length := by
    rw [tablesOf, List.length_map, List.length_range]
  have written := @writeSymbol_of_known symbol (tablesOf strings symbols) known.names present fewStrings
    (by omega) (by omega) (by omega)
  rw [values, items, trees] at written
  refine written.trans ?_
  rw [tablesOf_append, tablesOf_of_grows (prefix_addTexts strings symbol) known]
  rfl

theorem foldl_writeSymbol (known : Known strings []) (symbols : List (Option ImageValue))
    (present : ∀ symbol ∈ symbols, symbol.isSome)
    (few : strings.length + 17 * symbols.length < 2 ^ 32) :
    symbols.foldl (writeSymbol (nameTexts.map strings.idxOf)) (tablesOf strings []) =
      tablesOf (symbols.foldl addTexts strings) symbols ∧
    Known (symbols.foldl addTexts strings) symbols ∧
    strings <+: symbols.foldl addTexts strings ∧
    (symbols.foldl addTexts strings).length ≤ strings.length + 16 * symbols.length := by
  -- The induction takes the last declaration off.
  induction symbols using List.reverseRecOn with
  | nil => exact ⟨rfl, known, List.prefix_rfl, le_rfl⟩
  | append_singleton symbols symbol ih =>
    rw [List.length_append, List.length_singleton] at few
    obtain ⟨tables, known', grows, bound⟩ :=
      ih (fun other member => present other (List.mem_append_left _ member)) (by omega)
    have names : nameTexts.map strings.idxOf =
        nameTexts.map (symbols.foldl addTexts strings).idxOf :=
      List.map_congr_left fun name member => (idxOf_of_grows grows (known.names name member)).symm
    have last := present symbol (List.mem_append_right _ (List.mem_singleton_self symbol))
    have more := length_addTexts (symbols.foldl addTexts strings) symbol
    rw [List.foldl_append, List.foldl_append, List.foldl_cons, List.foldl_nil, List.foldl_cons,
      List.foldl_nil, tables,
      names, writeSymbol_eq known' last (by omega) (by omega), List.length_append, List.length_singleton]
    exact ⟨rfl, known'.add symbol, grows.trans (prefix_addTexts _ symbol), by omega⟩

end Tables

section Images

def imageStrings (manifest : Option ImageValue) (symbols : List (Option ImageValue)) : List (List UInt8) :=
  symbols.foldl addTexts (nameTexts.foldl addString (addString [] (namedString manifest "module")))

variable {manifest : Option ImageValue} {symbols : List (Option ImageValue)}

theorem length_nameTexts : nameTexts.length = 16 := by
  rw [nameTexts, List.length_map]
  rfl

theorem first_strings (manifest : Option ImageValue) :
    Known (nameTexts.foldl addString (addString [] (namedString manifest "module"))) [] ∧
      (nameTexts.foldl addString (addString [] (namedString manifest "module"))).length ≤ 17 := by
  have one := length_addString [] (namedString manifest "module")
  have all := length_foldl_addString nameTexts (addString [] (namedString manifest "module"))
  rw [length_nameTexts] at all
  rw [List.length_nil] at one
  exact ⟨⟨fun name member => mem_foldl_addString member _, fun symbol member => absurd member List.not_mem_nil⟩,
    by omega⟩

theorem imageStrings_known (manifest : Option ImageValue) (symbols : List (Option ImageValue))
    (present : ∀ symbol ∈ symbols, symbol.isSome) (few : 17 * symbols.length + 17 < 2 ^ 32) :
    Known (imageStrings manifest symbols) symbols ∧
      addString [] (namedString manifest "module") <+: imageStrings manifest symbols ∧
      (imageStrings manifest symbols).length ≤ 17 + 16 * symbols.length := by
  obtain ⟨known, bound⟩ := first_strings manifest
  obtain ⟨-, known', grows, all⟩ := foldl_writeSymbol known symbols present (by omega)
  exact ⟨known', (prefix_foldl_addString nameTexts _).trans grows, by unfold imageStrings; omega⟩

theorem writeTables_eq (present : ∀ symbol ∈ symbols, symbol.isSome)
    (few : 17 * symbols.length + 17 < 2 ^ 32) :
    writeTables manifest symbols =
      ((imageStrings manifest symbols).idxOf (namedString manifest "module"),
        tablesOf (imageStrings manifest symbols) symbols) := by
  obtain ⟨known, bound⟩ := first_strings manifest
  obtain ⟨tables, -, -, -⟩ := foldl_writeSymbol known symbols present (by omega)
  obtain ⟨-, grows, -⟩ := imageStrings_known manifest symbols present few
  have first : intern {} (namedString manifest "module") =
      ((addString [] (namedString manifest "module")).idxOf (namedString manifest "module"),
        tablesOf (addString [] (namedString manifest "module")) []) :=
    intern_eq (by decide) _
  have names : internAll (tablesOf (addString [] (namedString manifest "module")) []) nameTexts =
      (nameTexts.map (nameTexts.foldl addString (addString [] (namedString manifest "module"))).idxOf,
        tablesOf (nameTexts.foldl addString (addString [] (namedString manifest "module"))) []) := by
    refine internAll_eq ?_
    have one := length_addString [] (namedString manifest "module")
    rw [List.length_nil] at one
    show (addString [] (namedString manifest "module")).length + nameTexts.length ≤ 2 ^ 32
    rw [length_nameTexts]
    omega
  unfold writeTables
  rw [first]
  dsimp only
  rw [names]
  dsimp only
  rw [tables, idxOf_of_grows grows (mem_addString [] _)]
  rfl

end Images

end AgentC.StaticImage

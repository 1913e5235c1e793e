import AgentC.Kanren.Streams

/-! What reification makes of ground terms. -/

namespace AgentC.Kanren

/-- A term without variables, with the identities forgotten. Null has no fields. -/
inductive Ground where
  | text (bytes : List UInt8)
  | list (children : List Ground)
  | dict (fields : List (String × Ground))

namespace Ground

theorem induct {property : Ground → Prop} (text : ∀ bytes, property (.text bytes))
    (list : ∀ children, (∀ child ∈ children, property child) → property (.list children))
    (dict : ∀ fields, (∀ field ∈ fields, property field.2) → property (.dict fields)) : ∀ g, property g
  | .text bytes => text bytes
  | .list children => list children fun child _ => induct text list dict child
  | .dict fields => dict fields fun field _ => induct text list dict field.2
decreasing_by
  · have less := List.sizeOf_lt_of_mem ‹child ∈ children›
    simp only [Ground.list.sizeOf_spec]
    omega
  · have less := List.sizeOf_lt_of_mem ‹field ∈ fields›
    rcases field with ⟨name, child⟩
    simp only [Prod.mk.sizeOf_spec] at less
    simp only [Ground.dict.sizeOf_spec]
    omega

/-- Two terms are mirror images: strings of themselves, and lists with their elements read backwards. -/
inductive Mirrors : Ground → Ground → Prop where
  | text (bytes : List UInt8) : Mirrors (.text bytes) (.text bytes)
  | list {us vs : List Ground} (each : List.Forall₂ Mirrors us vs.reverse) : Mirrors (.list us) (.list vs)
  | dict {us vs : List (String × Ground)} (named : ∀ field ∈ us, field.1 ≠ "")
      (names : us.map Prod.fst = vs.map Prod.fst)
      (each : List.Forall₂ Mirrors (us.map Prod.snd) (vs.map Prod.snd)) : Mirrors (.dict us) (.dict vs)

mutual

def mirror : Ground → Ground
  | .text bytes => .text bytes
  | .list children => .list (mirrorChildren children).reverse
  | .dict fields => .dict ((mirrorFields fields).filter fun field => field.1 ≠ "")

def mirrorChildren : List Ground → List Ground
  | [] => []
  | child :: rest => mirror child :: mirrorChildren rest

def mirrorFields : List (String × Ground) → List (String × Ground)
  | [] => []
  | (name, child) :: rest => (name, mirror child) :: mirrorFields rest

end

@[simp] theorem mirrorChildren_eq (children : List Ground) : mirrorChildren children = children.map mirror := by
  induction children with
  | nil => rfl
  | cons child rest ih => rw [mirrorChildren, ih, List.map_cons]

@[simp] theorem mirrorFields_eq (fields : List (String × Ground)) :
    mirrorFields fields = fields.map fun field => (field.1, mirror field.2) := by
  induction fields with
  | nil => rfl
  | cons field rest ih => rw [mirrorFields, ih, List.map_cons]

/-- No dictionary of a term has the empty name. -/
inductive Named : Ground → Prop where
  | text (bytes : List UInt8) : Named (.text bytes)
  | list {children : List Ground} (each : ∀ child ∈ children, Named child) : Named (.list children)
  | dict {fields : List (String × Ground)} (named : ∀ field ∈ fields, field.1 ≠ "")
      (each : ∀ field ∈ fields, Named field.2) : Named (.dict fields)

theorem named_mirror (g : Ground) : Named (mirror g) := by
  induction g using induct with
  | text bytes =>
    rw [mirror]
    exact .text bytes
  | list children ih =>
    rw [mirror, mirrorChildren_eq]
    refine .list fun child member => ?_
    obtain ⟨old, inside, rfl⟩ := List.mem_map.mp (List.mem_reverse.mp member)
    exact ih old inside
  | dict fields ih =>
    rw [mirror, mirrorFields_eq]
    refine .dict (fun field member => ?_) fun field member => ?_
    · exact of_decide_eq_true (List.mem_filter.mp member).2
    · obtain ⟨old, inside, rfl⟩ := List.mem_map.mp (List.mem_filter.mp member).1
      exact ih old inside

theorem Named.mirrors {g : Ground} (named : Named g) : Mirrors g (mirror g) := by
  induction g using induct with
  | text bytes =>
    rw [mirror]
    exact .text bytes
  | list children ih =>
    cases named with
    | list each =>
      rw [mirror, mirrorChildren_eq]
      refine .list ?_
      rw [List.reverse_reverse, List.forall₂_map_right_iff, List.forall₂_same]
      exact fun child member => ih child member (each child member)
  | dict fields ih =>
    cases named with
    | dict named each =>
      have kept : (fields.map fun field => (field.1, mirror field.2)).filter (fun field => field.1 ≠ "") =
          fields.map fun field => (field.1, mirror field.2) := by
        rw [List.filter_eq_self]
        intro field member
        obtain ⟨old, inside, rfl⟩ := List.mem_map.mp member
        exact decide_eq_true (named old inside)
      rw [mirror, mirrorFields_eq, kept]
      refine .dict named (by rw [List.map_map]; rfl) ?_
      rw [List.map_map, List.forall₂_map_left_iff, List.forall₂_map_right_iff, List.forall₂_same]
      exact fun field member => ih field member (each field member)

theorem Mirrors.eq_mirror {g h : Ground} (mirrors : Mirrors g h) : mirror g = h := by
  -- Children that mirror those of another term are read backwards one by one.
  have each_eq {us vs : List Ground} (ih : ∀ u ∈ us, ∀ v, Mirrors u v → mirror u = v)
      (each : List.Forall₂ Mirrors us vs) : us.map mirror = vs := by
    induction each with
    | nil => rfl
    | @cons u v us vs head _ rest =>
      rw [List.map_cons, ih u List.mem_cons_self v head,
        rest fun u member => ih u (List.mem_cons_of_mem _ member)]
  induction g using induct generalizing h with
  | text bytes =>
    cases mirrors
    rw [mirror]
  | list us ih =>
    cases mirrors with
    | list each =>
      rw [mirror, mirrorChildren_eq, each_eq (fun u member v => ih u member) each, List.reverse_reverse]
  | dict us ih =>
    cases mirrors with
    | @dict _ vs named names each =>
      have values : (us.map Prod.snd).map mirror = vs.map Prod.snd := by
        refine each_eq (fun u member v mirrors => ?_) each
        obtain ⟨field, inside, rfl⟩ := List.mem_map.mp member
        exact ih field inside mirrors
      have same : us.map (fun field => (field.1, mirror field.2)) = vs := by
        rw [List.map_map] at values
        refine (pairs_eq_iff _ _).mpr ⟨?_, ?_⟩
        · rw [List.map_map]
          exact names
        · rw [List.map_map]
          exact values
      rw [mirror, mirrorFields_eq, same, List.filter_eq_self.mpr]
      intro field member
      have name := List.mem_map_of_mem (f := Prod.fst) member
      rw [← names] at name
      obtain ⟨old, inside, same⟩ := List.mem_map.mp name
      exact decide_eq_true (same ▸ named old inside)

theorem mirrors_self_iff (g : Ground) : Mirrors g g ↔ mirror g = g := by
  constructor
  · exact Mirrors.eq_mirror
  · intro same
    have named := named_mirror g
    rw [same] at named
    have mirrors := named.mirrors
    rwa [same] at mirrors

end Ground

/-- What the terms under names stand for, as far as all of them stand for anything. -/
def resolveEach (resolve : Term → Option Ground) : List (String × Term) → Option (List (String × Ground))
  | [] => some []
  | (name, child) :: rest =>
    (resolve child).bind fun g => (resolveEach resolve rest).map fun gs => (name, g) :: gs

/--
The ground term that a term becomes when variables are replaced by what they are bound to.

Nothing is returned when a variable is not bound, or when the first argument is used up.
-/
def resolve : Nat → List (Int × Term) → Term → Option Ground
  | 0, _, _ => none
  | fuel + 1, sub, .var _ id => (sub.lookup id).bind (resolve fuel sub)
  | _ + 1, _, .text _ bytes => some (.text bytes)
  | fuel + 1, sub, .list node children =>
    (resolveEach (resolve fuel sub) (Term.list node children).listChildren).map fun gs => .list (gs.map Prod.snd)
  | fuel + 1, sub, .dict _ fields => (resolveEach (resolve fuel sub) fields).map .dict

def Resolves (sub : List (Int × Term)) (t : Term) (g : Ground) : Prop :=
  ∃ fuel, resolve fuel sub t = some g

variable {sub : List (Int × Term)}

theorem resolveEach_iff {resolve : Term → Option Ground} : ∀ {fields : List (String × Term)}
    {gs : List (String × Ground)}, resolveEach resolve fields = some gs ↔
      List.Forall₂ (fun field g => field.1 = g.1 ∧ resolve field.2 = some g.2) fields gs := by
  intro fields
  induction fields with
  | nil => intro gs; simp [resolveEach, eq_comm]
  | cons field rest ih =>
    intro gs
    simp only [resolveEach, Option.bind_eq_some_iff, Option.map_eq_some_iff, List.forall₂_cons_left_iff, ih]
    constructor
    · rintro ⟨g, head, others, tail, rfl⟩
      exact ⟨(field.1, g), others, ⟨rfl, head⟩, tail, rfl⟩
    · rintro ⟨⟨name, g⟩, others, ⟨rfl, head⟩, tail, rfl⟩
      exact ⟨g, head, others, tail, rfl⟩

variable {fuel : Nat} {g : Ground} {t : Term}

theorem resolve_list_iff {node : Node} {children : List Term} :
    resolve (fuel + 1) sub (.list node children) = some g ↔
      ∃ gs, g = .list gs ∧ List.Forall₂ (fun child g => resolve fuel sub child = some g) children gs := by
  simp only [resolve, Term.listChildren, Option.map_eq_some_iff, resolveEach_iff, List.forall₂_map_left_iff]
  constructor
  · rintro ⟨gs, each, rfl⟩
    refine ⟨gs.map Prod.snd, rfl, ?_⟩
    rw [List.forall₂_map_right_iff]
    exact each.imp fun child g resolved => resolved.2
  · rintro ⟨gs, rfl, each⟩
    refine ⟨gs.map fun g => ("", g), ?_, by simp [Function.comp_def]⟩
    rw [List.forall₂_map_right_iff]
    exact each.imp fun child g resolved => ⟨rfl, resolved⟩

theorem resolve_dict_iff {node : Node} {fields : List (String × Term)} :
    resolve (fuel + 1) sub (.dict node fields) = some g ↔ ∃ gs, g = .dict gs ∧
      List.Forall₂ (fun field g => field.1 = g.1 ∧ resolve fuel sub field.2 = some g.2) fields gs := by
  simp only [resolve, Option.map_eq_some_iff, resolveEach_iff]
  exact ⟨fun ⟨gs, each, same⟩ => ⟨gs, same.symm, each⟩, fun ⟨gs, same, each⟩ => ⟨gs, each, same.symm⟩⟩

theorem resolve_mono (resolved : resolve fuel sub t = some g) :
    ∀ {more : Nat}, fuel ≤ more → resolve more sub t = some g := by
  induction fuel generalizing t g with
  | zero => simp [resolve] at resolved
  | succ fuel ih =>
    intro more le
    obtain ⟨more, rfl⟩ := Nat.exists_eq_add_one_of_ne_zero (show more ≠ 0 by omega)
    have le' : fuel ≤ more := by omega
    cases t with
    | var node id =>
      obtain ⟨value, bound, resolved⟩ := Option.bind_eq_some_iff.mp resolved
      rw [resolve, bound]
      exact ih resolved le'
    | text node bytes => exact resolved
    | list node children =>
      obtain ⟨gs, rfl, each⟩ := resolve_list_iff.mp resolved
      exact resolve_list_iff.mpr ⟨gs, rfl, each.imp fun child g resolved => ih resolved le'⟩
    | dict node fields =>
      obtain ⟨gs, rfl, each⟩ := resolve_dict_iff.mp resolved
      exact resolve_dict_iff.mpr ⟨gs, rfl, each.imp fun field g resolved => ⟨resolved.1, ih resolved.2 le'⟩⟩

theorem Resolves.unique {h : Ground} (one : Resolves sub t g) (other : Resolves sub t h) :
    g = h := by
  obtain ⟨fuel, one⟩ := one
  obtain ⟨fuel', other⟩ := other
  have left := resolve_mono one (le_max_left fuel fuel')
  have right := resolve_mono other (le_max_right fuel fuel')
  exact Option.some.inj (left.symm.trans right)

theorem Resolves.ground (ground : Resolves [] t g) (sub : List (Int × Term)) :
    Resolves sub t g := by
  obtain ⟨fuel, resolved⟩ := ground
  refine ⟨fuel, ?_⟩
  induction fuel generalizing t g with
  | zero => simp [resolve] at resolved
  | succ fuel ih =>
    cases t with
    | var node id => simp [resolve] at resolved
    | text node bytes => exact resolved
    | list node children =>
      obtain ⟨gs, rfl, each⟩ := resolve_list_iff.mp resolved
      exact resolve_list_iff.mpr ⟨gs, rfl, each.imp fun child g resolved => ih resolved⟩
    | dict node fields =>
      obtain ⟨gs, rfl, each⟩ := resolve_dict_iff.mp resolved
      exact resolve_dict_iff.mpr ⟨gs, rfl, each.imp fun field g resolved => ⟨resolved.1, ih resolved.2⟩⟩

theorem walk_of_resolve (resolved : resolve fuel sub t = some g) :
    ∃ w, walk fuel sub t = some w ∧ w.isLogicVar = false ∧ resolve fuel sub w = some g := by
  induction fuel generalizing t with
  | zero => simp [resolve] at resolved
  | succ fuel ih =>
    cases t with
    | var node id =>
      obtain ⟨value, bound, resolved⟩ := Option.bind_eq_some_iff.mp resolved
      obtain ⟨w, walked, plain, same⟩ := ih resolved
      exact ⟨w, by rw [walk, bound]; exact walked, plain, resolve_mono same (Nat.le_succ fuel)⟩
    | text node bytes => exact ⟨_, rfl, rfl, resolved⟩
    | list node children => exact ⟨_, rfl, rfl, resolved⟩
    | dict node fields => exact ⟨_, rfl, rfl, resolved⟩

theorem reifyEach_mirror
    (each : ∀ {t : Term} {g : Ground}, resolve fuel sub t = some g → ∀ labels, ∃ out last,
      reifyTerm (fuel + 1) sub t labels = some (out, last) ∧ resolve fuel [] out = some g.mirror)
    {fields : List (String × Term)} {gs : List (String × Ground)}
    (resolved : List.Forall₂ (fun field g => field.1 = g.1 ∧ resolve fuel sub field.2 = some g.2) fields gs) :
    ∀ labels, ∃ outs last, reifyEach (reifyTerm (fuel + 1) sub) fields labels = some (outs, last) ∧
      List.Forall₂ (fun out g => out.1 = g.1 ∧ resolve fuel [] out.2 = some g.2) outs
        (gs.map fun g => (g.1, g.2.mirror)) := by
  induction resolved with
  | nil => exact fun labels => ⟨[], labels, rfl, .nil⟩
  | @cons field g fields gs head _ ih =>
    intro labels
    rcases field with ⟨name, child⟩
    obtain ⟨out, next, reified, same⟩ := each head.2 labels
    obtain ⟨outs, last, others, rest⟩ := ih next
    exact ⟨(name, out) :: outs, last, by simp only [reifyEach, reified, others], .cons ⟨head.1, same⟩ rest⟩

theorem reifyTerm_mirror (fuel : Nat) : ∀ {t : Term} {g : Ground}, resolve fuel sub t = some g → ∀ labels,
    ∃ out last, reifyTerm (fuel + 1) sub t labels = some (out, last) ∧ resolve fuel [] out = some g.mirror := by
  -- The induction follows the nesting, and starts again at every binding.
  induction fuel with
  | zero => intro t g resolved; simp [resolve] at resolved
  | succ fuel ih =>
    intro t g resolved labels
    obtain ⟨w, walked, plain, resolved⟩ := walk_of_resolve resolved
    rw [reifyTerm, walked]
    cases w with
    | var node id => cases plain
    | text node bytes =>
      cases resolved
      exact ⟨_, _, rfl, by rw [Ground.mirror, resolve]⟩
    | list node children =>
      obtain ⟨gs, rfl, each⟩ := resolve_list_iff.mp resolved
      have named : List.Forall₂ (fun field g => field.1 = g.1 ∧ resolve fuel sub field.2 = some g.2)
          (Term.list node children).listChildren (gs.map fun g => ("", g)) := by
        rw [Term.listChildren, List.forall₂_map_left_iff, List.forall₂_map_right_iff]
        exact each.imp fun child g resolved => ⟨rfl, resolved⟩
      obtain ⟨outs, last, reified, same⟩ :=
        reifyEach_mirror ih named { labels with next := labels.next + 1 }
      simp only [reified]
      refine ⟨_, last, rfl, resolve_list_iff.mpr ⟨(gs.map Ground.mirror).reverse, ?_, ?_⟩⟩
      · rw [Ground.mirror, Ground.mirrorChildren_eq]
      · rw [List.forall₂_reverse_iff, List.forall₂_map_left_iff]
        rw [List.map_map, List.forall₂_map_right_iff] at same
        rw [List.forall₂_map_right_iff]
        exact same.imp fun out g resolved => resolved.2
    | dict node fields =>
      obtain ⟨gs, rfl, each⟩ := resolve_dict_iff.mp resolved
      dsimp only
      cases fields with
      | nil =>
        cases each
        exact ⟨_, _, rfl, resolve_dict_iff.mpr ⟨[], by simp [Ground.mirror, Ground.mirrorFields], .nil⟩⟩
      | cons field rest =>
        obtain ⟨outs, last, reified, same⟩ :=
          reifyEach_mirror ih each { labels with next := labels.next + 1 }
        simp only [List.isEmpty_cons, Bool.false_eq_true, if_false, reified]
        refine ⟨_, last, rfl, resolve_dict_iff.mpr ⟨_, by rw [Ground.mirror, Ground.mirrorFields_eq], ?_⟩⟩
        -- Names are kept, so the same fields are left out on both sides.
        refine List.rel_filter (fun out g resolved => ?_) same
        dsimp only
        rw [resolved.1]

theorem reify_mirror {s : State} (resolves : Resolves s.sub t g) :
    (∃ fuel out, reify fuel t s = some out) ∧
      ∀ fuel out, reify fuel t s = some out → ∀ h, Resolves [] out h ↔ g.mirror = h := by
  obtain ⟨fuel, resolved⟩ := resolves
  obtain ⟨out, last, reified, same⟩ := reifyTerm_mirror fuel resolved { next := s.next }
  have returned : reify (fuel + 1) t s = some out := by rw [reify, reified, Option.map_some]
  refine ⟨⟨fuel + 1, out, returned⟩, fun fuel' out' returned' h => ?_⟩
  have one : out' = out := Approximates.unique
    (fun n => (reifyTerm_mono s.sub n t { next := s.next }).map Prod.fst) returned' returned
  rw [one]
  constructor
  · exact fun resolves => Resolves.unique ⟨fuel, same⟩ resolves
  · rintro rfl
    exact ⟨fuel, same⟩

/--
A ground term is reified to itself, and a term whose variables are bound to ground terms to the term with
its bindings replaced, exactly if that is its own mirror image.
-/
theorem reify_faithful_iff {s : State} {t : Term} {g : Ground}
    (resolves : Resolves [] t g ∨ Resolves s.sub t g) :
    (∃ fuel out, reify fuel t s = some out ∧ Resolves [] out g) ↔ g.Mirrors g := by
  have bound : Resolves s.sub t g := resolves.elim (fun ground => ground.ground s.sub) id
  obtain ⟨⟨fuel, out, returned⟩, all⟩ := reify_mirror bound
  rw [Ground.mirrors_self_iff]
  constructor
  · rintro ⟨fuel', out', returned', faithful⟩
    exact (all fuel' out' returned' g).mp faithful
  · intro same
    exact ⟨fuel, out, returned, (all fuel out returned g).mpr same⟩

/-- A list of the value of a variable, a text, and that value again reads the same backwards. -/
theorem reify_faithful_iff_symmetric :
    let s : State := { sub := [(0, .dict ⟨1, false⟩ [])], count := 1, next := 5 }
    let t : Term := .list ⟨2, false⟩ [.var ⟨0, false⟩ 0, .text ⟨3, false⟩ [97], .var ⟨0, false⟩ 0]
    let g : Ground := .list [.dict [], .text [97], .dict []]
    ∃ fuel out, reify fuel t s = some out ∧ Resolves [] out g := by
  intro s t g
  have null : Ground.Mirrors (.dict []) (.dict []) := .dict (by simp) rfl .nil
  have mirrors : g.Mirrors g := .list (.cons null (.cons (.text _) (.cons null .nil)))
  exact (reify_faithful_iff (s := s) (t := t) (g := g) (.inr ⟨3, rfl⟩)).mpr mirrors

/-- A list of two texts is reified to the list with the texts exchanged. -/
theorem reify_faithful_fails : ¬∀ (s : State) (t : Term) (g : Ground), Resolves s.sub t g →
    ∃ fuel out, reify fuel t s = some out ∧ Resolves [] out g := by
  intro faithful
  let t : Term := .list ⟨0, false⟩ [.text ⟨1, false⟩ [97], .text ⟨2, false⟩ [98]]
  let g : Ground := .list [.text [97], .text [98]]
  have resolves : Resolves [] t g := ⟨2, rfl⟩
  obtain ⟨fuel, out, returned, same⟩ := faithful { next := 3 } t g resolves
  have mirror := ((reify_mirror (s := { next := 3 }) resolves).2 fuel out returned g).mp same
  simp [g, Ground.mirror, Ground.mirrorChildren] at mirror

end AgentC.Kanren

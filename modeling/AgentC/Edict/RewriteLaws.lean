import Mathlib.Data.List.Basic
import AgentC.Edict.Rewrite

/-! When a rewrite is right: it may not meet a null entry of the stack. -/

namespace AgentC.Edict

universe u v

variable {V : Type u} {H : Type v}

section Matching

variable [DecidableEq V] {values : Values V H}

theorem sameCapture_iff {captured value : V} :
    sameCapture values captured value = true ↔ SameValue values captured value := by
  unfold sameCapture SameValue
  split
  · rename_i same
    exact ⟨fun _ => Or.inl same, fun _ => rfl⟩
  · rename_i differs
    cases values.valueToString captured with
    | none => simp [differs]
    | some lhs =>
      cases values.valueToString value with
      | none => simp [differs]
      | some rhs =>
        simp only [beq_iff_eq, differs, false_or, Option.some.injEq]
        exact ⟨fun same => ⟨lhs, rfl, same.symm⟩, fun same => by
          obtain ⟨text, left, right⟩ := same
          exact left.trans right.symm⟩

def standsAfter (captures : Captures V) (tokens : List (List UInt8)) (suffix : List V)
    (token : List UInt8) : Option V :=
  (captures.lookup token).or (standsFor tokens suffix token)

omit [DecidableEq V] in
theorem standsAfter_capture {captures : Captures V} {token : List UInt8}
    {tokens : List (List UInt8)} {value : V} {suffix : List V}
    (new : captures.lookup token = none) :
    standsAfter ((token, value) :: captures) tokens suffix =
      standsAfter captures (token :: tokens) (value :: suffix) := by
  funext other
  unfold standsAfter standsFor
  rw [List.zip_cons_cons, List.lookup_cons, List.lookup_cons]
  by_cases same : other = token
  · subst same
    simp [new]
  · simp [beq_eq_false_iff_ne.mpr same]

omit [DecidableEq V] in
theorem standsAfter_pass {captures : Captures V} {token other : List UInt8}
    {tokens : List (List UInt8)} {value : V} {suffix : List V}
    (passed : isRewriteWildcard token = true → (captures.lookup token).isSome = true)
    (wildcard : isRewriteWildcard other = true) :
    standsAfter captures tokens suffix other =
      standsAfter captures (token :: tokens) (value :: suffix) other := by
  unfold standsAfter standsFor
  rw [List.zip_cons_cons, List.lookup_cons]
  by_cases same : other = token
  · subst same
    obtain ⟨captured, found⟩ := Option.isSome_iff_exists.mp (passed wildcard)
    rw [found, Option.some_or, Option.some_or]
  · rw [beq_eq_false_iff_ne.mpr same]

omit [DecidableEq V] in
theorem tokenMatches_congr {bound bound' : Option V} {token : List UInt8} {value : V}
    (same : isRewriteWildcard token = true → bound = bound') :
    TokenMatches values bound token value ↔ TokenMatches values bound' token value := by
  unfold TokenMatches
  split
  · rename_i wildcard
    rw [same wildcard]
  · rfl

variable (values) in
omit [DecidableEq V] in
def MatchAfter (captures : Captures V) (tokens : List (List UInt8)) (suffix : List V) : Prop :=
  ∀ pair ∈ tokens.zip suffix,
    TokenMatches values (standsAfter captures tokens suffix pair.1) pair.1 pair.2

omit [DecidableEq V] in
theorem matchAfter_cons {captures captures' : Captures V} {token : List UInt8}
    {tokens : List (List UInt8)} {value : V} {suffix : List V}
    (same : ∀ other, isRewriteWildcard other = true →
      standsAfter captures' tokens suffix other =
        standsAfter captures (token :: tokens) (value :: suffix) other) :
    MatchAfter values captures (token :: tokens) (value :: suffix) ↔
      TokenMatches values (standsAfter captures (token :: tokens) (value :: suffix) token)
        token value ∧ MatchAfter values captures' tokens suffix := by
  unfold MatchAfter
  rw [List.zip_cons_cons, List.forall_mem_cons]
  refine and_congr_right fun _ => forall_congr' fun pair => forall_congr' fun _ => ?_
  exact tokenMatches_congr fun wildcard => (same pair.1 wildcard).symm

theorem matchTokens_cases (values : Values V H) : ∀ (tokens : List (List UInt8)) (captures : Captures V)
    (suffix : List V), tokens.length ≤ suffix.length →
    (∃ final, matchTokens values captures tokens suffix = .ok final ∧
      MatchAfter values captures tokens suffix ∧
      ∀ token, isRewriteWildcard token = true →
        final.lookup token = standsAfter captures tokens suffix token) ∨
    (∃ mismatch, matchTokens values captures tokens suffix = .error mismatch ∧
      ¬MatchAfter values captures tokens suffix) := by
  intro tokens
  -- Token by token, with the captures that there are by then.
  induction tokens with
  | nil =>
    intro captures suffix _
    refine Or.inl ⟨captures, by rw [matchTokens], fun pair member => ?_, fun token _ => ?_⟩
    · exact absurd member List.not_mem_nil
    · simp [standsAfter, standsFor]
  | cons token tokens ih =>
    intro captures suffix long
    cases suffix with
    | nil => exact absurd long (by simp)
    | cons value suffix =>
      have shorter : tokens.length ≤ suffix.length := Nat.le_of_succ_le_succ long
      -- When the token itself matches, the rest decides.
      have goOn : ∀ captures' : Captures V,
          (∀ other, isRewriteWildcard other = true →
            standsAfter captures' tokens suffix other =
              standsAfter captures (token :: tokens) (value :: suffix) other) →
          TokenMatches values (standsAfter captures (token :: tokens) (value :: suffix) token)
            token value →
          matchTokens values captures (token :: tokens) (value :: suffix) =
            matchTokens values captures' tokens suffix →
          (∃ final, matchTokens values captures (token :: tokens) (value :: suffix) = .ok final ∧
            MatchAfter values captures (token :: tokens) (value :: suffix) ∧
            ∀ other, isRewriteWildcard other = true → final.lookup other =
              standsAfter captures (token :: tokens) (value :: suffix) other) ∨
          (∃ mismatch,
            matchTokens values captures (token :: tokens) (value :: suffix) = .error mismatch ∧
            ¬MatchAfter values captures (token :: tokens) (value :: suffix)) := by
        intro captures' same first step
        rw [step, matchAfter_cons same]
        rcases ih captures' suffix shorter with ⟨final, ok, all, stands⟩ | ⟨mismatch, bad, none_⟩
        · exact Or.inl ⟨final, ok, ⟨first, all⟩, fun other wildcard =>
            (stands other wildcard).trans (same other wildcard)⟩
        · exact Or.inr ⟨mismatch, bad, fun both => none_ both.2⟩
      by_cases wildcard : isRewriteWildcard token = true
      · cases found : captures.lookup token with
        | none =>
          have same := @standsAfter_capture _ captures token tokens value suffix found
          have stands : standsAfter captures (token :: tokens) (value :: suffix) token =
              some value := by
            simp [standsAfter, standsFor, found]
          refine goOn _ (fun other _ => congrFun same other) ?_ ?_
          · rw [TokenMatches, if_pos wildcard]
            exact ⟨value, stands, Or.inl rfl⟩
          · rw [matchTokens, if_pos wildcard, found]
        | some captured =>
          have stands : standsAfter captures (token :: tokens) (value :: suffix) token =
              some captured := by
            rw [standsAfter, found, Option.some_or]
          have meaning : TokenMatches values
              (standsAfter captures (token :: tokens) (value :: suffix) token) token value ↔
                sameCapture values captured value = true := by
            rw [TokenMatches, if_pos wildcard, stands, sameCapture_iff]
            simp
          by_cases equal : sameCapture values captured value = true
          · refine goOn captures (fun other => standsAfter_pass fun _ => ?_)
              (meaning.mpr equal) ?_
            · rw [found]; rfl
            · rw [matchTokens, if_pos wildcard, found]
              exact if_pos equal
          · refine Or.inr ⟨.conflict token, ?_, fun all => ?_⟩
            · rw [matchTokens, if_pos wildcard, found]
              exact if_neg equal
            · exact equal (meaning.mp (all _ List.mem_cons_self))
      · -- Other tokens capture nothing.
        have pass : ∀ other, isRewriteWildcard other = true →
            standsAfter captures tokens suffix other =
              standsAfter captures (token :: tokens) (value :: suffix) other :=
          fun other => standsAfter_pass fun itself => absurd itself wildcard
        by_cases kind : isRewriteTypeToken token = true
        · by_cases right : rewriteTypeMatches values token value = true
          · refine goOn captures pass ?_ ?_
            · rw [TokenMatches, if_neg wildcard, if_pos kind]
              exact right
            · rw [matchTokens, if_neg wildcard, if_pos kind, if_pos right]
          · refine Or.inr ⟨.kind token value, ?_, fun all => ?_⟩
            · rw [matchTokens, if_neg wildcard, if_pos kind, if_neg right]
            · have first := all _ List.mem_cons_self
              rw [TokenMatches, if_neg wildcard, if_pos kind] at first
              exact right first
        · by_cases right : values.valueToString value = some token
          · refine goOn captures pass ?_ ?_
            · rw [TokenMatches, if_neg wildcard, if_neg kind]
              exact right
            · rw [matchTokens, if_neg wildcard, if_neg kind, if_pos right]
          · refine Or.inr ⟨.literal token value, ?_, fun all => ?_⟩
            · rw [matchTokens, if_neg wildcard, if_neg kind, if_neg right]
            · have first := all _ List.mem_cons_self
              rw [TokenMatches, if_neg wildcard, if_neg kind] at first
              exact right first

/-- A pattern matches the first of some values. -/
def FitsOn (values : Values V H) (popped : List V) (rule : RewriteRule) : Prop :=
  rule.pattern ≠ [] ∧ rule.pattern.length ≤ popped.length ∧
    MatchAfter values [] rule.pattern.reverse popped

/-- The captures are what the wildcards of a rule stand for over some values. -/
def Captured (popped : List V) (rule : RewriteRule) (captures : Captures V) : Prop :=
  ∀ token, isRewriteWildcard token = true →
    captures.lookup token = standsFor rule.pattern.reverse popped token

/-- What has been found among the rules that were tried: the first of the longest that match. -/
structure SearchedIn (values : Values V H) (popped : List V) (tried : List RewriteRule)
    (search : RuleSearch V) : Prop where
  none_fits : search.best = none → ∀ rule ∈ tried, ¬FitsOn values popped rule
  best_fits : ∀ index rule captures, search.best = some (index, rule, captures) →
    tried[index]? = some rule ∧ FitsOn values popped rule ∧ Captured popped rule captures ∧
      ∀ other otherRule, tried[other]? = some otherRule → FitsOn values popped otherRule →
        otherRule.pattern.length < rule.pattern.length ∨
          otherRule.pattern.length = rule.pattern.length ∧ index ≤ other

variable {popped : List V} {tried : List RewriteRule} {rule : RewriteRule}
  {search : RuleSearch V}

theorem tryRule_of_fits (search : RuleSearch V) (index : Nat) (fits : FitsOn values popped rule) :
    ∃ captures, Captured popped rule captures ∧
      (tryRule values popped search (rule, index)).best =
        if rule.pattern.length > search.best_len then some (index, rule, captures)
        else search.best := by
  obtain ⟨nonempty, short, all⟩ := fits
  have inside : ¬(rule.pattern.length = 0 ∨ rule.pattern.length > popped.length) := by
    have := List.length_pos_iff.mpr nonempty
    omega
  have short' : rule.pattern.reverse.length ≤ popped.length := by
    rw [List.length_reverse]
    exact short
  rcases matchTokens_cases values rule.pattern.reverse [] popped short' with
    ⟨captures, ok, -, stands⟩ | ⟨mismatch, -, none_⟩
  · refine ⟨captures, stands, ?_⟩
    unfold tryRule
    dsimp only
    rw [if_neg inside, ok]
    dsimp only
    split <;> rfl
  · exact absurd all none_

theorem tryRule_of_not_fits (search : RuleSearch V) (index : Nat) (fails : ¬FitsOn values popped rule) :
    (tryRule values popped search (rule, index)).best = search.best := by
  unfold tryRule
  dsimp only
  split
  · rfl
  · rename_i inside
    have nonempty : rule.pattern ≠ [] := fun empty => inside (Or.inl (by rw [empty]; rfl))
    have short : rule.pattern.length ≤ popped.length := by omega
    have short' : rule.pattern.reverse.length ≤ popped.length := by
      rw [List.length_reverse]
      exact short
    rcases matchTokens_cases values rule.pattern.reverse [] popped short' with
      ⟨captures, -, all, -⟩ | ⟨mismatch, bad, -⟩
    · exact absurd ⟨nonempty, short, all⟩ fails
    · rw [bad]
      dsimp only
      split <;> rfl

theorem SearchedIn.step (searched : SearchedIn values popped tried search) :
    SearchedIn values popped (tried ++ [rule])
      (tryRule values popped search (rule, tried.length)) := by
  -- The new rule is the last one, so it only wins when it is longer.
  have last : ∀ {other : Nat} {otherRule : RewriteRule}, (tried ++ [rule])[other]? = some otherRule →
      tried[other]? = some otherRule ∨ other = tried.length ∧ otherRule = rule := by
    intro other otherRule found
    by_cases before : other < tried.length
    · rw [List.getElem?_append_left before] at found
      exact Or.inl found
    · rw [List.getElem?_append_right (by omega)] at found
      obtain ⟨place, same⟩ := List.getElem?_eq_some_iff.mp found
      have place' : other - tried.length = 0 := by simpa using place
      refine Or.inr ⟨by omega, ?_⟩
      simpa [place'] using same.symm
  by_cases fits : FitsOn values popped rule
  · obtain ⟨captures, captured, best⟩ := tryRule_of_fits search tried.length fits
    by_cases longer : rule.pattern.length > search.best_len
    · rw [if_pos longer] at best
      refine ⟨fun none_ => absurd (best.symm.trans none_) (by simp), fun index found caps same => ?_⟩
      obtain ⟨rfl, rfl, rfl⟩ : tried.length = index ∧ rule = found ∧ captures = caps := by
        simpa using best.symm.trans same
      refine ⟨by simp, fits, captured, fun other otherRule there otherFits => ?_⟩
      rcases last there with old | ⟨rfl, rfl⟩
      · cases before : search.best with
        | none => exact absurd otherFits (searched.none_fits before _ (List.mem_of_getElem? old))
        | some found =>
          obtain ⟨-, -, -, longest⟩ := searched.best_fits found.1 found.2.1 found.2.2 before
          have len : search.best_len = found.2.1.pattern.length := by
            rw [RuleSearch.best_len, before]
            rfl
          have := longest other otherRule old otherFits
          omega
      · exact Or.inr ⟨rfl, le_refl _⟩
    · rw [if_neg longer] at best
      have positive := List.length_pos_iff.mpr fits.1
      refine ⟨fun none_ => ?_, fun index found caps same => ?_⟩
      · have len : search.best_len = 0 := by
          rw [RuleSearch.best_len, best.symm.trans none_]
          rfl
        omega
      · have before := best.symm.trans same
        obtain ⟨listed, foundFits, foundCaptured, longest⟩ :=
          searched.best_fits index found caps before
        have len : search.best_len = found.pattern.length := by
          rw [RuleSearch.best_len, before]
          rfl
        have inside := (List.getElem?_eq_some_iff.mp listed).1
        refine ⟨by rw [List.getElem?_append_left inside]; exact listed, foundFits, foundCaptured,
          fun other otherRule there otherFits => ?_⟩
        rcases last there with old | ⟨rfl, rfl⟩
        · exact longest other otherRule old otherFits
        · omega
  · have best := tryRule_of_not_fits search tried.length fits
    refine ⟨fun none_ other member => ?_, fun index found caps same => ?_⟩
    · rcases List.mem_append.mp member with old | new
      · exact searched.none_fits (best.symm.trans none_) other old
      · rw [List.mem_singleton.mp new]
        exact fits
    · obtain ⟨listed, foundFits, foundCaptured, longest⟩ :=
        searched.best_fits index found caps (best.symm.trans same)
      have inside := (List.getElem?_eq_some_iff.mp listed).1
      refine ⟨by rw [List.getElem?_append_left inside]; exact listed, foundFits, foundCaptured,
        fun other otherRule there otherFits => ?_⟩
      rcases last there with old | ⟨-, rfl⟩
      · exact longest other otherRule old otherFits
      · exact absurd otherFits fits

variable {frame rest : List (Option V)} {lost : List (Option V)} {count : Nat}

omit [DecidableEq V] in
theorem RuleMatches.short {suffix : List V} (fits : RuleMatches values rule frame suffix)
    (split : frame = popped.map some ++ (lost ++ rest))
    (outcome : lost = [] ∧ none ∉ frame.take count ∧ popped.length = min count frame.length ∨
      lost = [none] ∧ none ∈ frame.take count)
    (reach : min frame.length rule.pattern.length ≤ count) :
    rule.pattern.length ≤ popped.length := by
  have there : rule.pattern.length ≤ frame.length := by
    have length := congrArg List.length fits.top
    rw [List.length_take, List.length_map, fits.covers] at length
    omega
  rcases outcome with ⟨-, -, length⟩ | ⟨rfl, -⟩
  · omega
  · by_contra beyond
    -- The null entry would be among the values that the rule matches.
    have inside : none ∈ frame.take rule.pattern.length := by
      rw [split, List.take_append, List.length_map, List.mem_append]
      refine Or.inr ?_
      rw [List.singleton_append, List.take_cons (by omega)]
      exact List.mem_cons_self
    rw [fits.top] at inside
    obtain ⟨value, -, same⟩ := List.mem_map.mp inside
    cases same

end Matching

namespace Rewriter

variable [DecidableEq V] {values : Values V H} {r : Rewriter V H} {manualTrigger : Bool}
  {frame : List (Option V)} {outer : List (List (Option V))}

def taken (r : Rewriter V H) (frame : List (Option V)) : List V × List (Option V) :=
  popValues (min frame.length (maxPattern r.rewrite_rules)) frame

def texts : Values (List UInt8) Unit where
  valueToString := fun value => if value = [] then none else some value
  isListMode := fun _ => false
  formatValueForDisplay := id
  createStringValue := fun world text => (world, text)

end Rewriter

end AgentC.Edict

import AgentC.Listree.Tree

/-! Rewrite rules, which replace values on top of the running data frame. -/

namespace AgentC.Edict

universe u v

/-- A rule. Its tokens stand as the values do on the stack, the top one last. -/
structure RewriteRule where
  pattern : List (List UInt8)
  replacement : List (List UInt8)
deriving DecidableEq, Repr

/-- When rules are applied. -/
inductive RewriteMode where
  | Auto
  | Manual
  | Off
deriving DecidableEq, Repr

def rewriteModeName : RewriteMode → List UInt8
  | .Auto => ascii "auto"
  | .Manual => ascii "manual"
  | .Off => ascii "off"

/-- What is kept about the last attempt. -/
structure RewriteTrace where
  status : List UInt8
  reason : List UInt8
  mode : List UInt8
  index : Option Nat := none
  pattern : Option (List (List UInt8)) := none
  replacement : Option (List (List UInt8)) := none
deriving DecidableEq, Repr

def isRewriteWildcard : List UInt8 → Bool
  | dollar :: digit :: digits =>
    dollar == 0x24 && (digit :: digits).all fun c => decide (0x30 ≤ c) && decide (c ≤ 0x39)
  | _ => false

def isRewriteTypeToken (token : List UInt8) : Bool :=
  token == ascii "#list" || token == ascii "#atom"

/-- What rules see of values. Two values of `V` are the same when they are one object. -/
structure Values (V : Type u) (H : Type v) where
  valueToString : V → Option (List UInt8)
  isListMode : V → Bool
  formatValueForDisplay : V → List UInt8
  createStringValue : H → List UInt8 → H × V

/-- Whether a value is of the kind that a token stands for. -/
def rewriteTypeMatches {V : Type u} {H : Type v} (values : Values V H) (token : List UInt8)
    (value : V) : Bool :=
  if token == ascii "#list" then values.isListMode value
  else if token == ascii "#atom" then !values.isListMode value
  else false

/-- Why a rule does not match. -/
inductive Mismatch (V : Type u) where
  | missing
  | conflict (token : List UInt8)
  | kind (token : List UInt8) (saw : V)
  | literal (token : List UInt8) (saw : V)

/-- The words for it. -/
def Mismatch.text {V : Type u} {H : Type v} (values : Values V H) (ruleIndex : Nat) :
    Mismatch V → List UInt8
  | .missing => ascii ("rule " ++ toString ruleIndex ++ " could not inspect stack value")
  | .conflict token =>
    ascii ("rule " ++ toString ruleIndex ++ " wildcard ") ++ token ++
      ascii " captured conflicting values"
  | .kind token saw =>
    ascii ("rule " ++ toString ruleIndex ++ " expected ") ++ token ++ ascii " but saw " ++
      values.formatValueForDisplay saw
  | .literal token saw =>
    ascii ("rule " ++ toString ruleIndex ++ " expected '") ++ token ++ ascii "' but saw " ++
      values.formatValueForDisplay saw

abbrev Captures (V : Type u) := List (List UInt8 × V)

section Matching

variable {V : Type u} {H : Type v} [DecidableEq V] (values : Values V H)

/-- Whether a wildcard may stand for two values. -/
def sameCapture (captured value : V) : Bool :=
  if captured = value then true
  else
    match values.valueToString captured, values.valueToString value with
    | some lhs, some rhs => lhs == rhs
    | _, _ => false

/-- The tokens of a pattern against values, from the top of the stack down. -/
def matchTokens : Captures V → List (List UInt8) → List V → Except (Mismatch V) (Captures V)
  | captures, [], _ => .ok captures
  | _, _ :: _, [] => .error .missing
  | captures, token :: tokens, value :: rest =>
    if isRewriteWildcard token then
      match captures.lookup token with
      | none => matchTokens ((token, value) :: captures) tokens rest
      | some captured =>
        if sameCapture values captured value then matchTokens captures tokens rest
        else .error (.conflict token)
    else if isRewriteTypeToken token then
      if rewriteTypeMatches values token value then matchTokens captures tokens rest
      else .error (.kind token value)
    else if values.valueToString value = some token then matchTokens captures tokens rest
    else .error (.literal token value)

/-- The best rule so far, with its index and captures, and why the first other one failed. -/
structure RuleSearch (V : Type u) where
  best : Option (Nat × RewriteRule × Captures V)
  best_failure_reason : List UInt8

def noRuleMatched : List UInt8 :=
  ascii "no rule matched the current stack suffix"

def RuleSearch.best_len (search : RuleSearch V) : Nat :=
  (search.best.map fun found => found.2.1.pattern.length).getD 0

/-- One more rule is tried. -/
def tryRule (popped : List V) (search : RuleSearch V) (entry : RewriteRule × Nat) : RuleSearch V :=
  let rule := entry.1
  let ruleIndex := entry.2
  if rule.pattern.length = 0 ∨ rule.pattern.length > popped.length then search
  else
    match matchTokens values [] rule.pattern.reverse popped with
    | .ok captures =>
      if rule.pattern.length > search.best_len then
        { search with best := some (ruleIndex, rule, captures) }
      else search
    | .error mismatch =>
      if search.best_failure_reason = noRuleMatched ∧ mismatch.text values ruleIndex ≠ [] then
        { search with best_failure_reason := mismatch.text values ruleIndex }
      else search

end Matching

/-- Values are taken until there are enough or one is null, which is gone then. -/
def popValues {V : Type u} : Nat → List (Option V) → List V × List (Option V)
  | 0, frame => ([], frame)
  | _ + 1, [] => ([], [])
  | _ + 1, none :: frame => ([], frame)
  | count + 1, some value :: frame =>
    let popped := popValues count frame
    (value :: popped.1, popped.2)

/-- What rewriting works on. The latest frame comes first, and its top value. -/
structure Rewriter (V : Type u) (H : Type v) where
  rewrite_mode : RewriteMode
  rewrite_rules : List RewriteRule
  last_rewrite_trace : Option RewriteTrace
  stack : List (List (Option V))
  world : H

def maxPattern (rules : List RewriteRule) : Nat :=
  (rules.map fun rule => rule.pattern.length).foldl max 0

namespace Rewriter

variable {V : Type u} {H : Type v} [DecidableEq V] (values : Values V H) (r : Rewriter V H)

def missed (status reason : String) : Rewriter V H :=
  { r with
    last_rewrite_trace := some
      { status := ascii status, reason := ascii reason, mode := rewriteModeName r.rewrite_mode } }

end Rewriter

section Meaning

variable {V : Type u} {H : Type v} (values : Values V H)

def SameValue (a b : V) : Prop :=
  a = b ∨ ∃ text, values.valueToString a = some text ∧ values.valueToString b = some text

def standsFor (tokens : List (List UInt8)) (suffix : List V) (token : List UInt8) : Option V :=
  (tokens.zip suffix).lookup token

def TokenMatches (bound : Option V) (token : List UInt8) (value : V) : Prop :=
  if isRewriteWildcard token then ∃ first, bound = some first ∧ SameValue values first value
  else if isRewriteTypeToken token then rewriteTypeMatches values token value = true
  else values.valueToString value = some token

/-- A pattern matches the values on top of a frame, which are there. An empty one never does. -/
structure RuleMatches (rule : RewriteRule) (frame : List (Option V)) (suffix : List V) : Prop where
  nonempty : rule.pattern ≠ []
  top : frame.take rule.pattern.length = suffix.map some
  covers : suffix.length = rule.pattern.length
  tokens : ∀ pair ∈ rule.pattern.reverse.zip suffix,
    TokenMatches values (standsFor rule.pattern.reverse suffix pair.1) pair.1 pair.2

/-- A replacement with its wildcards replaced by what they stand for, in the order of its tokens. -/
def instantiate (bound : List UInt8 → Option V) : H → List (List UInt8) → H × List V
  | world, [] => (world, [])
  | world, token :: tokens =>
    match (if isRewriteWildcard token then bound token else none) with
    | some value =>
      let later := instantiate bound world tokens
      (later.1, value :: later.2)
    | none =>
      let created := values.createStringValue world token
      let later := instantiate bound created.1 tokens
      (later.1, created.2 :: later.2)

namespace Rewriter

variable (r next : Rewriter V H) (manualTrigger : Bool)

def Enabled : Prop :=
  r.rewrite_mode ≠ .Off ∧ (manualTrigger = true ∨ r.rewrite_mode ≠ .Manual)

/-- The frame after the best rule has been applied. -/
def replaced (rule : RewriteRule) (suffix : List V) (frame : List (Option V)) :
    H × List (Option V) :=
  let made := instantiate values (standsFor rule.pattern.reverse suffix) r.world rule.replacement
  (made.1, made.2.reverse.map some ++ frame.drop rule.pattern.length)

def Whole : Prop :=
  r.Enabled manualTrigger → ∀ frame outer, r.stack = frame :: outer →
    none ∉ frame.take (maxPattern r.rewrite_rules)

end Rewriter

end Meaning

end AgentC.Edict

import Mathlib.Data.List.Sort
import Unhardcoded.Effects.Prefer
import Unhardcoded.Python.Value

/-!
# Policy templates

Source: `_cheapest_family` and `_smart_value` of policy_templates.py with the helpers they
use. A term is a tree; its nodes are named after the heads that the source writes. The
options are a dictionary of JSON values, `literals` says how `float` and `int` read a
text, and `repr` what `str` makes of a value that is no text.

What a term means is documented in SKILL.md: `Engine` is what an engine observes of a
candidate, `admitted` the candidates that pass the predicate and `order` the order in
which they are tried.
-/

namespace Unhardcoded.Source.PolicyTemplates

open Unhardcoded.Python

section Terms

inductive Pred where
  | top
  | bot
  | meetsReq
  | is (flag : String)
  | cmp (field rel : String) (bound : Operand)
  | familyEq (family : String)
  | providerEq (provider : String)
  | not (pred : Pred)
  | and (parts : List Pred)
  | or (parts : List Pred)

inductive Scorer where
  | field (name : String)
  | add (first second : Scorer)
  | scale (weight : Flt) (base : Scorer)
  | neg (base : Scorer)
  | normalize (base : Scorer)

inductive Selector where
  | argmax
  | prefer (pred : Pred) (inner : Selector)

inductive Xform where
  | id

inductive FailPlan where
  | always (action : List (String × Value))
  | override (plan : FailPlan) (reason : String) (action : List (String × Value))

structure Policy where
  pred : Pred
  scorer : Scorer
  selector : Selector
  xform : Xform
  failPlan : FailPlan

end Terms

section Meaning

/-- What an engine observes of its candidates. -/
structure Engine (C : Type) where
  meetsReq : C → Bool
  flag : String → C → Bool
  compare : String → String → Operand → C → Bool
  family : C → String
  provider : C → String
  /-- The score in a population. -/
  score : List C → Scorer → C → ℚ
  /-- The fixed order between candidates of equal score. -/
  tie : C → C → Bool

variable {C : Type} (engine : Engine C)

mutual

/-- A candidate satisfies a predicate. -/
def Engine.holds : Pred → C → Bool
  | .top, _ => true
  | .bot, _ => false
  | .meetsReq, c => engine.meetsReq c
  | .is flag, c => engine.flag flag c
  | .cmp field rel bound, c => engine.compare field rel bound c
  | .familyEq family, c => engine.family c = family
  | .providerEq provider, c => engine.provider c = provider
  | .not pred, c => !Engine.holds pred c
  | .and parts, c => Engine.holdsAll parts c
  | .or parts, c => Engine.holdsAny parts c

def Engine.holdsAll : List Pred → C → Bool
  | [], _ => true
  | pred :: parts, c => Engine.holds pred c && Engine.holdsAll parts c

def Engine.holdsAny : List Pred → C → Bool
  | [], _ => false
  | pred :: parts, c => Engine.holds pred c || Engine.holdsAny parts c

end

def Engine.admitted (policy : Policy) (candidates : List C) : List C := candidates.filter (engine.holds policy.pred)

/-- `argmax`: by decreasing score, ties in the fixed order. -/
def Engine.argmax (scorer : Scorer) (admitted : List C) : List C :=
  admitted.mergeSort fun a b =>
    engine.score admitted scorer b < engine.score admitted scorer a ||
      (engine.score admitted scorer a = engine.score admitted scorer b && engine.tie a b)

/-- A selector on the candidates in `argmax` order. -/
def Engine.select (ranked : List C) : Selector → List C
  | .argmax => ranked
  | .prefer pred inner => Effects.Prefer.prefer (engine.holds pred) (Engine.select ranked inner)

def Engine.ranked (policy : Policy) (candidates : List C) : List C :=
  engine.argmax policy.scorer (engine.admitted policy candidates)

def Engine.order (policy : Policy) (candidates : List C) : List C :=
  engine.select (engine.ranked policy candidates) policy.selector

end Meaning

section Options

abbrev Options := List (String × Value)

variable (literals : Literals) (repr : Value → String)

def templateError (message : String) : Raised := .other "PolicyTemplateError" message

/-- `options.get(key)`. -/
def Options.get (options : Options) (key : String) : Value := (options.lookup key).getD .null

/-- `options.get(key, default)`. -/
def Options.getD (options : Options) (key : String) (default : Value) : Value := (options.lookup key).getD default

/-- `str(v)`. -/
def textOf : Value → String
  | .str text => text
  | v => repr v

def DEFAULT_PROVIDER_ORDER : List (List String) :=
  [["openai_codex"], ["antseed"], ["bedrock", "bedrock_market"], ["openrouter", "openrouter_market"]]

def DEFAULT_EXPECTED_INPUT_SHARE : Flt := .fin (4 / 5)
def DEFAULT_RELIABILITY_FLOOR : Flt := .fin (4 / 5)
def DEFAULT_MAX_PRICE_IN : Flt := .fin 5
def DEFAULT_MAX_PRICE_OUT : Flt := .fin 25
def DEFAULT_QUALITY_TOP_N : Int := 5

/-- `_finite_number`. -/
def finiteNumber (value : Value) (name : String) : Except Raised Flt :=
  let refused := templateError (name ++ " must be a finite number")
  match value with
  | .bool _ => .error refused
  | _ => match value.toFloat literals with
    | .ok number => if number.isFinite then .ok number else .error refused
    | .error .typeError => .error refused
    | .error .valueError => .error refused
    | .error raised => .error raised

/-- `_bounded_number`. -/
def boundedNumber (value : Value) (name : String) (low high : Int) : Except Raised Flt := do
  let number ← finiteNumber literals value name
  if number.lt (.fin low) || (Flt.fin high).lt number then
    .error (templateError (name ++ " must be between " ++ toString low ++ " and " ++ toString high))
  else pure number

/-- `_positive_price`. -/
def positivePrice (value : Value) (name : String) : Except Raised Flt := do
  let number ← finiteNumber literals value name
  if number.lt (.fin 0) then .error (templateError (name ++ " must be greater than or equal to 0")) else pure number

end Options

section Providers

/-- One provider of `provider_order[index]`. -/
def parseProvider (index : Nat) (seen : List String) (raw : Value) : Except Raised String :=
  let provider := match raw with
    | .str text => strip text
    | _ => ""
  if provider = "" then .error (templateError ("provider_order[" ++ toString index ++ "] contains an empty provider"))
  else if provider ∈ seen then .error (templateError ("provider_order contains duplicate provider '" ++ provider ++ "'"))
  else .ok provider

/-- The providers of a group, and what has been seen after it. -/
def parseGroup (index : Nat) : List Value → List String → Except Raised (List String × List String)
  | [], seen => .ok ([], seen)
  | raw :: entries, seen => do
    let provider ← parseProvider index seen raw
    let (group, seen) ← parseGroup index entries (provider :: seen)
    pure (provider :: group, seen)

/-- `raw_group if isinstance(raw_group, list) else [raw_group]`. -/
def entriesOf : Value → List Value
  | .arr items => items
  | v => [v]

def parseGroups : Nat → List Value → List String → Except Raised (List (List String))
  | _, [], _ => .ok []
  | index, raw :: groups, seen =>
    if (entriesOf raw).isEmpty then
      .error (templateError ("provider_order[" ++ toString index ++ "] must contain at least one provider"))
    else do
      let (group, seen) ← parseGroup index (entriesOf raw) seen
      let rest ← parseGroups (index + 1) groups seen
      pure (group :: rest)

/-- `_parse_provider_order`. -/
def parseProviderOrder : Value → Except Raised (List (List String))
  | .null => .ok DEFAULT_PROVIDER_ORDER
  | .arr (raw :: groups) => parseGroups 0 (raw :: groups) []
  | _ => .error (templateError "provider_order must be a non-empty array")

end Providers

section Build

variable (literals : Literals) (repr : Value → String)

/-- `_and`. -/
def all : List Pred → Pred
  | [] => .top
  | [part] => part
  | parts => .and parts

/-- `_or`. -/
def any : List Pred → Pred
  | [] => .bot
  | [part] => part
  | parts => .or parts

/-- `_cost_score`. -/
def costScore (expectedInputShare : Flt) : Scorer :=
  .neg (.normalize (.add (.scale expectedInputShare (.field "price_in"))
    (.scale ((Flt.fin 1).sub expectedInputShare) (.field "price_out"))))

/-- `_healthy_first`. -/
def healthyFirst (selector : Selector) : Selector := .prefer (.not (.is "breaker_open")) selector

/-- The predicate of a group of providers. -/
def groupPred (group : List String) : Pred := any (group.map .providerEq)

/-- `_ordered_provider_selector`. -/
def orderedProviderSelector (providerOrder : List (List String)) : Pred × Selector :=
  let providerPreds := providerOrder.map groupPred
  (any providerPreds, providerPreds.foldr .prefer .argmax)

/-- `_base_filter`. -/
def baseFilter (reliability maxPriceIn maxPriceOut : Flt) : List Pred :=
  [.meetsReq, .not (.is "disabled"), .cmp "success_rate" "ge" (.float reliability),
    .cmp "price_in" "le" (.float maxPriceIn), .cmp "price_out" "le" (.float maxPriceOut)]

/-- `_common_values`. -/
def commonValues (options : Options) : Except Raised (List Pred × Scorer × Options) := do
  let inputShare ← boundedNumber literals
    (options.getD "expected_input_share" (.float DEFAULT_EXPECTED_INPUT_SHARE)) "expected_input_share" 0 1
  let reliability ← boundedNumber literals
    (options.getD "reliability_floor" (.float DEFAULT_RELIABILITY_FLOOR)) "reliability_floor" 0 1
  let maxPriceIn ← positivePrice literals (options.getD "max_price_in" (.float DEFAULT_MAX_PRICE_IN)) "max_price_in"
  let maxPriceOut ← positivePrice literals (options.getD "max_price_out" (.float DEFAULT_MAX_PRICE_OUT)) "max_price_out"
  pure (baseFilter reliability maxPriceIn maxPriceOut, costScore inputShare,
    [("expected_input_share", .float inputShare), ("reliability_floor", .float reliability),
      ("max_price_in", .float maxPriceIn), ("max_price_out", .float maxPriceOut)])

def action (name : String) (more : Options) : Options := ("action", .str name) :: more

def BALANCED_FAILURE_ACTIONS : List (String × Options) :=
  [("unknown", action "next_candidate" []), ("rate_limit", action "next_candidate" [("open_breaker_ms", .int 30000)]),
    ("timeout", action "next_candidate" []),
    ("server_error", action "retry_same"
      [("attempts", .int 1), ("backoff_ms", .int 500), ("then_action", .str "next_candidate")]),
    ("auth_error", action "disable_provider" []), ("bad_request", action "next_candidate" []),
    ("content_filter", action "next_candidate" []), ("bad_response", action "next_candidate" []),
    ("model_unavailable", action "next_provider_same_model" [("mark_unavailable_ms", .int 300000)]),
    ("network_error", action "retry_same"
      [("attempts", .int 2), ("backoff_ms", .arr [.int 200, .int 600]), ("then_action", .str "next_candidate")]),
    ("context_overflow", action "next_candidate" []), ("stream_interrupted", action "abort" []),
    ("payment_required", action "next_candidate" [("open_breaker_ms", .int 300000)])]

/-- `_balanced_fail_plan`. -/
def balancedFailPlan : FailPlan :=
  let reasons := (BALANCED_FAILURE_ACTIONS.map (·.1)).mergeSort fun a b => decide (a ≤ b)
  let actionOf (reason : String) := (BALANCED_FAILURE_ACTIONS.lookup reason).getD []
  reasons.foldl (fun plan reason => if reason = "unknown" then plan else .override plan reason (actionOf reason))
    (.always (actionOf "unknown"))

/-- `_policy` of a predicate, a scorer and a selector. -/
def policyOf (pred : Pred) (scorer : Scorer) (selector : Selector) : Policy := ⟨pred, scorer, selector, .id, balancedFailPlan⟩

/-- `str(options.get("provider_strategy") or "cost").strip()`. -/
def strategyOf (options : Options) : String := strip (textOf repr ((options.get "provider_strategy").orElse (.str "cost")))

/-- `str(options.get("family") or "").strip()`. -/
def familyOf (options : Options) : String := strip (textOf repr ((options.get "family").orElse (.str "")))

/-- `[list(group) for group in provider_order]`. -/
def listed (providerOrder : List (List String)) : Value := .arr (providerOrder.map fun group => .arr (group.map .str))

/-- `_cheapest_family`. -/
def cheapestFamily (options : Options) : Except Raised (Policy × Options) := do
  let family := familyOf repr options
  if family = "" then .error (templateError "cheapest-family requires a non-empty family")
  else do
    let (parts, costScore, intent) ← commonValues literals options
    let parts := parts ++ [.familyEq family]
    let strategy := strategyOf repr options
    let named : Options := [("family", .str family), ("provider_strategy", .str strategy)]
    if strategy = "cost" then pure (policyOf (all parts) costScore (healthyFirst .argmax), intent ++ named)
    else if strategy = "ordered" then do
      let providerOrder ← parseProviderOrder (options.get "provider_order")
      let (allowed, selector) := orderedProviderSelector providerOrder
      pure (policyOf (all (parts ++ [allowed])) costScore (healthyFirst selector),
        intent ++ [("provider_order", listed providerOrder)] ++ named)
    else .error (templateError "provider_strategy must be 'cost' or 'ordered'")

/-- `int(top_n_raw)`, where it is an integer from 1 on and equal to what it was read from. -/
def topN (topNRaw : Value) : Except Raised Int :=
  let refused := templateError "top_n must be a positive integer"
  match topNRaw with
  | .bool _ => .error refused
  | _ => match topNRaw.toInt literals with
    | .ok n => if n < 1 || !isNumber n topNRaw then .error refused else .ok n
    | .error .typeError => .error refused
    | .error .valueError => .error refused
    | .error raised => .error raised
where
  /-- `n == v`. -/
  isNumber (n : Int) : Value → Bool
    | .int m => n = m
    | .float (.fin q) => (n : ℚ) = q
    | _ => false

/-- `_smart_value`. -/
def smartValue (options : Options) : Except Raised (Policy × Options) := do
  let (parts, costScore, intent) ← commonValues literals options
  let topN ← topN literals (options.getD "top_n" (.int DEFAULT_QUALITY_TOP_N))
  let parts := parts ++ [.cmp "bench_intelligence_rank" "le" (.int topN)]
  pure (policyOf (all parts) costScore (healthyFirst .argmax), intent ++ [("top_n", .int topN)])

end Build

end Unhardcoded.Source.PolicyTemplates

import Mathlib.Algebra.BigOperators.Group.List.Basic
import Unhardcoded.Python.Value
import Unhardcoded.Source.DecisionProtocol

/-!
# Decision answers, as they arrive

Source: `probability`, `probability_sum_valid` and `validate_answer` of
decision_providers, `_parse` of jev.py, `validate_response` of decision_protocol.py and
the reading of a response in `send` of provider_adapters/decisions.py. An answer is any
JSON value, so its numbers may be special floats or integers of any size. Arithmetic of
numbers that pass `probability` is exact. `log` is the logarithm of the entropy, and
`decimals` the precision that goes with a model's name.
-/

namespace Unhardcoded.Source.DecisionAnswers

open Unhardcoded.Python

def decisionError (reason : String) : Raised := .other "DecisionError" reason

/-- `if not condition: raise error`. -/
def require (condition : Bool) (raised : Raised) : Except Raised Unit := if condition then .ok () else .error raised

section Numbers

/-- `type(v) in (int, float) and math.isfinite(v) and ..`: `isfinite` converts an integer. -/
def numberWithin (within : ℚ → Bool) : Value → Except Raised Bool
  | .int n => if n.natAbs < Flt.tooLarge then .ok (within n) else .error Flt.intTooLarge
  | .float (.fin q) => .ok (within q)
  | _ => .ok false

def probability : Value → Except Raised Bool := numberWithin fun q => 0 ≤ q ∧ q ≤ 1

/-- `not any(not probability(p) for p in values)`. -/
def probabilities : List Value → Except Raised Bool
  | [] => .ok true
  | v :: values => do
    if ← probability v then probabilities values else pure false

/-- The number a value is. -/
def rational : Value → ℚ
  | .int n => n
  | .float (.fin q) => q
  | _ => 0

/-- `round(q)`: ties to even. -/
def roundEven (q : ℚ) : Int :=
  if q - ⌊q⌋ < 1 / 2 ∨ (q - ⌊q⌋ = 1 / 2 ∧ ⌊q⌋ % 2 = 0) then ⌊q⌋ else ⌊q⌋ + 1

def HALF_STEP : ℚ := 5 / 1000

/-- The comparisons of `probability_sum_valid`. -/
def sumValid (decimalPlaces : Option Nat) (values : List ℚ) : Bool :=
  if |values.sum - 1| ≤ 1 / 10 ^ 6 then true
  else if decimalPlaces ≠ some 2 || values.any fun p => 1 / 10 ^ 8 < |p * 100 - roundEven (p * 100)| then false
  else
    (values.map fun p => max 0 (p - HALF_STEP)).sum ≤ 1 + 1 / 10 ^ 12 &&
      1 - 1 / 10 ^ 12 ≤ (values.map fun p => min 1 (p + HALF_STEP)).sum

/-- `probability_sum_valid`. -/
def probabilitySumValid (decimalPlaces : Option Nat) (values : List Value) : Except Raised Bool := do
  if values.isEmpty then pure false
  else if ← probabilities values then pure (sumValid decimalPlaces (values.map rational))
  else pure false

/-- The normalized entropy of `validate_answer`. -/
def entropyOf (log : ℚ → ℚ) (values : List ℚ) (choices : Nat) : Except Raised ℚ :=
  if 1 < choices then do
    let terms ← (values.filter (0 < ·)).mapM fun p =>
      if values.sum = 0 then .error (.other "ZeroDivisionError" "float division by zero")
      else if p / values.sum ≤ 0 then .error .valueError
      else .ok (p / values.sum * log (p / values.sum))
    pure (max 0 (min 1 (-terms.sum / log choices)))
  else pure 0

end Numbers

section Answer

/-- `set(keys) == set(names)`. -/
def sameKeys (keys names : List String) : Bool := keys.all (· ∈ names) && names.all (· ∈ keys)

abbrev Distribution := List (String × Value)

def Distribution.values (distribution : Distribution) : List Value := distribution.map (·.2)

/-- `distribution[selected] + 1e-9 < max(distribution.values())`. -/
def below (distribution : Distribution) (selected : String) : Bool :=
  distribution.any fun entry => rational ((distribution.lookup selected).getD .null) + 1 / 10 ^ 9 < rational entry.2

/-- What `validate_answer` returns. -/
structure Answer where
  selected : String
  probabilities : Option Distribution
  confidence : Value
  entropy : Option ℚ

variable (log : ℚ → ℚ)

/-- The distribution of an answer and its entropy; each check is made only after the ones before it. -/
def validateDistribution (decimals : Option Nat) (choices : List String) (selected : String) :
    Value → Except Raised (Option Distribution × Option ℚ)
  | .null => .ok (none, none)
  | .obj distribution => do
    let invalid := decisionError "invalid_probabilities"
    require (sameKeys (distribution.map (·.1)) choices) invalid
    require (← probabilities (Distribution.values distribution)) invalid
    require (← probabilitySumValid decimals (Distribution.values distribution)) invalid
    require (!below distribution selected) invalid
    let entropy ← entropyOf log ((Distribution.values distribution).map rational) choices.length
    pure (some distribution, some entropy)
  | _ => .error (decisionError "invalid_probabilities")

/-- `v is None or probability(v)`. -/
def confident (confidence : Value) : Except Raised Bool := if confidence.isNull then .ok true else probability confidence

/-- `selected`, a text among the choices. -/
def choiceOf (choices : List String) : Value → Except Raised String
  | .str selected => if selected ∈ choices then .ok selected else .error (decisionError "unknown_choice")
  | _ => .error (decisionError "unknown_choice")

/-- `validate_answer`. -/
def validateAnswer (decimals : Option Nat) (choices : List String) (answer : Value) : Except Raised Answer := do
  require (answer.isObj && (answer.field "type").isText "choice") (decisionError "invalid_response")
  let selected ← choiceOf choices (answer.field "choice")
  require (← confident (answer.field "confidence")) (decisionError "invalid_confidence")
  let (distribution, entropy) ← validateDistribution log decimals choices selected (answer.field "probabilities")
  pure ⟨selected, distribution, answer.field "confidence", entropy⟩

end Answer

section Unique

mutual

/-- No object inside has a key twice, the objects innermost first (`_unique_object`). -/
def uniqueKeys : Value → Bool
  | .arr items => uniqueItems items
  | .obj fields => uniqueFields fields && (fields.map (·.1)).Nodup
  | _ => true

def uniqueItems : List Value → Bool
  | [] => true
  | v :: items => uniqueKeys v && uniqueItems items

def uniqueFields : List (String × Value) → Bool
  | [] => true
  | entry :: fields => uniqueKeys entry.2 && uniqueFields fields

end

/-- `json.loads(raw, object_pairs_hook=_unique_object)` of a body that decodes. -/
def loads (body : Value) : Except Raised Value := if uniqueKeys body then .ok body else .error .valueError

end Unique

section Jev

structure DecisionResult where
  selectedId : String
  probabilities : Option Distribution
  confidence : Value
  normalizedEntropy : Option ℚ
  provider : String
  model : String
  latencyMs : ℚ
  costUsd : Value
  inputTokens : Value
  attempts : Nat

/-- How `_parse` fails: a `DecisionError`, or an exception that none of its handlers names. -/
inductive ParseFailure where
  | decision (reason : String) (costUsd : Value) (attempts : Nat)
  | escaped (raised : Raised)

/-- `except (ValueError, AttributeError, TypeError, DecisionError)`. -/
def reasonOf : Raised → Option String
  | .valueError => some "invalid_response"
  | .attributeError => some "invalid_response"
  | .typeError => some "invalid_response"
  | .other "DecisionError" reason => some reason
  | _ => none

/-- `type(v) is int and v >= 0`. -/
def isCount : Value → Bool
  | .int n => 0 ≤ n
  | _ => false

/-- `v is None or type(v) in (int, float) and math.isfinite(v) and v >= 0`. -/
def isCost (cost : Value) : Except Raised Bool := if cost.isNull then .ok true else numberWithin (fun q => 0 ≤ q) cost

/-- A text of at most 160 characters. -/
def modelOf : Value → Except Raised String
  | .str model => if model ≠ "" ∧ model.length ≤ 160 then .ok model else .error .valueError
  | _ => .error .valueError

/-- The first part of `_parse`, up to the reported cost. -/
def readCost (body : Value) : Except Raised (Value × Value) := do
  let data ← loads body
  let usage := (← data.get "usage").orDict
  let cost ← usage.get "cost"
  require (← isCost cost) .valueError
  pure (data, cost)

/-- The rest of `_parse`: the token count, the model and the answer. -/
def readAnswer (log : ℚ → ℚ) (decimals : String → Option Nat) (choices : List String) (data : Value) :
    Except Raised (Value × String × Answer) := do
  let tokens := ((data.field "usage").orDict).field "input_tokens"
  require (tokens.isNull || isCount tokens) .valueError
  let model ← modelOf (data.field "model")
  let selection ← ((data.fields.lookup "answers").getD (.obj [])).get "selection"
  let answer ← validateAnswer log (decimals model) choices selection
  pure (tokens, model, answer)

/-- What a call of `_parse` knows beside the body. -/
structure Attempt where
  transport : String
  choices : List String
  latencyMs : ℚ
  attempts : Nat
  unmetered : Bool

/-- `None if had_unmetered_attempt else cost`. -/
def Attempt.cost (call : Attempt) (cost : Value) : Value := if call.unmetered then .null else cost

def Attempt.fail {α : Type} (call : Attempt) (cost : Value) (raised : Raised) : Except ParseFailure α :=
  match reasonOf raised with
  | some reason => .error (.decision reason (call.cost cost) call.attempts)
  | none => .error (.escaped raised)

/-- `_parse`. -/
def parse (log : ℚ → ℚ) (decimals : String → Option Nat) (call : Attempt) (body : Value) :
    Except ParseFailure DecisionResult :=
  match readCost body with
  | .error raised => call.fail .null raised
  | .ok (data, cost) =>
    match readAnswer log decimals call.choices data with
    | .error raised => call.fail cost raised
    | .ok (tokens, model, answer) =>
      .ok ⟨answer.selected, answer.probabilities, answer.confidence, answer.entropy, call.transport, model,
        call.latencyMs, call.cost cost, tokens, call.attempts⟩

end Jev

section Response

variable (log : ℚ → ℚ)

/-- `except DecisionError as exc: raise ValueError(..)`. -/
def asValueError {α : Type} : Except Raised α → Except Raised α
  | .error (.other "DecisionError" _) => .error (FlowData.valueError "Invalid choice answer.")
  | result => result

def refuse (message : String) : Raised := FlowData.valueError message

/-- The answer to a score question. -/
def validateScore (decimals : Option Nat) (answer : Value) (criteria : Nat) : Except Raised Unit := do
  require (← numberWithin (fun q => 0 ≤ q ∧ q ≤ (criteria : ℚ) - 1) (answer.field "score")) (refuse "Invalid score.")
  match answer.field "probabilities" with
  | .null => pure ()
  | .obj distribution => do
    let invalid := refuse "Invalid score distribution."
    require (sameKeys (distribution.map (·.1)) ((List.range criteria).map toString)) invalid
    require (← probabilities (Distribution.values distribution)) invalid
    require (← probabilitySumValid decimals (Distribution.values distribution)) invalid
  | _ => .error (refuse "Invalid score distribution.")

/-- The part of an answer that its kind asks for. -/
def validateKind (decimals : Option Nat) (question : Json) (answer : Value) : Except Raised Unit :=
  let kind := question.field "type"
  if kind.isText "choice" then
    (asValueError (validateAnswer log decimals (DecisionProtocol.names (question.field "criteria")) answer)).map fun _ => ()
  else if kind.isText "noul" then do
    require (← probability (answer.field "noul")) (refuse "Invalid noul answer.")
  else validateScore decimals answer (question.field "criteria").elems.length

/-- `isinstance(answer, dict) and answer.get('type') == kind`. -/
def typed (question : Json) (answer : Value) : Bool :=
  answer.isObj && (match question.field "type" with
    | .str kind => (answer.field "type").isText kind
    | _ => false)

/-- The answer to one question of a payload. -/
def validateReply (decimals : Option Nat) (question : Json) (answer : Value) : Except Raised Unit := do
  require (typed question answer) (refuse "Invalid answer type.")
  require (← confident (answer.field "confidence")) (refuse "Invalid confidence.")
  validateKind log decimals question answer

def validateReplies (decimals : Option Nat) (answers : Value) : FlowData.Fields → Except Raised Unit
  | [] => pure ()
  | (name, question) :: questions => do
    validateReply log decimals question (answers.field name)
    validateReplies decimals answers questions

/-- The token counts and the cost of a usage. -/
def validateUsage (usage : Value) : Except Raised Unit := do
  require usage.isObj (refuse "Invalid usage.")
  require (["input_tokens", "output_tokens", "total_tokens"].all fun key => (usage.fields.lookup key).all isCount)
    (refuse "Invalid token usage.")
  require (← isCost (usage.field "cost")) (refuse "Invalid cost.")

def namedModel : Value → Except Raised String
  | .str model => if model ≠ "" then .ok model else .error (refuse "Missing decision model.")
  | _ => .error (refuse "Missing decision model.")

/-- What `validate_response` returns. -/
structure Decision where
  model : String
  answers : Value
  usage : Value

/-- `validate_response`. -/
def validateResponse (decimals : String → Option Nat) (questions : FlowData.Fields) (data : Value) : Except Raised Decision := do
  let model ← namedModel (data.field "model")
  let answers := data.field "answers"
  require (answers.isObj && sameKeys (answers.fields.map (·.1)) (questions.map (·.1))) (refuse "Missing or unexpected answers.")
  validateReplies log (decimals model) answers questions
  validateUsage (data.field "usage").orDict
  pure ⟨model, answers, (data.field "usage").orDict⟩

/-- What `send` makes of a complete body with status 200. -/
inductive Reply where
  | badResponse
  | response (decision : Decision)

/-- `except (ValueError, TypeError, AttributeError, RecursionError)`. -/
def isBadResponse : Raised → Bool
  | .valueError | .typeError | .attributeError => true
  | .other name _ => name = "ValueError" ∨ name = "RecursionError"
  | _ => false

def send (decimals : String → Option Nat) (questions : FlowData.Fields) (body : Value) : Except Raised Reply :=
  match loads body >>= validateResponse log decimals questions with
  | .ok decision => .ok (.response decision)
  | .error raised => if isBadResponse raised then .ok .badResponse else .error raised

end Response

end Unhardcoded.Source.DecisionAnswers

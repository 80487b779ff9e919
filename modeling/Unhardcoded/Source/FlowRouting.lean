import Unhardcoded.Python.Body
import Unhardcoded.Source.DecisionAnswers

/-!
# Routing a flow node by a decision

Source: flow_routing.py. A routing specification has its choices by name, each with a
description and a policy. Messages are JSON values, the result of the decision call is
any value, and how the call ends is an outcome: a result in time, or an exception, with
`TimeoutError` for a call that runs out of time.
-/

namespace Unhardcoded.Source.FlowRouting

open Unhardcoded.Python DecisionAnswers
open FlowData (Fields)

mutual

/-- `json.dumps(v, ensure_ascii=True, separators=(',', ':'))`. -/
def compact : Json → String
  | .null => "null"
  | .bool b => if b then "true" else "false"
  | .int n => toString n
  | .float _ repr => repr
  | .str text => quote text
  | .arr items => "[" ++ String.intercalate "," (compactItems items) ++ "]"
  | .obj fields => "\x7b" ++ String.intercalate "," (compactFields fields) ++ "\x7d"

def compactItems : List Json → List String
  | [] => []
  | item :: items => compact item :: compactItems items

def compactFields : Fields → List String
  | [] => []
  | (key, value) :: fields => (quote key ++ ":" ++ compact value) :: compactFields fields

end

section State

/-- An entry of `history`. -/
structure Clipped where
  message : String
  truncated : Bool
  deriving DecidableEq

/-- `text[:limit]`. -/
def clip (text : String) (limit : Nat) : String := String.ofList (text.toList.take limit)

/-- The loop over the messages, newest first: what is selected, and how many are omitted. -/
def select (remaining : Nat) : List Json → List Clipped × Nat
  | [] => ([], 0)
  | message :: older =>
    let text := compact message
    if remaining < 128 then
      let rest := select remaining older
      (rest.1, rest.2 + 1)
    else
      let limit := min 2400 remaining
      let rest := select (remaining - min text.length limit) older
      (⟨clip text limit, limit < text.length⟩ :: rest.1, rest.2)

structure DecisionState where
  history : List Clipped
  omittedMessages : Nat
  request : String
  requestTruncated : Bool
  deriving DecidableEq

/-- `decision_state`. -/
def decisionState (messages : List Json) (prompt : String) : DecisionState :=
  let selected := select 12000 messages.reverse
  ⟨selected.1.reverse, selected.2, clip prompt 2000, 2000 < prompt.length⟩

def Clipped.json (c : Clipped) : Json := .obj [("message", .str c.message), ("truncated", .bool c.truncated)]

def DecisionState.json (state : DecisionState) : Json :=
  .obj [("history", .arr (state.history.map Clipped.json)), ("omitted_messages", .int state.omittedMessages),
    ("request", .str state.request), ("request_truncated", .bool state.requestTruncated)]

end State

structure Choice where
  description : Json
  policy : Json

structure Routing where
  choices : List (String × Choice)
  fallback : String
  instructions : String
  policy : Json
  timeoutMs : Nat
  minConfidence : ℚ

/-- `questions` of the payload. -/
def Routing.questions (routing : Routing) : Fields :=
  [("route", .obj [("type", .str "choice"), ("instructions", .str routing.instructions),
    ("criteria", .obj (routing.choices.map fun entry => (entry.1, entry.2.description)))])]

def Routing.payload (routing : Routing) (messages : List Json) (prompt : String) : Json :=
  .obj [("state", (decisionState messages prompt).json), ("questions", .obj routing.questions)]

section Cost

/-- `chosen.get(raw, chosen.get(plain))`. -/
def priceOf (chosen : Value) (raw plain : String) : Except Raised Value := do
  let price ← chosen.get plain
  pure ((chosen.fields.lookup raw).getD price)

/-- `price / mult` where neither raw price is known. -/
def basePrice (chosen price : Value) : Except Raised Value :=
  if (chosen.fields.lookup "raw_price_in").isSome || (chosen.fields.lookup "raw_price_out").isSome then .ok price
  else do
    let base ← (← price.num).div (← ((chosen.field "price_multiplier").orElse (.int 1)).num)
    pure base.value

/-- The estimate from token counts and prices. -/
def estimate (tokensIn cached tokensOut pin pout : Value) : Except Raised Operand := do
  let fresh ← (← (← tokensIn.num).sub (← cached.num)).orZero.mul (← pin.num)
  let reused ← (← (← cached.num).mul (← pin.num)).mul (.float (.fin (1 / 10)))
  let input ← fresh.add reused
  let output ← (← tokensOut.num).mul (← pout.num)
  (← input.add output).div (.float (.fin 1000000))

/-- `result_cost`. -/
def resultCost (result : Value) : Except Raised (Option Operand) := do
  let response := (← result.get "response").orDict
  let chosen := (← result.get "chosen").orDict
  let reported ← response.get "cost_reported"
  if ← numberWithin (fun q => 0 ≤ q) reported then
    let cost ← reported.num
    pure (some cost)
  else
    let pin ← priceOf chosen "raw_price_in" "price_in"
    let pout ← priceOf chosen "raw_price_out" "price_out"
    if pin.isNull || pout.isNull || (response.field "tokens_in").isNull then pure none
    else
      let pin ← basePrice chosen pin
      let pout ← basePrice chosen pout
      let cost ← estimate (response.field "tokens_in") ((response.field "tokens_cached").orElse (.int 0))
        ((response.field "tokens_out").orElse (.int 0)) pin pout
      pure (some cost)

end Cost

section Select

/-- How `host.execute_async` ends within the time limit. -/
inductive Outcome where
  | returned (result : Value)
  | raised (exception : Raised)

structure Trace where
  selected : Value
  fallbackUsed : Bool
  costUsd : Option Operand
  decisionTrace : Value
  tokensIn : Value
  tokensOut : Value
  model : Value
  proposed : Value
  confidence : Value
  probabilities : Value
  fallbackReason : Option String
  error : Option String

/-- The trace before the call. -/
def Trace.start (fallback : String) : Trace :=
  ⟨.str fallback, true, none, .null, .null, .null, .null, .null, .null, .null, none, none⟩

/-- The class that the handlers go by. -/
def className : Raised → String
  | .attributeError => "AttributeError"
  | .typeError => "TypeError"
  | .valueError => "ValueError"
  | .timeoutError => "TimeoutError"
  | .other name _ => name

/-- The three handlers. -/
def Trace.handle (trace : Trace) (e : Raised) : Trace :=
  if className e = "TimeoutError" then { trace with fallbackReason := some "decision_timeout" }
  else if className e ∈ ["ValueError", "TypeError", "KeyError"] then { trace with fallbackReason := some "invalid_decision" }
  else { trace with fallbackReason := some "decision_error", error := some (className e) }

/-- What the trace records of a result before its decision is read. -/
def readResult (result : Value) : Body Trace Empty Unit := do
  let cost ← resultCost result
  modify fun trace => { trace with costUsd := cost }
  let decisionTrace ← result.get "trace"
  modify fun trace => { trace with decisionTrace }
  let response ← result.get "response"
  let tokensIn ← response.orDict.get "tokens_in"
  modify fun trace => { trace with tokensIn }
  let tokensOut ← response.orDict.get "tokens_out"
  modify fun trace => { trace with tokensOut }
  let chosen ← result.get "chosen"
  let model ← chosen.orDict.get "served_model_id"
  modify fun trace => { trace with model }

variable (log : ℚ → ℚ) (decimals : String → Option Nat)

/-- `v[key]`. -/
def item (v : Value) (key : String) : Except Raised Value :=
  match v.fields.lookup key with
  | some found => .ok found
  | none => .error (.other "KeyError" key)

/-- The decision of a result that is ok. -/
def readDecision (routing : Routing) (result : Value) : Body Trace Empty Unit := do
  let decision ← validateResponse log decimals routing.questions ((result.field "response").orDict.field "decision")
  let answer ← item decision.answers "route"
  let confidence ← answer.get "confidence"
  let proposed ← item answer "choice"
  let probabilities ← item answer "probabilities"
  modify fun trace => { trace with proposed, confidence, probabilities }
  if confidence.isNull || rational confidence < routing.minConfidence then
    modify fun trace => { trace with fallbackReason := some "uncertain" }
  else
    modify fun trace => { trace with selected := proposed, fallbackUsed := false }

/-- The body of the `try` statement. -/
def follow (routing : Routing) (payload : Json) (outcome : Outcome) : Body Trace Empty Unit := do
  let _ ← DecisionProtocol.validatePayload payload
  match outcome with
  | .raised exception => Body.raise exception
  | .returned result =>
    readResult result
    if (result.field "ok").truthy then readDecision log decimals routing result
    else modify fun trace => { trace with fallbackReason := some "decision_failed" }

/-- The trace after the `try` statement. -/
def traceOf (routing : Routing) (payload : Json) (outcome : Outcome) : Trace :=
  match (follow log decimals routing payload outcome).exec (.start routing.fallback) with
  | (.ok (), trace) => trace
  | (.error (.raised e), trace) => trace.handle e

/-- `choices[selected]['policy']`. -/
def Routing.policyOf (routing : Routing) : Value → Except Raised Json
  | .str name => match routing.choices.lookup name with
    | some choice => .ok choice.policy
    | none => .error (.other "KeyError" name)
  | _ => .error .typeError

/-- `select_node_policy`. -/
def selectNodePolicy (routing : Routing) (messages : List Json) (prompt : String) (outcome : Outcome) :
    Except Raised (Json × Trace) := do
  let trace := traceOf log decimals routing (routing.payload messages prompt) outcome
  let policy ← routing.policyOf trace.selected
  pure (policy, trace)

end Select

end Unhardcoded.Source.FlowRouting

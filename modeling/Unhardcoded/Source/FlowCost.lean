import Mathlib.Data.Rat.Floor
import Mathlib.Data.Int.ModEq
import Unhardcoded.Source.FlowRunner

/-!
# What a flow costs

`execute_flow_async` of `llm_router_host.py`: `run_node`, which calls the router and
writes the node's trace, and the cost summed from the traces. Beside it
`_executed_cost_usd` of `shim.py`, which prices one router result, and `result_cost` of
`flow_routing.py`. Amounts are exact: `round` takes a rational to a multiple of a power
of ten, halves to even. The router, the routing decisions and the clock are given as
what each node meets.
-/

namespace Unhardcoded.Source.FlowCost

open Unhardcoded.Python
open Unhardcoded.Source.FlowData (Fields)
open Unhardcoded.Source.FlowRunner

section Amounts

/-- The nearest integer, the even one of two. -/
def nearest (x : ℚ) : ℤ :=
  let below := ⌊x⌋
  if x - below < 1 / 2 then below
  else if 1 / 2 < x - below then below + 1
  else below + below % 2

/-- `round(x, digits)`. -/
def round (x : ℚ) (digits : Nat) : ℚ := nearest (x * 10 ^ digits) / 10 ^ digits

/-- A number that is no `bool`. -/
def amount? : Json → Option ℚ
  | .int n => some n
  | .float value _ => some value
  | _ => none

/-- A cost the provider reported: no `None`, not negative. -/
def reported? (cost : Option ℚ) : Option ℚ := cost.filter fun c => 0 ≤ c

/-- Prices are per million tokens; cache reads are billed at a tenth. -/
def billed (priceIn priceOut : Option ℚ) (tokensIn tokensCached tokensOut : Option ℤ) : ℚ :=
  let cached := tokensCached.getD 0
  let uncached := max 0 (tokensIn.getD 0 - cached)
  uncached / 10 ^ 6 * priceIn.getD 0 + cached / 10 ^ 6 * priceIn.getD 0 * (1 / 10)
    + tokensOut.getD 0 / 10 ^ 6 * priceOut.getD 0

end Amounts

section Router

/-- What `result["chosen"]` holds about prices. A raw price may have no key, or the key with `None`. -/
structure Chosen where
  providerId : Option String
  servedModelId : Json
  priceIn : Option ℚ
  priceOut : Option ℚ
  rawPriceIn : Option (Option ℚ)
  rawPriceOut : Option (Option ℚ)
  /-- `none` where it is no number. -/
  priceMultiplier : Option ℚ

structure Response where
  text : String
  toolCalls : List Json
  finishReason : Option String
  /-- `resp.get("decision") is not None`. -/
  decision : Bool
  /-- `none` where it is no number. -/
  costReported : Option ℚ
  tokensIn : Option ℤ
  tokensOut : Option ℤ
  tokensCached : Option ℤ

structure RouterResult where
  ok : Bool
  chosen : Chosen
  response : Response
  error : Json
  trace : Fields

/-- `chosen.get("raw_price_in", chosen.get("price_in"))`. -/
def rawOr (raw : Option (Option ℚ)) (price : Option ℚ) : Option ℚ := raw.getD price

structure Billing where
  /-- The providers whose `api_kind` is `openai_codex`. -/
  subscriptionProviders : List String
  /-- `settings.get(f"{provider}.price_multiplier")`, 1 where the schema has no such key. -/
  multiplier : Option String → ℚ

inductive Basis where
  | subscription
  | reported (cost : ℚ)
  | computed

/-- `_cost_basis`, with the cost reported. -/
def Billing.costBasis (billing : Billing) (result : RouterResult) : Option Basis :=
  if result.chosen.providerId.any fun p => p ∈ billing.subscriptionProviders then some .subscription
  else match reported? result.response.costReported with
    | some cost => some (.reported cost)
    | none =>
      if result.chosen.priceIn.isSome || result.chosen.priceOut.isSome then some .computed else none

def precision (response : Response) : Nat := if response.decision then 12 else 6

/-- `_executed_cost_usd`. -/
def Billing.executedCostUsd (billing : Billing) (result : RouterResult) : Option ℚ :=
  let chosen := result.chosen
  let response := result.response
  match billing.costBasis result with
  | some .subscription => some 0
  | some (.reported cost) => some (round cost (precision response))
  | none => none
  | some .computed =>
    let pin := rawOr chosen.rawPriceIn chosen.priceIn
    let pout := rawOr chosen.rawPriceOut chosen.priceOut
    let mult := chosen.priceMultiplier.getD (billing.multiplier chosen.providerId)
    let ranked := chosen.rawPriceIn.join = none ∧ chosen.rawPriceOut.join = none ∧ mult > 0
    let pin := if ranked then pin.map (· / mult) else pin
    let pout := if ranked then pout.map (· / mult) else pout
    let cost := billed pin pout response.tokensIn response.tokensCached response.tokensOut
    some (max 0 (round cost (precision response)))

/-- `result_cost` of a routing decision. -/
def resultCost (result : RouterResult) : Option ℚ :=
  let chosen := result.chosen
  let response := result.response
  match reported? response.costReported with
  | some cost => some cost
  | none =>
    match rawOr chosen.rawPriceIn chosen.priceIn, rawOr chosen.rawPriceOut chosen.priceOut, response.tokensIn with
    | some pin, some pout, some tokensIn =>
      let mult := match chosen.priceMultiplier with
        | some mult => if mult = 0 then 1 else mult
        | none => 1
      let ranked := chosen.rawPriceIn = none ∧ chosen.rawPriceOut = none
      let pin := if ranked then pin / mult else pin
      let pout := if ranked then pout / mult else pout
      let cached := response.tokensCached.getD 0
      some ((max 0 (tokensIn - cached) * pin + cached * pin * (1 / 10) + response.tokensOut.getD 0 * pout) / 10 ^ 6)
    | _, _, _ => none

end Router

section RunNode

/-- What a call of a node meets. -/
inductive Call where
  /-- An exception inside `run_node`. -/
  | raised (name message : String)
  /-- The router's result; before it, where the node has routing, the result of the routing decision
  (`some none` where that raised or timed out); after it, for a decision, what `validate_response` makes of it. -/
  | returned (routing : Option (Option RouterResult)) (result : RouterResult) (answers : Except String (Option Json))

/-- The deadline of the flow at a node: ahead, passed before the call, or running out during it. -/
inductive Deadline where
  | ahead
  | passed
  | duringCall
  deriving DecidableEq

structure Host where
  call : String → Node → Json → Call
  deadline : String → Deadline
  loads : String → Except Raised Json
  str : Json → String
  /-- `float.__repr__`. -/
  repr : ℚ → String

def Host.number (host : Host) : Option ℚ → Json
  | some q => .float q (host.repr q)
  | none => .null

def integer : Option ℤ → Json
  | some n => .int n
  | none => .null

/-- The trace of `select_node_policy`, as far as its cost goes. -/
def Host.routingTrace (host : Host) (decided : Option RouterResult) : Json :=
  .obj [("cost_usd", host.number (decided.bind resultCost))]

/-- The `node_trace` of a routed call. -/
def Host.nodeTrace (host : Host) (routing : Option (Option RouterResult)) (result : RouterResult) : Fields :=
  let chosen := result.chosen
  let response := result.response
  [("policy_fingerprint", (Json.obj result.trace).field "policy_fingerprint"),
    ("provider", match chosen.providerId with
      | some p => .str p
      | none => .null),
    ("served_model_id", chosen.servedModelId),
    ("price_in", host.number chosen.priceIn),
    ("price_out", host.number chosen.priceOut),
    ("raw_price_in", host.number chosen.rawPriceIn.join),
    ("raw_price_out", host.number chosen.rawPriceOut.join),
    ("price_multiplier", host.number chosen.priceMultiplier),
    ("tokens_in", integer response.tokensIn),
    ("tokens_out", integer response.tokensOut),
    ("tokens_cached", integer response.tokensCached),
    ("cost_reported", host.number response.costReported),
    ("latency_ms", (Json.obj result.trace).field "total_latency_ms"),
    ("decision_trace", (Json.obj result.trace).orElse .null)] ++
  match routing with
  | some decided => [("routing", host.routingTrace decided)]
  | none => []

/-- `run_node` and the deadline around it. -/
def Host.runNode (host : Host) (nid : String) (node : Node) (prompt : Json) : Except Raised Result :=
  match host.deadline nid with
  | .passed =>
    .ok { Result.none with error := .str "flow_deadline", nodeTrace := ("skipped", .bool true) :: cost0 }
  | .duringCall => .error .timeoutError
  | .ahead => match host.call nid node prompt with
    | .raised name message =>
      .ok { Result.none with
        error := .str ("node_exception: " ++ name ++ ": " ++ message)
        nodeTrace := [("node", .str nid), ("error", .str message)] }
    | .returned routing result answers =>
      let response := result.response
      let exhausted := (Json.obj result.trace).field "exhausted_reason"
      .ok {
        ok := result.ok && match answers with
          | .ok _ => true
          | .error _ => false
        text := response.text
        toolCalls := response.toolCalls
        finishReason := response.finishReason
        data := match answers with
          | .ok data => data
          | .error _ => none
        error := match answers with
          | .ok _ => result.error.orElse exhausted
          | .error invalid => (Json.str invalid).orElse (result.error.orElse exhausted)
        nodeTrace := host.nodeTrace routing result }

def Host.env (host : Host) : Env := ⟨host.runNode, host.loads, host.str⟩

end RunNode

section FlowCost

/-- `n.get(key)` of a trace entry. -/
def getKey (n : Fields) (key : String) : Json := (n.lookup key).getD .null

/-- `_node_cost`. -/
def nodeCost (n : Fields) : Option ℚ :=
  match reported? (amount? (getKey n "cost_reported")) with
  | some cost => some cost
  | none =>
    let pin := amount? ((n.lookup "raw_price_in").getD (getKey n "price_in"))
    let pout := amount? ((n.lookup "raw_price_out").getD (getKey n "price_out"))
    let tokensIn := amount? (getKey n "tokens_in")
    let tokensOut := amount? (getKey n "tokens_out")
    if (pin = none ∧ pout = none) ∨ tokensIn = none ∨ tokensOut = none then none
    else
      let mult := (amount? (getKey n "price_multiplier")).getD 0
      let ranked := amount? (getKey n "raw_price_in") = none ∧ amount? (getKey n "raw_price_out") = none ∧ mult > 0
      let pin := (if ranked then pin.map (· / mult) else pin).getD 0
      let pout := (if ranked then pout.map (· / mult) else pout).getD 0
      let cached := (amount? (getKey n "tokens_cached")).getD 0
      let uncached := max 0 (tokensIn.getD 0 - cached)
      some (uncached / 10 ^ 6 * pin + cached / 10 ^ 6 * pin * (1 / 10) + tokensOut.getD 0 / 10 ^ 6 * pout)

/-- `n["routing"]` where it is not `None`. -/
def routing? (n : Fields) : Option Json :=
  match getKey n "routing" with
  | .null => none
  | routing => some routing

/-- `flow_cost`. -/
def flowCost (nodes : List Fields) : Option ℚ :=
  let costs := nodes.filterMap nodeCost
  let routingTraces := nodes.filterMap routing?
  let routingCosts := routingTraces.filterMap fun r => amount? (r.field "cost_usd")
  let costKnown := routingCosts.length = routingTraces.length ∧ costs.length = nodes.length
  if costs ≠ [] ∧ costKnown then some (round (costs.sum + routingCosts.sum) 12) else none

end FlowCost

end Unhardcoded.Source.FlowCost

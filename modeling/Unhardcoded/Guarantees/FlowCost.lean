import Unhardcoded.Guarantees.FlowRunner
import Unhardcoded.Source.FlowCost

/-!
# A flow costs what its calls cost

The cost of a flow is read off the traces of its nodes. Where each call was billed in a
way the trace keeps (`Billed`), it is the sum of what `_executed_cost_usd` computes for
the router results of the calls, plus the routing decisions. A subscription provider's
scarcity price, a list price without a raw price, and a negative amount are not kept.
-/

namespace Unhardcoded.Guarantees.FlowCost

open Unhardcoded.Python
open Unhardcoded.Source.FlowData (Fields)
open Unhardcoded.Source.FlowRunner
open Unhardcoded.Source.FlowCost
open Unhardcoded.Guarantees.FlowRunner

section Calls

/-- A node that is no endpoint. -/
def Inner (node : Node) : Prop := node.kind ≠ .input ∧ node.kind ≠ .output

instance (node : Node) : Decidable (Inner node) := inferInstanceAs (Decidable (_ ∧ _))

/-- The outputs a visit read. -/
def parts (visit : Visit) : List Output := visit.read.map (·.getD .empty)

/-- What a node that calls `run_node` gives it. -/
def prompt (env : Env) (node : Node) (parts : List Output) : Except Raised Json :=
  let values := parts.map Output.value
  if node.kind = .decision then .ok (match values with
    | [value] => value
    | _ => .arr values)
  else (env.assemble node parts).map .str

/-- The call a visit makes. -/
def callOf (host : Host) (nodes : Nodes) (visit : Visit) : Option Call := do
  let node ← nodes.lookup visit.nid
  if ¬ Inner node ∨ node.kind = .data then none
  else match skips node ((parts visit).map Output.value), prompt host.env node (parts visit) with
    | .ok false, .ok prompt => match host.deadline visit.nid with
      | .passed => none
      | .duringCall => some (.raised "TimeoutError" "")
      | .ahead => some (host.call visit.nid node prompt)
    | _, _ => none

def calls (host : Host) (nodes : Nodes) (run : Run) : List Call := run.log.filterMap (callOf host nodes)

def routingCost : Option (Option RouterResult) → Option ℚ
  | none => some 0
  | some decided => decided.bind resultCost

/-- What a call costs, the routing decision before it included; `none` where that is not known. -/
def callCost (billing : Billing) : Call → Option ℚ
  | .raised _ _ => none
  | .returned routing result _ =>
    match billing.executedCostUsd result, routingCost routing with
    | some cost, some routing => some (cost + routing)
    | _, _ => none

/-- The sum over the calls of a run, where the cost of each is known. -/
def callsCost (billing : Billing) (calls : List Call) : Option ℚ := (calls.mapM (callCost billing)).map List.sum

end Calls

section Billed

/-- A multiple of a power of ten. -/
def Whole (digits : Nat) (x : ℚ) : Prop := ∃ k : ℤ, x = k / 10 ^ digits

/-- The trace of a call keeps what `_executed_cost_usd` bills for it. -/
def Billed (billing : Billing) (result : RouterResult) : Prop :=
  let chosen := result.chosen
  let response := result.response
  let subscription := chosen.providerId.any fun p => p ∈ billing.subscriptionProviders
  match reported? response.costReported with
  | some cost => if subscription then cost = 0 else Whole (precision response) cost
  | none =>
    let cost := billed chosen.rawPriceIn.join chosen.rawPriceOut.join response.tokensIn response.tokensCached
      response.tokensOut
    response.tokensIn.isSome ∧ response.tokensOut.isSome ∧
      (chosen.rawPriceIn.join.isSome ∨ chosen.rawPriceOut.join.isSome) ∧
      if subscription then cost = 0
      else 0 ≤ cost ∧ Whole (precision response) cost ∧
        (chosen.rawPriceIn = none → chosen.priceIn.getD 0 = 0) ∧ (chosen.rawPriceOut = none → chosen.priceOut.getD 0 = 0)

/-- A visit that calls nothing at no cost, or whose call is billed as its trace says. -/
def Settled (billing : Billing) (host : Host) (nodes : Nodes) (visit : Visit) : Prop :=
  ∀ node, nodes.lookup visit.nid = some node → Inner node →
    node.kind = .data ∨ skips node ((parts visit).map Output.value) = .ok true ∨
      ((∃ p, prompt host.env node (parts visit) = .ok p) ∧ host.deadline visit.nid = .passed) ∨
      ∃ routing result answers, callOf host nodes visit = some (.returned routing result answers) ∧
        Billed billing result ∧ ∀ cost, routingCost routing = some cost → Whole 12 cost

theorem nearest_int (k : ℤ) : nearest k = k := by
  simp [nearest]

theorem round_whole {digits : Nat} {x : ℚ} (h : Whole digits x) : Source.FlowCost.round x digits = x := by
  obtain ⟨k, rfl⟩ := h
  have power : (10 : ℚ) ^ digits ≠ 0 := by positivity
  rw [Source.FlowCost.round, div_mul_cancel₀ _ power, nearest_int]

theorem Whole.add {digits : Nat} {x y : ℚ} (hx : Whole digits x) (hy : Whole digits y) : Whole digits (x + y) := by
  obtain ⟨j, rfl⟩ := hx
  obtain ⟨k, rfl⟩ := hy
  exact ⟨j + k, by push_cast; ring⟩

theorem Whole.zero (digits : Nat) : Whole digits 0 := ⟨0, by simp⟩

/-- Six decimals are twelve. -/
theorem Whole.twelve {response : Response} {x : ℚ} (h : Whole (precision response) x) : Whole 12 x := by
  unfold precision at h
  split at h
  · exact h
  · obtain ⟨k, rfl⟩ := h
    exact ⟨k * 10 ^ 6, by push_cast; ring⟩

end Billed

section Trace

theorem amount_number (host : Host) (q : Option ℚ) : amount? (host.number q) = q := by
  cases q <;> rfl

theorem amount_integer (n : Option ℤ) : amount? (integer n) = n.map Int.cast := by
  cases n <;> rfl

theorem getD_cast (n : Option ℤ) : (n.map (Int.cast : ℤ → ℚ)).getD 0 = (n.getD 0 : ℤ) := by
  cases n <;> simp

/-- The cost read off the trace of a routed call. -/
theorem nodeCost_nodeTrace (host : Host) (routing : Option (Option RouterResult)) (result : RouterResult) :
    nodeCost (host.nodeTrace routing result) = match reported? result.response.costReported with
      | some cost => some cost
      | none =>
        if (result.chosen.rawPriceIn.join = none ∧ result.chosen.rawPriceOut.join = none) ∨
            result.response.tokensIn = none ∨ result.response.tokensOut = none then none
        else some (billed result.chosen.rawPriceIn.join result.chosen.rawPriceOut.join result.response.tokensIn
          result.response.tokensCached result.response.tokensOut) := by
  have reported : getKey (host.nodeTrace routing result) "cost_reported" = host.number result.response.costReported := by
    simp [getKey, Host.nodeTrace, List.lookup_cons]
  have rawIn : (host.nodeTrace routing result).lookup "raw_price_in" = some (host.number result.chosen.rawPriceIn.join) := by
    simp [Host.nodeTrace, List.lookup_cons]
  have rawOut : (host.nodeTrace routing result).lookup "raw_price_out" = some (host.number result.chosen.rawPriceOut.join) := by
    simp [Host.nodeTrace, List.lookup_cons]
  have tokensIn : (host.nodeTrace routing result).lookup "tokens_in" = some (integer result.response.tokensIn) := by
    simp [Host.nodeTrace, List.lookup_cons]
  have tokensOut : (host.nodeTrace routing result).lookup "tokens_out" = some (integer result.response.tokensOut) := by
    simp [Host.nodeTrace, List.lookup_cons]
  have cached : (host.nodeTrace routing result).lookup "tokens_cached" = some (integer result.response.tokensCached) := by
    simp [Host.nodeTrace, List.lookup_cons]
  unfold nodeCost
  rw [reported, amount_number]
  cases reported? result.response.costReported with
  | some cost => rfl
  | none =>
    simp only [getKey, rawIn, rawOut, tokensIn, tokensOut, cached, Option.getD_some, amount_number, amount_integer,
      Option.map_eq_none_iff]
    split
    · rfl
    · rename_i known
      have recorded : ¬ (result.chosen.rawPriceIn.join = none ∧ result.chosen.rawPriceOut.join = none ∧
          (amount? (((host.nodeTrace routing result).lookup "price_multiplier").getD .null)).getD 0 > 0) :=
        fun both => known (.inl ⟨both.1, both.2.1⟩)
      rw [if_neg recorded, if_neg recorded]
      simp only [getD_cast, billed]
      push_cast
      rfl

theorem routing_nodeTrace (host : Host) (routing : Option (Option RouterResult)) (result : RouterResult) :
    routing? (host.nodeTrace routing result) = routing.map host.routingTrace := by
  cases routing with
  | none => simp [routing?, getKey, Host.nodeTrace, List.lookup_cons]
  | some decided => simp [routing?, getKey, Host.nodeTrace, List.lookup_cons, Host.routingTrace]

end Trace

section Entries

/-- The keys of a trace entry that the cost is read from. -/
def readKeys : List String :=
  ["cost_reported", "raw_price_in", "raw_price_out", "price_in", "price_out", "price_multiplier", "tokens_in",
    "tokens_out", "tokens_cached", "routing"]

theorem cost_congr {d e : Fields} (same : ∀ key ∈ readKeys, d.lookup key = e.lookup key) :
    nodeCost d = nodeCost e ∧ routing? d = routing? e := by
  simp only [readKeys, List.forall_mem_cons] at same
  obtain ⟨cost, rawIn, rawOut, priceIn, priceOut, mult, tokensIn, tokensOut, cached, routing, -⟩ := same
  constructor
  · unfold nodeCost getKey
    rw [cost, rawIn, rawOut, priceIn, priceOut, mult, tokensIn, tokensOut, cached]
  · unfold routing? getKey
    rw [routing]

/-- The trace of a node without a call, which costs nothing. -/
def Free (trace : Fields) : Prop := trace = cost0 ∨ trace = ("skipped", .bool true) :: cost0

theorem Free.cost {trace : Fields} (h : Free trace) :
    nodeCost trace = some 0 ∧ routing? trace = none ∧ (trace.map (·.1)).Nodup := by
  rcases h with rfl | rfl
  · exact ⟨rfl, rfl, by decide⟩
  · exact ⟨rfl, rfl, by decide⟩

variable {env : Env} {nid : String} {node : Node} {outputs : List Output} {skipped : Bool} {result : Result}

/-- The node trace of a result is the one its call, or the failure to make one, left. -/
def Left (env : Env) (nid : String) (node : Node) (outputs : List Output) (skipped : Bool) (trace : Fields) : Prop :=
  (∃ called, env.callNode nid node outputs skipped = .ok called ∧ trace = called.nodeTrace) ∨
    (∃ e, env.callNode nid node outputs skipped = .error e) ∧ trace = if node.kind = .data then cost0 else []

theorem handle_trace {before : Result} {e : Raised} (h : handle before e = .ok result) :
    result.nodeTrace = before.nodeTrace := by
  unfold handle at h
  split at h
  · rw [← Except.ok.inj h]
  · cases h

theorem typed_trace {called : Result} (h : env.typed node skipped called = .ok result) :
    result.nodeTrace = called.nodeTrace := by
  unfold Env.typed at h
  split at h
  · split at h
    · cases h
    · cases decoded : Source.FlowData.decode env.loads called.text with
      | error e => simp [decoded, bind, Except.bind] at h
      | ok data =>
        simp only [decoded, bind, Except.bind, pure, Except.pure] at h
        rw [← Except.ok.inj h]
  · rw [← Except.ok.inj h]

theorem sized_trace {called : Result} (h : sized called = .ok result) : result.nodeTrace = called.nodeTrace := by
  unfold sized at h
  split at h
  · rename_i data _
    cases bound : Source.FlowData.bounded data with
    | error e => simp [bound, bind, Except.bind] at h
    | ok value =>
      simp only [bound, bind, Except.bind, pure, Except.pure] at h
      rw [← Except.ok.inj h]
  · rw [← Except.ok.inj h]

theorem tried_left (h : env.tried nid node outputs skipped = .ok result) :
    Left env nid node outputs skipped result.nodeTrace := by
  unfold Env.tried at h
  split at h
  · rename_i e raised
    exact .inr ⟨⟨e, raised⟩, handle_trace h⟩
  · rename_i called done
    refine .inl ⟨called, done, ?_⟩
    split at h
    · exact handle_trace h
    · rename_i typed decoded
      have same := typed_trace decoded
      split at h
      · rw [handle_trace h, same]
      · rename_i encoded
        rw [← Except.ok.inj h, sized_trace encoded, same]

theorem fallback_trace {values : List Json} {before : Result} (h : fallback node values before = .ok result) :
    ((before.nodeTrace.map (·.1)).Nodup → (result.nodeTrace.map (·.1)).Nodup) ∧
      ∀ key, key ≠ "error" → key ≠ "fallback" → result.nodeTrace.lookup key = before.nodeTrace.lookup key := by
  unfold fallback at h
  split at h
  · cases value : head values with
    | error e => simp [value, bind, Except.bind] at h
    | ok v =>
      simp only [value, bind, Except.bind, pure, Except.pure] at h
      rw [← Except.ok.inj h]
      refine ⟨fun distinct => nodup_insert (nodup_insert distinct _ _) _ _, fun key notError notFallback => ?_⟩
      rw [lookup_insert_of_ne notError, lookup_insert_of_ne notFallback]
  · rw [← Except.ok.inj h]
    exact ⟨id, fun _ _ _ => rfl⟩

theorem evaluate_left (h : env.evaluate nid node outputs = .ok result) :
    ∃ skipped trace, skips node (outputs.map Output.value) = .ok skipped ∧ Left env nid node outputs skipped trace ∧
      ((trace.map (·.1)).Nodup → (result.nodeTrace.map (·.1)).Nodup) ∧
      ∀ key, key ≠ "error" → key ≠ "fallback" → result.nodeTrace.lookup key = trace.lookup key := by
  unfold Env.evaluate at h
  cases skip : skips node (outputs.map Output.value) with
  | error e => simp [skip, bind, Except.bind] at h
  | ok skipped =>
    cases tried : env.tried nid node outputs skipped with
    | error e => simp [skip, tried, bind, Except.bind] at h
    | ok first =>
      simp only [skip, tried, bind, Except.bind] at h
      exact ⟨skipped, first.nodeTrace, rfl, tried_left tried, fallback_trace h⟩

/-- The cost of an entry is that of the trace the node left. -/
theorem entry_cost (h : env.evaluate nid node outputs = .ok result) :
    ∃ skipped trace, skips node (outputs.map Output.value) = .ok skipped ∧ Left env nid node outputs skipped trace ∧
      ((trace.map (·.1)).Nodup → nodeCost (traceEntry nid node result) = nodeCost trace ∧
        routing? (traceEntry nid node result) = routing? trace) := by
  obtain ⟨skipped, trace, skip, left, distinct, same⟩ := evaluate_left h
  refine ⟨skipped, trace, skip, left, fun unique => cost_congr fun key read => ?_⟩
  have other : key ≠ "node" ∧ key ≠ "kind" ∧ key ≠ "inputs" ∧ key ≠ "error" ∧ key ≠ "fallback" := by
    revert key
    decide
  obtain ⟨notNode, notKind, notInputs, notError, notFallback⟩ := other
  rw [traceEntry, lookup_update (distinct unique), same key notError notFallback]
  simp [List.lookup_cons, beq_eq_false_iff_ne.mpr notNode, beq_eq_false_iff_ne.mpr notKind,
    beq_eq_false_iff_ne.mpr notInputs]

end Entries

section Counts

variable {billing : Billing} {host : Host} {nodes : Nodes}

theorem billed_congr {pin pin' pout pout' : Option ℚ} (samePin : pin.getD 0 = pin'.getD 0)
    (samePout : pout.getD 0 = pout'.getD 0) (tokensIn tokensCached tokensOut : Option ℤ) :
    billed pin pout tokensIn tokensCached tokensOut = billed pin' pout' tokensIn tokensCached tokensOut := by
  unfold billed
  rw [samePin, samePout]

theorem rawOr_getD {raw : Option (Option ℚ)} {price : Option ℚ} (h : raw = none → price.getD 0 = 0) :
    (rawOr raw price).getD 0 = raw.join.getD 0 := by
  cases raw with
  | none => exact h rfl
  | some raw => rfl

/-- The trace of a billed call says what the call costs. -/
theorem billed_cost {result : RouterResult} (h : Billed billing result) {cost : ℚ}
    (known : billing.executedCostUsd result = some cost) (routing : Option (Option RouterResult)) :
    nodeCost (host.nodeTrace routing result) = some cost ∧ Whole 12 cost := by
  rw [nodeCost_nodeTrace]
  unfold Billed at h
  dsimp only at h
  unfold Billing.executedCostUsd Billing.costBasis at known
  cases subscription : result.chosen.providerId.any fun p => p ∈ billing.subscriptionProviders with
  | true =>
    simp only [subscription, if_true] at h known
    obtain rfl := Option.some.inj known
    cases reported : reported? result.response.costReported with
    | some c =>
      simp only [reported] at h
      rw [h]
      exact ⟨rfl, Whole.zero 12⟩
    | none =>
      simp only [reported] at h
      obtain ⟨tokensIn, tokensOut, raw, free⟩ := h
      dsimp only
      rw [if_neg, free]
      · exact ⟨rfl, Whole.zero 12⟩
      · rintro (⟨noIn, noOut⟩ | noTokens | noTokens)
        · simp [noIn, noOut] at raw
        · simp [noTokens] at tokensIn
        · simp [noTokens] at tokensOut
  | false =>
    simp only [subscription, Bool.false_eq_true, if_false] at h known
    cases reported : reported? result.response.costReported with
    | some c =>
      simp only [reported] at h known
      rw [round_whole h] at known
      exact ⟨known, Option.some.inj known ▸ h.twelve⟩
    | none =>
      simp only [reported] at h known
      obtain ⟨tokensIn, tokensOut, raw, positive, whole, listIn, listOut⟩ := h
      split at known
      · rename_i basis
        split at basis <;> cases basis
      · rename_i basis
        split at basis <;> cases basis
      · cases known
      · have unranked : ¬ (result.chosen.rawPriceIn.join = none ∧ result.chosen.rawPriceOut.join = none ∧
            result.chosen.priceMultiplier.getD (billing.multiplier result.chosen.providerId) > 0) := by
          rintro ⟨noIn, noOut, -⟩
          simp [noIn, noOut] at raw
        rw [if_neg unranked, if_neg unranked, billed_congr (rawOr_getD listIn) (rawOr_getD listOut), round_whole whole,
          max_eq_right positive] at known
        obtain rfl := Option.some.inj known
        dsimp only
        rw [if_neg]
        · exact ⟨rfl, whole.twelve⟩
        · rintro (⟨noIn, noOut⟩ | noTokens | noTokens)
          · simp [noIn, noOut] at raw
          · simp [noTokens] at tokensIn
          · simp [noTokens] at tokensOut

/-- A trace entry with its share of the total. -/
def Counts (entry : Fields) (total : ℚ) : Prop :=
  ∃ cost routing, nodeCost entry = some cost ∧ total = cost + routing ∧ Whole 12 cost ∧ Whole 12 routing ∧
    (routing? entry).elim (some 0) (fun r => amount? (r.field "cost_usd")) = some routing

theorem Free.counts {entry trace : Fields} (free : Free trace) (same : nodeCost entry = nodeCost trace)
    (sameRouting : routing? entry = routing? trace) : Counts entry 0 := by
  obtain ⟨cost, routing, -⟩ := free.cost
  exact ⟨0, 0, by rw [same, cost], by simp, Whole.zero 12, Whole.zero 12, by rw [sameRouting, routing]; rfl⟩

theorem nodup_nodeTrace (host : Host) (routing : Option (Option RouterResult)) (result : RouterResult) :
    ((host.nodeTrace routing result).map (·.1)).Nodup := by
  cases routing with
  | none => simp [Host.nodeTrace]
  | some decided => simp [Host.nodeTrace]

/-- What a visit adds to the cost of the calls. -/
def visitCost (billing : Billing) (host : Host) (nodes : Nodes) (visit : Visit) : Option ℚ :=
  (callOf host nodes visit).elim (some 0) (callCost billing)

variable {visit : Visit} {node : Node} {result : Result} {total : ℚ}

theorem callOf_inner (found : nodes.lookup visit.nid = some node) (inner : Inner node) (called : node.kind ≠ .data) :
    callOf host nodes visit =
      match skips node ((parts visit).map Output.value), prompt host.env node (parts visit) with
      | .ok false, .ok prompt => match host.deadline visit.nid with
        | .passed => none
        | .duringCall => some (.raised "TimeoutError" "")
        | .ahead => some (host.call visit.nid node prompt)
      | _, _ => none := by
  simp only [callOf, found, Option.bind_eq_bind, Option.bind_some]
  rw [if_neg]
  rintro (endpoint | data)
  · exact endpoint inner
  · exact called data

theorem callOf_data (found : nodes.lookup visit.nid = some node) (data : node.kind = .data) :
    callOf host nodes visit = none := by
  simp only [callOf, found, Option.bind_eq_bind, Option.bind_some]
  rw [if_pos (.inr data)]

theorem callNode_prompt (nid : String) {outputs : List Output} (called : node.kind ≠ .data) {p : Json}
    (prompted : prompt host.env node outputs = .ok p) :
    host.env.callNode nid node outputs false = host.runNode nid node p := by
  unfold prompt at prompted
  unfold Env.callNode
  rw [if_neg Bool.false_ne_true]
  cases kind : node.kind with
  | data => exact absurd kind called
  | decision =>
    rw [if_pos kind] at prompted
    dsimp only
    rw [← Except.ok.inj prompted]
    rfl
  | _ =>
    rw [if_neg (by rw [kind]; decide)] at prompted
    cases assembled : host.env.assemble node outputs with
    | error e =>
      rw [assembled] at prompted
      cases prompted
    | ok text =>
      rw [assembled] at prompted
      obtain rfl := Except.ok.inj prompted
      rfl

theorem left_skipped {trace : Fields} {nid : String} {outputs : List Output}
    (skip : skips node (outputs.map Output.value) = .ok true) (left : Left host.env nid node outputs true trace) :
    Free trace := by
  unfold skips at skip
  split at skip
  · cases value : head (outputs.map Output.value) with
    | error e =>
      rw [value] at skip
      cases skip
    | ok v =>
      have called : host.env.callNode nid node outputs true =
          .ok { Result.none with ok := true, data := some v, nodeTrace := ("skipped", .bool true) :: cost0 } := by
        unfold Env.callNode
        rw [if_pos rfl, value]
        rfl
      rcases left with ⟨result, same, rfl⟩ | ⟨⟨e, same⟩, -⟩
      · rw [called] at same
        rw [← Except.ok.inj same]
        exact .inr rfl
      · rw [called] at same
        cases same
  · cases skip

theorem left_data {trace : Fields} {nid : String} {outputs : List Output} {skipped : Bool} (data : node.kind = .data)
    (left : Left host.env nid node outputs skipped trace) : Free trace := by
  rcases left with ⟨called, same, rfl⟩ | ⟨-, rfl⟩
  · unfold Env.callNode at same
    rw [data] at same
    cases skipped with
    | true =>
      cases value : head (outputs.map Output.value) with
      | error e => simp [value, bind, Except.bind] at same
      | ok v =>
        simp only [value, if_true, bind, Except.bind, pure, Except.pure] at same
        rw [← Except.ok.inj same]
        exact .inr rfl
    | false =>
      cases value : Source.FlowData.run node.operation (outputs.map Output.value) with
      | error e => simp [value, bind, Except.bind] at same
      | ok v =>
        simp only [value, Bool.false_eq_true, if_false, bind, Except.bind, pure, Except.pure] at same
        rw [← Except.ok.inj same]
        exact .inl rfl
  · rw [if_pos data]
    exact .inl rfl

theorem left_called {trace : Fields} {nid : String} {outputs : List Output} {called : Result}
    (done : host.env.callNode nid node outputs false = .ok called) (left : Left host.env nid node outputs false trace) :
    trace = called.nodeTrace := by
  rcases left with ⟨other, same, rfl⟩ | ⟨⟨e, same⟩, -⟩
  · rw [Except.ok.inj (done.symm.trans same)]
  · rw [done] at same
    cases same

theorem callCost_returned {routing : Option (Option RouterResult)} {res : RouterResult}
    {answers : Except String (Option Json)} (known : callCost billing (.returned routing res answers) = some total) :
    ∃ cost decided, billing.executedCostUsd res = some cost ∧ routingCost routing = some decided ∧
      total = cost + decided := by
  cases executed : billing.executedCostUsd res with
  | none => simp [callCost, executed] at known
  | some cost =>
    cases routed : routingCost routing with
    | none => simp [callCost, executed, routed] at known
    | some decided =>
      simp only [callCost, executed, routed] at known
      exact ⟨cost, decided, rfl, rfl, (Option.some.inj known).symm⟩

theorem returned_counts {entry : Fields} {routing : Option (Option RouterResult)} {res : RouterResult}
    {cost decided : ℚ} (billed : Billed billing res) (whole : Whole 12 decided)
    (same : nodeCost entry = nodeCost (host.nodeTrace routing res))
    (sameRouting : routing? entry = routing? (host.nodeTrace routing res))
    (executed : billing.executedCostUsd res = some cost) (routed : routingCost routing = some decided) :
    Counts entry (cost + decided) := by
  obtain ⟨traced, wholeCost⟩ := billed_cost billed executed routing
  refine ⟨cost, decided, by rw [same, traced], rfl, wholeCost, whole, ?_⟩
  rw [sameRouting, routing_nodeTrace]
  cases routing with
  | none => exact routed
  | some outcome =>
    rw [← routed]
    exact amount_number host (outcome.bind resultCost)

/-- The entry of a settled visit counts what the visit costs. -/
theorem visit_counts (found : nodes.lookup visit.nid = some node) (inner : Inner node)
    (evaluated : host.env.evaluate visit.nid node (parts visit) = .ok result)
    (settled : Settled billing host nodes visit) (known : visitCost billing host nodes visit = some total) :
    Counts (traceEntry visit.nid node result) total := by
  obtain ⟨skipped, trace, skip, left, cost⟩ := entry_cost evaluated
  have free : Free trace → callOf host nodes visit = none → Counts (traceEntry visit.nid node result) total := by
    intro free noCall
    rw [visitCost, noCall] at known
    obtain rfl := Option.some.inj known
    obtain ⟨same, sameRouting⟩ := cost free.cost.2.2
    exact free.counts same sameRouting
  by_cases data : node.kind = .data
  · exact free (left_data data left) (callOf_data found data)
  have call : callOf host nodes visit = _ := callOf_inner found inner data
  cases skipped with
  | true =>
    rw [skip] at call
    exact free (left_skipped skip left) call
  | false =>
    rcases settled node found inner with kind | skips | ⟨⟨p, prompted⟩, passed⟩ | ⟨routing, res, answers, made, billed, whole⟩
    · exact absurd kind data
    · rw [skip] at skips
      cases skips
    · rw [skip, prompted, passed] at call
      have ran := callNode_prompt visit.nid data prompted
      rw [Host.runNode, passed] at ran
      rw [left_called ran left] at free
      exact free (.inr rfl) call
    · rw [made, skip] at call
      cases prompted : prompt host.env node (parts visit) with
      | error e =>
        rw [prompted] at call
        cases call
      | ok p =>
        have ran := callNode_prompt visit.nid data prompted
        rw [prompted] at call
        unfold Host.runNode at ran
        cases deadline : host.deadline visit.nid with
        | passed =>
          rw [deadline] at call
          cases call
        | duringCall =>
          rw [deadline] at call
          cases call
        | ahead =>
          rw [deadline] at call ran
          have answered : host.call visit.nid node p = .returned routing res answers := (Option.some.inj call).symm
          rw [answered] at ran
          obtain rfl := left_called ran left
          obtain ⟨same, sameRouting⟩ := cost (nodup_nodeTrace host routing res)
          rw [visitCost, made, Option.elim_some] at known
          obtain ⟨cost, decided, executed, routed, rfl⟩ := callCost_returned known
          exact returned_counts billed (whole decided routed) same sameRouting executed routed

end Counts

section Runs

variable {env : Env} {nodes : Nodes}

/-- A visit that leaves a trace entry: the node is no endpoint. -/
def Enters (nodes : Nodes) (visit : Visit) : Bool := (nodes.lookup visit.nid).any fun node => decide (Inner node)

/-- An entry of the trace is that of a visited node. -/
def Entry (env : Env) (nodes : Nodes) (visit : Visit) (entry : Fields) : Prop :=
  ∃ node result, nodes.lookup visit.nid = some node ∧ Inner node ∧
    env.evaluate visit.nid node (parts visit) = .ok result ∧ entry = traceEntry visit.nid node result

/-- The trace has one entry for each node visited that is no endpoint. -/
def Traced (env : Env) (nodes : Nodes) (run : Run) : Prop :=
  List.Forall₂ (Entry env nodes) (run.log.filter (Enters nodes)) run.trace

/-- `run_flow` returned, with an answer or with the node that failed. -/
def returned : Outcome → Bool
  | .raised _ => false
  | _ => true

def Raises : Option Stop → Prop
  | some (.raised _) => True
  | _ => False

theorem Traced.skip {run run' : Run} {visit : Visit} (h : Traced env nodes run) (log : run'.log = run.log ++ [visit])
    (trace : run'.trace = run.trace) (endpoint : Enters nodes visit = false) : Traced env nodes run' := by
  unfold Traced
  rw [log, trace, List.filter_append, List.filter_cons_of_neg (by rw [endpoint]; decide), List.filter_nil, List.append_nil]
  exact h

theorem Traced.enter {run run' : Run} {visit : Visit} {entry : Fields} (h : Traced env nodes run)
    (log : run'.log = run.log ++ [visit]) (trace : run'.trace = run.trace ++ [entry])
    (new : Entry env nodes visit entry) : Traced env nodes run' := by
  have enters : Enters nodes visit = true := by
    obtain ⟨node, result, found, inner, -, -⟩ := new
    simp [Enters, found, inner]
  unfold Traced
  rw [log, trace, List.filter_append, List.filter_cons_of_pos enters, List.filter_nil]
  exact List.rel_append h (.cons new .nil)

theorem visit_traced {run : Run} (h : Traced env nodes run) (nid : String) :
    Raises (env.visit nodes run nid).2 ∨ Traced env nodes (env.visit nodes run nid).1 := by
  cases found : nodes.lookup nid with
  | none =>
    have raised : env.visit nodes run nid = (run, some (.raised (.other "KeyError" ("'" ++ nid ++ "'")))) := by
      simp only [Env.visit, found]
    rw [raised]
    exact .inl trivial
  | some node =>
    by_cases input : node.kind = .input
    · have visited : env.visit nodes run nid = ({ run with log := run.log ++ [⟨nid, []⟩] }, none) := by
        simp only [Env.visit, found, input]
      rw [visited]
      exact .inr (h.skip rfl rfl (by simp [Enters, found, Inner, input]))
    by_cases output : node.kind = .output
    · cases inputs : node.inputs with
      | nil =>
        have raised : env.visit nodes run nid = (run, some (.raised (.other "IndexError" "list index out of range"))) := by
          simp only [Env.visit, found, output, inputs]
        rw [raised]
        exact .inl trivial
      | cons pre rest =>
        have visited : env.visit nodes run nid = ({ run with
            out := insert nid ((run.out.lookup pre).getD .empty) run.out
            log := run.log ++ [⟨nid, [run.out.lookup pre]⟩] }, none) := by
          simp only [Env.visit, found, output, inputs]
        rw [visited]
        exact .inr (h.skip rfl rfl (by simp [Enters, found, Inner, output]))
    · rw [visit_call found input output]
      dsimp only
      split
      · exact .inl trivial
      · rename_i result evaluated
        have entry : Entry env nodes ⟨nid, node.inputs.map fun pre => run.out.lookup pre⟩ (traceEntry nid node result) :=
          ⟨node, result, found, ⟨input, output⟩, evaluated, rfl⟩
        refine .inr ?_
        split
        · exact h.enter rfl rfl entry
        · exact h.enter rfl rfl entry

theorem loop_traced (order : List String) {run : Run} (h : Traced env nodes run) :
    Raises (env.loop nodes run order).2 ∨ Traced env nodes (env.loop nodes run order).1 := by
  induction order generalizing run with
  | nil => exact .inr h
  | cons nid order ih =>
    have step := visit_traced h nid
    unfold Env.loop
    cases visited : env.visit nodes run nid with
    | mk run' stop =>
      rw [visited] at step
      cases stop with
      | none => exact ih (step.resolve_left id)
      | some stop => exact step

theorem runFlow_traced {input : Input} (h : returned (env.runFlow nodes input).1 = true) :
    Traced env nodes (env.runFlow nodes input).2 := by
  unfold Env.runFlow at h ⊢
  split at h
  · cases h
  · cases h
  · rename_i order _ _
    unfold Env.runOrder at h ⊢
    cases given : inputOutput input with
    | error e =>
      rw [given] at h
      cases h
    | ok source =>
      have looped : Raises (env.loop nodes (start nodes source) order).2 ∨
          Traced env nodes (env.loop nodes (start nodes source) order).1 := loop_traced order .nil
      rw [given] at h
      dsimp only at h ⊢
      cases ended : env.loop nodes (start nodes source) order with
      | mk run stop =>
        rw [ended] at h looped
        cases stop with
        | none => exact looped.resolve_left id
        | some stop =>
          cases stop with
          | raised e => cases h
          | failed nid error => exact looped.resolve_left id

end Runs

section Sums

variable {billing : Billing} {host : Host} {nodes : Nodes}

/-- Only nodes that are no endpoints call. -/
theorem callOf_enters {visit : Visit} (h : Enters nodes visit = false) : callOf host nodes visit = none := by
  unfold Enters at h
  unfold callOf
  cases found : nodes.lookup visit.nid with
  | none => rfl
  | some node =>
    rw [found, Option.any_some, decide_eq_false_iff_not] at h
    simp only [Option.bind_eq_bind, Option.bind_some]
    rw [if_pos (.inl h)]

theorem calls_filter (log : List Visit) :
    (log.filter (Enters nodes)).filterMap (callOf host nodes) = log.filterMap (callOf host nodes) := by
  rw [List.filterMap_filter]
  refine List.filterMap_congr fun visit _ => ?_
  cases enters : Enters nodes visit with
  | true => rfl
  | false => exact (callOf_enters enters).symm

theorem totals_of_calls {visits : List Visit} {entries : List Fields}
    (h : List.Forall₂ (Entry host.env nodes) visits entries) (settled : ∀ visit ∈ visits, Settled billing host nodes visit)
    {costs : List ℚ} (known : (visits.filterMap (callOf host nodes)).mapM (callCost billing) = some costs) :
    ∃ totals, List.Forall₂ Counts entries totals ∧ totals.sum = costs.sum := by
  induction h generalizing costs with
  | nil =>
    obtain rfl := Option.some.inj known
    exact ⟨[], .nil, rfl⟩
  | @cons visit entry visits entries head tail ih =>
    obtain ⟨node, result, found, inner, evaluated, rfl⟩ := head
    have here := settled visit List.mem_cons_self
    have others' : ∀ other ∈ visits, Settled billing host nodes other :=
      fun other mem => settled other (List.mem_cons_of_mem _ mem)
    cases call : callOf host nodes visit with
    | none =>
      rw [List.filterMap_cons_none call] at known
      obtain ⟨totals, counts, sum⟩ := ih others' known
      have counts' : Counts _ 0 := visit_counts found inner evaluated here (by rw [visitCost, call]; rfl)
      exact ⟨0 :: totals, .cons counts' counts, by rw [List.sum_cons, zero_add, sum]⟩
    | some call' =>
      rw [List.filterMap_cons_some call, List.mapM_cons] at known
      obtain ⟨cost, billed, known⟩ := Option.bind_eq_some_iff.mp known
      obtain ⟨costs', others, known⟩ := Option.bind_eq_some_iff.mp known
      obtain rfl := Option.some.inj known
      obtain ⟨totals, counts, sum⟩ := ih others' others
      have counts' : Counts _ cost := visit_counts found inner evaluated here (by rw [visitCost, call]; exact billed)
      exact ⟨cost :: totals, .cons counts' counts, by rw [List.sum_cons, List.sum_cons, sum]⟩

/-- The routing costs that a list of entries reports. -/
def routingCosts (entries : List Fields) : List ℚ :=
  (entries.filterMap routing?).filterMap fun r => amount? (r.field "cost_usd")

theorem sums_of_counts {entries : List Fields} {totals : List ℚ} (h : List.Forall₂ Counts entries totals) :
    (entries.filterMap nodeCost).length = entries.length ∧
      (routingCosts entries).length = (entries.filterMap routing?).length ∧
      (entries.filterMap nodeCost).sum + (routingCosts entries).sum = totals.sum ∧ Whole 12 totals.sum := by
  induction h with
  | nil => exact ⟨rfl, rfl, by simp [routingCosts], Whole.zero 12⟩
  | @cons entry total entries totals head tail ih =>
    obtain ⟨cost, routing, traced, rfl, wholeCost, wholeRouting, reported⟩ := head
    obtain ⟨costs, routings, sum, whole⟩ := ih
    rw [List.filterMap_cons_some traced]
    cases routed : routing? entry with
    | none =>
      rw [routed] at reported
      obtain rfl := Option.some.inj reported
      have same : routingCosts (entry :: entries) = routingCosts entries := by
        rw [routingCosts, List.filterMap_cons_none routed, routingCosts]
      rw [same, List.filterMap_cons_none routed]
      refine ⟨by rw [List.length_cons, List.length_cons, costs], routings, ?_, wholeCost.add wholeRouting |>.add whole⟩
      rw [List.sum_cons, List.sum_cons, ← sum]
      ring
    | some r =>
      rw [routed, Option.elim_some] at reported
      have same : routingCosts (entry :: entries) = routing :: routingCosts entries := by
        rw [routingCosts, List.filterMap_cons_some routed,
          List.filterMap_cons_some (f := fun r : Json => amount? (r.field "cost_usd")) reported, routingCosts]
      rw [same, List.filterMap_cons_some routed]
      refine ⟨by rw [List.length_cons, List.length_cons, costs], by rw [List.length_cons, List.length_cons, routings], ?_,
        wholeCost.add wholeRouting |>.add whole⟩
      rw [List.sum_cons, List.sum_cons, List.sum_cons, ← sum]
      ring

theorem flowCost_of_counts {entries : List Fields} {totals : List ℚ} (nonempty : entries ≠ [])
    (h : List.Forall₂ Counts entries totals) : flowCost entries = some totals.sum := by
  obtain ⟨costs, routings, sum, whole⟩ := sums_of_counts h
  have costed : entries.filterMap nodeCost ≠ [] := by
    intro empty
    rw [empty, List.length_nil] at costs
    exact nonempty (List.eq_nil_of_length_eq_zero costs.symm)
  unfold routingCosts at routings sum
  unfold flowCost
  dsimp only
  rw [if_pos ⟨costed, routings, costs⟩, sum, round_whole whole]

end Sums

/-- A flow that returned, and visited a node besides its endpoints, reports the sum of what its calls
and their routing decisions cost, when its visits are settled and that cost is known. -/
theorem flow_costs_its_calls (billing : Billing) (host : Host) {nodes : Nodes} {input : Input}
    (answered : returned (host.env.runFlow nodes input).1 = true)
    (entered : ∃ visit ∈ (host.env.runFlow nodes input).2.log, Enters nodes visit = true)
    (settled : ∀ visit ∈ (host.env.runFlow nodes input).2.log, Settled billing host nodes visit) {total : ℚ}
    (known : callsCost billing (calls host nodes (host.env.runFlow nodes input).2) = some total) :
    flowCost (host.env.runFlow nodes input).2.trace = some total := by
  have traced := runFlow_traced answered
  obtain ⟨costs, listed, rfl⟩ := Option.map_eq_some_iff.mp known
  rw [calls, ← calls_filter] at listed
  obtain ⟨totals, counts, sum⟩ := totals_of_calls traced
    (fun visit mem => settled visit (List.mem_filter.mp mem).1) listed
  rw [← sum]
  refine flowCost_of_counts (fun empty => ?_) counts
  obtain ⟨visit, mem, enters⟩ := entered
  have within : visit ∈ (host.env.runFlow nodes input).2.log.filter (Enters nodes) := List.mem_filter.mpr ⟨mem, enters⟩
  have size := traced.length_eq
  rw [empty, List.length_nil] at size
  rw [List.eq_nil_of_length_eq_zero size] at within
  cases within

/-- One call between the endpoints. -/
def single : Nodes :=
  [("u", ⟨.input, [], false, none, none, "", .unknown⟩), ("a", ⟨.llm, ["u"], false, none, none, "", .unknown⟩),
    ("out", ⟨.output, ["a"], false, none, none, "", .unknown⟩)]

/-- A thousand tokens in and ten out at one and at two dollars a million. -/
def priced (provider : String) : RouterResult where
  ok := true
  chosen := ⟨some provider, .null, some 1, some 2, some (some 1), some (some 2), some 1⟩
  response := ⟨"done", [], some "stop", false, none, some 1000, some 10, some 0⟩
  error := .null
  trace := []

def pricedHost (provider : String) : Host where
  call _ _ _ := .returned none (priced provider) (.ok none)
  deadline _ := .ahead
  loads _ := .error .valueError
  str _ := ""
  repr _ := ""

def codexBilling : Billing := ⟨["codex"], fun _ => 1⟩

theorem priced_billed : Billed codexBilling (priced "openrouter") := by
  refine ⟨rfl, rfl, .inl rfl, ?_⟩
  rw [if_neg (by decide)]
  refine ⟨by decide +kernel, ⟨1020, by decide +kernel⟩, fun absent => ?_, fun absent => ?_⟩
  · cases absent
  · cases absent

theorem flow_costs_its_calls_single :
    flowCost ((pricedHost "openrouter").env.runFlow single ⟨"Q", none⟩).2.trace = some (51 / 50000) := by
  have log : ((pricedHost "openrouter").env.runFlow single ⟨"Q", none⟩).2.log =
      [⟨"u", []⟩, ⟨"a", [some ⟨"Q", [], none⟩]⟩, ⟨"out", [some ⟨"done", [], none⟩]⟩] := by rfl
  refine flow_costs_its_calls codexBilling (pricedHost "openrouter") rfl ⟨⟨"a", [some ⟨"Q", [], none⟩]⟩, ?_, by decide⟩
    (fun visit mem node found inner => ?_) (by decide +kernel)
  · rw [log]
    simp
  · rw [log] at mem
    simp only [List.mem_cons, List.not_mem_nil, or_false] at mem
    rcases mem with rfl | rfl | rfl
    · obtain rfl := Option.some.inj found
      exact absurd rfl inner.1
    · refine .inr (.inr (.inr ⟨none, priced "openrouter", .ok none, rfl, priced_billed, fun cost free => ?_⟩))
      obtain rfl := Option.some.inj free
      exact Whole.zero 12
    · obtain rfl := Option.some.inj found
      exact absurd rfl inner.2

/-- A call that a subscription covers costs nothing, but the flow reports its scarcity price. -/
theorem shadow_price_reported :
    ¬ ∀ (billing : Billing) (host : Host) (nodes : Nodes) (input : Input) (total : ℚ),
      returned (host.env.runFlow nodes input).1 = true →
      callsCost billing (calls host nodes (host.env.runFlow nodes input).2) = some total →
      flowCost (host.env.runFlow nodes input).2.trace = some total := by
  intro all
  have reported := all codexBilling (pricedHost "codex") single ⟨"Q", none⟩ 0 rfl (by decide +kernel)
  have shadow : flowCost ((pricedHost "codex").env.runFlow single ⟨"Q", none⟩).2.trace = some (51 / 50000) := by
    decide +kernel
  rw [shadow] at reported
  exact absurd (Option.some.inj reported) (by decide +kernel)

end Unhardcoded.Guarantees.FlowCost

import Unhardcoded.Effects.Machine
import Unhardcoded.Source.FlowCost

/-!
# The call ledger and the budgets of its callers

`insert_call` and `backfill_call_costs` of host_store.py on the tables `calls` and
`consumer_budget_usage`. Of a row the columns that the usage reads group, sum or compare
are kept. Rows are not pruned, and amounts are exact. `float` and `int` of a text are
parameters; whether another conversion or the database raises is an input of each insert.
-/

namespace Unhardcoded.Source.CallLedger

open Effects Python
open Unhardcoded.Source.FlowData (number?)

/-- A row of `calls`. -/
structure Call where
  id : Nat
  ts : Int
  consumerSha : Option String
  caller : Option String
  providerId : Option String
  modelFamily : Option String
  servedModelId : Option String
  requestedModel : Option String
  status : Option Int
  tokensIn : Option Int
  tokensOut : Option Int
  tokensTotal : Option Int
  tokensCached : Option Int
  costUsd : Option ℚ
  costBasis : Option String
  /-- `routing_summary ? 'automatic'`. -/
  automatic : Bool
  deriving DecidableEq

/-- What `insert_call` is given. -/
structure UsageRow where
  ts : Option Int
  keySha256 : Option String
  caller : Option String
  provider : Option String
  modelFamily : Option String
  servedModelId : Option String
  requestedModel : Option String
  status : Json
  tokensIn : Option Int
  tokensOut : Option Int
  tokensTotal : Option Int
  tokensCached : Option Int
  costUsd : Json
  costBasis : Option String
  /-- `decision_trace` has a dictionary under `automatic`. -/
  automatic : Bool

structure Env where
  /-- `float` of a text, where it does not raise. -/
  floatOf : String → Option ℚ
  /-- `int` of a text for which `isdigit` holds. -/
  digits : String → Option Int

/-- `float(row["cost_usd"]) if row.get("cost_usd") is not None else None`, where it does not raise. -/
def costOf (env : Env) : Json → Option (Option ℚ)
  | .null => some none
  | .str text => (env.floatOf text).map some
  | v => (number? v).map some

/-- `int(row["status"]) if str(row.get("status") or "").isdigit() else None`. -/
def statusOf (env : Env) : Json → Option Int
  | .int n => if 0 < n then some n else none
  | .str text => env.digits text
  | _ => none

structure Store where
  /-- In the order of their ids. -/
  calls : List Call
  /-- `consumer_budget_usage`: consumer and `spent_usd`. -/
  budget : List (String × ℚ)
  nextId : Nat

def Store.empty : Store := ⟨[], [], 1⟩

/-- `spent_usd` of a consumer. -/
def Store.spent (s : Store) (consumer : String) : ℚ := (s.budget.lookup consumer).getD 0

/-- `INSERT .. ON CONFLICT(consumer) DO UPDATE SET spent_usd=consumer_budget_usage.spent_usd+EXCLUDED.spent_usd`. -/
def Store.spend (s : Store) (consumer : String) (cost : ℚ) : Store :=
  { s with budget := insert consumer (s.spent consumer + cost) s.budget }

section InsertCall

def UsageRow.call (env : Env) (row : UsageRow) (id : Nat) (cost : Option ℚ) (now : Int) : Call where
  id := id
  ts := match row.ts with
    | some ts => if ts ≠ 0 then ts else now
    | none => now
  consumerSha := row.keySha256
  caller := row.caller
  providerId := row.provider
  modelFamily := row.modelFamily
  servedModelId := row.servedModelId
  requestedModel := row.requestedModel
  status := statusOf env row.status
  tokensIn := row.tokensIn
  tokensOut := row.tokensOut
  tokensTotal := row.tokensTotal
  tokensCached := row.tokensCached
  costUsd := cost
  costBasis := row.costBasis
  automatic := row.automatic

/-- `caller and isinstance(cost, (int, float)) and float(cost) > 0`. -/
def spending (row : UsageRow) : Option (String × ℚ) := do
  let caller ← row.caller
  let cost ← number? row.costUsd
  if caller ≠ "" ∧ 0 < cost then some (caller, cost) else none

/-- `insert_call`: one transaction. -/
def Store.insertCall (env : Env) (s : Store) (row : UsageRow) (now : Int) (raises : Bool) : Store :=
  match costOf env row.costUsd with
  | some cost =>
    if raises then { s with nextId := s.nextId + 1 }
    else
      let inserted := { s with calls := s.calls ++ [row.call env s.nextId cost now], nextId := s.nextId + 1 }
      match spending row with
      | some (caller, cost) => inserted.spend caller cost
      | none => inserted
  | none => s

end InsertCall

section Backfill

structure Price where
  input : ℚ
  output : ℚ

/-- The price table, by model family and provider. -/
abbrev Prices := List ((String × String) × Price)

/-- A row the backfill looks at. -/
def unpriced (c : Call) : Bool := c.costUsd.isNone && !c.automatic && c.costBasis ≠ some "unknown_total"

/-- `max(0.0, cost)` at the list price, where there is one. -/
def listCost (prices : Prices) (c : Call) : Option ℚ :=
  (prices.lookup (c.modelFamily.getD "", c.providerId.getD "")).map fun price =>
    max 0 (FlowCost.round (((c.tokensIn.getD 0 : Int) : ℚ) / 1000000 * price.input +
      ((c.tokensOut.getD 0 : Int) : ℚ) / 1000000 * price.output) 6)

/-- `SELECT .. WHERE cost_usd IS NULL AND id > last_id .. ORDER BY id LIMIT batch_size`. -/
def batchOf (s : Store) (lastId batchSize : Nat) : List Call :=
  (s.calls.filter fun c => unpriced c && lastId < c.id).take batchSize

/-- `UPDATE calls SET cost_usd = .. WHERE id = .. AND cost_usd IS NULL` for the rows of a batch. -/
def stamp (prices : Prices) (ids : List Nat) (c : Call) : Call :=
  if c.id ∈ ids ∧ c.costUsd = none then
    match listCost prices c with
    | some cost => { c with costUsd := some cost, costBasis := some (c.costBasis.getD "computed") }
    | none => c
  else c

/-- The loop of `backfill_call_costs`, for at most so many batches. -/
def Store.backfillFrom (prices : Prices) (batchSize : Nat) : Nat → Nat → Store → Store
  | 0, _, s => s
  | batches + 1, lastId, s => match (batchOf s lastId batchSize).getLast? with
    | none => s
    | some last => backfillFrom prices batchSize batches last.id
      { s with calls := s.calls.map (stamp prices ((batchOf s lastId batchSize).map Call.id)) }

/-- `backfill_call_costs`: every batch takes at least one row and is a transaction of its own, so an
exception leaves those before it (`stops`) as they are. -/
def Store.backfillCallCosts (prices : Prices) (batchSize : Nat) (stops : Option Nat) (s : Store) : Store :=
  s.backfillFrom prices batchSize (stops.getD (s.calls.length + 1)) 0

end Backfill

inductive LedgerAct where
  | insert (row : UsageRow) (now : Int) (raises : Bool)
  | backfill (prices : Prices) (batchSize : Nat) (stops : Option Nat)

def Store.step (env : Env) (s : Store) : LedgerAct → Option Store
  | .insert row now raises => some (s.insertCall env row now raises)
  | .backfill prices batchSize stops => some (s.backfillCallCosts prices batchSize stops)

/-- Inserts and backfills, one after the other. -/
abbrev runLedger (env : Env) (acts : List LedgerAct) : Option Store := Machine.run (Store.step env) .empty acts

end Unhardcoded.Source.CallLedger

import Unhardcoded.Effects.GroupBy
import Unhardcoded.Source.CallLedger

/-!
# Usage aggregates

`usage_aggregate` of host_store.py, which groups the rows of `calls` in SQL, with
`_agg_from_sql` of auth_proxy.py, and the Python fold `_aggregate_usage_rows` over the
same rows. Amounts are exact: Postgres rounds a numeric half away from zero, Python
half to even. The recent page and `selected` are left out.
-/

namespace Unhardcoded.Source.UsageAggregate

open Effects Effects.GroupBy Python
open Unhardcoded.Source.CallLedger (Call Prices)

/-- `round(x::numeric, digits)`. -/
def numericRound (x : ℚ) (digits : Nat) : ℚ :=
  if 0 ≤ x then (⌊x * 10 ^ digits + 1 / 2⌋ : ℚ) / 10 ^ digits else -((⌊-x * 10 ^ digits + 1 / 2⌋ : ℚ) / 10 ^ digits)

section Keys

/-- `COALESCE(NULLIF(x,''),'unknown')`. -/
def orUnknown : Option String → String
  | some text => if text = "" then "unknown" else text
  | none => "unknown"

def callerKey (c : Call) : String := orUnknown c.caller

def providerKey (c : Call) : String := orUnknown c.providerId

/-- `COALESCE(NULLIF(model_family,''),NULLIF(requested_model,''),'unknown')`. -/
def familyKey (c : Call) : String :=
  match c.modelFamily with
  | some family => if family = "" then orUnknown c.requestedModel else family
  | none => orUnknown c.requestedModel

def routeKey (c : Call) : String := orUnknown c.requestedModel

def servedKey (c : Call) : String := orUnknown c.servedModelId

/-- `COALESCE(status,0)::text`. -/
def statusKey (c : Call) : String := toString (c.status.getD 0)

/-- `to_char(to_timestamp(ts) AT TIME ZONE 'UTC','YYYY-MM-DD')`, with the text of each day. -/
def dayKey (date : Int → String) (ts : Int) : String := date (ts / 86400)

end Keys

section Sql

/-- `_AGG_MEASURES` of some rows. -/
structure Measures where
  requests : Int
  errors : Int
  tokensIn : Int
  tokensOut : Int
  tokensTotal : Int
  tokensCached : Int
  costUsd : ℚ
  priced : Int
  lastSeen : Option Int
  deriving DecidableEq

def isError (c : Call) : Bool := 400 ≤ c.status.getD 0

/-- `CASE WHEN COALESCE(tokens_total,0) <> 0 THEN tokens_total ELSE .. END`. -/
def tokensTotal (c : Call) : Int :=
  if c.tokensTotal.getD 0 ≠ 0 then c.tokensTotal.getD 0 else c.tokensIn.getD 0 + c.tokensOut.getD 0

/-- `GREATEST(cost_usd,0)`: a `NULL` is passed over. -/
def clamped (c : Call) : ℚ := match c.costUsd with
  | some cost => max cost 0
  | none => 0

/-- `max(ts)`. -/
def maximum : List Int → Option Int
  | [] => none
  | t :: ts => some (ts.foldl max t)

def measures (rows : List Call) : Measures where
  requests := rows.length
  errors := (rows.filter isError).length
  tokensIn := (rows.map (·.tokensIn.getD 0)).sum
  tokensOut := (rows.map (·.tokensOut.getD 0)).sum
  tokensTotal := (rows.map tokensTotal).sum
  tokensCached := (rows.map (·.tokensCached.getD 0)).sum
  costUsd := numericRound (rows.map clamped).sum 6
  priced := (rows.filter (·.costUsd.isSome)).length
  lastSeen := maximum (rows.map (·.ts))

structure SqlCounter where
  requests : Int
  errors : Int
  tokensIn : Int
  tokensOut : Int
  tokensTotal : Int
  tokensCached : Int
  costUsd : ℚ
  costPerMtok : Option ℚ
  costPerRequest : Option ℚ
  cacheHitRate : Option ℚ
  priced : Int
  lastSeen : Option Int
  deriving DecidableEq

/-- `round(x / n, digits) if n else None`. -/
def ratio (x : ℚ) (n : Int) (digits : Nat) : Option ℚ := if n ≠ 0 then some (FlowCost.round (x / n) digits) else none

/-- `_agg_counter`. -/
def aggCounter (m : Measures) : SqlCounter where
  requests := m.requests
  errors := m.errors
  tokensIn := m.tokensIn
  tokensOut := m.tokensOut
  tokensTotal := m.tokensTotal
  tokensCached := m.tokensCached
  costUsd := m.costUsd
  costPerMtok := ratio (m.costUsd * 1000000) m.tokensTotal 4
  costPerRequest := ratio m.costUsd m.requests 6
  cacheHitRate := ratio m.tokensCached m.tokensIn 4
  priced := m.priced
  lastSeen := m.lastSeen

structure SqlAggregate where
  totals : SqlCounter
  byCaller : List (String × SqlCounter)
  byProvider : List (String × SqlCounter)
  byModelFamily : List (String × SqlCounter)
  byRoute : List (String × SqlCounter)
  byServedModel : List (String × SqlCounter)
  byStatus : List (String × Int)
  byDay : List (String × SqlCounter)
  deriving DecidableEq

def counterOf (rows : List Call) : SqlCounter := aggCounter (measures rows)

/-- `usage_aggregate` over the rows its `WHERE` takes. -/
def usageAggregate (date : Int → String) (rows : List Call) : SqlAggregate where
  totals := counterOf rows
  byCaller := groupBy callerKey counterOf rows
  byProvider := groupBy providerKey counterOf rows
  byModelFamily := groupBy familyKey counterOf rows
  byRoute := groupBy routeKey counterOf rows
  byServedModel := groupBy servedKey counterOf rows
  byStatus := groupBy statusKey (fun rows => (counterOf rows).requests) rows
  byDay := groupBy (fun c => dayKey date c.ts) counterOf rows

end Sql

section Counter

/-- `_counter()`; `costUsd` is `none` where the key is missing. -/
@[ext] structure Counter where
  requests : Int
  errors : Int
  tokensIn : Int
  tokensOut : Int
  tokensTotal : Int
  tokensCached : Int
  latencyMsTotal : ℚ
  latencyMsMax : ℚ
  lastSeen : Option Int
  costUsd : Option ℚ
  deriving DecidableEq

def Counter.zero : Counter := ⟨0, 0, 0, 0, 0, 0, 0, 0, none, none⟩

structure Snapshot where
  requests : Int
  errors : Int
  tokensIn : Int
  tokensOut : Int
  tokensTotal : Int
  tokensCached : Int
  latencyMsMax : ℚ
  lastSeen : Option Int
  costUsd : Option ℚ
  latencyMsAvg : ℚ
  errorRate : ℚ
  costPerMtok : Option ℚ
  costPerRequest : Option ℚ
  cacheHitRate : Option ℚ
  deriving DecidableEq

/-- `_counter_snapshot`. -/
def Counter.snapshot (d : Counter) : Snapshot where
  requests := d.requests
  errors := d.errors
  tokensIn := d.tokensIn
  tokensOut := d.tokensOut
  tokensTotal := d.tokensTotal
  tokensCached := d.tokensCached
  latencyMsMax := FlowCost.round d.latencyMsMax 1
  lastSeen := d.lastSeen
  costUsd := d.costUsd
  latencyMsAvg := (ratio d.latencyMsTotal d.requests 1).getD 0
  errorRate := (ratio d.errors d.requests 4).getD 0
  costPerMtok := ratio (d.costUsd.getD 0 * 1000000) d.tokensTotal 4
  costPerRequest := ratio (d.costUsd.getD 0) d.requests 6
  cacheHitRate := ratio d.tokensCached d.tokensIn 4

/-- `n or None`. -/
def nonzero (n : Int) : Option Int := if n ≠ 0 then some n else none

@[ext] structure Totals where
  requests : Int
  rejects : Int
  errors : Int
  tokensIn : Int
  tokensOut : Int
  tokensTotal : Int
  tokensCached : Int
  costUsd : ℚ
  deriving DecidableEq

def Totals.zero : Totals := ⟨0, 0, 0, 0, 0, 0, 0, 0⟩

/-- What the dashboard is given of an aggregate. -/
structure Aggregate where
  totals : Totals
  byCaller : List (String × Snapshot)
  byProvider : List (String × Snapshot)
  byModelFamily : List (String × Snapshot)
  byRoute : List (String × Snapshot)
  byServedModel : List (String × Snapshot)
  byStatus : List (String × Int)
  deriving DecidableEq

end Counter

section FromSql

/-- `_counter_from_sql`. -/
def counterFromSql (c : SqlCounter) : Counter where
  requests := c.requests
  errors := c.errors
  tokensIn := c.tokensIn
  tokensOut := c.tokensOut
  tokensTotal := c.tokensTotal
  tokensCached := c.tokensCached
  latencyMsTotal := 0
  latencyMsMax := 0
  lastSeen := c.lastSeen.bind nonzero
  costUsd := if c.priced ≠ 0 then some (FlowCost.round c.costUsd 6) else none

/-- `snap`. -/
def snap (bucket : List (String × SqlCounter)) : List (String × Snapshot) :=
  mapValues (fun c => (counterFromSql c).snapshot) (byKey bucket)

/-- `_agg_from_sql`. -/
def aggFromSql (agg : SqlAggregate) : Aggregate where
  totals :=
    { requests := agg.totals.requests
      rejects := 0
      errors := agg.totals.errors
      tokensIn := agg.totals.tokensIn
      tokensOut := agg.totals.tokensOut
      tokensTotal := agg.totals.tokensTotal
      tokensCached := agg.totals.tokensCached
      costUsd := FlowCost.round agg.totals.costUsd 6 }
  byCaller := snap agg.byCaller
  byProvider := snap agg.byProvider
  byModelFamily := snap agg.byModelFamily
  byRoute := snap agg.byRoute
  byServedModel := snap agg.byServedModel
  byStatus := byKey agg.byStatus

end FromSql

section Fold

/-- `x or y`, for texts. -/
def orElse (x : Option String) (y : String) : String := match x with
  | some text => if text ≠ "" then text else y
  | none => y

/-- `_cost_for_event` of a stored row, which has no `routing_summary` and no `cost_basis`. -/
def costForEvent (prices : Prices) (row : Call) : Option ℚ :=
  match row.costUsd with
  | some stamped => some (max 0 stamped)
  | none => CallLedger.listCost prices row

/-- `int(row.get("tokens_total") or (tokens_in + tokens_out))`. -/
def rowTokens (row : Call) : Int :=
  match row.tokensTotal with
  | some n => if n ≠ 0 then n else row.tokensIn.getD 0 + row.tokensOut.getD 0
  | none => row.tokensIn.getD 0 + row.tokensOut.getD 0

/-- `_add_counter`; a stored row has no `latency_ms`. -/
def addCounter (prices : Prices) (counter : Counter) (row : Call) : Counter where
  requests := counter.requests + 1
  errors := counter.errors + if 400 ≤ row.status.getD 0 then 1 else 0
  tokensIn := counter.tokensIn + row.tokensIn.getD 0
  tokensOut := counter.tokensOut + row.tokensOut.getD 0
  tokensTotal := counter.tokensTotal + rowTokens row
  tokensCached := counter.tokensCached + row.tokensCached.getD 0
  latencyMsTotal := counter.latencyMsTotal + 0
  latencyMsMax := max counter.latencyMsMax 0
  lastSeen := nonzero (max (counter.lastSeen.getD 0) row.ts)
  costUsd := match costForEvent prices row with
    | some cost => some (FlowCost.round (counter.costUsd.getD 0 + cost) 6)
    | none => counter.costUsd

def addTotals (prices : Prices) (totals : Totals) (row : Call) : Totals where
  requests := totals.requests + 1
  rejects := totals.rejects
  errors := totals.errors + if 400 ≤ row.status.getD 0 then 1 else 0
  tokensIn := totals.tokensIn + row.tokensIn.getD 0
  tokensOut := totals.tokensOut + row.tokensOut.getD 0
  tokensTotal := totals.tokensTotal + rowTokens row
  tokensCached := totals.tokensCached + row.tokensCached.getD 0
  costUsd := match costForEvent prices row with
    | some cost => FlowCost.round (totals.costUsd + cost) 6
    | none => totals.costUsd

/-- One of the buckets of the loop, sorted. -/
def bucket (prices : Prices) (key : Call → String) (rows : List Call) : List (String × Snapshot) :=
  mapValues Counter.snapshot (byKey (tally key Counter.zero (addCounter prices) rows))

/-- `_aggregate_usage_rows` of stored rows, which are requests; each accumulator of its loop by itself. -/
def aggregateUsageRows (prices : Prices) (rows : List Call) : Aggregate where
  totals := rows.foldl (addTotals prices) Totals.zero
  byCaller := bucket prices (fun row => orElse row.caller "unknown") rows
  byProvider := bucket prices (fun row => orElse row.providerId "unknown") rows
  byModelFamily := bucket prices (fun row => orElse row.modelFamily (orElse row.requestedModel "unknown")) rows
  byRoute := bucket prices (fun row => orElse row.requestedModel "unknown") rows
  byServedModel := bucket prices (fun row => orElse row.servedModelId "unknown") rows
  byStatus := byKey (tally (fun row => toString (row.status.getD 0)) 0 (fun n _ => n + 1) rows)

end Fold

end Unhardcoded.Source.UsageAggregate

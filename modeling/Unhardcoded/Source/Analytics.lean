import Unhardcoded.Effects.Machine
import Unhardcoded.Source.UsageAggregate

/-!
# Hourly analytics

`rollup_analytics` and `analytics_aggregate` of host_store.py on the tables `calls`,
`analytics_hourly` and `analytics_rollup_state`, and `_usage_where`, which takes the rows
of `usage_aggregate` from `calls`. A roll-up that raises leaves the tables as they were.
Sums are exact. Left out: the statement timeouts, the time of the last run, and the
project scope of `_usage_where`.
-/

namespace Unhardcoded.Source.Analytics

open Effects.GroupBy
open Unhardcoded.Source.CallLedger (Call)
open Unhardcoded.Source.UsageAggregate

section Rollup

/-- The primary key of `analytics_hourly`. -/
structure HourKey where
  bucketStart : Int
  caller : String
  keyPrefix : String
  providerId : String
  modelFamily : String
  requestedModel : String
  servedModelId : String
  status : Int
  deriving DecidableEq

/-- `(ts/3600)*3600` of SQL, where the division truncates. -/
def bucketOf (ts : Int) : Int := ts.tdiv 3600 * 3600

/-- `substr(consumer_sha,1,12)`, `str(consumer_sha)[:12]` -/
def shaPrefix (sha : String) : String := String.ofList (sha.toList.take 12)

def hourKey (c : Call) : HourKey where
  bucketStart := bucketOf c.ts
  caller := callerKey c
  keyPrefix := orUnknown (c.consumerSha.map shaPrefix)
  providerId := providerKey c
  modelFamily := familyKey c
  requestedModel := routeKey c
  servedModelId := servedKey c
  status := c.status.getD 0

/-- The other columns of the rows of one key; their cost is not rounded. -/
def hourMeasures (rows : List Call) : Measures := { measures rows with costUsd := (rows.map clamped).sum }

structure Store where
  calls : List Call
  /-- `analytics_hourly`. -/
  hourly : List (HourKey × Measures)
  /-- `covered_from` and `covered_until`. -/
  covered : Option (Int × Int)
  deriving DecidableEq

def Store.empty : Store := ⟨[], [], none⟩

/-- `(int(start_ts) // 3600) * 3600` -/
def floorHour (ts : Int) : Int := ts / 3600 * 3600

/-- `((int(end_ts) + 3599) // 3600) * 3600` -/
def ceilHour (ts : Int) : Int := (ts + 3599) / 3600 * 3600

/-- The hours of a roll-up. -/
structure Window where
  startTs : Int
  endTs : Int
  deriving DecidableEq

def Window.start (w : Window) : Int := floorHour w.startTs

def Window.stop (w : Window) : Int := ceilHour w.endTs

/-- `x >= start AND x < end` -/
def Window.has (w : Window) (x : Int) : Bool := w.start ≤ x ∧ x < w.stop

/-- `LEAST` and `GREATEST` with the window, or the window itself. -/
def cover (w : Window) : Option (Int × Int) → Int × Int
  | some (coveredFrom, coveredUntil) => (min coveredFrom w.start, max coveredUntil w.stop)
  | none => (w.start, w.stop)

/-- `rollup_analytics`. -/
def Store.rollupAnalytics (s : Store) (w : Window) : Option Store :=
  if w.stop ≤ w.start then none
  else
    let kept := s.hourly.filter fun row => !w.has row.1.bucketStart
    let hourly := kept ++ groupBy hourKey hourMeasures (s.calls.filter fun c => w.has c.ts)
    -- the primary key
    if (hourly.map (·.1)).Nodup then some { s with hourly := hourly, covered := some (cover w s.covered) }
    else none

end Rollup

section Reads

/-- The arguments of the two reads. -/
structure Filters where
  caller : Option String
  consumerSha : Option String
  provider : Option String
  modelFamily : Option String

/-- `_usage_where`, given `int(time.time())` and the retention in days. -/
def usageWhere (now retentionDays : Int) (sinceTs untilTs : Option Int) (callerIsNull : Bool) (filters : Filters)
    (c : Call) : Bool :=
  let floor := now - retentionDays * 86400
  let floor := match sinceTs with
    | some since => max since floor
    | none => floor
  decide (floor ≤ c.ts)
    && (match untilTs with | some bound => decide (c.ts < bound) | none => true)
    && (match filters.caller with | some caller => decide (c.caller = some caller) | none => !callerIsNull || c.caller.isNone)
    && (match filters.consumerSha with | some sha => decide (c.consumerSha = some sha) | none => true)
    && (match filters.provider with | some provider => decide (c.providerId = some provider) | none => true)
    && (match filters.modelFamily with | some family => decide (c.modelFamily = some family) | none => true)

/-- `f"{column} = %s"`, `if value`. -/
def matching (value : Option String) (column : String) : Bool :=
  match value with
  | some value => value = "" || column = value
  | none => true

/-- The `WHERE` of `analytics_aggregate`. -/
def analyticsWhere (sinceTs : Int) (filters : Filters) (key : HourKey) : Bool :=
  decide (floorHour sinceTs ≤ key.bucketStart)
    && matching filters.caller key.caller
    && matching filters.provider key.providerId
    && matching filters.modelFamily key.modelFamily
    && (match filters.consumerSha with | some sha => sha = "" || key.keyPrefix = shaPrefix sha | none => true)

/-- The measures of some rows of `analytics_hourly`. -/
def combined (rows : List Measures) : Measures where
  requests := (rows.map (·.requests)).sum
  errors := (rows.map (·.errors)).sum
  tokensIn := (rows.map (·.tokensIn)).sum
  tokensOut := (rows.map (·.tokensOut)).sum
  tokensTotal := (rows.map (·.tokensTotal)).sum
  tokensCached := (rows.map (·.tokensCached)).sum
  costUsd := numericRound (rows.map (·.costUsd)).sum 6
  priced := (rows.map (·.priced)).sum
  lastSeen := maximum (rows.filterMap (·.lastSeen))

def combinedOf (rows : List (HourKey × Measures)) : SqlCounter := aggCounter (combined (rows.map (·.2)))

/-- `analytics_aggregate`, with the text of each day; the state it returns is `covered`. -/
def Store.analyticsAggregate (s : Store) (date : Int → String) (sinceTs : Int) (filters : Filters) : SqlAggregate :=
  let rows := s.hourly.filter fun row => analyticsWhere sinceTs filters row.1
  { totals := combinedOf rows
    byCaller := groupBy (fun row => row.1.caller) combinedOf rows
    byProvider := groupBy (fun row => row.1.providerId) combinedOf rows
    byModelFamily := groupBy (fun row => row.1.modelFamily) combinedOf rows
    byRoute := groupBy (fun row => row.1.requestedModel) combinedOf rows
    byServedModel := groupBy (fun row => row.1.servedModelId) combinedOf rows
    byStatus := (groupBy (fun row => row.1.status) (fun rows => (combinedOf rows).requests) rows).map
      fun entry => (toString entry.1, entry.2)
    byDay := groupBy (fun row => dayKey date row.1.bucketStart) combinedOf rows }

end Reads

section Runs

inductive Action where
  | insertCall (c : Call)
  | rollup (w : Window)

def step (s : Store) : Action → Option Store
  | .insertCall c => some { s with calls := s.calls ++ [c] }
  | .rollup w => s.rollupAnalytics w

end Runs

end Unhardcoded.Source.Analytics

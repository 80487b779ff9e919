import Unhardcoded.Source.UsageAggregate

/-!
# The counters of a running proxy

`_record_request`, `_record_reject` and `_record_probe` of auth_proxy.py, which update `_stats`
under its lock, and what `_stats_snapshot` shows of it to a consumer for the timeframe
`runtime`. Of an event the fields that are read here have names, the others are passed on.
A row of `recent` has no digest. Health summaries, the upstream and the keys are left out.
-/

namespace Unhardcoded.Source.RuntimeCounters

open Effects.GroupBy Python
open UsageAggregate (Counter Snapshot orElse)

structure Request where
  caller : Option String
  provider : Option String
  modelFamily : Option String
  requestedModel : Option String
  route : Option String
  servedModelId : Option String
  status : Int
  latencyMs : ℚ
  tokensIn : Int
  tokensOut : Int
  tokensTotal : Int
  costUsd : Option ℚ
  details : List (String × Json)

structure Event where
  request : Request
  /-- `str(event.get("key_sha256") or "").strip().lower()`. -/
  keySha256 : String
  ts : Int
  /-- The event's own id, or a new one. -/
  usageEventId : String

inductive Kind where
  | request
  | reject
  | probe
  deriving DecidableEq, Repr

structure Row where
  kind : Kind
  ts : Int
  caller : Option String
  keySha256Prefix : Option String
  usageEventId : Option String
  /-- The fields of a request; a reject and a probe have only others. -/
  request : Option Request
  details : List (String × Json)

/-! ## Keys -/

/-- `re.fullmatch(r"[a-f0-9]{64}", key_sha256)`. -/
def isDigest (text : String) : Bool := text.length = 64 && text.toList.all fun c => c.isDigit || ('a' ≤ c && c ≤ 'f')

/-- The digest under which the event is counted and stored. -/
def Event.digest (e : Event) : Option String := if isDigest e.keySha256 then some e.keySha256 else none

/-- `key_sha256[:12]`. -/
def shaPrefix (digest : String) : String := String.ofList (digest.toList.take 12)

/-- The groups of `by_provider` and its siblings, `by_caller_provider`, `by_key_provider` and theirs. -/
inductive Detail where
  | provider
  | modelFamily
  | route
  | servedModel
  deriving DecidableEq, Repr

def callerKey (e : Event) : String := orElse e.request.caller "unknown"

def routeKey (e : Event) : String := orElse e.request.requestedModel (orElse e.request.route "unknown")

def Detail.key : Detail → Event → String
  | .provider, e => orElse e.request.provider "unknown"
  | .modelFamily, e => orElse e.request.modelFamily (routeKey e)
  | .route, e => routeKey e
  | .servedModel, e => orElse e.request.servedModelId "unknown"

def statusKey (e : Event) : String := toString e.request.status

/-! ## Counters -/

abbrev Table : Type := List (String × Counter)

/-- The counter of an event without its cost, as in the groups of a key. -/
def count (c : Counter) (e : Event) : Counter where
  requests := c.requests + 1
  errors := c.errors + if 400 ≤ e.request.status then 1 else 0
  tokensIn := c.tokensIn + e.request.tokensIn
  tokensOut := c.tokensOut + e.request.tokensOut
  tokensTotal := c.tokensTotal + e.request.tokensTotal
  tokensCached := c.tokensCached
  latencyMsTotal := c.latencyMsTotal + e.request.latencyMs
  latencyMsMax := max c.latencyMsMax e.request.latencyMs
  lastSeen := some e.ts
  costUsd := c.costUsd

def countCost (c : Counter) (e : Event) : Counter :=
  { count c e with
    costUsd := match e.request.costUsd with
      | some cost => some (FlowCost.round (c.costUsd.getD 0 + max 0 cost) 6)
      | none => c.costUsd }

/-- `d[key]` of a `defaultdict`, updated. -/
def update {γ : Type} (init : γ) (add : γ → Event → γ) (key : String) (e : Event) (d : List (String × γ)) : List (String × γ) :=
  insert key (add ((d.lookup key).getD init) e) d

def inTable (add : Counter → Event → Counter) (key : Event → String) (table : Table) (e : Event) : Table :=
  update Counter.zero add (key e) e table

def inStatuses (statuses : List (String × Int)) (e : Event) : List (String × Int) :=
  update 0 (fun n _ => n + 1) (statusKey e) e statuses

structure Stats where
  totalRequests : Int
  totalRejects : Int
  totalErrors : Int
  totalTokensIn : Int
  totalTokensOut : Int
  totalTokens : Int
  byStatus : List (String × Int)
  byCaller : Table
  byDetail : Detail → Table
  byCallerDetail : Detail → List (String × Table)
  byCallerStatus : List (String × List (String × Int))
  byKeySha256 : Table
  byKeyDetail : Detail → List (String × Table)
  byKeyStatus : List (String × List (String × Int))
  keyOwner : List (String × String)
  recent : List Row
  /-- The rows given to the ledger's writer. -/
  appended : List Event

def newStats : Stats :=
  ⟨0, 0, 0, 0, 0, 0, [], [], fun _ => [], fun _ => [], [], [], fun _ => [], [], [], [], []⟩

def visible (e : Event) : Row :=
  ⟨.request, e.ts, e.request.caller, e.digest.map shaPrefix, some e.usageEventId, some e.request, e.request.details⟩

/-- `recent.appendleft(row)` of a bounded deque. -/
def appendLeft (limit : Nat) (row : Row) (recent : List Row) : List Row := (row :: recent).take limit

/-- The counters of the event's key. -/
def recordKey (s : Stats) (e : Event) : Stats :=
  match e.digest with
  | none => s
  | some digest =>
    { s with
      keyOwner := insert digest (callerKey e) s.keyOwner
      byKeySha256 := update Counter.zero countCost digest e s.byKeySha256
      byKeyDetail := fun d => update [] (inTable count d.key) digest e (s.byKeyDetail d)
      byKeyStatus := update [] inStatuses digest e s.byKeyStatus
      appended := s.appended ++ [e] }

/-- `_record_request`. -/
def recordRequest (limit : Nat) (s : Stats) (e : Event) : Stats :=
  let s := recordKey s e
  { s with
    totalRequests := s.totalRequests + 1
    totalErrors := s.totalErrors + if 400 ≤ e.request.status then 1 else 0
    totalTokensIn := s.totalTokensIn + e.request.tokensIn
    totalTokensOut := s.totalTokensOut + e.request.tokensOut
    totalTokens := s.totalTokens + e.request.tokensTotal
    byStatus := inStatuses s.byStatus e
    byCaller := inTable countCost callerKey s.byCaller e
    byDetail := fun d => inTable countCost d.key (s.byDetail d) e
    byCallerDetail := fun d => update [] (inTable countCost d.key) (callerKey e) e (s.byCallerDetail d)
    byCallerStatus := update [] inStatuses (callerKey e) e s.byCallerStatus
    recent := appendLeft limit (visible e) s.recent }

inductive Act where
  | request (e : Event)
  | reject (row : Row)
  | probe (row : Row)

def record (limit : Nat) (s : Stats) : Act → Stats
  | .request e => recordRequest limit s e
  | .reject row => { s with totalRejects := s.totalRejects + 1, recent := appendLeft limit row s.recent }
  | .probe row => { s with recent := appendLeft limit row s.recent }

/-- A process from its start. -/
def runtime (limit : Nat) (acts : List Act) : Stats := acts.foldl (record limit) newStats

/-! ## The view of a consumer -/

structure View where
  requests : Int
  rejects : Int
  errors : Int
  tokensIn : Int
  tokensOut : Int
  tokensTotal : Int
  byCaller : List (String × Snapshot)
  byDetail : Detail → List (String × Snapshot)
  byStatus : List (String × Int)
  recent : List Row

/-- `{k: _counter_snapshot(v) for k, v in sorted(table.items())}`. -/
def snapshots (table : Table) : List (String × Snapshot) := mapValues Counter.snapshot (byKey table)

/-- `_stats_snapshot` of `runtime`, for a selected consumer and one of its keys. -/
def statsSnapshot (s : Stats) (selected : String) (keyFilter : Option String) : View :=
  let counter := match keyFilter with
    | some digest => ((s.byKeySha256.lookup digest).getD Counter.zero).snapshot
    | none => ((s.byCaller.lookup selected).getD Counter.zero).snapshot
  { requests := counter.requests
    rejects := 0
    errors := counter.errors
    tokensIn := counter.tokensIn
    tokensOut := counter.tokensOut
    tokensTotal := counter.tokensTotal
    byCaller := [(selected, counter)]
    byDetail := fun d => snapshots (match keyFilter with
      | some digest => ((s.byKeyDetail d).lookup digest).getD []
      | none => ((s.byCallerDetail d).lookup selected).getD [])
    byStatus := byKey (match keyFilter with
      | some digest => (s.byKeyStatus.lookup digest).getD []
      | none => (s.byCallerStatus.lookup selected).getD [])
    recent := s.recent.filter fun row => row.caller = some selected &&
      keyFilter.all fun digest => row.keySha256Prefix = some (shaPrefix digest) }

end Unhardcoded.Source.RuntimeCounters

import Unhardcoded.Effects.GroupBy

/-!
# Route and peer health in the AntSeed marketplace

Source: `_fold_health_rows` of host_store.py and `route_key` of route_reliability.py;
`_cooldown_until`, `_route_health_tier` and `_reachability_tier` of sources/antseed.py.
Timestamps are epoch milliseconds. A NULL formats as `None`.
-/

namespace Unhardcoded.Source.PeerHealth

open Effects.GroupBy

section Fold

/-- A row of `route_observations` as the reader selects it. -/
structure Observation where
  family : Option String
  servedBy : Option String
  ts : Nat
  ok : Bool
  errorKind : Option String
  httpStatus : Option Int
  deriving DecidableEq, Repr

structure HealthState where
  consecutiveFailures : Nat
  lastFailureAt : Option Nat
  lastSuccessAt : Option Nat
  latestErrorKind : Option String
  latestHttpStatus : Option Int
  sampleCount : Nat
  deriving DecidableEq, Repr

/-- An entry while the rows are folded: with its `_ended`. -/
structure Folding extends HealthState where
  ended : Bool
  deriving DecidableEq, Repr

def Folding.new : Folding := ⟨⟨0, none, none, none, none, 0⟩, false⟩

def routeHealthNeutralErrors : List String :=
  ["bad_request", "content_filter", "context_overflow", "payment_required"]

def peerHealthFailureErrors : List String :=
  ["rate_limit", "timeout", "server_error", "network_error", "auth_error", "bad_response", "unknown"]

/-- `str(error_kind) if error_kind else None`. -/
def Observation.kind (o : Observation) : Option String := o.errorKind.filter (· ≠ "")

/-- Whether a failure counts against the route, or against the peer. -/
def attributable (peer : Bool) (o : Observation) : Bool :=
  if peer then o.kind.any (· ∈ peerHealthFailureErrors) else !o.kind.any (· ∈ routeHealthNeutralErrors)

/-- One row of the loop, on the entry of its key. -/
def observe (peer : Bool) (state : Folding) (o : Observation) : Folding :=
  let state := { state with sampleCount := state.sampleCount + 1 }
  if state.ended then state
  else if o.ok then { state with lastSuccessAt := some o.ts, ended := true }
  else if !attributable peer o then state
  else
    let state := { state with consecutiveFailures := state.consecutiveFailures + 1 }
    if state.lastFailureAt = none then
      { state with lastFailureAt := some o.ts, latestErrorKind := o.kind, latestHttpStatus := o.httpStatus }
    else state

/-- A NULL in an f-string. -/
def text (column : Option String) : String := column.getD "None"

def routeKey (providerId family peerId : String) : String := providerId ++ "|" ++ family ++ "|" ++ peerId

/-- A key of the two tables: the text of a route, or a peer's id. -/
inductive HealthKey where
  | route (text : String)
  | peer (id : Option String)
  deriving DecidableEq, Repr

/-- `key`. -/
def healthKey (providerId : String) (peer : Bool) (o : Observation) : HealthKey :=
  if peer then .peer o.servedBy else .route (routeKey providerId (text o.family) (text o.servedBy))

/-- Whether an entry stays: a failure or a success is evidence. -/
def HealthState.evidence (state : HealthState) : Bool :=
  state.consecutiveFailures ≠ 0 || state.lastSuccessAt.isSome

/-- `_fold_health_rows`. -/
def foldHealthRows (rows : List Observation) (providerId : String) (peer : Bool) :
    List (HealthKey × HealthState) :=
  (mapValues Folding.toHealthState (tally (healthKey providerId peer) Folding.new (observe peer) rows)).filter
    fun entry => entry.2.evidence

end Fold

section Cooldown

def routeCooldownBaseMs : Nat := 15 * 60 * 1000
def routeCooldownMaxMs : Nat := 60 * 60 * 1000
def modelUnavailableCooldownBaseMs : Nat := 30 * 60 * 1000
def modelUnavailableCooldownMaxMs : Nat := 6 * 60 * 60 * 1000
def peerCooldownBaseMs : Nat := 5 * 60 * 1000
def peerRateLimitCooldownBaseMs : Nat := 60 * 1000
def peerCooldownMaxMs : Nat := 60 * 60 * 1000
/-- `STALE_AFTER_S * 1000`. -/
def reachabilityFreshMs : Nat := 900 * 1000

/-- `base` and `maximum` of `_cooldown_until`. -/
def cooldownBounds (kind : Option String) (peer : Bool) : Nat × Nat :=
  if peer then
    (if kind = some "rate_limit" then peerRateLimitCooldownBaseMs else peerCooldownBaseMs, peerCooldownMaxMs)
  else if kind = some "model_unavailable" then
    (modelUnavailableCooldownBaseMs, modelUnavailableCooldownMaxMs)
  else (routeCooldownBaseMs, routeCooldownMaxMs)

/-- `_cooldown_until`. -/
def cooldownUntil (state : Option HealthState) (peer : Bool) : Nat :=
  match state with
  | none => 0
  | some state =>
    match state.lastFailureAt with
    | none => 0
    | some failedAt =>
      if state.consecutiveFailures = 0 then 0
      else
        let (base, maximum) := cooldownBounds state.latestErrorKind peer
        failedAt + min maximum (base * 2 ^ min (state.consecutiveFailures - 1) 10)

/-- The gate of `offers_sync`: the route or its peer is cooling. -/
def coolingDown (now : Nat) (route peer : Option HealthState) : Bool :=
  decide (now < cooldownUntil route false) || decide (now < cooldownUntil peer true)

/-- `_route_health_tier`: 0 proven healthy, 1 unexplored, 2 half-open. -/
def routeHealthTier : Option HealthState → Nat
  | none => 1
  | some state =>
    if 0 < state.consecutiveFailures then 2 else if state.lastSuccessAt.isSome then 0 else 1

/-- `_reachability_tier`: 0 recently connected, 1 never tried or invalid, 2 known stale;
`none` is no number. -/
def reachabilityTier (lastReachedAt : Option Int) (now : Nat) : Nat :=
  match lastReachedAt with
  | none => 1
  | some at_ =>
    let age := (now : Int) - at_
    if age < -120000 then 1 else if age ≤ reachabilityFreshMs then 0 else 2

end Cooldown

end Unhardcoded.Source.PeerHealth

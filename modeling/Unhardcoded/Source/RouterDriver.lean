import Unhardcoded.Python.JsonText
import Unhardcoded.Source.TenantHost

/-!
# The driver of the routing engine

Source: `execute_async`, `_pin_route`, `_resolve_call_async` and `_fold_route_outcome` of
llm_router_host.py, `bounded_diagnostics` of provider_adapters/diagnostics.py and
`is_byo_buyer` of byo_http.py. The engine is Lua: what its `execute_step` returns is the
environment's, turn by turn, as is the answer of whichever hook resolves a call (mock,
override or configured) and the clock. Catalog rows, requests and answers are dictionaries,
and the error kind of an answer is a text, where it has one. `float` is the built-in on the
text of a number. The delays of a `wait` are left out, and so are the authentication state
and the contract that goes into the engine.
-/

namespace Unhardcoded.Source.RouterDriver

open Python

abbrev Fields : Type := List (String × Json)

/-- `d.get(key)`. -/
def value (d : Fields) (key : String) : Json := (d.lookup key).getD .null

/-! ## Diagnostics -/

def textFields : List String :=
  ["mode", "phase", "timeout_source", "upstream_id", "upstream_provider", "provider_id", "model_family", "error_kind",
    "requested_reasoning_effort"]

def numberFields : List String :=
  ["http_status", "elapsed_ms", "request_sent_ms", "response_headers_ms", "body_complete_ms", "connect_ms", "tls_ms",
    "first_output_ms", "first_reasoning_ms", "tokens_reasoning", "requested_timeout_ms", "requested_max_tokens", "attempt"]

/-- A text cut to 160 characters. -/
def boundedText : Json → Option Json
  | .str text => some (.str (String.ofList (text.toList.take 160)))
  | _ => none

/-- A number of the range that is kept. -/
def boundedNumber (v : Json) : Option Json :=
  match v with
  | .int n => if 0 ≤ n ∧ n ≤ 10 ^ 15 then some v else none
  | .float q _ => if 0 ≤ q ∧ q ≤ 10 ^ 15 then some v else none
  | _ => none

def boundedFlag : Json → Option Json
  | .bool b => some (.bool b)
  | _ => none

/-- The kept fields of one kind. -/
def pick (keep : Json → Option Json) (keys : List String) (d : Fields) : Fields :=
  keys.filterMap fun key => (keep (value d key)).map fun v => (key, v)

/-- `bounded_diagnostics`. -/
def boundedDiagnostics : Json → Fields
  | .obj d =>
    pick boundedText textFields d ++ pick boundedNumber numberFields d ++ pick boundedFlag ["requested_reasoning_enabled"] d
  | _ => []

/-! ## One provider call -/

/-- The host a run belongs to; `tenant` is `_tenant_managed` of a tenant's host. -/
structure Host where
  catalog : Fields
  env : TenantHost.Env
  tenant : Option (Finset String)

/-- The rows of a tenant's catalog, as the engine's configuration has them. -/
def rowOf (p : TenantHost.Provider) : Json :=
  let text : Option String → Json := fun v => (v.map Json.str).getD .null
  .obj [("base_url", .str p.baseUrl), ("api_kind", text p.apiKind), ("auth_env", text p.authEnv),
    ("auth", (p.auth.map fun auth => .obj [("kind", text auth.kind), ("env", text auth.env)]).getD .null),
    ("discovery", text p.discovery), ("discovery_id", text p.discoveryId), ("aws_region", text p.awsRegion)]

/-- The driver of the host that `for_tenant` builds. -/
def tenantHost (child : TenantHost.Child) : Host :=
  ⟨child.catalog.map fun entry => (entry.1, rowOf entry.2), child.env, some child.managed⟩

/-- What the catalog decides of a request, beside its endpoint. -/
def pinnedKeys : List String := ["auth_env", "auth", "api_kind", "aws_region"]

/-- The catalog row of a request, where there is one. -/
def Host.row (host : Host) (request : Fields) : Option Json :=
  match value request "provider_id" with
  | .str pid => if pid = "" then none else host.catalog.lookup pid
  | _ => none

/-- `base_url` of a pinned request. -/
def endpoint (provider : Json) (request : Fields) : Json :=
  let seller := if (provider.field "discovery").isText "marketplace" then (value request "offer").field "seller_endpoint" else .null
  seller.orElse (provider.field "base_url")

/-- `_pin_route`. -/
def Host.pinRoute (host : Host) (request : Fields) : Fields :=
  match host.row request with
  | none => request
  | some provider =>
    let pinned := pinnedKeys.foldl (fun d key => insert key (provider.field key) d) request
    insert "base_url" (endpoint provider pinned) pinned

/-- The payload of a decision, which crossed the engine as text. -/
def decodeDecision (float : String → Json) (request : Fields) : Except Raised Fields :=
  if (value request "protocol").isText "decisions" then
    match value request "decision" with
    | .str text => match loads float text with
      | some decision => .ok (insert "decision" decision request)
      | none => .error .valueError
    | _ => .error .typeError
  else .ok request

/-- The contract's deadline for the first token, where the request has none. -/
def withDeadline (contract request : Fields) : Fields :=
  let deadline := value contract "first_token_timeout_ms"
  if deadline ≠ .null ∧ value request "first_token_timeout_ms" = .null then insert "first_token_timeout_ms" deadline request
  else request

/-- The request as it goes to the hook. -/
def Host.prepared (float : String → Json) (host : Host) (contract request : Fields) : Except Raised Fields :=
  (decodeDecision float (host.pinRoute request)).map (withDeadline contract)

/-- A row of `route_observations`. -/
structure Observation where
  ts : Int
  providerId : Json
  modelFamily : Json
  servedBy : Json
  ok : Bool
  latencyMs : Json
  errorKind : Json
  httpStatus : Json
  toolsRequested : Bool
  toolCallsEmitted : Bool

/-- `request.get(key) or offer.get(key)`. -/
def orOffer (request : Fields) (offer : Json) (key : String) : Except Raised Json :=
  if (value request key).truthy then .ok (value request key) else offer.get key

/-- `_fold_route_outcome`: the row it writes, if it writes one. -/
def foldRouteOutcome (ts : Int) (request result : Fields) : Except Raised (Option Observation) := do
  let offer := (value request "offer").orDict
  let family ← orOffer request offer "model_family"
  let pid := value request "provider_id"
  if family.truthy && pid.truthy then
    let peer ← orOffer request offer "peer_id"
    let response := (value result "response").orDict
    let ok := (value result "ok").truthy
    let calls ← response.get "tool_calls"
    Except.ok (some
      { ts := ts
        providerId := pid
        modelFamily := family
        servedBy := peer.orElse pid
        ok := ok
        latencyMs := value result "latency_ms"
        errorKind := if ok then .null else value result "error_kind"
        httpStatus := if ok then .null else value result "http_status"
        toolsRequested := (value request "tools").truthy
        toolCallsEmitted := calls.truthy })
  else Except.ok none

/-- `is_byo_buyer`. -/
def Host.byoBuyer (host : Host) (request : Fields) : Bool :=
  (TenantHost.nonempty (host.env.lookup "SAAS_TENANT_SCOPE")).isSome &&
    (TenantHost.nonempty (host.env.lookup "ANTSEED_BYO_TOKEN")).isSome && (value request "provider_id").isText "antseed"

/-- The errors of a credential, which say nothing about a route. -/
def credentialErrors : List String := ["auth_error", "rate_limit", "payment_required"]

/-- `provider_id in managed`. -/
def manages (managed : Finset String) : Json → Bool
  | .str pid => pid ∈ managed
  | _ => false

/-- Whether an outcome may become evidence that all tenants share. -/
def Host.evidence (host : Host) (request result : Fields) : Bool :=
  match host.tenant with
  | none => true
  | some managed =>
    manages managed (value request "provider_id") && !host.byoBuyer request &&
      !credentialErrors.any (value result "error_kind").isText

/-- What `_resolve_call_async` records of an outcome. -/
def Host.recorded (host : Host) (ts : Int) (request result : Fields) : Except Raised (Option Observation) :=
  if host.evidence request result then foldRouteOutcome ts request result else Except.ok none

/-! ## The loop -/

/-- What `execute_step` returns. -/
inductive Reply where
  | done (result : Fields)
  | call (request : Fields)
  | wait
  | bad (status : String)
  | raised (e : Raised)

/-- One turn: the engine's reply and, for a call, how the hook ends and the clock after it. -/
structure Turn where
  reply : Reply
  answer : Except Raised Fields
  nowMs : Int

/-- `_MAX_PROVIDER_ATTEMPTS`. -/
def maxProviderAttempts : Nat := 32

/-- The variables of a run, with the requests that went to a hook, the calls it answered
and the observations written, in order. -/
structure State where
  attempt : Nat
  diagnostics : List Fields
  sent : List Fields
  answered : List (Fields × Fields)
  observed : List Observation

def State.start : State := ⟨0, [], [], [], []⟩

inductive Outcome where
  | running
  | returned (result : Fields)
  | raised (e : Raised)

/-- `diagnostic`, with the route it belongs to. -/
def diagnosed (attempt : Nat) (request result : Fields) : Option Fields :=
  let own := boundedDiagnostics (value result "diagnostics")
  if own = [] then none
  else
    let route := boundedDiagnostics (.obj
      [("attempt", .int attempt), ("provider_id", value request "provider_id"),
        ("model_family", value request "model_family"), ("error_kind", value result "error_kind")])
    some (route.foldl (fun d entry => insert entry.1 entry.2 d) own)

def addDiagnostic (diagnostics : List Fields) : Option Fields → List Fields
  | some d => if diagnostics.length < 32 then diagnostics ++ [d] else diagnostics
  | none => diagnostics

/-- The diagnostics as a value. -/
def diagnosticsJson (diagnostics : List Fields) : Json := .arr (diagnostics.map .obj)

/-- `result.setdefault("trace", {})["provider_diagnostics"] = …`. -/
def withDiagnostics (diagnostics : List Fields) (result : Fields) : Except Raised Fields :=
  if diagnostics = [] then Except.ok result
  else match result.lookup "trace" with
    | none => Except.ok (insert "trace" (.obj [("provider_diagnostics", diagnosticsJson diagnostics)]) result)
    | some (.obj trace) =>
      Except.ok (insert "trace" (.obj (insert "provider_diagnostics" (diagnosticsJson diagnostics) trace)) result)
    | some _ => Except.error .typeError

def attemptCap (diagnostics : List Fields) : Fields :=
  [("ok", .bool false), ("error", .str "exhausted: attempt_cap"),
    ("trace", .obj [("provider_diagnostics", diagnosticsJson diagnostics)])]

def badStatus (status : String) : Fields :=
  [("ok", .bool false), ("error", .str ("internal: bad step status " ++ status)), ("trace", .obj [])]

section Loop

variable (float : String → Json) (host : Host) (contract : Fields)

/-- One provider call, from the engine's request to the answer it goes on with. -/
def callTurn (s : State) (request : Fields) (answer : Except Raised Fields) (nowMs : Int) : State × Option Raised :=
  match host.prepared float contract request with
  | .error e => (s, some e)
  | .ok request =>
    let s := { s with sent := s.sent ++ [request] }
    match answer with
    | .error e => (s, some e)
    | .ok result =>
      let s := { s with answered := s.answered ++ [(request, result)] }
      match host.recorded nowMs request result with
      | .error e => (s, some e)
      | .ok observation =>
        ({ s with
            observed := s.observed ++ observation.toList
            diagnostics := addDiagnostic s.diagnostics (diagnosed s.attempt request result) }, none)

/-- `execute_async` over the turns that happen. -/
def execute : State → List Turn → State × Outcome
  | s, [] => (s, .running)
  | s, turn :: rest =>
    match turn.reply with
    | .raised e => (s, .raised e)
    | .done result => match withDiagnostics s.diagnostics result with
      | .ok result => (s, .returned result)
      | .error e => (s, .raised e)
    | .bad status => (s, .returned (badStatus status))
    | .wait => execute s rest
    | .call request =>
      let s := { s with attempt := s.attempt + 1 }
      if maxProviderAttempts < s.attempt then (s, .returned (attemptCap s.diagnostics))
      else match callTurn float host contract s request turn.answer turn.nowMs with
        | (s, some e) => (s, .raised e)
        | (s, none) => execute s rest

end Loop

end Unhardcoded.Source.RouterDriver

import Unhardcoded.Python.JsonCompact
import Unhardcoded.Source.RouteContract

/-!
# A request from the ingress to the engine

Who a request is for and which policy it runs: in auth_proxy.py `_requested_route_from`,
`_route_allowed` and the part of `proxy` that resolves a tenant's route and builds the headers and
the body for the router; in saas_routes.py the checks of `tenant_context`; in shim.py what a chat or
Responses request takes from its body. The key is accepted before (`_caller_auth_async`), and the
limits between these steps only refuse. A server gives header names in lower case. `str` of a JSON
value that is no text is a parameter, and an error of httpx about a header is not modelled.
-/

namespace Unhardcoded.Source.TenantIngress

open Python RouteContract

/-! ## The ingress -/

structure Tenant where
  id : Nat
  scope : Option Scope
  id_pos : 0 < id

/-- What `_caller_auth_async` gives for a key that it accepts. -/
structure Auth where
  caller : String
  digest : String
  allowedRoutes : List String
  tenant : Option Tenant

structure Request where
  method : String
  /-- The segments of `_proxy_path`. -/
  path : List String
  headers : List (String × String)
  /-- `json.loads(body)`. -/
  found : Option Json
  /-- `json.loads(body.decode("utf-8"))`. -/
  decoded : Option Json

def chatPath : List String := ["v1", "chat", "completions"]

def responsesPath : List String := ["v1", "responses"]

def decisionPaths : List (List String) := [["v1", "decisions"], ["v1", "systemone"]]

/-- `payload.get("model") or payload.get("name")`. -/
def rawModel (payload : Json) : Json := (payload.field "model").orElse (payload.field "name")

section Ingress

variable (str : Json → String)

/-- `str(v)`. -/
def textOf : Json → String
  | .str text => text
  | v => str v

/-- `_requested_route_from`. -/
def requestedRoute (path : List String) (decoded : Option Json) : Option String :=
  let named := (decoded.filter Json.isObj).map rawModel |>.filter Json.truthy |>.map (textOf str)
  let profiled := match path with
    | profile :: rest => if rest = chatPath && profile ≠ "v1" then named.or (some ("profile:" ++ profile)) else named
    | [] => named
  let defaulted := if path = chatPath ∨ path = responsesPath then profiled.or (some "profile:default") else profiled
  let decisions := if path ∈ decisionPaths then defaulted.or (some "policy:decisions") else defaulted
  decisions.map strip

/-- `_route_matches`. -/
def routeMatches (pattern route : String) : Bool :=
  let pattern := strip pattern
  pattern = "*" || pattern = "all" || pattern = route ||
    (pattern.toList.getLast? = some '*' && pattern.toList.dropLast.isPrefixOf route.toList)

/-- `_route_allowed`. -/
def routeAllowed (allowed : List String) (route : Option String) : Bool :=
  allowed.isEmpty || match route with
    | some route => route ≠ "" && allowed.any (routeMatches · route)
    | none => false

/-- `re.fullmatch(r"route:[a-z0-9][a-z0-9-]{0,79}", text)`. -/
def isRouteName (text : String) : Bool :=
  let slugChar (c : Char) : Bool := c.isDigit || ('a' ≤ c && c ≤ 'z')
  match text.toList with
  | 'r' :: 'o' :: 'u' :: 't' :: 'e' :: ':' :: first :: rest =>
    slugChar first && rest.length ≤ 79 && rest.all fun c => slugChar c || c = '-'
  | _ => false

/-- What the control plane is asked for. -/
structure Ask where
  tenant : Tenant
  name : String
  /-- Sent for a scoped key. -/
  digest : String

/-- `resolve_route`; no reply is an error of the connection, another status or no JSON. -/
def resolve (reply : Ask → Option Json) (ask : Ask) : Option Published :=
  if ask.tenant.scope.isSome && ask.digest.length ≠ 64 then none
  else (reply ask).bind (resolveRoute ask.tenant.id ask.tenant.scope)

structure Refusal where
  status : Nat
  code : String

/-- `raw_model in (None, "", "auto")`. -/
def useKeyDefault : Json → Bool
  | .null => true
  | .str text => text = "" || text = "auto"
  | _ => false

/-- A tenant's request with its route resolved and its contract applied. -/
structure Resolved where
  route : String
  published : Published
  selected : Selected
  payload : List (String × Json)

/-- The route that a key's default names. -/
def defaultRoute (published : Published) : Option String := match (Json.obj published.fields).field "route" with
  | .str name => if isRouteName name then some name else none
  | _ => none

def contracted (route : String) (published : Published) (payload : List (String × Json)) : Except Refusal Resolved :=
  match applyContract payload (.obj published.fields) with
  | .ok (payload, selected) => .ok ⟨route, published, selected, payload⟩
  | .error (.preferenceNotAllowed _) => .error ⟨400, "preference_not_allowed"⟩
  | .error (.raised _) => .error ⟨500, ""⟩

/-- The branch of `proxy` for a key with a tenant. -/
def tenantRoute (reply : Ask → Option Json) (auth : Auth) (tenant : Tenant) (r : Request) : Except Refusal Resolved :=
  match r.found with
  | some (.obj payload) =>
    let requested := (requestedRoute str r.path r.decoded).getD ""
    let keyDefault := useKeyDefault (rawModel (.obj payload))
    if r.method ≠ "POST" ∨ (r.path ≠ chatPath ∧ r.path ≠ responsesPath) ∨ (!keyDefault && !isRouteName requested) then
      .error ⟨400, "route_required"⟩
    else if keyDefault then
      match resolve reply ⟨tenant, "__key_default__", auth.digest⟩ with
      | some published => match defaultRoute published with
        | some route => contracted route published (insert "model" (.str route) payload)
        | none => .error ⟨503, "route_unavailable"⟩
      | none => .error ⟨503, "route_unavailable"⟩
    else
      match resolve reply ⟨tenant, String.ofList (requested.toList.drop 6), auth.digest⟩ with
      | some published => contracted requested published payload
      | none => .error ⟨503, "route_unavailable"⟩
  | _ => .error ⟨400, ""⟩

/-- The client's headers that are not passed on. -/
def droppedHeaders : List String :=
  ["authorization", "host", "connection", "content-length", "x-llm-router-tenant", "x-internal-secret",
   "x-unhardcoded-scope-version", "x-unhardcoded-project", "x-unhardcoded-environment",
   "x-unhardcoded-route", "x-unhardcoded-revision", "x-unhardcoded-policy-id", "x-unhardcoded-preference"]

/-- `{k: v for k, v in request.headers.items() if ..}`. -/
def keptHeaders (headers : List (String × String)) : List (String × String) :=
  (headers.filter fun h => !droppedHeaders.contains (lower h.1)).foldl (fun d h => insert h.1 h.2 d) []

/-- The headers of a tenant. -/
def tenantHeaders (secret : String) (tenant : Tenant) (resolved : Resolved) : List (String × String) :=
  [("x-llm-router-tenant", toString tenant.id), ("x-internal-secret", secret)] ++
  (match tenant.scope with
    | some scope => [("x-unhardcoded-scope-version", "2"), ("x-unhardcoded-project", toString scope.project),
        ("x-unhardcoded-environment", toString scope.environment)]
    | none => []) ++
  [("x-unhardcoded-route", resolved.route),
   ("x-unhardcoded-revision", textOf str ((Json.obj resolved.published.fields).field "revision")),
   ("x-unhardcoded-policy-id", textOf str resolved.selected.policyId),
   ("x-unhardcoded-preference", resolved.selected.routingPreference)]

inductive Wire where
  /-- The client's body. -/
  | client
  | text (text : String)

structure Forwarded where
  path : List String
  headers : List (String × String)
  body : Wire

/-- What `proxy` sends to the router, with the limits left out. -/
def forward (reply : Ask → Option Json) (secret : String) (auth : Auth) (r : Request) : Except Refusal Forwarded :=
  let base := insert "x-llm-router-caller" auth.caller (keptHeaders r.headers)
  match auth.tenant with
  | some tenant => match tenantRoute str reply auth tenant r with
    | .error e => .error e
    | .ok resolved =>
      if routeAllowed auth.allowedRoutes (some resolved.route) then
        .ok ⟨r.path, (tenantHeaders str secret tenant resolved).foldl (fun d h => insert h.1 h.2 d) base,
          .text (Json.obj resolved.payload).compact⟩
      else .error ⟨403, "caller_route_not_allowed"⟩
  | none =>
    if routeAllowed auth.allowedRoutes (requestedRoute str r.path r.decoded) then .ok ⟨r.path, base, .client⟩
    else .error ⟨403, "caller_route_not_allowed"⟩

end Ingress

/-! ## The router -/

/-- What `tenant_context` makes of a request. -/
inductive Entry where
  | refused (status : Nat)
  /-- No tenant: the operator's host. -/
  | operator
  | tenant (id : Int) (scope : Option (Nat × Nat))
  deriving DecidableEq

/-- Digits with single underscores in between. -/
def isDecimal (cs : List Char) : Bool := (cs.splitOn '_').all fun part => !part.isEmpty && part.all Char.isDigit

/-- `int(text)`, for a text of Latin-1 characters. -/
def intOf? (text : String) : Option Int :=
  let value (cs : List Char) : Int := Nat.ofDigitChars 10 (cs.filter Char.isDigit) 0
  match (strip text).toList with
  | '-' :: cs => if isDecimal cs then some (-value cs) else none
  | '+' :: cs => if isDecimal cs then some (value cs) else none
  | cs => if isDecimal cs then some (value cs) else none

/-- A header that holds a number above zero in ASCII digits. -/
def positive? (header : Option String) : Option Nat := header.bind fun text =>
  if text.toList ≠ [] ∧ text.toList.all Char.isDigit = true ∧ 0 < Nat.ofDigitChars 10 text.toList 0 then
    some (Nat.ofDigitChars 10 text.toList 0)
  else none

/-- `internal_secret_ok`. -/
def internalSecretOk (secret : String) (headers : List (String × String)) : Bool :=
  secret ≠ "" && (headers.lookup "x-internal-secret").getD "" = secret

def tenantEndpoints : List (List String) :=
  [chatPath, responsesPath, ["x", "saas", "catalog"], ["x", "saas", "preview"], ["x", "saas", "test"], ["x", "saas", "connections"]]

/-- The checks of `tenant_context`. -/
def tenantContext (controlPlaneUrl secret : String) (path : List String) (headers : List (String × String)) : Entry :=
  let version := headers.lookup "x-unhardcoded-scope-version"
  let project := headers.lookup "x-unhardcoded-project"
  let environment := headers.lookup "x-unhardcoded-environment"
  let inScope := version.isSome || project.isSome || environment.isSome
  match headers.lookup "x-llm-router-tenant" with
  | none => if inScope then .refused 403 else .operator
  | some raw =>
    if controlPlaneUrl = "" ∨ !internalSecretOk secret headers then .refused 403
    else match (intOf? raw).filter (0 < ·) with
      | none => .refused 400
      | some id =>
        if inScope then
          match version, positive? project, positive? environment with
          | some "2", some project, some environment =>
            if path ∈ tenantEndpoints then .tenant id (some (project, environment)) else .refused 404
          | _, _, _ => .refused 400
        else if path ∈ tenantEndpoints then .tenant id none else .refused 404

/-- What decides the routing of a chat or Responses request: its own policy or flow, the deadlines,
and the automatic contract that the middleware keeps. -/
structure Routing where
  policyIr : Json
  flowIr : Json
  timeoutMs : Json
  firstTokenTimeoutMs : Json
  automatic : Json

/-- A Responses request has no flow. -/
def routing (path : List String) (body : Json) : Routing where
  policyIr := body.field "policy_ir"
  flowIr := if path = responsesPath then .null else body.field "flow_ir"
  timeoutMs := body.field "timeout_ms"
  firstTokenTimeoutMs := body.field "first_token_timeout_ms"
  automatic := body.field "_auto_contract"

end Unhardcoded.Source.TenantIngress

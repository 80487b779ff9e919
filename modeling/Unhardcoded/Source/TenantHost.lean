import Mathlib.Data.Finset.Basic
import Mathlib.Data.Finset.Lattice.Lemmas
import Mathlib.Data.Finset.Dedup
import Unhardcoded.Python.Json

/-!
# The host of a tenant

`LLMRouterHost.for_tenant` and `_provider_auth_configured` of `llm_router_host.py`,
`configure` of `tenant_providers.py`, `shared_provider_ids` of `provider_connections.py`,
and `env_get` of `control_plane_client.py`. A process environment is a dictionary; the
operator's host has a copy of it, and the catalog its configuration file gives under it.
`Net` holds `urlsplit` and `ipaddress.ip_address(..).is_global` of the standard library.
-/

namespace Unhardcoded.Source.TenantHost

open Unhardcoded.Python

abbrev Env := List (String × String)

structure Auth where
  kind : Option String
  env : Option String
  deriving DecidableEq, Repr

/-- The fields of a catalog entry read here. -/
structure Provider where
  /-- `str(provider.get("base_url") or "")`. -/
  baseUrl : String
  apiKind : Option String
  authEnv : Option String
  auth : Option Auth
  discovery : Option String
  discoveryId : Option String
  awsRegion : Option String
  deriving DecidableEq, Repr

abbrev Catalog := List (String × Provider)

/-- `v or None` of a string. -/
def nonempty (value : Option String) : Option String := value.filter (· ≠ "")

/-- `auth_env`. -/
def Provider.secret (p : Provider) : Option String :=
  (nonempty p.authEnv).or (nonempty (p.auth.bind (·.env)))

structure Net where
  /-- The scheme and host name of a URL; `none` for a `ValueError`. -/
  urlsplit : String → Option (String × Option String)
  /-- `is_global` of an address literal; `none` for a `ValueError`. -/
  isGlobal : String → Option Bool

/-- `text.rstrip(".")`. -/
def rstripDots (text : String) : String :=
  String.ofList (text.toList.reverse.dropWhile (· = '.')).reverse

/-- `text.endswith(suffix)`. -/
def endsWith (text suffix : String) : Bool := suffix.toList.reverse.isPrefixOf text.toList.reverse

/-- `_operator_local`: the endpoint is on the operator's own network. -/
def Net.operatorLocal (net : Net) (baseUrl : String) : Bool :=
  match net.urlsplit baseUrl with
  | none => true
  | some (scheme, hostname) =>
    let host := lower (rstripDots (hostname.getD ""))
    if !(scheme = "http" || scheme = "https") || host = "" then false
    else match net.isGlobal host with
      | some isGlobal => !isGlobal
      | none => !contains "." host || [".localhost", ".local", ".internal", ".svc"].any (endsWith host) ||
          contains ".svc." host

section Connections

structure Aws where
  accessKeyId : String
  secretAccessKey : String
  region : String
  sessionToken : String

structure Buyer where
  gatewayUrl : String
  token : String

structure Connections where
  bedrock : Option Aws
  antseed : Option Buyer

/-- `text.rstrip("/")`. -/
def rstripSlashes (text : String) : String :=
  String.ofList (text.toList.reverse.dropWhile (· = '/')).reverse

/-- `d.update(..)` of an environment. -/
def update (env : Env) (entries : Env) : Env := entries.foldl (fun d entry => insert entry.1 entry.2 d) env

/-- The connection to the tenant's own account that `configure` finds complete. -/
def Connections.account (connections : Connections) : Option Aws :=
  connections.bedrock.filter fun aws => aws.accessKeyId ≠ "" && aws.secretAccessKey ≠ "" && aws.region ≠ ""

def Connections.gateway (connections : Connections) : Option Buyer :=
  connections.antseed.filter fun buyer => buyer.gatewayUrl ≠ "" && buyer.token ≠ ""

/-- What `configure` returns, with the catalog and the environment it leaves. -/
structure Configured where
  catalog : Catalog
  env : Env
  byo : Finset String

/-- The entries of the tenant's AWS account discover its own profiles. -/
def configureAws (aws : Aws) (catalog : Catalog) (env : Env) : Configured where
  catalog := catalog.map fun entry =>
    if entry.2.apiKind = some "bedrock" then
      (entry.1, { entry.2 with
        discovery := some "marketplace", discoveryId := some entry.1, awsRegion := some aws.region })
    else entry
  env := update env [("AWS_ACCESS_KEY_ID", aws.accessKeyId), ("AWS_SECRET_ACCESS_KEY", aws.secretAccessKey),
    ("AWS_SESSION_TOKEN", aws.sessionToken), ("BEDROCK_REGION", aws.region)]
  byo := ((catalog.filter fun entry => entry.2.apiKind = some "bedrock").map (·.1)).toFinset

/-- The `antseed` entry goes to the tenant's gateway. -/
def configureBuyer (buyer : Buyer) (configured : Configured) : Configured :=
  if configured.catalog.any fun entry => entry.1 = "antseed" then
    { catalog := configured.catalog.map fun entry =>
        if entry.1 = "antseed" then
          (entry.1, { entry.2 with
            baseUrl := rstripSlashes buyer.gatewayUrl ++ "/v1"
            auth := some ⟨some "bearer", some "ANTSEED_BYO_TOKEN"⟩ })
        else entry
      env := update configured.env [("ANTSEED_BYO_URL", buyer.gatewayUrl), ("ANTSEED_BYO_TOKEN", buyer.token)]
      byo := Insert.insert "antseed" configured.byo }
  else configured

def configure (catalog : Catalog) (env : Env) (connections : Connections) : Configured :=
  let configured := match connections.account with
    | some aws => configureAws aws catalog env
    | none => ⟨catalog, env, ∅⟩
  match connections.gateway with
  | some buyer => configureBuyer buyer configured
  | none => configured

end Connections

section ForTenant

/-- The operator's host: its view of the environment, and the loaded catalog. -/
structure Host where
  env : Env
  catalog : Catalog

/-- A host built by an operator process from a configuration file. -/
def Host.create (load : Env → Catalog) (process : Env) : Host := ⟨process, load process⟩

/-- `shared_provider_ids`, from the process environment. -/
def sharedProviderIds (process : Env) (catalog : Catalog) : Finset String :=
  let names := ((process.lookup "SAAS_SHARED_PROVIDERS").getD "").toList.splitOn ','
  let exposed := (names.map fun name => strip (String.ofList name)).filter (· ≠ "")
  (exposed.filter fun pid => pid ∈ catalog.map (·.1)).toFinset

structure Tenant where
  tenantId : Int
  projectId : Option Int
  environmentId : Option Int

/-- `str(v)` of an integer or `None`. -/
def strOf : Option Int → String
  | some n => toString n
  | none => "None"

/-- `SAAS_TENANT_SCOPE`. -/
def Tenant.scope (tenant : Tenant) : String :=
  match tenant.environmentId with
  | some environmentId =>
    toString tenant.tenantId ++ ":" ++ strOf tenant.projectId ++ ":" ++ toString environmentId
  | none => toString tenant.tenantId

structure Scoped where
  env : Env
  allowed : Finset String
  managed : Finset String

/-- One turn of the loop over the providers of the catalog. -/
def grant (net : Net) (host : Host) (env : Env) (scope : Scoped) (entry : String × Provider) : Scoped :=
  match entry.2.secret with
  | none => scope
  | some key =>
    if (nonempty (env.lookup key)).isSome && !net.operatorLocal entry.2.baseUrl then
      { scope with
        allowed := Insert.insert entry.1 scope.allowed
        managed := scope.managed.erase entry.1 }
    else match decide (entry.1 ∈ scope.managed), nonempty (host.env.lookup key) with
      | true, some value => { scope with env := insert key value scope.env }
      | _, _ => scope

/-- The host `for_tenant` builds. -/
structure Child where
  env : Env
  catalog : Catalog
  allowed : Finset String
  managed : Finset String

def forTenant (net : Net) (host : Host) (process : Env) (tenant : Tenant) (env : Env) (managed : List String)
    (connections : Connections) : Child :=
  let managed := managed.toFinset ∩ sharedProviderIds process host.catalog
  let scopedEnv := insert "SAAS_TENANT_SCOPE" tenant.scope env
  let granted := host.catalog.foldl (grant net host env) ⟨scopedEnv, managed, managed⟩
  let configured := configure host.catalog granted.env connections
  { env := configured.env
    catalog := configured.catalog
    allowed := granted.allowed ∪ configured.byo
    managed := granted.managed \ configured.byo }

end ForTenant

section Credentials

/-- `_secret_configured`. -/
def secretConfigured : Option String → Bool
  | none => false
  | some value => (strip value).toUpper ∉ ["", "CHANGE_ME", "TODO", "TODO_CHANGE_ME", "PLACEHOLDER"]

/-- `_provider_auth_configured` of a tenant's host. -/
def Child.authConfigured (child : Child) (pid : String) (p : Provider) : Bool :=
  let kind := p.auth.bind (·.kind)
  if pid ∉ child.allowed then false
  else if pid = "ollama" ∧ child.env.lookup "OLLAMA_CLOUD" ≠ some "1" then true
  else match kind, p.secret with
    | none, some env => secretConfigured (child.env.lookup env)
    | none, none => true
    | some "bearer", some env => secretConfigured (child.env.lookup env)
    | some "bearer", none => false
    | some "none", _ => true
    | some "oauth", some env => secretConfigured (child.env.lookup env)
    | some "oauth", none => true
    | some _, _ => false

/-- The providers that pass the credential check. -/
def Child.configured (child : Child) : Finset String :=
  ((child.catalog.filter fun entry => child.authConfigured entry.1 entry.2).map (·.1)).toFinset

/-- `env_get`, in a context where `_TENANT_ENV` has a value, or not. -/
def envGet (context : Option Env) (process : Env) (name : String) : Option String :=
  match context with
  | some override => override.lookup name
  | none => process.lookup name

end Credentials

end Unhardcoded.Source.TenantHost

import Unhardcoded.Python.Dict
import Unhardcoded.Source.EnvSecrets

/-!
# Providers added at run time

Source: `validate_entry` and `apply_to_host` of provider_overlay.py, `_merge_provider_overlay`
and `dashboard_add_provider` of auth_proxy.py, `add_provider` of shim.py, the start of
serve.py, and `get_provider_overlays` and `set_provider_overlays` of host_store.py. One
dashboard and one router share the store; between its reads and its write the dashboard does
not await. A configuration is a Lua table on the router and its Python copy on the dashboard,
in which an empty table is an empty dictionary. `added_at`, the env file and the Lua state
that survives a re-init are left out; families and model ids are texts. Of a URL the parts
that are checked are kept; `repr` is `str.__repr__`.
-/

namespace Unhardcoded.Source.ProviderOverlay

open Python

structure ServedModel where
  family : String
  providerModelId : Option String
  deriving DecidableEq, Repr

structure Entry where
  baseUrl : String
  apiKind : String
  tier : String
  authEnv : String
  servedModels : List ServedModel
  deriving DecidableEq, Repr

abbrev Overlay : Type := List (String × Entry)

/-- An entry of `served_by`. -/
abbrev Row : Type := List (String × Json)

structure Model where
  servedBy : Option (List Row)

structure Config where
  providers : List (String × Json)
  models : List (String × Model)

/-! ## Merging -/

/-- The provider table of an entry. -/
def table (entry : Entry) : Json :=
  .obj [("base_url", .str entry.baseUrl), ("api_kind", .str entry.apiKind), ("tier", .str entry.tier),
    ("auth_env", .str entry.authEnv), ("discovery", .str "static")]

/-- `row["provider"] == pid`. -/
def serves (pid : String) (row : Row) : Bool := ((row.lookup "provider").map fun v => v.isText pid).getD false

def servedRow (pid : String) (sm : ServedModel) : Row :=
  ("provider", .str pid) :: match sm.providerModelId with
    | some id => if id = "" then [] else [("provider_model_id", .str id)]
    | none => []

/-- One served model in the loop of `apply_to_host`. -/
def serve (pid : String) (models : List (String × Model)) (sm : ServedModel) : List (String × Model) :=
  match models.lookup sm.family with
  | none => models
  | some model =>
    let rows := model.servedBy.getD []
    if rows.any (serves pid) then models else insert sm.family ⟨some (rows ++ [servedRow pid sm])⟩ models

/-- One provider in the loop of `apply_to_host`. -/
def applyEntry (cfg : Config) (added : String × Entry) : Config :=
  if (cfg.providers.lookup added.1).isSome then cfg
  else
    { providers := insert added.1 (table added.2) cfg.providers
      models := added.2.servedModels.foldl (serve added.1) cfg.models }

/-- `apply_to_host`. -/
def applyToHost (cfg : Config) (overlay : Overlay) : Config := overlay.foldl applyEntry cfg

/-- One served model in the loop of `_merge_provider_overlay`: a dictionary has no `append`. -/
def mergeServe (pid : String) (models : List (String × Model)) (sm : ServedModel) : Except Raised (List (String × Model)) :=
  match models.lookup sm.family with
  | none => .ok models
  | some model => match model.servedBy with
    | some [] => .error .attributeError
    | served =>
      let rows := served.getD []
      if rows.any (serves pid) then .ok models else .ok (insert sm.family ⟨some (rows ++ [servedRow pid sm])⟩ models)

def mergeEntry (cfg : Config) (added : String × Entry) : Except Raised Config :=
  if (cfg.providers.lookup added.1).isSome then .ok cfg
  else (added.2.servedModels.foldlM (mergeServe added.1) cfg.models).map fun models =>
    { providers := insert added.1 (table added.2) cfg.providers, models := models }

/-- `_merge_provider_overlay`. -/
def mergeProviderOverlay (cfg : Config) (overlay : Overlay) : Except Raised Config := overlay.foldlM mergeEntry cfg

/-! ## Validation -/

structure Url where
  scheme : String
  userinfo : Bool
  hostname : Option String

/-- `urlsplit` and `ipaddress.ip_address(..).is_global`, `none` for a `ValueError`, and `repr`. -/
structure Library where
  urlsplit : String → Option Url
  isGlobal : String → Option Bool
  repr : String → String

/-- `text.endswith(suffix)`. -/
def endsWith (text suffix : String) : Bool := suffix.toList.reverse.isPrefixOf text.toList.reverse

/-- `_private_host`. -/
def Library.privateHost (lib : Library) (hostname : String) : Bool :=
  let host := lower (String.ofList (hostname.toList.reverse.dropWhile (· = '.')).reverse)
  match lib.isGlobal host with
  | some isGlobal => !isGlobal
  | none => host = "" || host = "localhost" || !contains "." host ||
      [".localhost", ".local", ".internal", ".svc"].any (endsWith host) || contains ".svc." host

def idStart (c : Char) : Bool := ('a' ≤ c && c ≤ 'z') || c.isDigit

/-- `_ID_RE.match`: `$` also matches before a newline at the end. -/
def validId (pid : String) : Bool :=
  let plain := if pid.toList.getLast? = some '\n' then pid.toList.dropLast else pid.toList
  match plain with
  | [] => false
  | c :: cs => idStart c && 1 ≤ cs.length && cs.length ≤ 39 && cs.all fun c => idStart c || c = '_' || c = '-'

/-- `provider_env in (p.get("auth_env"), p.get("auth", {}).get("env"))` of a provider table. -/
def usesEnv (authEnv : String) (provider : Json) : Bool :=
  provider.isObj && ((provider.field "auth_env").isText authEnv || ((provider.field "auth").field "env").isText authEnv)

section Validate

variable (lib : Library)

def urlErrors (baseUrl : String) : List String :=
  match lib.urlsplit baseUrl with
  | none => ["base_url must be https"]
  | some url =>
    if url.scheme ≠ "https" ∨ url.userinfo then ["base_url must be https"]
    else if lib.privateHost (url.hostname.getD "") then ["base_url must be a public host"] else []

/-- `validate_entry`. -/
def validateEntry (pid : String) (entry : Entry) (catalog : Config) (keySupplied : Bool) : List String :=
  (if validId pid then [] else ["id must be lowercase [a-z0-9_-], 2-40 chars"]) ++
    (if (catalog.providers.lookup pid).isSome then ["provider " ++ lib.repr pid ++ " already exists"] else []) ++
    urlErrors lib entry.baseUrl ++
    (if entry.apiKind = "openai_compatible" then [] else ["only api_kind=openai_compatible can be added at runtime"]) ++
    (if !EnvSecrets.authEnvRe entry.authEnv.toList || EnvSecrets.isForbiddenAuthEnv entry.authEnv then
        ["auth_env must be an UPPER_SNAKE_CASE *_API_KEY/*_TOKEN provider credential name, not an infrastructure variable"]
      else if !keySupplied && catalog.providers.any fun p => usesEnv entry.authEnv p.2 then
        ["auth_env " ++ lib.repr entry.authEnv ++ " belongs to an existing provider; supply a key"]
      else []) ++
    if entry.servedModels = [] then ["served_models must be a non-empty list"]
    else entry.servedModels.filterMap fun sm =>
      if (catalog.models.lookup sm.family).isSome then none else some ("unknown model family " ++ lib.repr sm.family)

end Validate

/-! ## The dashboard, the store and the router -/

/-- The body of a request to `/x/providers`. -/
structure Post where
  pid : String
  entry : Entry
  key : String
  deriving DecidableEq, Repr

/-- The rows of `provider_overlays`, in an order that is the database's, the posts that have not
arrived, and the router's table. -/
structure State where
  stored : Overlay
  flying : List Post
  live : Config

/-- How the write of an `add` ends. -/
inductive Saved where
  | failed
  /-- It is committed, but the dashboard does not learn so, or ends there. -/
  | unanswered
  | answered
  deriving DecidableEq, Repr

def Saved.commits : Saved → Bool
  | .failed => false
  | .unanswered | .answered => true

/-- An `add` has what its two reads return, `none` for a failed one, and how its write ends; a
`start` of the router has what its read returns. -/
inductive Event where
  | add (post : Post) (first second : Option Overlay) (saved : Saved)
  | arrive (post : Post)
  | start (read : Option Overlay)

/-- A read that does not fail returns the rows in some order. -/
def Reads (stored : Overlay) : Option Overlay → Prop
  | some rows => rows.Perm stored
  | none => True

section Run

variable (lib : Library) (base : Config)

/-- What the dashboard checks before it writes anything. -/
def accepted (post : Post) (first : Option Overlay) : Bool :=
  match mergeProviderOverlay base (first.getD []) with
  | .error _ => false
  | .ok catalog =>
    validateEntry lib post.pid post.entry catalog (post.key ≠ "") = [] && post.key ≠ "" &&
      (EnvSecrets.providerEnvError lib.repr post.entry.authEnv post.key).isNone

/-- `add_provider` of the router. -/
def addLive (live : Config) (post : Post) : Config :=
  if validateEntry lib post.pid post.entry live (post.key ≠ "") = [] then applyEntry live (post.pid, post.entry) else live

def step (s : State) : Event → State
  | .add post first second saved =>
    if accepted lib base post first && saved.commits then
      { s with
        stored := insert post.pid post.entry (second.getD [])
        flying := if saved = .answered then s.flying ++ [post] else s.flying }
    else s
  | .arrive post => { s with flying := s.flying.erase post, live := addLive lib s.live post }
  | .start read => { s with live := applyToHost base (read.getD []) }

/-- What an event finds: the rows that are stored, a post that was sent. -/
def Event.Sees (s : State) : Event → Prop
  | .add _ first second _ => Reads s.stored first ∧ Reads s.stored second
  | .arrive post => post ∈ s.flying
  | .start read => Reads s.stored read

/-- A run from a store without overlays and a router started on the configuration file. Adds
interleave with the posts of other adds, and a post may never arrive. -/
inductive Runs : List Event → State → Prop
  | nil : Runs [] ⟨[], [], base⟩
  | snoc {events : List Event} {s : State} (ran : Runs events s) (event : Event) (sees : event.Sees s) :
      Runs (events ++ [event]) (step lib base s event)

end Run

end Unhardcoded.Source.ProviderOverlay

import Unhardcoded.Python.Dict
import Unhardcoded.Source.TenantHost

/-!
# A tenant sees nothing of the operator's environment

Two operator hosts build the same host for a tenant without managed providers, when their
catalogs list the same providers with the same kind and credentials, and the endpoints that
the tenant's keys are for lie on the same side of the operator's network: the same
environment, the same providers allowed, and the same of them with credentials. `env_get` in
the tenant's context answers from that environment, whose values come from the tenant. A base
URL that the configuration file reads from the process environment may move an endpoint off
the operator's network, and then the tenant's key unlocks it.
-/

namespace Unhardcoded.Guarantees.TenantHost

open Unhardcoded.Python
open Unhardcoded.Source.TenantHost

/-- What a catalog entry has beside its endpoint, its region and what it discovers. -/
def face (p : Provider) : Provider :=
  { p with baseUrl := "", discovery := none, discoveryId := none, awsRegion := none }

/-- A connection of the tenant takes the provider over. -/
def Connected (connections : Connections) (entry : String × Provider) : Prop :=
  (connections.account.isSome = true ∧ entry.2.apiKind = some "bedrock") ∨
    (connections.gateway.isSome = true ∧ entry.1 = "antseed")

/-- The tenant brings a key for the provider. -/
def Keyed (env : Env) (p : Provider) : Prop := ∃ key, p.secret = some key ∧ (nonempty (env.lookup key)).isSome = true

/-- Entries of one kind and credentials. Where the tenant's key is for them and no connection
takes them over, their endpoints are on the same side of the operator's network. -/
structure Alike (net : Net) (env : Env) (connections : Connections) (entry entry' : String × Provider) : Prop where
  pid : entry.1 = entry'.1
  face : face entry.2 = face entry'.2
  side : Keyed env entry.2 → ¬Connected connections entry →
    net.operatorLocal entry.2.baseUrl = net.operatorLocal entry'.2.baseUrl

/-- What the tenant brings, and the scope the host writes. -/
inductive Given (tenant : Tenant) (env : Env) (connections : Connections) : String → Prop where
  | env {name value : String} (mem : (name, value) ∈ env) : Given tenant env connections value
  | scope : Given tenant env connections tenant.scope
  | account {aws : Aws} {value : String} (complete : connections.account = some aws)
      (mem : value ∈ [aws.accessKeyId, aws.secretAccessKey, aws.sessionToken, aws.region]) :
      Given tenant env connections value
  | gateway {buyer : Buyer} {value : String} (complete : connections.gateway = some buyer)
      (mem : value ∈ [buyer.gatewayUrl, buyer.token]) : Given tenant env connections value

section Faces

variable {p p' : Provider}

theorem apiKind_of_face (h : face p = face p') : p.apiKind = p'.apiKind := by
  have same : (face p).apiKind = (face p').apiKind := by rw [h]
  exact same

theorem auth_of_face (h : face p = face p') : p.auth = p'.auth := by
  have same : (face p).auth = (face p').auth := by rw [h]
  exact same

theorem secret_of_face (h : face p = face p') : p.secret = p'.secret := by
  have authEnv : (face p).authEnv = (face p').authEnv := by rw [h]
  rw [Provider.secret, Provider.secret, auth_of_face h, show p.authEnv = p'.authEnv from authEnv]

/-- The credential check does not look at base URLs. -/
theorem authConfigured_of_face {child child' : Child} (env : child.env = child'.env)
    (allowed : child.allowed = child'.allowed) (h : face p = face p') (pid : String) :
    child.authConfigured pid p = child'.authConfigured pid p' := by
  unfold Child.authConfigured
  rw [env, allowed, auth_of_face h, secret_of_face h]

end Faces

section Grants

variable (net : Net) (host : Host) (env : Env)

/-- The tenant's key unlocks the provider. -/
def Unlocked (p : Provider) : Prop := Keyed env p ∧ net.operatorLocal p.baseUrl = false

/-- Without managed providers a grant leaves the environment alone and allows what a key unlocks. -/
theorem grant_unmanaged {scope : Scoped} (entry : String × Provider) (unmanaged : scope.managed = ∅) :
    (grant net host env scope entry).managed = ∅ ∧ (grant net host env scope entry).env = scope.env ∧
      ∀ pid, pid ∈ (grant net host env scope entry).allowed ↔
        pid ∈ scope.allowed ∨ pid = entry.1 ∧ Unlocked net env entry.2 := by
  unfold grant
  cases secret : entry.2.secret with
  | none =>
    have keyless : ¬Unlocked net env entry.2 := by simp [Unlocked, Keyed, secret]
    exact ⟨unmanaged, rfl, fun pid => by simp [keyless]⟩
  | some key =>
    have unlocks : Unlocked net env entry.2 ↔
        ((nonempty (env.lookup key)).isSome && !net.operatorLocal entry.2.baseUrl) = true := by
      simp [Unlocked, Keyed, secret]
    dsimp only
    split
    · rename_i unlocked
      refine ⟨by rw [unmanaged, Finset.erase_empty], rfl, fun pid => ?_⟩
      simp [unlocks.mpr unlocked, or_comm]
    · rename_i locked
      simp [unmanaged, unlocks.not.mpr locked]

theorem grants_unmanaged (catalog : Catalog) {scope : Scoped} (unmanaged : scope.managed = ∅) :
    (catalog.foldl (grant net host env) scope).managed = ∅ ∧ (catalog.foldl (grant net host env) scope).env = scope.env ∧
      ∀ pid, pid ∈ (catalog.foldl (grant net host env) scope).allowed ↔
        pid ∈ scope.allowed ∨ ∃ entry ∈ catalog, pid = entry.1 ∧ Unlocked net env entry.2 := by
  induction catalog generalizing scope with
  | nil => exact ⟨unmanaged, rfl, by simp⟩
  | cons entry catalog ih =>
    obtain ⟨still, kept, allows⟩ := grant_unmanaged net host env entry unmanaged
    obtain ⟨last, envs, allowed⟩ := ih still
    refine ⟨last, envs.trans kept, fun pid => ?_⟩
    rw [List.foldl_cons, allowed, allows, or_assoc]
    simp

theorem allowed_alike {connections : Connections} {entry entry' : String × Provider} (alike : Alike net env connections entry entry') :
    Unlocked net env entry.2 ∨ Connected connections entry ↔ Unlocked net env entry'.2 ∨ Connected connections entry' := by
  have keyed : Keyed env entry.2 ↔ Keyed env entry'.2 := by rw [Keyed, Keyed, secret_of_face alike.face]
  have connected : Connected connections entry ↔ Connected connections entry' := by
    rw [Connected, Connected, apiKind_of_face alike.face, alike.pid]
  by_cases taken : Connected connections entry
  · exact iff_of_true (.inr taken) (.inr (connected.mp taken))
  · rw [or_iff_left taken, or_iff_left (connected.not.mp taken)]
    refine ⟨fun ⟨key, away⟩ => ⟨keyed.mp key, ?_⟩, fun ⟨key, away⟩ => ⟨keyed.mpr key, ?_⟩⟩
    · rwa [← alike.side key taken]
    · rwa [alike.side (keyed.mpr key) taken]

end Grants

section Configure

variable {catalog catalog' : Catalog}

/-- Catalogs of the same providers, with the same kind and credentials. -/
def SameFaces (catalog catalog' : Catalog) : Prop :=
  List.Forall₂ (fun entry entry' : String × Provider => entry.1 = entry'.1 ∧ face entry.2 = face entry'.2) catalog catalog'

theorem SameFaces.filter_ids (h : SameFaces catalog catalog') (keep keep' : String × Provider → Bool)
    (same : ∀ entry entry' : String × Provider, entry.1 = entry'.1 → face entry.2 = face entry'.2 →
      keep entry = keep' entry') : (catalog.filter keep).map (·.1) = (catalog'.filter keep').map (·.1) := by
  induction h with
  | nil => rfl
  | @cons entry entry' _ _ head tail ih =>
    rw [List.filter_cons, List.filter_cons, same entry entry' head.1 head.2]
    split
    · rw [List.map_cons, List.map_cons, head.1, ih]
    · exact ih

theorem SameFaces.any_id (h : SameFaces catalog catalog') (pid : String) :
    (catalog.any fun entry => entry.1 = pid) = catalog'.any fun entry => entry.1 = pid := by
  induction h with
  | nil => rfl
  | cons head tail ih => rw [List.any_cons, List.any_cons, head.1, ih]

theorem SameFaces.map (h : SameFaces catalog catalog') {f : String × Provider → String × Provider}
    (ids : ∀ entry, (f entry).1 = entry.1)
    (faces : ∀ entry entry' : String × Provider, entry.1 = entry'.1 → face entry.2 = face entry'.2 →
      face (f entry).2 = face (f entry').2) : SameFaces (catalog.map f) (catalog'.map f) := by
  induction h with
  | nil => exact .nil
  | @cons entry entry' _ _ head tail ih =>
    exact .cons ⟨by rw [ids, ids, head.1], faces entry entry' head.1 head.2⟩ ih

theorem configureAws_alike (h : SameFaces catalog catalog') (aws : Aws) (env : Env) :
    SameFaces (configureAws aws catalog env).catalog (configureAws aws catalog' env).catalog ∧
      (configureAws aws catalog env).env = (configureAws aws catalog' env).env ∧
      (configureAws aws catalog env).byo = (configureAws aws catalog' env).byo := by
  refine ⟨h.map (fun entry => ?_) fun entry entry' same faces => ?_, rfl, ?_⟩
  · split <;> rfl
  · rw [apiKind_of_face faces, same]
    split
    · exact faces
    · exact faces
  · have ids := h.filter_ids (fun entry => entry.2.apiKind = some "bedrock")
      (fun entry => entry.2.apiKind = some "bedrock") fun entry entry' _ faces => by rw [apiKind_of_face faces]
    unfold configureAws
    dsimp only
    rw [ids]

/-- What is configured alike. -/
structure SameConfigured (configured configured' : Configured) : Prop where
  catalog : SameFaces configured.catalog configured'.catalog
  env : configured.env = configured'.env
  byo : configured.byo = configured'.byo

theorem SameConfigured.buyer {configured configured' : Configured} (h : SameConfigured configured configured')
    (buyer : Buyer) : SameConfigured (configureBuyer buyer configured) (configureBuyer buyer configured') := by
  unfold configureBuyer
  rw [h.catalog.any_id "antseed"]
  split
  · refine ⟨h.catalog.map (fun entry => ?_) fun entry entry' same faces => ?_, ?_, ?_⟩
    · split <;> rfl
    · rw [same]
      split
      · exact congrArg (fun p : Provider => { p with auth := some ⟨some "bearer", some "ANTSEED_BYO_TOKEN"⟩ }) faces
      · exact faces
    · rw [h.env]
    · rw [h.byo]
  · exact h

theorem configure_alike (h : SameFaces catalog catalog') (env : Env) (connections : Connections) :
    SameConfigured (configure catalog env connections) (configure catalog' env connections) := by
  unfold configure
  cases connections.account with
  | none =>
    have account : SameConfigured ⟨catalog, env, ∅⟩ ⟨catalog', env, ∅⟩ := ⟨h, rfl, rfl⟩
    cases connections.gateway with
    | none => exact account
    | some buyer => exact account.buyer buyer
  | some aws =>
    obtain ⟨catalogs, envs, byo⟩ := configureAws_alike h aws env
    have account : SameConfigured (configureAws aws catalog env) (configureAws aws catalog' env) := ⟨catalogs, envs, byo⟩
    cases connections.gateway with
    | none => exact account
    | some buyer => exact account.buyer buyer

/-- The providers that connections take over. -/
theorem mem_byo (env : Env) (connections : Connections) (pid : String) :
    pid ∈ (configure catalog env connections).byo ↔ ∃ entry ∈ catalog, pid = entry.1 ∧ Connected connections entry := by
  have bedrock : ∀ aws, pid ∈ (configureAws aws catalog env).byo ↔
      ∃ entry ∈ catalog, pid = entry.1 ∧ entry.2.apiKind = some "bedrock" := by
    intro aws
    simp only [configureAws, List.mem_toFinset, List.mem_map, List.mem_filter, decide_eq_true_eq]
    exact ⟨fun ⟨entry, ⟨mem, kind⟩, same⟩ => ⟨entry, mem, same.symm, kind⟩,
      fun ⟨entry, mem, same, kind⟩ => ⟨entry, ⟨mem, kind⟩, same.symm⟩⟩
  have antseed : ∀ buyer (configured : Configured), configured.catalog.map (·.1) = catalog.map (·.1) →
      (pid ∈ (configureBuyer buyer configured).byo ↔
        pid ∈ configured.byo ∨ ∃ entry ∈ catalog, pid = entry.1 ∧ entry.1 = "antseed") := by
    intro buyer configured ids
    have listed : (configured.catalog.any fun entry => entry.1 = "antseed") = true ↔ ∃ entry ∈ catalog, entry.1 = "antseed" := by
      have mem : "antseed" ∈ configured.catalog.map (·.1) ↔ "antseed" ∈ catalog.map (·.1) := by rw [ids]
      simpa using mem
    unfold configureBuyer
    split
    · rename_i found
      obtain ⟨entry, mem, name⟩ := listed.mp found
      rw [Finset.mem_insert, or_comm]
      refine or_congr_right ⟨?_, ?_⟩
      · rintro rfl
        exact ⟨entry, mem, name.symm, name⟩
      · rintro ⟨_, _, same, named⟩
        exact same.trans named
    · rename_i absent
      exact (or_iff_left fun ⟨entry, mem, _, named⟩ => absent (listed.mpr ⟨entry, mem, named⟩)).symm
  have ids : ∀ aws, (configureAws aws catalog env).catalog.map (·.1) = catalog.map (·.1) := by
    intro aws
    rw [configureAws, List.map_map]
    refine List.map_congr_left fun entry _ => ?_
    rw [Function.comp_apply]
    split <;> rfl
  unfold configure Connected
  cases connections.account with
  | none =>
    cases connections.gateway with
    | none => simp
    | some buyer =>
      dsimp only
      rw [antseed buyer _ rfl]
      simp
  | some aws =>
    cases connections.gateway with
    | none =>
      dsimp only
      rw [bedrock]
      simp
    | some buyer =>
      dsimp only
      rw [antseed buyer _ (ids aws), bedrock]
      simp [and_or_left, exists_or]

/-- An updated environment holds what it held, and the new entries. -/
theorem mem_update {entries env : Env} {entry : String × String} (mem : entry ∈ update env entries) :
    entry ∈ env ∨ entry ∈ entries := by
  unfold update at mem
  induction entries generalizing env with
  | nil => exact .inl mem
  | cons first entries ih =>
    rcases ih mem with old | new
    · rcases mem_insert old with rfl | ⟨old, -⟩
      · exact .inr List.mem_cons_self
      · exact .inl old
    · exact .inr (List.mem_cons_of_mem _ new)

theorem given_buyer {tenant : Tenant} {given : Env} {connections : Connections} {configured : Configured} {buyer : Buyer}
    (complete : connections.gateway = some buyer)
    (all : ∀ entry ∈ configured.env, Given tenant given connections entry.2) :
    ∀ entry ∈ (configureBuyer buyer configured).env, Given tenant given connections entry.2 := by
  unfold configureBuyer
  split
  · intro entry mem
    rcases mem_update mem with old | new
    · exact all entry old
    · refine .gateway complete ?_
      simp only [List.mem_cons, List.not_mem_nil, or_false] at new
      rcases new with rfl | rfl <;> simp
  · exact all

theorem given_aws {tenant : Tenant} {given : Env} {connections : Connections} {env : Env} {aws : Aws}
    (complete : connections.account = some aws) (all : ∀ entry ∈ env, Given tenant given connections entry.2) :
    ∀ entry ∈ (configureAws aws catalog env).env, Given tenant given connections entry.2 := by
  intro entry mem
  rcases mem_update mem with old | new
  · exact all entry old
  · refine .account complete ?_
    simp only [List.mem_cons, List.not_mem_nil, or_false] at new
    rcases new with rfl | rfl | rfl | rfl <;> simp

theorem given_configure {tenant : Tenant} {given : Env} {connections : Connections} {env : Env}
    (all : ∀ entry ∈ env, Given tenant given connections entry.2) :
    ∀ entry ∈ (configure catalog env connections).env, Given tenant given connections entry.2 := by
  unfold configure
  cases paid : connections.account with
  | none =>
    cases complete : connections.gateway with
    | none => exact all
    | some buyer => exact given_buyer complete all
  | some aws =>
    cases complete : connections.gateway with
    | none => exact given_aws paid all
    | some buyer => exact given_buyer complete (given_aws paid all)

end Configure

section Child

variable {net : Net} {host host' : Host} {process process' : Env} {tenant : Tenant} {env : Env}
  {connections : Connections}

theorem sameFaces_of_alike {catalog catalog' : Catalog} (h : List.Forall₂ (Alike net env connections) catalog catalog') :
    SameFaces catalog catalog' := h.imp fun _ _ alike => ⟨alike.pid, alike.face⟩

theorem exists_alike {catalog catalog' : Catalog} (h : List.Forall₂ (Alike net env connections) catalog catalog') (pid : String) :
    (∃ entry ∈ catalog, pid = entry.1 ∧ (Unlocked net env entry.2 ∨ Connected connections entry)) ↔
      ∃ entry ∈ catalog', pid = entry.1 ∧ (Unlocked net env entry.2 ∨ Connected connections entry) := by
  induction h with
  | nil => rfl
  | cons head tail ih => rw [List.exists_mem_cons_iff, List.exists_mem_cons_iff, ih, head.pid, allowed_alike net env head]

theorem unmanaged (process : Env) (catalog : Catalog) :
    ([] : List String).toFinset ∩ sharedProviderIds process catalog = ∅ := by
  rw [List.toFinset_nil, Finset.empty_inter]

/-- The child's environment holds nothing but what the tenant brings. -/
theorem given_child : ∀ entry ∈ (forTenant net host process tenant env [] connections).env,
    Given tenant env connections entry.2 := by
  refine given_configure fun entry mem => ?_
  rw [(grants_unmanaged net host env host.catalog (unmanaged process host.catalog)).2.1] at mem
  rcases mem_insert mem with rfl | ⟨old, -⟩
  · exact .scope
  · exact .env old

/-- A tenant's key or connection allows a provider. -/
theorem allowed_child (pid : String) : pid ∈ (forTenant net host process tenant env [] connections).allowed ↔
    ∃ entry ∈ host.catalog, pid = entry.1 ∧ (Unlocked net env entry.2 ∨ Connected connections entry) := by
  obtain ⟨-, envs, allows⟩ := grants_unmanaged net host env host.catalog
    (show (⟨insert "SAAS_TENANT_SCOPE" tenant.scope env, ∅, ∅⟩ : Scoped).managed = ∅ from rfl)
  simp only [forTenant, unmanaged, Finset.mem_union, allows, mem_byo, Finset.notMem_empty, false_or, and_or_left, exists_or]

theorem child_alike (alike : List.Forall₂ (Alike net env connections) host.catalog host'.catalog) :
    let child := forTenant net host process tenant env [] connections
    let child' := forTenant net host' process' tenant env [] connections
    child.env = child'.env ∧ child.allowed = child'.allowed ∧ SameFaces child.catalog child'.catalog := by
  intro child child'
  have inScope (host : Host) : (host.catalog.foldl (grant net host env) ⟨insert "SAAS_TENANT_SCOPE" tenant.scope env, ∅, ∅⟩).env =
      insert "SAAS_TENANT_SCOPE" tenant.scope env := (grants_unmanaged net host env host.catalog rfl).2.1
  have configured := configure_alike (sameFaces_of_alike alike) (insert "SAAS_TENANT_SCOPE" tenant.scope env) connections
  refine ⟨?_, ?_, ?_⟩
  · simp only [child, child', forTenant, unmanaged, inScope]
    exact configured.env
  · ext pid
    rw [allowed_child, allowed_child]
    exact exists_alike alike pid
  · simp only [child, child', forTenant, unmanaged, inScope]
    exact configured.catalog

end Child

/-- Whatever the operator's environments, hosts whose catalogs are alike build for a tenant without
managed providers the same environment, allow the same providers and find the same of them with
credentials; `env_get` in the tenant's context answers alike, with what the tenant brings. -/
theorem tenant_isolated (net : Net) {host host' : Host} (process process' : Env)
    (tenant : Tenant) (env : Env) (connections : Connections)
    (alike : List.Forall₂ (Alike net env connections) host.catalog host'.catalog) :
    let child := forTenant net host process tenant env [] connections
    let child' := forTenant net host' process' tenant env [] connections
    child.env = child'.env ∧ child.allowed = child'.allowed ∧ child.configured = child'.configured ∧
      ∀ name, envGet (some child.env) process name = envGet (some child'.env) process' name ∧
        ∀ value, envGet (some child.env) process name = some value → Given tenant env connections value := by
  intro child child'
  have same : child.env = child'.env ∧ child.allowed = child'.allowed ∧ SameFaces child.catalog child'.catalog :=
    child_alike alike
  obtain ⟨envs, allowed, faces⟩ := same
  refine ⟨envs, allowed, ?_, fun name => ⟨?_, fun value found => ?_⟩⟩
  · have ids := faces.filter_ids (fun entry => child.authConfigured entry.1 entry.2)
      (fun entry => child'.authConfigured entry.1 entry.2)
      fun entry entry' same face => by rw [same]; exact authConfigured_of_face envs allowed face entry'.1
    exact congrArg List.toFinset ids
  · exact congrArg (fun env : Env => env.lookup name) envs
  · exact given_child _ (mem_of_lookup found)

/-- URLs of a scheme, a host name and no more than a port and a path; no address literals. -/
def plainNet : Net where
  urlsplit url :=
    let scheme := url.toList.takeWhile (· ≠ ':')
    let rest := url.toList.drop (scheme.length + 3)
    some (String.ofList scheme, some (String.ofList (rest.takeWhile fun c => c ≠ '/' && c ≠ ':')))
  isGlobal _ := none

/-- The `bedrock` and `ollama` entries of `config.live.lua`. -/
def ollamaCatalog (process : Env) : Catalog :=
  [("bedrock", {
    baseUrl := "bedrock://" ++ (process.lookup "BEDROCK_REGION").getD "us-east-1"
    apiKind := some "bedrock"
    authEnv := none
    auth := none
    discovery := some "static"
    discoveryId := none
    awsRegion := some ((process.lookup "BEDROCK_REGION").getD "us-east-1") }),
   ("ollama", {
    baseUrl := (process.lookup "OLLAMA_BASE_URL").getD "http://localhost:11434/v1"
    apiKind := some "openai_compatible"
    authEnv := some "OLLAMA_API_KEY"
    auth := none
    discovery := some "marketplace"
    discoveryId := some "ollama"
    awsRegion := none })]

def keylessOperator : Env := []

/-- Another endpoint of the operator's network, another region, and a key of the operator's own. -/
def composeOperator : Env :=
  [("OLLAMA_BASE_URL", "http://ollama:11434/v1"), ("BEDROCK_REGION", "eu-west-1"), ("OLLAMA_API_KEY", "operator")]

/-- An endpoint outside of the operator's network. -/
def cloudOperator : Env := [("OLLAMA_BASE_URL", "https://ollama.com/v1")]

def ollamaTenant (process : Env) : Child :=
  forTenant plainNet (Host.create ollamaCatalog process) process ⟨7, none, none⟩ [("OLLAMA_API_KEY", "tenant")] []
    ⟨none, none⟩

theorem tenant_isolated_ollama :
    (ollamaTenant keylessOperator).env = (ollamaTenant composeOperator).env ∧
      (ollamaTenant keylessOperator).allowed = (ollamaTenant composeOperator).allowed := by
  have alike : List.Forall₂ (Alike plainNet [("OLLAMA_API_KEY", "tenant")] ⟨none, none⟩)
      (Host.create ollamaCatalog keylessOperator).catalog (Host.create ollamaCatalog composeOperator).catalog :=
    .cons ⟨rfl, rfl, fun _ _ => by decide +kernel⟩ (.cons ⟨rfl, rfl, fun _ _ => by decide +kernel⟩ .nil)
  have same := tenant_isolated plainNet keylessOperator composeOperator ⟨7, none, none⟩
    [("OLLAMA_API_KEY", "tenant")] ⟨none, none⟩ alike
  exact ⟨same.1, same.2.1⟩

/-- An operator environment that moves the endpoint off its network lets the tenant's key unlock it. -/
theorem endpoint_read_from_environment :
    ¬ ∀ (net : Net) (load : Env → Catalog) (process process' : Env) (tenant : Tenant) (env : Env)
      (connections : Connections),
      (forTenant net (Host.create load process) process tenant env [] connections).allowed =
        (forTenant net (Host.create load process') process' tenant env [] connections).allowed := by
  intro all
  have same : (ollamaTenant keylessOperator).allowed = (ollamaTenant cloudOperator).allowed :=
    all plainNet ollamaCatalog keylessOperator cloudOperator ⟨7, none, none⟩ [("OLLAMA_API_KEY", "tenant")] ⟨none, none⟩
  have locked : (ollamaTenant keylessOperator).allowed = ∅ := by decide +kernel
  have unlocked : (ollamaTenant cloudOperator).allowed = {"ollama"} := by decide +kernel
  rw [locked, unlocked] at same
  exact absurd same (by decide)

end Unhardcoded.Guarantees.TenantHost

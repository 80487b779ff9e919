import Unhardcoded.Source.TenantHost

/-!
# Missing credentials in the core's disabled set

`_provider_auth_configured` and `_sync_provider_auth_state` of `llm_router_host.py`. The
state of the core is the dictionary that `dump_state` returns and `restore_state` puts in
its place; the core also writes its slots and its entries of `disabled_providers` itself.
A set of provider ids has no order of its own, so the loop over it runs in any order.
-/

namespace Unhardcoded.Source.ProviderAuth

open Unhardcoded.Python
open Unhardcoded.Source.TenantHost (Env Provider Child)

/-- `_AUTH_UNCONFIGURED`. -/
def authUnconfigured : String := "auth_unconfigured"

abbrev Disabled := List (String × Json)

structure Host where
  /-- `catalog["providers"]`; `none` is an entry that is no dictionary. -/
  providers : List (String × Option Provider)
  env : Env
  /-- `_tenant_allowed`. -/
  allowed : Option (Finset String)
  state : Json

/-- `_provider_auth_configured`. Without an allow-list every provider passes it. -/
def Host.providerAuthConfigured (host : Host) (pid : String) (p : Provider) : Bool :=
  Child.authConfigured ⟨host.env, [], host.allowed.getD {pid}, ∅⟩ pid p

def Host.missing (host : Host) : Finset String :=
  ((host.providers.filter fun entry => entry.2.any fun p => !host.providerAuthConfigured entry.1 p).map (·.1)).toFinset

section Sync

/-- `isinstance(cur, dict) and cur.get("kind") == _AUTH_UNCONFIGURED`. -/
def unconfigured (cur : Json) : Bool := cur.isObj && (cur.field "kind").isText authUnconfigured

/-- `v[key] = value`. -/
def setItem (key : String) (value : Json) : Json → Except Raised Json
  | .obj fields => .ok (.obj (insert key value fields))
  | _ => .error .typeError

/-- `cur["at_ms"] = now` of a dictionary. -/
def stamp (now : Int) : Json → Json
  | .obj fields => .obj (insert "at_ms" (.int now) fields)
  | cur => cur

/-- One turn of the loop over `missing`; the flag is `changed`. -/
def mark (now : Int) (acc : Disabled × Bool) (pid : String) : Disabled × Bool :=
  match (acc.1.lookup pid).getD .null with
  | .null => (insert pid (.obj [("kind", .str authUnconfigured), ("at_ms", .int now)]) acc.1, true)
  | cur => if unconfigured cur then (insert pid (stamp now cur) acc.1, true) else acc

/-- One turn of the loop over the entries. -/
def sweep (missing : Finset String) (acc : Disabled × Bool) (entry : String × Json) : Disabled × Bool :=
  if entry.1 ∈ missing then acc
  else if unconfigured entry.2 then (acc.1.filter (·.1 ≠ entry.1), true)
  else acc

/-- The two loops. -/
def reconcile (missing : Finset String) (order : List String) (now : Int) (disabled : Disabled) : Disabled × Bool :=
  let marked := order.foldl (mark now) (disabled, false)
  marked.1.foldl (sweep missing) marked

/-- `_sync_provider_auth_state` from `dump_state` on; `order` is how `missing` is enumerated.
The result is the state the core has afterwards. -/
def syncState (missing : Finset String) (order : List String) (now : Int) (snapshot : Json) : Except Raised Json := do
  let state := snapshot.orDict
  let slot ← state.get "disabled_providers"
  let disabled ← updateFields [] slot.orDict
  let (disabled, changed) := reconcile missing order now disabled
  if changed then setItem "disabled_providers" (.obj disabled) state
  else pure snapshot

/-- `_sync_provider_auth_state`. -/
def Host.syncProviderAuthState (host : Host) (order : List String) (now : Int) : Except Raised Json :=
  if host.providers.isEmpty then .ok host.state else syncState host.missing order now host.state

end Sync

section Runs

/-- `disabled_providers` of a state, empty where there is none. -/
def disabledProviders (state : Json) : Disabled :=
  match state.field "disabled_providers" with
  | .obj disabled => disabled
  | _ => []

/-- What happens to a host: its credentials and its allow-list change, the core disables
a provider, lets one in again or writes another slot of its state, a request syncs. -/
inductive Act where
  | environment (env : Env)
  | allow (allowed : Option (Finset String))
  | disable (pid : String) (entry : Json)
  | enable (pid : String)
  | slot (name : String) (value : Json)
  | sync (order : List String) (now : Int)

/-- The state with this table of disabled providers. -/
def writeDisabled (disabled : Disabled) (state : Json) : Option Json :=
  (setItem "disabled_providers" (.obj disabled) state).toOption

def Host.step (host : Host) : Act → Option Host
  | .environment env => some { host with env := env }
  | .allow allowed => some { host with allowed := allowed }
  | .disable pid entry =>
    (writeDisabled (insert pid entry (disabledProviders host.state)) host.state).map ({ host with state := · })
  | .enable pid =>
    (writeDisabled ((disabledProviders host.state).filter (·.1 ≠ pid)) host.state).map ({ host with state := · })
  | .slot name value =>
    if name = "disabled_providers" then none
    else (setItem name value host.state).toOption.map ({ host with state := · })
  | .sync order now =>
    if order.Nodup ∧ order.toFinset = host.missing then
      (host.syncProviderAuthState order now).toOption.map ({ host with state := · })
    else none

end Runs

end Unhardcoded.Source.ProviderAuth

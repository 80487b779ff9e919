import Mathlib.Algebra.Order.Ring.Rat
import Mathlib.Data.Rat.Floor
import Unhardcoded.Effects.Machine
import Unhardcoded.Python.Json

/-!
# The key resolution cache

Source: `ResolvedKey`, `_entry_ttl`, `_evict_if_full`, `_parse_resolved`,
`_fetch_resolve` and `resolve_key` of control_plane_client.py. A lookup suspends at
its HTTP request only, and the calls that share it get its result the moment it ends.
Times of the monotonic clock are exact rationals; `str` of a value that is no string
and `int` of a string are parameters.
-/

namespace Unhardcoded.Source

open Effects Python

namespace KeyCache

structure Config where
  enabled : Bool
  resolveTtlS : ℚ
  negativeTtlS : ℚ
  resolveStaleGraceS : ℚ
  /-- `str` of a decoded value that is no string. -/
  strOf : Json → String
  /-- `int` of a string, where it does not raise. -/
  intOf : String → Option Int

structure ResolvedKey where
  active : Bool
  consumer : Option String
  tenantId : Option Int
  ratePerMin : Option Int
  burst : Option Int
  fetchedAt : ℚ
  scopeVersion : Int
  projectId : Option Int
  environmentId : Option Int
  deriving DecidableEq

/-- `int(value)`, where it does not raise. -/
def toInt (config : Config) : Json → Option Int
  | .bool b => some (if b then 1 else 0)
  | .int n => some n
  | .float value _ => some (if value < 0 then -⌊-value⌋ else ⌊value⌋)
  | .str text => config.intOf text
  | _ => none

/-- `_opt_int`. -/
def optInt (config : Config) (value : Json) : Option Int := (toInt config value).filter (0 < ·)

/-- `str(data.get("consumer") or "").strip() or None`. -/
def consumerOf (config : Config) (value : Json) : Option String :=
  let text := match value.orElse (.str "") with
    | .str text => text
    | value => config.strOf value
  if strip text = "" then none else some (strip text)

/-- `type(value) is int and value > 0`. -/
def posInt? : Json → Option Int
  | .int n => if 0 < n then some n else none
  | _ => none

def isNull : Json → Bool
  | .null => true
  | _ => false

/-- `_parse_resolved`. -/
def parseResolved (config : Config) (data : Json) (now : ℚ) : ResolvedKey :=
  let data := if data.isObj then data else .obj []
  let consumer := consumerOf config (data.field "consumer")
  let tenantId := optInt config (data.field "tenant_id")
  let identified := (data.field "active").truthy && consumer.isSome && tenantId.isSome
  let projectId := data.field "project_id"
  let environmentId := data.field "environment_id"
  -- whether the scope lets an identified key be active, and its version then
  let (inScope, version) := match (data.field? "scope_version").getD (.int 1) with
    | .int 2 => ((posInt? projectId).isSome && (posInt? environmentId).isSome, 2)
    | .int 1 => (isNull projectId && isNull environmentId, 1)
    | _ => (false, 1)
  let active := identified && inScope
  { active := active
    consumer := if active then consumer else none
    tenantId := if active then tenantId else none
    ratePerMin := if active then optInt config (data.field "rate_per_min") else none
    burst := if active then optInt config (data.field "burst") else none
    fetchedAt := now
    scopeVersion := if active then version else 1
    projectId := if active ∧ version = 2 then posInt? projectId else none
    environmentId := if active ∧ version = 2 then posInt? environmentId else none }

/-- What comes of the HTTP request. -/
inductive Reply where
  /-- `httpx.HTTPError`. -/
  | transportError
  /-- A response; `none` is a body that is no JSON. -/
  | response (statusCode : Nat) (body : Option Json)

/-- `_fetch_resolve`: an entry for a definitive answer, `None` for an unreachable control plane. -/
def fetchResolve (config : Config) (now : ℚ) : Reply → Option ResolvedKey
  | .transportError => none
  | .response statusCode body =>
    if statusCode ≥ 500 then none
    else if statusCode ≠ 200 then some (parseResolved config (.obj []) now)
    else some (parseResolved config (body.getD (.obj [])) now)

/-- `_entry_ttl`. -/
def entryTtl (config : Config) (entry : ResolvedKey) : ℚ :=
  if entry.active then config.resolveTtlS else config.negativeTtlS

/-- A lookup in `_resolve_inflight`: what its call read before the request, and the calls
that await its future. -/
structure Lookup where
  started : ℚ
  cached : Option ResolvedKey
  calls : List Nat

/-- A call that has returned. -/
structure Answered where
  call : Nat
  digest : String
  result : Option ResolvedKey
  /-- Its lookup found the control plane unreachable. -/
  unreachable : Bool
  time : ℚ
  deriving DecidableEq

inductive Event where
  /-- A definitive answer of the control plane. -/
  | definitive (digest : String) (entry : ResolvedKey)
  | answered (answer : Answered)
  deriving DecidableEq

structure CacheState where
  /-- `_resolve_cache`. -/
  cache : List (String × ResolvedKey)
  /-- `_resolve_inflight`. -/
  inflight : String → Option Lookup
  now : ℚ
  events : List Event

inductive CacheAct where
  | resolveKey (call : Nat) (digest : String)
  /-- The request of a lookup ends. -/
  | reply (digest : String) (reply : Reply)
  /-- A lookup is cancelled, or ends with another exception, which all its calls raise. -/
  | abort (digest : String)
  /-- A call that awaits another call's lookup is cancelled. -/
  | leave (digest : String) (call : Nat)
  | tick (elapsed : ℚ)

/-- `_RESOLVE_CACHE_MAX`. -/
def resolveCacheMax : Nat := 4096

namespace CacheState

def empty (now : ℚ) : CacheState := ⟨[], fun _ => none, now, []⟩

/-- `_evict_if_full`. -/
def evictIfFull (config : Config) (s : CacheState) : CacheState :=
  if s.cache.length < resolveCacheMax then s
  else
    let left := s.cache.filter fun entry => ¬ s.now - entry.2.fetchedAt > entryTtl config entry.2
    { s with cache := if left.length ≥ resolveCacheMax then [] else left }

def setLookup (s : CacheState) (digest : String) (lookup : Option Lookup) : CacheState :=
  { s with inflight := fun d => if d = digest then lookup else s.inflight d }

/-- These calls return this result. -/
def answer (s : CacheState) (digest : String) (calls : List Nat) (result : Option ResolvedKey) (unreachable : Bool) :
    CacheState :=
  { s with events := s.events ++ calls.map fun call => Event.answered ⟨call, digest, result, unreachable, s.now⟩ }

/-- `resolve_key` up to where it returns or waits. -/
def resolveKey (config : Config) (s : CacheState) (call : Nat) (digest : String) : CacheState :=
  if config.enabled then
    let cached := s.cache.lookup digest
    match cached.filter fun entry => s.now - entry.fetchedAt ≤ entryTtl config entry with
    | some entry => s.answer digest [call] (some entry) false
    | none =>
      match s.inflight digest with
      | some pending => s.setLookup digest (some { pending with calls := pending.calls ++ [call] })
      | none => s.setLookup digest (some ⟨s.now, cached, [call]⟩)
  else s.answer digest [call] none false

/-- The stale entry a failed lookup falls back to. -/
def staleGrace (config : Config) (lookup : Lookup) : Option ResolvedKey :=
  lookup.cached.filter fun entry =>
    entry.active && lookup.started - entry.fetchedAt ≤ config.resolveTtlS + config.resolveStaleGraceS

/-- `resolve_key` after its request. -/
def finish (config : Config) (s : CacheState) (digest : String) (lookup : Lookup) (reply : Reply) : CacheState :=
  let s := s.setLookup digest none
  match fetchResolve config s.now reply with
  | some fresh =>
    let s := s.evictIfFull config
    { s with
      cache := Python.insert digest fresh s.cache
      events := s.events ++ [Event.definitive digest fresh] }.answer digest lookup.calls (some fresh) false
  | none =>
    match staleGrace config lookup with
    | some entry => s.answer digest lookup.calls (some entry) true
    | none => { s with cache := s.cache.filter fun entry => entry.1 ≠ digest }.answer digest lookup.calls none true

def step (config : Config) (s : CacheState) : CacheAct → Option CacheState
  | .resolveKey call digest => some (s.resolveKey config call digest)
  | .reply digest reply => (s.inflight digest).map fun lookup => s.finish config digest lookup reply
  | .abort digest => (s.inflight digest).map fun _ => s.setLookup digest none
  | .leave digest call => do
    let lookup ← s.inflight digest
    if call ∈ lookup.calls.tail then
      some (s.setLookup digest (some { lookup with calls := lookup.calls.erase call }))
    else none
  | .tick elapsed => if 0 ≤ elapsed then some { s with now := s.now + elapsed } else none

end CacheState

/-- Calls of one process, in the order their tasks run. -/
abbrev runCache (config : Config) (now : ℚ) (acts : List CacheAct) : Option CacheState :=
  Machine.run (CacheState.step config) (.empty now) acts

end KeyCache

end Unhardcoded.Source

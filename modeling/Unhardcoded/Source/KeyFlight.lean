import Unhardcoded.Source.KeyCache

/-!
# The single flight of key lookups

`resolve_key` of control_plane_client.py once more, now with its tasks: which calls have
been cancelled, when each call resumes, and what it ends with. The first call to miss the
cache leads; it completes the shared future on every exit. A call that finds the future
pending awaits `asyncio.shield` of it. A cancelled task gets `CancelledError` at the
await it stands at, also where what it awaits is done already.
-/

namespace Unhardcoded.Source.KeyFlight

open Effects Python
open Unhardcoded.Source.KeyCache

/-- How the leader's `await _fetch_resolve(digest)` ends. -/
inductive Fetch where
  | reply (reply : Reply)
  /-- An exception that is no `httpx.HTTPError`. -/
  | raised (e : Raised)
  | cancelled

inductive Outcome where
  | returned (result : Option ResolvedKey)
  | raised (e : Raised)
  /-- `CancelledError`. -/
  | cancelled
  deriving DecidableEq

inductive Phase where
  | leading (digest : String)
  | following (digest : String)
  /-- The shared future is done; the call has not resumed yet. -/
  | woken (digest : String) (outcome : Outcome)
  | ended (digest : String) (outcome : Outcome)
  deriving DecidableEq

structure FlightState where
  store : CacheState
  phase : Nat → Option Phase
  /-- The calls whose task has been cancelled. -/
  cancelled : List Nat

inductive FlightAct where
  | resolveKey (call : Nat) (digest : String)
  /-- `task.cancel()`. -/
  | cancel (call : Nat)
  /-- A leader resumes. -/
  | fetched (call : Nat) (fetch : Fetch)
  /-- A follower resumes. -/
  | resume (call : Nat)
  | tick (elapsed : ℚ)

namespace FlightState

def empty (now : ℚ) : FlightState := ⟨.empty now, fun _ => none, []⟩

def put (s : FlightState) (call : Nat) (phase : Phase) : FlightState :=
  { s with phase := fun c => if c = call then some phase else s.phase c }

/-- `resolve_key` up to where it returns or waits. -/
def resolveKey (config : Config) (s : FlightState) (call : Nat) (digest : String) : FlightState :=
  let entered := { s with store := s.store.resolveKey config call digest }
  if config.enabled then
    match (s.store.cache.lookup digest).filter fun entry => s.store.now - entry.fetchedAt ≤ entryTtl config entry with
    | some entry => entered.put call (.ended digest (.returned (some entry)))
    | none => match s.store.inflight digest with
      | some _ => entered.put call (.following digest)
      | none => entered.put call (.leading digest)
  else entered.put call (.ended digest (.returned none))

/-- `result` of a lookup. -/
def result (config : Config) (now : ℚ) (lookup : Lookup) (reply : Reply) : Option ResolvedKey :=
  match fetchResolve config now reply with
  | some fresh => some fresh
  | none => CacheState.staleGrace config lookup

/-- `future.set_result`, or `future.set_exception` of any exception the leader raises. -/
def settle (s : FlightState) (digest : String) (lookup : Lookup) (call : Nat) (outcome : Outcome) : FlightState :=
  { s with phase := fun c =>
      if c = call then some (.ended digest outcome)
      else if c ∈ lookup.calls.tail then some (.woken digest outcome)
      else s.phase c }

/-- `resolve_key` of the leader, from the end of its request on. -/
def fetched (config : Config) (s : FlightState) (digest : String) (lookup : Lookup) (call : Nat) : Fetch → FlightState
  | .reply reply => { s with store := s.store.finish config digest lookup reply }.settle digest lookup call
      (.returned (result config s.store.now lookup reply))
  | .raised e => { s with store := s.store.setLookup digest none }.settle digest lookup call (.raised e)
  | .cancelled => { s with store := s.store.setLookup digest none }.settle digest lookup call .cancelled

/-- A cancelled request ends with `CancelledError`, or with what its clean-up raises. -/
def possible (s : FlightState) (call : Nat) : Fetch → Bool
  | .reply _ => call ∉ s.cancelled
  | .raised _ => true
  | .cancelled => call ∈ s.cancelled

def step (config : Config) (s : FlightState) : FlightAct → Option FlightState
  | .resolveKey call digest => match s.phase call with
    | none => some (s.resolveKey config call digest)
    | some _ => none
  | .cancel call => match s.phase call with
    | none => none
    | some (.ended _ _) => none
    | some _ => some { s with cancelled := call :: s.cancelled }
  | .fetched call fetch => match s.phase call with
    | some (.leading digest) => match s.store.inflight digest with
      | some lookup => if s.possible call fetch then some (s.fetched config digest lookup call fetch) else none
      | none => none
    | _ => none
  | .resume call => match s.phase call with
    | some (.following digest) => match s.store.inflight digest with
      | some lookup =>
        if call ∈ s.cancelled then
          some ({ s with
            store := s.store.setLookup digest (some { lookup with calls := lookup.calls.erase call }) }.put call
              (.ended digest .cancelled))
        else none
      | none => none
    | some (.woken digest outcome) =>
      some (s.put call (.ended digest (if call ∈ s.cancelled then .cancelled else outcome)))
    | _ => none
  | .tick elapsed => if 0 ≤ elapsed then some { s with store := { s.store with now := s.store.now + elapsed } } else none

end FlightState

/-- The calls of one process, in the order their tasks run. -/
abbrev runFlight (config : Config) (now : ℚ) (acts : List FlightAct) : Option FlightState :=
  Machine.run (FlightState.step config) (.empty now) acts

end Unhardcoded.Source.KeyFlight

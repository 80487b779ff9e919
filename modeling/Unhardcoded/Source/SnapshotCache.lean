import Unhardcoded.Effects.KeyedCache
import Unhardcoded.Effects.Machine

/-!
# The cache of dashboard snapshots

`_snapshot_cache_get`, `_snapshot_cache_put`, `_snapshot_cached_compute` and
`_snapshot_cache_clear` of auth_proxy.py, by the threads of one process. Each call of
`_snapshot_cached_compute` moves from one look at shared state to the next; the cache's own
lock makes each of these one step, and the lock of its key is held from the second look to the
end. Other views look and put without that lock, under keys of their own (`direct`). What the
calls did is kept in `log`, which no step reads.
-/

namespace Unhardcoded.Source.SnapshotCache

open Effects Effects.KeyedCache

variable {κ ν : Type} [DecidableEq κ]

/-- Where a call stands, with the time it was made at; a value is `none` for `None`. -/
inductive Phase (κ ν : Type) where
  | entered (key : κ) (since : ℚ)
  | waiting (key : κ) (since : ℚ)
  | locked (key : κ) (since : ℚ)
  | computing (key : κ) (since : ℚ)
  | storing (key : κ) (since : ℚ) (value : Option ν)
  | leaving (key : κ) (since : ℚ) (value : Option ν)
  | returned (value : Option ν)
  /-- `compute` raised. -/
  | raised

inductive Record (κ ν : Type) where
  | began (call : Nat) (key : κ) (now : ℚ)
  | computed (call : Nat) (key : κ) (now : ℚ) (value : Option ν)
  | changed (change : Change κ (Option ν))
  | returned (call : Nat) (key : κ) (since now : ℚ) (value : Option ν)

structure State (κ ν : Type) where
  clock : ℚ
  cache : List (κ × (ℚ × Option ν))
  /-- The call that holds the compute lock of a key. -/
  holder : κ → Option Nat
  phase : Nat → Option (Phase κ ν)
  log : List (Record κ ν)

inductive Act (κ ν : Type) where
  | call (call : Nat) (key : κ)
  | look (call : Nat)
  | acquire (call : Nat)
  | lookAgain (call : Nat)
  /-- `compute` ends, `none` where it raises. -/
  | computed (call : Nat) (result : Option (Option ν))
  | store (call : Nat)
  | leave (call : Nat)
  /-- A view puts under a key of its own. -/
  | fill (key : κ) (value : Option ν)
  | clear
  | tick (elapsed : ℚ)

structure Config (κ : Type) where
  ttl : ℚ
  direct : κ → Bool

namespace State

def start (now : ℚ) : State κ ν := ⟨now, [], fun _ => none, fun _ => none, []⟩

def move (s : State κ ν) (call : Nat) (phase : Phase κ ν) : State κ ν :=
  { s with phase := fun c => if c = call then some phase else s.phase c }

def note (s : State κ ν) (record : Record κ ν) : State κ ν := { s with log := s.log ++ [record] }

def lock (s : State κ ν) (key : κ) (holder : Option Nat) : State κ ν :=
  { s with holder := fun k => if k = key then holder else s.holder k }

/-- `_snapshot_cache_get`. -/
def get (config : Config κ) (s : State κ ν) (key : κ) : Option ν :=
  if config.ttl ≤ 0 then none else (KeyedCache.get config.ttl s.clock s.cache key).join

def change (s : State κ ν) (c : Change κ (Option ν)) : State κ ν := { s with cache := commit s.cache c }.note (.changed c)

/-- `_snapshot_cache.clear()`. -/
def clear (s : State κ ν) : State κ ν := s.change (.drop fun _ => true)

/-- `_snapshot_cache_put`. -/
def put (config : Config κ) (s : State κ ν) (key : κ) (value : Option ν) : State κ ν :=
  if config.ttl ≤ 0 then s
  else (if 256 < s.cache.length then s.clear else s).change (.put key s.clock value)

def answer (s : State κ ν) (call : Nat) (key : κ) (since : ℚ) (value : Option ν) : State κ ν :=
  (s.note (.returned call key since s.clock value)).move call (.returned value)

def step (config : Config κ) (s : State κ ν) : Act κ ν → Option (State κ ν)
  | .call call key =>
    match s.phase call with
    | none => if config.direct key then none else some (s.move call (.entered key s.clock))
    | some _ => none
  | .look call =>
    match s.phase call with
    | some (.entered key since) =>
      match s.get config key with
      | some value => some (s.answer call key since (some value))
      | none => some (s.move call (.waiting key since))
    | _ => none
  | .acquire call =>
    match s.phase call with
    | some (.waiting key since) =>
      if (s.holder key).isNone then some ((s.lock key (some call)).move call (.locked key since)) else none
    | _ => none
  | .lookAgain call =>
    match s.phase call with
    | some (.locked key since) =>
      match s.get config key with
      | some value => some (s.move call (.leaving key since (some value)))
      | none => some ((s.note (.began call key s.clock)).move call (.computing key since))
    | _ => none
  | .computed call result =>
    match s.phase call with
    | some (.computing key since) =>
      match result with
      | some value => some ((s.note (.computed call key s.clock value)).move call (.storing key since value))
      | none => some ((s.lock key none).move call .raised)
    | _ => none
  | .store call =>
    match s.phase call with
    | some (.storing key since value) => some ((s.put config key value).move call (.leaving key since value))
    | _ => none
  | .leave call =>
    match s.phase call with
    | some (.leaving key since value) => some ((s.lock key none).answer call key since value)
    | _ => none
  | .fill key value => if config.direct key then some (s.put config key value) else none
  | .clear => some s.clear
  | .tick elapsed => if 0 ≤ elapsed then some { s with clock := s.clock + elapsed } else none

end State

/-- A process from its start. -/
abbrev runCache (config : Config κ) (now : ℚ) (acts : List (Act κ ν)) : Option (State κ ν) :=
  Machine.run (State.step config) (.start now) acts

end Unhardcoded.Source.SnapshotCache

import Mathlib.Algebra.Order.Field.Basic
import Mathlib.Data.Rat.Defs
import Unhardcoded.Effects.Machine

/-!
# The shared OpenRouter catalogue

`_openrouter_catalog` of tenant_providers.py, called by `_openrouter` under its time limit.
The code between two awaits is one step: getting the lock and looking at the snapshot, the
end of `source.pricing()`, and the end of `source._client.aclose()`. The time limit of a
call raises `CancelledError` at the await it stands at, not before the limit. The lock is
free or taken; any waiting call may get a free lock. The log keeps, newest first, when a
fetch began, how it ended and what was returned. A catalogue is a `V`.
-/

namespace Unhardcoded.Source.OpenrouterCatalog

open Effects

def OPENROUTER_CATALOG_TTL_S : ℚ := 600
def OPENROUTER_CATALOG_STALE_S : ℚ := 3600
def OPENROUTER_CATALOG_RETRY_S : ℚ := 60

/-- The timeout of `wait_for`. -/
def LIMIT_S : ℚ := 35

variable {V : Type}

/-- `_openrouter_public`. -/
structure Snapshot (V : Type) where
  fetchedAt : ℚ
  value : Option V
  failedAt : Option ℚ

/-- How a fetch ended, as its call knows it while the client is closed. -/
inductive Ending (V : Type) where
  | fetched (value : V)
  /-- An exception; the last list where it is still good enough. -/
  | failed (kept : Option V)
  | cancelled

inductive Outcome (V : Type) where
  | returned (value : V)
  | raised
  /-- `CancelledError`: a `TimeoutError` of `wait_for`. -/
  | cancelled

/-- Where a call stands; `obtained` is when it got the lock. -/
inductive Phase (V : Type) where
  /-- In `lock.acquire()`. -/
  | waiting
  /-- In `source.pricing()`. -/
  | fetching (obtained : ℚ) (stale : Bool)
  /-- In `aclose()`. -/
  | closing (obtained : ℚ) (ending : Ending V)
  | ended (outcome : Outcome V)

inductive Mark (V : Type) where
  | began (at_ : ℚ)
  /-- The end of a fetch, with the new catalogue if there is one. -/
  | ended (at_ : ℚ) (value : Option V)
  | returned (value : V) (obtained : ℚ)
  deriving DecidableEq

structure CatalogState (V : Type) where
  now : ℚ
  snapshot : Snapshot V
  locked : Bool
  phase : Nat → Option (Phase V)
  /-- When each call was made. -/
  called : Nat → ℚ
  log : List (Mark V)

inductive CatalogAct (V : Type) where
  | call (id : Nat)
  /-- The lock is got; the call looks at the snapshot. -/
  | obtain (id : Nat)
  /-- `source.pricing()` and the offers are there. -/
  | fetched (id : Nat) (value : V)
  /-- An exception of `source.pricing()` or of the offers. -/
  | failed (id : Nat)
  /-- The time limit strikes. -/
  | strike (id : Nat)
  /-- `aclose()` returns, or raises. -/
  | closed (id : Nat) (returns : Bool)
  | tick (elapsed : ℚ)

namespace CatalogState

def start (now : ℚ) : CatalogState V := ⟨now, ⟨0, none, none⟩, false, fun _ => none, fun _ => 0, []⟩

def put (s : CatalogState V) (id : Nat) (phase : Phase V) : CatalogState V :=
  { s with phase := fun i => if i = id then some phase else s.phase i }

def age (s : CatalogState V) : ℚ := s.now - s.snapshot.fetchedAt

/-- A failed refresh keeps other calls from fetching. -/
def recentlyFailed (s : CatalogState V) : Bool :=
  s.snapshot.failedAt.any fun failedAt => s.now - failedAt < OPENROUTER_CATALOG_RETRY_S

/-- A call returns a value. -/
def answer (s : CatalogState V) (id : Nat) (value : V) (obtained : ℚ) : CatalogState V :=
  { s.put id (.ended (.returned value)) with log := .returned value obtained :: s.log }

/-- From getting the lock to the fetch, or to the end of the call, which gives the lock back. -/
def enter (s : CatalogState V) (id : Nat) : CatalogState V :=
  match s.snapshot.value with
  | some value =>
    if s.age < OPENROUTER_CATALOG_TTL_S then s.answer id value s.now
    else if s.recentlyFailed then
      if s.age < OPENROUTER_CATALOG_STALE_S then s.answer id value s.now else s.put id (.ended .raised)
    else
      { s.put id (.fetching s.now (s.age < OPENROUTER_CATALOG_STALE_S)) with
        locked := true, log := .began s.now :: s.log }
  | none =>
    if s.recentlyFailed then s.put id (.ended .raised)
    else { s.put id (.fetching s.now false) with locked := true, log := .began s.now :: s.log }

/-- The exception handler. -/
def fail (s : CatalogState V) (id : Nat) (obtained : ℚ) (stale : Bool) : CatalogState V :=
  { s.put id (.closing obtained (.failed (if stale then s.snapshot.value else none))) with
    snapshot := { s.snapshot with failedAt := some s.now }, log := .ended s.now none :: s.log }

/-- The end of a call whose fetch ended so, and the client is closed. -/
def finish (s : CatalogState V) (id : Nat) (obtained : ℚ) : Ending V → CatalogState V
  | .fetched value =>
    { s with snapshot := ⟨s.now, some value, none⟩, locked := false, log := .ended s.now (some value) :: s.log }.answer
      id value obtained
  | .failed (some value) => { s with locked := false }.answer id value obtained
  | .failed none => { s with locked := false }.put id (.ended .raised)
  | .cancelled => { s with locked := false }.put id (.ended .cancelled)

/-- The end of a call that is cut off while it closes the client. -/
def abandon (s : CatalogState V) (id : Nat) (ending : Ending V) (outcome : Outcome V) : CatalogState V :=
  match ending with
  | .fetched _ => { s.put id (.ended outcome) with locked := false, log := .ended s.now none :: s.log }
  | _ => { s.put id (.ended outcome) with locked := false }

def step (s : CatalogState V) : CatalogAct V → Option (CatalogState V)
  | .call id => match s.phase id with
    | none => some { s.put id .waiting with called := fun i => if i = id then s.now else s.called i }
    | some _ => none
  | .obtain id => match s.phase id with
    | some .waiting => if s.locked then none else some (s.enter id)
    | _ => none
  | .fetched id value => match s.phase id with
    | some (.fetching obtained _) => some (s.put id (.closing obtained (.fetched value)))
    | _ => none
  | .failed id => match s.phase id with
    | some (.fetching obtained stale) => some (s.fail id obtained stale)
    | _ => none
  | .strike id =>
    if s.called id + LIMIT_S ≤ s.now then
      match s.phase id with
      | some .waiting => some (s.put id (.ended .cancelled))
      | some (.fetching obtained _) =>
        some { s.put id (.closing obtained .cancelled) with log := .ended s.now none :: s.log }
      | some (.closing _ .cancelled) => none
      | some (.closing _ ending) => some (s.abandon id ending .cancelled)
      | _ => none
    else none
  | .closed id returns => match s.phase id with
    | some (.closing obtained ending) => some (if returns then s.finish id obtained ending else s.abandon id ending .raised)
    | _ => none
  | .tick elapsed => if 0 ≤ elapsed then some { s with now := s.now + elapsed } else none

end CatalogState

/-- The calls of one event loop. -/
abbrev runCatalog (now : ℚ) (acts : List (CatalogAct V)) : Option (CatalogState V) :=
  Machine.run CatalogState.step (.start now) acts

end Unhardcoded.Source.OpenrouterCatalog

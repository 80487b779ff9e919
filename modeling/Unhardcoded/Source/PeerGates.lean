import Mathlib.Algebra.Order.Ring.Rat
import Unhardcoded.Effects.Machine
import Unhardcoded.Effects.Semaphore
import Unhardcoded.Python.Json

/-!
# The peer gates of one process

Source: `_peer_gate`, `_PeerCapacitySlot` and the path of `_acquire_peer_capacity`
without `DISTRIBUTED_PEER_GATES`, of provider_adapters/openai_compatible.py. A gate
stays an object after the table has dropped it, so gates are numbered as they are
made. Nothing suspends under the gate lock, which is therefore never contended; the
wait at a gate is always positive. `str.lower` is a parameter.
-/

namespace Unhardcoded.Source

open Effects

namespace PeerGates

/-- What a request says of its peer. -/
structure Offer where
  /-- `offer["peer_id"]`, empty where it is missing. -/
  peerId : String
  /-- `offer["max_concurrency"]`, where it is an integer and no boolean. -/
  maxConcurrency : Option Int
  /-- `SAAS_TENANT_SCOPE` of a tenant that calls through its own gateway. -/
  byoScope : Option String
  deriving DecidableEq

/-- The gate key and the cap; `none` for a request that passes ungated. -/
def gateKey (lower : String → String) (offer : Offer) : Option (String × Nat) :=
  match offer.maxConcurrency with
  | none => none
  | some cap =>
    if offer.peerId = "" ∨ cap ≤ 0 then none
    else
      let peer := lower (Python.strip offer.peerId)
      match offer.byoScope with
      | none => some (peer, cap.toNat)
      | some scope => some ("tenant:" ++ scope ++ ":" ++ peer, cap.toNat)

structure Request where
  task : Nat
  peer : String
  cap : Nat
  deriving DecidableEq, Repr

/-- A semaphore of the table, with the peer and the cap it was made for. -/
structure Gate where
  peer : String
  cap : Nat
  semaphore : Semaphore Request
  deriving DecidableEq, Repr

structure PeerState where
  gates : List Gate
  /-- `_PEER_GATES`. -/
  table : List (String × Nat)
  /-- `_PEER_GATE_TIMESTAMPS`. -/
  timestamps : List (String × ℚ)
  /-- `time.monotonic()`. -/
  now : ℚ
  /-- The slots that are not released, with their gates. -/
  admitted : List (Nat × Request)
  /-- Every admission so far, with how many requests of its peer were admitted then. -/
  admissions : List (Request × Nat)
  deriving DecidableEq

inductive PeerAct where
  /-- A request comes to `_acquire_peer_capacity`. -/
  | call (task : Nat) (offer : Offer)
  /-- The wait of a request is over, or the request is cancelled. -/
  | strike (gate : Nat) (r : Request)
  /-- A waiting request runs again. -/
  | resume (gate : Nat) (r : Request)
  /-- `slot.release()`, any number of times. -/
  | release (gate : Nat) (r : Request)
  | tick (elapsed : ℚ)
  deriving DecidableEq

/-- `_PEER_GATE_TTL`. -/
def peerGateTtl : ℚ := 600

namespace PeerState

def empty (now : ℚ) : PeerState := ⟨[], [], [], now, [], []⟩

def inFlight (s : PeerState) (peer : String) : Nat := s.admitted.countP fun slot => slot.2.peer = peer

/-- The eviction of stale entries, busy or not. -/
def sweep (s : PeerState) : PeerState :=
  let stale := (s.timestamps.filter fun entry => s.now - entry.2 > peerGateTtl).map (·.1)
  { s with
    table := s.table.filter fun entry => entry.1 ∉ stale
    timestamps := s.timestamps.filter fun entry => entry.1 ∉ stale }

def evict (s : PeerState) : PeerState := if s.table.length > 256 then s.sweep else s

/-- `_peer_gate`. -/
def peerGate (s : PeerState) (peer : String) (cap : Nat) : Nat × PeerState :=
  let s := s.evict
  let s := { s with timestamps := Python.insert peer s.now s.timestamps }
  match s.table.lookup peer with
  | some gate => (gate, s)
  | none =>
    (s.gates.length, { s with
      gates := s.gates ++ [⟨peer, cap, .create cap⟩]
      table := Python.insert peer s.gates.length s.table })

def setGate (s : PeerState) (index : Nat) (gate : Gate) (semaphore : Semaphore Request) : PeerState :=
  { s with gates := s.gates.set index { gate with semaphore := semaphore } }

def letIn (s : PeerState) (index : Nat) (r : Request) : PeerState :=
  { s with
    admitted := s.admitted ++ [(index, r)]
    admissions := s.admissions ++ [(r, s.inFlight r.peer)] }

/-- The gate lookup of a request, and its acquire up to where it returns or waits. -/
def call (s : PeerState) (r : Request) : Option PeerState := do
  let (index, s) := s.peerGate r.peer r.cap
  let gate ← s.gates[index]?
  let (passed, semaphore) := gate.semaphore.acquire r
  let s := s.setGate index gate semaphore
  some (if passed then s.letIn index r else s)

def resume (s : PeerState) (index : Nat) (r : Request) : Option PeerState := do
  let gate ← s.gates[index]?
  let (acquired, semaphore) ← gate.semaphore.resume r
  let s := s.setGate index gate semaphore
  some (if acquired then s.letIn index r else s)

/-- The task is inside a call. -/
def busy (s : PeerState) (task : Nat) : Bool :=
  (s.admitted.any fun slot => slot.2.task = task) ||
    s.gates.any fun gate => gate.semaphore.tasks.any fun r => r.task = task

def step (lower : String → String) (s : PeerState) : PeerAct → Option PeerState
  | .call task offer =>
    if s.busy task then none
    else
      match gateKey lower offer with
      | none => some s
      | some (peer, cap) => s.call ⟨task, peer, cap⟩
  | .strike index r => do
    let gate ← s.gates[index]?
    some (s.setGate index gate (gate.semaphore.cancel r))
  | .resume index r => s.resume index r
  | .release index r =>
    -- `_released` makes every call after the first return at once
    if (index, r) ∈ s.admitted then do
      let gate ← s.gates[index]?
      let s := s.setGate index gate gate.semaphore.release
      some { s with admitted := s.admitted.erase (index, r) }
    else some s
  | .tick elapsed => if 0 ≤ elapsed then some { s with now := s.now + elapsed } else none

end PeerState

/-- Requests of one process, in the order their tasks run. -/
abbrev runPeers (lower : String → String) (now : ℚ) (acts : List PeerAct) : Option PeerState :=
  Machine.run (PeerState.step lower) (.empty now) acts

end PeerGates

end Unhardcoded.Source

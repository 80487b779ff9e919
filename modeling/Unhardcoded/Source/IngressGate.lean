import Mathlib.Algebra.Order.Ring.Rat
import Unhardcoded.Effects.Machine
import Unhardcoded.Effects.Semaphore

/-!
# The ingress capacity gate

Source: `_capacity_acquire`, `_capacity_release` and the `capacity_released` flag of
`_finish` in auth_proxy.py. A coroutine runs undisturbed from one suspension to the
next, so a step is what one task does in between; only a queued acquire suspends.
`asyncio.wait_for` around it cancels the acquire when its time is up.
-/

namespace Unhardcoded.Source

open Effects

namespace IngressGate

structure Config where
  maxInflightRequests : Nat
  maxPendingRequests : Nat
  capacityQueueTimeoutS : ℚ

/-- How `_capacity_acquire` ends. -/
inductive Outcome where
  | admitted
  | refused
  /-- `CancelledError`. -/
  | cancelled
  deriving DecidableEq, Repr

structure GateState where
  /-- `_capacity`; `None` is no bound. -/
  capacity : Option (Semaphore Nat)
  activeRequests : Nat
  pendingRequests : Nat
  /-- Tasks whose acquire `wait_for` cancels before it starts, its timeout not being positive. -/
  expiring : List Nat
  /-- Queued tasks that were cancelled themselves. -/
  interrupted : List Nat
  /-- Admitted requests that have not finished. -/
  holding : List Nat
  answers : List (Nat × Outcome)
  deriving DecidableEq, Repr

inductive GateAct where
  /-- A request calls `_capacity_acquire`. -/
  | enter (task : Nat)
  /-- The queue timeout of a waiting task. -/
  | expire (task : Nat)
  /-- A waiting task is cancelled. -/
  | cancel (task : Nat)
  /-- A waiting task runs again. -/
  | resume (task : Nat)
  /-- `_finish` of a request, any number of times. -/
  | finish (task : Nat)
  deriving DecidableEq, Repr

namespace GateState

/-- The state after startup. -/
def start (config : Config) : GateState where
  capacity := if config.maxInflightRequests > 0 then some (.create config.maxInflightRequests) else none
  activeRequests := 0
  pendingRequests := 0
  expiring := []
  interrupted := []
  holding := []
  answers := []

/-- The tasks in the semaphore's queue. -/
def queued (s : GateState) : List Nat := s.capacity.elim [] Semaphore.tasks

/-- The tasks inside `_capacity_acquire`. -/
def waiting (s : GateState) : List Nat := s.queued ++ s.expiring

def letIn (s : GateState) (task : Nat) : GateState :=
  { s with
    activeRequests := s.activeRequests + 1
    holding := s.holding ++ [task]
    answers := s.answers ++ [(task, .admitted)] }

/-- The `finally` of a queued acquire. -/
def dequeue (s : GateState) : GateState := { s with pendingRequests := s.pendingRequests - 1 }

/-- A queued acquire ends without the permit. -/
def leave (s : GateState) (task : Nat) : GateState :=
  { s.dequeue with
    interrupted := s.interrupted.erase task
    answers := s.answers ++ [(task, if task ∈ s.interrupted then .cancelled else .refused)] }

/-- `_capacity_acquire` up to where it returns or waits. -/
def enter (config : Config) (s : GateState) (task : Nat) : GateState :=
  match s.capacity with
  | none => s.letIn task
  | some capacity =>
    if capacity.locked then
      if s.pendingRequests ≥ config.maxPendingRequests then { s with answers := s.answers ++ [(task, .refused)] }
      else
        let s := { s with pendingRequests := s.pendingRequests + 1 }
        if config.capacityQueueTimeoutS ≤ 0 then { s with expiring := s.expiring ++ [task] }
        else { s with capacity := some (capacity.acquire task).2 }
    else { s with capacity := some (capacity.acquire task).2 }.letIn task

/-- A cancellation that reaches a queued task. -/
def strike (s : GateState) (task : Nat) : GateState :=
  { s with capacity := s.capacity.map fun capacity => capacity.cancel task }

/-- A queued task goes on in `_capacity_acquire`. -/
def resume (s : GateState) (task : Nat) : Option GateState :=
  if task ∈ s.expiring then some ({ s with expiring := s.expiring.erase task }.leave task)
  else do
    let capacity ← s.capacity
    let (acquired, capacity) ← capacity.resume task
    let s := { s with capacity := some capacity }
    some (if acquired then s.dequeue.letIn task else s.leave task)

/-- `_capacity_release`. -/
def release (s : GateState) : GateState :=
  { s with
    activeRequests := s.activeRequests - 1
    capacity := s.capacity.map Semaphore.release }

def step (config : Config) (s : GateState) : GateAct → Option GateState
  | .enter task => if task ∈ s.waiting ∨ task ∈ s.holding then none else some (s.enter config task)
  | .expire task => if task ∈ s.queued then some (s.strike task) else none
  | .cancel task =>
    if task ∈ s.waiting then some ({ s with interrupted := s.interrupted ++ [task] }.strike task) else none
  | .resume task => s.resume task
  | .finish task =>
    -- `capacity_released` makes every call after the first return at once
    if task ∈ s.holding then some { s.release with holding := s.holding.erase task } else some s

end GateState

/-- Requests of one process, in the order their tasks run. -/
abbrev runGate (config : Config) (acts : List GateAct) : Option GateState :=
  Machine.run (GateState.step config) (.start config) acts

end IngressGate

end Unhardcoded.Source

import Unhardcoded.Effects.Machine
import Unhardcoded.Source.FlowData
import Unhardcoded.Source.StreamTail

/-!
# The proxied stream

The streaming branch of `proxy` in auth_proxy.py, from the start of its pump task: `_pump`,
`_client_left`, `_account`, `_finish`, `_settle_reservation` and `_passthrough` over one
`asyncio.Queue` of Python 3.12. A coroutine runs undisturbed from one suspension to the
next, and `wait_for` runs its put in the same task, so a step is what one task does up to
where it waits again. `CancelledError`, a timeout and an error of `aclose` are steps of
their own. Of the record of the request the status and the cost are kept.
`_record_request` does not raise. At the end of the upstream `r.aiter_raw` closes the
response itself, in the `try` of `_pump`, and `r.aclose` has nothing left to do; after a
failure, a cancellation or a `break` it closes the response in the `finally`.
-/

namespace Unhardcoded.Source.ProxyStream

open Effects Python
open Unhardcoded.Source.FlowData (number?)
open Unhardcoded.Source.StreamTail (parseStreamTail trimSseTail)

abbrev Bytes := List UInt8

structure Config where
  /-- `STREAM_DRAIN_MAX_BYTES` -/
  streamDrainMaxBytes : Nat
  /-- `CLOUD_BUDGET_RESERVATION_USD` -/
  cloudBudgetReservationUsd : ℚ
  /-- `json.loads` of a number with a fraction or an exponent. -/
  float : String → Json

/-- What the pump is started with. -/
structure Request where
  status : Int
  /-- `monthly_budget_usd` of a key with a budget. -/
  budgetLimit : Option ℚ

/-- `reservation["amount"]` -/
def Request.amount (req : Request) (config : Config) : Option ℚ := req.budgetLimit.map (min config.cloudBudgetReservationUsd)

/-- The cost that `_account` reads. -/
def reportedCost (config : Config) (tail : Bytes) : Option ℚ := do
  let xr ← (parseStreamTail config.float tail).xRouter
  number? (xr.field "cost_usd")

section State

inductive Item where
  | chunk (bytes : Bytes)
  /-- `failure`, which is `None` at the end of a stream. -/
  | marker (failed : Bool)
  deriving DecidableEq

/-- Where the pump task waits. -/
inductive Pump where
  /-- In `r.aiter_raw()`. -/
  | reading
  /-- In `queue.put(chunk)`. -/
  | putting (chunk : Bytes)
  /-- Closing the response at the end of `r.aiter_raw()`. -/
  | finishing
  /-- In `r.aclose()` of the `finally`. -/
  | closing (failed : Bool)
  /-- In `queue.put(failure)`. -/
  | ending (failed : Bool)
  /-- The task has ended. -/
  | ended
  deriving DecidableEq

/-- Where the generator of the response is. -/
inductive Reader where
  /-- Before its first step, or at a `yield`. -/
  | suspended
  /-- In `queue.get()`. -/
  | waiting
  | returned
  | raised
  /-- The client disconnected. -/
  | left
  deriving DecidableEq

structure State where
  queue : List Item
  /-- `client_gone_at is not None` -/
  clientGone : Bool
  /-- `call_later(STREAM_DRAIN_TIMEOUT_S, pump.cancel)` is to come. -/
  timer : Bool
  drainComplete : Bool
  pumpFinished : Bool
  tail : Bytes
  drained : Nat
  pump : Pump
  reader : Reader
  costUsd : Option ℚ
  capacityReleased : Bool
  /-- `reservation["done"]` -/
  reservationDone : Bool
  /-- The calls of `_record_request`: status and cost. -/
  recorded : List (Int × Option ℚ)
  /-- The calls of `_submit_settle`. -/
  settled : List (Option ℚ)
  /-- The calls of `_capacity_release`. -/
  released : Nat
  /-- The chunks of the upstream so far. -/
  received : List Bytes
  /-- The upstream ended normally. -/
  upstreamEnded : Bool
  /-- The chunks yielded to the client. -/
  yielded : List Bytes
  deriving DecidableEq

def State.start : State where
  queue := []
  clientGone := false
  timer := false
  drainComplete := false
  pumpFinished := false
  tail := []
  drained := 0
  pump := .reading
  reader := .suspended
  costUsd := none
  capacityReleased := false
  reservationDone := false
  recorded := []
  settled := []
  released := 0
  received := []
  upstreamEnded := false
  yielded := []

def maxsize : Nat := 64

end State

section Books

/-- `_settle_reservation` -/
def State.settleReservation (config : Config) (req : Request) (s : State) (cost : Option ℚ) : State :=
  if (req.amount config).isNone || s.reservationDone then s
  else { s with reservationDone := true, settled := s.settled ++ [cost] }

/-- `_finish` -/
def State.finish (config : Config) (req : Request) (s : State) : State :=
  if s.capacityReleased then s
  else
    let s := { s with capacityReleased := true, recorded := s.recorded ++ [(req.status, s.costUsd)] }
    let s := s.settleReservation config req
      (if s.costUsd.isSome || decide (400 ≤ req.status) then s.costUsd else req.amount config)
    { s with released := s.released + 1 }

/-- `_account` -/
def State.account (config : Config) (req : Request) (s : State) : State :=
  let s := match reportedCost config s.tail with
    | some cost => { s with costUsd := some cost }
    | none => s
  if s.clientGone && !s.drainComplete && s.costUsd.isNone && decide (req.status < 400) then
    { s with costUsd := some config.cloudBudgetReservationUsd }
  else s

end Books

section Steps

/-- `_client_left` -/
def State.clientLeft (s : State) : State :=
  if s.clientGone || s.pumpFinished then s
  else { s with clientGone := true, queue := [], timer := true }

/-- The rest of the loop's body once the client is gone. -/
def State.drain (config : Config) (s : State) (chunk : Bytes) : State :=
  let s := { s with drained := s.drained + chunk.length }
  { s with pump := if s.drained > config.streamDrainMaxBytes then .closing false else .reading }

/-- A chunk of the upstream. -/
def State.chunk (config : Config) (s : State) (chunk : Bytes) : State :=
  let s := { s with received := s.received ++ [chunk], tail := trimSseTail (s.tail ++ chunk) }
  if s.clientGone then s.drain config chunk
  else if s.queue.length < maxsize then { s with queue := s.queue ++ [.chunk chunk] }
  else { s with pump := .putting chunk }

/-- The `finally` of `_pump` after `_close_upstream_stream`. -/
def State.closed (config : Config) (req : Request) (s : State) (failed : Bool) : State :=
  let s := (s.account config req).finish config req
  let s := { s with pumpFinished := true }
  if s.clientGone then { s with pump := .ended }
  else if s.queue.length < maxsize then { s with queue := s.queue ++ [.marker failed], pump := .ended }
  else { s with pump := .ending failed }

/-- `CancelledError` where the pump waits. -/
def State.cancelPump (config : Config) (req : Request) (s : State) : State :=
  match s.pump with
  | .reading | .putting _ => { s with pump := .closing false }
  | .finishing => s.closed config req false
  | .closing _ | .ending _ | .ended => { s with pump := .ended }

/-- `queue.get()` returns. -/
def State.take (s : State) : Option State :=
  match s.queue with
  | [] => none
  | .chunk bytes :: rest => some { s with queue := rest, reader := .suspended, yielded := s.yielded ++ [bytes] }
  | .marker false :: rest => some { s with queue := rest, reader := .returned }.clientLeft
  | .marker true :: rest => some { s with queue := rest, reader := .raised }.clientLeft

inductive Action where
  /-- The response asks the generator for more. -/
  | next
  | take
  /-- The client disconnects: the generator is closed, or the background task runs. -/
  | leave
  | chunk (bytes : Bytes)
  | upstreamEnds
  | upstreamFails
  /-- `r.aiter_raw()` has closed the response. -/
  | finished
  /-- Closing it raises there. -/
  | finishFails
  /-- The put for which the pump waits is done. -/
  | put
  /-- It has waited for `STREAM_DRAIN_TIMEOUT_S`. -/
  | putTimeout
  /-- `r.aclose()` of the `finally` returns. -/
  | closed
  /-- It raises. -/
  | closeFails
  /-- `pump.cancel` -/
  | drainTimeout
  deriving DecidableEq

def step (config : Config) (req : Request) (s : State) : Action → Option State
  | .next => if s.reader = .suspended then some { s with reader := .waiting } else none
  | .take => if s.reader = .waiting then s.take else none
  | .leave => if s.reader = .suspended ∨ s.reader = .waiting then some { s with reader := .left }.clientLeft else some s.clientLeft
  | .chunk bytes => if s.pump = .reading then some (s.chunk config bytes) else none
  | .upstreamEnds =>
    if s.pump = .reading then some { s with upstreamEnded := true, pump := .finishing } else none
  | .upstreamFails => if s.pump = .reading then some { s with pump := .closing true } else none
  | .finished =>
    if s.pump = .finishing then some ({ s with drainComplete := true }.closed config req false) else none
  | .finishFails => if s.pump = .finishing then some (s.closed config req true) else none
  | .put =>
    if s.queue.length < maxsize then
      match s.pump with
      | .putting chunk => some { s with queue := s.queue ++ [.chunk chunk], pump := .reading }
      | .ending failed => some { s with queue := s.queue ++ [.marker failed], pump := .ended }
      | _ => none
    else none
  | .putTimeout =>
    match s.pump with
    | .putting chunk => some (s.clientLeft.drain config chunk)
    | .ending _ => some { s with pump := .ended }
    | _ => none
  | .closed =>
    match s.pump with
    | .closing failed => some (s.closed config req failed)
    | _ => none
  | .closeFails =>
    match s.pump with
    | .closing _ => some { s with pump := .ended }
    | _ => none
  | .drainTimeout => if s.timer then some { s.cancelPump config req with timer := false } else none

abbrev runStream (config : Config) (req : Request) (acts : List Action) : Option State :=
  Machine.run (step config req) .start acts

end Steps

end Unhardcoded.Source.ProxyStream

import Unhardcoded.Effects.Machine

/-!
# The control server's mutation queue

Source: antseed/queue.js. A request carries the variables of one `serialize` call
and the stage its link of the promise chain has reached. Each event is one
callback: the budget timer's, a promise job of the link (`gate`, the call of
`fn`, the report to the caller, the link's own settling), or the environment
settling `fn`'s promise. Jobs of different links may run in any order, and
nothing is assumed of the timer host: a callback may come after `clearTimer`, or
twice. Values are of type `V`, thrown ones of type `E`.
-/

namespace Unhardcoded.Source

open Effects

namespace SerialQueue

/-- What a call of `onTimeout` comes to. -/
inductive TimeoutReply (V E : Type) where
  | value (v : V)
  | throws (e : E)
  /-- A promise, which `outer` then follows. -/
  | promise

/-- Where one link of the chain stands. -/
inductive Phase (V E : Type) where
  /-- `gate` has not run. -/
  | waiting
  /-- `gate` found the slot dead. -/
  | skipped
  /-- `Promise.resolve().then(fn)`, with `fn` not called yet. -/
  | admitted
  | running
  | finished (result : Except E V)
  /-- The caller's promise is settled, the link's own not yet. -/
  | reported
  /-- The link has settled: the next `gate` may run. -/
  | linked

def Phase.isLinked {V E : Type} : Phase V E → Bool
  | linked => true
  | _ => false

/-- Who settles `outer`. -/
inductive By where
  | timer | fn
  deriving DecidableEq, Repr

/-- One `serialize` call. `calls` counts the calls of `fn`, `answers` lists the
settlements of `outer`, and `following` says that `outer` is locked to the
promise `onTimeout` returned. -/
structure Request (V E : Type) where
  queuedAt : Int
  onTimeout : Int → TimeoutReply V E
  settled : Bool
  phase : Phase V E
  calls : Nat
  following : Bool
  answers : List (By × Except E V)

inductive Event (V E : Type) where
  | timer (now : Int)
  | follow (result : Except E V)
  | gate
  | call
  | finish (result : Except E V)
  | report
  | relay

variable {V E : Type}

namespace Request

/-- A request as `serialize` leaves it. -/
def queued (now : Int) (onTimeout : Int → TimeoutReply V E) : Request V E :=
  ⟨now, onTimeout, false, .waiting, 0, false, []⟩

/-- A settlement of `outer`. -/
def answer (r : Request V E) (who : By) (result : Except E V) : Request V E :=
  { r with answers := r.answers ++ [(who, result)] }

/-- The timer's callback. -/
def timer (r : Request V E) (now : Int) : Request V E :=
  if r.settled then r
  else
    let r := { r with settled := true }
    match r.onTimeout (now - r.queuedAt) with
    | .value v => r.answer .timer (.ok v)
    | .throws e => r.answer .timer (.error e)
    | .promise => { r with following := true }

/-- `gate`, which the previous link's settling runs whichever way it settled. -/
def gate (r : Request V E) : Request V E :=
  if r.settled then { r with phase := .skipped } else { r with settled := true, phase := .admitted }

/-- One callback of this request, where it can come. -/
def step (r : Request V E) : Event V E → Option (Request V E)
  | .timer now => some (r.timer now)
  | .follow result =>
    if r.following then some ({ r with following := false }.answer .timer result) else none
  | .gate =>
    match r.phase with
    | .waiting => some r.gate
    | _ => none
  | .call =>
    match r.phase with
    | .admitted => some { r with phase := .running, calls := r.calls + 1 }
    | _ => none
  | .finish result =>
    match r.phase with
    | .running => some { r with phase := .finished result }
    | _ => none
  | .report =>
    match r.phase with
    | .finished result => some ({ r with phase := .reported }.answer .fn result)
    | _ => none
  | .relay =>
    match r.phase with
    | .skipped | .reported => some { r with phase := .linked }
    | _ => none

end Request

/-- The requests in the order of their `serialize` calls, and the functions called
so far, oldest first. -/
structure Queue (V E : Type) where
  requests : List (Request V E)
  started : List Nat

inductive Act (V E : Type) where
  | serialize (now : Int) (onTimeout : Int → TimeoutReply V E)
  | event (i : Nat) (e : Event V E)

namespace Queue

/-- `createQueue`. -/
def empty : Queue V E := ⟨[], []⟩

/-- `chain` as the `i`th call found it has settled: it is the previous link, or
`Promise.resolve()`. -/
def turn (q : Queue V E) : Nat → Bool
  | 0 => true
  | i + 1 => q.requests[i]?.any (·.phase.isLinked)

/-- A callback waits for its link of the chain only where it is `gate`. -/
def ready (q : Queue V E) (i : Nat) : Event V E → Bool
  | .gate => q.turn i
  | _ => true

/-- The log of calls after an event. -/
def log (q : Queue V E) (i : Nat) : Event V E → List Nat
  | .call => q.started ++ [i]
  | _ => q.started

def step (q : Queue V E) : Act V E → Option (Queue V E)
  | .serialize now onTimeout => some { q with requests := q.requests ++ [.queued now onTimeout] }
  | .event i e =>
    if q.ready i e then do
      let r ← q.requests[i]?
      let r ← r.step e
      return ⟨q.requests.set i r, q.log i e⟩
    else none

end Queue

/-- A run of `createQueue`'s result. -/
abbrev runQueue (acts : List (Act V E)) : Option (Queue V E) := Machine.run Queue.step .empty acts

end SerialQueue

end Unhardcoded.Source

import Unhardcoded.Python.Number

/-!
# The scarcity signal of the Codex source

Source: sources/codex.py. The adapter pushes one signal a call, and the source keeps
the last 500; every query folds over what is kept. A query reads the clock once. The
knobs are what `settings.get` returns; `float` is the built-in on a text.
-/

namespace Unhardcoded.Source.CodexScarcity

open Unhardcoded.Python

structure Signal where
  status : Int
  headers : List (String × String)
  ts : Option Int

structure Knobs where
  demoteStart : Flt
  shed429 : Flt
  window429S : Flt

/-- `deque(maxlen=500)`. -/
def MAXLEN : Nat := 500

/-- `self._events.append(signal)`: a full deque drops its oldest entry. -/
def append (events : List Signal) (signal : Signal) : List Signal :=
  (events ++ [signal]).drop ((events ++ [signal]).length - MAXLEN)

/-- `ingest` of one signal after another, from a new source. -/
def ingest (signals : List Signal) : List Signal := signals.foldl append []

def isReset (name : String) : Bool := contains "reset" (lower name) || lower name = "retry-after"

variable (float : String → Option Flt)

/-- `_reset_at`, at the clock reading `now`. -/
def resetAt (now : ℚ) (ts : Option Int) : List (String × String) → Except Raised (Option Int)
  | [] => .ok none
  | (name, raw) :: headers =>
    if !isReset name then resetAt now ts headers
    else match float (strip raw) with
      | none => resetAt now ts headers
      | some v =>
        if v.le (.fin 0) then resetAt now ts headers
        else if (Flt.fin (10 ^ 9)).lt v then v.toInt.map some
        else match v with
          | .fin q => .ok (some (towardZero (ts.getD (towardZero now) + q)))
          | v => v.toInt.map some

/-- What `_balances_sync` accumulates over the kept signals. -/
structure Pressure where
  usedFraction : Option Flt
  observedHeaders : List (String × String)
  last429At : Option Int
  recent429 : Nat
  resetAt : Option Int
  deriving DecidableEq

def Pressure.none : Pressure := ⟨.none, [], .none, 0, .none⟩

/-- `float(v) / 100.0`. -/
def percent : Flt → Flt
  | .fin q => .fin (q / 100)
  | v => v

/-- One header of a signal: its value is observed, and a percentage that parses is the
used fraction from here on. -/
def observeHeader (p : Pressure) (header : String × String) : Pressure :=
  let p := { p with observedHeaders := insert header.1 header.2 p.observedHeaders }
  if contains "used-percent" header.1 then
    match float header.2 with
    | some v => { p with usedFraction := some (percent v) }
    | none => p
  else p

/-- `at is not None and (reset_at is None or at > reset_at)`. -/
def later : Option Int → Option Int → Option Int
  | some reset, some at' => some (if reset < at' then at' else reset)
  | none, some at' => some at'
  | reset, none => reset

/-- `ts is None or (now_ts - ts) <= window`. -/
def recent (knobs : Knobs) (now : ℚ) (ts : Option Int) : Bool :=
  ts.all fun ts => (Flt.fin (towardZero now - ts)).le knobs.window429S

/-- One kept signal. -/
def observe (knobs : Knobs) (now : ℚ) (p : Pressure) (e : Signal) : Except Raised Pressure :=
  let p := e.headers.foldl (observeHeader float) p
  if e.status = 429 then do
    let reset ← resetAt float now e.ts e.headers
    pure { p with
      last429At := e.ts
      recent429 := if recent knobs now e.ts then p.recent429 + 1 else p.recent429
      resetAt := later p.resetAt reset }
  else pure p

/-- `_balances_sync`: the value and the detail of the balance. -/
def balancesSync (knobs : Knobs) (now : ℚ) (events : List Signal) : Except Raised Pressure :=
  events.foldlM (observe float knobs now) .none

/-- `max(0.0, (float(used) - start) / (1.0 - start)) if used is not None and start < 1.0 else 0.0`. -/
def headerFrac (start : Flt) (used : Option Flt) : Except Raised Flt :=
  match used with
  | some used =>
    if start.lt (.fin 1) then do
      let ramp ← (used.sub start).div (Flt.sub (.fin 1) start)
      pure (Flt.max (.fin 0) ramp)
    else pure (.fin 0)
  | none => pure (.fin 0)

/-- `min(1.0, recent_429 / shed) if shed > 0 else 0.0`. -/
def rlFrac (shed : Flt) (recent429 : Nat) : Except Raised Flt :=
  if (Flt.fin 0).lt shed then do
    let ramp ← (Flt.fin recent429).div shed
    pure (Flt.min (.fin 1) ramp)
  else pure (.fin 0)

/-- `reset_at is not None and time.time() < reset_at`. -/
def held (now : ℚ) (reset : Option Int) : Bool := reset.any fun epoch : Int => now < epoch

def resetFrac (now : ℚ) (reset : Option Int) : Flt := if held now reset then .fin 1 else .fin 0

/-- `_demote_frac`. -/
def demoteFrac (knobs : Knobs) (now : ℚ) (events : List Signal) : Except Raised Flt := do
  let detail ← balancesSync float knobs now events
  let header ← headerFrac knobs.demoteStart detail.usedFraction
  let rl ← rlFrac knobs.shed429 detail.recent429
  pure (Flt.max (.fin 0) (Flt.min (.fin 1) (Flt.max (Flt.max header rl) (resetFrac now detail.resetAt))))

end Unhardcoded.Source.CodexScarcity

import Mathlib.Algebra.Order.Ring.Int
import Unhardcoded.Effects.GroupBy
import Unhardcoded.Effects.Latest
import Unhardcoded.Source.CallLedger

/-!
# What one session cost and where it is warm

The views of `calls` by session in host_store.py (`hot_route`, `session_totals`, `session_warm`,
`session_owner`), with `insert_call` and `_prune` for the columns that they read, and their
callers in shim.py: `session_meter`, and the session part of `_build_x_router`. Amounts are
exact, and families compare by code points. The operator's list of all sessions is left out.
-/

namespace Unhardcoded.Source.SessionMeter

open Effects Effects.GroupBy Python
open CallLedger (Env costOf statusOf)

/-! ## The ledger -/

/-- What `insert_call` is given. -/
structure Entry where
  ts : Option Int
  session : Option String
  caller : Option String
  provider : Option String
  modelFamily : Option String
  servedBy : Option String
  status : Json
  tokensIn : Option Int
  tokensOut : Option Int
  tokensCached : Option Int
  costUsd : Json

/-- A row of `calls` but for its id. -/
structure Row where
  ts : Int
  sessionId : Option String
  caller : Option String
  providerId : Option String
  modelFamily : Option String
  servedBy : Option String
  status : Option Int
  tokensIn : Option Int
  tokensOut : Option Int
  tokensCached : Option Int
  costUsd : Option ℚ
  deriving DecidableEq

structure Call where
  id : Nat
  row : Row

/-- The row of an entry, where no conversion raises. -/
def Entry.row (env : Env) (e : Entry) (now : Int) : Option Row :=
  (costOf env e.costUsd).map fun cost =>
    { ts := match e.ts with
        | some ts => if ts ≠ 0 then ts else now
        | none => now
      sessionId := e.session
      caller := e.caller
      providerId := e.provider
      modelFamily := e.modelFamily
      servedBy := e.servedBy
      status := statusOf env e.status
      tokensIn := e.tokensIn
      tokensOut := e.tokensOut
      tokensCached := e.tokensCached
      costUsd := cost }

structure Ledger where
  /-- In the order of their ids. -/
  calls : List Call
  nextId : Nat

def Ledger.empty : Ledger := ⟨[], 1⟩

/-- `insert_call`: an identity is used up where the transaction is rolled back. -/
def Ledger.insertCall (env : Env) (s : Ledger) (e : Entry) (now : Int) (raises : Bool) : Ledger :=
  match e.row env now with
  | some row => ⟨if raises then s.calls else s.calls ++ [⟨s.nextId, row⟩], s.nextId + 1⟩
  | none => s

section Reads

variable (retentionDays : Int)

/-- `int(time.time()) - _retention_days() * 86_400`. -/
def floor (now : Int) : Int := now - retentionDays * 86400

/-- `_prune` on `calls`. -/
def Ledger.prune (s : Ledger) (now : Int) : Ledger := { s with calls := s.calls.filter fun c => floor retentionDays now ≤ c.row.ts }

/-- `_session_where`. -/
def sessionWhere (now : Int) (session : String) (owner : Option String) (r : Row) : Bool :=
  r.sessionId = some session && floor retentionDays now ≤ r.ts && owner.all fun owner => r.caller = some owner

/-- `ORDER BY ts DESC, id DESC LIMIT 1`. -/
def newest (calls : List Call) : Option Call := @Latest.latest Call Int Int.instLinearOrder (·.row.ts) (·.id) calls

/-- `ORDER BY ts ASC, id ASC LIMIT 1`. -/
def oldest (calls : List Call) : Option Call := @Latest.earliest Call Int Int.instLinearOrder (·.row.ts) (·.id) calls

/-- `f"{row[0]}|{row[1]}|{row[2]}"`. -/
def routeText (r : Row) : String :=
  r.providerId.getD "None" ++ "|" ++ r.modelFamily.getD "None" ++ "|" ++ r.servedBy.getD "None"

def succeeded (r : Row) : Bool := r.status.any (· < 400)

variable (now : Int) (session : String) (owner : Option String) (calls : List Call)

/-- The rows of the query. -/
def sessionCalls : List Call := calls.filter fun c => sessionWhere retentionDays now session owner c.row

/-- `hot_route`, where the store answers. -/
def hotRoute : Option String :=
  if session = "" then none
  else (newest ((sessionCalls retentionDays now session owner calls).filter fun c => succeeded c.row && c.row.servedBy.isSome)).map
    fun c => routeText c.row

structure Totals where
  calls : Int
  tokensIn : Int
  tokensOut : Int
  tokensCached : Int
  costUsd : ℚ
  deriving DecidableEq

/-- `_SESSION_TOTALS_ZERO`. -/
def Totals.zero : Totals := ⟨0, 0, 0, 0, 0⟩

/-- The aggregates of some rows. -/
def totalsOf (rows : List Row) : Totals :=
  ⟨rows.length, (rows.map fun r => r.tokensIn.getD 0).sum, (rows.map fun r => r.tokensOut.getD 0).sum,
    (rows.map fun r => r.tokensCached.getD 0).sum, FlowCost.round (rows.map fun r => r.costUsd.getD 0).sum 6⟩

/-- `session_totals`, where the store answers. -/
def sessionTotals : Totals :=
  if session = "" then .zero else totalsOf ((sessionCalls retentionDays now session owner calls).map (·.row))

structure Warm where
  family : String
  provider : Option String
  servedBy : Option String
  deriving DecidableEq

/-- `{"family": f, "provider": p, "served_by": s or p}`. -/
def warmOf (family : String) (r : Row) : Warm :=
  ⟨family, r.providerId, match r.servedBy with
    | some text => if text = "" then r.providerId else some text
    | none => r.providerId⟩

def familyOf (c : Call) : String := c.row.modelFamily.getD ""

/-- `session_warm`, where the store answers. -/
def sessionWarm : List Warm :=
  if session = "" then []
  else
    let rows := (sessionCalls retentionDays now session owner calls).filter fun c => succeeded c.row && c.row.modelFamily.isSome
    ((byKey (groupBy familyOf newest rows)).filterMap fun entry => entry.2.map fun c => warmOf entry.1 c.row).take 64

/-- `session_owner`, where the store answers. -/
def sessionOwner : Option String :=
  if session = "" then none else (oldest (sessionCalls retentionDays now session none calls)).bind (·.row.caller)

/-- Which queries of one request the store answers. -/
structure Answers where
  owner : Bool
  totals : Bool
  warm : Bool

structure Meter where
  totals : Totals
  warm : List Warm
  deriving DecidableEq

/-- `session_meter` with the header that the ingress sets; `none` is the reply 404. -/
def sessionMeter (answers : Answers) (caller : String) : Option Meter :=
  let scope := if caller = "" then none else some caller
  let foreign : Bool := match scope with
    | some caller => (if answers.owner then sessionOwner retentionDays now session calls else none) ≠ some caller
    | none => false
  if foreign then none
  else some ⟨if answers.totals then sessionTotals retentionDays now session scope calls else .zero,
    if answers.warm then sessionWarm retentionDays now session scope calls else []⟩

/-- A response's own counts. -/
structure Usage where
  tokensIn : Int
  tokensOut : Int
  tokensCached : Int
  costUsd : ℚ

/-- `session_acc` of `_build_x_router`. -/
def sessionAcc (answers : Bool) (usage : Usage) : Totals :=
  let prior := if answers then sessionTotals retentionDays now session owner calls else .zero
  ⟨prior.calls + 1, prior.tokensIn + usage.tokensIn, prior.tokensOut + usage.tokensOut,
    prior.tokensCached + usage.tokensCached, FlowCost.round (prior.costUsd + usage.costUsd) 6⟩

end Reads

/-! ## Runs -/

inductive Event where
  /-- The writer takes an entry from its queue. -/
  | landed (e : Entry) (now : Int) (raises : Bool)
  | pruned (now : Int)

def step (env : Env) (retentionDays : Int) (s : Ledger) : Event → Ledger
  | .landed e now raises => s.insertCall env e now raises
  | .pruned now => s.prune retentionDays now

def runLedger (env : Env) (retentionDays : Int) (events : List Event) : Ledger := events.foldl (step env retentionDays) .empty

end Unhardcoded.Source.SessionMeter

import Mathlib.Algebra.Order.Ring.Rat
import Mathlib.Data.Rat.Floor
import Unhardcoded.Effects.Machine
import Unhardcoded.Effects.Paging

/-!
# The call ledger, its writer and the usage export

Source: `usage_export`, `ledger_watermark`, `insert_call_async` and the writer loop
of host_store.py, in one process, each SQL query a step of its own. Of a ledger
row only what the export's queries compare is kept. Rows are neither dropped nor
pruned: the queue takes every call, every insert commits, and the retention floor
of `_usage_where` lies below every `ts`. The database's identity sequence and its
clock, which stamps `recorded_at`, do not step back; the stamps of calls and
exports are arbitrary.
-/

namespace Unhardcoded.Source

open Effects

namespace UsageExport

/-- A call, as `insert_call_async` snapshots it. -/
structure Call where
  caller : Option String
  projectId : Option String
  environmentId : Option String
  ts : Int
  deriving DecidableEq

/-- A row of `calls`; `recordedAt` is `COALESCE(recorded_at,0)`. -/
structure Row where
  id : Nat
  call : Call
  recordedAt : ℚ
  deriving DecidableEq

/-- The `WHERE` of the export: a caller, and a project and environment of it. -/
structure Filter where
  caller : String
  scope : Option (String × String)
  deriving DecidableEq

def Filter.wants (f : Filter) (c : Call) : Bool :=
  c.caller = some f.caller ∧
    ∀ s ∈ f.scope, c.projectId = some s.1 ∧ c.environmentId = some s.2

/-- What the writer thread is doing: waiting, before the commit of its job, or
between the commit and `_pending_done`. -/
inductive Writer where
  | idle
  | writing (c : Call)
  | wrote (c : Call)
  deriving DecidableEq

/-- How far an export has come; `committed` is how many rows its second query saw. -/
inductive Phase where
  | stamped
  | paged (rows : List Row)
  | scanned (rows : List Row) (oldest : Option Int) (committed : Nat)
  | returned (rows : List Row) (watermarkTs : Int)
  deriving DecidableEq

/-- One `usage_export` call: its arguments and its stamp, with the cursor its paging
sequence started from and the rows of the pages before it. -/
structure Export where
  filter : Filter
  afterId : Nat
  limit : Nat
  stamp : ℚ
  start : Nat
  earlier : List Row
  phase : Phase
  deriving DecidableEq

/-- `enqueued` lists every call, in the order of its enqueue; the first `done` of
them have left `_pending_ts`. -/
structure State where
  enqueued : List Call
  queue : List Call
  writer : Writer
  rows : List Row
  pending : List Int
  done : Nat
  exports : List Export
  deriving DecidableEq

def State.empty : State := ⟨[], [], .idle, [], [], 0, []⟩

inductive Act where
  | enqueue (c : Call)
  | take
  | commit (id : Nat) (recordedAt : ℚ)
  | done
  /-- A first page behind this cursor, or the one after a page that returned. -/
  | start (filter : Filter) (afterId : Nat) (limit : Int) (stamp : ℚ)
  | next (i : Nat) (limit : Int) (stamp : ℚ)
  | page (i : Nat)
  | scan (i : Nat)
  | watermark (i : Nat)

/-- `int(x)`: truncation toward zero. -/
def int (x : ℚ) : Int := if 0 ≤ x then ⌊x⌋ else ⌈x⌉

/-- `ledger_watermark`, with `_watermark_lag_s()` the lag. -/
def ledgerWatermark (lag : ℚ) (pending : List Int) (now : ℚ) : Int :=
  let mark := int (now - lag)
  match pending.min? with
  | none => mark
  | some oldest => min mark oldest

namespace Export

/-- `rows[-1][0] if rows else after_id`. -/
def nextAfterId (e : Export) : List Row → Nat := fun rows => Paging.cursor Row.id rows e.afterId

/-- The first query. -/
def page (e : Export) (lag : ℚ) (rows : List Row) : List Row :=
  Paging.page Row.id (fun r => r.recordedAt ≤ e.stamp - lag) (rows.filter fun r => e.filter.wants r.call)
    e.afterId e.limit

/-- The second query: `min(ts)` behind the new cursor. -/
def oldest (e : Export) (rows : List Row) (next : Nat) : Option Int :=
  ((rows.filter fun r => e.filter.wants r.call && decide (next < r.id)).map (·.call.ts)).min?

/-- The watermark, capped by what the second query found. -/
def watermarkTs (e : Export) (lag : ℚ) (pending : List Int) (oldest : Option Int) : Int :=
  match oldest with
  | none => ledgerWatermark lag pending e.stamp
  | some ts => min (ledgerWatermark lag pending e.stamp) ts

end Export

/-- `max(1, int(limit))`. -/
def pageLimit (limit : Int) : Nat := (max 1 limit).toNat

namespace State

/-- The next query of the `i`th export. -/
def onExport (s : State) (i : Nat) (f : Export → Option Phase) : Option State := do
  let e ← s.exports[i]?
  let phase ← f e
  return { s with exports := s.exports.set i { e with phase } }

def step (lag : ℚ) (s : State) : Act → Option State
  | .enqueue c =>
    some { s with enqueued := s.enqueued ++ [c], queue := s.queue ++ [c], pending := c.ts :: s.pending }
  | .take =>
    match s.writer, s.queue with
    | .idle, c :: queue => some { s with writer := .writing c, queue }
    | _, _ => none
  | .commit id recordedAt =>
    match s.writer with
    | .writing c =>
      if ∀ r ∈ s.rows, r.id < id ∧ r.recordedAt ≤ recordedAt then
        some { s with writer := .wrote c, rows := s.rows ++ [⟨id, c, recordedAt⟩] }
      else none
    | _ => none
  | .done =>
    match s.writer with
    | .wrote c => some { s with writer := .idle, pending := s.pending.erase c.ts, done := s.done + 1 }
    | _ => none
  | .start filter afterId limit stamp =>
    some { s with
      exports := s.exports ++ [⟨filter, afterId, pageLimit limit, stamp, afterId, [], .stamped⟩] }
  | .next i limit stamp => do
    let e ← s.exports[i]?
    match e.phase with
    | .returned rows _ =>
      return { s with
        exports := s.exports ++ [⟨e.filter, e.nextAfterId rows, pageLimit limit, stamp, e.start,
          e.earlier ++ rows, .stamped⟩] }
    | _ => none
  | .page i => s.onExport i fun e =>
    match e.phase with
    | .stamped => some (.paged (e.page lag s.rows))
    | _ => none
  | .scan i => s.onExport i fun e =>
    match e.phase with
    | .paged rows => some (.scanned rows (e.oldest s.rows (e.nextAfterId rows)) s.rows.length)
    | _ => none
  | .watermark i => s.onExport i fun e =>
    match e.phase with
    | .scanned rows oldest _ => some (.returned rows (e.watermarkTs lag s.pending oldest))
    | _ => none

end State

/-- A run of the process, with `LEDGER_WATERMARK_LAG_S` at this value. -/
abbrev runExports (lag : ℚ) (acts : List Act) : Option State := Machine.run (State.step lag) .empty acts

end UsageExport

end Unhardcoded.Source

import Mathlib.Algebra.BigOperators.Group.List.Basic
import Mathlib.Algebra.Order.Ring.Rat
import Mathlib.Data.List.Nodup
import Unhardcoded.Effects.Machine

/-!
# The subject budget tables

Source: `reserve_subject_budget`, `settle_subject_budget` and the reservation part
of `_prune` in host_store.py. Amounts, costs and stamps are exact rationals;
`updated_at`, which nothing reads, is left out. A reserve holds the lock of its
usage row from its first statement to its commit, and a settle from its second
read on, so each of these is one step; the settle's first read is a step of its
own. A transaction that fails changes nothing and is no step, and a settle that
stops after its first read stays in `settling`.
-/

namespace Unhardcoded.Source

open Effects

namespace SubjectBudget

/-- The key of a usage row. -/
structure BudgetKey where
  tenantId : Int
  subject : String
  period : String
  deriving DecidableEq, Repr

structure Usage where
  spentUsd : ℚ
  reservedUsd : ℚ
  deriving DecidableEq

structure Reservation where
  id : String
  key : BudgetKey
  amountUsd : ℚ
  expiresAt : ℚ
  released : Bool
  deriving DecidableEq

/-- `subject_budget_usage` and `subject_budget_reservations`, the latter with its
primary key. -/
structure BudgetTables where
  usage : BudgetKey → Option Usage
  reservations : List Reservation
  unique : (reservations.map (·.id)).Nodup

/-- What `reserve_subject_budget` returns. -/
structure ReserveAnswer where
  allowed : Bool
  storeOk : Bool
  spentUsd : ℚ
  reservedUsd : ℚ
  deriving DecidableEq

/-- The slack of the admission check. -/
def tolerance : ℚ := 1 / 10 ^ 9

namespace BudgetTables

def empty : BudgetTables := ⟨fun _ => none, [], List.nodup_nil⟩

def ids (t : BudgetTables) : List String := t.reservations.map (·.id)

/-- `spent_usd` of a usage row; nothing is spent where there is none. -/
def spent (t : BudgetTables) (key : BudgetKey) : ℚ := ((t.usage key).map (·.spentUsd)).getD 0

/-- `COALESCE(sum(amount_usd),0) … AND NOT released`. -/
def live (t : BudgetTables) (key : BudgetKey) : ℚ :=
  ((t.reservations.filter fun r => r.key = key ∧ r.released = false).map (·.amountUsd)).sum

/-- `INSERT INTO subject_budget_usage … ON CONFLICT DO NOTHING`. -/
def openUsage (t : BudgetTables) (key : BudgetKey) : BudgetTables :=
  { t with usage := fun k => if k = key then some ((t.usage key).getD ⟨0, 0⟩) else t.usage k }

/-- `UPDATE subject_budget_usage … WHERE` this key. -/
def updateUsage (t : BudgetTables) (key : BudgetKey) (f : Usage → Usage) : BudgetTables :=
  { t with usage := fun k => if k = key then (t.usage key).map f else t.usage k }

/-- The sweep's `SET released=TRUE` on one row. -/
def sweepRow (key : BudgetKey) (stamp : ℚ) (r : Reservation) : Reservation :=
  if r.key = key ∧ r.released = false ∧ r.expiresAt ≤ stamp then { r with released := true } else r

@[simp] theorem sweepRow_id (key : BudgetKey) (stamp : ℚ) (r : Reservation) :
    (sweepRow key stamp r).id = r.id := by
  unfold sweepRow
  split <;> rfl

/-- The sweep of the expired reservations of one key. -/
def sweep (t : BudgetTables) (key : BudgetKey) (stamp : ℚ) : BudgetTables where
  usage := t.usage
  reservations := t.reservations.map (sweepRow key stamp)
  unique := by simpa [Function.comp_def] using t.unique

/-- `INSERT INTO subject_budget_reservations`, its primary key free. -/
def insert (t : BudgetTables) (r : Reservation) (free : r.id ∉ t.ids) : BudgetTables where
  usage := t.usage
  reservations := t.reservations ++ [r]
  unique := by
    simp only [List.map_append, List.map_cons, List.map_nil]
    exact List.nodup_append.mpr ⟨t.unique, List.nodup_singleton _, by
      intro a ha b hb
      rw [List.mem_singleton.mp hb]
      exact fun same => free (same ▸ ha)⟩

/-- `DELETE` of the rows that do not satisfy `keep`. -/
def retain (t : BudgetTables) (keep : Reservation → Bool) : BudgetTables where
  usage := t.usage
  reservations := t.reservations.filter keep
  unique := t.unique.sublist (List.filter_sublist.map _)

/-- `reserve_subject_budget`. -/
def reserve (t : BudgetTables) (key : BudgetKey) (limitUsd amountUsd : ℚ) (reservationId : String)
    (ttlS stamp : ℚ) : ReserveAnswer × BudgetTables :=
  let opened := t.openUsage key
  let spent := opened.spent key
  let swept := opened.sweep key stamp
  let reserved := swept.live key
  let amount := max 0 amountUsd
  if spent + reserved + amount ≤ limitUsd + tolerance then
    if free : reservationId ∉ swept.ids then
      (⟨true, true, spent, reserved + amount⟩,
        (swept.insert ⟨reservationId, key, amount, stamp + ttlS, false⟩ free).updateUsage key
          fun u => { u with reservedUsd := reserved + amount })
    else
      -- the primary key refuses the row and the transaction is rolled back
      (⟨false, false, 0, 0⟩, t)
  else
    (⟨false, true, spent, reserved⟩, swept.updateUsage key fun u => { u with reservedUsd := reserved })

/-- `cost` of `settle_subject_budget`; `none` is also a cost that is not finite. -/
def costOf (costUsd : Option ℚ) : ℚ := max 0 (costUsd.getD 0)

/-- The first read of `settle_subject_budget`. -/
def find (t : BudgetTables) (reservationId : String) : Option Reservation :=
  t.reservations.find? fun r => r.id = reservationId

/-- The locked part of `settle_subject_budget`: what is left after it, and the row it
consumed. -/
def settle (t : BudgetTables) (reservationId : String) (key : BudgetKey) (cost : ℚ) :
    Option (Reservation × BudgetTables) :=
  match t.find reservationId with
  | none => none
  | some r =>
    let left := t.retain fun r => r.id ≠ reservationId
    some (r, left.updateUsage key fun u => ⟨u.spentUsd + cost, left.live key⟩)

/-- The reservation part of `_prune`. -/
def pruned (now : ℚ) (r : Reservation) : Bool := r.released ∧ r.expiresAt < now - 86400

def prune (t : BudgetTables) (now : ℚ) : BudgetTables := t.retain fun r => !pruned now r

end BudgetTables

open BudgetTables

/-- A settle between its first read and its locked part. -/
structure Settling where
  id : String
  key : BudgetKey
  cost : ℚ
  deriving DecidableEq

/-- A cost booked, with the reservation as it was consumed. -/
structure Booking where
  reservation : Reservation
  key : BudgetKey
  cost : ℚ
  deriving DecidableEq

/-- The tables, the settles under way, and the history of bookings and prunes. -/
structure BudgetLedger where
  tables : BudgetTables
  settling : List Settling
  booked : List Booking
  pruned : List String

def BudgetLedger.empty : BudgetLedger := ⟨.empty, [], [], []⟩

inductive BudgetAct where
  | reserve (key : BudgetKey) (limitUsd amountUsd : ℚ) (reservationId : String) (ttlS stamp : ℚ)
  | settleRead (reservationId : String) (costUsd : Option ℚ)
  | settleBook (n : Nat)
  | prune (now : ℚ)
  deriving DecidableEq

namespace BudgetLedger

/-- The locked part of the settle `x`; a settle that finds no row books nothing. -/
def settled (s : BudgetLedger) (n : Nat) (x : Settling) : BudgetLedger :=
  match s.tables.settle x.id x.key x.cost with
  | none => { s with settling := s.settling.eraseIdx n }
  | some (r, tables) =>
    { s with tables, settling := s.settling.eraseIdx n, booked := s.booked ++ [⟨r, x.key, x.cost⟩] }

def step (s : BudgetLedger) : BudgetAct → Option BudgetLedger
  | .reserve key limitUsd amountUsd reservationId ttlS stamp =>
    some { s with tables := (s.tables.reserve key limitUsd amountUsd reservationId ttlS stamp).2 }
  | .settleRead reservationId costUsd =>
    match s.tables.find reservationId with
    | none => some s
    | some r => some { s with settling := s.settling ++ [⟨r.id, r.key, costOf costUsd⟩] }
  | .settleBook n => do
    let x ← s.settling[n]?
    return s.settled n x
  | .prune now =>
    some { s with
      tables := s.tables.prune now
      pruned := s.pruned ++ (s.tables.reservations.filter (BudgetTables.pruned now)).map (·.id) }

end BudgetLedger

/-- A run of transactions by any number of replicas. -/
abbrev runBudget (acts : List BudgetAct) : Option BudgetLedger :=
  Machine.run BudgetLedger.step .empty acts

/-- The ids the callers asked for, in order. -/
def reserveIds (acts : List BudgetAct) : List String :=
  acts.filterMap fun
    | .reserve _ _ _ reservationId _ _ => some reservationId
    | _ => none

end SubjectBudget

end Unhardcoded.Source

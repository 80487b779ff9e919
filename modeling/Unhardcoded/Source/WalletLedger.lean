import Mathlib.Algebra.BigOperators.Group.List.Basic
import Mathlib.Algebra.Order.Ring.Rat
import Mathlib.Algebra.Order.Monoid.WithTop
import Mathlib.Order.WithBot

/-!
# The `wallet_ops` table

Source: host_store.py:2315-2583 and the table at host_store.py:265-289. Amounts
and escrow readings are exact rationals, timestamps integers. The write-only
audit texts (`reason`, `detail`) are left out: no query and no keeper decision
reads them. The functions here are the statements themselves, on a table that
answers; the fail-soft wrappers around them are in `WalletEffects`.
-/

namespace Unhardcoded.Source

/-- `wallet_ops.outcome`. -/
inductive Outcome where
  | pending | fired | effective | ineffective | ok | failed | unknown | halted
  deriving DecidableEq, Repr

/-- The classes of keeper action a halt may name. -/
inductive HaltKind where
  | topup | reclaim
  deriving DecidableEq, Repr

/-- The dashboard's wallet mutations (shim.py `_wallet_mutate`). -/
inductive ManualVerb where
  | deposit | withdraw
  deriving DecidableEq, Repr

/-- `wallet_ops.op`: `topup`, the reclaim phases, `<verb>_manual`, `halt:<kind>`. -/
inductive WalletOp where
  | topup | reclaimSetOperator | reclaimRequestClose | reclaimWithdraw
  | manual (verb : ManualVerb)
  | halt (kind : HaltKind)
  deriving DecidableEq, Repr

def walletOpSpentOutcomes : List Outcome := [.pending, .fired, .effective, .ineffective, .unknown]
def walletOpSettledOutcomes : List Outcome := [.effective, .ineffective]
def walletOpTerminalOutcomes : List Outcome := [.effective, .ineffective, .ok, .failed, .unknown]
def walletOpErrorOutcomes : List Outcome := [.failed, .unknown]
/-- The rows `wallet_ops_open` returns. -/
def walletOpOpenOutcomes : List Outcome := [.pending, .fired]

structure Row where
  id : Nat
  ts : Int
  pid : String
  op : WalletOp
  amountUsdc : Option ℚ
  preAvailable : Option ℚ
  postAvailable : Option ℚ
  preReserved : Option ℚ
  postReserved : Option ℚ
  outcome : Outcome
  updatedAt : Int
  deriving DecidableEq

/-- `WHERE pid=… AND op=…`. -/
def Row.isOp (row : Row) (pid : String) (op : WalletOp) : Bool :=
  row.pid = pid ∧ row.op = op

/-- The table in id order, with the identity sequence that numbers it. -/
structure Ledger where
  rows : List Row
  nextId : Nat
  ordered : rows.Pairwise fun a b => a.id < b.id
  below : ∀ row ∈ rows, row.id < nextId

namespace Ledger

def empty : Ledger := ⟨[], 0, .nil, by simp⟩

/-- `INSERT`: the row takes the next identity. -/
def insert (l : Ledger) (row : Row) : Ledger where
  rows := l.rows ++ [{ row with id := l.nextId }]
  nextId := l.nextId + 1
  ordered := by
    refine List.pairwise_append.mpr ⟨l.ordered, List.pairwise_singleton _ _, ?_⟩
    intro a ha b hb
    rw [List.mem_singleton.mp hb]
    exact l.below a ha
  below := by
    intro r hr
    rcases List.mem_append.mp hr with hr | hr
    · exact Nat.lt_succ_of_lt (l.below r hr)
    · rw [List.mem_singleton.mp hr]
      exact Nat.lt_succ_self _

/-- `DELETE` of the rows that do not satisfy `keep`. -/
def retain (l : Ledger) (keep : Row → Bool) : Ledger where
  rows := l.rows.filter keep
  nextId := l.nextId
  ordered := l.ordered.filter _
  below := fun r hr => l.below r (List.mem_of_mem_filter hr)

/-- The `SET` clause of `wallet_op_finish`. -/
def close (outcome : Outcome) (postAvailable postReserved : Option ℚ) (now : Int) (row : Row) : Row :=
  { row with outcome, postAvailable, postReserved, updatedAt := now }

/-- `UPDATE … WHERE id=…` on one row. -/
def closeAt (opId : Nat) (outcome : Outcome) (postAvailable postReserved : Option ℚ) (now : Int)
    (row : Row) : Row :=
  if row.id = opId then close outcome postAvailable postReserved now row else row

@[simp] theorem closeAt_id (opId : Nat) (outcome : Outcome) (pa pr : Option ℚ) (now : Int) (row : Row) :
    (closeAt opId outcome pa pr now row).id = row.id := by
  unfold closeAt
  split <;> rfl

@[simp] theorem closeAt_isOp (opId : Nat) (outcome : Outcome) (pa pr : Option ℚ) (now : Int)
    (row : Row) (pid : String) (op : WalletOp) :
    (closeAt opId outcome pa pr now row).isOp pid op = row.isOp pid op := by
  unfold closeAt
  split <;> rfl

/-- `wallet_op_begin`: the intent row, and its id. -/
def walletOpBegin (l : Ledger) (now : Int) (pid : String) (op : WalletOp) (amountUsdc : Option ℚ)
    (preAvailable preReserved : Option ℚ) : Nat × Ledger :=
  (l.nextId, l.insert ⟨0, now, pid, op, amountUsdc, preAvailable, none, preReserved, none, .pending, now⟩)

/-- `wallet_op_finish`. -/
def walletOpFinish (l : Ledger) (now : Int) (opId : Nat) (outcome : Outcome)
    (postAvailable postReserved : Option ℚ) : Ledger where
  rows := l.rows.map (closeAt opId outcome postAvailable postReserved now)
  nextId := l.nextId
  ordered := List.pairwise_map.mpr (l.ordered.imp fun h => by simpa using h)
  below := by
    intro r hr
    obtain ⟨r', hr', rfl⟩ := List.mem_map.mp hr
    simpa using l.below r' hr'

/-- `wallet_ops_open`, in id order. -/
def walletOpsOpen (l : Ledger) (pid : String) (op : Option WalletOp) : List Row :=
  l.rows.filter fun row =>
    row.pid = pid ∧ row.outcome ∈ walletOpOpenOutcomes ∧ ∀ o ∈ op, row.op = o

/-- The newest rows of one kind with one of these outcomes, newest first. -/
def newest (l : Ledger) (pid : String) (op : WalletOp) (outcomes : List Outcome) (limit : Nat) : List Row :=
  (l.rows.filter fun row => row.isOp pid op ∧ row.outcome ∈ outcomes).reverse.take
    (max 1 (min limit 100))

def walletOpsSettled (l : Ledger) (pid : String) (op : WalletOp) (limit : Nat) : List Row :=
  l.newest pid op walletOpSettledOutcomes limit

def walletOpsTerminal (l : Ledger) (pid : String) (op : WalletOp) (limit : Nat) : List Row :=
  l.newest pid op walletOpTerminalOutcomes limit

/-- The rows `wallet_op_spend_since` aggregates. -/
def spentSince (l : Ledger) (pid : String) (op : WalletOp) (sinceTs : Int) : List Row :=
  l.rows.filter fun row =>
    row.isOp pid op ∧ sinceTs ≤ row.ts ∧ row.outcome ∈ walletOpSpentOutcomes

/-- `coalesce(sum(amount_usdc),0)`: a NULL amount adds nothing. -/
def sumUsdc (rows : List Row) : ℚ := (rows.map fun row => row.amountUsdc.getD 0).sum

/-- `wallet_ops_last_ts`: `max(ts)` over these kinds, halts aside. -/
def walletOpsLastTs (l : Ledger) (pid : String) (ops : List WalletOp) : Option Int :=
  ((l.rows.filter fun row => row.pid = pid ∧ row.op ∈ ops ∧ row.outcome ≠ .halted).map (·.ts)).max?

/-- `SELECT 1 … outcome='halted'`. -/
def walletHalted (l : Ledger) (pid : String) (kind : HaltKind) : Bool :=
  l.rows.any fun row => row.isOp pid (.halt kind) ∧ row.outcome = .halted

/-- `wallet_halt`: insert unless a halt row already stands. -/
def walletHalt (l : Ledger) (now : Int) (pid : String) (kind : HaltKind) : Ledger :=
  if l.walletHalted pid kind then l
  else l.insert ⟨0, now, pid, .halt kind, none, none, none, none, none, .halted, now⟩

/-- `wallet_clear_halt`. -/
def walletClearHalt (l : Ledger) (pid : String) (kind : HaltKind) : Ledger :=
  l.retain fun row => !(row.isOp pid (.halt kind) ∧ row.outcome = .halted)

end Ledger

/-- `{spent_usdc, last_ts, count}`; an unreadable ledger spends `⊤`. -/
structure Spend where
  spentUsdc : WithTop ℚ
  lastTs : Option Int
  count : Int

/-- `wallet_op_spend_since` on a readable table. -/
def Ledger.walletOpSpendSince (l : Ledger) (pid : String) (op : WalletOp) (sinceTs : Int) : Spend :=
  let rows := l.spentSince pid op sinceTs
  ⟨(sumUsdc rows : ℚ), (rows.map (·.ts)).max?, rows.length⟩

end Unhardcoded.Source

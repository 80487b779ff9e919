import Unhardcoded.Effects.Program
import Unhardcoded.Source.WalletLedger

/-!
# What the wallet keeper reads, writes and sends

Source: the calls wallet_keeper.py makes out of its own process memory. Each is
one operation of the keeper's programs; the world behind them is the clock and
the `wallet_ops` table. A statement may fail before it takes effect (`down`) or
after it committed (`lost`), and every `host_store` function then answers its
fail-soft value. Readings from the sidecar, the chain and the knobs, and the
replies of the control server, are whatever the environment chooses.
-/

namespace Unhardcoded.Source

open Effects

/-- What Python can raise through the keeper: task cancellation, or anything
below `Exception`. -/
inductive Exn where
  | cancelled | exception
  deriving DecidableEq, Repr

/-- One field of a JSON reply, as far as the keeper tells values apart. -/
inductive Field where
  | absent
  | bool (value : Bool)
  | other (truthy : Bool)
  deriving DecidableEq, Repr

namespace Field

def truthy : Field → Bool
  | absent => false
  | bool value => value
  | other truthy => truthy

/-- `value is False`. -/
def isFalse : Field → Bool
  | bool false => true
  | _ => false

/-- `payload.setdefault(key, True)`. -/
def setDefaultTrue : Field → Field
  | absent => bool true
  | field => field

end Field

/-- One channel of a scan reply: `id` when present and truthy, the truthiness of
`closeRequested`, and `as_float` of `reclaimable`. -/
structure Channel where
  id : Option String
  closeRequested : Bool
  reclaimable : Option ℚ
  deriving DecidableEq

/-- The fields of a control response the keeper reads. A channel entry that is
not an object is `none`; `selected` is `none` unless it is a list. -/
structure Reply where
  ok : Field
  attempted : Field
  operatorIsSelf : Bool
  channels : List (Option Channel)
  selected : Option (List String)
  deriving DecidableEq

/-- The allowlisted control verbs with the body the keeper sends. -/
inductive ControlOp where
  | deposit (amount : ℚ)
  | reclaimScan
  | reclaimSetOperator
  | reclaimRequestClose (ids : List String)
  | reclaimWithdraw (ids : List String)
  deriving DecidableEq

/-- How `control` comes back: a response, or something raised through it. -/
inductive ControlResult where
  | reply (resp : Reply)
  | raised (exn : Exn)
  deriving DecidableEq

structure Knobs where
  enabled : Bool
  minAvailableUsdc : ℚ
  topupTriggerUsdc : ℚ
  topupAmountUsdc : ℚ
  topupWalletFloorUsdc : ℚ
  topupDailyCapUsdc : ℚ
  topupCooldownS : Int
  reclaimMinUsdc : ℚ
  deriving DecidableEq

/-- A `buyer_status` row after `as_float`; `fetchedAt` (epoch ms) is `none`
unless it is a number. -/
structure BuyerStatus where
  depositsAvailable : Option ℚ
  depositsReserved : Option ℚ
  fetchedAt : Option ℚ
  deriving DecidableEq

/-- A chain reading of the antseed source; `fetchedAt` in seconds. -/
structure ChainReading where
  fetchedAt : Option ℚ
  walletUsdc : Option ℚ
  walletEth : Option ℚ
  deriving DecidableEq

/-- `provider_attempt_counts`. -/
structure AttemptCounts where
  total : Int
  ok : Int
  deriving DecidableEq

/-- One operation the keeper performs outside its own memory. The `pid` of a
control call is not sent: it names the provider the call is made for. -/
inductive Effect where
  | time
  | settings
  | controlEndpoint
  | buyerStatus (pid : String)
  | sourceBalances (pid : String)
  | providerAttemptCounts (pid : String)
  | walletOpBegin (pid : String) (op : WalletOp) (amountUsdc preAvailable preReserved : Option ℚ)
  | walletOpFinish (opId : Nat) (outcome : Outcome) (postAvailable postReserved : Option ℚ)
  | walletOpsOpen (pid : String) (op : Option WalletOp)
  | walletOpSpendSince (pid : String) (op : WalletOp) (sinceTs : Int)
  | walletOpsSettled (pid : String) (op : WalletOp) (limit : Nat)
  | walletOpsTerminal (pid : String) (op : WalletOp) (limit : Nat)
  | walletOpsLastTs (pid : String) (ops : List WalletOp)
  | walletHalt (pid : String) (kind : HaltKind)
  | walletHalted (pid : String) (kind : HaltKind)
  | walletClearHalt (pid : String) (kind : HaltKind)
  | control (pid : String) (op : ControlOp)
  deriving DecidableEq

abbrev Effect.Answer : Effect → Type
  | .time => Int
  | .settings => Option Knobs
  | .controlEndpoint => Bool
  | .buyerStatus _ => Option BuyerStatus
  | .sourceBalances _ => Option ChainReading
  | .providerAttemptCounts _ => AttemptCounts
  | .walletOpBegin .. => Option Nat
  | .walletOpFinish .. => Bool
  | .walletOpsOpen .. => List Row
  | .walletOpSpendSince .. => Spend
  | .walletOpsSettled .. => List Row
  | .walletOpsTerminal .. => List Row
  | .walletOpsLastTs .. => Option Int
  | .walletHalt .. => Bool
  | .walletHalted .. => Bool
  | .walletClearHalt .. => Bool
  | .control .. => ControlResult

/-- The fate of one statement: it answers, it fails without effect, or it
commits and the answer is lost. -/
inductive Store where
  | ok | down | lost
  deriving DecidableEq, Repr

/-- The environment's choice at one operation: seconds since the previous one,
the statement's fate, and the readings and reply it would give. -/
structure Env where
  elapsed : Int
  store : Store
  settings : Option Knobs
  configured : Bool
  status : Option BuyerStatus
  balances : Option ChainReading
  attempts : AttemptCounts
  control : ControlResult

/-- The clock and the durable table. -/
structure World where
  now : Int
  ledger : Ledger

namespace World

def advance (w : World) (elapsed : Int) : World := { w with now := w.now + elapsed }

/-- A read: the table's answer, or the fail-soft value. -/
def read {α : Type} (w : World) (store : Store) (value : Ledger → α) (failSoft : α) : α × World :=
  (match store with
    | .ok => value w.ledger
    | _ => failSoft, w)

/-- A write: what reached the table, and what the caller is told. -/
def write {α : Type} (w : World) (store : Store) (ledger : Ledger) (done failed : α) : α × World :=
  match store with
  | .ok => (done, { w with ledger })
  | .down => (failed, w)
  | .lost => (failed, { w with ledger })

end World

/-- Answer one operation. The clock moves first: an operation sees its own time. -/
def handle (op : Effect) (env : Env) (s : World) : op.Answer × World :=
  let w := s.advance env.elapsed
  match op with
  | .time => (w.now, w)
  | .settings => (env.settings, w)
  | .controlEndpoint => (env.configured, w)
  | .buyerStatus _ => (env.status, w)
  | .sourceBalances _ => (env.balances, w)
  | .providerAttemptCounts _ => (env.attempts, w)
  | .walletOpBegin pid kind amountUsdc preAvailable preReserved =>
    let begun := w.ledger.walletOpBegin w.now pid kind amountUsdc preAvailable preReserved
    w.write env.store begun.2 (some begun.1) none
  | .walletOpFinish opId outcome postAvailable postReserved =>
    w.write env.store (w.ledger.walletOpFinish w.now opId outcome postAvailable postReserved) true false
  | .walletOpsOpen pid kind => w.read env.store (·.walletOpsOpen pid kind) []
  | .walletOpSpendSince pid kind sinceTs =>
    w.read env.store (·.walletOpSpendSince pid kind sinceTs) ⟨⊤, some w.now, -1⟩
  | .walletOpsSettled pid kind limit => w.read env.store (·.walletOpsSettled pid kind limit) []
  | .walletOpsTerminal pid kind limit => w.read env.store (·.walletOpsTerminal pid kind limit) []
  | .walletOpsLastTs pid kinds => w.read env.store (·.walletOpsLastTs pid kinds) (some w.now)
  | .walletHalt pid kind => w.write env.store (w.ledger.walletHalt w.now pid kind) true false
  | .walletHalted pid kind => w.read env.store (·.walletHalted pid kind) true
  | .walletClearHalt pid kind => w.write env.store (w.ledger.walletClearHalt pid kind) true false
  | .control _ _ => (env.control, w)

/-- The keeper's programs. -/
abbrev Keeper := Program Effect Effect.Answer Exn

/-- Perform an operation of the keeper. -/
abbrev request (op : Effect) : Keeper op.Answer := Program.call op

end Unhardcoded.Source

import Mathlib.Algebra.Order.Floor.Ring
import Mathlib.Data.Rat.Floor
import Unhardcoded.Source.WalletEffects

/-!
# The wallet keeper

Source: wallet_keeper.py. Every function that awaits, reads the clock, reads a
store or writes one is a `Keeper` program performing those operations in source
order; the log lines and the human-readable reasons are left out. Amounts,
balances and ages are exact rationals.
-/

namespace Unhardcoded.Source

open Effects

def settleAfterS : Int := 90
/-- `STALE_AFTER_S` of sources/antseed.py. -/
def statusMaxAgeS : Int := 900
def clockSkewAllowanceS : Int := 120
def chainReadMaxAgeS : Int := 900
def maxTopupUsdc : ℚ := 50
def minTopupUsdc : ℚ := 1 / 100
def gasFloorEth : ℚ := 5 / 10000
def maxTxPerCycle : Nat := 8
def minChannelReclaimable : ℚ := 5 / 100
def pumpEffectiveFraction : ℚ := 8 / 10
def pumpStrikesToHalt : Nat := 2
def wedgeMinAttempts : Int := 10
def topupErrorStrikesToHalt : Nat := 3
def topupBackoffBaseS : Int := 300
def topupBackoffCapS : Int := 3600
def reclaimCooldownS : Int := 900
def reclaimErrorStrikesToHalt : Nat := 3
def ratchetReservedRatio : ℚ := 2

/-- What `_maybe_topup` and the two breakers answer. -/
inductive TopupDecision where
  | funded | halted | cooldown | backoff | pumpHalt | errorHalt | dailyCap | amountTooSmall
  | walletUnreadable | walletFloor | ledgerUnavailable
  | topupFired | topupUnknown | topupFailed
  deriving DecidableEq, Repr

/-- What `_maybe_reclaim` and `_fire_reclaim_phase` answer; the last three carry
the op named in the answer (`<op>`, `<op>_failed`, `<op>_unbounded`). -/
inductive ReclaimDecision where
  | halted | notShort | nothingReserved | notWedged | gasFloor | scanFailed | cooldown
  | scanMalformed | noEligibleChannels | emptySelection | ledgerUnavailable
  | fired (op : WalletOp)
  | failed (op : WalletOp)
  | unbounded (op : WalletOp)
  deriving DecidableEq, Repr

inductive KnobError where
  | triggerBelowTourniquet | amountAboveDailyCap | amountAboveHardLimit
  deriving DecidableEq, Repr

/-- Why a whole cycle stands down (`state["error"]`). -/
inductive StandDown where
  | knobError (error : KnobError)
  | knobsUnreadable
  | controlNotConfigured
  deriving DecidableEq, Repr

/-- One entry of `state["providers"]`. -/
inductive ProviderState where
  | statusUnreadable
  | statusStale (ageS : Option ℚ)
  | acted (available : ℚ) (reserved : Option ℚ) (reclaim : ReclaimDecision) (topup : TopupDecision)
  | error
  deriving DecidableEq

structure KeeperState where
  lastCycle : Int
  enabled : Bool
  providers : List (String × ProviderState)
  error : Option StandDown
  deriving DecidableEq

/-- The cross-validation of `load_knobs`. -/
def Knobs.validate (k : Knobs) : Except KnobError Knobs :=
  if k.topupTriggerUsdc ≤ k.minAvailableUsdc then .error .triggerBelowTourniquet
  else if k.topupDailyCapUsdc < k.topupAmountUsdc then .error .amountAboveDailyCap
  else if maxTopupUsdc < k.topupAmountUsdc then .error .amountAboveHardLimit
  else .ok k

/-- `load_knobs`; `none` from the settings is a knob that would not read or coerce. -/
def loadKnobs : Keeper (Except StandDown Knobs) := do
  match ← request .settings with
  | none => return .error .knobsUnreadable
  | some k =>
    match k.validate with
    | .error e => return .error (.knobError e)
    | .ok k => return .ok k

/-- `control`: the response, or whatever was raised through it. -/
def control (pid : String) (op : ControlOp) : Keeper Reply := do
  match ← request (.control pid op) with
  | .reply resp => return resp
  | .raised exn => throw exn

/-- The `try` around a control call whose intent row is already written: both
`except` branches close the row as `unknown` and re-raise. -/
def controlOrClose (pid : String) (opId : Nat) (op : ControlOp) : Keeper Reply :=
  (control pid op).tryCatch fun exn => do
    let _ ← request (.walletOpFinish opId .unknown none none)
    throw exn

/-- `_outcome_for`. -/
def outcomeFor (resp : Reply) : Outcome :=
  if resp.ok.truthy then .fired else if resp.attempted.isFalse then .failed else .unknown

/-- `_chain_view`: the reading's `detail`, or `none` for the empty dict. -/
def chainView (pid : String) : Keeper (Option ChainReading) := do
  match ← request (.sourceBalances pid) with
  | none => return none
  | some bal =>
    match bal.fetchedAt with
    | none => return none
    | some fetchedAt =>
      let now : Int ← request .time
      if (chainReadMaxAgeS : ℚ) < now - fetchedAt then return none else return some bal

/-- `_consecutive`. -/
def consecutive (rows : List Row) (outcomes : List Outcome) : Nat :=
  (rows.takeWhile fun row => row.outcome ∈ outcomes).length

/-- `_error_strikes`. -/
def errorStrikes (pid : String) (op : WalletOp) (limit : Nat) : Keeper Nat := do
  let rows ← request (.walletOpsTerminal pid op limit)
  return consecutive rows walletOpErrorOutcomes

/-- The loop of `_reconcile_orphans`. -/
def reconcileRows : List Row → Keeper Unit
  | [] => pure ()
  | row :: rest => do
    if row.op = .topup ∨ row.outcome ≠ .pending then
      reconcileRows rest
    else
      let _ ← request (.walletOpFinish row.id .unknown none none)
      reconcileRows rest

/-- `_reconcile_orphans`. -/
def reconcileOrphans (pid : String) : Keeper Unit := do
  reconcileRows (← request (.walletOpsOpen pid none))

/-- `int(row["updated_at"] or row["ts"])`. -/
def Row.stamp (row : Row) : Int := if row.updatedAt = 0 then row.ts else row.updatedAt

/-- How far the escrow rose over a deposit: both columns when all four readings
are there, the spendable half otherwise. -/
def gained (pre available : ℚ) (preReserved reserved : Option ℚ) : ℚ :=
  match preReserved, reserved with
  | some preR, some r => available + r - (pre + preR)
  | _, _ => available - pre

/-- The verdict of the settlement pass on one open row: `none` leaves it open. -/
def settleVerdict (now : Int) (available : ℚ) (reserved : Option ℚ) (row : Row) : Option Outcome :=
  if row.outcome = .pending then some .unknown
  else if now - row.stamp < settleAfterS then none
  else match row.preAvailable, row.amountUsdc with
    | some pre, some amount =>
      if amount = 0 then some .unknown
      else if pumpEffectiveFraction * amount ≤ gained pre available row.preReserved reserved then
        some .effective
      else some .ineffective
    | _, _ => some .unknown

/-- The loop of `_settle_topups`. -/
def settleRows (now : Int) (available : ℚ) (reserved : Option ℚ) : List Row → Keeper Unit
  | [] => pure ()
  | row :: rest => do
    match settleVerdict now available reserved row with
    | none => settleRows now available reserved rest
    | some outcome =>
      let _ ← request (.walletOpFinish row.id outcome (some available) reserved)
      settleRows now available reserved rest

/-- `_halt_topups`: the decision stands whether or not the halt was persisted. -/
def haltTopups (pid : String) (decision : TopupDecision) : Keeper TopupDecision := do
  let _ ← request (.walletHalt pid .topup)
  return decision

/-- `_settle_topups`: the settlement loop, then the two breakers. -/
def settleTopups (pid : String) (available : ℚ) (reserved : Option ℚ) :
    Keeper (Option TopupDecision) := do
  let now : Int ← request .time
  settleRows now available reserved (← request (.walletOpsOpen pid (some .topup)))
  let settled : List Row ← request (.walletOpsSettled pid .topup pumpStrikesToHalt)
  if pumpStrikesToHalt ≤ settled.length ∧ ∀ r ∈ settled, r.outcome = .ineffective then
    return some (← haltTopups pid .pumpHalt)
  let rows ← request (.walletOpsTerminal pid .topup topupErrorStrikesToHalt)
  if topupErrorStrikesToHalt ≤ consecutive rows walletOpErrorOutcomes then
    return some (← haltTopups pid .errorHalt)
  return none

/-- `_wedged`. -/
def wedged (pid : String) (knobs : Knobs) (available : ℚ) : Keeper Bool := do
  if available < knobs.minAvailableUsdc then
    return true
  let counts ← request (.providerAttemptCounts pid)
  return wedgeMinAttempts ≤ counts.total ∧ counts.ok = 0

/-- `CHANNEL_ID_RE.match`: `$` also matches before a final newline. -/
def channelIdMatches (id : String) : Bool :=
  let letter (c : Char) : Bool := c.isAlphanum
  let follows (c : Char) : Bool := c.isAlphanum || c ∈ ['_', '.', ':', '-']
  match id.toList with
  | [] => false
  | first :: rest =>
    let body := if rest.getLast? = some '\n' then rest.dropLast else rest
    letter first && decide (body.length ≤ 127) && body.all follows

/-- `as_float(c.get("reclaimable")) or 0.0`. -/
def Channel.worth (c : Channel) : ℚ := c.reclaimable.getD 0

/-- `_worth_it`. -/
def Channel.worthIt (c : Channel) : Bool := minChannelReclaimable ≤ c.worth

/-- `_ids` of `_maybe_reclaim`. -/
def channelIds (batch : List Channel) : List String :=
  batch.filterMap fun c => c.id.filter channelIdMatches

/-- `RECLAIM_OPS`. -/
def reclaimOps : List WalletOp := [.reclaimSetOperator, .reclaimRequestClose, .reclaimWithdraw]

/-- The echo check: a list of exactly the ids sent, as sets. -/
def selectionHonoured (ids : List String) (selected : Option (List String)) : Bool :=
  match selected with
  | none => false
  | some echoed => (∀ x ∈ echoed, x ∈ ids) ∧ ∀ x ∈ ids, x ∈ echoed

/-- `_fire_reclaim_phase` after the control server answered. -/
def closeReclaimPhase (pid : String) (op : WalletOp) (ids : Option (List String)) (opId : Nat)
    (resp : Reply) : Keeper ReclaimDecision := do
  let outcome := outcomeFor resp
  let _ ← request (.walletOpFinish opId (if outcome = .fired then .ok else outcome) none none)
  if outcome = .fired then
    if ∃ sent ∈ ids, !selectionHonoured sent resp.selected then
      let _ ← request (.walletHalt pid .reclaim)
      return .unbounded op
    return .fired op
  let strikes ← errorStrikes pid op reclaimErrorStrikesToHalt
  if reclaimErrorStrikesToHalt ≤ strikes then
    let _ ← request (.walletHalt pid .reclaim)
    return .failed op
  return .failed op

/-- `_fire_reclaim_phase`. -/
def fireReclaimPhase (pid : String) (phase : ControlOp) (op : WalletOp) (preAvailable : ℚ)
    (preReserved : Option ℚ) (ids : Option (List String)) : Keeper ReclaimDecision := do
  if ids = some [] then
    return .emptySelection
  match ← request (.walletOpBegin pid op none (some preAvailable) preReserved) with
  | none => return .ledgerUnavailable
  | some opId =>
    let resp ← controlOrClose pid opId phase
    closeReclaimPhase pid op ids opId resp

/-- One turn of the phase loop of `_maybe_reclaim`: the largest channels first,
at most `MAX_TX_PER_CYCLE` of them, and none when one of them cannot be named. -/
def fireBatch (pid : String) (phase : List String → ControlOp) (op : WalletOp) (available : ℚ)
    (reserved : Option ℚ) (batch : List Channel) : Keeper ReclaimDecision := do
  let batch := batch.mergeSort fun a b => b.worth ≤ a.worth
  let ids := channelIds batch
  if ids.length ≠ batch.length then
    return .scanMalformed
  let capped := ids.take maxTxPerCycle
  fireReclaimPhase pid (phase capped) op available reserved (some capped)

/-- `_maybe_reclaim` once the scan answered. -/
def reclaimScanned (pid : String) (available : ℚ) (reserved : Option ℚ) (scan : Reply) :
    Keeper ReclaimDecision := do
  let now : Int ← request .time
  let last ← request (.walletOpsLastTs pid reclaimOps)
  if ∃ t ∈ last, now - t < reclaimCooldownS then
    return .cooldown
  if !scan.operatorIsSelf then
    fireReclaimPhase pid .reclaimSetOperator .reclaimSetOperator available reserved none
  else
    let channels := scan.channels.filterMap id
    let withdrawable := channels.filter fun c => c.closeRequested && c.worthIt
    let closable := channels.filter fun c => !c.closeRequested && c.worthIt
    if withdrawable ≠ [] then
      fireBatch pid .reclaimWithdraw .reclaimWithdraw available reserved withdrawable
    else if closable ≠ [] then
      fireBatch pid .reclaimRequestClose .reclaimRequestClose available reserved closable
    else
      return .noEligibleChannels

/-- `_maybe_reclaim`. -/
def maybeReclaim (pid : String) (knobs : Knobs) (available : ℚ) (reserved : Option ℚ) :
    Keeper ReclaimDecision := do
  if ← request (.walletHalted pid .reclaim) then
    return .halted
  let short := available < knobs.topupTriggerUsdc
  let ratcheted := ∃ r ∈ reserved, ratchetReservedRatio * max available knobs.topupTriggerUsdc ≤ r
  if ¬short ∧ ¬ratcheted then
    return .notShort
  if ∀ r ∈ reserved, r ≤ knobs.reclaimMinUsdc then
    return .nothingReserved
  if !(← wedged pid knobs available) then
    return .notWedged
  let view ← chainView pid
  if ∃ eth ∈ view.bind (·.walletEth), eth < gasFloorEth then
    return .gasFloor
  let scan ← control pid .reclaimScan
  if !scan.ok.truthy then
    return .scanFailed
  reclaimScanned pid available reserved scan

/-- `_retry_gate`: the cooldown runs from the last op that spent, the backoff
from the last one that errored. -/
def retryGate (pid : String) (knobs : Knobs) (spend : Spend) : Keeper (Option TopupDecision) := do
  let now : Int ← request .time
  if ∃ t ∈ spend.lastTs, now - t < knobs.topupCooldownS then
    return some .cooldown
  let rows : List Row ← request (.walletOpsTerminal pid .topup topupErrorStrikesToHalt)
  let strikes := consecutive rows walletOpErrorOutcomes
  if strikes = 0 then
    return none
  let base := max knobs.topupCooldownS topupBackoffBaseS
  let backoff := min (base * 2 ^ (strikes - 1)) topupBackoffCapS
  if ∃ row ∈ rows.head?, now - row.stamp < backoff then
    return some .backoff
  return none

/-- `int(x)`: truncation toward zero. -/
def truncate (x : ℚ) : Int := if 0 ≤ x then ⌊x⌋ else ⌈x⌉

/-- `capped_strikes_to_halt`: no more strikes than full deposits the cap admits;
`none` where the division by a zero amount raises. -/
def cappedStrikesToHalt (knobs : Knobs) : Option Int :=
  if knobs.topupAmountUsdc = 0 then none
  else some (min topupErrorStrikesToHalt
    (max 1 (truncate (knobs.topupDailyCapUsdc / knobs.topupAmountUsdc))))

/-- The daily-cap refusal of `_maybe_topup`: a halt when the errors already fill
what the cap admits. -/
def capRefusal (pid : String) (knobs : Knobs) : Keeper TopupDecision := do
  let strikes ← errorStrikes pid .topup topupErrorStrikesToHalt
  match cappedStrikesToHalt knobs with
  | none => throw .exception
  | some needed =>
    if needed ≤ strikes then
      haltTopups pid .errorHalt
    else
      return .dailyCap

/-- The end of `_maybe_topup`: the row is closed by what the answer proves. -/
def closeDeposit (opId : Nat) (resp : Reply) : Keeper TopupDecision := do
  let outcome := outcomeFor resp
  if outcome = .fired then
    let _ ← request (.walletOpFinish opId .fired none none)
    return .topupFired
  let _ ← request (.walletOpFinish opId outcome none none)
  if outcome = .unknown then
    return .topupUnknown
  return .topupFailed

/-- The attempt of `_maybe_topup`: intent row, control call, closing. -/
def fireDeposit (pid : String) (amount available : ℚ) (reserved : Option ℚ) :
    Keeper TopupDecision := do
  match ← request (.walletOpBegin pid .topup (some amount) (some available) reserved) with
  | none => return .ledgerUnavailable
  | some opId =>
    let resp ← controlOrClose pid opId (.deposit amount)
    closeDeposit opId resp

/-- `_maybe_topup` once the cap admits the full amount. -/
def topupWithinCap (pid : String) (knobs : Knobs) (available : ℚ) (reserved : Option ℚ) :
    Keeper TopupDecision := do
  let amount := min knobs.topupAmountUsdc maxTopupUsdc
  if amount < minTopupUsdc then
    return .amountTooSmall
  let view ← chainView pid
  match view.bind (·.walletUsdc) with
  | none => return .walletUnreadable
  | some walletUsdc =>
    if walletUsdc - amount < knobs.topupWalletFloorUsdc then
      return .walletFloor
    fireDeposit pid amount available reserved

/-- `_maybe_topup`. -/
def maybeTopup (pid : String) (knobs : Knobs) (available : ℚ) (reserved : Option ℚ) :
    Keeper TopupDecision := do
  if knobs.topupTriggerUsdc ≤ available then
    return .funded
  if ← request (.walletHalted pid .topup) then
    return .halted
  let now : Int ← request .time
  let spend ← request (.walletOpSpendSince pid .topup (now - 86400))
  match ← retryGate pid knobs spend with
  | some waiting => return waiting
  | none =>
    if (knobs.topupDailyCapUsdc : WithTop ℚ) < spend.spentUsdc + knobs.topupAmountUsdc then
      capRefusal pid knobs
    else
      topupWithinCap pid knobs available reserved

/-- `_status_age_s`. -/
def statusAgeS (status : BuyerStatus) : Keeper (Option ℚ) := do
  match status.fetchedAt with
  | none => return none
  | some raw =>
    let now : Int ← request .time
    let age := (now : ℚ) - raw / 1000
    if age < -(clockSkewAllowanceS : ℚ) then return none else return some (max 0 age)

/-- `cycle_provider` on a fresh status row. -/
def cycleFresh (pid : String) (knobs : Knobs) (available : ℚ) (reserved : Option ℚ) :
    Keeper ProviderState := do
  reconcileOrphans pid
  let halted ← settleTopups pid available reserved
  let reclaim ← maybeReclaim pid knobs available reserved
  match halted with
  | some decision => return .acted available reserved reclaim decision
  | none =>
    let topup ← maybeTopup pid knobs available reserved
    return .acted available reserved reclaim topup

/-- `cycle_provider`. -/
def cycleProvider (pid : String) (knobs : Knobs) : Keeper ProviderState := do
  match ← request (.buyerStatus pid) with
  | none => return .statusUnreadable
  | some status =>
    match status.depositsAvailable with
    | none => return .statusUnreadable
    | some available =>
      match ← statusAgeS status with
      | none => return .statusStale none
      | some age =>
        if (statusMaxAgeS : ℚ) < age then
          return .statusStale (some age)
        else
          cycleFresh pid knobs available status.depositsReserved

/-- The provider loop of `cycle`: an exception of one provider stays there, a
cancellation ends the loop. -/
def cycleProviders (knobs : Knobs) : List String → Keeper (List (String × ProviderState))
  | [] => return []
  | pid :: rest => do
    let state ← (cycleProvider pid knobs).tryCatch fun
      | .cancelled => throw .cancelled
      | .exception => return .error
    let states ← cycleProviders knobs rest
    return (pid, state) :: states

/-- `cycle`, for a keeper built over `providerIds`. -/
def cycle (providerIds : List String) : Keeper KeeperState := do
  let lastCycle : Int ← request .time
  match ← loadKnobs with
  | .error stand => return ⟨lastCycle, false, [], some stand⟩
  | .ok knobs =>
    if !knobs.enabled then
      return ⟨lastCycle, false, [], none⟩
    if !(← request .controlEndpoint) then
      return ⟨lastCycle, true, [], some .controlNotConfigured⟩
    let providers ← cycleProviders knobs providerIds
    return ⟨lastCycle, true, providers, none⟩

/-- The dashboard's clear of a halt (shim.py, `clear-halt`): its answer is whether
the statement committed. -/
def clearHalt (pid : String) (kind : HaltKind) : Keeper Bool :=
  request (.walletClearHalt pid kind)

/-- What happens to the wallets over time: a cycle of the keeper (a fresh process
included, the ledger being its only memory), or an operator's clear. -/
inductive WalletStep where
  | cycle
  | clearHalt (pid : String) (kind : HaltKind)

def WalletStep.program (providerIds : List String) : WalletStep → Keeper (Option KeeperState)
  | .cycle => do return some (← Source.cycle providerIds)
  | .clearHalt pid kind => do
    let _ ← Source.clearHalt pid kind
    return none

/-- A run: each step with the environment's choices for it, few enough of them
cutting the step short. -/
def walletRun (providerIds : List String) (steps : List (WalletStep × List Env)) (s : World) :
    List (Effects.Outcome Effect Env World Exn (Option KeeperState)) :=
  Program.runs handle (steps.map fun step => (step.1.program providerIds, step.2)) s

/-- The world a run leaves. -/
def walletWorld (providerIds : List String) (steps : List (WalletStep × List Env)) (s : World) : World :=
  Program.after handle (steps.map fun step => (step.1.program providerIds, step.2)) s

end Unhardcoded.Source

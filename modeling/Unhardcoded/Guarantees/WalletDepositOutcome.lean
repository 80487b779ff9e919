import Unhardcoded.Guarantees.WalletCycle
import Unhardcoded.Source.WalletControl

/-!
# What a deposit attempt leaves in the ledger

From the CLI run through `classifyCliFailure`, the control server's reply, the
transport and `_control_post` to `_outcome_for` and the closing statement. A row
is closed as `failed` only where no transaction can have left
(`failed_only_unspent`), a failed run that shows a sign of a broadcast is closed
as `unknown`, and every exit of the attempt closes its row once the ledger takes
the closing write (`deposit_attempt_closed`). A run that exits 0 is not among
them: it is closed as `fired` whatever it printed, and the settlement pass judges it.
-/

namespace Unhardcoded.Guarantees
open Source Effects

/-- The server got as far as running the CLI, or may have. -/
def CliRan (transport : Transport) (req : ControlRequest) : Prop :=
  transport.sent = true ∧ req.authorised = true ∧ req.routed = true ∧ validAmount req.amount = true ∧
    req.queue = .started

/-- A sign that the run may have broadcast. -/
def ShowsBroadcast (r : CliRun) : Prop :=
  r.killed = true ∨ isBlank r.stdout = false ∨
    (∃ marker ∈ onchainStepMarkers, includes (toLowerCase r.combined) marker = true) ∨
    txHashTest r.combined = true ∨
    ∃ text ∈ broadcastPhrases, includes (toLowerCase r.combined) text = true

/-- `classifyCliFailure` never judges such a run pre-RPC. -/
theorem attempted_of_showsBroadcast {r : CliRun} (h : ShowsBroadcast r) :
    (classifyCliFailure r).attempted = true := by
  unfold classifyCliFailure
  dsimp only
  split
  · rfl
  rename_i alive
  split
  · rfl
  rename_i noMarker
  split
  · rfl
  rename_i noHash
  split
  · rfl
  rename_i noPhrase
  split
  · rfl
  rename_i blank
  -- every sign has been looked for and not found
  exfalso
  rcases h with killed | printed | ⟨marker, hm, found⟩ | hash | ⟨text, ht, found⟩
  · exact alive killed
  · simp [printed] at blank
  · exact absurd found (List.find?_eq_none.mp noMarker marker hm)
  · exact noHash hash
  · exact absurd found (List.find?_eq_none.mp noPhrase text ht)

/-- The outcome an attempt is closed with, by how its control call came back. -/
def attemptOutcome : ControlResult → Source.Outcome
  | .reply resp => outcomeFor resp
  | .raised _ => .unknown

theorem attemptOutcome_mem (result : ControlResult) :
    attemptOutcome result ∈ [Source.Outcome.fired, .failed, .unknown] := by
  cases result with
  | reply resp => rcases outcomeFor_cases resp with h | h | h <;> simp [attemptOutcome, h]
  | raised exn => simp [attemptOutcome]

@[simp] theorem outcomeFor_failureReply (attempted : Bool) :
    outcomeFor (failureReply attempted) = if attempted then .unknown else .failed := by
  cases attempted <;> rfl

/-- The reply to a request that reached the CLI. -/
theorem depositReply_of_ran {transport : Transport} {req : ControlRequest} (ran : CliRan transport req) :
    depositReply req =
      if (run req.exec).code = .status 0 then ⟨200, true, true⟩
      else if (run req.exec).killed then inconclusive 504
      else if (classifyCliFailure (run req.exec)).attempted then inconclusive 502
      else refuse 502 := by
  obtain ⟨-, authorised, routed, valid, started⟩ := ran
  by_cases exited : (run req.exec).code = .status 0
  · simp [depositReply, authorised, routed, valid, started, exited]
  · simp [depositReply, authorised, routed, valid, started, exited]

/-- An inconclusive reply to a sent request is never read as `failed`. -/
theorem outcome_of_inconclusive {transport : Transport} {req : ControlRequest} {status : Nat}
    (sent : transport.sent = true) (reply : depositReply req = inconclusive status)
    (server : status = 502 ∨ status = 504) : attemptOutcome (controlPost transport req) = .unknown := by
  unfold controlPost
  rw [reply]
  cases transport with
  | notConfigured => cases sent
  | httpxUnavailable => cases sent
  | misconfigured => cases sent
  | failed => rfl
  | cancelled => rfl
  | delivered => rcases server with rfl | rfl <;> rfl
  | garbled => rcases server with rfl | rfl <;> rfl

/-- A success is read as `fired`, or as `unknown` when its reply does not arrive whole. -/
theorem outcome_of_success {transport : Transport} {req : ControlRequest}
    (sent : transport.sent = true) (reply : depositReply req = ⟨200, true, true⟩) :
    attemptOutcome (controlPost transport req) ≠ .failed := by
  unfold controlPost
  rw [reply]
  cases transport with
  | notConfigured => cases sent
  | httpxUnavailable => cases sent
  | misconfigured => cases sent
  | failed => decide
  | cancelled => decide
  | delivered => decide
  | garbled => decide

/-- `failed` proves that the CLI never ran, or failed before any RPC call. -/
theorem failed_only_unspent {transport : Transport} {req : ControlRequest}
    (h : attemptOutcome (controlPost transport req) = .failed) :
    ¬ CliRan transport req ∨
      ((run req.exec).code ≠ .status 0 ∧ (classifyCliFailure (run req.exec)).attempted = false) := by
  by_cases ran : CliRan transport req
  · right
    have reply := depositReply_of_ran ran
    split at reply
    · exact absurd h (outcome_of_success ran.1 reply)
    rename_i exited
    refine ⟨exited, ?_⟩
    split at reply
    · rw [outcome_of_inconclusive ran.1 reply (.inr rfl)] at h
      cases h
    split at reply
    · rw [outcome_of_inconclusive ran.1 reply (.inl rfl)] at h
      cases h
    · rename_i unattempted
      simpa using unattempted
  · exact .inl ran

/-- A failed run that shows a sign of a broadcast is `unknown`, however the reply
travels. -/
theorem unknown_of_showsBroadcast {transport : Transport} {req : ControlRequest} (ran : CliRan transport req)
    (exited : (run req.exec).code ≠ .status 0) (shows_ : ShowsBroadcast (run req.exec)) :
    attemptOutcome (controlPost transport req) = .unknown := by
  have reply := depositReply_of_ran ran
  rw [if_neg exited, attempted_of_showsBroadcast shows_, if_pos rfl] at reply
  split at reply
  · exact outcome_of_inconclusive ran.1 reply (.inr rfl)
  · exact outcome_of_inconclusive ran.1 reply (.inl rfl)

/-- The closing statement reaches the table unless it is down. -/
theorem handle_closing {finish : Env} (closing : finish.store ≠ .down) (opId : Nat)
    (outcome : Source.Outcome) (s : World) :
    (handle (.walletOpFinish opId outcome none none) finish s).2.ledger =
      s.ledger.walletOpFinish (s.now + finish.elapsed) opId outcome none none := by
  simp only [handle, World.write]
  cases h : finish.store with
  | ok => rfl
  | lost => rfl
  | down => exact absurd h closing

/-- Every answer is closed by one statement, which carries `_outcome_for`. -/
theorem closeDeposit_eq (opId : Nat) (resp : Reply) : ∃ decision, closeDeposit opId resp =
    request (.walletOpFinish opId (outcomeFor resp) none none) >>= fun _ => pure decision := by
  unfold closeDeposit
  rcases outcomeFor_cases resp with h | h | h
  · exact ⟨.topupFired, by rw [h]; rfl⟩
  · exact ⟨.topupFailed, by rw [h]; rfl⟩
  · exact ⟨.topupUnknown, by rw [h]; rfl⟩

/-- From the control call on: one closing write, whatever the call brought. -/
theorem controlOrClose_run (pid : String) (op : ControlOp) (call : Env) {finish : Env} (rest : List Env)
    (opId : Nat) (s : World) (closing : finish.store ≠ .down) :
    let out := Program.run handle (controlOrClose pid opId op >>= closeDeposit opId) (call :: finish :: rest) s
    out.ending ≠ .crashed ∧ out.state.ledger =
      s.ledger.walletOpFinish (s.now + call.elapsed + finish.elapsed) opId (attemptOutcome call.control)
        none none := by
  have wrote := fun outcome => handle_closing closing opId outcome (s.advance call.elapsed)
  have asked : (handle (.control pid op) call s) = (call.control, s.advance call.elapsed) := rfl
  have first : ∃ next : ControlResult → Keeper TopupDecision,
      controlOrClose pid opId op >>= closeDeposit opId = .perform (.control pid op) next ∧
      ∀ result, next result = match result with
        | .reply resp => closeDeposit opId resp
        | .raised exn => request (.walletOpFinish opId .unknown none none) >>= fun _ => throw exn := by
    refine ⟨_, rfl, fun result => ?_⟩
    cases result <;> rfl
  obtain ⟨next, split, answered⟩ := first
  rw [split]
  simp only [Program.run, asked, answered]
  cases call.control with
  | reply resp =>
    obtain ⟨decision, closed⟩ := closeDeposit_eq opId resp
    simp only [closed]
    exact ⟨fun stopped => (by cases stopped), wrote _⟩
  | raised exn => exact ⟨fun stopped => (by cases stopped), wrote _⟩

/-- The attempt once its intent is written: one control call, one closing write. -/
theorem fireDeposit_run (pid : String) (amount available : ℚ) (reserved : Option ℚ) (call : Env) {begin_ finish : Env}
    (rest : List Env) (s : World) (opened : begin_.store = .ok) (closing : finish.store ≠ .down) :
    let out := Program.run handle (fireDeposit pid amount available reserved) (begin_ :: call :: finish :: rest) s
    out.ending ≠ .crashed ∧ ∃ now at_, out.state.ledger =
      (withIntent s.ledger now pid amount available reserved).walletOpFinish at_ s.ledger.nextId
        (attemptOutcome call.control) none none := by
  have begun : handle (.walletOpBegin pid .topup (some amount) (some available) reserved) begin_ s =
      (some s.ledger.nextId, ⟨s.now + begin_.elapsed,
        withIntent s.ledger (s.now + begin_.elapsed) pid amount available reserved⟩) := by
    simp only [handle, World.write, opened]
    rfl
  have first : ∃ next : Option Nat → Keeper TopupDecision, fireDeposit pid amount available reserved =
      .perform (.walletOpBegin pid .topup (some amount) (some available) reserved) next ∧
      ∀ opId, next (some opId) = controlOrClose pid opId (.deposit amount) >>= closeDeposit opId :=
    ⟨_, rfl, fun _ => rfl⟩
  obtain ⟨next, split, answered⟩ := first
  obtain ⟨ended, ledger⟩ := controlOrClose_run pid (.deposit amount) call rest s.ledger.nextId
    ⟨s.now + begin_.elapsed, withIntent s.ledger (s.now + begin_.elapsed) pid amount available reserved⟩ closing
  rw [split]
  simp only [Program.run, begun, answered]
  exact ⟨ended, _, _, ledger⟩
/-- A closed deposit row. -/
structure ClosedDeposit (pid : String) (amount : ℚ) (outcome : Source.Outcome) (row : Row) : Prop where
  op : row.op = .topup
  pid : row.pid = pid
  amount : row.amountUsdc = some amount
  outcome : row.outcome = outcome

/-- Every attempt whose intent is written ends, and its ledger is the one before it
with one row more, closed as the control call's coming back says. -/
theorem fireDeposit_closes (pid : String) (amount available : ℚ) (reserved : Option ℚ) (call : Env) {begin_ finish : Env}
    (rest : List Env) (s : World) (opened : begin_.store = .ok) (closing : finish.store ≠ .down) :
    let out := Program.run handle (fireDeposit pid amount available reserved) (begin_ :: call :: finish :: rest) s
    out.ending ≠ .crashed ∧ ∃ row, out.state.ledger.rows = s.ledger.rows ++ [row] ∧
      ClosedDeposit pid amount (attemptOutcome call.control) row := by
  obtain ⟨ended, now, at_, ledger⟩ := fireDeposit_run pid amount available reserved call rest s opened closing
  have older : s.ledger.rows.map (Ledger.closeAt s.ledger.nextId (attemptOutcome call.control) none none at_) =
      s.ledger.rows := by
    refine (List.map_congr_left fun row hrow => ?_).trans (List.map_id _)
    have := s.ledger.below row hrow
    rw [Ledger.closeAt, if_neg (by omega)]
    rfl
  refine ⟨ended, Ledger.closeAt s.ledger.nextId (attemptOutcome call.control) none none at_
    (intent s.ledger.nextId now pid amount available reserved), ?_, ?_⟩
  · rw [ledger]
    simp only [Ledger.walletOpFinish, withIntent_rows, List.map_append, older, List.map_cons, List.map_nil]
  · have closed : Ledger.closeAt s.ledger.nextId (attemptOutcome call.control) none none at_
        (intent s.ledger.nextId now pid amount available reserved) =
        Ledger.close (attemptOutcome call.control) none none at_
          (intent s.ledger.nextId now pid amount available reserved) := if_pos rfl
    rw [closed]
    exact ⟨rfl, rfl, rfl, rfl⟩

/-- From the CLI to the ledger: however the run, the server and the transport
behaved, the attempt's row is closed; as `failed` only where no transaction can
have left, as `unknown` for every failed run that shows a sign of a broadcast,
never as `failed` for a run that exited 0. -/
theorem deposit_attempt_closed (pid : String) (amount available : ℚ) (reserved : Option ℚ) (call : Env)
    {begin_ finish : Env} {transport : Transport} {req : ControlRequest} (rest : List Env) (s : World)
    (opened : begin_.store = .ok) (through : call.control = controlPost transport req)
    (closing : finish.store ≠ .down) :
    let out := Program.run handle (fireDeposit pid amount available reserved) (begin_ :: call :: finish :: rest) s
    out.ending ≠ .crashed ∧ ∃ outcome row, out.state.ledger.rows = s.ledger.rows ++ [row] ∧
      ClosedDeposit pid amount outcome row ∧ outcome ∈ [.fired, .failed, .unknown] ∧
      (outcome = .failed → ¬ CliRan transport req ∨
        ((run req.exec).code ≠ .status 0 ∧ (classifyCliFailure (run req.exec)).attempted = false)) ∧
      (CliRan transport req → (run req.exec).code ≠ .status 0 → ShowsBroadcast (run req.exec) →
        outcome = .unknown) := by
  obtain ⟨ended, row, rows, closed⟩ := fireDeposit_closes pid amount available reserved call rest s opened closing
  rw [through] at closed
  refine ⟨ended, _, row, rows, closed, attemptOutcome_mem _, failed_only_unspent, unknown_of_showsBroadcast⟩

/-- A deposit request the server runs the CLI for. -/
def sampleRequest (exec : Exec) : ControlRequest := ⟨true, true, "5".toList, .started, exec⟩

/-- A CLI that is killed after it printed. -/
def killedExec : Exec := ⟨some ⟨none, true, true⟩, "Depositing USDC".toList, []⟩

theorem deposit_attempt_closed_killed :
    let call := { sampleEnv 0 .ok with control := controlPost .delivered (sampleRequest killedExec) }
    let out := Program.run handle (fireDeposit "p" 5 0 none) [sampleEnv 0 .ok, call, sampleEnv 0 .ok]
      ⟨0, Ledger.empty⟩
    out.ending ≠ .crashed ∧ ∃ outcome row, out.state.ledger.rows = [] ++ [row] ∧
      ClosedDeposit "p" 5 outcome row ∧ outcome ∈ [.fired, .failed, .unknown] ∧
      (outcome = .failed → ¬ CliRan .delivered (sampleRequest killedExec) ∨
        ((run killedExec).code ≠ .status 0 ∧ (classifyCliFailure (run killedExec)).attempted = false)) ∧
      (CliRan .delivered (sampleRequest killedExec) → (run killedExec).code ≠ .status 0 →
        ShowsBroadcast (run killedExec) → outcome = .unknown) :=
  deposit_attempt_closed "p" 5 0 none
    { sampleEnv 0 .ok with control := controlPost .delivered (sampleRequest killedExec) } [] ⟨0, Ledger.empty⟩
    rfl rfl nofun

/-- A deposit that goes through: exit 0, and the CLI's success line on stdout. -/
def successfulExec : Exec := ⟨none, "Deposited 5 USDC".toList, []⟩

/-- A run that prints is not always `unknown`: the successful one is closed as
`fired`. And a row whose closing write is down stays `pending`. -/
theorem printed_run_fired :
    let call := { sampleEnv 0 .ok with control := controlPost .delivered (sampleRequest successfulExec) }
    let out (closing : Store) := Program.run handle (fireDeposit "p" 5 0 none)
      [sampleEnv 0 .ok, call, sampleEnv 0 closing] ⟨0, Ledger.empty⟩
    CliRan .delivered (sampleRequest successfulExec) ∧ ShowsBroadcast (run successfulExec) ∧
      (out .ok).state.ledger.rows.map (·.outcome) = [.fired] ∧
      (out .down).ending ≠ .crashed ∧ (out .down).state.ledger.rows.map (·.outcome) = [.pending] := by
  have ran : CliRan .delivered (sampleRequest successfulExec) := ⟨rfl, rfl, rfl, by decide +kernel, rfl⟩
  exact ⟨ran, .inr (.inl (by decide +kernel)), by decide +kernel, nofun, by decide +kernel⟩

end Unhardcoded.Guarantees

import Unhardcoded.Effects.History
import Unhardcoded.Source.WalletKeeper

/-!
# What each part of a keeper's cycle asks for

The operations that the parts of wallet_keeper.py can perform, for any bound on
operations: what an invariant needs of a part is shown of these alone.
-/

namespace Unhardcoded.Guarantees
open Source Effects Program

variable {ok : Effect → Prop} {pid : String}

section Readings

variable (clock : ok .time)
include clock

theorem performs_chainView (source : ok (.sourceBalances pid)) : Performs ok (chainView pid) := by
  refine performs_bind ((performs_call _).mpr source) fun answer => ?_
  split
  · exact performs_pure _
  · split
    · exact performs_pure _
    · refine performs_bind ((performs_call _).mpr clock) fun now => ?_
      split
      · exact performs_pure _
      · exact performs_pure _

theorem performs_statusAgeS (status : BuyerStatus) : Performs ok (statusAgeS status) := by
  unfold statusAgeS
  split
  · exact performs_pure _
  · refine performs_bind ((performs_call _).mpr clock) fun now => ?_
    dsimp only
    split
    · exact performs_pure _
    · exact performs_pure _

theorem performs_retryGate (closed : ok (.walletOpsTerminal pid .topup topupErrorStrikesToHalt)) (knobs : Knobs)
    (spend : Spend) : Performs ok (retryGate pid knobs spend) := by
  refine performs_bind ((performs_call _).mpr clock) fun now => ?_
  split
  · exact performs_pure _
  · refine performs_bind ((performs_call _).mpr closed) fun rows => ?_
    dsimp only
    split
    · exact performs_pure _
    · split
      · exact performs_pure _
      · exact performs_pure _

end Readings

theorem performs_wedged (counts : ok (.providerAttemptCounts pid)) (knobs : Knobs) (available : ℚ) :
    Performs ok (wedged pid knobs available) := by
  unfold wedged
  split
  · exact performs_pure _
  · exact performs_bind ((performs_call _).mpr counts) fun _ => performs_pure _

theorem performs_loadKnobs (settings : ok .settings) : Performs ok loadKnobs := by
  refine performs_bind ((performs_call _).mpr settings) fun answer => ?_
  split
  · exact performs_pure _
  · split
    · exact performs_pure _
    · exact performs_pure _

section Breakers

variable (halt : ok (.walletHalt pid .topup))
include halt

theorem performs_haltTopups (d : TopupDecision) : Performs ok (haltTopups pid d) :=
  performs_bind ((performs_call _).mpr halt) fun _ => performs_pure d

theorem performs_capRefusal (closed : ok (.walletOpsTerminal pid .topup topupErrorStrikesToHalt)) (knobs : Knobs) :
    Performs ok (capRefusal pid knobs) := by
  refine performs_bind (performs_bind ((performs_call _).mpr closed) fun _ => performs_pure _) fun strikes => ?_
  split
  · exact performs_throw _
  · split
    · exact performs_haltTopups halt _
    · exact performs_pure _

end Breakers

section Loops

theorem performs_reconcileRows (closing : ∀ opId, ok (.walletOpFinish opId .unknown none none)) (rows : List Row) :
    Performs ok (reconcileRows rows) := by
  induction rows with
  | nil => exact performs_pure ()
  | cons row rest ih =>
    unfold reconcileRows
    split
    · exact ih
    · exact performs_bind ((performs_call _).mpr (closing _)) fun _ => ih

theorem performs_settleRows {available : ℚ} {reserved : Option ℚ}
    (closing : ∀ opId outcome, ok (.walletOpFinish opId outcome (some available) reserved)) (now : Int) (rows : List Row) :
    Performs ok (settleRows now available reserved rows) := by
  induction rows with
  | nil => exact performs_pure ()
  | cons row rest ih =>
    unfold settleRows
    split
    · exact ih
    · exact performs_bind ((performs_call _).mpr (closing _ _)) fun _ => ih

end Loops

section Attempts

theorem performs_closeDeposit (closing : ∀ opId outcome, ok (.walletOpFinish opId outcome none none)) (opId : Nat)
    (resp : Reply) : Performs ok (closeDeposit opId resp) := by
  unfold closeDeposit
  dsimp only
  split
  · exact performs_bind ((performs_call _).mpr (closing _ _)) fun _ => performs_pure _
  · refine performs_bind ((performs_call _).mpr (closing _ _)) fun _ => ?_
    split
    · exact performs_pure _
    · exact performs_pure _

/-- The control call with the closing of its row where it raises. -/
theorem performs_controlOrClose {op : ControlOp} (sends : ok (.control pid op))
    (closing : ∀ opId, ok (.walletOpFinish opId .unknown none none)) (opId : Nat) :
    Performs ok (controlOrClose pid opId op) := by
  refine performs_tryCatch (performs_bind ((performs_call _).mpr sends) fun answer => ?_) fun exn =>
    performs_bind ((performs_call _).mpr (closing _)) fun _ => performs_throw _
  split
  · exact performs_pure _
  · exact performs_throw _

end Attempts

end Unhardcoded.Guarantees

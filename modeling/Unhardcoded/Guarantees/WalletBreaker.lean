import Unhardcoded.Guarantees.WalletCycle

/-!
# The top-up breakers

When every ledger statement succeeds, a deposit never leaves for a provider with
a standing top-up halt, with its two newest measured deposits both ineffective,
or with its three newest closed deposits all failed or unknown
(`no_deposit_behind_breaker`). The evidence is judged by the settlement pass of
the same cycle; what lies between that judgement and the deposit is the reclaim
side, which frames the funding rows, and the intent row, which no breaker counts.
-/

namespace Unhardcoded.Guarantees
open Source Effects Program

section Evidence

/-- `Ledger.newest` on the funding rows alone. -/
def newestTopups (pid : String) (outcomes : List Source.Outcome) (limit : Nat) (rows : List Row) : List Row :=
  (rows.filter fun row => row.isOp pid .topup ∧ row.outcome ∈ outcomes).reverse.take
    (max 1 (min limit 100))

theorem newest_eq (l : Ledger) (pid : String) (outcomes : List Source.Outcome) (limit : Nat) :
    l.newest pid .topup outcomes limit = newestTopups pid outcomes limit (fundingRows l) := by
  unfold Ledger.newest newestTopups
  rw [filter_eq_filter_funding]
  intro row h
  simp only [decide_eq_true_eq] at h
  exact isFunding_of_isOp h.1

/-- A row without one of the counted outcomes changes no reading. -/
theorem newestTopups_append {pid : String} {outcomes : List Source.Outcome} {limit : Nat} {rows : List Row}
    {row : Row} (h : row.outcome ∉ outcomes) :
    newestTopups pid outcomes limit (rows ++ [row]) = newestTopups pid outcomes limit rows := by
  simp [newestTopups, List.filter_append, h]

/-- What the settlement pass read when it tripped neither breaker. -/
def Unbroken (pid : String) (rows : List Row) : Prop :=
  ¬ PumpVerdict (newestTopups pid walletOpSettledOutcomes pumpStrikesToHalt rows) ∧
    ¬ ErrorVerdict (newestTopups pid walletOpTerminalOutcomes topupErrorStrikesToHalt rows)

end Evidence

/-- Nothing in the table stands against a deposit for `pid`. -/
structure Clear (pid : String) (l : Ledger) : Prop where
  unhalted : l.walletHalted pid .topup = false
  effective : ¬ ∃ a b, l.walletOpsSettled pid .topup 2 = [a, b] ∧
    a.outcome = .ineffective ∧ b.outcome = .ineffective
  completed : ¬ ∃ a b c, l.walletOpsTerminal pid .topup 3 = [a, b, c] ∧
    ∀ r ∈ [a, b, c], r.outcome = .failed ∨ r.outcome = .unknown

/-- Every statement of the ledger takes effect and answers. -/
def StoreUp (_ : Effect) (env : Env) (_ : World) : Prop := env.store = .ok

/-- A deposit that leaves finds nothing against it. -/
def Unbarred (op : Effect) (_ : Env) (s : World) : Prop :=
  ∀ pid amount, op = .control pid (.deposit amount) → Clear pid s.ledger

theorem unbarred_of_plain (op : Effect) (env : Env) (s : World) (h : plain op = true) :
    Unbarred op env s := by
  intro pid amount hop
  subst hop
  simp [plain] at h

theorem unbarred_halt (pid : String) (env : Env) (s : World) :
    Unbarred (.walletHalt pid .topup) env s := fun _ _ h => by cases h

/-- The verdict of the settlement pass, carried to the deposit. -/
theorem clear_withIntent {pid : String} {l : Ledger} {now : Int} {amount available : ℚ}
    {reserved : Option ℚ} (unhalted : l.walletHalted pid .topup = false)
    (unbroken : Unbroken pid (fundingRows l)) :
    Clear pid (withIntent l now pid amount available reserved) := by
  have pending : ∀ outcomes : List Source.Outcome, .pending ∉ outcomes → ∀ limit,
      (withIntent l now pid amount available reserved).newest pid .topup outcomes limit =
        newestTopups pid outcomes limit (fundingRows l) := by
    intro outcomes h limit
    rw [newest_eq, fundingRows_withIntent]
    exact newestTopups_append h
  have settled := pending walletOpSettledOutcomes (by decide) 2
  have terminal := pending walletOpTerminalOutcomes (by decide) 3
  constructor
  · unfold Ledger.walletHalted at unhalted ⊢
    rw [withIntent_rows, List.any_append, unhalted]
    simp [Row.isOp, intent]
  · rintro ⟨a, b, rows, ha, hb⟩
    unfold Ledger.walletOpsSettled at rows
    rw [settled] at rows
    apply unbroken.1
    unfold PumpVerdict pumpStrikesToHalt
    rw [rows]
    simp [ha, hb]
  · rintro ⟨a, b, c, rows, errors⟩
    unfold Ledger.walletOpsTerminal at rows
    rw [terminal] at rows
    apply unbroken.2
    have counted : ∀ r ∈ [a, b, c], r.outcome ∈ walletOpErrorOutcomes := by
      intro r hr
      rcases errors r hr with h | h <;> simp [walletOpErrorOutcomes, h]
    unfold ErrorVerdict topupErrorStrikesToHalt consecutive
    rw [rows]
    simp [counted a (by simp), counted b (by simp), counted c (by simp)]

theorem settleTopups_unbroken (pid : String) (available : ℚ) (reserved : Option ℚ) (s : World) :
    wp handle StoreUp Unbarred (settleTopups pid available reserved)
      (Carries (fun _ => True) fun v rows => v = none → Unbroken pid rows) s := by
  apply wp_settleTopups unbarred_of_plain (J := fun _ => True) (V := fun v rows => v = none → Unbroken pid rows)
    (fun _ _ _ _ _ _ _ _ _ => trivial) _ _ trivial
  · intro t u env d _ _ _
    exact wp_mono (wp_haltTopups (J := fun _ => True) trivial (fun env _ => unbarred_halt pid env u)
      fun _ => trivial) fun _ _ h => h.mono fun _ _ _ => nofun
  · intro t u env env1 hu _ up up1 notPump notError _
    simp only [StoreUp] at up up1
    simp only [handle, World.read, up, World.advance, Ledger.walletOpsSettled, newest_eq] at notPump
    simp only [handle, World.read, up1, World.advance, Ledger.walletOpsTerminal, newest_eq, hu] at notError
    exact ⟨notPump, notError⟩

theorem maybeTopup_unbarred (pid : String) (knobs : Knobs) (available : ℚ) (reserved : Option ℚ) (s : World)
    (unbroken : Unbroken pid (fundingRows s.ledger)) :
    wp handle StoreUp Unbarred (maybeTopup pid knobs available reserved)
      (Carries (fun _ => True) fun _ _ => True) s := by
  apply wp_maybeTopup unbarred_of_plain
  · exact fun ending t _ _ _ _ => .of_rows trivial
  · intro t _
    apply wp_capRefusal unbarred_of_plain
    · exact fun ending u _ _ _ => .of_rows trivial
    · intro env u needed _ _ _
      exact wp_mono (wp_haltTopups (J := fun _ => True) trivial (fun env _ => unbarred_halt pid env u)
        fun _ => trivial) fun _ _ h => h.mono fun _ _ _ => trivial
  · intro t admitted _
    refine wp_mono (wp_fireDeposit unbarred_of_plain (J := fun _ => True) trivial (fun _ => trivial) ?_
      fun _ _ _ _ _ _ _ _ => trivial) fun _ _ h => h.mono fun _ _ _ => trivial
    intro env u hu _ _ pid' amount hop
    cases hop
    rw [hu, admitted.table]
    exact clear_withIntent admitted.unhalted unbroken

/-- Over every run whose ledger statements succeed, from any table and under any
clock, a deposit leaves only where nothing stands against it. -/
theorem no_deposit_behind_breaker (ids : List String) (steps : List (WalletStep × List Env)) (s : World)
    (up : ∀ step ∈ steps, ∀ env ∈ step.2, env.store = .ok) :
    ∀ o ∈ walletRun ids steps s, ∀ e ∈ o.trace, ∀ pid amount,
      e.op = .control pid (.deposit amount) → Clear pid e.before.ledger := by
  have assumed : ∀ o ∈ walletRun ids steps s, ∀ e ∈ o.trace, StoreUp e.op e.env e.before := by
    intro o ho e he
    obtain ⟨step, hstep, henv⟩ := env_mem_of_walletRun ho he
    exact up step hstep _ henv
  refine walletRun_sound unbarred_of_plain (J := fun _ => True) (fun s _ => ?_) (fun _ _ _ _ => trivial)
    trivial assumed
  exact wp_mono
    (wp_cycle unbarred_of_plain (J := fun _ => True) (V := fun pid v rows => v = none → Unbroken pid rows) (P := fun _ _ => True)
      (fun pid available reserved s _ => settleTopups_unbroken pid available reserved s)
      (fun _ _ _ _ => trivial)
      (fun pid knobs available reserved s _ _ unbroken =>
        maybeTopup_unbarred pid knobs available reserved s (unbroken rfl)) ids trivial)
    fun _ _ h => h.mono fun _ _ _ => trivial

/-- A cycle that sends a deposit, with the ledger up. -/
theorem no_deposit_behind_breaker_sample :
    (∃ o ∈ walletRun ["buyer"] [(.cycle, sampleCycle 0 .ok)] ⟨0, .empty⟩, ∃ e ∈ o.trace,
      e.op = .control "buyer" (.deposit 5)) ∧
    ∀ o ∈ walletRun ["buyer"] [(.cycle, sampleCycle 0 .ok)] ⟨0, .empty⟩, ∀ e ∈ o.trace, ∀ pid amount,
      e.op = .control pid (.deposit amount) → Clear pid e.before.ledger :=
  ⟨by decide +kernel,
    no_deposit_behind_breaker ["buyer"] [(.cycle, sampleCycle 0 .ok)] ⟨0, .empty⟩ (by decide +kernel)⟩

end Unhardcoded.Guarantees

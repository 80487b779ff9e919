import Unhardcoded.Guarantees.WalletCycle

/-!
# The daily cap of the wallet keeper

Over every run of cycles and clears, cut anywhere, with any readings, any control
outcome and any failure of the ledger statements: when a deposit leaves for the
control server its intent row is the last row of the table, and the rows of the
last 86400 seconds that count as spent, this one included, stay within the cap
(`deposit_within_daily_cap`). The spend is read before the intent is written, on
a window that starts no later than the one it is judged by; rows only ever leave
that sum by ageing or by closing as `failed`.
-/

namespace Unhardcoded.Guarantees
open Source Effects Program

/-- Funding rows never carry a negative amount. -/
def NonnegAmounts (rows : List Row) : Prop := ∀ row ∈ rows, 0 ≤ row.amountUsdc.getD 0

/-- What stands in the ledger when a deposit of `amount` for `pid` leaves at `now`. -/
def Backed (cap : ℚ) (pid : String) (amount : ℚ) (now : Int) (l : Ledger) : Prop :=
  (∃ earlier row, l.rows = earlier ++ [row] ∧ row.pid = pid ∧ row.op = .topup ∧
    row.amountUsdc = some amount ∧ row.outcome = .pending) ∧
  Ledger.sumUsdc (l.spentSince pid .topup (now - 86400)) ≤ cap

section Sums

/-- A later window over rows without negative amounts sums to no more. -/
theorem sumUsdc_filter_le {p q : Row → Bool} {rows : List Row} (imp : ∀ row, q row = true → p row = true)
    (nonneg : ∀ row ∈ rows, p row = true → 0 ≤ row.amountUsdc.getD 0) :
    Ledger.sumUsdc (rows.filter q) ≤ Ledger.sumUsdc (rows.filter p) := by
  induction rows with
  | nil => exact le_refl _
  | cons row rest ih =>
    have tail := ih fun r hr => nonneg r (List.mem_cons_of_mem _ hr)
    unfold Ledger.sumUsdc at tail ⊢
    cases hq : q row with
    | true =>
      have hp := imp row hq
      simp only [List.filter_cons, hq, hp, if_true, List.map_cons, List.sum_cons]
      linarith
    | false =>
      cases hp : p row with
      | true =>
        have hrow := nonneg row List.mem_cons_self hp
        simp only [List.filter_cons, hq, hp, if_true, Bool.false_eq_true, if_false, List.map_cons,
          List.sum_cons]
        linarith
      | false => simpa [List.filter_cons, hq, hp] using tail

theorem sumUsdc_append (a b : List Row) : Ledger.sumUsdc (a ++ b) = Ledger.sumUsdc a + Ledger.sumUsdc b := by
  simp [Ledger.sumUsdc]

/-- The window of the deposit: what it sums to is at most what was read, and the
new amount. -/
theorem sumUsdc_withIntent_le {l : Ledger} {pid : String} {amount available : ℚ} {reserved : Option ℚ}
    {now since later : Int} (nonneg : NonnegAmounts (fundingRows l)) (positive : 0 ≤ amount)
    (window : since ≤ later) :
    Ledger.sumUsdc ((withIntent l now pid amount available reserved).spentSince pid .topup later) ≤
      Ledger.sumUsdc (l.spentSince pid .topup since) + amount := by
  unfold Ledger.spentSince
  rw [withIntent_rows, List.filter_append, sumUsdc_append]
  apply add_le_add
  · apply sumUsdc_filter_le
    · intro row h
      simp only [decide_eq_true_eq] at h ⊢
      exact ⟨h.1, le_trans window h.2.1, h.2.2⟩
    · intro row hrow h
      simp only [decide_eq_true_eq] at h
      exact nonneg row (List.mem_filter.mpr ⟨hrow, isFunding_of_isOp h.1⟩)
  · rw [List.filter_cons, List.filter_nil]
    split
    · simp [Ledger.sumUsdc, intent]
    · simpa [Ledger.sumUsdc] using positive

theorem nonnegAmounts_map_closeAt {rows : List Row} {opId : Nat} {outcome : Source.Outcome}
    {pa pr : Option ℚ} {now : Int} (h : NonnegAmounts rows) :
    NonnegAmounts (rows.map (Ledger.closeAt opId outcome pa pr now)) := by
  intro r hr
  obtain ⟨row, hrow, rfl⟩ := List.mem_map.mp hr
  unfold Ledger.closeAt
  split
  · exact h row hrow
  · exact h row hrow

theorem nonnegAmounts_append {rows : List Row} {row : Row} (h : NonnegAmounts rows)
    (hrow : 0 ≤ row.amountUsdc.getD 0) : NonnegAmounts (rows ++ [row]) := by
  intro r hr
  rcases List.mem_append.mp hr with hr | hr
  · exact h r hr
  · rw [List.mem_singleton.mp hr]
    exact hrow

theorem nonnegAmounts_halt {l : Ledger} (now : Int) (pid : String) (h : NonnegAmounts (fundingRows l)) :
    NonnegAmounts (fundingRows (l.walletHalt now pid .topup)) := by
  rcases fundingRows_halt_topup l now pid with same | added
  · rw [same]
    exact h
  · rw [added]
    exact nonnegAmounts_append h (le_refl _)

end Sums

section Cap

variable (cap : ℚ)

/-- The clock does not step back, and every readable knob set caps the day at
`cap` or below. -/
def Capped (_ : Effect) (env : Env) (_ : World) : Prop :=
  0 ≤ env.elapsed ∧ ∀ k ∈ env.settings, k.topupDailyCapUsdc ≤ cap

/-- A deposit that leaves is backed by the ledger. -/
def Covered (op : Effect) (env : Env) (s : World) : Prop :=
  ∀ pid amount, op = .control pid (.deposit amount) →
    Backed cap pid amount (s.now + env.elapsed) s.ledger

theorem covered_of_plain (op : Effect) (env : Env) (s : World) (h : plain op = true) :
    Covered cap op env s := by
  intro pid amount hop
  subst hop
  simp [plain] at h

theorem covered_halt (pid : String) (env : Env) (s : World) :
    Covered cap (.walletHalt pid .topup) env s := fun _ _ h => by cases h

theorem settleTopups_cap (pid : String) (available : ℚ) (reserved : Option ℚ) (s : World)
    (hs : NonnegAmounts (fundingRows s.ledger)) :
    wp handle (Capped cap) (Covered cap) (settleTopups pid available reserved)
      (Carries NonnegAmounts fun _ _ => True) s := by
  apply wp_settleTopups (covered_of_plain cap) (V := fun _ _ => True) _ _ (fun _ _ _ _ _ _ _ _ _ _ => trivial) hs
  · intro env w row outcome open_ _ _ _ hw
    have topups : ∀ r ∈ w.ledger.rows, r.id = row.id → r.op = .topup := by
      intro r hr hid
      have same := eq_of_id hr open_.mem hid
      have := open_.isOp
      simp only [Row.isOp, decide_eq_true_eq] at this
      rw [same, this.2]
    rw [fundingRows_finish_topup _ _ _ topups]
    exact nonnegAmounts_map_closeAt hw
  · intro t u env d hu ht _
    rw [← hu] at ht
    exact wp_mono (wp_haltTopups ht (fun env _ => covered_halt cap pid env u)
      fun now => nonnegAmounts_halt now pid ht) fun _ _ h => h.mono fun _ _ _ => trivial

theorem fireDeposit_cap {pid : String} {knobs : Knobs} {available : ℚ} {reserved : Option ℚ} {s t : World}
    (capped : knobs.topupDailyCapUsdc ≤ cap) (admitted : Admitted (Capped cap) pid knobs s t)
    (hs : NonnegAmounts (fundingRows s.ledger)) :
    wp handle (Capped cap) (Covered cap)
      (fireDeposit pid (min knobs.topupAmountUsdc maxTopupUsdc) available reserved)
      (Carries NonnegAmounts NoHalt) t := by
  obtain ⟨table, -, enough, since, window, within_⟩ := admitted
  have positive : 0 ≤ min knobs.topupAmountUsdc maxTopupUsdc :=
    le_trans (by norm_num [minTopupUsdc]) enough
  have ht : NonnegAmounts (fundingRows t.ledger) := by
    rw [table]
    exact hs
  have opened : ∀ now, NonnegAmounts (fundingRows (withIntent t.ledger now pid
      (min knobs.topupAmountUsdc maxTopupUsdc) available reserved)) := by
    intro now
    rw [fundingRows_withIntent]
    exact nonnegAmounts_append ht positive
  have forward : ClockForward (Capped cap) := fun _ _ _ h => h.1
  apply wp_fireDeposit (covered_of_plain cap) ht opened
  · intro env u hu clock asked pid' amount hop
    cases hop
    refine ⟨⟨t.ledger.rows, _, by rw [hu, withIntent_rows], rfl, rfl, rfl, rfl⟩, ?_⟩
    have later : since ≤ u.now + env.elapsed - 86400 := by
      have := window forward
      have := clock forward
      have := asked.1
      omega
    calc Ledger.sumUsdc (u.ledger.spentSince pid .topup (u.now + env.elapsed - 86400))
        ≤ Ledger.sumUsdc (t.ledger.spentSince pid .topup since) + min knobs.topupAmountUsdc maxTopupUsdc := by
          rw [hu]
          exact sumUsdc_withIntent_le ht positive later
      _ ≤ Ledger.sumUsdc (t.ledger.spentSince pid .topup since) + knobs.topupAmountUsdc := by
          gcongr
          exact min_le_left _ _
      _ ≤ knobs.topupDailyCapUsdc := by
          rw [table]
          exact within_
      _ ≤ cap := capped
  · intro now env w outcome hw _ _ _
    rw [hw, fundingRows_close_intent]
    exact nonnegAmounts_append ht positive

theorem maybeTopup_cap (pid : String) (knobs : Knobs) (available : ℚ) (reserved : Option ℚ) (s : World)
    (readable : Readable (Capped cap) knobs) (hs : NonnegAmounts (fundingRows s.ledger)) :
    wp handle (Capped cap) (Covered cap) (maybeTopup pid knobs available reserved)
      (Carries NonnegAmounts fun _ _ => True) s := by
  obtain ⟨env, w, asked, read⟩ := readable
  have capped : knobs.topupDailyCapUsdc ≤ cap := asked.2 knobs read
  apply wp_maybeTopup (covered_of_plain cap)
  · exact fun ending t ht _ _ _ => .of_rows (by rw [ht]; exact hs)
  · intro t refused
    apply wp_capRefusal (covered_of_plain cap)
    · exact fun ending u hu _ _ => .of_rows (by rw [hu, refused.table]; exact hs)
    · intro env u needed hu _ _
      have hu' : NonnegAmounts (fundingRows u.ledger) := by
        rw [hu, refused.table]
        exact hs
      exact wp_mono (wp_haltTopups hu' (fun env _ => covered_halt cap pid env u)
        fun now => nonnegAmounts_halt now pid hu') fun _ _ h => h.mono fun _ _ _ => trivial
  · exact fun t admitted _ => wp_mono (fireDeposit_cap cap capped admitted hs)
      fun _ _ h => h.mono fun _ _ _ => trivial

end Cap

/-- Over every run from an empty ledger, a deposit that leaves has its intent row
persisted and keeps the day's spend within the cap. -/
theorem deposit_within_daily_cap (ids : List String) (cap : ℚ) (steps : List (WalletStep × List Env))
    (start : Int)
    (clock : ∀ step ∈ steps, ∀ env ∈ step.2, 0 ≤ env.elapsed)
    (knobs : ∀ step ∈ steps, ∀ env ∈ step.2, ∀ k ∈ env.settings, k.topupDailyCapUsdc ≤ cap) :
    ∀ o ∈ walletRun ids steps ⟨start, .empty⟩, ∀ e ∈ o.trace, ∀ pid amount,
      e.op = .control pid (.deposit amount) →
      Backed cap pid amount (e.before.now + e.env.elapsed) e.before.ledger := by
  have empty : NonnegAmounts (fundingRows Ledger.empty) := List.forall_mem_nil _
  have assumed : ∀ o ∈ walletRun ids steps ⟨start, .empty⟩, ∀ e ∈ o.trace,
      Capped cap e.op e.env e.before := by
    intro o ho e he
    obtain ⟨step, hstep, henv⟩ := env_mem_of_walletRun ho he
    exact ⟨clock step hstep _ henv, knobs step hstep _ henv⟩
  refine walletRun_sound (covered_of_plain cap) (J := NonnegAmounts) ?_ ?_ empty assumed
  · intro s hs
    apply wp_mono (wp_cycle (covered_of_plain cap) (V := fun _ _ _ => True) (P := fun _ _ => True)
      (fun pid available reserved s hs => settleTopups_cap cap pid available reserved s hs)
      (fun _ _ _ _ => trivial)
      (fun pid knobs available reserved s readable hs _ =>
        maybeTopup_cap cap pid knobs available reserved s readable hs) ids hs)
    exact fun _ _ h => h.mono fun _ _ _ => trivial
  · intro l pid kind hl
    rw [fundingRows_clear]
    exact fun row hrow => hl row (List.mem_of_mem_filter hrow)

/-- One cycle of the sample wallet sends its deposit, backed by a spend of 5 under
the cap of 20. -/
theorem deposit_within_daily_cap_sample :
    (∃ o ∈ walletRun ["buyer"] [(.cycle, sampleCycle 0 .ok)] ⟨0, .empty⟩, ∃ e ∈ o.trace,
      e.op = .control "buyer" (.deposit 5)) ∧
    ∀ o ∈ walletRun ["buyer"] [(.cycle, sampleCycle 0 .ok)] ⟨0, .empty⟩, ∀ e ∈ o.trace, ∀ pid amount,
      e.op = .control pid (.deposit amount) →
      Backed 20 pid amount (e.before.now + e.env.elapsed) e.before.ledger :=
  ⟨by decide +kernel,
    deposit_within_daily_cap ["buyer"] 20 [(.cycle, sampleCycle 0 .ok)] 0 (by decide +kernel)
      (by decide +kernel)⟩

end Unhardcoded.Guarantees

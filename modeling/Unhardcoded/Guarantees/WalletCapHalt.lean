import Mathlib.Data.List.TakeWhile
import Unhardcoded.Guarantees.WalletHaltClear

/-!
# Errors never fill the daily cap in silence

While every closed top-up of a provider ended as `failed` or `unknown`, the daily cap
refuses only where the errors are as many as the cap admits, and the refusal is the
error halt (`no_silent_stall`). All rows carry the one amount of the knobs
(`Uniform`), the settlement pass leaves no pending row behind (`Reconciled`), and a
halt row stays through the rest of the cycle (`Standing`).
-/

namespace Unhardcoded.Guarantees
open Source Effects Program

section Rows

/-- No top-up of `pid` has been measured: an intent, or closed as an error. -/
def Unmeasured (pid : String) (rows : List Row) : Prop :=
  ∀ row ∈ rows, row.isOp pid .topup = true → row.outcome = .pending ∨ row.outcome ∈ walletOpErrorOutcomes

/-- No intent of `pid` is left open. -/
def Reconciled (pid : String) (rows : List Row) : Prop :=
  ∀ row ∈ rows, row.isOp pid .topup = true → row.outcome ≠ .pending

/-- Every top-up carries the amount of the knobs, which is no dust. -/
def Uniform (k : Knobs) (rows : List Row) : Prop :=
  ∀ row ∈ rows, row.op = .topup → row.amountUsdc = some k.topupAmountUsdc ∧ minTopupUsdc ≤ k.topupAmountUsdc

/-- The top-up halt of `pid` stands. -/
def Standing (pid : String) (rows : List Row) : Prop :=
  ∃ row ∈ rows, row.isOp pid (.halt .topup) = true ∧ row.outcome = .halted

theorem uniform_append {k : Knobs} {rows : List Row} {row : Row} (h : Uniform k rows)
    (new : row.op = .topup → row.amountUsdc = some k.topupAmountUsdc ∧ minTopupUsdc ≤ k.topupAmountUsdc) :
    Uniform k (rows ++ [row]) := by
  intro r hr
  rcases List.mem_append.mp hr with hr | hr
  · exact h r hr
  · rw [List.mem_singleton.mp hr]
    exact new

theorem uniform_map_closeAt {k : Knobs} {rows : List Row} {opId : Nat} {outcome : Source.Outcome}
    {pa pr : Option ℚ} {now : Int} (h : Uniform k rows) :
    Uniform k (rows.map (Ledger.closeAt opId outcome pa pr now)) := by
  intro r hr
  obtain ⟨row, hrow, rfl⟩ := List.mem_map.mp hr
  unfold Ledger.closeAt
  split
  · exact h row hrow
  · exact h row hrow

theorem uniform_halt {k : Knobs} {l : Ledger} (now : Int) (pid : String) (h : Uniform k (fundingRows l)) :
    Uniform k (fundingRows (l.walletHalt now pid .topup)) := by
  rcases fundingRows_halt_topup l now pid with same | added
  · rw [same]
    exact h
  · rw [added]
    exact uniform_append h nofun

theorem standing_append {pid : String} {rows : List Row} (row : Row) (h : Standing pid rows) :
    Standing pid (rows ++ [row]) := by
  obtain ⟨r, mem, stands⟩ := h
  exact ⟨r, List.mem_append_left _ mem, stands⟩

theorem standing_halt {l : Ledger} (now : Int) (pid p : String) (h : Standing pid (fundingRows l)) :
    Standing pid (fundingRows (l.walletHalt now p .topup)) := by
  rcases fundingRows_halt_topup l now p with same | added
  · rw [same]
    exact h
  · rw [added]
    exact standing_append _ h

/-- A written halt stands. -/
theorem standing_of_halt (l : Ledger) (now : Int) (pid : String) :
    Standing pid (fundingRows (l.walletHalt now pid .topup)) := by
  unfold Ledger.walletHalt
  split
  · rename_i already
    obtain ⟨row, mem, stands⟩ := List.any_eq_true.mp already
    rw [decide_eq_true_eq] at stands
    have op : row.op = .halt .topup := by
      have := stands.1
      simp only [Row.isOp, decide_eq_true_eq] at this
      exact this.2
    exact ⟨row, List.mem_filter.mpr ⟨mem, by simp [isFunding, op, stands.2]⟩, stands⟩
  · rw [fundingRows_insert]
    exact ⟨_, List.mem_append_right _ (List.mem_singleton_self _), by simp [Row.isOp]⟩

theorem standing_iff (pid : String) (l : Ledger) :
    Standing pid (fundingRows l) ↔ l.walletHalted pid .topup = true := by
  unfold Standing Ledger.walletHalted
  rw [List.any_eq_true]
  constructor
  · rintro ⟨row, mem, stands⟩
    exact ⟨row, List.mem_of_mem_filter mem, by simpa using stands⟩
  · rintro ⟨row, mem, stands⟩
    rw [decide_eq_true_eq] at stands
    have op : row.op = .halt .topup := by
      have := stands.1
      simp only [Row.isOp, decide_eq_true_eq] at this
      exact this.2
    exact ⟨row, List.mem_filter.mpr ⟨mem, by simp [isFunding, op, stands.2]⟩, stands⟩

/-- Closing an open top-up touches no halt. -/
theorem standing_finish {pid p : String} {l : Ledger} {row : Row} {outcome : Source.Outcome} {pa pr : Option ℚ}
    (now : Int) (open_ : OpenTopup p l row) (h : Standing pid (fundingRows l)) :
    Standing pid (fundingRows (l.walletOpFinish now row.id outcome pa pr)) := by
  have topup : row.op = .topup := by
    have := open_.isOp
    simp only [Row.isOp, decide_eq_true_eq] at this
    exact this.2
  have topups : ∀ r ∈ l.rows, r.id = row.id → r.op = .topup := by
    intro r hr hid
    rw [eq_of_id hr open_.mem hid, topup]
  obtain ⟨halt, mem, stands⟩ := h
  have kind : halt.op = .halt .topup := by
    have := stands.1
    simp only [Row.isOp, decide_eq_true_eq] at this
    exact this.2
  have other : halt.id ≠ row.id := by
    intro same
    rw [topups halt (List.mem_of_mem_filter mem) same] at kind
    cases kind
  rw [fundingRows_finish_topup _ _ _ topups]
  exact ⟨halt, List.mem_map.mpr ⟨halt, mem, by simp [Ledger.closeAt, other]⟩, stands⟩

end Rows

section Arithmetic

/-- Rows of one amount sum to their number times it. -/
theorem sumUsdc_uniform {amount : ℚ} {rows : List Row} (h : ∀ row ∈ rows, row.amountUsdc = some amount) :
    Ledger.sumUsdc rows = rows.length * amount := by
  induction rows with
  | nil => simp [Ledger.sumUsdc]
  | cons row rest ih =>
    have tail := ih fun r hr => h r (List.mem_cons_of_mem _ hr)
    unfold Ledger.sumUsdc at tail ⊢
    rw [List.map_cons, List.sum_cons, tail, h row List.mem_cons_self, List.length_cons]
    push_cast
    simp only [Option.getD_some]
    ring

/-- What the cap no longer admits is as many deposits as `capped_strikes_to_halt` asks for. -/
theorem cappedStrikes_le {k : Knobs} {needed : Int} {n : Nat} (valid : k.topupAmountUsdc ≤ k.topupDailyCapUsdc)
    (asked : cappedStrikesToHalt k = some needed) (dust : n ≠ 0 → minTopupUsdc ≤ k.topupAmountUsdc)
    (full : k.topupDailyCapUsdc < n * k.topupAmountUsdc + k.topupAmountUsdc) : needed ≤ min 3 n := by
  have some_ : n ≠ 0 := by
    rintro rfl
    simp only [Nat.cast_zero, zero_mul, zero_add] at full
    exact absurd full (not_lt.mpr valid)
  have positive : 0 < k.topupAmountUsdc := lt_of_lt_of_le (by norm_num [minTopupUsdc]) (dust some_)
  have quotient : k.topupDailyCapUsdc / k.topupAmountUsdc < n + 1 := by
    rw [div_lt_iff₀ positive]
    linarith
  have nonneg : 0 ≤ k.topupDailyCapUsdc / k.topupAmountUsdc :=
    div_nonneg (le_trans positive.le valid) positive.le
  have floor : truncate (k.topupDailyCapUsdc / k.topupAmountUsdc) ≤ n := by
    unfold truncate
    rw [if_pos nonneg]
    have below : ⌊k.topupDailyCapUsdc / k.topupAmountUsdc⌋ < (n : Int) + 1 := by
      rw [Int.floor_lt]
      push_cast
      exact quotient
    omega
  unfold cappedStrikesToHalt at asked
  rw [if_neg positive.ne'] at asked
  have value := Option.some.inj asked
  unfold topupErrorStrikesToHalt at value
  omega

/-- Where every top-up of `pid` is an error, the strikes are all of them. -/
theorem spent_le_strikes {pid : String} {l : Ledger} {since : Int}
    (errors : ∀ row ∈ l.rows, row.isOp pid .topup = true → row.outcome ∈ walletOpErrorOutcomes) :
    (l.spentSince pid .topup since).length ≤
      strikes pid walletOpTerminalOutcomes walletOpErrorOutcomes (fundingRows l) := by
  have terminal : ∀ outcome ∈ walletOpErrorOutcomes, outcome ∈ walletOpTerminalOutcomes := by decide
  have all : ∀ row ∈ ((fundingRows l).filter fun row => row.isOp pid .topup ∧ row.outcome ∈ walletOpTerminalOutcomes).reverse,
      decide (row.outcome ∈ walletOpErrorOutcomes) = true := by
    intro row mem
    have there := List.mem_filter.mp (List.mem_reverse.mp mem)
    rw [decide_eq_true_eq] at there
    exact decide_eq_true (errors row (List.mem_of_mem_filter there.1) there.2.1)
  unfold strikes consecutive Ledger.spentSince
  rw [List.takeWhile_eq_self_iff.mpr all, List.length_reverse, ← filter_eq_filter_funding, ← List.countP_eq_length_filter,
    ← List.countP_eq_length_filter]
  · apply List.countP_mono_left
    intro row mem spent
    rw [decide_eq_true_eq] at spent ⊢
    exact ⟨spent.1, terminal _ (errors row mem spent.1)⟩
  · intro row h
    rw [decide_eq_true_eq] at h
    exact isFunding_of_isOp h.1

end Arithmetic

section Cycle

variable (k : Knobs) (pid : String) (judged : Prop)

/-- A ledger that answers and knobs that stay; in the cycle that is judged, no measured
top-up of `pid` so far. -/
structure Measureless (op : Effect) (env : Env) (s : World) : Prop where
  up : env.store = .ok
  fixed : ∀ k' ∈ env.settings, k' = k
  unmeasured : judged → Unmeasured pid (fundingRows s.ledger)

/-- The settlement pass of `pid` left no intent; the verdicts it gives are halts that stand. -/
def Settled (p : String) (v : Option TopupDecision) (rows : List Row) : Prop :=
  p = pid → match v with
    | none => Reconciled pid rows
    | some d => d ≠ .dailyCap ∧ (d = .errorHalt → Standing pid rows)

/-- A decision for `pid` that is no silent refusal, where it is judged. -/
def Voiced (p : String) (d : TopupDecision) (rows : List Row) : Prop :=
  p = pid ∧ judged → d ≠ .dailyCap ∧ (d = .errorHalt → Standing pid rows)

variable {k pid judged}

/-- With the ledger up, a halt is written before it is answered. -/
theorem wp_haltTopups_up {p : String} {d : TopupDecision} {s : World} (hs : Uniform k (fundingRows s.ledger)) :
    wp handle (Measureless k pid judged) (fun _ _ _ => True) (haltTopups p d)
      (Carries (Uniform k) fun v rows => v = d ∧ Standing p rows) s := by
  unfold haltTopups
  simp only [wp_bind, wp_call, andThen]
  refine ⟨hs, fun env asked => ⟨trivial, ?_⟩⟩
  simp only [handle, World.write, asked.up]
  exact ⟨uniform_halt _ p hs, rfl, standing_of_halt _ _ p⟩

/-- The settlement loop closes every intent it was given. -/
theorem settleRows_reconciles {now : Int} {available : ℚ} {reserved : Option ℚ} (todo : List Row) {s : World}
    (listed : ∀ row ∈ s.ledger.rows, row.isOp pid .topup = true → row.outcome = .pending → row ∈ todo) :
    wp handle (Measureless k pid judged) (fun _ _ _ => True) (settleRows now available reserved todo)
      (fun ending t => ending = .returned () →
        ∀ row ∈ t.ledger.rows, row.isOp pid .topup = true → row.outcome ≠ .pending) s := by
  induction todo generalizing s with
  | nil => exact fun _ row mem hop pending => List.not_mem_nil (listed row mem hop pending)
  | cons row rest ih =>
    unfold settleRows
    split
    · rename_i open_
      -- a pending row always gets a verdict
      apply ih
      intro r mem hop pending
      rcases List.mem_cons.mp (listed r mem hop pending) with rfl | later
      · simp [settleVerdict, pending] at open_
      · exact later
    · rename_i outcome verdict
      have closed : outcome ≠ .pending := by
        rcases settleVerdict_cases verdict with rfl | rfl | rfl <;> simp
      simp only [wp_bind, wp_call, andThen]
      refine ⟨by simp, fun env asked => ⟨trivial, ?_⟩⟩
      simp only [handle, World.write, asked.up]
      apply ih
      intro r mem hop pending
      obtain ⟨old, was, rfl⟩ := List.mem_map.mp mem
      rw [Ledger.closeAt_isOp] at hop
      unfold Ledger.closeAt at pending ⊢
      split at pending
      · exact absurd pending closed
      · rename_i other
        rw [if_neg other]
        rcases List.mem_cons.mp (listed old was hop pending) with rfl | later
        · exact absurd rfl other
        · exact later

theorem settleTopups_reconciles (available : ℚ) (reserved : Option ℚ) (s : World) :
    wp handle (Measureless k pid judged) (fun _ _ _ => True) (settleTopups pid available reserved)
      (Carries (fun _ => True) fun v rows => v = none → Reconciled pid rows) s := by
  unfold settleTopups
  simp only [wp_bind, wp_call, andThen]
  refine ⟨trivial, fun env _ => ⟨trivial, ?_⟩⟩
  rw [handle_reads rfl]
  refine ⟨trivial, fun env1 asked => ⟨trivial, ?_⟩⟩
  have listed : ∀ row ∈ (s.advance env.elapsed).ledger.rows, row.isOp pid .topup = true → row.outcome = .pending →
      row ∈ (handle (.walletOpsOpen pid (some .topup)) env1 (s.advance env.elapsed)).1 := by
    intro row mem hop pending
    simp only [Row.isOp, decide_eq_true_eq] at hop
    simp only [handle, World.read, asked.up, World.advance, Ledger.walletOpsOpen]
    exact List.mem_filter.mpr ⟨mem, by simp [hop.1, hop.2, pending, walletOpOpenOutcomes]⟩
  rw [handle_reads rfl]
  apply wp_mono (settleRows_reconciles (s := (s.advance env.elapsed).advance env1.elapsed) _ listed)
  intro ending t ht
  cases ending with
  | crashed => exact trivial
  | raised error => exact trivial
  | returned _ =>
    have clean : Reconciled pid (fundingRows t.ledger) := fun row mem => ht rfl row (List.mem_of_mem_filter mem)
    have halts : ∀ (d : TopupDecision) (u : World),
        wp handle (Measureless k pid judged) (fun _ _ _ => True) (do return some (← haltTopups pid d))
          (Carries (fun _ => True) fun v rows => v = none → Reconciled pid rows) u := by
      intro d u
      refine wp_bind_mono (wp_haltTopups (J := fun _ => True) trivial (fun _ _ => trivial) fun _ => trivial)
        (fun _ h => h) (fun _ _ h => h) fun _ _ _ => ⟨trivial, by simp⟩
    simp only [andThen]
    refine ⟨trivial, fun env2 _ => ⟨trivial, ?_⟩⟩
    rw [handle_reads rfl]
    split
    · exact halts _ _
    simp only [wp_bind, wp_call, andThen]
    refine ⟨trivial, fun env3 _ => ⟨trivial, ?_⟩⟩
    rw [handle_reads rfl]
    split
    · exact halts _ _
    · exact ⟨trivial, fun _ => clean⟩

theorem settleTopups_settled (p : String) (available : ℚ) (reserved : Option ℚ) (s : World)
    (hs : Uniform k (fundingRows s.ledger)) :
    wp handle (Measureless k pid judged) (fun _ _ _ => True) (settleTopups p available reserved)
      (Carries (Uniform k) (Settled pid p)) s := by
  have verdicts : wp handle (Measureless k pid judged) (fun _ _ _ => True) (settleTopups p available reserved)
      (Carries (Uniform k) fun v rows => ∀ d ∈ v, d ≠ .dailyCap ∧ (d = .errorHalt → Standing p rows)) s := by
    apply wp_settleTopups (fun _ _ _ _ => trivial)
      (V := fun v rows => ∀ d ∈ v, d ≠ .dailyCap ∧ (d = .errorHalt → Standing p rows)) _ _
      (fun _ _ _ _ _ _ _ _ _ _ => by simp) hs
    · intro env w row outcome open_ _ _ _ hw
      have topups : ∀ r ∈ w.ledger.rows, r.id = row.id → r.op = .topup := by
        intro r hr hid
        have := open_.isOp
        simp only [Row.isOp, decide_eq_true_eq] at this
        rw [eq_of_id hr open_.mem hid, this.2]
      rw [fundingRows_finish_topup _ _ _ topups]
      exact uniform_map_closeAt hw
    · intro t u env d hu ht which
      rw [← hu] at ht
      refine wp_mono (wp_haltTopups_up ht) fun _ _ h => h.mono fun v rows stands d' mem => ?_
      cases mem
      rw [stands.1]
      refine ⟨?_, fun _ => stands.2⟩
      rcases which with ⟨rfl, -⟩ | ⟨rfl, -⟩ <;> simp
  by_cases same : p = pid
  · subst same
    refine wp_mono (wp_and verdicts (settleTopups_reconciles available reserved s)) fun ending t h => ?_
    cases ending with
    | crashed => exact h.1
    | raised error => exact h.1
    | returned v =>
      refine ⟨h.1.1, fun _ => ?_⟩
      cases v with
      | none => exact h.2.2 rfl
      | some d => exact h.1.2 d rfl
  · exact wp_mono verdicts fun _ _ h => h.mono fun _ _ _ own => absurd own same

/-- The deposit attempt does not speak of the cap. -/
theorem fireDeposit_answers {Assume : Effect → Env → World → Prop} (p : String) (amount available : ℚ) (reserved : Option ℚ)
    (s : World) :
    wp handle Assume (fun _ _ _ => True) (fireDeposit p amount available reserved)
      (fun ending _ => ending ≠ .returned .dailyCap) s := by
  unfold fireDeposit
  simp only [wp_bind, wp_call, andThen]
  refine ⟨by simp, fun env _ => ⟨trivial, ?_⟩⟩
  split
  · simp
  · rw [wp_bind]
    apply wp_controlOrClose
    · simp [andThen]
    · exact fun _ _ => trivial
    · intro env1 resp
      simp only [andThen, closeDeposit]
      split
      · simp only [wp_bind, wp_call, andThen]
        exact ⟨by simp, fun _ _ => ⟨trivial, by simp⟩⟩
      · simp only [wp_bind, wp_call, andThen]
        refine ⟨by simp, fun _ _ => ⟨trivial, ?_⟩⟩
        split
        · simp
        · simp
    · intro env1 exn
      simp only [wp_bind, wp_call, andThen]
      exact ⟨by simp, fun _ _ => ⟨trivial, by simp [andThen]⟩⟩

/-- The cap refuses only where the errors fill it, and the refusal is a standing halt. -/
theorem capRefusal_halts (here : judged) (valid : k.topupAmountUsdc ≤ k.topupDailyCapUsdc) {s t : World}
    (refused : Refused (Measureless k pid judged) pid k s t) (uniform : Uniform k (fundingRows s.ledger))
    (reconciled : Reconciled pid (fundingRows s.ledger)) :
    wp handle (Measureless k pid judged) (fun _ _ _ => True) (capRefusal pid k) (Carries (Uniform k) (Voiced pid judged pid)) t := by
  obtain ⟨table, since, env, u, same, asked, over_⟩ := refused
  have errors : ∀ row ∈ s.ledger.rows, row.isOp pid .topup = true → row.outcome ∈ walletOpErrorOutcomes := by
    intro row mem hop
    have funding : row ∈ fundingRows s.ledger := List.mem_filter.mpr ⟨mem, isFunding_of_isOp hop⟩
    have measured := asked.unmeasured here
    rw [same] at measured
    exact (measured row funding hop).resolve_left (reconciled row funding hop)
  have amounts : ∀ row ∈ s.ledger.spentSince pid .topup since,
      row.amountUsdc = some k.topupAmountUsdc ∧ minTopupUsdc ≤ k.topupAmountUsdc := by
    intro row mem
    obtain ⟨there, spent⟩ := List.mem_filter.mp mem
    rw [decide_eq_true_eq] at spent
    have op := spent.1
    simp only [Row.isOp, decide_eq_true_eq] at op
    exact uniform row (List.mem_filter.mpr ⟨there, isFunding_of_isOp spent.1⟩) op.2
  have full : k.topupDailyCapUsdc <
      (s.ledger.spentSince pid .topup since).length * k.topupAmountUsdc + k.topupAmountUsdc := by
    simp only [handle, World.read, asked.up, World.advance, Ledger.walletOpSpendSince, same, ← WithTop.coe_add,
      WithTop.coe_lt_coe] at over_
    rwa [sumUsdc_uniform fun row mem => (amounts row mem).1] at over_
  have dust : (s.ledger.spentSince pid .topup since).length ≠ 0 → minTopupUsdc ≤ k.topupAmountUsdc := by
    intro some_
    obtain ⟨row, mem⟩ := List.exists_mem_of_length_pos (Nat.pos_of_ne_zero some_)
    exact (amounts row mem).2
  have standing : Uniform k (fundingRows t.ledger) := by
    rw [table]
    exact uniform
  unfold capRefusal errorStrikes
  simp only [wp_bind, wp_call, wp_pure, andThen]
  refine ⟨standing, fun env1 asked1 => ⟨trivial, ?_⟩⟩
  rw [handle_reads rfl]
  cases hneeded : cappedStrikesToHalt k with
  | none => exact standing
  | some needed =>
    have enough : needed ≤ consecutive (handle (.walletOpsTerminal pid .topup topupErrorStrikesToHalt) env1 t).1
        walletOpErrorOutcomes := by
      simp only [handle, World.read, asked1.up, World.advance, Ledger.walletOpsTerminal, newest_eq, table]
      rw [consecutive_newestTopups pid _ _ (by decide) (by decide)]
      have counted := @spent_le_strikes pid s.ledger since errors
      have fits := cappedStrikes_le valid hneeded dust full
      unfold topupErrorStrikesToHalt
      omega
    dsimp only
    rw [if_pos enough]
    exact wp_mono (@wp_haltTopups_up k pid judged pid .errorHalt (t.advance env1.elapsed) standing)
      fun _ _ h => h.mono fun v rows stands _ => ⟨by rw [stands.1]; simp, fun _ => stands.2⟩

theorem maybeTopup_voiced (valid : k.topupAmountUsdc ≤ k.topupDailyCapUsdc ∧ k.topupAmountUsdc ≤ maxTopupUsdc)
    (p : String) (knobs : Knobs) (available : ℚ) (reserved : Option ℚ) (s : World)
    (readable : Readable (Measureless k pid judged) knobs) (hs : Uniform k (fundingRows s.ledger))
    (settled : Settled pid p none (fundingRows s.ledger)) :
    wp handle (Measureless k pid judged) (fun _ _ _ => True) (maybeTopup p knobs available reserved)
      (Carries (Uniform k) (Voiced pid judged p)) s := by
  obtain ⟨_, _, asked, read⟩ := readable
  obtain rfl := asked.fixed knobs read
  apply wp_maybeTopup fun _ _ _ _ => trivial
  · intro ending t ht _ noError noCap
    have kept : Uniform knobs (fundingRows t.ledger) := by
      rw [ht]
      exact hs
    cases ending with
    | crashed => exact kept
    | raised error => exact kept
    | returned d => exact ⟨kept, fun _ => ⟨fun h => noCap (by rw [h]), fun h => absurd (by rw [h]) noError⟩⟩
  · intro t refused
    by_cases same : p = pid ∧ judged
    · obtain ⟨rfl, here⟩ := same
      exact capRefusal_halts here valid.1 refused hs (settled rfl)
    · have ht : Uniform knobs (fundingRows t.ledger) := by
        rw [refused.table]
        exact hs
      apply wp_capRefusal fun _ _ _ _ => trivial
      · intro ending u hu _ _
        have kept : Uniform knobs (fundingRows u.ledger) := by
          rw [hu]
          exact ht
        cases ending with
        | crashed => exact kept
        | raised error => exact kept
        | returned d => exact ⟨kept, fun own => absurd own same⟩
      · intro env u needed hu _ _
        rw [← hu] at ht
        exact wp_mono (wp_haltTopups_up ht) fun _ _ h => h.mono fun _ _ _ own => absurd own same
  · intro t admitted _
    have amount : min knobs.topupAmountUsdc maxTopupUsdc = knobs.topupAmountUsdc := min_eq_left valid.2
    have positive := admitted.positive
    rw [amount] at positive
    have ht : Uniform knobs (fundingRows t.ledger) := by
      rw [admitted.table]
      exact hs
    rw [amount]
    have carried : wp handle (Measureless knobs pid judged) (fun _ _ _ => True)
        (fireDeposit p knobs.topupAmountUsdc available reserved) (Carries (Uniform knobs) NoHalt) t := by
      apply wp_fireDeposit (fun _ _ _ _ => trivial) ht
      · intro now
        rw [fundingRows_withIntent]
        exact uniform_append ht fun _ => ⟨rfl, positive⟩
      · exact fun _ _ _ _ _ => trivial
      · intro now env w outcome hw _ _ _
        rw [hw, fundingRows_close_intent]
        exact uniform_append ht fun _ => ⟨rfl, positive⟩
    refine wp_mono (wp_and carried (fireDeposit_answers p _ available reserved t)) fun ending u h => ?_
    cases ending with
    | crashed => exact h.1
    | raised error => exact h.1
    | returned d => exact ⟨h.1.1, fun _ => ⟨fun cap => h.2 (by rw [cap]), fun halt => absurd halt h.1.2.2⟩⟩

/-- A standing halt outlasts the rest of the cycle. -/
theorem providers_standing (knobs : Knobs) (readable : Readable (Measureless k pid judged) knobs) (ids : List String) {s : World}
    (hs : Standing pid (fundingRows s.ledger)) :
    wp handle (Measureless k pid judged) (fun _ _ _ => True) (cycleProviders knobs ids)
      (Carries (Standing pid) fun _ _ => True) s := by
  refine wp_mono (wp_cycleProviders (J := Standing pid) (V := fun _ _ _ => True) (P := fun _ _ => True)
    (fun _ _ _ _ => trivial) ?_ (fun _ _ _ _ => trivial) ?_ readable ids hs) fun _ _ h => h.mono fun _ _ _ => trivial
  · intro p available reserved t ht
    apply wp_settleTopups (fun _ _ _ _ => trivial) (V := fun _ _ => True) _ _ (fun _ _ _ _ _ _ _ _ _ _ => trivial) ht
    · exact fun env w row outcome open_ _ _ _ hw => standing_finish _ open_ hw
    · intro u w env d hw hu _
      rw [← hw] at hu
      exact wp_mono (wp_haltTopups hu (fun _ _ => trivial) fun now => standing_halt now pid p hu)
        fun _ _ h => h.mono fun _ _ _ => trivial
  · intro p knobs' available reserved t _ ht _
    apply wp_maybeTopup fun _ _ _ _ => trivial
    · exact fun ending u hu _ _ _ => .of_rows (by rw [hu]; exact ht)
    · intro u refused
      apply wp_capRefusal fun _ _ _ _ => trivial
      · exact fun ending w hw _ _ => .of_rows (by rw [hw, refused.table]; exact ht)
      · intro env w needed hw _ _
        have hw' : Standing pid (fundingRows w.ledger) := by
          rw [hw, refused.table]
          exact ht
        exact wp_mono (wp_haltTopups hw' (fun _ _ => trivial) fun now => standing_halt now pid p hw')
          fun _ _ h => h.mono fun _ _ _ => trivial
    · intro u admitted _
      have hu : Standing pid (fundingRows u.ledger) := by
        rw [admitted.table]
        exact ht
      refine wp_mono (wp_fireDeposit (fun _ _ _ _ => trivial) hu (fun now => ?_) (fun _ _ _ _ _ => trivial) ?_)
        fun _ _ h => h.mono fun _ _ _ => trivial
      · rw [fundingRows_withIntent]
        exact standing_append _ hu
      · intro now env w outcome hw _ _ _
        rw [hw, fundingRows_close_intent]
        exact standing_append _ hu

/-- The decisions of a cycle for `pid`, over the table the cycle leaves. -/
def AllVoiced (pid : String) (judged : Prop) (states : List (String × ProviderState)) (rows : List Row) : Prop :=
  ∀ q ∈ states, Verdict (Voiced pid judged · · rows) q.1 q.2

theorem providers_voiced (valid : k.topupAmountUsdc ≤ k.topupDailyCapUsdc ∧ k.topupAmountUsdc ≤ maxTopupUsdc)
    (knobs : Knobs) (readable : Readable (Measureless k pid judged) knobs) (ids : List String) {s : World}
    (hs : Uniform k (fundingRows s.ledger)) :
    wp handle (Measureless k pid judged) (fun _ _ _ => True) (cycleProviders knobs ids)
      (Carries (Uniform k) (AllVoiced pid judged)) s := by
  induction ids generalizing s with
  | nil => exact ⟨hs, List.forall_mem_nil _⟩
  | cons p rest ih =>
    have entry := wp_entry (V := Settled pid) (P := Voiced pid judged) (fun _ _ _ _ => trivial)
      (fun p available reserved s hs => settleTopups_settled p available reserved s hs)
      (fun p d rows settled own => settled own.1)
      (fun p knobs available reserved s readable hs settled =>
        maybeTopup_voiced valid p knobs available reserved s readable hs settled) p readable hs
    unfold cycleProviders
    refine wp_bind_mono entry (fun _ h => h) (fun _ _ h => h) fun st t ht => ?_
    obtain ⟨uniform, here⟩ := ht
    -- what the entry says of the table still holds when the others are done
    have stays : wp handle (Measureless k pid judged) (fun _ _ _ => True) (cycleProviders knobs rest)
        (Carries (fun _ => True) fun _ rows => Verdict (Voiced pid judged · · rows) p st) t := by
      cases st with
      | statusUnreadable => exact wp_mono (ih uniform) fun ending u _ => by cases ending <;> trivial
      | statusStale age => exact wp_mono (ih uniform) fun ending u _ => by cases ending <;> trivial
      | error => exact wp_mono (ih uniform) fun ending u _ => by cases ending <;> trivial
      | acted a r c d =>
        by_cases halted : (p = pid ∧ judged) ∧ d = .errorHalt
        · refine wp_mono (providers_standing knobs readable rest ((here halted.1).2 halted.2)) fun ending u h => ?_
          cases ending with
          | crashed => exact trivial
          | raised error => exact trivial
          | returned ps => exact ⟨trivial, fun own => ⟨(here own).1, fun _ => h.1⟩⟩
        · refine wp_mono (ih uniform) fun ending u _ => ?_
          cases ending with
          | crashed => exact trivial
          | raised error => exact trivial
          | returned ps => exact ⟨trivial, fun own => ⟨(here own).1, fun halt => absurd ⟨own, halt⟩ halted⟩⟩
    refine wp_bind_mono (wp_and (ih uniform) stays) (fun _ h => h.1) (fun _ _ h => h.1) fun ps u hu => ?_
    refine ⟨hu.1.1, fun q hq => ?_⟩
    rcases List.mem_cons.mp hq with rfl | hq
    · exact hu.2.2
    · exact hu.1.2 q hq

end Cycle

/-- Over every run with fixed knobs and a ledger that answers: a cycle that finds every top-up
of `pid` failed or unknown so far never answers `daily_cap`, and its error halt is in the table. -/
theorem no_silent_stall (ids : List String) (pid : String) (k : Knobs) (steps : List (WalletStep × List Env))
    (start : Int) (valid : k.validate = .ok k)
    (fixed : ∀ step ∈ steps, ∀ env ∈ step.2, ∀ k' ∈ env.settings, k' = k)
    (up : ∀ step ∈ steps, ∀ env ∈ step.2, env.store = .ok) :
    ∀ o ∈ walletRun ids steps ⟨start, .empty⟩,
      (∀ e ∈ o.trace, Unmeasured pid e.before.ledger.rows) →
      ∀ st, o.ending = .returned (some st) → ∀ available reserved reclaim d,
        (pid, .acted available reserved reclaim d) ∈ st.providers →
        d ≠ .dailyCap ∧ (d = .errorHalt → o.state.ledger.walletHalted pid .topup = true) := by
  intro o ho unmeasured st returned available reserved reclaim d mem
  have amounts : k.topupAmountUsdc ≤ k.topupDailyCapUsdc ∧ k.topupAmountUsdc ≤ maxTopupUsdc := by
    unfold Knobs.validate at valid
    split at valid
    · cases valid
    · split at valid
      · cases valid
      · split at valid
        · cases valid
        · rename_i capped limited
          exact ⟨not_lt.mp capped, not_lt.mp limited⟩
  have cycle : ∀ (judged : Prop) s, Uniform k (fundingRows s.ledger) →
      wp handle (Measureless k pid judged) (fun _ _ _ => True) (Source.cycle ids)
        (Carries (Uniform k) fun st rows => AllVoiced pid judged st.providers rows) s := by
    intro judged s hs
    exact wp_cycle_of_providers (fun _ _ _ _ => trivial) (X := AllVoiced pid judged)
      (fun _ => List.forall_mem_nil _) (fun knobs t readable _ ht => providers_voiced amounts knobs readable ids ht) hs
  have clear : ∀ l p kind, Uniform k (fundingRows l) → Uniform k (fundingRows (l.walletClearHalt p kind)) := by
    intro l p kind hl
    rw [fundingRows_clear]
    exact fun row hrow => hl row (List.mem_of_mem_filter hrow)
  have assumed : ∀ x ∈ walletRun ids steps ⟨start, .empty⟩, ∀ e ∈ x.trace,
      Measureless k pid False e.op e.env e.before := by
    intro x hx e he
    obtain ⟨step, hstep, henv⟩ := env_mem_of_walletRun hx he
    exact ⟨up step hstep _ henv, fixed step hstep _ henv, False.elim⟩
  have empty : Uniform k (fundingRows Ledger.empty) := List.forall_mem_nil _
  obtain ⟨before, after, split⟩ := List.append_of_mem ho
  obtain ⟨session, hsession, t, ht, rfl⟩ := runs_induct
    (I := fun w : World => Uniform k (fundingRows w.ledger))
    (P := fun x => ∀ e ∈ x.trace, Measureless k pid False e.op e.env e.before)
    (fun session hsession t ht met => by
      obtain ⟨step, -, rfl⟩ := List.mem_map.mp hsession
      exact (run_sound_end (wp_step (fun _ _ _ _ => trivial) (cycle False) clear step.1 ht) _ met).rows)
    empty split
    fun x hx => assumed x (by rw [split]; exact List.mem_append_left _ hx)
  obtain ⟨step, -, rfl⟩ := List.mem_map.mp hsession
  have ended := run_sound_end (wp_step (fun _ _ _ _ => trivial) (cycle True) clear step.1 ht) step.2
    fun e he => by
      have met := assumed _ ho e he
      exact ⟨met.up, met.fixed, fun _ row hrow => unmeasured e he row (List.mem_of_mem_filter hrow)⟩
  rw [returned] at ended
  have voiced := ended.2 st rfl _ mem ⟨rfl, trivial⟩
  exact ⟨voiced.1, fun halt => (standing_iff pid _).mp (voiced.2 halt)⟩

/-- The one error fills the cap; the next cycle past the backoff answers the halt. -/
theorem no_silent_stall_sample :
    (∃ o ∈ walletRun ["buyer"] [(.cycle, errorCycle 0), (.cycle, errorCycle 400)] ⟨0, .empty⟩,
      ∃ e ∈ o.trace, e.op = .walletHalt "buyer" .topup) ∧
    ∀ o ∈ walletRun ["buyer"] [(.cycle, errorCycle 0), (.cycle, errorCycle 400)] ⟨0, .empty⟩,
      (∀ e ∈ o.trace, Unmeasured "buyer" e.before.ledger.rows) →
      ∀ st, o.ending = .returned (some st) → ∀ available reserved reclaim d,
        ("buyer", .acted available reserved reclaim d) ∈ st.providers →
        d ≠ .dailyCap ∧ (d = .errorHalt → o.state.ledger.walletHalted "buyer" .topup = true) :=
  ⟨by decide +kernel,
    no_silent_stall ["buyer"] "buyer" errorKnobs [(.cycle, errorCycle 0), (.cycle, errorCycle 400)] 0 (by decide +kernel)
      (by decide +kernel) (by decide +kernel)⟩

end Unhardcoded.Guarantees

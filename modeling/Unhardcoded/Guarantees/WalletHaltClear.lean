import Unhardcoded.Guarantees.WalletBreaker

/-!
# What an operator's clear of a top-up halt achieves

The clear deletes the halt row and nothing else, while both breakers judge the
newest closed rows afresh in every cycle. The same two ineffective deposits
therefore raise the halt again one cycle after it was cleared
(`clear_reraises_halt`). Where the evidence standing at the clear is below every
threshold the later cycles apply, a new halt takes a new bad closing
(`clear_effective_of_nothing_judged`): a row that is added is pending, and one
that is closed as effective only breaks a run of bad ones.
-/

namespace Unhardcoded.Guarantees
open Source Effects Program

/-- The outcomes that count against the top-ups. -/
def badOutcomes : List Source.Outcome := [.ineffective, .failed, .unknown]

section Strikes

/-- How many of the newest counted rows of `pid` are bad. -/
def strikes (pid : String) (counted bad : List Source.Outcome) (rows : List Row) : Nat :=
  consecutive (rows.filter fun row => row.isOp pid .topup ∧ row.outcome ∈ counted).reverse bad

theorem consecutive_take (rows : List Row) (bad : List Source.Outcome) (k : Nat) :
    consecutive (rows.take k) bad = min k (consecutive rows bad) := by
  unfold consecutive
  induction rows generalizing k with
  | nil => simp
  | cons row rest ih =>
    cases k with
    | zero => simp
    | succ k =>
      by_cases h : row.outcome ∈ bad
      · simp [h, ih k]
      · simp [h]

/-- A breaker that reads `limit` rows sees the strikes up to `limit`. -/
theorem consecutive_newestTopups (pid : String) (counted bad : List Source.Outcome) {limit : Nat}
    (low : 1 ≤ limit) (high : limit ≤ 100) (rows : List Row) :
    consecutive (newestTopups pid counted limit rows) bad = min limit (strikes pid counted bad rows) := by
  unfold newestTopups strikes
  rw [consecutive_take]
  congr 1
  omega

/-- The money-pump verdict is a run of two ineffective rows. -/
theorem pumpVerdict_iff (rows : List Row) :
    PumpVerdict (rows.take pumpStrikesToHalt) ↔ 2 ≤ consecutive (rows.take pumpStrikesToHalt) [.ineffective] := by
  unfold PumpVerdict pumpStrikesToHalt consecutive
  cases rows with
  | nil => simp
  | cons a rest =>
    cases rest with
    | nil => by_cases ha : a.outcome = .ineffective <;> simp [ha]
    | cons b rest =>
      by_cases ha : a.outcome = .ineffective
      · by_cases hb : b.outcome = .ineffective <;> simp [ha, hb]
      · simp [ha]

theorem strikes_append {pid : String} {counted bad : List Source.Outcome} {rows : List Row} {row : Row}
    (h : row.isOp pid .topup = true → row.outcome ∉ counted) :
    strikes pid counted bad (rows ++ [row]) = strikes pid counted bad rows := by
  unfold strikes
  rw [List.filter_append]
  by_cases hop : row.isOp pid .topup = true
  · simp [hop, h hop]
  · simp [hop]

/-- Closing an uncounted row with an outcome that is not bad adds no strike. -/
theorem strikes_map_closeAt_le {pid : String} {counted bad : List Source.Outcome} {opId : Nat}
    {outcome : Source.Outcome} {pa pr : Option ℚ} {now : Int} (rows : List Row)
    (h : ∀ row ∈ rows, row.id = opId → row.isOp pid .topup = true →
      row.outcome ∉ counted ∧ outcome ∉ bad) :
    strikes pid counted bad (rows.map (Ledger.closeAt opId outcome pa pr now)) ≤
      strikes pid counted bad rows := by
  have newestFirst : ∀ rows : List Row, (∀ row ∈ rows, row.id = opId → row.isOp pid .topup = true →
        row.outcome ∉ counted ∧ outcome ∉ bad) →
      consecutive ((rows.map (Ledger.closeAt opId outcome pa pr now)).filter
          fun row => row.isOp pid .topup ∧ row.outcome ∈ counted) bad ≤
        consecutive (rows.filter fun row => row.isOp pid .topup ∧ row.outcome ∈ counted) bad := by
    intro rows h
    induction rows with
    | nil => exact le_refl _
    | cons row rest ih =>
      have tail := ih fun r hr => h r (List.mem_cons_of_mem _ hr)
      by_cases target : row.id = opId ∧ row.isOp pid .topup = true
      · -- the closed row: uncounted before, at most the end of the run after
        obtain ⟨hid, hop⟩ := target
        obtain ⟨uncounted, harmless⟩ := h row List.mem_cons_self hid hop
        have closed : (Ledger.closeAt opId outcome pa pr now row).outcome = outcome := by
          simp [Ledger.closeAt, hid, Ledger.close]
        by_cases hcounted : outcome ∈ counted
        · simp [consecutive, closed, hop, hcounted, harmless]
        · simpa [closed, hop, hcounted, uncounted] using tail
      · by_cases hid : row.id = opId
        · have hop : row.isOp pid .topup = false := by simpa [hid] using target
          simpa [hop] using tail
        · have same : Ledger.closeAt opId outcome pa pr now row = row := by simp [Ledger.closeAt, hid]
          rw [List.map_cons, same]
          by_cases hcounted : row.isOp pid .topup = true ∧ row.outcome ∈ counted
          · by_cases hbad : row.outcome ∈ bad
            · unfold consecutive at tail ⊢
              simpa [hcounted, hbad] using tail
            · simp [consecutive, hcounted, hbad]
          · simpa [hcounted] using tail
  unfold strikes
  rw [← List.filter_reverse, ← List.filter_reverse, ← List.map_reverse]
  exact newestFirst rows.reverse fun row hrow => h row (List.mem_reverse.mp hrow)

end Strikes

section Runs

/-- This operation closed a top-up row of `pid` with a bad outcome. -/
def badClose (pid : String) (e : Performed Effect Env World) : Bool :=
  match e.op with
  | .walletOpFinish opId outcome _ _ =>
    decide (outcome ∈ badOutcomes ∧ e.env.store ≠ .down) &&
      e.before.ledger.rows.any fun row => row.id = opId && row.isOp pid .topup
  | _ => false

/-- The daily spend of `pid` this operation answered. -/
def spendRead (pid : String) (e : Performed Effect Env World) : Option Spend :=
  match e.op with
  | .walletOpSpendSince p .topup since =>
    if p = pid then some (handle (.walletOpSpendSince p .topup since) e.env e.before).1 else none
  | _ => none

/-- With `n` strikes standing, the cap either admits the deposit or refuses it
below the strikes it would halt on. -/
def CapSafe (n : Nat) (k : Knobs) (spend : Spend) : Prop :=
  spend.spentUsdc + k.topupAmountUsdc ≤ (k.topupDailyCapUsdc : WithTop ℚ) ∨
    ∀ needed ∈ cappedStrikesToHalt k, (n : Int) < needed

variable (pid : String) (n : Nat) (K : Knobs → Prop)

/-- The environment of a stretch of run without a bad closing of `pid`, under
knobs in `K`. -/
def Unjudging (op : Effect) (env : Env) (s : World) : Prop :=
  badClose pid ⟨op, env, s⟩ = false ∧ (op = .settings → ∀ k ∈ env.settings, K k) ∧
    ∀ spend ∈ spendRead pid ⟨op, env, s⟩, ∀ k, K k → CapSafe n k spend

/-- No top-up halt of `pid` is written. -/
def Unhalting (op : Effect) (_ : Env) (_ : World) : Prop := op ≠ .walletHalt pid .topup

/-- The standing evidence of `pid` is below both breakers, with at most `n` errors. -/
def BelowBreakers (rows : List Row) : Prop :=
  strikes pid walletOpSettledOutcomes [.ineffective] rows < 2 ∧
    strikes pid walletOpTerminalOutcomes walletOpErrorOutcomes rows ≤ n

variable {pid n K}

theorem unhalting_of_plain (op : Effect) (env : Env) (s : World) (h : plain op = true) :
    Unhalting pid op env s := by
  rintro rfl
  simp [plain] at h

theorem belowBreakers_append {rows : List Row} {row : Row} (h : BelowBreakers pid n rows)
    (open_ : row.isOp pid .topup = true → row.outcome ∉ walletOpTerminalOutcomes) :
    BelowBreakers pid n (rows ++ [row]) := by
  have settled : row.isOp pid .topup = true → row.outcome ∉ walletOpSettledOutcomes := by
    intro hop hmem
    apply open_ hop
    revert hmem
    cases row.outcome <;> decide
  unfold BelowBreakers
  rw [strikes_append settled, strikes_append open_]
  exact h

/-- A closing that is not a bad closing of `pid` leaves the evidence below. -/
theorem belowBreakers_closeAt {rows : List Row} {opId : Nat} {outcome : Source.Outcome} {pa pr : Option ℚ}
    {now : Int} (h : BelowBreakers pid n rows)
    (harmless : ∀ row ∈ rows, row.id = opId → row.isOp pid .topup = true →
      row.outcome ∈ walletOpOpenOutcomes ∧ outcome ∉ badOutcomes) :
    BelowBreakers pid n (rows.map (Ledger.closeAt opId outcome pa pr now)) := by
  constructor
  · refine lt_of_le_of_lt (strikes_map_closeAt_le rows fun row hrow hid hop => ?_) h.1
    obtain ⟨isOpen, good⟩ := harmless row hrow hid hop
    constructor
    · revert isOpen
      cases row.outcome <;> decide
    · revert good
      cases outcome <;> decide
  · refine le_trans (strikes_map_closeAt_le rows fun row hrow hid hop => ?_) h.2
    obtain ⟨isOpen, good⟩ := harmless row hrow hid hop
    constructor
    · revert isOpen
      cases row.outcome <;> decide
    · revert good
      cases outcome <;> decide

theorem belowBreakers_clear {l : Ledger} (target : String) (kind : HaltKind)
    (h : BelowBreakers pid n (fundingRows l)) :
    BelowBreakers pid n (fundingRows (l.walletClearHalt target kind)) := by
  have same : ∀ counted bad, strikes pid counted bad (fundingRows (l.walletClearHalt target kind)) =
      strikes pid counted bad (fundingRows l) := by
    intro counted bad
    unfold strikes
    rw [fundingRows_clear, List.filter_filter]
    congr 2
    apply List.filter_congr
    intro row _
    by_cases hop : row.op = .topup
    · simp [Row.isOp, hop]
    · simp [Row.isOp, hop]
  unfold BelowBreakers
  rw [same, same]
  exact h

/-- Closing a listed row outside a bad closing of `pid` is harmless to `pid`. -/
theorem not_bad_of_unjudging {opId : Nat} {outcome : Source.Outcome} {pa pr : Option ℚ} {env : Env} {w : World}
    (asked : Unjudging pid n K (.walletOpFinish opId outcome pa pr) env w) (up : env.store ≠ .down)
    {row : Row} (hrow : row ∈ w.ledger.rows) (hid : row.id = opId) (hop : row.isOp pid .topup = true) :
    outcome ∉ badOutcomes := by
  intro bad
  have clean := asked.1
  simp only [badClose, Bool.and_eq_false_iff, decide_eq_false_iff_not, not_and, List.any_eq_false] at clean
  rcases clean with clean | clean
  · exact clean bad up
  · exact clean row hrow (by simp [hid, hop])

theorem settleTopups_unhalting (p : String) (low : n < 3) (available : ℚ) (reserved : Option ℚ) (s : World)
    (hs : BelowBreakers pid n (fundingRows s.ledger)) :
    wp handle (Unjudging pid n K) (Unhalting pid) (settleTopups p available reserved)
      (Carries (BelowBreakers pid n) fun v _ => p = pid → v = none) s := by
  apply wp_settleTopups unhalting_of_plain (V := fun v _ => p = pid → v = none) _ _
    (fun _ _ _ _ _ _ _ _ _ _ _ => rfl) hs
  · intro env w row outcome open_ _ asked up hw
    have only : ∀ r ∈ w.ledger.rows, r.id = row.id → r = row := fun r hr hid => eq_of_id hr open_.mem hid
    have topups : ∀ r ∈ w.ledger.rows, r.id = row.id → r.op = .topup := by
      intro r hr hid
      have := open_.isOp
      simp only [Row.isOp, decide_eq_true_eq] at this
      rw [only r hr hid, this.2]
    rw [fundingRows_finish_topup _ _ _ topups]
    refine belowBreakers_closeAt hw fun r hr hid hop => ?_
    have mem := List.mem_of_mem_filter hr
    refine ⟨?_, not_bad_of_unjudging asked up mem hid hop⟩
    rw [only r mem hid]
    exact open_.isOpen
  · intro t u env d hu ht verdict
    by_cases same : p = pid
    · subst same
      -- neither breaker can have tripped below its threshold
      exfalso
      have quiet : ∀ rows : List Row, rows = [] → ¬ PumpVerdict rows ∧ ¬ ErrorVerdict rows := by
        rintro rows rfl
        exact ⟨by simp [PumpVerdict, pumpStrikesToHalt],
          by simp [ErrorVerdict, topupErrorStrikesToHalt, consecutive]⟩
      rcases verdict with ⟨-, pump⟩ | ⟨-, error⟩
      · simp only [handle, World.read] at pump
        cases hstore : env.store with
        | ok =>
          simp only [hstore, World.advance, Ledger.walletOpsSettled, newest_eq] at pump
          have two : 2 ≤ min 2 (strikes p walletOpSettledOutcomes [.ineffective] (fundingRows t.ledger)) := by
            rw [← consecutive_newestTopups p _ _ (by decide) (by decide)]
            exact (pumpVerdict_iff _).mp pump
          have := ht.1
          omega
        | down => exact (quiet _ (by simp [hstore])).1 pump
        | lost => exact (quiet _ (by simp [hstore])).1 pump
      · simp only [handle, World.read] at error
        cases hstore : env.store with
        | ok =>
          simp only [hstore, World.advance, Ledger.walletOpsTerminal, newest_eq] at error
          unfold ErrorVerdict at error
          rw [consecutive_newestTopups p _ _ (by decide) (by decide)] at error
          have := ht.2
          unfold topupErrorStrikesToHalt at error
          omega
        | down => exact (quiet _ (by simp [hstore])).2 error
        | lost => exact (quiet _ (by simp [hstore])).2 error
    · rw [← hu] at ht
      refine wp_mono (wp_haltTopups ht (fun _ _ h => ?_) fun now => ?_)
        fun _ _ h => h.mono fun _ _ _ hp => absurd hp same
      · cases h
        exact same rfl
      · rcases fundingRows_halt_topup u.ledger now p with kept | added
        · rw [kept]
          exact ht
        · rw [added]
          exact belowBreakers_append ht (by simp [Row.isOp])

theorem maybeTopup_unhalting (p : String) (knobs : Knobs) (available : ℚ) (reserved : Option ℚ) (s : World)
    (readable : Readable (Unjudging pid n K) knobs) (hs : BelowBreakers pid n (fundingRows s.ledger)) :
    wp handle (Unjudging pid n K) (Unhalting pid) (maybeTopup p knobs available reserved)
      (Carries (BelowBreakers pid n) fun d _ => p = pid → d ≠ .pumpHalt ∧ d ≠ .errorHalt) s := by
  have stop : ∀ (ending : Ending Exn TopupDecision) t, t.ledger = s.ledger →
      ending ≠ .returned .pumpHalt → ending ≠ .returned .errorHalt →
      Carries (BelowBreakers pid n) (fun d _ => p = pid → d ≠ .pumpHalt ∧ d ≠ .errorHalt) ending t := by
    intro ending t ht noPump noError
    have kept : BelowBreakers pid n (fundingRows t.ledger) := by
      rw [ht]
      exact hs
    cases ending with
    | crashed => exact kept
    | raised error => exact kept
    | returned d => exact ⟨kept, fun _ => ⟨fun h => noPump (by rw [h]), fun h => noError (by rw [h])⟩⟩
  apply wp_maybeTopup unhalting_of_plain (fun ending t ht noPump noError _ => stop ending t ht noPump noError)
  · intro t refused
    apply wp_capRefusal unhalting_of_plain
    · exact fun ending u hu => stop ending u (hu.trans refused.table)
    · intro env u needed hu hneeded enough
      have hu' : BelowBreakers pid n (fundingRows u.ledger) := by
        rw [hu, refused.table]
        exact hs
      by_cases same : p = pid
      · subst same
        -- the strikes read are among the `n` of the invariant
        exfalso
        obtain ⟨since, env1, w, hw, asked, exceeds⟩ := refused.overCap
        obtain ⟨env2, w2, asked2, read⟩ := readable
        have safe := asked.2.2 _ (by simp [spendRead]; rfl) knobs (asked2.2.1 rfl knobs read)
        have few : (n : Int) < needed := by
          rcases safe with admits | below
          · exact absurd exceeds (not_lt.mpr admits)
          · exact below needed hneeded
        have most : consecutive (handle (.walletOpsTerminal p .topup topupErrorStrikesToHalt) env t).1
            walletOpErrorOutcomes ≤ n := by
          simp only [handle, World.read]
          cases env.store with
          | ok =>
            simp only [World.advance, Ledger.walletOpsTerminal, newest_eq]
            rw [consecutive_newestTopups p _ _ (by decide) (by decide), refused.table]
            exact le_trans (min_le_right _ _) hs.2
          | down => exact Nat.zero_le n
          | lost => exact Nat.zero_le n
        omega
      · refine wp_mono (wp_haltTopups hu' (fun _ _ h => ?_) fun now => ?_)
          fun _ _ h => h.mono fun _ _ _ hp => absurd hp same
        · cases h
          exact same rfl
        · rcases fundingRows_halt_topup u.ledger now p with kept | added
          · rw [kept]
            exact hu'
          · rw [added]
            exact belowBreakers_append hu' (by simp [Row.isOp])
  · intro t admitted _
    have ht : BelowBreakers pid n (fundingRows t.ledger) := by
      rw [admitted.table]
      exact hs
    have opened : ∀ now, BelowBreakers pid n (fundingRows (withIntent t.ledger now p
        (min knobs.topupAmountUsdc maxTopupUsdc) available reserved)) := by
      intro now
      rw [fundingRows_withIntent]
      exact belowBreakers_append ht fun _ => by simp [intent, walletOpTerminalOutcomes]
    refine wp_mono (wp_fireDeposit unhalting_of_plain ht opened (fun env u _ _ _ same => by cases same) ?_)
      fun _ _ h => h.mono fun _ _ noHalt _ => noHalt
    intro now env w outcome hw asked up _
    have only : ∀ r ∈ w.ledger.rows, r.id = t.ledger.nextId →
        r = intent t.ledger.nextId now p (min knobs.topupAmountUsdc maxTopupUsdc) available reserved := by
      intro r hr hid
      rw [hw, withIntent_rows] at hr
      rcases List.mem_append.mp hr with hr | hr
      · have := t.ledger.below r hr
        omega
      · exact List.mem_singleton.mp hr
    rw [fundingRows_finish_topup _ _ _ fun r hr hid => by rw [only r hr hid]; rfl, hw]
    refine belowBreakers_closeAt (opened now) fun r hr hid hop => ?_
    have mem : r ∈ w.ledger.rows := by
      rw [hw]
      exact List.mem_of_mem_filter hr
    refine ⟨?_, not_bad_of_unjudging asked up mem hid hop⟩
    rw [only r mem hid]
    simp [intent, walletOpOpenOutcomes]

end Runs

section Clear

variable (ids : List String) (pid : String) (earlier : List (WalletStep × List Env)) (clear : Env)
  (later : List (WalletStep × List Env)) (s : World)

/-- The steps up to and including the clear of the top-up halt of `pid`. -/
def throughClear : List (WalletStep × List Env) := earlier ++ [(.clearHalt pid .topup, [clear])]

/-- What the run shows after the clear. -/
def afterClear : List (Effects.Outcome Effect Env World Exn (Option KeeperState)) :=
  walletRun ids later (walletWorld ids (throughClear pid earlier clear) s)

/-- The state this step answered names a breaker's verdict for `pid`. -/
def answersHalt (pid : String) (o : Effects.Outcome Effect Env World Exn (Option KeeperState)) : Bool :=
  match o.ending with
  | .returned (some st) => st.providers.any fun q =>
    q.1 = pid && match q.2 with
      | .acted _ _ _ d => d = .pumpHalt || d = .errorHalt
      | _ => false
  | _ => false

/-- After the clear, a top-up halt is persisted or answered for `pid` only with a
bad closing of one of its top-up rows in between. -/
def ClearEffective : Prop :=
  ∀ before o after, afterClear ids pid earlier clear later s = before ++ o :: after →
    (∀ pre e post, o.trace = pre ++ e :: post → e.op = .walletHalt pid .topup → e.env.store ≠ .down →
      ∃ b ∈ before.flatMap (·.trace) ++ pre, badClose pid b = true) ∧
    (answersHalt pid o = true → ∃ b ∈ before.flatMap (·.trace) ++ o.trace, badClose pid b = true)

/-- A knob set this step read. -/
def KnobsRead (o : Effects.Outcome Effect Env World Exn (Option KeeperState)) (k : Knobs) : Prop :=
  ∃ e ∈ o.trace, e.op = .settings ∧ k ∈ e.env.settings

/-- The errors standing when the halt is cleared. -/
def standingErrors : Nat :=
  consecutive ((walletWorld ids earlier s).ledger.walletOpsTerminal pid .topup 3) walletOpErrorOutcomes

/-- What stands at the clear is below every threshold later applied: not two
ineffective deposits, not three errors, and under the knobs of each later cycle
not the errors that its daily cap, when it refuses, halts on. -/
structure NothingJudged : Prop where
  pump : ¬ PumpVerdict ((walletWorld ids earlier s).ledger.walletOpsSettled pid .topup 2)
  error : standingErrors ids pid earlier s < 3
  cap : ∀ o ∈ afterClear ids pid earlier clear later s,
    ∀ e ∈ o.trace, e.op = .settings → ∀ k ∈ e.env.settings,
    ∀ e' ∈ o.trace, ∀ spend ∈ spendRead pid e', CapSafe (standingErrors ids pid earlier s) k spend

theorem belowBreakers_of_nothingJudged (h : NothingJudged ids pid earlier clear later s) :
    BelowBreakers pid (standingErrors ids pid earlier s)
      (fundingRows (walletWorld ids earlier s).ledger) := by
  have errors : standingErrors ids pid earlier s = min 3 (strikes pid walletOpTerminalOutcomes
      walletOpErrorOutcomes (fundingRows (walletWorld ids earlier s).ledger)) := by
    unfold standingErrors Ledger.walletOpsTerminal
    rw [newest_eq, consecutive_newestTopups pid _ _ (by decide) (by decide)]
  constructor
  · by_contra many
    apply h.pump
    unfold Ledger.walletOpsSettled
    rw [newest_eq]
    apply (pumpVerdict_iff _).mpr
    have := consecutive_newestTopups pid walletOpSettledOutcomes [.ineffective] (show 1 ≤ 2 by decide)
      (by decide) (fundingRows (walletWorld ids earlier s).ledger)
    unfold newestTopups at this
    unfold pumpStrikesToHalt
    simp only [show max 1 (min 2 100) = 2 from rfl] at this
    omega
  · have := h.error
    omega

/-- One step from below the breakers, in a stretch without a bad closing. -/
theorem wp_step_unhalting {n : Nat} (K : Knobs → Prop) (low : n < 3) (step : WalletStep) {t : World}
    (ht : BelowBreakers pid n (fundingRows t.ledger)) :
    wp handle (Unjudging pid n K) (Unhalting pid) (step.program ids)
      (Carries (BelowBreakers pid n) fun st _ => ∀ k ∈ st, ∀ q ∈ k.providers,
        Verdict (fun p d => p = pid → d ≠ .pumpHalt ∧ d ≠ .errorHalt) q.1 q.2) t := by
  refine wp_step unhalting_of_plain (fun s hs => ?_) (fun l p kind hl => belowBreakers_clear p kind hl) step ht
  exact wp_cycle unhalting_of_plain (V := fun p v _ => p = pid → v = none)
    (fun p available reserved s hs => settleTopups_unhalting p low available reserved s hs)
    (fun p d rows h same => absurd (h same) (Option.some_ne_none d))
    (fun p knobs available reserved s readable hs _ =>
      maybeTopup_unhalting p knobs available reserved s readable hs) ids hs

/-- The clear itself changes no evidence. -/
theorem belowBreakers_throughClear {n : Nat}
    (h : BelowBreakers pid n (fundingRows (walletWorld ids earlier s).ledger)) :
    BelowBreakers pid n (fundingRows (walletWorld ids (throughClear pid earlier clear) s).ledger) := by
  have world : walletWorld ids (throughClear pid earlier clear) s =
      (handle (.walletClearHalt pid .topup) clear (walletWorld ids earlier s)).2 := by
    unfold walletWorld throughClear
    rw [List.map_append, after_append]
    rfl
  rw [world]
  simp only [handle, World.write]
  cases clear.store with
  | ok => exact belowBreakers_clear pid .topup h
  | lost => exact belowBreakers_clear pid .topup h
  | down => exact h

/-- Where nothing standing at the clear reaches a later threshold, the clear is
effective. -/
theorem clear_effective_of_nothing_judged (h : NothingJudged ids pid earlier clear later s) :
    ClearEffective ids pid earlier clear later s := by
  intro before o after split
  have start := belowBreakers_throughClear ids pid earlier clear s
    (belowBreakers_of_nothingJudged ids pid earlier clear later s h)
  -- the knobs a step reads are the ones its cap refusals are judged by
  have unjudging : ∀ x ∈ afterClear ids pid earlier clear later s, ∀ e ∈ x.trace, badClose pid e = false →
      Unjudging pid (standingErrors ids pid earlier s) (KnobsRead x) e.op e.env e.before := by
    intro x hx e he clean
    refine ⟨clean, fun hop k hk => ⟨e, he, hop, hk⟩, ?_⟩
    rintro spend hspend k ⟨e1, he1, hop1, hk1⟩
    exact h.cap x hx e1 he1 hop1 k hk1 e he spend hspend
  have here : ∀ clean : ∀ b ∈ before.flatMap (·.trace), badClose pid b = false,
      ∃ step : WalletStep, ∃ envs t, BelowBreakers pid (standingErrors ids pid earlier s) (fundingRows t.ledger) ∧
        o = run handle (step.program ids) envs t := by
    intro clean
    obtain ⟨session, hsession, t, ht, ho⟩ := runs_induct
      (I := fun w : World => BelowBreakers pid (standingErrors ids pid earlier s) (fundingRows w.ledger))
      (P := fun x => ∀ e ∈ x.trace, Unjudging pid (standingErrors ids pid earlier s) (KnobsRead x)
        e.op e.env e.before)
      (fun session hsession t ht assumed => by
        obtain ⟨step, -, rfl⟩ := List.mem_map.mp hsession
        exact (run_sound_end (wp_step_unhalting ids pid _ h.error step.1 ht) _ assumed).rows) start split
      fun x hx e he => unjudging x (by rw [split]; exact List.mem_append_left _ hx) e he
        (clean e (List.mem_flatMap.mpr ⟨x, hx, he⟩))
    obtain ⟨step, -, rfl⟩ := List.mem_map.mp hsession
    exact ⟨step.1, step.2, t, ht, ho⟩
  have member : o ∈ afterClear ids pid earlier clear later s := by
    rw [split]
    exact List.mem_append_right _ List.mem_cons_self
  constructor
  · intro pre e post trace hop _
    by_contra none
    have clean : ∀ b ∈ before.flatMap (·.trace) ++ pre, badClose pid b = false := fun b hb =>
      Bool.eq_false_iff.mpr fun bad => none ⟨b, hb, bad⟩
    obtain ⟨step, envs, t, ht, ho⟩ := here fun b hb => clean b (List.mem_append_left _ hb)
    refine run_sound_at (wp_step_unhalting ids pid (KnobsRead o) h.error step ht) envs (ho ▸ trace)
      (fun x hx => ?_) ?_ hop
    · exact unjudging _ member x (by rw [trace]; exact List.mem_append_left _ hx)
        (clean x (List.mem_append_right _ hx))
    · refine unjudging _ member e (by rw [trace]; simp) ?_
      simp [badClose, hop]
  · intro answered
    by_contra none
    have clean : ∀ b ∈ before.flatMap (·.trace) ++ o.trace, badClose pid b = false := fun b hb =>
      Bool.eq_false_iff.mpr fun bad => none ⟨b, hb, bad⟩
    obtain ⟨step, envs, t, ht, ho⟩ := here fun b hb => clean b (List.mem_append_left _ hb)
    have ended := run_sound_end (wp_step_unhalting ids pid (KnobsRead o) h.error step ht) envs
      fun e he => unjudging o member e (ho ▸ he) (clean e (List.mem_append_right _ (ho ▸ he)))
    rw [← ho] at ended
    unfold answersHalt at answered
    split at answered
    · rename_i st ending
      rw [ending] at ended
      obtain ⟨q, hq, hd⟩ := List.any_eq_true.mp answered
      have verdict := ended.2 st rfl q hq
      simp only [Bool.and_eq_true, decide_eq_true_eq] at hd
      obtain ⟨same, hd⟩ := hd
      split at hd
      · rename_i a r c d entry
        rw [entry] at verdict
        have := verdict same
        simp [this.1, this.2] at hd
      · cases hd
    · cases answered

end Clear

section Reraise

instance (rows : List Row) : Decidable (PumpVerdict rows) := inferInstanceAs (Decidable (_ ∧ _))

instance (n : Nat) (k : Knobs) (spend : Spend) : Decidable (CapSafe n k spend) :=
  inferInstanceAs (Decidable (_ ∨ _))

/-- Two deposits the escrow never saw, the halt they raise, and its clear: the next
cycle answers and persists the halt again, having closed nothing. -/
theorem clear_reraises_halt :
    ¬ ClearEffective ["buyer"] "buyer"
      [(.cycle, sampleCycle 0 .ok), (.cycle, sampleCycle 100 .ok), (.cycle, sampleCycle 100 .ok)]
      (sampleEnv 0 .ok) [(.cycle, sampleCycle 100 .ok)] ⟨0, .empty⟩ := by
  intro effective
  have again : ∃ o ∈ (afterClear ["buyer"] "buyer"
      [(.cycle, sampleCycle 0 .ok), (.cycle, sampleCycle 100 .ok), (.cycle, sampleCycle 100 .ok)]
      (sampleEnv 0 .ok) [(.cycle, sampleCycle 100 .ok)] ⟨0, .empty⟩).head?,
      answersHalt "buyer" o = true ∧ ∀ e ∈ o.trace, badClose "buyer" e = false := by decide +kernel
  unfold ClearEffective at effective
  generalize afterClear _ _ _ _ _ _ = outs at effective again
  obtain ⟨o, ho, answered, clean⟩ := again
  cases outs with
  | nil => cases ho
  | cons first rest =>
    cases ho
    obtain ⟨b, hb, bad⟩ := (effective [] o rest rfl).2 answered
    rw [clean b hb] at bad
    cases bad

/-- The sample wallet with a cap of one deposit, and a control server whose deposits end unknown. -/
def errorKnobs : Knobs := { sampleKnobs with topupDailyCapUsdc := 5 }

def errorEnv (elapsed : Int) : Env :=
  { sampleEnv elapsed .ok with
    settings := some errorKnobs
    control := .reply ⟨.bool false, .bool true, true, [], none⟩ }

def errorCycle (elapsed : Int) : List Env := errorEnv elapsed :: List.replicate 29 (errorEnv 0)

/-- The cycle of the day after, over readings of that day. -/
def nextDayCycle : List Env := (errorCycle 86400).map fun env =>
  { env with
    status := some ⟨some 0, none, some 86800000⟩
    balances := some ⟨some 86800, some 100, some 1⟩ }

/-- The one error fills the cap and the halt is raised; a day after its clear the cap has room
again, the next deposit goes out, and its error brings no halt before it is closed. -/
theorem clear_effective_cleared :
    ((walletWorld ["buyer"] [(.cycle, errorCycle 0), (.cycle, errorCycle 400)] ⟨0, .empty⟩).ledger.walletHalted
        "buyer" .topup = true ∧
      (walletWorld ["buyer"] (throughClear "buyer" [(.cycle, errorCycle 0), (.cycle, errorCycle 400)] (errorEnv 0))
        ⟨0, .empty⟩).ledger.walletHalted "buyer" .topup = false ∧
      ∃ o ∈ afterClear ["buyer"] "buyer" [(.cycle, errorCycle 0), (.cycle, errorCycle 400)] (errorEnv 0)
        [(.cycle, nextDayCycle)] ⟨0, .empty⟩, ∃ e ∈ o.trace, e.op = .control "buyer" (.deposit 5)) ∧
    ClearEffective ["buyer"] "buyer" [(.cycle, errorCycle 0), (.cycle, errorCycle 400)] (errorEnv 0)
      [(.cycle, nextDayCycle)] ⟨0, .empty⟩ :=
  ⟨⟨by decide +kernel, by decide +kernel, by decide +kernel⟩,
    clear_effective_of_nothing_judged _ _ _ _ _ _ ⟨by decide +kernel, by decide +kernel, by decide +kernel⟩⟩

end Reraise

end Unhardcoded.Guarantees

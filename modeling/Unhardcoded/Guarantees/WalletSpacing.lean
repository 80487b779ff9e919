import Mathlib.Data.List.TakeWhile
import Unhardcoded.Guarantees.WalletHaltClear
import Unhardcoded.Guarantees.ReclaimSelection

/-!
# How far apart the keeper's transactions are

A deposit leaves with its intent a cooldown behind every spent top-up of its
provider, and the backoff behind the last of the newest errors, where the two
reads of the closed top-ups in front of it answered: the retry gate's, which
counts three errors, and before it the breaker's, which stops a longer streak.
Two reclaim phases of a provider have their intents 900 seconds apart
(`transactions_spaced`). A read that fails counts no strike, so the backoff is
not waited for then (`backoff_skipped`). The reads are followed in a ghost, the
history itself.
-/

namespace Unhardcoded.Guarantees
open Source Effects Program

section Deposit

/-- The wait after `k` errors in a row. -/
def backoffS (knobs : Knobs) (k : Nat) : Int :=
  min (max knobs.topupCooldownS topupBackoffBaseS * 2 ^ (k - 1)) topupBackoffCapS

/-- The closed top-ups of `pid`, newest first. -/
def closedTopups (pid : String) (rows : List Row) : List Row :=
  (rows.filter fun row => row.isOp pid .topup ∧ row.outcome ∈ walletOpTerminalOutcomes).reverse

/-- Every spent top-up lies a cooldown before `at_`. -/
def Cooled (knobs : Knobs) (pid : String) (at_ : Int) (rows : List Row) : Prop :=
  ∀ row ∈ rows, row.isOp pid .topup = true → row.outcome ∈ walletOpSpentOutcomes →
    row.ts + knobs.topupCooldownS ≤ at_

/-- Where the newest `k` closed top-ups are errors, the last of them lies their backoff before `at_`. -/
def BackedOff (closedAt : Row → Int) (knobs : Knobs) (pid : String) (at_ : Int) (rows : List Row) (k : Nat) : Prop :=
  1 ≤ k → k ≤ (closedTopups pid rows).length →
    (∀ row ∈ (closedTopups pid rows).take k, row.outcome ∈ walletOpErrorOutcomes) →
    ∀ last ∈ (closedTopups pid rows).head?, closedAt last + backoffS knobs k ≤ at_

variable (knobs : Knobs)

/-- The clock does not step back, the knobs stay. -/
structure Steady (op : Effect) (env : Env) (_ : World) : Prop where
  clock : 0 ≤ env.elapsed
  fixed : ∀ k ∈ env.settings, k = knobs

/-- What separates a deposit that leaves from the spent top-ups of its table. -/
def DepositSpaced (op : Effect) (env : Env) (s : World) : Prop :=
  ∀ pid amount, op = .control pid (.deposit amount) → ∃ earlier row, s.ledger.rows = earlier ++ [row] ∧
    row.pid = pid ∧ row.op = .topup ∧ row.outcome = .pending ∧ row.ts ≤ s.now + env.elapsed ∧
    Cooled knobs pid row.ts earlier

variable {knobs}

theorem spaced_of_plain (op : Effect) (env : Env) (s : World) (h : plain op = true) : DepositSpaced knobs op env s := by
  intro pid amount isOp
  subst isOp
  cases h

theorem spaced_halt (pid : String) (env : Env) (s : World) : DepositSpaced knobs (.walletHalt pid .topup) env s :=
  fun _ _ h => by cases h

theorem steady_forward : ClockForward (Steady knobs) := fun _ _ _ h => h.clock

theorem settleTopups_spaced (pid : String) (available : ℚ) (reserved : Option ℚ) (s : World) :
    wp handle (Steady knobs) (DepositSpaced knobs) (settleTopups pid available reserved)
      (Carries (fun _ => True) fun _ _ => True) s := by
  apply wp_settleTopups spaced_of_plain (V := fun _ _ => True) (fun _ _ _ _ _ _ _ _ _ => trivial) _
    (fun _ _ _ _ _ _ _ _ _ _ => trivial) trivial
  intro t u env d _ _ _
  exact wp_mono (wp_haltTopups (J := fun _ => True) trivial (fun env _ => spaced_halt pid env u)
    fun _ => trivial) fun _ _ h => h.mono fun _ _ _ => trivial

/-- The gate's window leaves no spent row of the last day out, and no knob looks further back. -/
theorem cooled_of_window {pid : String} {l : Ledger} {asked gate : Int} (range : knobs.topupCooldownS ≤ 86400)
    (order : asked ≤ gate)
    (window : ∀ row ∈ l.spentSince pid .topup (asked - 86400), row.ts + knobs.topupCooldownS ≤ gate) :
    Cooled knobs pid gate l.rows := by
  intro row mem own spent
  by_cases recent : asked - 86400 ≤ row.ts
  · exact window row (List.mem_filter.mpr ⟨mem, decide_eq_true ⟨own, recent, spent⟩⟩)
  · omega

theorem Cooled.mono {pid : String} {rows : List Row} {early late : Int} (h : Cooled knobs pid early rows)
    (order : early ≤ late) : Cooled knobs pid late rows :=
  fun row mem own spent => le_trans (h row mem own spent) order

theorem maybeTopup_spaced (range : knobs.topupCooldownS ≤ 86400) (pid : String) (k : Knobs) (available : ℚ)
    (reserved : Option ℚ) (s : World) (readable : Readable (Steady knobs) k) :
    wp handle (Steady knobs) (DepositSpaced knobs) (maybeTopup pid k available reserved)
      (Carries (fun _ => True) fun _ _ => True) s := by
  obtain ⟨_, _, asked, read⟩ := readable
  obtain rfl := asked.fixed k read
  apply wp_maybeTopup spaced_of_plain
  · exact fun ending t _ _ _ _ => .of_rows trivial
  · intro t _
    apply wp_capRefusal spaced_of_plain
    · exact fun ending u _ _ _ => .of_rows trivial
    · intro env u needed _ _ _
      exact wp_mono (wp_haltTopups (J := fun _ => True) trivial (fun env _ => spaced_halt pid env u)
        fun _ => trivial) fun _ _ h => h.mono fun _ _ _ => trivial
  · intro t admitted waited
    obtain ⟨asked, gate, order, window⟩ := waited
    have between := order steady_forward
    have cooled : Cooled k pid gate s.ledger.rows := cooled_of_window range between.1 window
    refine wp_mono (wp_fireDeposit spaced_of_plain (J := fun _ => True) trivial (fun _ => trivial) ?_
      fun _ _ _ _ _ _ _ _ => trivial) fun _ _ h => h.mono fun _ _ _ => trivial
    intro env1 v table clock asked2 pid' amount isOp
    cases isOp
    have later : gate ≤ v.now := le_trans between.2 (clock steady_forward)
    refine ⟨t.ledger.rows, _, by rw [table, withIntent_rows], rfl, rfl, rfl, ?_, ?_⟩
    · have := asked2.clock
      simp only [intent]
      omega
    · rw [admitted.table]
      exact cooled.mono later

theorem deposits_spaced (range : knobs.topupCooldownS ≤ 86400) (ids : List String) (steps : List (WalletStep × List Env))
    (s : World) (assumed : ∀ e ∈ walletHistory ids steps s, Steady knobs e.op e.env e.before) :
    ∀ e ∈ walletHistory ids steps s, DepositSpaced knobs e.op e.env e.before := by
  have cycle : ∀ s, True → wp handle (Steady knobs) (DepositSpaced knobs) (Source.cycle ids)
      (Carries (fun _ => True) fun _ _ => True) s := by
    intro s _
    refine wp_mono (wp_cycle spaced_of_plain (J := fun _ => True) (V := fun _ _ _ => True) (P := fun _ _ => True)
      (fun pid available reserved s _ => settleTopups_spaced pid available reserved s) (fun _ _ _ _ => trivial)
      (fun pid k available reserved s readable _ _ => maybeTopup_spaced range pid k available reserved s readable)
      ids trivial) fun _ _ h => h.mono fun _ _ _ => trivial
  have sound : ∀ session ∈ steps.map (fun step => (step.1.program ids, step.2)), ∀ t,
      wp handle (Steady knobs) (DepositSpaced knobs) session.1 (fun _ _ => True) t := by
    intro session mem t
    obtain ⟨step, -, rfl⟩ := List.mem_map.mp mem
    exact wp_mono (wp_step (J := fun _ => True) (X := fun _ _ => True) spaced_of_plain cycle
      (fun _ _ _ _ => trivial) step.1 trivial) fun _ _ _ => trivial
  exact history_sound sound assumed

end Deposit

section Backoff

/-- A read of the closed top-ups of `pid`. -/
def asksClosed (pid : String) : Effect → Bool
  | .walletOpsTerminal p op _ => p = pid ∧ op = .topup
  | _ => false

/-- The reads of the closed top-ups of `pid` in a history, in its order. -/
def closedReads (pid : String) (log : List (Performed Effect Env World)) : List (Performed Effect Env World) :=
  log.filter fun e => asksClosed pid e.op

variable {knobs : Knobs} {pid : String}

theorem newestTopups_closed (pid : String) (rows : List Row) :
    newestTopups pid walletOpTerminalOutcomes topupErrorStrikesToHalt rows = (closedTopups pid rows).take 3 := rfl

theorem closedTopups_funding (pid : String) (l : Ledger) :
    closedTopups pid (fundingRows l) = closedTopups pid l.rows := by
  unfold closedTopups
  rw [← filter_eq_filter_funding]
  intro row h
  rw [decide_eq_true_eq] at h
  exact isFunding_of_isOp h.1

/-- A read that answers brings the newest three closed top-ups. -/
theorem terminal_answer {env : Env} {u : World} (up : env.store = .ok) :
    (handle (.walletOpsTerminal pid .topup topupErrorStrikesToHalt) env u).1 = (closedTopups pid u.ledger.rows).take 3 := by
  simp only [handle, World.read, up, World.advance, Ledger.walletOpsTerminal, newest_eq]
  rw [newestTopups_closed, closedTopups_funding]

/-- The streak of newest errors, as far as it is counted. -/
theorem le_consecutive {rows : List Row} {outcomes : List Source.Outcome} {k : Nat} (long : k ≤ rows.length)
    (errors : ∀ row ∈ rows.take k, row.outcome ∈ outcomes) : k ≤ consecutive rows outcomes := by
  have counted : consecutive (rows.take k) outcomes = k := by
    unfold consecutive
    rw [List.takeWhile_eq_self_iff.mpr fun row mem => decide_eq_true (errors row mem), List.length_take]
    omega
  rw [consecutive_take] at counted
  omega

/-- More strikes wait longer. -/
theorem backoffS_mono {j k : Nat} (h : j ≤ k) : backoffS knobs j ≤ backoffS knobs k := by
  unfold backoffS
  apply min_le_min_right
  apply mul_le_mul_of_nonneg_left
  · exact pow_le_pow_right₀ (by norm_num) (by omega)
  · exact le_max_of_le_right (by decide)

/-- The backoff over these newest closed deposits has passed at `gate`. -/
def Rested (knobs : Knobs) (gate : Int) (rows : List Row) : Prop :=
  consecutive rows walletOpErrorOutcomes = 0 ∨ ∀ row ∈ rows.head?,
    row.stamp + min (max knobs.topupCooldownS topupBackoffBaseS * 2 ^ (consecutive rows walletOpErrorOutcomes - 1))
      topupBackoffCapS ≤ gate

/-- What the gate waited for, over the rows it was answered: three strikes are all it can count. -/
theorem backedOff_of_rested {rows : List Row} {gate : Int} (rested : Rested knobs gate ((closedTopups pid rows).take 3))
    {k : Nat} (few : k ≤ 3) : BackedOff Row.stamp knobs pid gate rows k := by
  intro positive long errors last isLast
  have streak := le_consecutive long errors
  have counted : consecutive ((closedTopups pid rows).take 3) walletOpErrorOutcomes =
      min 3 (consecutive (closedTopups pid rows) walletOpErrorOutcomes) := consecutive_take _ _ _
  rcases rested with quiet | waited
  · omega
  · have head : ((closedTopups pid rows).take 3).head? = (closedTopups pid rows).head? := by
      rw [List.head?_take]
      rfl
    have passed := waited last (by rw [head]; exact isLast)
    have longer : backoffS knobs k ≤ backoffS knobs (consecutive ((closedTopups pid rows).take 3) walletOpErrorOutcomes) :=
      backoffS_mono (by omega)
    unfold backoffS at longer ⊢
    omega

/-- A breaker that was answered and did not trip leaves no streak of three. -/
theorem backedOff_of_unbroken {closedAt : Row → Int} {rows : List Row} {at_ : Int}
    (unbroken : ¬ ErrorVerdict ((closedTopups pid rows).take 3)) {k : Nat} (many : 3 < k) :
    BackedOff closedAt knobs pid at_ rows k := by
  intro _ long errors
  have streak := le_consecutive long errors
  unfold ErrorVerdict topupErrorStrikesToHalt at unbroken
  rw [consecutive_take] at unbroken
  omega

theorem BackedOff.mono {rows : List Row} {early late : Int} {k : Nat} (h : BackedOff Row.stamp knobs pid early rows k)
    (order : early ≤ late) : BackedOff Row.stamp knobs pid late rows k :=
  fun positive long errors last isLast => le_trans (h positive long errors last isLast) order

end Backoff

section Reading

/-- The operations that neither read the closed top-ups nor send a deposit. -/
def aside : Effect → Bool
  | .walletOpsTerminal _ op _ => op ≠ .topup
  | .control _ (.deposit _) => false
  | _ => true

def deposits : Effect → Bool
  | .control _ (.deposit _) => true
  | _ => false

/-- What the last two reads of the closed top-ups say of a deposit that leaves: the gate's of three
errors, the breaker's of more. -/
def Judged (knobs : Knobs) (op : Effect) (_ : Env) (u : World × List (Performed Effect Env World)) : Prop :=
  ∀ pid amount, op = .control pid (.deposit amount) → ∃ gate breaker older earlier row,
    closedReads pid u.2 = gate :: breaker :: older ∧ u.1.ledger.rows = earlier ++ [row] ∧
      ∀ k, (if k ≤ 3 then gate else breaker).env.store = .ok → BackedOff Row.stamp knobs pid row.ts earlier k

/-- The newest read is the breaker's, which did not trip. -/
def Untripped (pid : String) (u : World × List (Performed Effect Env World)) : Prop :=
  ∃ breaker older, closedReads pid u.2 = breaker :: older ∧
    (breaker.env.store = .ok → ¬ ErrorVerdict ((closedTopups pid u.1.ledger.rows).take 3))

/-- The newest read is the gate's, which let a deposit pass at some time, behind the breaker's. -/
def Gated (knobs : Knobs) (pid : String) (u : World × List (Performed Effect Env World)) : Prop :=
  ∃ gate breaker older, closedReads pid u.2 = gate :: breaker :: older ∧ ∃ at_, at_ ≤ u.1.now ∧
    ∀ k, (if k ≤ 3 then gate else breaker).env.store = .ok → BackedOff Row.stamp knobs pid at_ u.1.ledger.rows k

variable {knobs : Knobs} {pid : String}

/-- The precondition of an observed program under a steady clock and fixed knobs. -/
def wpJudged {α : Type} (knobs : Knobs) (p : Keeper α) (Q : Ending Exn α → World × List (Performed Effect Env World) → Prop)
    (u : World × List (Performed Effect Env World)) : Prop :=
  wp (observe handle logged) (fun op env u => Steady knobs op env u.1) (Judged knobs) p Q u

/-- `p` sends a deposit only behind its reads, whatever came before. -/
def Attentive {α : Type} (knobs : Knobs) (p : Keeper α) : Prop := ∀ u, wpJudged knobs p (fun _ _ => True) u

theorem judged_of_no_deposit {op : Effect} (h : deposits op = false) (env : Env)
    (u : World × List (Performed Effect Env World)) : Judged knobs op env u := by
  rintro pid amount rfl
  cases h

theorem no_deposit_of_aside {op : Effect} (h : aside op = true) : deposits op = false := by
  cases op with
  | control p verb => cases verb <;> first | rfl | cases h
  | _ => rfl

theorem closedReads_aside {op : Effect} {env : Env} {s : World} {log : List (Performed Effect Env World)}
    (h : aside op = true) : closedReads pid (⟨op, env, s⟩ :: log) = closedReads pid log := by
  refine List.filter_cons_of_neg ?_
  cases op with
  | walletOpsTerminal p kind limit =>
    have other : kind ≠ .topup := of_decide_eq_true h
    simp [asksClosed, other]
  | _ => simp [asksClosed]

theorem attentive_bind {α β : Type} {p : Keeper α} {f : α → Keeper β} (hp : Attentive knobs p)
    (hf : ∀ value, Attentive knobs (f value)) : Attentive knobs (p >>= f) := fun u =>
  wp_bind_mono (hp u) (fun _ _ => trivial) (fun _ _ _ => trivial) fun value v _ => hf value v

theorem attentive_tryCatch {α : Type} {p : Keeper α} {g : Exn → Keeper α} (hp : Attentive knobs p)
    (hg : ∀ error, Attentive knobs (g error)) : Attentive knobs (p.tryCatch g) := by
  intro u
  refine (wp_tryCatch p g _ u).mpr (wp_mono (hp u) fun ending v _ => ?_)
  cases ending with
  | returned value => exact trivial
  | raised error => exact hg error v
  | crashed => exact trivial

theorem attentive_of_performs {α : Type} {p : Keeper α} (h : Performs (fun op => deposits op = false) p) :
    Attentive knobs p := fun u =>
  keeps_of_performs (I := fun _ => True) (fun _ env v quiet _ _ => ⟨judged_of_no_deposit quiet env v, trivial⟩) h u trivial

/-- A part that only looks, and not at the closed top-ups, keeps what was read. -/
theorem wp_asides {α : Type} {p : Keeper α} {I : World × List (Performed Effect Env World) → Prop}
    (stable : ∀ s t log log', I (s, log) → t.ledger = s.ledger → s.now ≤ t.now →
      closedReads pid log' = closedReads pid log → I (t, log'))
    (quiet : Performs (fun op => reads op = true ∧ aside op = true) p) {u : World × List (Performed Effect Env World)}
    (h : I u) : wpJudged knobs p (fun _ v => I v) u := by
  refine keeps_of_performs (I := I) ?_ quiet u h
  rintro op env ⟨s, log⟩ ⟨looks, other⟩ before asked
  refine ⟨judged_of_no_deposit (no_deposit_of_aside other) env _, ?_⟩
  have later := asked.clock
  refine stable s _ log _ before ?_ ?_ (closedReads_aside other)
  · rw [handle_reads looks]
    rfl
  · rw [handle_now]
    dsimp only at later ⊢
    omega

theorem untripped_stable (s t : World) (log log' : List (Performed Effect Env World)) (h : Untripped pid (s, log))
    (table : t.ledger = s.ledger) (_ : s.now ≤ t.now) (same : closedReads pid log' = closedReads pid log) :
    Untripped pid (t, log') := by
  obtain ⟨breaker, older, read, quiet⟩ := h
  refine ⟨breaker, older, same.trans read, ?_⟩
  rw [table]
  exact quiet

theorem gated_stable (s t : World) (log log' : List (Performed Effect Env World)) (h : Gated knobs pid (s, log))
    (table : t.ledger = s.ledger) (later : s.now ≤ t.now) (same : closedReads pid log' = closedReads pid log) :
    Gated knobs pid (t, log') := by
  obtain ⟨gate, breaker, older, read, at_, past, backedOff⟩ := h
  refine ⟨gate, breaker, older, same.trans read, at_, le_trans past later, ?_⟩
  rw [table]
  exact backedOff

theorem settleTopups_judged (available : ℚ) (reserved : Option ℚ) (u : World × List (Performed Effect Env World)) :
    wpJudged knobs (settleTopups pid available reserved) (fun ending v => ending = .returned none → Untripped pid v) u := by
  have loop : ∀ now rows, Attentive knobs (settleRows now available reserved rows) := fun now rows =>
    attentive_of_performs (performs_settleRows (fun _ _ => rfl) now rows)
  have halts : ∀ d v, wpJudged knobs (do return some (← haltTopups pid d) : Keeper (Option TopupDecision))
      (fun ending v => ending = .returned none → Untripped pid v) v := by
    intro d v
    unfold wpJudged haltTopups
    simp only [wp_bind, wp_call, wp_pure, andThen]
    exact ⟨fun h => (by cases h), fun env _ => ⟨judged_of_no_deposit rfl env v, fun h => (by cases h)⟩⟩
  have call : ∀ op, deposits op = false → Attentive knobs (request op) :=
    fun op h => attentive_of_performs ((performs_call op).mpr h)
  have crashes : ∀ {R : Prop} (v : World × List (Performed Effect Env World)), R →
      (Ending.crashed : Ending Exn (Option TopupDecision)) = .returned none → Untripped pid v := fun _ _ h => by cases h
  have raises : ∀ {R : Prop} (error : Exn) (v : World × List (Performed Effect Env World)), R →
      (Ending.raised error : Ending Exn (Option TopupDecision)) = .returned none → Untripped pid v := fun _ _ _ h => by cases h
  unfold settleTopups
  refine wp_bind_mono (call .time rfl u) crashes raises fun now v _ => ?_
  refine wp_bind_mono (call _ rfl v) crashes raises fun rows v _ => ?_
  refine wp_bind_mono (loop now rows v) crashes raises fun _ v _ => ?_
  refine wp_bind_mono (call _ rfl v) crashes raises fun settled v _ => ?_
  split
  · exact halts .pumpHalt v
  obtain ⟨s, log⟩ := v
  simp only [wp_bind, wp_call, andThen]
  refine ⟨fun h => (by cases h), fun env _ => ⟨judged_of_no_deposit rfl env _, ?_⟩⟩
  split
  · exact halts .errorHalt _
  · rename_i quiet
    refine fun _ => ⟨⟨.walletOpsTerminal pid .topup topupErrorStrikesToHalt, env, s⟩, closedReads pid log, ?_, ?_⟩
    · exact List.filter_cons_of_pos (by simp [asksClosed])
    · intro up
      have answer := @terminal_answer pid _ s up
      simp only [observe, answer] at quiet ⊢
      rw [handle_reads rfl]
      exact quiet

theorem aside_closeReclaimPhase {op : WalletOp} (other : op ≠ .topup) (ids : Option (List String)) (opId : Nat)
    (resp : Reply) : Performs (fun op => aside op = true) (closeReclaimPhase pid op ids opId resp) := by
  refine performs_bind ((performs_call _).mpr rfl) fun _ => ?_
  split
  · split
    · exact performs_bind ((performs_call _).mpr rfl) fun _ => performs_pure _
    · exact performs_pure _
  · refine performs_bind (performs_bind ((performs_call _).mpr (decide_eq_true other)) fun _ => performs_pure _) fun _ => ?_
    split
    · exact performs_bind ((performs_call _).mpr rfl) fun _ => performs_pure _
    · exact performs_pure _

theorem aside_fireReclaimPhase {phase : ControlOp} {op : WalletOp} (other : op ≠ .topup)
    (sends : aside (.control pid phase) = true) (available : ℚ) (reserved : Option ℚ) (ids : Option (List String)) :
    Performs (fun op => aside op = true) (fireReclaimPhase pid phase op available reserved ids) := by
  unfold fireReclaimPhase
  split
  · exact performs_pure _
  refine performs_bind ((performs_call _).mpr rfl) fun begun => ?_
  split
  · exact performs_pure _
  · exact performs_bind (performs_controlOrClose sends (fun _ => rfl) _) fun resp => aside_closeReclaimPhase other ids _ resp

theorem aside_maybeReclaim (k : Knobs) (available : ℚ) (reserved : Option ℚ) :
    Performs (fun op => aside op = true) (maybeReclaim pid k available reserved) := by
  have batch : ∀ {phase : List String → ControlOp} {op : WalletOp} (channels : List Channel), op ≠ .topup →
      (∀ ids, aside (.control pid (phase ids)) = true) →
      Performs (fun op => aside op = true) (fireBatch pid phase op available reserved channels) := by
    intro phase op channels other sends
    unfold fireBatch
    dsimp only
    split
    · exact performs_pure _
    · exact aside_fireReclaimPhase other (sends _) available reserved _
  refine performs_bind ((performs_call _).mpr rfl) fun halted => ?_
  split
  · exact performs_pure _
  dsimp only
  split
  · exact performs_pure _
  split
  · exact performs_pure _
  refine performs_bind (performs_wedged (by rfl) k available) fun stuck => ?_
  split
  · exact performs_pure _
  refine performs_bind (performs_chainView (by rfl) (by rfl)) fun view => ?_
  split
  · exact performs_pure _
  refine performs_bind (performs_bind ((performs_call _).mpr rfl) fun answer => ?_) fun scan => ?_
  · split
    · exact performs_pure _
    · exact performs_throw _
  split
  · exact performs_pure _
  refine performs_bind ((performs_call _).mpr rfl) fun now => performs_bind ((performs_call _).mpr rfl) fun last => ?_
  split
  · exact performs_pure _
  split
  · exact aside_fireReclaimPhase (by decide) rfl available reserved none
  · dsimp only
    split
    · exact batch _ (by decide) fun _ => rfl
    · split
      · exact batch _ (by decide) fun _ => rfl
      · exact performs_pure _

/-- The reclaim leaves the top-ups and the reads of them as they are. -/
theorem maybeReclaim_judged (k : Knobs) (available : ℚ) (reserved : Option ℚ)
    {u : World × List (Performed Effect Env World)} (h : Untripped pid u) :
    wpJudged knobs (maybeReclaim pid k available reserved) (fun _ v => Untripped pid v) u := by
  obtain ⟨s, log⟩ := u
  have reads : wpJudged knobs (maybeReclaim pid k available reserved)
      (fun _ v => closedReads pid v.2 = closedReads pid log) (s, log) := by
    refine keeps_of_performs (I := fun v : World × List (Performed Effect Env World) => closedReads pid v.2 = closedReads pid log) ?_
      (aside_maybeReclaim k available reserved) _ rfl
    rintro op env v other same -
    exact ⟨judged_of_no_deposit (no_deposit_of_aside other) env v, (closedReads_aside other).trans same⟩
  have table : wp handle (Steady knobs) (fun _ _ _ => True) (maybeReclaim pid k available reserved)
      (fun _ t => fundingRows t.ledger = fundingRows s.ledger) s :=
    maybeReclaim_frame (fun _ _ _ _ => trivial) pid k available reserved s rfl
  obtain ⟨breaker, older, read, quiet⟩ := h
  refine wp_mono (wp_and reads (wp_observe table log)) fun _ v same => ⟨breaker, older, same.1.trans read, ?_⟩
  rw [← closedTopups_funding, same.2, closedTopups_funding]
  exact quiet

/-- The gate reads once, and a deposit passes it when its backoff is over. -/
theorem retryGate_judged (spend : Spend) {u : World × List (Performed Effect Env World)} (h : Untripped pid u) :
    wpJudged knobs (retryGate pid knobs spend) (fun ending v => ending = .returned none → Gated knobs pid v) u := by
  obtain ⟨s, log⟩ := u
  obtain ⟨breaker, older, read, quiet⟩ := h
  unfold wpJudged retryGate
  simp only [wp_bind, wp_call, andThen]
  refine ⟨fun h => (by cases h), fun env asked => ⟨judged_of_no_deposit rfl env _, ?_⟩⟩
  split
  · exact fun h => by cases h
  simp only [wp_bind, wp_call, andThen]
  refine ⟨fun h => (by cases h), fun env1 asked1 => ⟨judged_of_no_deposit rfl env1 _, ?_⟩⟩
  have passed : Rested knobs (s.now + env.elapsed)
      (handle (.walletOpsTerminal pid .topup topupErrorStrikesToHalt) env1 (s.advance env.elapsed)).1 →
      Gated knobs pid (s.advance env.elapsed |>.advance env1.elapsed,
        ⟨.walletOpsTerminal pid .topup topupErrorStrikesToHalt, env1, s.advance env.elapsed⟩ :: ⟨.time, env, s⟩ :: log) := by
    intro rested
    refine ⟨⟨.walletOpsTerminal pid .topup topupErrorStrikesToHalt, env1, s.advance env.elapsed⟩, breaker, older, ?_,
      s.now + env.elapsed, ?_, fun k up => ?_⟩
    · rw [← read]
      exact List.filter_cons_of_pos (by simp [asksClosed])
    · have := asked1.clock
      simp only [World.advance]
      omega
    · by_cases few : k ≤ 3
      · rw [if_pos few] at up
        rw [terminal_answer up] at rested
        exact backedOff_of_rested rested few
      · rw [if_neg few] at up
        exact backedOff_of_unbroken (quiet up) (by omega)
  split
  · rename_i none_
    exact fun _ => passed (.inl none_)
  · split
    · exact fun h => by cases h
    · rename_i waited
      refine fun _ => passed (.inr fun row mem => ?_)
      by_contra early
      refine waited ⟨row, mem, ?_⟩
      simp only [observe, handle, World.advance] at early ⊢
      omega

/-- The deposit leaves with its intent, behind the reads in front of it. -/
theorem fireDeposit_judged (amount available : ℚ) (reserved : Option ℚ)
    {u : World × List (Performed Effect Env World)} (h : Gated knobs pid u) :
    wpJudged knobs (fireDeposit pid amount available reserved) (fun _ _ => True) u := by
  obtain ⟨s, log⟩ := u
  obtain ⟨gate, breaker, older, read, at_, past, backedOff⟩ := h
  have closing : ∀ opId resp, Attentive knobs (closeDeposit opId resp) := fun opId resp =>
    attentive_of_performs (performs_closeDeposit (fun _ _ => rfl) opId resp)
  unfold wpJudged fireDeposit
  simp only [wp_bind, wp_call, andThen]
  refine ⟨trivial, fun env asked => ⟨judged_of_no_deposit rfl env _, ?_⟩⟩
  simp only [observe, handle, World.write]
  cases env.store with
  | down => exact trivial
  | lost => exact trivial
  | ok =>
    dsimp only
    rw [wp_bind]
    unfold controlOrClose Source.control
    rw [wp_tryCatch, wp_bind, wp_call]
    refine ⟨trivial, fun env1 asked1 => ⟨?_, ?_⟩⟩
    · intro pid' amount' isOp
      cases isOp
      refine ⟨gate, breaker, older, s.ledger.rows, _, read, rfl, fun k up => (backedOff k up).mono ?_⟩
      have := asked.clock
      simp only [World.advance] at past ⊢
      omega
    · simp only [andThen]
      split
      · exact closing _ _ _
      · simp only [wp_throw, orElse, wp_bind, wp_call, andThen]
        exact ⟨trivial, fun env2 _ => ⟨judged_of_no_deposit rfl env2 _, trivial⟩⟩

theorem maybeTopup_judged (available : ℚ) (reserved : Option ℚ) {u : World × List (Performed Effect Env World)}
    (h : Untripped pid u) : wpJudged knobs (maybeTopup pid knobs available reserved) (fun _ _ => True) u := by
  have glance : ∀ op, reads op = true → aside op = true → Performs (fun op => reads op = true ∧ aside op = true)
      (request op : Keeper op.Answer) := fun op looks other => (performs_call op).mpr ⟨looks, other⟩
  unfold maybeTopup
  split
  · exact trivial
  refine wp_bind_mono (wp_asides untripped_stable (glance _ rfl rfl) h) (fun _ _ => trivial) (fun _ _ _ => trivial)
    fun halted v hv => ?_
  split
  · exact trivial
  refine wp_bind_mono (wp_asides untripped_stable (glance .time rfl rfl) hv) (fun _ _ => trivial) (fun _ _ _ => trivial)
    fun now w hw => ?_
  refine wp_bind_mono (wp_asides untripped_stable (glance _ rfl rfl) hw) (fun _ _ => trivial) (fun _ _ _ => trivial)
    fun spend x hx => ?_
  refine wp_bind_mono (retryGate_judged spend hx) (fun _ _ => trivial) (fun _ _ _ => trivial) fun waiting y hy => ?_
  split
  · exact trivial
  split
  · -- the cap refuses: nothing is sent
    have refusal : Attentive knobs (capRefusal pid knobs) := attentive_of_performs (performs_capRefusal (by rfl) (by rfl) knobs)
    exact refusal y
  · unfold topupWithinCap
    dsimp only
    split
    · exact trivial
    refine wp_bind_mono (wp_asides gated_stable (performs_chainView ⟨rfl, rfl⟩ ⟨rfl, rfl⟩) (hy rfl)) (fun _ _ => trivial) (fun _ _ _ => trivial)
      fun view z hz => ?_
    split
    · exact trivial
    · split
      · exact trivial
      · exact fireDeposit_judged _ available reserved hz

theorem cycleProvider_judged (pid : String) : Attentive knobs (cycleProvider pid knobs) := by
  have free : ∀ st, Attentive knobs (pure st : Keeper ProviderState) := fun st => attentive_of_performs (performs_pure st)
  refine attentive_bind (attentive_of_performs ((performs_call _).mpr rfl)) fun answer => ?_
  split
  · exact free _
  split
  · exact free _
  rename_i status _ available _
  refine attentive_bind (attentive_of_performs (performs_statusAgeS (by rfl) _)) fun age => ?_
  split
  · exact free _
  split
  · exact free _
  have orphans : Performs (fun op => deposits op = false) (reconcileOrphans pid) :=
    performs_bind ((performs_call _).mpr rfl) (performs_reconcileRows fun _ => rfl)
  refine attentive_bind (attentive_of_performs orphans) fun _ u => ?_
  refine wp_bind_mono (settleTopups_judged available _ u) (fun _ _ => trivial) (fun _ _ _ => trivial) fun halted v hv => ?_
  cases halted with
  | some d =>
    exact attentive_bind (attentive_of_performs ((aside_maybeReclaim knobs available _).mono fun _ => no_deposit_of_aside))
      (fun _ => free _) v
  | none =>
    refine wp_bind_mono (maybeReclaim_judged knobs available _ (hv rfl)) (fun _ _ => trivial) (fun _ _ _ => trivial)
      fun reclaim w hw => ?_
    exact wp_bind_mono (maybeTopup_judged available _ hw) (fun _ _ => trivial) (fun _ _ _ => trivial) fun _ _ _ => trivial

theorem cycleProviders_judged (ids : List String) : Attentive knobs (cycleProviders knobs ids) := by
  induction ids with
  | nil => exact attentive_of_performs (performs_pure [])
  | cons pid rest ih =>
    unfold cycleProviders
    refine attentive_bind (attentive_tryCatch (cycleProvider_judged pid) fun error => ?_) fun st =>
      attentive_bind ih fun _ => attentive_of_performs (performs_pure _)
    split
    · exact attentive_of_performs (performs_throw _)
    · exact attentive_of_performs (performs_pure _)

/-- The knobs of a cycle are the fixed ones. -/
theorem loadKnobs_judged (u : World × List (Performed Effect Env World)) :
    wpJudged knobs loadKnobs (fun ending _ => ∀ k, ending = .returned (.ok k) → k = knobs) u := by
  unfold wpJudged loadKnobs
  simp only [wp_bind, wp_call, andThen]
  refine ⟨fun _ h => (by cases h), fun env asked => ⟨judged_of_no_deposit rfl env u, ?_⟩⟩
  split
  · exact fun _ h => by cases h
  · rename_i k read
    obtain rfl := asked.fixed k read
    split
    · exact fun _ h => by cases h
    · rename_i k' valid
      rintro _ ⟨⟩
      exact validate_ok valid

theorem cycle_judged (ids : List String) : Attentive knobs (Source.cycle ids) := by
  have free : ∀ st, Attentive knobs (pure st : Keeper KeeperState) := fun st => attentive_of_performs (performs_pure st)
  refine attentive_bind (attentive_of_performs ((performs_call _).mpr rfl)) fun lastCycle u => ?_
  refine wp_bind_mono (loadKnobs_judged u) (fun _ _ => trivial) (fun _ _ _ => trivial) fun loaded v fixed => ?_
  cases loaded with
  | error stand => exact free _ v
  | ok k =>
    obtain rfl := fixed k rfl
    dsimp only
    split
    · exact free _ v
    refine attentive_bind (attentive_of_performs ((performs_call _).mpr rfl)) (fun configured => ?_) v
    split
    · exact free _
    · exact attentive_bind (cycleProviders_judged ids) fun _ => free _

theorem step_judged (ids : List String) (step : WalletStep) : Attentive knobs (step.program ids) := by
  cases step with
  | cycle => exact attentive_bind (cycle_judged ids) fun _ => attentive_of_performs (performs_pure _)
  | clearHalt pid kind =>
    exact attentive_of_performs (performs_bind ((performs_call _).mpr rfl) fun _ => performs_pure _)

/-- Over a history, the last two reads of the closed top-ups in front of a deposit. -/
theorem deposit_judged {ids : List String} {steps : List (WalletStep × List Env)} {s : World}
    (assumed : ∀ e ∈ walletHistory ids steps s, Steady knobs e.op e.env e.before)
    {pre post : List (Performed Effect Env World)} {e : Performed Effect Env World} {amount : ℚ}
    (split : walletHistory ids steps s = pre ++ e :: post) (sent : e.op = .control pid (.deposit amount)) :
    ∃ gate breaker older earlier row, closedReads pid pre.reverse = gate :: breaker :: older ∧
      e.before.ledger.rows = earlier ++ [row] ∧
      ∀ k, (if k ≤ 3 then gate else breaker).env.store = .ok → BackedOff Row.stamp knobs pid row.ts earlier k := by
  obtain ⟨session, mem, t, before, own, rest, later, rfl, rfl, trace⟩ := history_split split
  obtain ⟨step, -, rfl⟩ := List.mem_map.mp mem
  have steady : ∀ x ∈ own ++ e :: rest, Steady knobs x.op x.env x.before := fun x there =>
    assumed x (by rw [split]; simp only [List.mem_append, List.mem_cons] at there ⊢; tauto)
  obtain ⟨judged, -⟩ := observe_sound (step_judged ids step.1 (t, [])) _ fun pre' x post' at_ =>
    steady x (by rw [← trace, at_]; exact List.mem_append_right _ List.mem_cons_self)
  have here := (judged own e rest trace).1
  rw [remembered_logged, List.append_nil] at here
  obtain ⟨gate, breaker, older, earlier, row, read, table, backedOff⟩ := here pid amount sent
  refine ⟨gate, breaker, older ++ closedReads pid before.reverse, earlier, row, ?_, table, backedOff⟩
  unfold closedReads at read ⊢
  rw [List.reverse_append, List.filter_append, read]
  rfl

end Reading

section Stamps

/-- No stamp lies before the epoch. -/
structure Dated (w : World) : Prop where
  now : 0 ≤ w.now
  rows : ∀ row ∈ w.ledger.rows, 0 ≤ row.ts

theorem dated_handle {op : Effect} {env : Env} {s : World} (clock : 0 ≤ env.elapsed) (h : Dated s) :
    Dated (handle op env s).2 := by
  have later : 0 ≤ s.now + env.elapsed := by
    have := h.now
    omega
  refine ⟨by rw [handle_now]; exact later, fun row mem => ?_⟩
  rcases ledger_cases op env s with same | ⟨new, stamped, added⟩ | ⟨target, outcome, pa, pr, now, -, closed⟩ |
    ⟨pid, kind, -, cleared⟩
  · rw [same] at mem
    exact h.rows row mem
  · rw [added] at mem
    rcases List.mem_append.mp mem with mem | mem
    · exact h.rows row mem
    · rw [List.mem_singleton.mp mem, stamped]
      exact later
  · rw [closed] at mem
    obtain ⟨old, was, rfl⟩ := List.mem_map.mp mem
    unfold Ledger.closeAt
    split
    · exact h.rows old was
    · exact h.rows old was
  · rw [cleared] at mem
    exact h.rows row (List.mem_of_mem_filter mem)

/-- `updated_at` is the stamp, but for the row a clock at zero closed. -/
theorem BackedOff.updatedAt {knobs : Knobs} {pid : String} {at_ : Int} {rows : List Row} {k : Nat}
    (h : BackedOff Row.stamp knobs pid at_ rows k) (dated : ∀ row ∈ rows, 0 ≤ row.ts) :
    BackedOff (·.updatedAt) knobs pid at_ rows k := by
  intro positive long errors last isLast
  have waited := h positive long errors last isLast
  have mem : last ∈ rows := by
    have there := List.mem_of_mem_head? isLast
    unfold closedTopups at there
    exact List.mem_of_mem_filter (List.mem_reverse.mp there)
  have := dated last mem
  unfold Row.stamp at waited
  split at waited
  · simp only
    omega
  · exact waited

end Stamps

section Runs

variable {ids : List String} {steps : List (WalletStep × List Env)} {start : Nat}

/-- The history leads through dated states. -/
theorem history_dated (clock : ∀ e ∈ walletHistory ids steps ⟨start, .empty⟩, 0 ≤ e.env.elapsed) :
    ∀ e ∈ walletHistory ids steps ⟨start, .empty⟩, Dated e.before := by
  intro e mem
  obtain ⟨pre, post, split⟩ := List.append_of_mem mem
  have chain : Follows handle ⟨start, .empty⟩ (walletHistory ids steps ⟨start, .empty⟩)
      (walletWorld ids steps ⟨start, .empty⟩) := follows_history _ _
  rw [split] at chain
  have first : Dated ⟨start, .empty⟩ := ⟨Int.natCast_nonneg start, List.forall_mem_nil _⟩
  refine chain.reaches.1.keeps first fun x there dated => dated_handle (clock x ?_) dated
  rw [split]
  exact List.mem_append_left _ there

/-- Two phases of one provider: the later one has begun another row, 900 seconds behind the earlier one's. -/
theorem phases_apart {s : World} (clock : ∀ e ∈ walletHistory ids steps s, 0 ≤ e.env.elapsed)
    {pre mid post : List (Performed Effect Env World)} {first last : Performed Effect Env World} {pid : String}
    {verb verb' : ControlOp} (split : walletHistory ids steps s = pre ++ first :: mid ++ last :: post)
    (isFirst : first.op = .control pid verb) (isLast : last.op = .control pid verb')
    (fires_ : reclaimPhase verb ≠ none) (fires' : reclaimPhase verb' ≠ none) {row row' : Row}
    (stands : first.before.ledger.rows.getLast? = some row) (stands' : last.before.ledger.rows.getLast? = some row') :
    row.ts + reclaimCooldownS ≤ row'.ts := by
  obtain ⟨phase, named⟩ := Option.ne_none_iff_exists'.mp fires_
  obtain ⟨phase', named'⟩ := Option.ne_none_iff_exists'.mp fires'
  have licensed := @walletHistory_licensed (fun _ env _ => 0 ≤ env.elapsed) ids steps s clock
  have chain : Follows handle s (walletHistory ids steps s) (walletWorld ids steps s) := follows_history _ s
  obtain ⟨before, begin_, amount, pa, pr, isPre, isBegin, table⟩ := phase_begun split isLast named'
  rw [split] at licensed chain
  have forward : ClockForward fun (_ : Effect) (env : Env) (_ : World) => 0 ≤ env.elapsed := fun _ _ _ h => h
  have backed := licensed first (by simp)
  rw [isFirst] at backed
  obtain ⟨earlier, own, rows, ownPid, ownOp, ownOutcome, -⟩ := (backed phase (Option.mem_def.mpr named)).1.intent
  have backed' := licensed last (by simp)
  rw [isLast] at backed'
  obtain ⟨earlier', own', rows', -, -, -, rested⟩ := (backed' phase' (Option.mem_def.mpr named')).1.intent
  obtain rfl : own = row := by simpa [rows] using stands
  obtain rfl : own' = row' := by simpa [rows'] using stands'
  -- the row of the first phase is on record from there on
  have recorded : Recorded own (handle first.op first.env first.before).2.ledger := by
    refine recorded_stays (licensed first (by simp)) ⟨own, ?_, rfl, rfl, rfl, rfl, ?_⟩
    · rw [rows]
      exact List.mem_append_right _ (List.mem_singleton_self _)
    · rw [ownOutcome]
      nofun
  have kept : ∀ x ∈ mid, Recorded own x.before.ledger → Recorded own (handle x.op x.env x.before).2.ledger :=
    fun x mem h => recorded_stays (licensed x (by simp [mem])) h
  -- the operation right before the second phase begins another row
  obtain ⟨inner, rfl⟩ : ∃ inner, mid = inner ++ [begin_] := by
    rcases List.eq_nil_or_concat mid with rfl | ⟨inner, x, rfl⟩
    · have same : first = begin_ := (List.cons.inj (List.append_inj' isPre rfl).2).1
      rw [same, isBegin] at isFirst
      cases isFirst
    · refine ⟨inner, ?_⟩
      have tail := isPre
      rw [List.concat_eq_append, ← List.cons_append, ← List.append_assoc] at tail
      rw [List.concat_eq_append, (List.cons.inj (List.append_inj' tail rfl).2).1]
  have reached : Follows handle (handle first.op first.env first.before).2 inner begin_.before := by
    have := chain.between
    exact this.reaches.1
  have older := reached.keeps (I := fun w => Recorded own w.ledger) recorded fun x mem => kept x (by simp [mem])
  obtain ⟨r, there, sameId, samePid, sameOp, sameTs, outcome⟩ := older
  have behind : r ∈ earlier' := by
    have begun : begin_.before.ledger.rows ++ [⟨begin_.before.ledger.nextId, begin_.before.now + begin_.env.elapsed, pid,
        phase'.1, amount, pa, none, pr, none, .pending, begin_.before.now + begin_.env.elapsed⟩] = earlier' ++ [own'] := by
      rw [← rows', table]
      rfl
    rw [← (List.append_inj' begun rfl).1]
    exact there
  have kind : phase.1 ∈ reclaimOps := by
    cases verb <;> cases named <;> simp [reclaimOps]
  have waited := (rested forward).2 r behind (by simp [isReclaim, samePid, ownPid, sameOp, ownOp, kind, outcome])
  omega

/-- Over every run with a clock that never steps back and fixed knobs: a deposit is a cooldown behind
every spent top-up, and its backoff behind the last error of three, where the last read of the closed
top-ups in front of it answered, of more, where the one before did; two phases of the reclaim are 900
seconds apart and name at most eight channels. -/
theorem transactions_spaced (ids : List String) (knobs : Knobs) (steps : List (WalletStep × List Env)) (start : Nat)
    (range : knobs.topupCooldownS ≤ 86400) (clock : ∀ step ∈ steps, ∀ env ∈ step.2, 0 ≤ env.elapsed)
    (fixed : ∀ step ∈ steps, ∀ env ∈ step.2, ∀ k ∈ env.settings, k = knobs) :
    (∀ pre e post pid amount, walletHistory ids steps ⟨start, .empty⟩ = pre ++ e :: post →
      e.op = .control pid (.deposit amount) →
      ∃ gate breaker older earlier row, closedReads pid pre.reverse = gate :: breaker :: older ∧
        e.before.ledger.rows = earlier ++ [row] ∧ row.pid = pid ∧ row.op = .topup ∧ row.outcome = .pending ∧
        row.ts ≤ e.before.now + e.env.elapsed ∧ Cooled knobs pid row.ts earlier ∧
        ∀ k, (if k ≤ 3 then gate else breaker).env.store = .ok → BackedOff (·.updatedAt) knobs pid row.ts earlier k) ∧
    (∀ e ∈ walletHistory ids steps ⟨start, .empty⟩, ∀ pid verb kind names, e.op = .control pid verb →
      reclaimPhase verb = some (kind, names) →
      (∃ earlier row, e.before.ledger.rows = earlier ++ [row] ∧ row.pid = pid ∧ row.op = kind ∧
        row.outcome = .pending ∧ row.ts ≤ e.before.now + e.env.elapsed) ∧ ∀ sent ∈ names, sent.length ≤ 8) ∧
    ∀ pre first mid last post pid verb verb',
      walletHistory ids steps ⟨start, .empty⟩ = pre ++ first :: mid ++ last :: post →
      first.op = .control pid verb → last.op = .control pid verb' → reclaimPhase verb ≠ none → reclaimPhase verb' ≠ none →
      ∀ row row', first.before.ledger.rows.getLast? = some row → last.before.ledger.rows.getLast? = some row' →
        row.ts + 900 ≤ row'.ts := by
  have steady : ∀ e ∈ walletHistory ids steps ⟨start, .empty⟩, Steady knobs e.op e.env e.before := by
    intro e mem
    obtain ⟨o, ho, he⟩ := List.mem_flatMap.mp mem
    obtain ⟨step, hstep, henv⟩ := env_mem_of_walletRun ho he
    exact ⟨clock step hstep _ henv, fixed step hstep _ henv⟩
  have forward : ∀ e ∈ walletHistory ids steps ⟨start, .empty⟩, 0 ≤ e.env.elapsed := fun e mem => (steady e mem).clock
  refine ⟨fun pre e post pid amount split isOp => ?_, fun e mem pid verb kind names isOp named => ?_, ?_⟩
  · have mem : e ∈ walletHistory ids steps ⟨start, .empty⟩ := by
      rw [split]
      exact List.mem_append_right _ List.mem_cons_self
    obtain ⟨earlier, row, rows, ownPid, ownOp, outcome, past, cooled⟩ := deposits_spaced range ids steps _ steady e mem pid amount isOp
    obtain ⟨gate, breaker, older, earlier', row', reads, rows', backedOff⟩ := deposit_judged steady split isOp
    -- both speak of the intent, the last row of the table
    obtain ⟨rfl, last⟩ := List.append_inj' (rows.symm.trans rows') rfl
    obtain rfl : row = row' := List.singleton_inj.mp last
    refine ⟨gate, breaker, older, earlier, row, reads, rows, ownPid, ownOp, outcome, past, cooled, fun k up => ?_⟩
    refine (backedOff k up).updatedAt fun r there => (history_dated forward e mem).rows r ?_
    rw [rows]
    exact List.mem_append_left _ there
  · have licensed := @walletHistory_licensed (fun _ env _ => 0 ≤ env.elapsed) ids steps ⟨start, .empty⟩ forward e mem
    rw [isOp] at licensed
    obtain ⟨backed, few⟩ := licensed (kind, names) (Option.mem_def.mpr named)
    obtain ⟨earlier, row, rows, ownPid, ownOp, outcome, rested⟩ := backed.intent
    exact ⟨⟨earlier, row, rows, ownPid, ownOp, outcome, (rested fun _ _ _ h => h).1⟩, fun sent there => (few sent there).2⟩
  · intro pre first mid last post pid verb verb' split isFirst isLast fires_ fires' row row' stands stands'
    exact phases_apart forward split isFirst isLast fires_ fires' stands stands'

end Runs

/-- The sample wallet in front of a control server whose deposits end unknown. -/
def unknownEnv (elapsed : Int) (store : Store) : Env :=
  { sampleEnv elapsed store with control := .reply ⟨.bool false, .bool true, true, [], none⟩ }

/-- A deposit that ends unknown, and a minute later a cycle whose gate cannot read the closed top-ups. -/
def skippedSteps : List (WalletStep × List Env) :=
  [(.cycle, List.replicate 30 (unknownEnv 0 .ok)),
    (.cycle, unknownEnv 60 .ok :: List.replicate 14 (unknownEnv 0 .ok) ++ unknownEnv 0 .down ::
      List.replicate 14 (unknownEnv 0 .ok))]

/-- The sample wallet, read afresh at `now`, in front of a control server that refuses every deposit. -/
def failedEnv (now : Nat) (elapsed : Int) (store : Store) : Env :=
  { sampleEnv elapsed store with
    status := some ⟨some 0, none, some (now * 1000)⟩
    balances := some ⟨some now, some 100, some 1⟩
    control := .reply ⟨.bool false, .bool false, true, [], none⟩ }

/-- A cycle at `now`; its tenth operation is the breaker's read of the closed top-ups. -/
def failedCycle (now : Nat) (elapsed : Int) (breaker : Store) : WalletStep × List Env :=
  (.cycle, failedEnv now elapsed .ok :: List.replicate 8 (failedEnv now 0 .ok) ++ failedEnv now 0 breaker ::
    List.replicate 20 (failedEnv now 0 .ok))

/-- Three refused deposits, each behind its backoff, and two more past a breaker that cannot read. -/
def uncountedSteps : List (WalletStep × List Env) :=
  [failedCycle 0 0 .ok, failedCycle 300 300 .ok, failedCycle 900 600 .ok, failedCycle 2100 1200 .down,
    failedCycle 3300 1200 .down]

/-- A failed read counts no strike: of the gate, and the deposit leaves 60 seconds behind the error it
should wait 300 for; of the breaker, and it leaves 1200 behind the last of four, which should wait 2400. -/
theorem backoff_skipped :
    ((∀ step ∈ skippedSteps, ∀ env ∈ step.2, 0 ≤ env.elapsed) ∧
      (∀ step ∈ skippedSteps, ∀ env ∈ step.2, ∀ k ∈ env.settings, k = sampleKnobs) ∧
      ∃ e ∈ walletHistory ["buyer"] skippedSteps ⟨0, .empty⟩, e.op = .control "buyer" (.deposit 5) ∧
        ∃ last ∈ (closedTopups "buyer" e.before.ledger.rows).head?, last.outcome = .unknown ∧
          ∃ row ∈ e.before.ledger.rows.getLast?, row.pid = "buyer" ∧ row.op = .topup ∧ row.outcome = .pending ∧
            row.ts < last.updatedAt + min (max sampleKnobs.topupCooldownS 300) 3600) ∧
    (∀ step ∈ uncountedSteps, ∀ env ∈ step.2, 0 ≤ env.elapsed) ∧
      (∀ step ∈ uncountedSteps, ∀ env ∈ step.2, ∀ k ∈ env.settings, k = sampleKnobs) ∧
      ∃ e ∈ walletHistory ["buyer"] uncountedSteps ⟨0, .empty⟩, e.op = .control "buyer" (.deposit 5) ∧
        (closedTopups "buyer" e.before.ledger.rows).map (·.outcome) = [.failed, .failed, .failed, .failed] ∧
        ∃ last ∈ (closedTopups "buyer" e.before.ledger.rows).head?,
          ∃ row ∈ e.before.ledger.rows.getLast?, row.pid = "buyer" ∧ row.op = .topup ∧ row.outcome = .pending ∧
            row.ts < last.updatedAt + min (max sampleKnobs.topupCooldownS 300 * 2 ^ 3) 3600 :=
  ⟨⟨by decide +kernel, by decide +kernel, by decide +kernel⟩, by decide +kernel, by decide +kernel, by decide +kernel⟩

/-- Two deposits, the second past the backoff of the first. -/
def spacedSteps : List (WalletStep × List Env) :=
  [(.cycle, List.replicate 30 (unknownEnv 0 .ok)), (.cycle, unknownEnv 400 .ok :: List.replicate 30 (unknownEnv 0 .ok))]

theorem transactions_spaced_sample :
    (∃ e ∈ walletHistory ["buyer"] spacedSteps ⟨(0 : Nat), .empty⟩, e.op = .control "buyer" (.deposit 5) ∧
      e.before.ledger.rows.length = 2) ∧
    ∀ pre e post pid amount, walletHistory ["buyer"] spacedSteps ⟨(0 : Nat), .empty⟩ = pre ++ e :: post →
      e.op = .control pid (.deposit amount) →
      ∃ gate breaker older earlier row, closedReads pid pre.reverse = gate :: breaker :: older ∧
        e.before.ledger.rows = earlier ++ [row] ∧ row.pid = pid ∧ row.op = .topup ∧ row.outcome = .pending ∧
        row.ts ≤ e.before.now + e.env.elapsed ∧ Cooled sampleKnobs pid row.ts earlier ∧
        ∀ k, (if k ≤ 3 then gate else breaker).env.store = .ok →
          BackedOff (·.updatedAt) sampleKnobs pid row.ts earlier k :=
  ⟨by decide +kernel, (transactions_spaced ["buyer"] sampleKnobs spacedSteps 0 (by decide) (by decide +kernel)
    (by decide +kernel)).1⟩

end Unhardcoded.Guarantees

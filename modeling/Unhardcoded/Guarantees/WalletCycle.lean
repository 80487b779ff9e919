import Unhardcoded.Guarantees.WalletFunding

/-!
# Rules for one keeper cycle and for runs of cycles

What `_maybe_topup` has checked when it reaches the deposit (`wp_maybeTopup`),
what the deposit attempt leaves behind (`wp_fireDeposit`), and how a property of
the funding rows is carried through a whole cycle over any list of providers
(`wp_cycle`). A run is a list of steps, each with the environment's choices: a
cycle or an operator's clear, cut anywhere.
-/

namespace Unhardcoded.Guarantees
open Source Effects Program

/-- `J` of the funding rows at every ending, and `X` of a returned value with them. -/
def Carries {α : Type} (J : List Row → Prop) (X : α → List Row → Prop) : Ending Exn α → World → Prop
  | .returned value, t => J (fundingRows t.ledger) ∧ X value (fundingRows t.ledger)
  | .raised _, t => J (fundingRows t.ledger)
  | .crashed, t => J (fundingRows t.ledger)

section Carries

variable {α : Type} {J : List Row → Prop} {X Y : α → List Row → Prop} {ending : Ending Exn α} {t : World}

theorem Carries.rows (h : Carries J X ending t) : J (fundingRows t.ledger) := by
  cases ending with
  | crashed => exact h
  | raised error => exact h
  | returned value => exact h.1

theorem Carries.mono (h : Carries J X ending t) (imp : ∀ value rows, X value rows → Y value rows) :
    Carries J Y ending t := by
  cases ending with
  | crashed => exact h
  | raised error => exact h
  | returned value => exact ⟨h.1, imp _ _ h.2⟩

theorem Carries.of_rows (h : J (fundingRows t.ledger)) : Carries J (fun _ _ => True) ending t := by
  cases ending with
  | crashed => exact h
  | raised error => exact h
  | returned value => exact ⟨h, trivial⟩

end Carries

section Topup

variable {Assume Guarantee : Effect → Env → World → Prop}

/-- The environment's clock never steps back. -/
def ClockForward (Assume : Effect → Env → World → Prop) : Prop :=
  ∀ op env s, Assume op env s → 0 ≤ env.elapsed

theorem handle_now (op : Effect) (env : Env) (s : World) :
    (handle op env s).2.now = s.now + env.elapsed := by
  have hwrite : ∀ {α : Type} (w : World) (store : Store) (l : Ledger) (done failed : α),
      (w.write store l done failed).2.now = w.now := by
    intro α w store l done failed
    cases store <;> rfl
  cases op <;> first | rfl | exact hwrite _ _ _ _ _

/-- Under a clock that never steps back, no program ends before it began. -/
theorem wp_clock {α : Type} (forward : ClockForward Assume) (p : Keeper α) {n : Int} {s : World}
    (h : n ≤ s.now) : wp handle Assume (fun _ _ _ => True) p (fun _ t => n ≤ t.now) s := by
  apply keeps_of_forall (I := fun w : World => n ≤ w.now) _ p s h
  intro op env w hw ha
  refine ⟨trivial, ?_⟩
  have := forward op env w ha
  rw [handle_now]
  omega

/-- What `_maybe_topup` has established when it starts the deposit attempt in `t`,
over the table of `s`. -/
structure Admitted (Assume : Effect → Env → World → Prop) (pid : String) (knobs : Knobs) (s t : World) :
    Prop where
  table : t.ledger = s.ledger
  unhalted : s.ledger.walletHalted pid .topup = false
  positive : minTopupUsdc ≤ min knobs.topupAmountUsdc maxTopupUsdc
  withinCap : ∃ since : Int, (ClockForward Assume → since + 86400 ≤ t.now) ∧
    Ledger.sumUsdc (s.ledger.spentSince pid .topup since) + knobs.topupAmountUsdc ≤ knobs.topupDailyCapUsdc

/-- What it has read when the cap refuses: one answer over the cap. -/
structure Refused (Assume : Effect → Env → World → Prop) (pid : String) (knobs : Knobs) (s t : World) :
    Prop where
  table : t.ledger = s.ledger
  overCap : ∃ since env u, u.ledger = s.ledger ∧ Assume (.walletOpSpendSince pid .topup since) env u ∧
    (knobs.topupDailyCapUsdc : WithTop ℚ) <
      (handle (.walletOpSpendSince pid .topup since) env u).1.spentUsdc + knobs.topupAmountUsdc

/-- A `false` from `wallet_halted` is an answer of the table. -/
theorem walletHalted_of_answer {pid : String} {kind : HaltKind} {env : Env} {s : World}
    (h : (handle (.walletHalted pid kind) env s).1 = false) : s.ledger.walletHalted pid kind = false := by
  simp only [handle, World.read] at h
  cases hstore : env.store with
  | ok => simpa [hstore, World.advance] using h
  | down => simp [hstore] at h
  | lost => simp [hstore] at h

/-- A spend within the cap is an answer of the table. -/
theorem spentSince_of_answer {pid : String} {since : Int} {env : Env} {s : World} {amount cap : ℚ}
    (h : ¬ (cap : WithTop ℚ) < (handle (.walletOpSpendSince pid .topup since) env s).1.spentUsdc + amount) :
    Ledger.sumUsdc (s.ledger.spentSince pid .topup since) + amount ≤ cap := by
  simp only [handle, World.read] at h
  cases hstore : env.store with
  | ok =>
    simp only [hstore, World.advance, Ledger.walletOpSpendSince, ← WithTop.coe_add, WithTop.coe_lt_coe,
      not_lt] at h
    exact h
  | down => simp [hstore] at h
  | lost => simp [hstore] at h

/-- A spend within the cap names the newest of its rows. -/
theorem lastTs_of_answer {pid : String} {since : Int} {env : Env} {s : World} {amount cap : ℚ}
    (h : ¬ (cap : WithTop ℚ) < (handle (.walletOpSpendSince pid .topup since) env s).1.spentUsdc + amount)
    {row : Row} (mem : row ∈ s.ledger.spentSince pid .topup since) :
    ∃ last, last ∈ (handle (.walletOpSpendSince pid .topup since) env s).1.lastTs ∧ row.ts ≤ last := by
  simp only [handle, World.read] at h ⊢
  cases hstore : env.store with
  | ok =>
    simp only [World.advance, Ledger.walletOpSpendSince]
    cases newest : ((s.ledger.spentSince pid .topup since).map (·.ts)).max? with
    | none =>
      rw [List.max?_eq_none_iff, List.map_eq_nil_iff] at newest
      rw [newest] at mem
      cases mem
    | some last => exact ⟨last, rfl, (List.max?_le_iff newest).mp (le_refl last) _ (List.mem_map_of_mem mem)⟩
  | down => simp [hstore] at h
  | lost => simp [hstore] at h

variable (hG : ∀ op env s, plain op = true → Guarantee op env s)
include hG

/-- The spending the retry gate was handed is a cooldown behind `gate`. -/
def Passed (knobs : Knobs) (spend : Spend) (gate : Int) : Prop :=
  ∀ last ∈ spend.lastTs, last + knobs.topupCooldownS ≤ gate

/-- The retry gate asks for a wait, never for a halt, and does not look at the cap. -/
theorem retryGate_spec (pid : String) (knobs : Knobs) (spend : Spend) (s : World) :
    wp handle Assume Guarantee (retryGate pid knobs spend)
      (fun ending t => t.ledger = s.ledger ∧ ending ≠ .returned (some .pumpHalt) ∧
        ending ≠ .returned (some .errorHalt) ∧ ending ≠ .returned (some .dailyCap) ∧
        (ending = .returned none → ∃ gate, (ClockForward Assume → s.now ≤ gate ∧ gate ≤ t.now) ∧
          Passed knobs spend gate)) s := by
  unfold retryGate
  simp only [wp_bind, wp_call, andThen]
  refine ⟨by simp, fun env asked => ⟨hG _ env s rfl, ?_⟩⟩
  rw [handle_reads rfl]
  split
  · exact ⟨rfl, by simp, by simp, by simp, by simp⟩
  rename_i cooled
  simp only [wp_bind, wp_call, andThen]
  refine ⟨⟨rfl, by simp, by simp, by simp, by simp⟩, fun env1 asked1 => ⟨hG _ env1 _ rfl, ?_⟩⟩
  rw [handle_reads rfl]
  have clock : ClockForward Assume → s.now ≤ s.now + env.elapsed ∧ s.now + env.elapsed ≤ s.now + env.elapsed + env1.elapsed := by
    intro forward
    have := forward _ _ _ asked
    have := forward _ _ _ asked1
    omega
  have passed : Passed knobs spend (s.now + env.elapsed) := by
    intro last mem
    by_contra early
    refine cooled ⟨last, mem, ?_⟩
    simp only [handle, World.advance]
    omega
  have pass : ∃ gate, (ClockForward Assume → s.now ≤ gate ∧ gate ≤ s.now + env.elapsed + env1.elapsed) ∧
      Passed knobs spend gate := ⟨s.now + env.elapsed, clock, passed⟩
  split
  · exact ⟨rfl, by simp, by simp, by simp, fun _ => pass⟩
  · split
    · exact ⟨rfl, by simp, by simp, by simp, by simp⟩
    · exact ⟨rfl, by simp, by simp, by simp, fun _ => pass⟩

/-- The hot-wallet checks only stop the deposit. -/
theorem wp_topupWithinCap {pid : String} {knobs : Knobs} {available : ℚ} {reserved : Option ℚ}
    {Q : Ending Exn TopupDecision → World → Prop} {s : World}
    (stop : ∀ ending t, t.ledger = s.ledger → ending ≠ .returned .pumpHalt → ending ≠ .returned .errorHalt →
      ending ≠ .returned .dailyCap → Q ending t)
    (deposit : ∀ t, t.ledger = s.ledger → (ClockForward Assume → s.now ≤ t.now) →
      minTopupUsdc ≤ min knobs.topupAmountUsdc maxTopupUsdc →
      wp handle Assume Guarantee
        (fireDeposit pid (min knobs.topupAmountUsdc maxTopupUsdc) available reserved) Q t) :
    wp handle Assume Guarantee (topupWithinCap pid knobs available reserved) Q s := by
  unfold topupWithinCap
  dsimp only
  split
  · exact stop _ _ rfl (by simp) (by simp) (by simp)
  rename_i enough
  have view : wp handle Assume Guarantee (chainView pid)
      (fun _ t => t.ledger = s.ledger ∧ (ClockForward Assume → s.now ≤ t.now)) s := by
    have table : KeepsTable Assume Guarantee (· = s.ledger) (chainView pid) := keeps_chainView hG pid
    by_cases forward : ClockForward Assume
    · exact wp_mono (wp_and (table s rfl) (wp_clock forward _ (le_refl s.now)))
        fun _ _ h => ⟨h.1, fun _ => h.2⟩
    · exact wp_mono (table s rfl) fun _ _ h => ⟨h, fun f => absurd f forward⟩
  rw [wp_bind]
  apply wp_mono view
  intro ending t ht
  cases ending with
  | crashed => exact stop _ _ ht.1 (by simp) (by simp) (by simp)
  | raised error => exact stop _ _ ht.1 (by simp) (by simp) (by simp)
  | returned reading =>
    simp only [andThen]
    split
    · exact stop _ _ ht.1 (by simp) (by simp) (by simp)
    · split
      · exact stop _ _ ht.1 (by simp) (by simp) (by simp)
      · exact deposit t ht.1 ht.2 (not_lt.mp enough)

/-- What separates a deposit that starts in `t` from the rows of `s`: the window asked for at
`asked`, the gate passed at `gate`. -/
def Waited (Assume : Effect → Env → World → Prop) (pid : String) (knobs : Knobs) (s t : World) : Prop :=
  ∃ asked gate : Int, (ClockForward Assume → asked ≤ gate ∧ gate ≤ t.now) ∧
    ∀ row ∈ s.ledger.spentSince pid .topup (asked - 86400), row.ts + knobs.topupCooldownS ≤ gate

/-- `_maybe_topup` by what it decides over the table of `s`: it stops without a
breaker's verdict, the cap refuses, or the deposit attempt starts. -/
theorem wp_maybeTopup {pid : String} {knobs : Knobs} {available : ℚ} {reserved : Option ℚ}
    {Q : Ending Exn TopupDecision → World → Prop} {s : World}
    (stop : ∀ ending t, t.ledger = s.ledger → ending ≠ .returned .pumpHalt → ending ≠ .returned .errorHalt →
      ending ≠ .returned .dailyCap → Q ending t)
    (refuse : ∀ t, Refused Assume pid knobs s t →
      wp handle Assume Guarantee (capRefusal pid knobs) Q t)
    (deposit : ∀ t, Admitted Assume pid knobs s t → Waited Assume pid knobs s t →
      wp handle Assume Guarantee
        (fireDeposit pid (min knobs.topupAmountUsdc maxTopupUsdc) available reserved) Q t) :
    wp handle Assume Guarantee (maybeTopup pid knobs available reserved) Q s := by
  unfold maybeTopup
  split
  · exact stop _ _ rfl (by simp) (by simp) (by simp)
  simp only [wp_bind, wp_call, andThen]
  refine ⟨stop _ _ rfl (by simp) (by simp) (by simp), fun env _ => ⟨hG _ env s rfl, ?_⟩⟩
  rw [handle_reads rfl]
  split
  · exact stop _ _ rfl (by simp) (by simp) (by simp)
  rename_i answer
  have unhalted := walletHalted_of_answer (by simpa using answer)
  simp only [wp_bind, wp_call, andThen]
  refine ⟨stop _ _ rfl (by simp) (by simp) (by simp), fun env1 _ => ⟨hG _ env1 _ rfl, ?_⟩⟩
  rw [handle_reads rfl]
  refine ⟨stop _ _ rfl (by simp) (by simp) (by simp), fun env2 asked => ⟨hG _ env2 _ rfl, ?_⟩⟩
  rw [handle_reads rfl]
  -- `now` is the time read for the window; `u` is the world the spend was read in
  set now : Int := (handle .time env1 (s.advance env.elapsed)).1 with hnow
  set u := (s.advance env.elapsed).advance env1.elapsed with hu
  have gate : wp handle Assume Guarantee (retryGate pid knobs
      (handle (.walletOpSpendSince pid .topup (now - 86400)) env2 u).1)
      (fun ending t => (t.ledger = s.ledger ∧ ending ≠ .returned (some .pumpHalt) ∧
        ending ≠ .returned (some .errorHalt) ∧ ending ≠ .returned (some .dailyCap) ∧
        (ending = .returned none → ∃ gate, (ClockForward Assume → (u.advance env2.elapsed).now ≤ gate ∧ gate ≤ t.now) ∧
          Passed knobs (handle (.walletOpSpendSince pid .topup (now - 86400)) env2 u).1 gate)) ∧
        (ClockForward Assume → now ≤ t.now))
      (u.advance env2.elapsed) := by
    have waits := @retryGate_spec Assume _ hG pid knobs
      (handle (.walletOpSpendSince pid .topup (now - 86400)) env2 u).1 (u.advance env2.elapsed)
    by_cases forward : ClockForward Assume
    · have later : now ≤ (u.advance env2.elapsed).now := by
        have := forward _ _ _ asked
        simp only [hnow, handle, hu, World.advance]
        omega
      exact wp_mono (wp_and waits (wp_clock forward _ later)) fun _ _ h => ⟨h.1, fun _ => h.2⟩
    · exact wp_mono waits fun _ _ h => ⟨h, fun f => absurd f forward⟩
  apply wp_mono gate
  intro ending t ht
  obtain ⟨⟨table, noPump, noError, noCap, passed⟩, clock⟩ := ht
  cases ending with
  | crashed => exact stop _ _ table (by simp) (by simp) (by simp)
  | raised error => exact stop _ _ table (by simp) (by simp) (by simp)
  | returned waiting =>
    cases waiting with
    | some d =>
      exact stop _ _ table (fun h => noPump (by cases h; rfl)) (fun h => noError (by cases h; rfl))
        fun h => noCap (by cases h; rfl)
    | none =>
      simp only [andThen]
      split
      · rename_i exceeds
        exact refuse t ⟨table, _, env2, u, rfl, asked, exceeds⟩
      · rename_i within_
        apply wp_topupWithinCap hG
        · exact fun ending t' ht' => stop ending t' (ht'.trans table)
        · intro t' ht' hclock positive
          obtain ⟨gate, between, pass⟩ := passed rfl
          refine deposit t' ⟨ht'.trans table, unhalted, positive, now - 86400, fun f => ?_, ?_⟩
            ⟨now, gate, fun f => ?_, fun row mem => ?_⟩
          · have := clock f
            have := hclock f
            omega
          · exact spentSince_of_answer (s := u) within_
          · have := between f
            have := hclock f
            have := f _ _ _ asked
            simp only [World.advance, hu, hnow, handle] at *
            omega
          · -- the spend was answered: a row of the window is behind its newest stamp
            obtain ⟨last, isMax⟩ := lastTs_of_answer (s := u) within_ mem
            have := pass last isMax.1
            have := isMax.2
            omega

/-- No breaker's verdict. -/
def NoHalt (d : TopupDecision) (_ : List Row) : Prop := d ≠ .pumpHalt ∧ d ≠ .errorHalt

/-- The row `wallet_op_begin` writes for a deposit. -/
def intent (id : Nat) (now : Int) (pid : String) (amount available : ℚ) (reserved : Option ℚ) : Row :=
  ⟨id, now, pid, .topup, some amount, some available, none, reserved, none, .pending, now⟩

/-- The table once that row is written. -/
def withIntent (l : Ledger) (now : Int) (pid : String) (amount available : ℚ) (reserved : Option ℚ) :
    Ledger :=
  (l.walletOpBegin now pid .topup (some amount) (some available) reserved).2

omit hG

theorem outcomeFor_cases (resp : Reply) :
    outcomeFor resp = .fired ∨ outcomeFor resp = .failed ∨ outcomeFor resp = .unknown := by
  unfold outcomeFor
  split
  · exact .inl rfl
  · split
    · exact .inr (.inl rfl)
    · exact .inr (.inr rfl)

/-- The guarded control call: it is sent, and then either answered, or the row is
closed as `unknown` in front of the same exception. -/
theorem wp_controlOrClose {pid : String} {opId : Nat} {op : ControlOp} {Q : Ending Exn Reply → World → Prop}
    {s : World} (crashed : Q .crashed s)
    (sent : ∀ env, Assume (.control pid op) env s → Guarantee (.control pid op) env s)
    (reply : ∀ (env : Env) resp, Q (.returned resp) (s.advance env.elapsed))
    (raised : ∀ (env : Env) exn, wp handle Assume Guarantee
      (request (.walletOpFinish opId .unknown none none) >>= fun _ => (throw exn : Keeper Reply)) Q
      (s.advance env.elapsed)) :
    wp handle Assume Guarantee (controlOrClose pid opId op) Q s := by
  unfold controlOrClose Source.control
  rw [wp_tryCatch, wp_bind, wp_call]
  refine ⟨crashed, fun env asked => ⟨sent env asked, ?_⟩⟩
  rw [handle_reads rfl]
  simp only [andThen]
  split
  · exact reply env _
  · exact raised env _

theorem withIntent_rows (l : Ledger) (now : Int) (pid : String) (amount available : ℚ)
    (reserved : Option ℚ) : (withIntent l now pid amount available reserved).rows =
      l.rows ++ [intent l.nextId now pid amount available reserved] := rfl

theorem fundingRows_withIntent (l : Ledger) (now : Int) (pid : String) (amount available : ℚ)
    (reserved : Option ℚ) : fundingRows (withIntent l now pid amount available reserved) =
      fundingRows l ++ [intent l.nextId now pid amount available reserved] := by
  simp [fundingRows, withIntent_rows, isFunding, intent]

/-- Closing the intent leaves every earlier funding row as it was. -/
theorem fundingRows_close_intent (l : Ledger) (now at_ : Int) (pid : String) (amount available : ℚ)
    (reserved : Option ℚ) (outcome : Source.Outcome) :
    fundingRows ((withIntent l now pid amount available reserved).walletOpFinish at_ l.nextId outcome
        none none) =
      fundingRows l ++
        [Ledger.close outcome none none at_ (intent l.nextId now pid amount available reserved)] := by
  have only : ∀ row ∈ (withIntent l now pid amount available reserved).rows,
      row.id = l.nextId → row.op = .topup := by
    intro row hrow hid
    rw [withIntent_rows] at hrow
    rcases List.mem_append.mp hrow with hrow | hrow
    · have := l.below row hrow
      omega
    · rw [List.mem_singleton.mp hrow]
      rfl
  have older : (fundingRows l).map (Ledger.closeAt l.nextId outcome none none at_) = fundingRows l := by
    refine (List.map_congr_left fun row hrow => ?_).trans (List.map_id _)
    have := l.below row (List.mem_of_mem_filter hrow)
    simp [Ledger.closeAt, Nat.ne_of_lt this]
  rw [fundingRows_finish_topup at_ none none only, fundingRows_withIntent, List.map_append, older]
  simp [Ledger.closeAt, intent]

include hG

/-- The deposit attempt over the table of `s`: a property of the funding rows is
carried to every ending if it holds before, with the intent added, and with the
intent closed by any of the three outcomes. -/
theorem wp_fireDeposit {pid : String} {amount available : ℚ} {reserved : Option ℚ}
    {J : List Row → Prop} {s : World} (before : J (fundingRows s.ledger))
    (opened : ∀ now, J (fundingRows (withIntent s.ledger now pid amount available reserved)))
    (sent : ∀ env u, u.ledger = withIntent s.ledger u.now pid amount available reserved →
      (ClockForward Assume → s.now ≤ u.now) → Assume (.control pid (.deposit amount)) env u →
      Guarantee (.control pid (.deposit amount)) env u)
    (closed : ∀ now env w outcome, w.ledger = withIntent s.ledger now pid amount available reserved →
      Assume (.walletOpFinish s.ledger.nextId outcome none none) env w → env.store ≠ .down →
      outcome = .fired ∨ outcome = .failed ∨ outcome = .unknown →
      J (fundingRows (w.ledger.walletOpFinish (w.now + env.elapsed) s.ledger.nextId outcome none none))) :
    wp handle Assume Guarantee (fireDeposit pid amount available reserved)
      (Carries J NoHalt) s := by
  unfold fireDeposit
  simp only [wp_bind, wp_call, andThen]
  refine ⟨before, fun env asked => ⟨hG _ env s rfl, ?_⟩⟩
  have forward : ClockForward Assume → s.now ≤ s.now + env.elapsed := fun f => by
    have := f _ _ _ asked
    omega
  have begun := opened (s.now + env.elapsed)
  simp only [handle, World.write]
  cases env.store with
  | down => exact ⟨before, by simp, by simp⟩
  | lost => exact ⟨begun, by simp, by simp⟩
  | ok =>
    -- one closing statement, whichever of the three outcomes it carries
    have finish : ∀ {α : Type} (outcome : Source.Outcome) (next : Keeper α) (w : World)
        (Q : Ending Exn α → World → Prop),
        outcome = .fired ∨ outcome = .failed ∨ outcome = .unknown →
        w.ledger = withIntent s.ledger (s.now + env.elapsed) pid amount available reserved →
        (∀ t, J (fundingRows t.ledger) → Q .crashed t) →
        (∀ t, J (fundingRows t.ledger) → wp handle Assume Guarantee next Q t) →
        wp handle Assume Guarantee
          (request (.walletOpFinish s.ledger.nextId outcome none none) >>= fun _ => next) Q w := by
      intro α outcome next w Q houtcome hw crashed continued
      have stands : J (fundingRows w.ledger) := by
        rw [hw]
        exact begun
      simp only [wp_bind, wp_call, andThen]
      refine ⟨crashed w stands, fun env1 asked1 => ⟨hG _ env1 w rfl, continued _ ?_⟩⟩
      simp only [handle, World.write]
      cases hstore : env1.store with
      | down => exact stands
      | ok => exact closed _ env1 w outcome hw asked1 (by rw [hstore]; simp) houtcome
      | lost => exact closed _ env1 w outcome hw asked1 (by rw [hstore]; simp) houtcome
    rw [wp_bind]
    apply wp_controlOrClose
    · exact begun
    · exact fun env1 asked1 => sent env1 _ rfl forward asked1
    · -- a reply: the row is closed by what it proves
      intro env1 resp
      simp only [andThen, closeDeposit]
      split
      · exact finish .fired _ _ _ (.inl rfl) rfl (fun _ ht => ht) fun t ht => ⟨ht, by simp, by simp⟩
      · apply finish _ _ _ _ (outcomeFor_cases resp) rfl (fun _ ht => ht)
        intro t ht
        split
        · exact ⟨ht, by simp, by simp⟩
        · exact ⟨ht, by simp, by simp⟩
    · -- cancelled or raised: closed as unknown, and raised again
      intro env1 exn
      exact finish .unknown _ _ _ (.inr (.inr rfl)) rfl (fun _ ht => ht) fun _ ht => ht

end Topup

section Settle

variable {Assume Guarantee : Effect → Env → World → Prop}
variable (hG : ∀ op env s, plain op = true → Guarantee op env s)

/-- `_halt_topups` needs its one write to be allowed, and answers the decision. -/
theorem wp_haltTopups {pid : String} {d : TopupDecision} {J : List Row → Prop} {s : World}
    (before : J (fundingRows s.ledger))
    (allowed : ∀ env, Assume (.walletHalt pid .topup) env s → Guarantee (.walletHalt pid .topup) env s)
    (halted : ∀ now, J (fundingRows (s.ledger.walletHalt now pid .topup))) :
    wp handle Assume Guarantee (haltTopups pid d)
      (Carries J fun v _ => v = d) s := by
  unfold haltTopups
  simp only [wp_bind, wp_call, andThen]
  refine ⟨before, fun env asked => ⟨allowed env asked, ?_, rfl⟩⟩
  simp only [handle, World.write]
  cases env.store with
  | ok => exact halted _
  | lost => exact halted _
  | down => exact before

/-- A persisted halt is one more funding row, or none where one already stands. -/
theorem fundingRows_halt_topup (l : Ledger) (now : Int) (pid : String) :
    fundingRows (l.walletHalt now pid .topup) = fundingRows l ∨
      fundingRows (l.walletHalt now pid .topup) = fundingRows l ++
        [⟨l.nextId, now, pid, .halt .topup, none, none, none, none, none, .halted, now⟩] := by
  unfold Ledger.walletHalt
  split
  · exact .inl rfl
  · exact .inr (by simp [fundingRows_insert, isFunding])

include hG

/-- The daily-cap refusal stops, or halts on the strikes it read. -/
theorem wp_capRefusal {pid : String} {knobs : Knobs} {Q : Ending Exn TopupDecision → World → Prop}
    {s : World}
    (stop : ∀ ending t, t.ledger = s.ledger →
      ending ≠ .returned .pumpHalt → ending ≠ .returned .errorHalt → Q ending t)
    (halt : ∀ env t needed, t.ledger = s.ledger → cappedStrikesToHalt knobs = some needed →
      needed ≤ consecutive (handle (.walletOpsTerminal pid .topup topupErrorStrikesToHalt) env s).1
        walletOpErrorOutcomes →
      wp handle Assume Guarantee (haltTopups pid .errorHalt) Q t) :
    wp handle Assume Guarantee (capRefusal pid knobs) Q s := by
  unfold capRefusal errorStrikes
  simp only [wp_bind, wp_call, wp_pure, andThen]
  refine ⟨stop _ _ rfl (by simp) (by simp), fun env _ => ⟨hG _ env s rfl, ?_⟩⟩
  rw [handle_reads rfl]
  cases hneeded : cappedStrikesToHalt knobs with
  | none => exact stop _ _ rfl (by simp) (by simp)
  | some needed =>
    dsimp only
    split
    · rename_i enough
      exact halt env _ needed rfl hneeded enough
    · exact stop _ _ rfl (by simp) (by simp)

/-- An open top-up row, as the settlement pass meets it. -/
structure OpenTopup (pid : String) (l : Ledger) (row : Row) : Prop where
  mem : row ∈ l.rows
  isOp : row.isOp pid .topup = true
  isOpen : row.outcome ∈ walletOpOpenOutcomes

omit hG in
theorem settleVerdict_cases {now : Int} {available : ℚ} {reserved : Option ℚ} {row : Row}
    {outcome : Source.Outcome} (h : settleVerdict now available reserved row = some outcome) :
    outcome = .unknown ∨ outcome = .effective ∨ outcome = .ineffective := by
  unfold settleVerdict at h
  split at h
  · exact .inl (Option.some.inj h).symm
  · split at h
    · cases h
    · split at h
      · split at h
        · exact .inl (Option.some.inj h).symm
        · split at h
          · exact .inr (.inl (Option.some.inj h).symm)
          · exact .inr (.inr (Option.some.inj h).symm)
      · exact .inl (Option.some.inj h).symm

/-- The settlement loop carries a property of the funding rows that every verdict
on an open top-up carries. The rows it read stay open until their own turn. -/
theorem wp_settleRows {pid : String} {now : Int} {available : ℚ} {reserved : Option ℚ}
    {J : List Row → Prop}
    (closed : ∀ env w row outcome, OpenTopup pid w.ledger row →
      outcome = .unknown ∨ outcome = .effective ∨ outcome = .ineffective →
      Assume (.walletOpFinish row.id outcome (some available) reserved) env w → env.store ≠ .down →
      J (fundingRows w.ledger) →
      J (fundingRows (w.ledger.walletOpFinish (w.now + env.elapsed) row.id outcome (some available) reserved)))
    (todo : List Row) {s : World} (open_ : ∀ row ∈ todo, OpenTopup pid s.ledger row)
    (distinct : todo.Pairwise fun a b => a.id < b.id) (hs : J (fundingRows s.ledger)) :
    wp handle Assume Guarantee (settleRows now available reserved todo)
      (fun _ t => J (fundingRows t.ledger)) s := by
  induction todo generalizing s with
  | nil => exact hs
  | cons row rest ih =>
    obtain ⟨hrow, hrest⟩ := List.pairwise_cons.mp distinct
    unfold settleRows
    split
    · exact ih (fun r hr => open_ r (List.mem_cons_of_mem _ hr)) hrest hs
    · rename_i outcome verdict
      simp only [wp_bind, wp_call, andThen]
      refine ⟨hs, fun env asked => ⟨hG _ env s rfl, ?_⟩⟩
      have later : ∀ r ∈ rest, OpenTopup pid (s.ledger.walletOpFinish (s.now + env.elapsed) row.id outcome
          (some available) reserved) r := by
        intro r hr
        have was := open_ r (List.mem_cons_of_mem _ hr)
        refine ⟨?_, was.isOp, was.isOpen⟩
        have hid : r.id ≠ row.id := (Nat.ne_of_lt (hrow r hr)).symm
        exact List.mem_map.mpr ⟨r, was.mem, by simp [Ledger.closeAt, hid]⟩
      have kept : env.store ≠ .down → J (fundingRows (s.ledger.walletOpFinish (s.now + env.elapsed) row.id
          outcome (some available) reserved)) := fun up =>
        closed env s row outcome (open_ row List.mem_cons_self) (settleVerdict_cases verdict) asked up hs
      simp only [handle, World.write]
      cases hstore : env.store with
      | down => exact ih (fun r hr => open_ r (List.mem_cons_of_mem _ hr)) hrest hs
      | ok => exact ih later hrest (kept (by rw [hstore]; simp))
      | lost => exact ih later hrest (kept (by rw [hstore]; simp))

/-- The money-pump breaker's reading of the rows it asked for. -/
def PumpVerdict (settled : List Row) : Prop :=
  pumpStrikesToHalt ≤ settled.length ∧ ∀ r ∈ settled, r.outcome = .ineffective

/-- The error breaker's reading of the rows it asked for. -/
def ErrorVerdict (rows : List Row) : Prop :=
  topupErrorStrikesToHalt ≤ consecutive rows walletOpErrorOutcomes

/-- `_settle_topups`: `J` is carried through the loop, each breaker that trips
goes to its halt, and with no verdict `V none` is owed on what both read. -/
theorem wp_settleTopups {pid : String} {available : ℚ} {reserved : Option ℚ} {J : List Row → Prop}
    {V : Option TopupDecision → List Row → Prop}
    (closed : ∀ env w row outcome, OpenTopup pid w.ledger row →
      outcome = .unknown ∨ outcome = .effective ∨ outcome = .ineffective →
      Assume (.walletOpFinish row.id outcome (some available) reserved) env w → env.store ≠ .down →
      J (fundingRows w.ledger) →
      J (fundingRows (w.ledger.walletOpFinish (w.now + env.elapsed) row.id outcome (some available) reserved)))
    (halt : ∀ t u env d, u.ledger = t.ledger → J (fundingRows t.ledger) →
      (d = .pumpHalt ∧ PumpVerdict (handle (.walletOpsSettled pid .topup pumpStrikesToHalt) env t).1) ∨
        (d = .errorHalt ∧
          ErrorVerdict (handle (.walletOpsTerminal pid .topup topupErrorStrikesToHalt) env t).1) →
      wp handle Assume Guarantee (haltTopups pid d)
        (Carries J fun d => V (some d)) u)
    (pass : ∀ t u env env1, u.ledger = t.ledger → J (fundingRows t.ledger) →
      Assume (.walletOpsSettled pid .topup pumpStrikesToHalt) env t →
      Assume (.walletOpsTerminal pid .topup topupErrorStrikesToHalt) env1 u →
      ¬ PumpVerdict (handle (.walletOpsSettled pid .topup pumpStrikesToHalt) env t).1 →
      ¬ ErrorVerdict (handle (.walletOpsTerminal pid .topup topupErrorStrikesToHalt) env1 u).1 →
      V none (fundingRows t.ledger)) {s : World} (hs : J (fundingRows s.ledger)) :
    wp handle Assume Guarantee (settleTopups pid available reserved)
      (Carries J V) s := by
  have haltThen : ∀ t u env d, u.ledger = t.ledger → J (fundingRows t.ledger) →
      (d = .pumpHalt ∧ PumpVerdict (handle (.walletOpsSettled pid .topup pumpStrikesToHalt) env t).1) ∨
        (d = .errorHalt ∧
          ErrorVerdict (handle (.walletOpsTerminal pid .topup topupErrorStrikesToHalt) env t).1) →
      wp handle Assume Guarantee (do return some (← haltTopups pid d)) (Carries J V) u := by
    intro t u env d hu ht verdict
    exact wp_bind_mono (halt t u env d hu ht verdict) (fun _ h => h) (fun _ _ h => h) fun _ _ h => h
  unfold settleTopups
  simp only [wp_bind, wp_call, andThen]
  refine ⟨hs, fun env _ => ⟨hG _ env s rfl, ?_⟩⟩
  rw [handle_reads rfl]
  refine ⟨hs, fun env1 _ => ⟨hG _ env1 _ rfl, ?_⟩⟩
  rw [handle_reads rfl]
  have todo : ∀ row ∈ (handle (.walletOpsOpen pid (some .topup)) env1 (s.advance env.elapsed)).1,
      OpenTopup pid s.ledger row := by
    intro row hr
    simp only [handle, World.read] at hr
    cases hstore : env1.store with
    | ok =>
      simp only [hstore, World.advance, Ledger.walletOpsOpen, List.mem_filter, decide_eq_true_eq] at hr
      obtain ⟨mem, hpid, isOpen, hop⟩ := hr
      exact ⟨mem, by simp [Row.isOp, hpid, hop _ rfl], isOpen⟩
    | down => simp [hstore] at hr
    | lost => simp [hstore] at hr
  have distinct : (handle (.walletOpsOpen pid (some .topup)) env1 (s.advance env.elapsed)).1.Pairwise
      fun a b => a.id < b.id := by
    simp only [handle, World.read]
    cases env1.store with
    | ok => exact s.ledger.ordered.filter _
    | down => exact .nil
    | lost => exact .nil
  apply wp_mono (wp_settleRows (s := (s.advance env.elapsed).advance env1.elapsed) hG closed _ todo distinct hs)
  intro ending t ht
  cases ending with
  | crashed => exact ht
  | raised error => exact ht
  | returned _ =>
    simp only [andThen]
    refine ⟨ht, fun env2 asked2 => ⟨hG _ env2 t rfl, ?_⟩⟩
    rw [handle_reads rfl]
    split
    · rename_i pumped
      exact haltThen t _ env2 .pumpHalt rfl ht (.inl ⟨rfl, pumped⟩)
    rename_i notPumped
    simp only [wp_bind, wp_call, andThen]
    refine ⟨ht, fun env3 asked3 => ⟨hG _ env3 _ rfl, ?_⟩⟩
    rw [handle_reads rfl]
    split
    · rename_i errors
      exact haltThen _ _ env3 .errorHalt rfl ht (.inr ⟨rfl, errors⟩)
    · rename_i noErrors
      exact ⟨ht, pass t (t.advance env2.elapsed) env2 env3 rfl ht asked2 asked3 notPumped noErrors⟩

end Settle

section Cycle

variable {Assume Guarantee : Effect → Env → World → Prop}
variable (hG : ∀ op env s, plain op = true → Guarantee op env s)

/-- `P` of the top-up decision of one provider's entry, when it acted. -/
def Verdict (P : String → TopupDecision → Prop) (pid : String) : ProviderState → Prop
  | .acted _ _ _ d => P pid d
  | _ => True

/-- Knobs some `load_knobs` of the run may answer. -/
def Readable (Assume : Effect → Env → World → Prop) (knobs : Knobs) : Prop :=
  ∃ env w, Assume .settings env w ∧ env.settings = some knobs

/-- A part that frames the funding rows carries any property of them. -/
theorem wp_of_frame {α : Type} {p : Keeper α} {J : List Row → Prop} {s : World}
    (frame : ∀ F, KeepsTable Assume Guarantee (fundingRows · = F) p) (h : J (fundingRows s.ledger)) :
    wp handle Assume Guarantee p (fun _ t => J (fundingRows t.ledger)) s :=
  wp_mono (frame _ s rfl) fun _ t ht => by rw [ht]; exact h

section Provider

variable {J : List Row → Prop} {V : String → Option TopupDecision → List Row → Prop}
variable {P : String → TopupDecision → List Row → Prop}
variable (settle : ∀ pid available reserved s, J (fundingRows s.ledger) →
  wp handle Assume Guarantee (settleTopups pid available reserved) (Carries J (V pid)) s)
variable (halted : ∀ pid d rows, V pid (some d) rows → P pid d rows)
variable (topup : ∀ pid knobs available reserved s, Readable Assume knobs → J (fundingRows s.ledger) →
  V pid none (fundingRows s.ledger) →
  wp handle Assume Guarantee (maybeTopup pid knobs available reserved) (Carries J (P pid)) s)
include hG settle halted topup

theorem wp_cycleFresh (pid : String) {knobs : Knobs} (readable : Readable Assume knobs) (available : ℚ)
    (reserved : Option ℚ) {s : World} (hs : J (fundingRows s.ledger)) :
    wp handle Assume Guarantee (cycleFresh pid knobs available reserved)
      (Carries J fun st rows => Verdict (P · · rows) pid st) s := by
  unfold cycleFresh
  refine wp_bind_mono (wp_of_frame (fun F => reconcileOrphans_frame hG pid) hs) (fun _ h => h)
    (fun _ _ h => h) fun _ t ht => ?_
  refine wp_bind_mono (settle pid available reserved t ht) (fun _ h => h) (fun _ _ h => h)
    fun v u hu => ?_
  refine wp_bind_mono (wp_of_frame (J := fun rows => J rows ∧ V pid v rows)
    (fun F => maybeReclaim_frame hG pid knobs available reserved) hu) (fun _ h => h.1)
    (fun _ _ h => h.1) fun reclaim w hw => ?_
  cases v with
  | some d => exact ⟨hw.1, halted pid d _ hw.2⟩
  | none =>
    dsimp only
    exact wp_bind_mono (topup pid knobs available reserved w readable hw.1 hw.2) (fun _ h => h)
      (fun _ _ h => h) fun _ _ h => h

/-- One provider's entry: what its decision says holds of the funding rows it leaves. -/
theorem wp_cycleProvider (pid : String) {knobs : Knobs} (readable : Readable Assume knobs) {s : World}
    (hs : J (fundingRows s.ledger)) :
    wp handle Assume Guarantee (cycleProvider pid knobs)
      (Carries J fun st rows => Verdict (P · · rows) pid st) s := by
  unfold cycleProvider
  simp only [wp_bind, wp_call, andThen]
  refine ⟨hs, fun env _ => ⟨hG _ env s rfl, ?_⟩⟩
  rw [handle_reads rfl]
  split
  · exact ⟨hs, trivial⟩
  rename_i status _
  split
  · exact ⟨hs, trivial⟩
  have aged : KeepsTable Assume Guarantee (fun l => J (fundingRows l)) (statusAgeS status) :=
    keeps_statusAgeS hG status
  refine wp_bind_mono (aged (s.advance env.elapsed) hs) (fun _ h => h) (fun _ _ h => h)
    fun age t ht => ?_
  cases age with
  | none => exact ⟨ht, trivial⟩
  | some age =>
    dsimp only
    split
    · exact ⟨ht, trivial⟩
    · exact wp_cycleFresh hG settle halted topup pid readable _ _ ht

/-- An exception of one provider becomes its entry, a cancellation ends the loop. -/
theorem wp_entry (pid : String) {knobs : Knobs} (readable : Readable Assume knobs) {s : World}
    (hs : J (fundingRows s.ledger)) :
    wp handle Assume Guarantee ((cycleProvider pid knobs).tryCatch fun
        | .cancelled => throw .cancelled
        | .exception => pure .error)
      (Carries J fun st rows => Verdict (P · · rows) pid st) s := by
  rw [wp_tryCatch]
  apply wp_mono (wp_cycleProvider hG settle halted topup pid readable hs)
  intro ending t ht
  cases ending with
  | crashed => exact ht
  | returned st => exact ht
  | raised error =>
    cases error with
    | cancelled => exact ht
    | exception => exact ⟨ht, trivial⟩

end Provider

section Providers

variable {J : List Row → Prop} {V : String → Option TopupDecision → List Row → Prop}
variable {P : String → TopupDecision → Prop}
variable (settle : ∀ pid available reserved s, J (fundingRows s.ledger) →
  wp handle Assume Guarantee (settleTopups pid available reserved) (Carries J (V pid)) s)
variable (halted : ∀ pid d rows, V pid (some d) rows → P pid d)
variable (topup : ∀ pid knobs available reserved s, Readable Assume knobs → J (fundingRows s.ledger) →
  V pid none (fundingRows s.ledger) →
  wp handle Assume Guarantee (maybeTopup pid knobs available reserved) (Carries J fun d _ => P pid d) s)
include hG settle halted topup

theorem wp_cycleProviders {knobs : Knobs} (readable : Readable Assume knobs) (ids : List String) {s : World}
    (hs : J (fundingRows s.ledger)) :
    wp handle Assume Guarantee (cycleProviders knobs ids)
      (Carries J fun ps _ => ∀ q ∈ ps, Verdict P q.1 q.2) s := by
  induction ids generalizing s with
  | nil => exact ⟨hs, List.forall_mem_nil _⟩
  | cons pid rest ih =>
    unfold cycleProviders
    refine wp_bind_mono (wp_entry (P := fun p d _ => P p d) hG settle halted topup pid readable hs) (fun _ h => h)
      (fun _ _ h => h) fun st t ht => ?_
    refine wp_bind_mono (ih ht.1) (fun _ h => h) (fun _ _ h => h) fun ps u hu => ?_
    refine ⟨hu.1, fun q hq => ?_⟩
    rcases List.mem_cons.mp hq with rfl | hq
    · exact ht.2
    · exact hu.2 q hq

end Providers

omit hG in
/-- Validation hands the knobs on as they are. -/
theorem validate_ok {k k' : Knobs} (h : k.validate = .ok k') : k' = k := by
  unfold Knobs.validate at h
  split at h
  · cases h
  · split at h
    · cases h
    · split at h
      · cases h
      · exact (Except.ok.inj h).symm

include hG

/-- A cycle that gets past its knobs is the loop over the providers. -/
theorem wp_cycle_of_providers {J : List Row → Prop} {X : List (String × ProviderState) → List Row → Prop}
    (idle : ∀ rows, X [] rows) {ids : List String}
    (providers : ∀ k t, Readable Assume k → k.validate = .ok k → J (fundingRows t.ledger) →
      wp handle Assume Guarantee (cycleProviders k ids) (Carries J X) t) {s : World} (hs : J (fundingRows s.ledger)) :
    wp handle Assume Guarantee (Source.cycle ids) (Carries J fun st rows => X st.providers rows) s := by
  unfold Source.cycle loadKnobs
  simp only [wp_bind, wp_call, andThen]
  refine ⟨hs, fun env _ => ⟨hG _ env s rfl, ?_⟩⟩
  rw [handle_reads rfl]
  refine ⟨hs, fun env1 asked => ⟨hG _ env1 _ rfl, ?_⟩⟩
  rw [handle_reads rfl]
  split
  · exact ⟨hs, idle _⟩
  rename_i k hk
  split
  · exact ⟨hs, idle _⟩
  rename_i k' hvalid
  obtain rfl := validate_ok hvalid
  have readable : Readable Assume k' := ⟨env1, _, asked, hk⟩
  simp only [wp_pure, andThen]
  split
  · exact ⟨hs, idle _⟩
  simp only [wp_bind, wp_call, andThen]
  refine ⟨hs, fun env2 _ => ⟨hG _ env2 _ rfl, ?_⟩⟩
  rw [handle_reads rfl]
  split
  · exact ⟨hs, idle _⟩
  exact wp_bind_mono
    (providers k' (((s.advance env.elapsed).advance env1.elapsed).advance env2.elapsed) readable hvalid hs)
    (fun _ h => h) (fun _ _ h => h) fun _ _ h => h

/-- One cycle carries `J`, and every top-up decision it answers satisfies `P`. -/
theorem wp_cycle {J : List Row → Prop} {V : String → Option TopupDecision → List Row → Prop}
    {P : String → TopupDecision → Prop}
    (settle : ∀ pid available reserved s, J (fundingRows s.ledger) →
      wp handle Assume Guarantee (settleTopups pid available reserved) (Carries J (V pid)) s)
    (halted : ∀ pid d rows, V pid (some d) rows → P pid d)
    (topup : ∀ pid knobs available reserved s, Readable Assume knobs → J (fundingRows s.ledger) →
      V pid none (fundingRows s.ledger) →
      wp handle Assume Guarantee (maybeTopup pid knobs available reserved) (Carries J fun d _ => P pid d) s)
    (ids : List String) {s : World} (hs : J (fundingRows s.ledger)) :
    wp handle Assume Guarantee (Source.cycle ids)
      (Carries J fun st _ => ∀ q ∈ st.providers, Verdict P q.1 q.2) s :=
  wp_cycle_of_providers hG (X := fun ps _ => ∀ q ∈ ps, Verdict P q.1 q.2) (fun _ => List.forall_mem_nil _)
    (fun _ _ readable _ ht => wp_cycleProviders hG settle halted topup readable ids ht) hs

end Cycle

section Runs

/-- An operator's clear removes rows, it adds and changes none. -/
theorem fundingRows_clear (l : Ledger) (pid : String) (kind : HaltKind) :
    fundingRows (l.walletClearHalt pid kind) =
      (fundingRows l).filter fun row => !(row.isOp pid (.halt kind) ∧ row.outcome = .halted) := by
  simp only [fundingRows, Ledger.walletClearHalt, Ledger.retain, List.filter_filter]
  apply List.filter_congr
  intro row _
  exact Bool.and_comm _ _

variable {Assume Guarantee : Effect → Env → World → Prop}
variable (hG : ∀ op env s, plain op = true → Guarantee op env s)
include hG

/-- One step of a run, given what a cycle does. -/
theorem wp_step {ids : List String} {J : List Row → Prop} {X : KeeperState → List Row → Prop}
    (cycle : ∀ s, J (fundingRows s.ledger) →
      wp handle Assume Guarantee (Source.cycle ids) (Carries J X) s)
    (clear : ∀ l pid kind, J (fundingRows l) → J (fundingRows (l.walletClearHalt pid kind)))
    (step : WalletStep) {s : World} (hs : J (fundingRows s.ledger)) :
    wp handle Assume Guarantee (step.program ids) (Carries J fun st rows => ∀ k ∈ st, X k rows) s := by
  cases step with
  | cycle =>
    unfold WalletStep.program
    refine wp_bind_mono (cycle s hs) (fun _ h => h) (fun _ _ h => h) fun st t ht => ⟨ht.1, fun k hk => ?_⟩
    cases hk
    exact ht.2
  | clearHalt pid kind =>
    unfold WalletStep.program Source.clearHalt
    simp only [wp_bind, wp_call, andThen]
    refine ⟨hs, fun env _ => ⟨hG _ env s rfl, ?_, fun k hk => by cases hk⟩⟩
    simp only [handle, World.write]
    cases env.store with
    | ok => exact clear _ pid kind hs
    | lost => exact clear _ pid kind hs
    | down => exact hs

omit hG in
/-- A run makes the choices of its steps' lists only. -/
theorem env_mem_of_walletRun {ids : List String} {steps : List (WalletStep × List Env)} {s : World}
    {o : Effects.Outcome Effect Env World Exn (Option KeeperState)} (ho : o ∈ walletRun ids steps s)
    {e : Performed Effect Env World} (he : e ∈ o.trace) : ∃ step ∈ steps, e.env ∈ step.2 := by
  obtain ⟨before, after, split⟩ := List.append_of_mem ho
  obtain ⟨session, hsession, t, -, rfl⟩ := runs_induct (I := fun _ => True) (P := fun _ => True)
    (fun _ _ _ _ _ => trivial) trivial split fun _ _ => trivial
  obtain ⟨step, hstep, rfl⟩ := List.mem_map.mp hsession
  exact ⟨step, hstep, env_mem_of_mem_trace he⟩

/-- Whatever a cycle and a clear carry holds throughout a run that met `Assume`. -/
theorem walletRun_sound {ids : List String} {J : List Row → Prop}
    (cycle : ∀ s, J (fundingRows s.ledger) →
      wp handle Assume Guarantee (Source.cycle ids) (Carries J fun _ _ => True) s)
    (clear : ∀ l pid kind, J (fundingRows l) → J (fundingRows (l.walletClearHalt pid kind)))
    {steps : List (WalletStep × List Env)} {s : World} (hs : J (fundingRows s.ledger))
    (assumed : ∀ o ∈ walletRun ids steps s, ∀ e ∈ o.trace, Assume e.op e.env e.before) :
    ∀ o ∈ walletRun ids steps s, ∀ e ∈ o.trace, Guarantee e.op e.env e.before := by
  have stepWp : ∀ session ∈ steps.map fun step => (step.1.program ids, step.2), ∀ t,
      J (fundingRows t.ledger) →
      wp handle Assume Guarantee session.1 (Carries J fun _ _ => True) t := by
    intro session hsession t ht
    obtain ⟨step, -, rfl⟩ := List.mem_map.mp hsession
    exact wp_mono (wp_step hG cycle clear step.1 ht) fun _ _ h => h.mono fun _ _ _ => trivial
  intro o ho
  obtain ⟨before, after, split⟩ := List.append_of_mem ho
  obtain ⟨session, hsession, t, ht, rfl⟩ := runs_induct
    (I := fun w : World => J (fundingRows w.ledger))
    (P := fun o => ∀ e ∈ o.trace, Assume e.op e.env e.before)
    (fun session hsession t ht hP => (run_sound_end (stepWp session hsession t ht) _ hP).rows) hs
    split fun x hx => assumed x (by rw [split]; exact List.mem_append_left _ hx)
  exact (run_sound (stepWp session hsession t ht) _ (assumed _ ho)).1

end Runs

section Sample

/-- Top up by 5 below a balance of 2, at most 20 a day, without a cooldown. -/
def sampleKnobs : Knobs where
  enabled := true
  minAvailableUsdc := 1
  topupTriggerUsdc := 2
  topupAmountUsdc := 5
  topupWalletFloorUsdc := 0
  topupDailyCapUsdc := 20
  topupCooldownS := 0
  reclaimMinUsdc := 0

/-- An empty escrow, a funded hot wallet, and a control server that takes every
deposit without the escrow ever seeing it. -/
def sampleEnv (elapsed : Int) (store : Store) : Env where
  elapsed := elapsed
  store := store
  settings := some sampleKnobs
  configured := true
  status := some ⟨some 0, none, some 0⟩
  balances := some ⟨some 0, some 100, some 1⟩
  attempts := ⟨0, 0⟩
  control := .reply ⟨.bool true, .bool true, true, [], none⟩

/-- The choices for one cycle that starts `elapsed` seconds after the previous one. -/
def sampleCycle (elapsed : Int) (store : Store) : List Env :=
  sampleEnv elapsed store :: List.replicate 29 (sampleEnv 0 store)

end Sample

end Unhardcoded.Guarantees

import Unhardcoded.Source.WalletKeeper

/-!
# The funding rows of the wallet ledger

Every query the top-up side of the keeper makes reads the top-up rows and the
standing top-up halts only. This module gives the effect of each statement on
those rows, and proves that the rest of a cycle (orphan reconciliation, and the
whole reclaim side with its transactions, closings and halts) leaves them as
they are at every point, crashes included.
-/

namespace Unhardcoded.Guarantees
open Source Effects Program

/-- A top-up, or a standing top-up halt. -/
def isFunding (row : Row) : Bool :=
  row.op = .topup ∨ (row.op = .halt .topup ∧ row.outcome = .halted)

def fundingRows (l : Ledger) : List Row := l.rows.filter isFunding

/-- No funding row carries this id. -/
def Detached (opId : Nat) (l : Ledger) : Prop := ∀ row ∈ l.rows, row.id = opId → isFunding row = false

section Statements

theorem filter_eq_filter_funding {p : Row → Bool} (h : ∀ row, p row = true → isFunding row = true)
    (l : Ledger) : l.rows.filter p = (fundingRows l).filter p := by
  unfold fundingRows
  rw [List.filter_filter]
  apply List.filter_congr
  intro row _
  cases hp : p row with
  | false => rfl
  | true => simp [h row hp]

theorem isFunding_of_isOp {row : Row} {pid : String} (h : row.isOp pid .topup = true) :
    isFunding row = true := by
  simp only [Row.isOp, decide_eq_true_eq] at h
  simp [isFunding, h.2]

theorem isFunding_closeAt {row : Row} {opId : Nat} {outcome : Outcome} {pa pr : Option ℚ} {now : Int}
    (halted : outcome ≠ .halted) (h : isFunding row = false) :
    isFunding (Ledger.closeAt opId outcome pa pr now row) = false := by
  unfold Ledger.closeAt
  split
  · simp only [isFunding, decide_eq_false_iff_not, not_or] at h
    simp [isFunding, Ledger.close, h.1, halted]
  · exact h

theorem fundingRows_insert (l : Ledger) (row : Row) :
    fundingRows (l.insert row) =
      fundingRows l ++ if isFunding row then [{ row with id := l.nextId }] else [] := by
  have same : isFunding { row with id := l.nextId } = isFunding row := rfl
  simp only [fundingRows, Ledger.insert, List.filter_append, List.filter_cons, List.filter_nil, same]

theorem fundingRows_begin (l : Ledger) (now : Int) (pid : String) {op : WalletOp} (h : op ≠ .topup)
    (amount pa pr : Option ℚ) : fundingRows (l.walletOpBegin now pid op amount pa pr).2 = fundingRows l := by
  have notFunding : isFunding ⟨0, now, pid, op, amount, pa, none, pr, none, .pending, now⟩ = false := by
    simp [isFunding, h]
  simp [Ledger.walletOpBegin, fundingRows_insert, notFunding]

theorem fundingRows_finish {l : Ledger} {opId : Nat} {outcome : Outcome} (now : Int) (pa pr : Option ℚ)
    (halted : outcome ≠ .halted) (h : Detached opId l) :
    fundingRows (l.walletOpFinish now opId outcome pa pr) = fundingRows l := by
  have same : ∀ rows : List Row, (∀ row ∈ rows, row.id = opId → isFunding row = false) →
      (rows.map (Ledger.closeAt opId outcome pa pr now)).filter isFunding = rows.filter isFunding := by
    intro rows detached
    induction rows with
    | nil => rfl
    | cons row rest ih =>
      have tail := ih fun r hr => detached r (List.mem_cons_of_mem _ hr)
      by_cases hid : row.id = opId
      · have hrow := detached row List.mem_cons_self hid
        simp [isFunding_closeAt halted hrow, hrow, tail]
      · have hkeep : Ledger.closeAt opId outcome pa pr now row = row := by simp [Ledger.closeAt, hid]
        simp only [List.map_cons, hkeep, List.filter_cons, tail]
  exact same l.rows h

/-- A closed top-up row stays in place among the funding rows. -/
theorem fundingRows_finish_topup {l : Ledger} {opId : Nat} {outcome : Outcome} (now : Int)
    (pa pr : Option ℚ) (h : ∀ row ∈ l.rows, row.id = opId → row.op = .topup) :
    fundingRows (l.walletOpFinish now opId outcome pa pr) =
      (fundingRows l).map (Ledger.closeAt opId outcome pa pr now) := by
  unfold fundingRows Ledger.walletOpFinish
  rw [List.filter_map]
  congr 1
  apply List.filter_congr
  intro row hrow
  by_cases hid : row.id = opId
  · have hop := h row hrow hid
    simp [Ledger.closeAt, hid, isFunding, Ledger.close, hop]
  · simp [Ledger.closeAt, hid]

theorem fundingRows_halt_reclaim (l : Ledger) (now : Int) (pid : String) :
    fundingRows (l.walletHalt now pid .reclaim) = fundingRows l := by
  unfold Ledger.walletHalt
  split
  · rfl
  · simp [fundingRows_insert, isFunding]

theorem detached_insert {opId : Nat} {l : Ledger} {row : Row} (h : Detached opId l)
    (hrow : isFunding row = false) : Detached opId (l.insert row) := by
  intro r hr hid
  rcases List.mem_append.mp hr with hr | hr
  · exact h r hr hid
  · rw [List.mem_singleton.mp hr]
    exact hrow

theorem detached_finish {opId target : Nat} {l : Ledger} {outcome : Outcome} (now : Int)
    (pa pr : Option ℚ) (halted : outcome ≠ .halted) (h : Detached opId l) :
    Detached opId (l.walletOpFinish now target outcome pa pr) := by
  intro r hr hid
  obtain ⟨row, hrow, rfl⟩ := List.mem_map.mp hr
  rw [Ledger.closeAt_id] at hid
  exact isFunding_closeAt halted (h row hrow hid)

theorem detached_halt_reclaim {opId : Nat} {l : Ledger} (now : Int) (pid : String) (h : Detached opId l) :
    Detached opId (l.walletHalt now pid .reclaim) := by
  unfold Ledger.walletHalt
  split
  · exact h
  · exact detached_insert h (by simp [isFunding])

/-- A freshly begun row that is no top-up is detached: its id is new. -/
theorem detached_begin (l : Ledger) (now : Int) (pid : String) {op : WalletOp} (h : op ≠ .topup)
    (amount pa pr : Option ℚ) : Detached l.nextId (l.walletOpBegin now pid op amount pa pr).2 := by
  intro r hr hid
  rcases List.mem_append.mp hr with hr | hr
  · have := l.below r hr
    omega
  · rw [List.mem_singleton.mp hr]
    simp [isFunding, h]

/-- Two rows of the table with one id are one row. -/
theorem eq_of_id {l : Ledger} {a b : Row} (ha : a ∈ l.rows) (hb : b ∈ l.rows) (hid : a.id = b.id) :
    a = b := by
  obtain ⟨i, hi, rfl⟩ := List.mem_iff_getElem.mp ha
  obtain ⟨j, hj, rfl⟩ := List.mem_iff_getElem.mp hb
  have sorted := List.pairwise_iff_getElem.mp l.ordered
  rcases Nat.lt_trichotomy i j with hij | rfl | hij
  · have := sorted i j hi hj hij
    omega
  · rfl
  · have := sorted j i hj hi hij
    omega

end Statements

/-- The operations that leave the table alone. -/
def reads : Effect → Bool
  | .walletOpBegin .. | .walletOpFinish .. | .walletHalt .. | .walletClearHalt .. => false
  | _ => true

/-- The operations that neither send a deposit nor halt the top-ups. -/
def plain : Effect → Bool
  | .control _ (.deposit _) => false
  | .walletHalt _ .topup => false
  | _ => true

theorem handle_reads {op : Effect} (h : reads op = true) (env : Env) (s : World) :
    (handle op env s).2 = s.advance env.elapsed := by
  cases op <;> first | rfl | simp [reads] at h

/-- A write reaches the table, or it does not. -/
theorem write_ledger {α : Type} (w : World) (store : Store) (l : Ledger) (done failed : α) :
    (w.write store l done failed).2.ledger = l ∨ (w.write store l done failed).2.ledger = w.ledger := by
  cases store
  · exact .inl rfl
  · exact .inr rfl
  · exact .inl rfl

section Frame

variable {Assume Guarantee : Effect → Env → World → Prop}

/-- `p` keeps a property of the table. -/
def KeepsTable (Assume Guarantee : Effect → Env → World → Prop) (J : Ledger → Prop) {α : Type}
    (p : Keeper α) : Prop :=
  Keeps handle Assume Guarantee (fun w => J w.ledger) p

variable {J : Ledger → Prop} {α β : Type}

theorem KeepsTable.pure (value : α) : KeepsTable Assume Guarantee J (pure value) := keeps_pure value

theorem KeepsTable.throw (error : Exn) :
    KeepsTable Assume Guarantee J (throw error : Keeper α) := keeps_throw error

theorem KeepsTable.bind {p : Keeper α} {f : α → Keeper β} (hp : KeepsTable Assume Guarantee J p)
    (hf : ∀ value, KeepsTable Assume Guarantee J (f value)) : KeepsTable Assume Guarantee J (p >>= f) :=
  keeps_bind hp hf

theorem KeepsTable.tryCatch {p : Keeper α} {g : Exn → Keeper α} (hp : KeepsTable Assume Guarantee J p)
    (hg : ∀ error, KeepsTable Assume Guarantee J (g error)) :
    KeepsTable Assume Guarantee J (p.tryCatch g) :=
  keeps_tryCatch hp hg

variable (hG : ∀ op env s, plain op = true → Guarantee op env s)
include hG

theorem keeps_reads {op : Effect} (hread : reads op = true) (hplain : plain op = true) :
    KeepsTable Assume Guarantee J (request op) := by
  apply keeps_call
  intro env s hs _
  refine ⟨hG op env s hplain, ?_⟩
  rw [handle_reads hread]
  exact hs

theorem keeps_finish {opId : Nat} {outcome : Outcome} {pa pr : Option ℚ}
    (h : ∀ l now, J l → J (l.walletOpFinish now opId outcome pa pr)) :
    KeepsTable Assume Guarantee J (request (.walletOpFinish opId outcome pa pr)) := by
  apply keeps_call
  intro env s hs _
  refine ⟨hG _ env s rfl, ?_⟩
  rcases write_ledger (s.advance env.elapsed) env.store (s.ledger.walletOpFinish _ opId outcome pa pr)
    true false with hw | hw
  · exact hw ▸ h s.ledger _ hs
  · exact hw ▸ hs

theorem keeps_halt_reclaim {pid : String} (h : ∀ l now, J l → J (l.walletHalt now pid .reclaim)) :
    KeepsTable Assume Guarantee J (request (.walletHalt pid .reclaim)) := by
  apply keeps_call
  intro env s hs _
  refine ⟨hG _ env s rfl, ?_⟩
  rcases write_ledger (s.advance env.elapsed) env.store (s.ledger.walletHalt _ pid .reclaim)
    true false with hw | hw
  · exact hw ▸ h s.ledger _ hs
  · exact hw ▸ hs

theorem keeps_control (pid : String) {op : ControlOp} (hop : plain (.control pid op) = true) :
    KeepsTable Assume Guarantee J (control pid op) := by
  apply KeepsTable.bind (keeps_reads hG rfl hop)
  intro answer
  cases answer with
  | reply resp => exact KeepsTable.pure resp
  | raised exn => exact KeepsTable.throw exn

theorem keeps_controlOrClose (pid : String) {opId : Nat} {op : ControlOp}
    (hop : plain (.control pid op) = true)
    (h : ∀ l now, J l → J (l.walletOpFinish now opId .unknown none none)) :
    KeepsTable Assume Guarantee J (controlOrClose pid opId op) :=
  KeepsTable.tryCatch (keeps_control hG pid hop) fun exn =>
    KeepsTable.bind (keeps_finish hG h) fun _ => KeepsTable.throw exn

theorem keeps_errorStrikes (pid : String) (op : WalletOp) (limit : Nat) :
    KeepsTable Assume Guarantee J (errorStrikes pid op limit) :=
  KeepsTable.bind (keeps_reads hG rfl rfl) fun _ => KeepsTable.pure _

theorem keeps_chainView (pid : String) : KeepsTable Assume Guarantee J (chainView pid) := by
  apply KeepsTable.bind (keeps_reads hG rfl rfl)
  intro answer
  cases answer with
  | none => exact KeepsTable.pure none
  | some bal =>
    dsimp only
    split
    · exact KeepsTable.pure none
    · apply KeepsTable.bind (keeps_reads hG rfl rfl)
      intro now
      split
      · exact KeepsTable.pure none
      · exact KeepsTable.pure (some bal)

theorem keeps_wedged (pid : String) (knobs : Knobs) (available : ℚ) :
    KeepsTable Assume Guarantee J (wedged pid knobs available) := by
  unfold wedged
  split
  · exact KeepsTable.pure true
  · exact KeepsTable.bind (keeps_reads hG rfl rfl) fun _ => KeepsTable.pure _

theorem keeps_statusAgeS (status : BuyerStatus) :
    KeepsTable Assume Guarantee J (statusAgeS status) := by
  unfold statusAgeS
  cases status.fetchedAt with
  | none => exact KeepsTable.pure none
  | some raw =>
    apply KeepsTable.bind (keeps_reads hG rfl rfl)
    intro now
    dsimp only
    split
    · exact KeepsTable.pure none
    · exact KeepsTable.pure _

end Frame

section Reclaim

theorem outcomeFor_ne_halted (resp : Reply) : outcomeFor resp ≠ .halted := by
  unfold outcomeFor
  split
  · decide
  · split <;> decide

/-- The funding rows stand at `F`, and none of them is the row being closed. -/
def FundedApart (F : List Row) (opId : Nat) (l : Ledger) : Prop := fundingRows l = F ∧ Detached opId l

theorem FundedApart.finish {F : List Row} {opId : Nat} {outcome : Outcome} {pa pr : Option ℚ} (halted : outcome ≠ .halted)
    (l : Ledger) (now : Int) (h : FundedApart F opId l) :
    FundedApart F opId (l.walletOpFinish now opId outcome pa pr) :=
  ⟨(fundingRows_finish now pa pr halted h.2).trans h.1, detached_finish now pa pr halted h.2⟩

theorem FundedApart.halt {F : List Row} {opId : Nat} {pid : String} (l : Ledger) (now : Int) (h : FundedApart F opId l) :
    FundedApart F opId (l.walletHalt now pid .reclaim) :=
  ⟨(fundingRows_halt_reclaim l now pid).trans h.1, detached_halt_reclaim now pid h.2⟩

variable {Assume Guarantee : Effect → Env → World → Prop}
variable (hG : ∀ op env s, plain op = true → Guarantee op env s) {F : List Row}
include hG

theorem keeps_closeReclaimPhase (pid : String) (op : WalletOp) (ids : Option (List String)) (opId : Nat)
    (resp : Reply) :
    KeepsTable Assume Guarantee (FundedApart F opId) (closeReclaimPhase pid op ids opId resp) := by
  have halted : (if outcomeFor resp = .fired then Outcome.ok else outcomeFor resp) ≠ .halted := by
    split
    · decide
    · exact outcomeFor_ne_halted resp
  unfold closeReclaimPhase
  apply KeepsTable.bind (keeps_finish hG (FundedApart.finish halted))
  intro _
  split
  · split
    · exact KeepsTable.bind (keeps_halt_reclaim hG FundedApart.halt) fun _ => KeepsTable.pure _
    · exact KeepsTable.pure _
  · apply KeepsTable.bind (keeps_errorStrikes hG pid op _)
    intro strikes
    split
    · exact KeepsTable.bind (keeps_halt_reclaim hG FundedApart.halt) fun _ => KeepsTable.pure _
    · exact KeepsTable.pure _

theorem fireReclaimPhase_frame (pid : String) {phase : ControlOp} {op : WalletOp} (hop : op ≠ .topup)
    (hphase : plain (.control pid phase) = true) (preAvailable : ℚ) (preReserved : Option ℚ)
    (ids : Option (List String)) :
    KeepsTable Assume Guarantee (fundingRows · = F)
      (fireReclaimPhase pid phase op preAvailable preReserved ids) := by
  unfold fireReclaimPhase
  split
  · exact KeepsTable.pure _
  intro s hs
  simp only [wp_bind, wp_call, andThen]
  refine ⟨hs, fun env _ => ⟨hG _ env s rfl, ?_⟩⟩
  have begun : FundedApart F s.ledger.nextId (s.ledger.walletOpBegin (s.now + env.elapsed) pid op none
      (some preAvailable) preReserved).2 :=
    ⟨(fundingRows_begin _ _ _ hop _ _ _).trans hs, detached_begin _ _ _ hop _ _ _⟩
  simp only [handle, World.write]
  cases env.store with
  | down => exact hs
  | lost => exact begun.1
  | ok =>
    have closed : KeepsTable Assume Guarantee (FundedApart F s.ledger.nextId) (do
        let resp ← controlOrClose pid s.ledger.nextId phase
        closeReclaimPhase pid op ids s.ledger.nextId resp) :=
      KeepsTable.bind (keeps_controlOrClose hG pid hphase (FundedApart.finish (by decide)))
        fun resp => keeps_closeReclaimPhase hG pid op ids _ resp
    exact wp_mono (closed _ begun) fun _ _ h => h.1

theorem fireBatch_frame (pid : String) {phase : List String → ControlOp} {op : WalletOp} (hop : op ≠ .topup)
    (hphase : ∀ ids, plain (.control pid (phase ids)) = true) (available : ℚ) (reserved : Option ℚ)
    (batch : List Channel) :
    KeepsTable Assume Guarantee (fundingRows · = F) (fireBatch pid phase op available reserved batch) := by
  unfold fireBatch
  dsimp only
  split
  · exact KeepsTable.pure _
  · exact fireReclaimPhase_frame hG pid hop (hphase _) _ _ _

theorem reclaimScanned_frame (pid : String) (available : ℚ) (reserved : Option ℚ) (scan : Reply) :
    KeepsTable Assume Guarantee (fundingRows · = F) (reclaimScanned pid available reserved scan) := by
  unfold reclaimScanned
  apply KeepsTable.bind (keeps_reads hG rfl rfl)
  intro now
  apply KeepsTable.bind (keeps_reads hG rfl rfl)
  intro last
  split
  · exact KeepsTable.pure _
  · split
    · exact fireReclaimPhase_frame hG pid (by decide) rfl _ _ _
    · dsimp only
      split
      · exact fireBatch_frame hG pid (by decide) (fun _ => rfl) _ _ _
      · split
        · exact fireBatch_frame hG pid (by decide) (fun _ => rfl) _ _ _
        · exact KeepsTable.pure _

/-- The reclaim side of a cycle never touches a top-up row or a top-up halt. -/
theorem maybeReclaim_frame (pid : String) (knobs : Knobs) (available : ℚ) (reserved : Option ℚ) :
    KeepsTable Assume Guarantee (fundingRows · = F) (maybeReclaim pid knobs available reserved) := by
  unfold maybeReclaim
  apply KeepsTable.bind (keeps_reads hG rfl rfl)
  intro halted
  split
  · exact KeepsTable.pure _
  dsimp only
  split
  · exact KeepsTable.pure _
  split
  · exact KeepsTable.pure _
  apply KeepsTable.bind (keeps_wedged hG pid knobs available)
  intro isWedged
  split
  · exact KeepsTable.pure _
  apply KeepsTable.bind (keeps_chainView hG pid)
  intro view
  split
  · exact KeepsTable.pure _
  apply KeepsTable.bind (keeps_control hG pid rfl)
  intro scan
  split
  · exact KeepsTable.pure _
  · exact reclaimScanned_frame hG pid available reserved scan

theorem reconcileRows_frame (rows : List Row) :
    KeepsTable Assume Guarantee
      (fun l => fundingRows l = F ∧ ∀ row ∈ rows, row.op ≠ .topup → row.outcome = .pending → Detached row.id l)
      (reconcileRows rows) := by
  suffices ∀ todo, (∀ row ∈ todo, row ∈ rows) → KeepsTable Assume Guarantee
      (fun l => fundingRows l = F ∧ ∀ row ∈ rows, row.op ≠ .topup → row.outcome = .pending → Detached row.id l)
      (reconcileRows todo) from this rows fun _ h => h
  intro todo hsub
  induction todo with
  | nil => exact KeepsTable.pure ()
  | cons row rest ih =>
    have tail := ih fun r hr => hsub r (List.mem_cons_of_mem _ hr)
    unfold reconcileRows
    split
    · exact tail
    · rename_i open_
      rw [not_or, not_not] at open_
      refine KeepsTable.bind (keeps_finish hG ?_) fun _ => tail
      intro l now hl
      have target := hl.2 row (hsub row List.mem_cons_self) open_.1 open_.2
      exact ⟨(fundingRows_finish now _ _ (by decide) target).trans hl.1,
        fun r hr hop hpending => detached_finish now _ _ (by decide) (hl.2 r hr hop hpending)⟩

/-- Reconciliation closes orphaned intents of other kinds only. -/
theorem reconcileOrphans_frame (pid : String) :
    KeepsTable Assume Guarantee (fundingRows · = F) (reconcileOrphans pid) := by
  intro s hs
  unfold reconcileOrphans
  simp only [wp_bind, wp_call, andThen]
  refine ⟨hs, fun env _ => ⟨hG _ env s rfl, ?_⟩⟩
  have open_ : ∀ row ∈ (handle (.walletOpsOpen pid none) env s).1, row ∈ s.ledger.rows := by
    simp only [handle, World.read]
    cases env.store with
    | ok => exact fun row hr => List.mem_of_mem_filter hr
    | down => exact fun row hr => absurd hr List.not_mem_nil
    | lost => exact fun row hr => absurd hr List.not_mem_nil
  refine wp_mono (reconcileRows_frame hG _ _ ⟨hs, ?_⟩) fun _ _ h => h.1
  intro row hr hop hpending other hother hid
  have same := eq_of_id hother (open_ row hr) hid
  subst same
  simp [isFunding, hop, hpending]

end Reclaim

end Unhardcoded.Guarantees

import Unhardcoded.Guarantees.WalletCycle
import Unhardcoded.Guarantees.WalletFootprints

/-!
# What each operation of the keeper may be

Over every run of cycles and clears, from any table and under any failure: an
operation that closes a row names a row that was begun and is no halt, and a
reclaim phase leaves only where no reclaim halt of its provider stands, with its
own intent the last row of the table, 900 seconds behind every earlier phase of
that provider (`walletHistory_licensed`). What a halt or a reclaim row means to
later phases follows from that alone (`halted_stays`, `recorded_stays`).
-/

namespace Unhardcoded.Guarantees
open Source Effects Program

/-- The ledger's name of a transaction phase of the reclaim, and the channels it is given. -/
def reclaimPhase : ControlOp → Option (WalletOp × Option (List String))
  | .deposit _ | .reclaimScan => none
  | .reclaimSetOperator => some (.reclaimSetOperator, none)
  | .reclaimRequestClose ids => some (.reclaimRequestClose, some ids)
  | .reclaimWithdraw ids => some (.reclaimWithdraw, some ids)

/-- A phase of the reclaim that `wallet_ops_last_ts` counts. -/
def isReclaim (pid : String) (row : Row) : Bool :=
  row.pid = pid ∧ row.op ∈ reclaimOps ∧ row.outcome ≠ .halted

/-- Closing the row lifts no halt: the row exists, and is none. -/
structure Closable (opId : Nat) (l : Ledger) : Prop where
  begun : opId < l.nextId
  noHalt : ∀ row ∈ l.rows, row.id = opId → row.outcome ≠ .halted

/-- Every earlier phase of `pid` lies a reclaim cooldown before `at_`. -/
def ReclaimRested (pid : String) (at_ : Int) (rows : List Row) : Prop :=
  ∀ row ∈ rows, isReclaim pid row = true → row.ts + reclaimCooldownS ≤ at_

/-- What stands behind a reclaim phase that leaves at `now`. -/
structure PhaseBacked (forward : Prop) (pid : String) (op : WalletOp) (now : Int) (l : Ledger) : Prop where
  unhalted : l.walletHalted pid .reclaim = false
  intent : ∃ earlier row, l.rows = earlier ++ [row] ∧ row.pid = pid ∧ row.op = op ∧ row.outcome = .pending ∧
    (forward → row.ts ≤ now ∧ ReclaimRested pid row.ts earlier)

variable {Assume : Effect → Env → World → Prop}

/-- What an operation of the keeper may be where it stands. -/
def Licensed (Assume : Effect → Env → World → Prop) (op : Effect) (env : Env) (s : World) : Prop :=
  match op with
  | .walletOpFinish opId outcome _ _ => outcome ≠ .halted ∧ Closable opId s.ledger
  | .control pid verb => ∀ phase ∈ reclaimPhase verb,
      PhaseBacked (ClockForward Assume) pid phase.1 (s.now + env.elapsed) s.ledger ∧
        ∀ ids ∈ phase.2, ids ≠ [] ∧ ids.length ≤ maxTxPerCycle
  | _ => True

/-- The operations that neither close a row nor fire a phase. -/
def unlicensed : Effect → Bool
  | .walletOpFinish .. => false
  | .control _ verb => reclaimPhase verb = none
  | _ => true

theorem licensed_of_unlicensed {op : Effect} (h : unlicensed op = true) (env : Env) (s : World) :
    Licensed Assume op env s := by
  cases op with
  | walletOpFinish => cases h
  | control pid verb =>
    intro phase mem
    rw [of_decide_eq_true h] at mem
    cases mem
  | _ => exact trivial

section Closable

variable {opId : Nat} {l : Ledger}

theorem closable_insert {row : Row} (h : Closable opId l) : Closable opId (l.insert row) := by
  refine ⟨Nat.lt_succ_of_lt h.begun, fun r mem hid => ?_⟩
  rcases List.mem_append.mp mem with mem | mem
  · exact h.noHalt r mem hid
  · rw [List.mem_singleton.mp mem] at hid
    exact absurd hid.symm (Nat.ne_of_lt h.begun)

theorem closable_finish {target : Nat} {outcome : Source.Outcome} {pa pr : Option ℚ} {now : Int}
    (halted : outcome ≠ .halted) (h : Closable opId l) : Closable opId (l.walletOpFinish now target outcome pa pr) := by
  refine ⟨h.begun, fun r mem hid => ?_⟩
  obtain ⟨row, was, rfl⟩ := List.mem_map.mp mem
  rw [Ledger.closeAt_id] at hid
  unfold Ledger.closeAt
  split
  · exact halted
  · exact h.noHalt row was hid

theorem closable_clear {pid : String} {kind : HaltKind} (h : Closable opId l) :
    Closable opId (l.walletClearHalt pid kind) :=
  ⟨h.begun, fun r mem hid => h.noHalt r (List.mem_of_mem_filter mem) hid⟩

end Closable

theorem walletHalt_cases (l : Ledger) (now : Int) (pid : String) (kind : HaltKind) :
    l.walletHalt now pid kind = l ∨ ∃ row, row.ts = now ∧ l.walletHalt now pid kind = l.insert row := by
  unfold Ledger.walletHalt
  split
  · exact .inl rfl
  · exact .inr ⟨_, rfl, rfl⟩

/-- What an operation leaves of the table: as it was, one row more, one row closed, or a halt lifted. -/
theorem ledger_cases (op : Effect) (env : Env) (s : World) :
    (handle op env s).2.ledger = s.ledger ∨
    (∃ row, row.ts = s.now + env.elapsed ∧ (handle op env s).2.ledger = s.ledger.insert row) ∨
    (∃ opId outcome pa pr now, op = .walletOpFinish opId outcome pa pr ∧
      (handle op env s).2.ledger = s.ledger.walletOpFinish now opId outcome pa pr) ∨
    ∃ pid kind, op = .walletClearHalt pid kind ∧ (handle op env s).2.ledger = s.ledger.walletClearHalt pid kind := by
  cases op with
  | walletOpBegin pid kind amount pa pr =>
    rcases write_ledger (s.advance env.elapsed) env.store
      (s.ledger.walletOpBegin (s.now + env.elapsed) pid kind amount pa pr).2 (some s.ledger.nextId) none with hw | hw
    · exact .inr (.inl ⟨_, rfl, hw⟩)
    · exact .inl hw
  | walletOpFinish opId outcome pa pr =>
    rcases write_ledger (s.advance env.elapsed) env.store
      (s.ledger.walletOpFinish (s.now + env.elapsed) opId outcome pa pr) true false with hw | hw
    · exact .inr (.inr (.inl ⟨opId, outcome, pa, pr, _, rfl, hw⟩))
    · exact .inl hw
  | walletHalt pid kind =>
    rcases write_ledger (s.advance env.elapsed) env.store (s.ledger.walletHalt (s.now + env.elapsed) pid kind)
      true false with hw | hw
    · rcases walletHalt_cases s.ledger (s.now + env.elapsed) pid kind with same | ⟨row, stamped, added⟩
      · exact .inl (hw.trans same)
      · exact .inr (.inl ⟨row, stamped, hw.trans added⟩)
    · exact .inl hw
  | walletClearHalt pid kind =>
    rcases write_ledger (s.advance env.elapsed) env.store (s.ledger.walletClearHalt pid kind) true false with hw | hw
    · exact .inr (.inr (.inr ⟨pid, kind, rfl, hw⟩))
    · exact .inl hw
  | _ => exact .inl rfl

theorem closable_handle {opId : Nat} {op : Effect} {env : Env} {s : World} (licensed : Licensed Assume op env s)
    (h : Closable opId s.ledger) : Closable opId (handle op env s).2.ledger := by
  rcases ledger_cases op env s with same | ⟨row, -, added⟩ | ⟨target, outcome, pa, pr, now, rfl, closed⟩ | ⟨pid, kind, -, cleared⟩
  · rw [same]
    exact h
  · rw [added]
    exact closable_insert h
  · rw [closed]
    exact closable_finish licensed.1 h
  · rw [cleared]
    exact closable_clear h

/-- A halt stands through every licensed operation but its own clear. -/
theorem halted_stays {pid : String} {kind : HaltKind} {op : Effect} {env : Env} {s : World}
    (licensed : Licensed Assume op env s) (other : op ≠ .walletClearHalt pid kind)
    (h : s.ledger.walletHalted pid kind = true) : (handle op env s).2.ledger.walletHalted pid kind = true := by
  unfold Ledger.walletHalted at h ⊢
  obtain ⟨halt, mem, stands⟩ := List.any_eq_true.mp h
  apply List.any_eq_true.mpr
  rcases ledger_cases op env s with same | ⟨row, -, added⟩ | ⟨target, outcome, pa, pr, now, rfl, closed⟩ | ⟨p, k, rfl, cleared⟩
  · rw [same]
    exact ⟨halt, mem, stands⟩
  · rw [added]
    exact ⟨halt, List.mem_append_left _ mem, stands⟩
  · rw [closed]
    have apart : halt.id ≠ target := fun hid => licensed.2.noHalt halt mem hid (of_decide_eq_true stands).2
    exact ⟨halt, List.mem_map.mpr ⟨halt, mem, by simp [Ledger.closeAt, apart]⟩, stands⟩
  · rw [cleared]
    refine ⟨halt, List.mem_filter.mpr ⟨mem, ?_⟩, stands⟩
    have own := (of_decide_eq_true stands).1
    simp only [Row.isOp, decide_eq_true_eq] at own
    -- a clear of another halt does not match this row
    have different : ¬ (halt.pid = p ∧ halt.op = .halt k) := by
      rintro ⟨rfl, kinds⟩
      rw [own.2] at kinds
      cases kinds
      exact other (by rw [own.1])
    simp [Row.isOp, different]

/-- The phase of this row, in whatever state it was closed. -/
def Recorded (row : Row) (l : Ledger) : Prop :=
  ∃ r ∈ l.rows, r.id = row.id ∧ r.pid = row.pid ∧ r.op = row.op ∧ r.ts = row.ts ∧ r.outcome ≠ .halted

/-- A reclaim row stays in the table with its stamp. -/
theorem recorded_stays {row : Row} {op : Effect} {env : Env} {s : World} (licensed : Licensed Assume op env s)
    (h : Recorded row s.ledger) : Recorded row (handle op env s).2.ledger := by
  obtain ⟨r, mem, sameId, samePid, sameOp, sameTs, outcome⟩ := h
  rcases ledger_cases op env s with same | ⟨new, -, added⟩ | ⟨target, closing, pa, pr, now, rfl, closed⟩ | ⟨p, k, rfl, cleared⟩
  · rw [same]
    exact ⟨r, mem, sameId, samePid, sameOp, sameTs, outcome⟩
  · rw [added]
    exact ⟨r, List.mem_append_left _ mem, sameId, samePid, sameOp, sameTs, outcome⟩
  · rw [closed]
    refine ⟨_, List.mem_map_of_mem mem, by rw [Ledger.closeAt_id, sameId], ?_⟩
    unfold Ledger.closeAt
    split
    · exact ⟨samePid, sameOp, sameTs, licensed.1⟩
    · exact ⟨samePid, sameOp, sameTs, outcome⟩
  · rw [cleared]
    refine ⟨r, List.mem_filter.mpr ⟨mem, ?_⟩, sameId, samePid, sameOp, sameTs, outcome⟩
    simp [outcome]

section Programs

/-- Every operation of `p` is licensed, whatever the state. -/
def KeepsLicence {α : Type} (Assume : Effect → Env → World → Prop) (p : Keeper α) : Prop :=
  Keeps handle Assume (Licensed Assume) (fun _ => True) p

/-- A program that neither closes a row nor fires a phase needs no licence. -/
theorem licensed_of_performs {α : Type} {p : Keeper α} {I : World → Prop}
    (quiet : Performs (fun op => unlicensed op = true ∧ ∀ env s, I s → I (handle op env s).2) p) :
    Keeps handle Assume (Licensed Assume) I p :=
  keeps_of_performs (fun _ env s ok hs _ => ⟨licensed_of_unlicensed ok.1 env s, ok.2 env s hs⟩) quiet

/-- The operations that only look: at the table, the clock, the readings, a scan. -/
def looks (op : Effect) : Prop := reads op = true ∧ unlicensed op = true

theorem looks_scan (pid : String) : Performs looks (control pid .reclaimScan) := by
  refine performs_bind ((performs_call _).mpr ⟨rfl, rfl⟩) fun answer => ?_
  split
  · exact performs_pure _
  · exact performs_throw _

/-- A part that only looks leaves the table, and its licence is free. -/
theorem wp_looks {α : Type} {p : Keeper α} (h : Performs looks p) {J : Ledger → Prop} {s : World} (hs : J s.ledger) :
    wp handle Assume (Licensed Assume) p (fun _ t => J t.ledger) s := by
  refine keeps_of_performs (I := fun w => J w.ledger) (fun op env w ok hw _ => ?_) h s hs
  refine ⟨licensed_of_unlicensed ok.2 env w, ?_⟩
  rw [handle_reads ok.1]
  exact hw

theorem closeReclaimPhase_licensed (pid : String) (op : WalletOp) (ids : Option (List String)) {opId : Nat}
    (resp : Reply) {s : World} (closable : Closable opId s.ledger) :
    wp handle Assume (Licensed Assume) (closeReclaimPhase pid op ids opId resp) (fun _ _ => True) s := by
  have halted : (if outcomeFor resp = .fired then Source.Outcome.ok else outcomeFor resp) ≠ .halted := by
    split
    · decide
    · exact outcomeFor_ne_halted resp
  unfold closeReclaimPhase
  simp only [wp_bind, wp_call, andThen]
  refine ⟨trivial, fun env _ => ⟨⟨halted, closable⟩, ?_⟩⟩
  refine licensed_of_performs (I := fun _ => True) ?_ _ trivial
  have free : ∀ op, unlicensed op = true → unlicensed op = true ∧ ∀ (env : Env) (s : World), True → True :=
    fun _ h => ⟨h, fun _ _ => id⟩
  split
  · split
    · exact performs_bind ((performs_call _).mpr (free _ rfl)) fun _ => performs_pure _
    · exact performs_pure _
  · refine performs_bind (performs_bind ((performs_call _).mpr (free _ rfl)) fun _ => performs_pure _) fun strikes => ?_
    split
    · exact performs_bind ((performs_call _).mpr (free _ rfl)) fun _ => performs_pure _
    · exact performs_pure _

/-- A phase of the reclaim whose provider is unhalted and rested in `s`. -/
theorem fireReclaimPhase_licensed (pid : String) {phase : ControlOp} {op : WalletOp} {ids : Option (List String)}
    (named : reclaimPhase phase = some (op, ids)) (few : ∀ sent ∈ ids, sent.length ≤ maxTxPerCycle)
    (available : ℚ) (reserved : Option ℚ) {s : World} (unhalted : s.ledger.walletHalted pid .reclaim = false)
    (rested : ClockForward Assume → ReclaimRested pid s.now s.ledger.rows) :
    wp handle Assume (Licensed Assume) (fireReclaimPhase pid phase op available reserved ids) (fun _ _ => True) s := by
  unfold fireReclaimPhase
  split
  · exact trivial
  rename_i chosen
  simp only [wp_bind, wp_call, andThen]
  refine ⟨trivial, fun env asked => ⟨trivial, ?_⟩⟩
  simp only [handle, World.write]
  cases env.store with
  | down => exact trivial
  | lost => exact trivial
  | ok =>
    -- the intent is the row the phase stands on, and the one its closing names
    have closable : Closable s.ledger.nextId (s.ledger.walletOpBegin (s.now + env.elapsed) pid op none
        (some available) reserved).2 := by
      refine ⟨Nat.lt_succ_self _, fun row mem hid => ?_⟩
      rcases List.mem_append.mp mem with mem | mem
      · have := s.ledger.below row mem
        omega
      · rw [List.mem_singleton.mp mem]
        simp
    have backed : ∀ env1, Assume (.control pid phase) env1
        ⟨s.now + env.elapsed, (s.ledger.walletOpBegin (s.now + env.elapsed) pid op none (some available) reserved).2⟩ →
        PhaseBacked (ClockForward Assume) pid op (s.now + env.elapsed + env1.elapsed)
          (s.ledger.walletOpBegin (s.now + env.elapsed) pid op none (some available) reserved).2 := by
      intro env1 asked1
      constructor
      · have apart : op ≠ .halt .reclaim := by
          intro halt
          rw [halt] at named
          cases phase <;> cases named
        unfold Ledger.walletHalted at unhalted ⊢
        simp only [Ledger.walletOpBegin, Ledger.insert, List.any_append, unhalted]
        simp [Row.isOp, apart]
      · refine ⟨s.ledger.rows, _, rfl, rfl, rfl, rfl, fun forward => ⟨?_, fun row mem counted => ?_⟩⟩
        · have := forward _ _ _ asked1
          simp only
          omega
        · have := forward _ _ _ asked
          have := rested forward row mem counted
          simp only
          omega
    rw [wp_bind]
    apply wp_controlOrClose
    · exact trivial
    · intro env1 asked1 answer mem
      rw [named] at mem
      cases mem
      refine ⟨backed env1 asked1, fun sent sentMem => ⟨?_, few sent sentMem⟩⟩
      rintro rfl
      exact chosen sentMem
    · exact fun env1 resp => closeReclaimPhase_licensed pid op ids resp closable
    · intro env1 exn
      simp only [wp_bind, wp_call, andThen]
      exact ⟨trivial, fun env2 _ => ⟨⟨by simp, closable⟩, trivial⟩⟩

theorem fireBatch_licensed (pid : String) {phase : List String → ControlOp} {op : WalletOp}
    (named : ∀ ids, reclaimPhase (phase ids) = some (op, some ids)) (available : ℚ) (reserved : Option ℚ)
    (batch : List Channel) {s : World} (unhalted : s.ledger.walletHalted pid .reclaim = false)
    (rested : ClockForward Assume → ReclaimRested pid s.now s.ledger.rows) :
    wp handle Assume (Licensed Assume) (fireBatch pid phase op available reserved batch) (fun _ _ => True) s := by
  unfold fireBatch
  dsimp only
  split
  · exact trivial
  · refine fireReclaimPhase_licensed pid (named _) ?_ available reserved unhalted rested
    intro sent mem
    cases mem
    exact List.length_take_le _ _

/-- The newest stamp of the reclaim rows answers for all of them; an unreadable table answers now. -/
theorem rested_of_answer {pid : String} {env : Env} {s : World} {now : Int} (past : now ≤ s.now + env.elapsed)
    (waited : ¬ ∃ t ∈ (handle (.walletOpsLastTs pid reclaimOps) env s).1, now - t < reclaimCooldownS) :
    ReclaimRested pid now s.ledger.rows := by
  intro row mem counted
  by_contra early
  refine waited ?_
  simp only [handle, World.read]
  cases env.store with
  | ok =>
    have listed : row.ts ∈ (s.ledger.rows.filter fun row => decide (row.pid = pid ∧ row.op ∈ reclaimOps ∧
        row.outcome ≠ .halted)).map (·.ts) :=
      List.mem_map_of_mem (List.mem_filter.mpr ⟨mem, counted⟩)
    simp only [World.advance, Ledger.walletOpsLastTs]
    cases newest : ((s.ledger.rows.filter fun row => decide (row.pid = pid ∧ row.op ∈ reclaimOps ∧
        row.outcome ≠ .halted)).map (·.ts)).max? with
    | none =>
      rw [List.max?_eq_none_iff] at newest
      rw [newest] at listed
      cases listed
    | some last =>
      have := (List.max?_le_iff newest).mp (le_refl last) _ listed
      exact ⟨last, rfl, by omega⟩
  | down => exact ⟨_, rfl, by simp only [World.advance, reclaimCooldownS]; omega⟩
  | lost => exact ⟨_, rfl, by simp only [World.advance, reclaimCooldownS]; omega⟩

theorem reclaimScanned_licensed (pid : String) (available : ℚ) (reserved : Option ℚ) (scan : Reply) {s : World}
    (unhalted : s.ledger.walletHalted pid .reclaim = false) :
    wp handle Assume (Licensed Assume) (reclaimScanned pid available reserved scan) (fun _ _ => True) s := by
  unfold reclaimScanned
  simp only [wp_bind, wp_call, andThen]
  refine ⟨trivial, fun env asked => ⟨trivial, ?_⟩⟩
  rw [handle_reads rfl]
  refine ⟨trivial, fun env1 asked1 => ⟨trivial, ?_⟩⟩
  rw [handle_reads rfl]
  split
  · exact trivial
  rename_i waited
  have rested : ClockForward Assume →
      ReclaimRested pid ((s.advance env.elapsed).advance env1.elapsed).now s.ledger.rows := by
    intro forward row mem counted
    have later := forward _ _ _ asked1
    have := rested_of_answer (by simp only [handle, World.advance]; omega) waited row mem counted
    simp only [handle, World.advance] at this ⊢
    omega
  split
  · exact fireReclaimPhase_licensed pid rfl (fun sent mem => by cases mem) _ _ unhalted rested
  · split
    · exact fireBatch_licensed pid (fun _ => rfl) _ _ _ unhalted rested
    · split
      · exact fireBatch_licensed pid (fun _ => rfl) _ _ _ unhalted rested
      · exact trivial

theorem maybeReclaim_licensed (pid : String) (knobs : Knobs) (available : ℚ) (reserved : Option ℚ) :
    KeepsLicence Assume (maybeReclaim pid knobs available reserved) := by
  intro s _
  unfold maybeReclaim
  simp only [wp_bind, wp_call, andThen]
  refine ⟨trivial, fun env _ => ⟨trivial, ?_⟩⟩
  rw [handle_reads rfl]
  split
  · exact trivial
  rename_i answer
  have unhalted : s.ledger.walletHalted pid .reclaim = false := walletHalted_of_answer (by simpa using answer)
  have table : ∀ {α : Type} {p : Keeper α} {t : World}, Performs looks p → t.ledger.walletHalted pid .reclaim = false →
      wp handle Assume (Licensed Assume) p (fun _ u => u.ledger.walletHalted pid .reclaim = false) t :=
    fun h ht => wp_looks (J := fun l => l.walletHalted pid .reclaim = false) h ht
  split
  · exact trivial
  split
  · exact trivial
  refine wp_bind_mono (table (performs_wedged ⟨rfl, rfl⟩ knobs available) unhalted) (fun _ _ => trivial) (fun _ _ _ => trivial)
    fun stuck t ht => ?_
  split
  · exact trivial
  refine wp_bind_mono (table (performs_chainView ⟨rfl, rfl⟩ ⟨rfl, rfl⟩) ht) (fun _ _ => trivial) (fun _ _ _ => trivial) fun view u hu => ?_
  split
  · exact trivial
  refine wp_bind_mono (table (looks_scan pid) hu) (fun _ _ => trivial) (fun _ _ _ => trivial) fun scan v hv => ?_
  split
  · exact trivial
  · exact reclaimScanned_licensed pid available reserved scan hv

/-- A row an open listing answers may be closed. -/
theorem closable_of_open {pid : String} {kind : Option WalletOp} {env : Env} {s : World} {row : Row}
    (mem : row ∈ (handle (.walletOpsOpen pid kind) env s).1) : Closable row.id s.ledger := by
  have listed : row ∈ s.ledger.walletOpsOpen pid kind := by
    simp only [handle, World.read] at mem
    cases hstore : env.store with
    | ok =>
      rw [hstore] at mem
      exact mem
    | down => simp [hstore] at mem
    | lost => simp [hstore] at mem
  obtain ⟨there, isOpen⟩ := List.mem_filter.mp listed
  refine ⟨s.ledger.below row there, fun other mem' hid => ?_⟩
  rw [eq_of_id mem' there hid]
  intro halted
  simp [halted, walletOpOpenOutcomes] at isOpen

/-- Rows that may be closed when a loop over them starts may be closed when it comes to them. -/
theorem reconcileRows_licensed (rows : List Row) :
    Keeps handle Assume (Licensed Assume) (fun w => ∀ row ∈ rows, Closable row.id w.ledger) (reconcileRows rows) := by
  suffices ∀ todo, (∀ row ∈ todo, row ∈ rows) → Keeps handle Assume (Licensed Assume)
      (fun w => ∀ row ∈ rows, Closable row.id w.ledger) (reconcileRows todo) from this rows fun _ h => h
  intro todo sub
  induction todo with
  | nil => exact keeps_pure ()
  | cons row rest ih =>
    have tail := ih fun r hr => sub r (List.mem_cons_of_mem _ hr)
    unfold reconcileRows
    split
    · exact tail
    · refine keeps_bind (keeps_call fun env s hs _ => ?_) fun _ => tail
      have licensed : Licensed Assume (.walletOpFinish row.id .unknown none none) env s :=
        ⟨by simp, hs row (sub row List.mem_cons_self)⟩
      exact ⟨licensed, fun r hr => closable_handle licensed (hs r hr)⟩

theorem settleRows_licensed (now : Int) (available : ℚ) (reserved : Option ℚ) (rows : List Row) :
    Keeps handle Assume (Licensed Assume) (fun w => ∀ row ∈ rows, Closable row.id w.ledger)
      (settleRows now available reserved rows) := by
  suffices ∀ todo, (∀ row ∈ todo, row ∈ rows) → Keeps handle Assume (Licensed Assume)
      (fun w => ∀ row ∈ rows, Closable row.id w.ledger) (settleRows now available reserved todo) from
    this rows fun _ h => h
  intro todo sub
  induction todo with
  | nil => exact keeps_pure ()
  | cons row rest ih =>
    have tail := ih fun r hr => sub r (List.mem_cons_of_mem _ hr)
    unfold settleRows
    split
    · exact tail
    · rename_i outcome verdict
      refine keeps_bind (keeps_call fun env s hs _ => ?_) fun _ => tail
      have closing : outcome ≠ .halted := by
        rcases settleVerdict_cases verdict with rfl | rfl | rfl <;> nofun
      have licensed : Licensed Assume (.walletOpFinish row.id outcome (some available) reserved) env s :=
        ⟨closing, hs row (sub row List.mem_cons_self)⟩
      exact ⟨licensed, fun r hr => closable_handle licensed (hs r hr)⟩

theorem reconcileOrphans_licensed (pid : String) : KeepsLicence Assume (reconcileOrphans pid) := by
  intro s _
  unfold reconcileOrphans
  simp only [wp_bind, wp_call, andThen]
  refine ⟨trivial, fun env _ => ⟨trivial, ?_⟩⟩
  refine wp_mono (reconcileRows_licensed _ _ fun row mem => ?_) fun _ _ _ => trivial
  rw [handle_reads rfl]
  exact closable_of_open mem

/-- Writing a halt is free. -/
theorem haltTopups_licensed (pid : String) (d : TopupDecision) : KeepsLicence Assume (haltTopups pid d) :=
  keeps_bind (keeps_call fun _ _ _ _ => ⟨trivial, trivial⟩) fun _ => keeps_pure d

theorem settleTopups_licensed (pid : String) (available : ℚ) (reserved : Option ℚ) :
    KeepsLicence Assume (settleTopups pid available reserved) := by
  intro s _
  unfold settleTopups
  simp only [wp_bind, wp_call, andThen]
  refine ⟨trivial, fun env _ => ⟨trivial, trivial, fun env1 _ => ⟨trivial, ?_⟩⟩⟩
  have start : ∀ row ∈ (handle (.walletOpsOpen pid (some .topup)) env1 (handle .time env s).2).1,
      Closable row.id (handle (.walletOpsOpen pid (some .topup)) env1 (handle .time env s).2).2.ledger := by
    intro row mem
    rw [handle_reads rfl]
    exact closable_of_open mem
  apply wp_mono (settleRows_licensed _ available reserved _ _ start)
  intro ending t _
  have halts : ∀ (d : TopupDecision) (u : World),
      wp handle Assume (Licensed Assume) (do return some (← haltTopups pid d)) (fun _ _ => True) u := fun d u =>
    wp_bind_mono (haltTopups_licensed pid d u trivial) (fun _ _ => trivial) (fun _ _ _ => trivial) fun _ _ _ => trivial
  cases ending with
  | crashed => exact trivial
  | raised error => exact trivial
  | returned _ =>
    simp only [andThen]
    refine ⟨trivial, fun env2 _ => ⟨trivial, ?_⟩⟩
    split
    · exact halts _ _
    simp only [wp_bind, wp_call, andThen]
    refine ⟨trivial, fun env3 _ => ⟨trivial, ?_⟩⟩
    split
    · exact halts _ _
    · exact trivial

/-- The deposit closes the row it began, and fires no phase. -/
theorem fireDeposit_licensed (pid : String) (amount available : ℚ) (reserved : Option ℚ) :
    KeepsLicence Assume (fireDeposit pid amount available reserved) := by
  intro s _
  unfold fireDeposit
  simp only [wp_bind, wp_call, andThen]
  refine ⟨trivial, fun env _ => ⟨trivial, ?_⟩⟩
  simp only [handle, World.write]
  cases env.store with
  | down => exact trivial
  | lost => exact trivial
  | ok =>
    have closable : Closable s.ledger.nextId (withIntent s.ledger (s.now + env.elapsed) pid amount available reserved) := by
      refine ⟨Nat.lt_succ_self _, fun row mem hid => ?_⟩
      rw [withIntent_rows] at mem
      rcases List.mem_append.mp mem with mem | mem
      · have := s.ledger.below row mem
        omega
      · rw [List.mem_singleton.mp mem]
        simp [intent]
    rw [wp_bind]
    apply wp_controlOrClose
    · exact trivial
    · exact fun env1 _ => licensed_of_unlicensed rfl env1 _
    · intro env1 resp
      simp only [andThen, closeDeposit]
      split
      · simp only [wp_bind, wp_call, andThen]
        exact ⟨trivial, fun env2 _ => ⟨⟨by simp, closable⟩, trivial⟩⟩
      · simp only [wp_bind, wp_call, andThen]
        refine ⟨trivial, fun env2 _ => ⟨⟨outcomeFor_ne_halted resp, closable⟩, ?_⟩⟩
        split
        · exact trivial
        · exact trivial
    · intro env1 exn
      simp only [wp_bind, wp_call, andThen]
      exact ⟨trivial, fun env2 _ => ⟨⟨by simp, closable⟩, trivial⟩⟩

theorem capRefusal_licensed (pid : String) (knobs : Knobs) : KeepsLicence Assume (capRefusal pid knobs) := by
  unfold capRefusal errorStrikes
  refine keeps_bind (keeps_bind (keeps_call fun _ _ _ _ => ⟨trivial, trivial⟩) fun _ => keeps_pure _) fun strikes => ?_
  split
  · exact keeps_throw _
  · split
    · exact haltTopups_licensed pid _
    · exact keeps_pure _

/-- A part that only looks is licensed as it is. -/
theorem keepsLicence_of_looks {α : Type} {p : Keeper α} (h : Performs looks p) : KeepsLicence Assume p :=
  keeps_of_performs (fun _ env s ok _ _ => ⟨licensed_of_unlicensed ok.2 env s, trivial⟩) h

theorem topupWithinCap_licensed (pid : String) (knobs : Knobs) (available : ℚ) (reserved : Option ℚ) :
    KeepsLicence Assume (topupWithinCap pid knobs available reserved) := by
  unfold topupWithinCap
  dsimp only
  split
  · exact keeps_pure _
  · refine keeps_bind (keepsLicence_of_looks (performs_chainView ⟨rfl, rfl⟩ ⟨rfl, rfl⟩)) fun view => ?_
    split
    · exact keeps_pure _
    · split
      · exact keeps_pure _
      · exact fireDeposit_licensed pid _ available reserved

theorem maybeTopup_licensed (pid : String) (knobs : Knobs) (available : ℚ) (reserved : Option ℚ) :
    KeepsLicence Assume (maybeTopup pid knobs available reserved) := by
  unfold maybeTopup
  split
  · exact keeps_pure _
  refine keeps_bind (keeps_call fun _ _ _ _ => ⟨trivial, trivial⟩) fun halted => ?_
  split
  · exact keeps_pure _
  refine keeps_bind (keeps_call fun _ _ _ _ => ⟨trivial, trivial⟩) fun now => ?_
  refine keeps_bind (keeps_call fun _ _ _ _ => ⟨trivial, trivial⟩) fun spend => ?_
  refine keeps_bind (keepsLicence_of_looks (performs_retryGate ⟨rfl, rfl⟩ ⟨rfl, rfl⟩ knobs spend)) fun waiting => ?_
  split
  · exact keeps_pure _
  · split
    · exact capRefusal_licensed pid knobs
    · exact topupWithinCap_licensed pid knobs available reserved

theorem cycleFresh_licensed (pid : String) (knobs : Knobs) (available : ℚ) (reserved : Option ℚ) :
    KeepsLicence Assume (cycleFresh pid knobs available reserved) := by
  refine keeps_bind (reconcileOrphans_licensed pid) fun _ => ?_
  refine keeps_bind (settleTopups_licensed pid available reserved) fun halted => ?_
  refine keeps_bind (maybeReclaim_licensed pid knobs available reserved) fun reclaim => ?_
  split
  · exact keeps_pure _
  · exact keeps_bind (maybeTopup_licensed pid knobs available reserved) fun _ => keeps_pure _

theorem cycleProvider_licensed (pid : String) (knobs : Knobs) : KeepsLicence Assume (cycleProvider pid knobs) := by
  refine keeps_bind (keeps_call fun _ _ _ _ => ⟨trivial, trivial⟩) fun answer => ?_
  split
  · exact keeps_pure _
  split
  · exact keeps_pure _
  refine keeps_bind (keepsLicence_of_looks (performs_statusAgeS ⟨rfl, rfl⟩ _)) fun age => ?_
  split
  · exact keeps_pure _
  · split
    · exact keeps_pure _
    · exact cycleFresh_licensed pid knobs _ _

theorem cycleProviders_licensed (knobs : Knobs) (ids : List String) : KeepsLicence Assume (cycleProviders knobs ids) := by
  induction ids with
  | nil => exact keeps_pure []
  | cons pid rest ih =>
    unfold cycleProviders
    refine keeps_bind (keeps_tryCatch (cycleProvider_licensed pid knobs) fun error => ?_) fun _ =>
      keeps_bind ih fun _ => keeps_pure _
    split
    · exact keeps_throw _
    · exact keeps_pure _

theorem cycle_licensed (ids : List String) : KeepsLicence Assume (Source.cycle ids) := by
  have loading : KeepsLicence Assume loadKnobs := keepsLicence_of_looks (performs_loadKnobs ⟨rfl, rfl⟩)
  refine keeps_bind (keeps_call fun _ _ _ _ => ⟨trivial, trivial⟩) fun lastCycle => ?_
  refine keeps_bind loading fun knobs => ?_
  split
  · exact keeps_pure _
  split
  · exact keeps_pure _
  refine keeps_bind (keeps_call fun _ _ _ _ => ⟨trivial, trivial⟩) fun configured => ?_
  split
  · exact keeps_pure _
  · exact keeps_bind (cycleProviders_licensed _ ids) fun _ => keeps_pure _

theorem step_licensed (ids : List String) (step : WalletStep) : KeepsLicence Assume (step.program ids) := by
  cases step with
  | cycle => exact keeps_bind (cycle_licensed ids) fun _ => keeps_pure _
  | clearHalt pid kind => exact keeps_bind (keeps_call fun _ _ _ _ => ⟨trivial, trivial⟩) fun _ => keeps_pure _

end Programs

/-- Everything performed over a run, oldest first. -/
def walletHistory (ids : List String) (steps : List (WalletStep × List Env)) (s : World) :
    List (Performed Effect Env World) :=
  (walletRun ids steps s).flatMap (·.trace)

/-- Every operation of every run is licensed where it stands. -/
theorem walletHistory_licensed (ids : List String) (steps : List (WalletStep × List Env)) (s : World)
    (assumed : ∀ e ∈ walletHistory ids steps s, Assume e.op e.env e.before) :
    ∀ e ∈ walletHistory ids steps s, Licensed Assume e.op e.env e.before := by
  have sound : ∀ session ∈ steps.map (fun step => (step.1.program ids, step.2)), ∀ t,
      wp handle Assume (Licensed Assume) session.1 (fun _ _ => True) t := by
    intro session mem t
    obtain ⟨step, -, rfl⟩ := List.mem_map.mp mem
    exact step_licensed ids step.1 t trivial
  exact history_sound sound assumed

end Unhardcoded.Guarantees

import Unhardcoded.Guarantees.WalletSteps

/-!
# Which channels a reclaim phase is sent

The ids of a request or withdraw phase are the largest eligible channels of the
scan made just before it, at most eight, and never none. Where an answered phase
does not echo them, the next operation but one is the reclaim halt of its
provider, and once that halt is written no phase of the provider leaves before an
operator's clear (`reclaim_batches`). The history of the run is the ghost here:
the scan and the unhonoured answer are read off its newest entries.
-/

namespace Unhardcoded.Guarantees
open Source Effects Program

section Selection

/-- The channels of a scan that a phase may act on. -/
def eligible (scan : Reply) (kind : WalletOp) : List Channel :=
  (scan.channels.filterMap id).filter fun c =>
    c.closeRequested = decide (kind = .reclaimWithdraw) ∧ minChannelReclaimable ≤ c.worth

/-- `sent` names the largest eligible channels of the scan: some, and at most eight. -/
structure Selected (scan : Reply) (kind : WalletOp) (sent : List String) : Prop where
  nonempty : sent ≠ []
  capped : sent.length ≤ 8
  named : ∀ id ∈ sent, channelIdMatches id = true
  largest : ∃ taken rest : List Channel, (taken ++ rest).Perm (eligible scan kind) ∧ taken.map (·.id) = sent.map some ∧
    ∀ c ∈ taken, ∀ d ∈ rest, d.worth ≤ c.worth

/-- The reply lists exactly the ids sent. -/
def Echoes (sent : List String) (resp : Reply) : Prop :=
  ∃ echoed, resp.selected = some echoed ∧ ∀ x, x ∈ echoed ↔ x ∈ sent

theorem selectionHonoured_iff (sent : List String) (resp : Reply) :
    selectionHonoured sent resp.selected = true ↔ Echoes sent resp := by
  unfold selectionHonoured Echoes
  cases resp.selected with
  | none => simp
  | some echoed =>
    simp only [decide_eq_true_eq, Option.some.injEq, exists_eq_left']
    constructor
    · rintro ⟨sub, sup⟩ x
      exact ⟨sub x, sup x⟩
    · exact fun same => ⟨fun x hx => (same x).mp hx, fun x hx => (same x).mpr hx⟩

/-- Where every channel of a batch can be named, the names are the ids in their order. -/
theorem map_channelIds {batch : List Channel} (all : (channelIds batch).length = batch.length) :
    batch.map (·.id) = (channelIds batch).map some := by
  unfold channelIds at all ⊢
  rw [List.filterMap_length_eq_length] at all
  induction batch with
  | nil => rfl
  | cons c rest ih =>
    have tail := ih fun d hd => all d (List.mem_cons_of_mem _ hd)
    obtain ⟨name, named⟩ := Option.isSome_iff_exists.mp (all c List.mem_cons_self)
    rw [List.map_cons, List.filterMap_cons, named, List.map_cons, tail, (Option.filter_eq_some_iff.mp named).1]

/-- The first eight of the sorted batch are a selection. -/
theorem selected_of_batch {scan : Reply} {kind : WalletOp} (some_ : eligible scan kind ≠ [])
    (all : (channelIds ((eligible scan kind).mergeSort fun a b => b.worth ≤ a.worth)).length =
      ((eligible scan kind).mergeSort fun a b => b.worth ≤ a.worth).length) :
    Selected scan kind
      ((channelIds ((eligible scan kind).mergeSort fun a b => b.worth ≤ a.worth)).take maxTxPerCycle) := by
  have perm := List.mergeSort_perm (eligible scan kind) fun a b => decide (b.worth ≤ a.worth)
  have sorted : ((eligible scan kind).mergeSort fun a b => decide (b.worth ≤ a.worth)).Pairwise
      fun a b => decide (b.worth ≤ a.worth) = true := by
    apply List.pairwise_mergeSort
    · intro a b c hab hbc
      rw [decide_eq_true_eq] at hab hbc ⊢
      exact le_trans hbc hab
    · intro a b
      rw [Bool.or_eq_true, decide_eq_true_eq, decide_eq_true_eq]
      exact le_total b.worth a.worth
  generalize (eligible scan kind).mergeSort (fun a b => decide (b.worth ≤ a.worth)) = batch at all perm sorted
  refine ⟨?_, List.length_take_le _ _, ?_, batch.take maxTxPerCycle, batch.drop maxTxPerCycle, ?_, ?_, ?_⟩
  · intro none_
    rw [List.take_eq_nil_iff] at none_
    rcases none_ with zero | none_
    · cases zero
    · rw [none_, List.length_nil] at all
      rw [List.eq_nil_of_length_eq_zero all.symm] at perm
      exact some_ perm.symm.eq_nil
  · intro name mem
    obtain ⟨c, -, chosen⟩ := List.mem_filterMap.mp (List.mem_of_mem_take mem)
    exact (Option.filter_eq_some_iff.mp chosen).2
  · rw [List.take_append_drop]
    exact perm
  · rw [List.map_take, List.map_take, map_channelIds all]
  · intro c hc d hd
    rw [← List.take_append_drop maxTxPerCycle batch] at sorted
    exact of_decide_eq_true ((List.pairwise_append.mp sorted).2.2 c hc d hd)

end Selection

section Attempt

/-- A transaction phase of the reclaim. -/
def fires : Effect → Bool
  | .control _ verb => (reclaimPhase verb).isSome
  | _ => false

def scans : Effect → Bool
  | .control _ .reclaimScan => true
  | _ => false

/-- The newest scan of the history is one of `pid`, and answered `scan`. -/
def LastScan (pid : String) (pre : List (Performed Effect Env World)) (scan : Reply) : Prop :=
  ∃ older e newer, pre = older ++ e :: newer ∧ e.op = .control pid .reclaimScan ∧ e.env.control = .reply scan ∧
    ∀ x ∈ newer, scans x.op = false

/-- An ok reply to a naming phase of `pid` that does not echo the names. -/
def Deviates (pid : String) (e : Performed Effect Env World) : Prop :=
  ∃ verb kind sent resp, e.op = .control pid verb ∧ reclaimPhase verb = some (kind, some sent) ∧
    e.env.control = .reply resp ∧ resp.ok.truthy = true ∧ ¬ Echoes sent resp

/-- The two newest operations are no deviation: nothing is owed. -/
def Calm (log : List (Performed Effect Env World)) : Prop := ∀ e ∈ log.take 2, ∀ pid, ¬ Deviates pid e

/-- The ghost: the history, newest first. -/
def logged (op : Effect) (env : Env) (s : World) (log : List (Performed Effect Env World)) :
    List (Performed Effect Env World) :=
  ⟨op, env, s⟩ :: log

/-- The newest operation has just begun the last row of the table, for a phase of `pid`. -/
def JustBegun (pid : String) (kind : WalletOp) (s : World × List (Performed Effect Env World)) : Prop :=
  ∃ begin_ rest amount pa pr, s.2 = begin_ :: rest ∧ begin_.op = .walletOpBegin pid kind amount pa pr ∧
    s.1.ledger = (begin_.before.ledger.walletOpBegin (begin_.before.now + begin_.env.elapsed) pid kind amount pa pr).2

/-- A phase stands on the intent just begun, and names a selection of the newest scan; behind a
deviation and its closing stands the halt. -/
def Chosen (op : Effect) (_ : Env) (s : World × List (Performed Effect Env World)) : Prop :=
  (∀ pid verb kind names, op = .control pid verb → reclaimPhase verb = some (kind, names) →
    JustBegun pid kind s ∧ ∀ sent ∈ names, ∃ scan, LastScan pid s.2.reverse scan ∧ Selected scan kind sent) ∧
  ∀ pid closing e rest, s.2 = closing :: e :: rest → Deviates pid e → op = .walletHalt pid .reclaim

/-- From a calm history, `p` keeps to its choices, and is calm wherever it is not cut. -/
def Composed {α : Type} (p : Keeper α) : Prop :=
  ∀ t : World × List (Performed Effect Env World), Calm t.2 →
    wp (observe handle logged) (fun _ _ _ => True) Chosen p (fun ending u => ending ≠ .crashed → Calm u.2) t

theorem calm_cons {e : Performed Effect Env World} {log : List (Performed Effect Env World)}
    (here : ∀ pid, ¬ Deviates pid e) (h : Calm log) : Calm (e :: log) := by
  intro x mem
  rw [List.take_succ_cons] at mem
  rcases List.mem_cons.mp mem with rfl | mem
  · exact here
  · exact h x (List.take_subset_take_left _ (by decide) mem)

theorem fires_of_phase {pid : String} {verb : ControlOp} {phase : WalletOp × Option (List String)}
    (named : reclaimPhase verb = some phase) : fires (.control pid verb) = true := by
  simp [fires, named]

theorem not_deviates {e : Performed Effect Env World} (h : fires e.op = false) (pid : String) : ¬ Deviates pid e := by
  rintro ⟨verb, kind, sent, resp, isOp, named, -⟩
  rw [isOp, fires_of_phase named] at h
  cases h

/-- An operation that fires no phase is free in a calm history. -/
theorem chosen_of_calm {op : Effect} {env : Env} {s : World} {log : List (Performed Effect Env World)}
    (h : fires op = false) (calm : Calm log) : Chosen op env (s, log) := by
  constructor
  · intro pid verb kind names isOp named
    rw [isOp, fires_of_phase named] at h
    cases h
  · rintro pid closing e rest rfl deviates
    exact absurd deviates (calm e (by simp) pid)

theorem composed_bind {α β : Type} {p : Keeper α} {f : α → Keeper β} (hp : Composed p)
    (hf : ∀ value, Composed (f value)) : Composed (p >>= f) := by
  intro t calm
  exact wp_bind_mono (hp t calm) (fun _ _ cut => absurd rfl cut) (fun _ _ h _ => h nofun)
    fun value u h => hf value u (h nofun)

theorem composed_tryCatch {α : Type} {p : Keeper α} {g : Exn → Keeper α} (hp : Composed p)
    (hg : ∀ error, Composed (g error)) : Composed (p.tryCatch g) := by
  intro t calm
  refine (wp_tryCatch p g _ t).mpr (wp_mono (hp t calm) fun ending u h => ?_)
  cases ending with
  | returned value => exact fun _ => h nofun
  | raised error => exact hg error u (h nofun)
  | crashed => exact h

/-- A program that fires no phase is composed. -/
theorem composed_of_performs {α : Type} {p : Keeper α} (h : Performs (fun op => fires op = false) p) : Composed p := by
  intro t calm
  refine wp_mono (keeps_of_performs (I := fun u : World × List (Performed Effect Env World) => Calm u.2) ?_ h t calm)
    fun _ _ calm' _ => calm'
  rintro op env ⟨s, log⟩ quiet calm' -
  exact ⟨chosen_of_calm quiet calm', calm_cons (not_deviates quiet) calm'⟩

/-- The program after an operation that fires no phase. -/
theorem wp_observed_call {α : Type} {op : Effect} {f : op.Answer → Keeper α} {s : World}
    {log : List (Performed Effect Env World)} (quiet : fires op = false) (calm : Calm log)
    (next : ∀ env, wp (observe handle logged) (fun _ _ _ => True) Chosen (f (handle op env s).1)
      (fun ending u => ending ≠ .crashed → Calm u.2) ((handle op env s).2, ⟨op, env, s⟩ :: log)) :
    wp (observe handle logged) (fun _ _ _ => True) Chosen (request op >>= f)
      (fun ending u => ending ≠ .crashed → Calm u.2) (s, log) :=
  (wp_bind _ _ _ _).mpr ⟨fun cut => absurd rfl cut, fun env _ => ⟨chosen_of_calm quiet calm, next env⟩⟩

/-- A scan stays the newest one over operations that scan nothing. -/
theorem lastScan_snoc {pid : String} {pre : List (Performed Effect Env World)} {scan : Reply}
    {e : Performed Effect Env World} (h : LastScan pid pre scan) (other : scans e.op = false) :
    LastScan pid (pre ++ [e]) scan := by
  obtain ⟨older, first, newer, rfl, isOp, answered, quiet⟩ := h
  refine ⟨older, first, newer ++ [e], by simp, isOp, answered, fun x mem => ?_⟩
  rcases List.mem_append.mp mem with mem | mem
  · exact quiet x mem
  · rw [List.mem_singleton.mp mem]
    exact other

/-- The provider of a deviation is the one its phase was sent for. -/
theorem deviates_pid {pid p : String} {verb : ControlOp} {e : Performed Effect Env World}
    (isOp : e.op = .control pid verb) (h : Deviates p e) : p = pid := by
  obtain ⟨_, _, _, _, other, -⟩ := h
  rw [isOp] at other
  cases other
  rfl

/-- Behind an answered phase: the row is closed, and a deviation is halted next. -/
theorem closeReclaimPhase_composed {pid : String} {verb : ControlOp} {kind : WalletOp} {names : Option (List String)}
    {opId : Nat} {resp : Reply} {c : Performed Effect Env World} {log : List (Performed Effect Env World)} {s : World}
    (isOp : c.op = .control pid verb) (named : reclaimPhase verb = some (kind, names))
    (answered : c.env.control = .reply resp) (calm : Calm log) :
    wp (observe handle logged) (fun _ _ _ => True) Chosen (closeReclaimPhase pid kind names opId resp)
      (fun ending u => ending ≠ .crashed → Calm u.2) (s, c :: log) := by
  -- the closing itself fires nothing, and what is behind the phase is calm
  have closing : ∀ outcome env, Chosen (.walletOpFinish opId outcome none none) env (s, c :: log) := by
    refine fun outcome env => ⟨fun _ _ _ _ isOp _ => (by cases isOp), ?_⟩
    rintro p newest e rest same deviates
    obtain ⟨-, rfl⟩ := List.cons.inj same
    exact absurd deviates (calm e (by simp) p)
  unfold closeReclaimPhase
  simp only [wp_bind, wp_call, andThen, observe, logged]
  refine ⟨fun cut => absurd rfl cut, fun env _ => ⟨closing _ env, ?_⟩⟩
  by_cases deviates : resp.ok.truthy = true ∧ ∃ sent ∈ names, ¬ Echoes sent resp
  · have fired : outcomeFor resp = .fired := by simp [outcomeFor, deviates.1]
    have unbounded : ∃ sent ∈ names, (!selectionHonoured sent resp.selected) = true := by
      obtain ⟨sent, mem, missed⟩ := deviates.2
      refine ⟨sent, mem, ?_⟩
      rw [Bool.not_eq_true', ← Bool.not_eq_true, selectionHonoured_iff]
      exact missed
    rw [if_pos fired, if_pos unbounded]
    simp only [wp_bind, wp_call, andThen, observe, logged]
    refine ⟨fun cut => absurd rfl cut, fun env1 _ => ⟨⟨fun _ _ _ _ isOp _ => (by cases isOp), ?_⟩, ?_⟩⟩
    · rintro p newest e rest same owed
      simp only [List.cons.injEq] at same
      obtain ⟨-, rfl, -⟩ := same
      rw [deviates_pid isOp owed]
    · intro _ x mem p
      simp only [List.take_succ_cons, List.take_zero, List.mem_cons, List.not_mem_nil, or_false] at mem
      rcases mem with rfl | rfl
      · exact not_deviates rfl p
      · exact not_deviates rfl p
  · have honest : ∀ p, ¬ Deviates p c := by
      rintro p ⟨verb', kind', sent', resp', isOp', named', answered', ok, missed⟩
      rw [isOp] at isOp'
      cases isOp'
      rw [named] at named'
      cases named'
      rw [answered] at answered'
      cases answered'
      exact deviates ⟨ok, sent', rfl, missed⟩
    have settled : Calm (⟨.walletOpFinish opId (if outcomeFor resp = .fired then .ok else outcomeFor resp) none none, env, s⟩ ::
        c :: log) := calm_cons (not_deviates rfl) (calm_cons honest calm)
    refine composed_of_performs ?_ _ settled
    split
    · split
      · exact performs_bind ((performs_call _).mpr rfl) fun _ => performs_pure _
      · exact performs_pure _
    · refine performs_bind (performs_bind ((performs_call _).mpr rfl) fun _ => performs_pure _) fun strikes => ?_
      split
      · exact performs_bind ((performs_call _).mpr rfl) fun _ => performs_pure _
      · exact performs_pure _

/-- A phase that is given a selection of the newest scan, or names no channels. -/
theorem fireReclaimPhase_composed {pid : String} {verb : ControlOp} {kind : WalletOp} {names : Option (List String)}
    (named : reclaimPhase verb = some (kind, names)) (available : ℚ) (reserved : Option ℚ) {s : World}
    {log : List (Performed Effect Env World)}
    (selected : ∀ sent ∈ names, ∃ scan, LastScan pid log.reverse scan ∧ Selected scan kind sent) (calm : Calm log) :
    wp (observe handle logged) (fun _ _ _ => True) Chosen (fireReclaimPhase pid verb kind available reserved names)
      (fun ending u => ending ≠ .crashed → Calm u.2) (s, log) := by
  unfold fireReclaimPhase
  split
  · exact fun _ => calm
  apply wp_observed_call rfl calm
  intro env
  have begun : Calm (⟨.walletOpBegin pid kind none (some available) reserved, env, s⟩ :: log) :=
    calm_cons (not_deviates rfl) calm
  have still : ∀ sent ∈ names, ∃ scan, LastScan pid (⟨.walletOpBegin pid kind none (some available) reserved, env, s⟩ ::
      log).reverse scan ∧ Selected scan kind sent := by
    intro sent mem
    obtain ⟨scan, scanned, selection⟩ := selected sent mem
    refine ⟨scan, ?_, selection⟩
    rw [List.reverse_cons]
    exact lastScan_snoc scanned rfl
  simp only [handle, World.write]
  cases env.store with
  | down => exact fun _ => begun
  | lost => exact fun _ => begun
  | ok =>
    unfold controlOrClose Source.control
    simp only [wp_bind, wp_tryCatch, wp_call, andThen, observe, logged]
    refine ⟨fun cut => absurd rfl cut, fun env1 _ => ⟨⟨?_, ?_⟩, ?_⟩⟩
    · intro p verb' kind' names' isOp named'
      cases isOp
      rw [named] at named'
      cases named'
      exact ⟨⟨_, _, _, _, _, rfl, rfl, rfl⟩, still⟩
    · rintro p newest e rest same deviates
      obtain ⟨rfl, rfl⟩ := List.cons.inj same
      exact absurd deviates (begun e (by simp) p)
    · cases reply : env1.control with
      | reply resp =>
        simp only [handle, reply, wp_pure, orElse, andThen]
        exact closeReclaimPhase_composed rfl named reply begun
      | raised exn =>
        -- nothing was answered, so nothing deviates
        have unanswered : ∀ p t, ¬ Deviates p ⟨.control pid verb, env1, t⟩ := by
          rintro p t ⟨_, _, _, _, -, -, answered, -⟩
          rw [reply] at answered
          cases answered
        simp only [handle, reply, wp_throw, orElse]
        exact ⟨fun cut => absurd rfl cut, fun env2 _ => ⟨chosen_of_calm rfl (calm_cons (unanswered · _) begun),
          fun _ => calm_cons (not_deviates rfl) (calm_cons (unanswered · _) begun)⟩⟩

/-- One turn of the phase loop over the eligible channels of the newest scan. -/
theorem fireBatch_composed {pid : String} {phase : List String → ControlOp} {kind : WalletOp} {scan : Reply}
    (named : ∀ ids, reclaimPhase (phase ids) = some (kind, some ids)) (some_ : eligible scan kind ≠ [])
    (available : ℚ) (reserved : Option ℚ) {s : World} {log : List (Performed Effect Env World)}
    (scanned : LastScan pid log.reverse scan) (calm : Calm log) :
    wp (observe handle logged) (fun _ _ _ => True) Chosen
      (fireBatch pid phase kind available reserved (eligible scan kind)) (fun ending u => ending ≠ .crashed → Calm u.2)
      (s, log) := by
  unfold fireBatch
  dsimp only
  split
  · exact fun _ => calm
  · rename_i all
    refine fireReclaimPhase_composed (named _) available reserved (fun sent mem => ?_) calm
    cases mem
    exact ⟨scan, scanned, selected_of_batch some_ (not_not.mp all)⟩

theorem eligible_withdraw (scan : Reply) :
    ((scan.channels.filterMap id).filter fun c => c.closeRequested && c.worthIt) = eligible scan .reclaimWithdraw := by
  apply List.filter_congr
  intro c _
  simp [Channel.worthIt]

theorem eligible_close (scan : Reply) :
    ((scan.channels.filterMap id).filter fun c => !c.closeRequested && c.worthIt) = eligible scan .reclaimRequestClose := by
  apply List.filter_congr
  intro c _
  simp [Channel.worthIt]

theorem reclaimScanned_composed (pid : String) (available : ℚ) (reserved : Option ℚ) (scan : Reply) {s : World}
    {log : List (Performed Effect Env World)} (scanned : LastScan pid log.reverse scan) (calm : Calm log) :
    wp (observe handle logged) (fun _ _ _ => True) Chosen (reclaimScanned pid available reserved scan)
      (fun ending u => ending ≠ .crashed → Calm u.2) (s, log) := by
  unfold reclaimScanned
  apply wp_observed_call rfl calm
  intro env
  have calm1 : Calm (⟨.time, env, s⟩ :: log) := calm_cons (not_deviates rfl) calm
  apply wp_observed_call rfl calm1
  intro env1
  have calm2 := calm_cons (e := ⟨.walletOpsLastTs pid reclaimOps, env1, (handle .time env s).2⟩) (not_deviates rfl) calm1
  have still : LastScan pid (⟨.walletOpsLastTs pid reclaimOps, env1, (handle .time env s).2⟩ :: ⟨.time, env, s⟩ ::
      log).reverse scan := by
    rw [List.reverse_cons, List.reverse_cons]
    exact lastScan_snoc (lastScan_snoc scanned rfl) rfl
  split
  · exact fun _ => calm2
  split
  · exact fireReclaimPhase_composed rfl available reserved (fun sent mem => by cases mem) calm2
  · dsimp only
    rw [eligible_withdraw, eligible_close]
    split
    · rename_i some_
      exact fireBatch_composed (fun _ => rfl) some_ available reserved still calm2
    · split
      · rename_i some_
        exact fireBatch_composed (fun _ => rfl) some_ available reserved still calm2
      · exact fun _ => calm2

/-- What only looks fires no phase. -/
theorem composed_of_looks {α : Type} {p : Keeper α} (h : Performs looks p) : Composed p := by
  refine composed_of_performs (h.mono fun op looked => ?_)
  cases op with
  | control pid verb =>
    have silent : reclaimPhase verb = none := of_decide_eq_true looked.2
    simp [fires, silent]
  | _ => rfl

theorem maybeReclaim_composed (pid : String) (knobs : Knobs) (available : ℚ) (reserved : Option ℚ) :
    Composed (maybeReclaim pid knobs available reserved) := by
  have free : ∀ d, Composed (pure d : Keeper ReclaimDecision) := fun d => composed_of_performs (performs_pure d)
  unfold maybeReclaim
  refine composed_bind (composed_of_performs ((performs_call _).mpr rfl)) fun halted => ?_
  split
  · exact free _
  dsimp only
  split
  · exact free _
  split
  · exact free _
  refine composed_bind (composed_of_looks (performs_wedged ⟨rfl, rfl⟩ knobs available)) fun stuck => ?_
  split
  · exact free _
  refine composed_bind (composed_of_looks (performs_chainView ⟨rfl, rfl⟩ ⟨rfl, rfl⟩)) fun view => ?_
  split
  · exact free _
  rintro ⟨s, log⟩ calm
  unfold Source.control
  simp only [wp_bind, wp_call, andThen, observe, logged]
  refine ⟨fun cut => absurd rfl cut, fun env _ => ⟨chosen_of_calm rfl calm, ?_⟩⟩
  have scanned : Calm (⟨.control pid .reclaimScan, env, s⟩ :: log) := calm_cons (not_deviates rfl) calm
  cases reply : env.control with
  | raised exn =>
    simp only [handle, reply]
    exact fun _ => scanned
  | reply scan =>
    simp only [handle, reply, wp_pure, andThen]
    split
    · exact fun _ => scanned
    · have newest : LastScan pid (⟨.control pid .reclaimScan, env, s⟩ :: log).reverse scan :=
        ⟨log.reverse, ⟨.control pid .reclaimScan, env, s⟩, [], List.reverse_cons, rfl, reply, List.forall_mem_nil _⟩
      exact reclaimScanned_composed pid available reserved scan newest scanned

theorem reconcileOrphans_composed (pid : String) : Composed (reconcileOrphans pid) :=
  composed_of_performs (performs_bind ((performs_call _).mpr rfl) (performs_reconcileRows fun _ => rfl))

theorem settleTopups_composed (pid : String) (available : ℚ) (reserved : Option ℚ) :
    Composed (settleTopups pid available reserved) := by
  have halts : ∀ d, Performs (fun op => fires op = false) (do return some (← haltTopups pid d)) := fun d =>
    performs_bind (performs_haltTopups (by rfl) d) fun _ => performs_pure _
  apply composed_of_performs
  refine performs_bind ((performs_call _).mpr rfl) fun now => performs_bind ((performs_call _).mpr rfl) fun rows => ?_
  refine performs_bind (performs_settleRows (fun _ _ => rfl) now rows) fun _ =>
    performs_bind ((performs_call _).mpr rfl) fun settled => ?_
  split
  · exact halts _
  refine performs_bind ((performs_call _).mpr rfl) fun terminal => ?_
  split
  · exact halts _
  · exact performs_pure _

theorem fireDeposit_composed (pid : String) (amount available : ℚ) (reserved : Option ℚ) :
    Composed (fireDeposit pid amount available reserved) := by
  apply composed_of_performs
  refine performs_bind ((performs_call _).mpr rfl) fun begun => ?_
  split
  · exact performs_pure _
  · exact performs_bind (performs_controlOrClose (by rfl) (fun _ => rfl) _) fun resp =>
      performs_closeDeposit (fun _ _ => rfl) _ resp

theorem maybeTopup_composed (pid : String) (knobs : Knobs) (available : ℚ) (reserved : Option ℚ) :
    Composed (maybeTopup pid knobs available reserved) := by
  have free : ∀ d, Composed (pure d : Keeper TopupDecision) := fun d => composed_of_performs (performs_pure d)
  unfold maybeTopup
  split
  · exact free _
  refine composed_bind (composed_of_performs ((performs_call _).mpr rfl)) fun halted => ?_
  split
  · exact free _
  refine composed_bind (composed_of_performs ((performs_call _).mpr rfl)) fun now => ?_
  refine composed_bind (composed_of_performs ((performs_call _).mpr rfl)) fun spend => ?_
  refine composed_bind (composed_of_looks (performs_retryGate ⟨rfl, rfl⟩ ⟨rfl, rfl⟩ knobs spend)) fun waiting => ?_
  split
  · exact free _
  split
  · exact composed_of_performs (performs_capRefusal (by rfl) (by rfl) knobs)
  · unfold topupWithinCap
    dsimp only
    split
    · exact free _
    refine composed_bind (composed_of_looks (performs_chainView ⟨rfl, rfl⟩ ⟨rfl, rfl⟩)) fun view => ?_
    split
    · exact free _
    · split
      · exact free _
      · exact fireDeposit_composed pid _ available reserved

theorem cycleProvider_composed (pid : String) (knobs : Knobs) : Composed (cycleProvider pid knobs) := by
  have free : ∀ st, Composed (pure st : Keeper ProviderState) := fun st => composed_of_performs (performs_pure st)
  refine composed_bind (composed_of_performs ((performs_call _).mpr rfl)) fun answer => ?_
  split
  · exact free _
  split
  · exact free _
  rename_i available _
  refine composed_bind (composed_of_looks (performs_statusAgeS ⟨rfl, rfl⟩ _)) fun age => ?_
  split
  · exact free _
  split
  · exact free _
  refine composed_bind (reconcileOrphans_composed pid) fun _ => ?_
  refine composed_bind (settleTopups_composed pid available _) fun halted => ?_
  refine composed_bind (maybeReclaim_composed pid knobs available _) fun reclaim => ?_
  split
  · exact free _
  · exact composed_bind (maybeTopup_composed pid knobs available _) fun _ => free _

theorem cycle_composed (ids : List String) : Composed (Source.cycle ids) := by
  have providers : ∀ knobs, Composed (cycleProviders knobs ids) := by
    intro knobs
    induction ids with
    | nil => exact composed_of_performs (performs_pure [])
    | cons pid rest ih =>
      unfold cycleProviders
      refine composed_bind (composed_tryCatch (cycleProvider_composed pid knobs) fun error => ?_) fun st =>
        composed_bind ih fun _ => composed_of_performs (performs_pure _)
      split
      · exact composed_of_performs (performs_throw _)
      · exact composed_of_performs (performs_pure _)
  have loading : Composed loadKnobs := composed_of_performs (performs_loadKnobs (by rfl))
  refine composed_bind (composed_of_performs ((performs_call _).mpr rfl)) fun lastCycle => ?_
  refine composed_bind loading fun knobs => ?_
  split
  · exact composed_of_performs (performs_pure _)
  split
  · exact composed_of_performs (performs_pure _)
  refine composed_bind (composed_of_performs ((performs_call _).mpr rfl)) fun configured => ?_
  split
  · exact composed_of_performs (performs_pure _)
  · exact composed_bind (providers _) fun _ => composed_of_performs (performs_pure _)

theorem step_composed (ids : List String) (step : WalletStep) : Composed (step.program ids) := by
  cases step with
  | cycle => exact composed_bind (cycle_composed ids) fun _ => composed_of_performs (performs_pure _)
  | clearHalt pid kind =>
    exact composed_of_performs (performs_bind ((performs_call _).mpr rfl) fun _ => performs_pure _)

end Attempt

theorem remembered_logged (log trace : List (Performed Effect Env World)) :
    remembered logged log trace = trace.reverse ++ log := by
  induction trace generalizing log with
  | nil => rfl
  | cons e rest ih =>
    rw [remembered_cons, ih]
    simp [logged]

/-- Behind a deviation its row is closed and its provider halted, unless the step is cut before. -/
def HaltFollows (pid : String) (o : Effects.Outcome Effect Env World Exn (Option KeeperState))
    (post : List (Performed Effect Env World)) : Prop :=
  (∃ closing halt rest, post = closing :: halt :: rest ∧ halt.op = .walletHalt pid .reclaim) ∨
    (o.ending = .crashed ∧ post.length < 2)

/-- One step of a run, from any world. -/
theorem step_batches {ids : List String} {step : WalletStep} {envs : List Env} {s : World}
    {pre post : List (Performed Effect Env World)} {e : Performed Effect Env World}
    (split : (Program.run handle (step.program ids) envs s).trace = pre ++ e :: post) :
    Chosen e.op e.env (e.before, pre.reverse) ∧
      ∀ pid, Deviates pid e → HaltFollows pid (Program.run handle (step.program ids) envs s) post := by
  have nothing : Calm [] := List.forall_mem_nil _
  obtain ⟨chosen, ended⟩ := observe_sound (step_composed ids step (s, []) nothing) envs fun _ _ _ _ => trivial
  simp only [remembered_logged, List.append_nil] at chosen ended
  refine ⟨(chosen pre e post split).1, fun pid deviates => ?_⟩
  -- the end of an uncut step is calm, so the deviation is not among its last two
  have cut : post.length < 2 → (Program.run handle (step.program ids) envs s).ending = .crashed := by
    intro short
    by_contra finished
    have calm := ended finished
    rw [split] at calm
    have near : e ∈ (pre ++ e :: post).reverse.take 2 := by
      cases post with
      | nil => simp
      | cons closing rest =>
        cases rest with
        | nil => simp
        | cons halt rest =>
          simp only [List.length_cons] at short
          omega
    exact calm e near pid deviates
  cases post with
  | nil => exact .inr ⟨cut (by simp), by simp⟩
  | cons closing rest =>
    cases rest with
    | nil => exact .inr ⟨cut (by simp), by simp⟩
    | cons halt rest =>
      refine .inl ⟨closing, halt, rest, rfl, ?_⟩
      have behind := (chosen (pre ++ [e, closing]) halt rest (by rw [split]; simp)).1.2
      exact behind pid closing e pre.reverse (by simp) deviates

/-- Over a run, the operation right before a phase has begun the row it stands on. -/
theorem phase_begun {ids : List String} {steps : List (WalletStep × List Env)} {s : World}
    {pre post : List (Performed Effect Env World)} {e : Performed Effect Env World} {pid : String} {verb : ControlOp}
    {phase : WalletOp × Option (List String)} (split : walletHistory ids steps s = pre ++ e :: post)
    (sent : e.op = .control pid verb) (named : reclaimPhase verb = some phase) :
    ∃ before begin_ amount pa pr, pre = before ++ [begin_] ∧ begin_.op = .walletOpBegin pid phase.1 amount pa pr ∧
      e.before.ledger =
        (begin_.before.ledger.walletOpBegin (begin_.before.now + begin_.env.elapsed) pid phase.1 amount pa pr).2 := by
  obtain ⟨session, mem, t, earlier, own, rest, later, rfl, -, trace⟩ := history_split split
  obtain ⟨step, -, rfl⟩ := List.mem_map.mp mem
  obtain ⟨begin_, older, amount, pa, pr, newest, isOp, table⟩ :=
    ((step_batches trace).1.1 pid verb phase.1 phase.2 sent named).1
  have own_eq : own = older.reverse ++ [begin_] := by
    rw [← List.reverse_reverse own, show own.reverse = begin_ :: older from newest, List.reverse_cons]
  exact ⟨earlier ++ older.reverse, begin_, amount, pa, pr, by rw [own_eq, List.append_assoc], isOp, table⟩

/-- Behind a written reclaim halt no phase of its provider leaves before the halt is cleared. -/
theorem no_phase_behind_halt {ids : List String} {steps : List (WalletStep × List Env)} {s : World}
    {pre mid post : List (Performed Effect Env World)} {halt e : Performed Effect Env World} {pid : String}
    {verb : ControlOp} (split : walletHistory ids steps s = pre ++ halt :: mid ++ e :: post)
    (halts : halt.op = .walletHalt pid .reclaim) (written : halt.env.store ≠ .down) (sent : e.op = .control pid verb)
    (phase : reclaimPhase verb ≠ none) : ∃ x ∈ mid, x.op = .walletClearHalt pid .reclaim := by
  by_contra uncleared
  have licensed := @walletHistory_licensed (fun _ _ _ => True) ids steps s fun _ _ => trivial
  rw [split] at licensed
  have chain : Follows handle s (walletHistory ids steps s) (walletWorld ids steps s) := follows_history _ s
  rw [split] at chain
  have standing : e.before.ledger.walletHalted pid .reclaim = true := by
    refine chain.between.keeps (I := fun w => w.ledger.walletHalted pid .reclaim = true) ?_ fun x mem stands => ?_
    · rw [halts]
      have wrote : (handle (.walletHalt pid .reclaim) halt.env halt.before).2.ledger =
          halt.before.ledger.walletHalt (halt.before.now + halt.env.elapsed) pid .reclaim := by
        simp only [handle, World.write]
        cases hstore : halt.env.store with
        | down => exact absurd hstore written
        | ok => rfl
        | lost => rfl
      rw [wrote]
      unfold Ledger.walletHalt
      split
      · assumption
      · simp [Ledger.walletHalted, Ledger.insert, Row.isOp]
    · refine halted_stays (licensed x (by simp [mem])) ?_ stands
      exact fun cleared => uncleared ⟨x, mem, cleared⟩
  obtain ⟨kind, named⟩ := Option.ne_none_iff_exists'.mp phase
  have backed := licensed e (by simp)
  rw [sent] at backed
  have unhalted := (backed kind (Option.mem_def.mpr named)).1.unhalted
  rw [standing] at unhalted
  cases unhalted

/-- Over every run: the ids of a request or withdraw phase are a selection of the scan before it, a
deviating ok reply is followed by the reclaim halt, and a written halt stops the provider's phases
until it is cleared. -/
theorem reclaim_batches (ids : List String) (steps : List (WalletStep × List Env)) (s : World) :
    (∀ o ∈ walletRun ids steps s, ∀ pre e post pid verb kind sent, o.trace = pre ++ e :: post →
      e.op = .control pid verb → reclaimPhase verb = some (kind, some sent) →
      (∃ scan, LastScan pid pre scan ∧ Selected scan kind sent) ∧
        ∀ resp, e.env.control = .reply resp → resp.ok.truthy = true → ¬ Echoes sent resp → HaltFollows pid o post) ∧
    ∀ pre halt mid e post pid verb, walletHistory ids steps s = pre ++ halt :: mid ++ e :: post →
      halt.op = .walletHalt pid .reclaim → halt.env.store ≠ .down → e.op = .control pid verb →
      reclaimPhase verb ≠ none → ∃ x ∈ mid, x.op = .walletClearHalt pid .reclaim := by
  constructor
  · intro o ho pre e post pid verb kind sent split isOp phase
    obtain ⟨before, after, found⟩ := List.append_of_mem ho
    obtain ⟨session, mem, t, -, rfl⟩ := runs_induct (I := fun _ => True) (P := fun _ => True)
      (fun _ _ _ _ _ => trivial) trivial found fun _ _ => trivial
    obtain ⟨step, -, rfl⟩ := List.mem_map.mp mem
    obtain ⟨chosen, halts⟩ := step_batches split
    refine ⟨?_, fun resp answered ok missed => halts pid ⟨verb, kind, sent, resp, isOp, phase, answered, ok, missed⟩⟩
    have selection := (chosen.1 pid verb kind _ isOp phase).2 sent rfl
    rwa [List.reverse_reverse] at selection
  · intro pre halt mid e post pid verb split halts written sent phase
    exact no_phase_behind_halt split halts written sent phase

/-- An escrow stuck in its channels, and a sidecar whose answers echo no selection. -/
def stuckEnv (elapsed : Int) : Env :=
  { sampleEnv elapsed .ok with
    status := some ⟨some 0, some 10, some 0⟩
    control := .reply ⟨.bool true, .bool true, true,
      [none, some ⟨some "c1", true, some 1⟩, some ⟨none, true, some 0⟩], none⟩ }

def stuckSteps : List (WalletStep × List Env) :=
  [(.cycle, List.replicate 30 (stuckEnv 0)), (.cycle, stuckEnv 840 :: List.replicate 30 (stuckEnv 0))]

/-- The one channel worth it is withdrawn, nothing is echoed, and the provider is halted. -/
theorem reclaim_batches_sample :
    (∃ o ∈ walletRun ["buyer"] stuckSteps ⟨0, .empty⟩, ∃ e ∈ o.trace, e.op = .control "buyer" (.reclaimWithdraw ["c1"])) ∧
    (∃ o ∈ walletRun ["buyer"] stuckSteps ⟨0, .empty⟩, ∃ e ∈ o.trace, e.op = .walletHalt "buyer" .reclaim) ∧
    (∀ o ∈ walletRun ["buyer"] stuckSteps ⟨0, .empty⟩, ∀ pre e post pid verb kind sent, o.trace = pre ++ e :: post →
      e.op = .control pid verb → reclaimPhase verb = some (kind, some sent) →
      (∃ scan, LastScan pid pre scan ∧ Selected scan kind sent) ∧
        ∀ resp, e.env.control = .reply resp → resp.ok.truthy = true → ¬ Echoes sent resp → HaltFollows pid o post) ∧
    ∀ pre halt mid e post pid verb, walletHistory ["buyer"] stuckSteps ⟨0, .empty⟩ = pre ++ halt :: mid ++ e :: post →
      halt.op = .walletHalt pid .reclaim → halt.env.store ≠ .down → e.op = .control pid verb →
      reclaimPhase verb ≠ none → ∃ x ∈ mid, x.op = .walletClearHalt pid .reclaim :=
  ⟨by decide +kernel, by decide +kernel, reclaim_batches ["buyer"] stuckSteps ⟨0, .empty⟩⟩

end Unhardcoded.Guarantees

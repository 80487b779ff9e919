import Unhardcoded.Source.SessionMeter

/-!
# A session's economics are its own caller's

A session id is chosen by the client, so two consumers can use one id. The rows of a run, as they
landed and with nothing pruned, are its history (`rowsOf`): a read sees those of its window
(`kept`), and no read depends on the ids. So what a consumer gets (the totals of a response, the
hot route, the view of a session) is a function of the consumer's own rows (`session_isolated`),
and the view is shown to the caller of the session's first row only (`session_owner_view`).
-/

namespace Unhardcoded.Guarantees.SessionMeter

open Effects.GroupBy Effects.Latest Python Source.SessionMeter
open Source.CallLedger (Env)

variable (env : Env) (retentionDays : Int)

/-! ## The history -/

def rowOf : Event → Option Row
  | .landed e now raises => if raises then none else e.row env now
  | .pruned _ => none

/-- The rows of a run in the order in which they landed. -/
def rowsOf (events : List Event) : List Row := events.filterMap (rowOf env)

def ownRows (consumer : String) (events : List Event) : List Row := (rowsOf env events).filter fun r => r.caller = some consumer

/-- The rows of a session that a read at `now` can see. -/
def window (now : Int) (session : String) (rows : List Row) : List Row := rows.filter (sessionWhere retentionDays now session none)

/-- No prune comes after `now` on the clock. -/
def PrunedBy (now : Int) (events : List Event) : Prop := ∀ t, Event.pruned t ∈ events → t ≤ now

def newestRow (rows : List Row) : Option Row := @lastOf Row Int Int.instLinearOrder (·.ts) rows

def oldestRow (rows : List Row) : Option Row := @firstOf Row Int Int.instLinearOrder (·.ts) rows

def warmRows (rows : List Row) : List Warm :=
  ((byKey (groupBy (fun r => r.modelFamily.getD "") newestRow (rows.filter fun r => succeeded r && r.modelFamily.isSome))).filterMap
    fun entry => entry.2.map (warmOf entry.1)).take 64

def hotRow (rows : List Row) : Option Row := newestRow (rows.filter fun r => succeeded r && r.servedBy.isSome)

/-! ## The ledger against the history -/

theorem rowsOf_concat (events : List Event) (event : Event) :
    rowsOf env (events ++ [event]) = rowsOf env events ++ (rowOf env event).toList := by
  unfold rowsOf
  rw [List.filterMap_append]
  cases h : rowOf env event with
  | none => rw [List.filterMap_cons_none h]; rfl
  | some row => rw [List.filterMap_cons_some h]; rfl

theorem run_concat (events : List Event) (event : Event) :
    runLedger env retentionDays (events ++ [event]) = step env retentionDays (runLedger env retentionDays events) event := by
  unfold runLedger
  rw [List.foldl_append]
  rfl

/-- The ids of the rows increase, and the next one is greater. -/
structure Numbered (s : Ledger) : Prop where
  increasing : s.calls.Pairwise fun a b => a.id < b.id
  below : ∀ c ∈ s.calls, c.id < s.nextId

theorem Numbered.step {s : Ledger} (numbered : Numbered s) (event : Event) : Numbered (step env retentionDays s event) := by
  cases event with
  | landed e now raises =>
    change Numbered (s.insertCall env e now raises)
    unfold Ledger.insertCall
    split
    · rename_i row _
      cases raises with
      | true => exact ⟨numbered.increasing, fun c mem => Nat.lt_succ_of_lt (numbered.below c mem)⟩
      | false =>
        refine ⟨List.pairwise_append.mpr ⟨numbered.increasing, List.pairwise_singleton _ _, ?_⟩, ?_⟩
        · intro a mem b last
          rw [List.mem_singleton.mp last]
          exact numbered.below a mem
        · intro c mem
          rcases List.mem_append.mp mem with old | last
          · exact Nat.lt_succ_of_lt (numbered.below c old)
          · rw [List.mem_singleton.mp last]
            exact Nat.lt_succ_self _
    · exact numbered
  | pruned now => exact ⟨numbered.increasing.filter _, fun c mem => numbered.below c (List.mem_of_mem_filter mem)⟩

theorem numbered_run (events : List Event) : Numbered (runLedger env retentionDays events) :=
  List.foldlRecOn events (step env retentionDays) ⟨List.Pairwise.nil, by intro c mem; cases mem⟩
    fun _ numbered event _ => numbered.step env retentionDays event

/-- A read that comes after every prune sees what it would see had nothing been pruned. -/
theorem kept (now : Int) {events : List Event} (clock : PrunedBy now events) :
    ((runLedger env retentionDays events).calls.filter fun c => floor retentionDays now ≤ c.row.ts).map (·.row) =
      (rowsOf env events).filter fun r => floor retentionDays now ≤ r.ts := by
  induction events using List.reverseRecOn with
  | nil => rfl
  | append_singleton events event ih =>
    specialize ih fun t mem => clock t (List.mem_append_left _ mem)
    rw [run_concat, rowsOf_concat, List.filter_append, ← ih]
    cases event with
    | landed e at' raises =>
      change ((Ledger.insertCall env _ e at' raises).calls.filter _).map _ = _ ++ (if raises then none else e.row env at').toList.filter _
      unfold Ledger.insertCall
      cases e.row env at' with
      | none => simp
      | some row =>
        cases raises with
        | true => simp
        | false =>
          by_cases late : floor retentionDays now ≤ row.ts
          · simp [late]
          · simp [late]
    | pruned t =>
      have earlier : floor retentionDays t ≤ floor retentionDays now := by
        have := clock t (List.mem_append_right _ (List.mem_singleton_self _))
        unfold floor
        omega
      change (((runLedger env retentionDays events).calls.filter fun c => floor retentionDays t ≤ c.row.ts).filter _).map _ = _ ++ []
      rw [List.append_nil, List.filter_filter]
      congr 1
      refine List.filter_congr fun c _ => ?_
      by_cases late : floor retentionDays now ≤ c.row.ts
      · simp [late, earlier.trans late]
      · simp [late]

/-! ## Reads without ids -/

section Reads

variable {calls : List Call}

theorem newest_row (increasing : calls.Pairwise fun a b => a.id < b.id) : (newest calls).map (·.row) = newestRow (calls.map (·.row)) := by
  unfold newest newestRow
  rw [latest_eq (fun c : Call => c.row.ts) increasing, lastOf_map]
  rfl

theorem oldest_row (increasing : calls.Pairwise fun a b => a.id < b.id) : (oldest calls).map (·.row) = oldestRow (calls.map (·.row)) := by
  unfold oldest oldestRow
  rw [earliest_eq (fun c : Call => c.row.ts) increasing, firstOf_map]
  rfl

theorem hot_row (increasing : calls.Pairwise fun a b => a.id < b.id) :
    (newest (calls.filter fun c => succeeded c.row && c.row.servedBy.isSome)).map (fun c => routeText c.row) =
      (hotRow (calls.map (·.row))).map routeText := by
  unfold hotRow
  rw [List.filter_map, ← newest_row (increasing.filter _), Option.map_map]
  rfl

theorem warm_rows (increasing : calls.Pairwise fun a b => a.id < b.id) :
    ((byKey (groupBy familyOf newest (calls.filter fun c => succeeded c.row && c.row.modelFamily.isSome))).filterMap
      fun entry => entry.2.map fun c => warmOf entry.1 c.row).take 64 = warmRows (calls.map (·.row)) := by
  have narrowed : (calls.map (·.row)).filter (fun r => succeeded r && r.modelFamily.isSome) =
      (calls.filter fun c => succeeded c.row && c.row.modelFamily.isSome).map (·.row) := List.filter_map
  unfold warmRows
  rw [narrowed]
  generalize here : calls.filter (fun c => succeeded c.row && c.row.modelFamily.isSome) = rows
  have sorted : rows.Pairwise fun a b => a.id < b.id := here ▸ increasing.filter _
  have groups : groupBy (fun r : Row => r.modelFamily.getD "") newestRow (rows.map (·.row)) =
      mapValues (Option.map (·.row)) (groupBy familyOf newest rows) := by
    unfold groupBy mapValues
    rw [List.map_map, List.map_map]
    refine List.map_congr_left fun family _ => ?_
    have one : (newest (group familyOf family rows)).map (·.row) = newestRow ((group familyOf family rows).map (·.row)) :=
      newest_row (sorted.filter _)
    rw [Function.comp, one]
    unfold group
    rw [List.filter_map]
    rfl
  rw [groups, byKey_mapValues, mapValues, List.filterMap_map]
  congr 1
  refine List.filterMap_congr fun entry _ => ?_
  rw [Function.comp, Option.map_map]
  rfl

end Reads

section Run

variable {env retentionDays} {now : Int} {events : List Event} (session : String)

theorem sessionCalls_row (clock : PrunedBy now events) (owner : Option String) :
    (sessionCalls retentionDays now session owner (runLedger env retentionDays events).calls).map (·.row) =
      (rowsOf env events).filter (sessionWhere retentionDays now session owner) := by
  have late : ∀ r, (sessionWhere retentionDays now session owner r && decide (floor retentionDays now ≤ r.ts)) =
      sessionWhere retentionDays now session owner r := by
    intro r
    unfold sessionWhere
    cases decide (floor retentionDays now ≤ r.ts) <;> simp
  have rows := congrArg (List.filter (sessionWhere retentionDays now session owner)) (kept env retentionDays now clock)
  rw [List.filter_filter, List.filter_map, List.filter_filter] at rows
  unfold sessionCalls
  calc
    _ = ((runLedger env retentionDays events).calls.filter fun c =>
          (sessionWhere retentionDays now session owner ∘ (·.row)) c && decide (floor retentionDays now ≤ c.row.ts)).map (·.row) :=
      congrArg _ (List.filter_congr fun c _ => (late c.row).symm)
    _ = _ := rows
    _ = _ := List.filter_congr fun r _ => late r

theorem ownCalls_row (clock : PrunedBy now events) (consumer : String) :
    (sessionCalls retentionDays now session (some consumer) (runLedger env retentionDays events).calls).map (·.row) =
      window retentionDays now session (ownRows env consumer events) := by
  rw [sessionCalls_row session clock, window, ownRows, List.filter_filter]
  refine List.filter_congr fun r _ => ?_
  unfold sessionWhere
  rw [Option.all_some, Option.all_none, Bool.and_true]

theorem increasing_session (owner : Option String) :
    (sessionCalls retentionDays now session owner (runLedger env retentionDays events).calls).Pairwise fun a b => a.id < b.id :=
  (numbered_run env retentionDays events).increasing.filter _

variable {session} (named : session ≠ "") (clock : PrunedBy now events) (consumer : String)
include named clock

theorem totals_run : sessionTotals retentionDays now session (some consumer) (runLedger env retentionDays events).calls =
    totalsOf (window retentionDays now session (ownRows env consumer events)) := by
  rw [sessionTotals, if_neg named, ownCalls_row session clock]

theorem hot_run : hotRoute retentionDays now session (some consumer) (runLedger env retentionDays events).calls =
    (hotRow (window retentionDays now session (ownRows env consumer events))).map routeText := by
  rw [hotRoute, if_neg named, hot_row (increasing_session session _), ownCalls_row session clock]

theorem warm_run : sessionWarm retentionDays now session (some consumer) (runLedger env retentionDays events).calls =
    warmRows (window retentionDays now session (ownRows env consumer events)) := by
  rw [sessionWarm, if_neg named]
  dsimp only
  rw [warm_rows (increasing_session session _), ownCalls_row session clock]

theorem owner_run : sessionOwner retentionDays now session (runLedger env retentionDays events).calls =
    (oldestRow (window retentionDays now session (rowsOf env events))).bind (·.caller) := by
  rw [sessionOwner, if_neg named, window, ← sessionCalls_row session clock, ← oldest_row (increasing_session session _)]
  cases oldest (sessionCalls retentionDays now session none (runLedger env retentionDays events).calls) <;> rfl

theorem meter_run (known : consumer ≠ "") (answers : Answers) :
    sessionMeter retentionDays now session (runLedger env retentionDays events).calls answers consumer =
      if answers.owner = true ∧ (oldestRow (window retentionDays now session (rowsOf env events))).bind (·.caller) = some consumer then
        some ⟨if answers.totals then totalsOf (window retentionDays now session (ownRows env consumer events)) else .zero,
          if answers.warm then warmRows (window retentionDays now session (ownRows env consumer events)) else []⟩
      else none := by
  unfold sessionMeter
  rw [if_neg known]
  dsimp only
  rw [owner_run named clock, totals_run named clock, warm_run named clock]
  cases answers.owner with
  | true =>
    by_cases own : (oldestRow (window retentionDays now session (rowsOf env events))).bind (·.caller) = some consumer
    · simp [own]
    · simp [own]
  | false => simp

end Run

/-! ## Results -/

/-- Two runs in which a consumer's own calls are the same, whatever the others do with the same
session id: the same totals on each response and the same hot route, and if both runs show the
consumer a view of the session, the same view. -/
theorem session_isolated {now : Int} {session consumer : String} {events events' : List Event} (named : session ≠ "")
    (known : consumer ≠ "") (clock : PrunedBy now events) (clock' : PrunedBy now events')
    (own : ownRows env consumer events = ownRows env consumer events') :
    let calls := (runLedger env retentionDays events).calls
    let calls' := (runLedger env retentionDays events').calls
    (∀ answers usage, sessionAcc retentionDays now session (some consumer) calls answers usage =
      sessionAcc retentionDays now session (some consumer) calls' answers usage) ∧
    hotRoute retentionDays now session (some consumer) calls = hotRoute retentionDays now session (some consumer) calls' ∧
    ∀ answers view view', sessionMeter retentionDays now session calls answers consumer = some view →
      sessionMeter retentionDays now session calls' answers consumer = some view' → view = view' := by
  refine ⟨fun answers usage => ?_, ?_, fun answers view view' shown shown' => ?_⟩
  · rw [sessionAcc, sessionAcc, totals_run named clock, totals_run named clock', own]
  · rw [hot_run named clock, hot_run named clock', own]
  · rw [meter_run named clock consumer known answers] at shown
    rw [meter_run named clock' consumer known answers, ← own] at shown'
    have view := (Option.ite_none_right_eq_some.mp shown).2
    have view' := (Option.ite_none_right_eq_some.mp shown').2
    exact Option.some.inj (view.symm.trans view')

/-- A successful call of a consumer in one session. -/
def callOf (consumer provider : String) : Entry :=
  ⟨none, some "ses_1", some consumer, some provider, some "family", some "route", .int 200, some 10, some 5, none, .null⟩

def textless : Env := ⟨fun _ => none, fun _ => none⟩

theorem session_isolated_shared :
    hotRoute 30 100 "ses_1" (some "b") (runLedger textless 30
        [.landed (callOf "a" "x") 10 false, .landed (callOf "b" "y") 20 false, .pruned 50, .landed (callOf "a" "z") 60 false]).calls =
      hotRoute 30 100 "ses_1" (some "b") (runLedger textless 30 [.landed (callOf "b" "y") 20 false]).calls :=
  (@session_isolated textless 30 100 "ses_1" "b" _ [.landed (callOf "b" "y") 20 false] (by decide) (by decide)
    (by intro t mem; simp at mem; subst mem; decide) (by intro t mem; simp at mem)
    (show ownRows textless "b" [.landed (callOf "a" "x") 10 false, .landed (callOf "b" "y") 20 false, .pruned 50,
      .landed (callOf "a" "z") 60 false] = _ from rfl)).2.1

theorem window_later {now now' : Int} (later : now ≤ now') (session : String) (rows : List Row) :
    window retentionDays now' session rows = (window retentionDays now session rows).filter fun r => floor retentionDays now' ≤ r.ts := by
  unfold window
  rw [List.filter_filter]
  refine List.filter_congr fun r _ => ?_
  unfold sessionWhere
  by_cases late : floor retentionDays now' ≤ r.ts
  · have before : floor retentionDays now ≤ r.ts := by
      unfold floor at late ⊢
      omega
    simp [late, before]
  · simp [late]

/-- A session belongs to the caller of its first row: its view is shown to that consumer only, and
it is that consumer's own rows. It stays so as long as the row is in the window, unless a row with
an earlier time lands later. -/
theorem session_owner_view {now : Int} {session : String} {events : List Event} (named : session ≠ "") (clock : PrunedBy now events) :
    (∀ consumer, consumer ≠ "" → ∀ answers,
      sessionMeter retentionDays now session (runLedger env retentionDays events).calls answers consumer =
        if answers.owner = true ∧ (oldestRow (window retentionDays now session (rowsOf env events))).bind (·.caller) = some consumer then
          some ⟨if answers.totals then totalsOf (window retentionDays now session (ownRows env consumer events)) else .zero,
            if answers.warm then warmRows (window retentionDays now session (ownRows env consumer events)) else []⟩
        else none) ∧
    ∀ row, oldestRow (window retentionDays now session (rowsOf env events)) = some row →
      ∀ later now', PrunedBy now' (events ++ later) → now ≤ now' → floor retentionDays now' ≤ row.ts →
        (∀ r ∈ rowsOf env later, r.sessionId = some session → row.ts ≤ r.ts) →
        ∀ consumer, consumer ≠ "" → ∀ answers : Answers, answers.owner = true →
          ((sessionMeter retentionDays now' session (runLedger env retentionDays (events ++ later)).calls answers consumer).isSome ↔
            row.caller = some consumer) := by
  refine ⟨fun consumer known answers => meter_run named clock consumer known answers, ?_⟩
  intro row first later now' clock' order seen after consumer known answers asked
  have same : oldestRow (window retentionDays now' session (rowsOf env (events ++ later))) = some row := by
    unfold oldestRow at first ⊢
    rw [rowsOf, List.filterMap_append, window, List.filter_append]
    refine firstOf_append ?_ fun r mem => ?_
    · change firstOf _ (window retentionDays now' session (rowsOf env events)) = _
      rw [window_later retentionDays order]
      exact firstOf_filter first (decide_eq_true seen)
    · obtain ⟨there, inside⟩ := List.mem_filter.mp mem
      refine after r there ?_
      unfold sessionWhere at inside
      simp only [Bool.and_eq_true, decide_eq_true_eq] at inside
      exact inside.1.1
  rw [meter_run named clock' consumer known answers, same, Option.bind_some, asked]
  by_cases own : row.caller = some consumer
  · simp [own]
  · simp [own]

/-- Two consumers under one session id. -/
def sharedSession : List Event := [.landed (callOf "a" "x") 10 false, .landed (callOf "b" "y") 20 false]

/-- The first of them sees its one call and the other one nothing, and so it is after more of both. -/
theorem session_owner_view_shared :
    (sessionMeter 30 100 "ses_1" (runLedger textless 30 sharedSession).calls ⟨true, true, true⟩ "a" =
        some ⟨⟨1, 10, 5, 0, 0⟩, [⟨"family", some "x", some "route"⟩]⟩ ∧
      sessionMeter 30 100 "ses_1" (runLedger textless 30 sharedSession).calls ⟨true, true, true⟩ "b" = none) ∧
    ∀ consumer, consumer ≠ "" → ((sessionMeter 30 200 "ses_1" (runLedger textless 30
        (sharedSession ++ [.landed (callOf "b" "z") 150 false, .pruned 180, .landed (callOf "a" "x") 190 false])).calls
          ⟨true, true, true⟩ consumer).isSome ↔ consumer = "a") := by
  have view := session_owner_view textless 30 (show "ses_1" ≠ "" by decide)
    (show PrunedBy 100 sharedSession by intro t mem; simp [sharedSession] at mem)
  refine ⟨⟨?_, ?_⟩, fun consumer known => ?_⟩
  · rw [view.1 "a" (by decide), if_pos (by decide)]
    decide +kernel
  · rw [view.1 "b" (by decide)]
    exact if_neg (by decide)
  · have stays := view.2 _ rfl [.landed (callOf "b" "z") 150 false, .pruned 180, .landed (callOf "a" "x") 190 false] 200
      (by intro t mem; simp [sharedSession] at mem; omega) (by decide) (by decide) (by decide) consumer known ⟨true, true, true⟩ rfl
    rw [stays]
    exact ⟨fun own => (Option.some.inj own).symm, fun own => congrArg some own.symm⟩

end Unhardcoded.Guarantees.SessionMeter

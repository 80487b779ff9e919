import Mathlib.Algebra.Ring.Int.Defs
import Unhardcoded.Source.RuntimeCounters

/-!
# What the counters of a running proxy add up to

Every table of `_stats` is a tally of the requests so far (`tallies`). So the counters of each
table, and of each table of tables under one caller or one key, add up to the counter that
stands for them all (`counters_partition`). A consumer's view is made of the requests under
its name or key alone: what others send cannot be seen in it (`view_own`).
-/

namespace Unhardcoded.Guarantees.RuntimeCounters

open Effects.GroupBy Python Source.RuntimeCounters
open Source.UsageAggregate (Counter)

/-! ## Tallies -/

def requestOf : Act → Option Event
  | .request e => some e
  | .reject _ => none
  | .probe _ => none

def requests (acts : List Act) : List Event := acts.filterMap requestOf

def keyed (events : List Event) : List Event := events.filter fun e => e.digest.isSome

/-- The digest of an event that has one. -/
def digestKey (e : Event) : String := e.digest.getD ""

def rowOf : Act → Row
  | .request e => visible e
  | .reject row => row
  | .probe row => row

def isReject : Act → Bool
  | .reject _ => true
  | _ => false

/-- The statistics as tallies of the requests. -/
structure Tallies (limit : Nat) (acts : List Act) (events : List Event) (s : Stats) : Prop where
  totalRequests : s.totalRequests = (events.map fun _ => (1 : Int)).sum
  totalErrors : s.totalErrors = (events.map fun e => if 400 ≤ e.request.status then (1 : Int) else 0).sum
  totalTokensIn : s.totalTokensIn = (events.map (·.request.tokensIn)).sum
  totalTokensOut : s.totalTokensOut = (events.map (·.request.tokensOut)).sum
  totalTokens : s.totalTokens = (events.map (·.request.tokensTotal)).sum
  totalRejects : s.totalRejects = (acts.filter isReject).length
  byStatus : s.byStatus = tally statusKey 0 (fun n _ => n + 1) events
  byCaller : s.byCaller = tally callerKey Counter.zero countCost events
  byDetail : ∀ d, s.byDetail d = tally d.key Counter.zero countCost events
  byCallerDetail : ∀ d, s.byCallerDetail d = tally callerKey [] (inTable countCost d.key) events
  byCallerStatus : s.byCallerStatus = tally callerKey [] inStatuses events
  byKeySha256 : s.byKeySha256 = tally digestKey Counter.zero countCost (keyed events)
  byKeyDetail : ∀ d, s.byKeyDetail d = tally digestKey [] (inTable count d.key) (keyed events)
  byKeyStatus : s.byKeyStatus = tally digestKey [] inStatuses (keyed events)
  appended : s.appended = keyed events
  recent : s.recent = (acts.map rowOf).reverse.take limit

theorem take_cons_take {α : Type} (limit : Nat) (x : α) (l : List α) : (x :: l.take limit).take limit = (x :: l).take limit := by
  cases limit with
  | zero => rfl
  | succ n => rw [List.take_succ_cons, List.take_succ_cons, List.take_take, Nat.min_eq_left (Nat.le_succ n)]

theorem appendLeft_take (limit : Nat) (row : Row) (rows : List Row) :
    appendLeft limit row (rows.reverse.take limit) = (rows ++ [row]).reverse.take limit := by
  rw [appendLeft, take_cons_take, List.reverse_append]
  rfl

theorem keyed_append (events : List Event) (e : Event) :
    keyed (events ++ [e]) = if e.digest.isSome then keyed events ++ [e] else keyed events := by
  rw [keyed, List.filter_append, List.filter_singleton]
  by_cases some : e.digest.isSome = true
  · rw [some, if_pos rfl]
    rfl
  · rw [Bool.eq_false_iff.mpr some, if_neg Bool.false_ne_true]
    exact List.append_nil _

/-- The key's counters after one request. -/
theorem recordKey_tallies {limit : Nat} {acts : List Act} {events : List Event} {s : Stats} (h : Tallies limit acts events s)
    (e : Event) :
    (recordKey s e).byKeySha256 = tally digestKey Counter.zero countCost (keyed (events ++ [e])) ∧
      (∀ d, (recordKey s e).byKeyDetail d = tally digestKey [] (inTable count d.key) (keyed (events ++ [e]))) ∧
      (recordKey s e).byKeyStatus = tally digestKey [] inStatuses (keyed (events ++ [e])) ∧
      (recordKey s e).appended = keyed (events ++ [e]) := by
  rw [keyed_append]
  cases found : e.digest with
  | none =>
    have same : recordKey s e = s := by rw [recordKey, found]
    rw [same, Option.isSome_none, if_neg Bool.false_ne_true]
    exact ⟨h.byKeySha256, h.byKeyDetail, h.byKeyStatus, h.appended⟩
  | some digest =>
    have key : digestKey e = digest := by rw [digestKey, found]; rfl
    rw [Option.isSome_some, if_pos rfl]
    simp only [recordKey, found]
    refine ⟨?_, fun d => ?_, ?_, ?_⟩
    · rw [tally_concat, key, ← h.byKeySha256]
      rfl
    · rw [tally_concat, key, ← h.byKeyDetail]
      rfl
    · rw [tally_concat, key, ← h.byKeyStatus]
      rfl
    · rw [h.appended]

/-- The counters that `recordKey` leaves alone. -/
theorem recordKey_frame (s : Stats) (e : Event) :
    ∃ owner table details statuses appended,
      recordKey s e = { s with keyOwner := owner, byKeySha256 := table, byKeyDetail := details, byKeyStatus := statuses, appended := appended } := by
  unfold recordKey
  cases e.digest with
  | none => exact ⟨s.keyOwner, s.byKeySha256, s.byKeyDetail, s.byKeyStatus, s.appended, rfl⟩
  | some digest => exact ⟨_, _, _, _, _, rfl⟩

theorem tallies_request {limit : Nat} {acts : List Act} {events : List Event} {s : Stats} (h : Tallies limit acts events s)
    (e : Event) : Tallies limit (acts ++ [.request e]) (events ++ [e]) (recordRequest limit s e) := by
  obtain ⟨keys, details, statuses, appended⟩ := recordKey_tallies h e
  obtain ⟨owner, table, details', statuses', appended', frame⟩ := recordKey_frame s e
  have sums : ∀ f : Event → Int, ((events ++ [e]).map f).sum = (events.map f).sum + f e := by
    intro f
    rw [List.map_append, List.sum_append, List.map_singleton, List.sum_singleton]
  unfold recordRequest
  dsimp only
  rw [frame] at keys details statuses appended ⊢
  constructor
  · rw [sums, ← h.totalRequests]
  · rw [sums, ← h.totalErrors]
  · rw [sums, ← h.totalTokensIn]
  · rw [sums, ← h.totalTokensOut]
  · rw [sums, ← h.totalTokens]
  · rw [List.filter_append]
    simpa [isReject] using h.totalRejects
  · rw [tally_concat, ← h.byStatus]
    rfl
  · rw [tally_concat, ← h.byCaller]
    rfl
  · intro d
    rw [tally_concat, ← h.byDetail]
    rfl
  · intro d
    rw [tally_concat, ← h.byCallerDetail]
    rfl
  · rw [tally_concat, ← h.byCallerStatus]
    rfl
  · exact keys
  · exact details
  · exact statuses
  · exact appended
  · dsimp only
    rw [h.recent, appendLeft_take, List.map_append]
    rfl

/-- After any requests, rejects and probes, in whatever order. -/
theorem tallies (limit : Nat) (acts : List Act) : Tallies limit acts (requests acts) (runtime limit acts) := by
  induction acts using List.reverseRecOn with
  | nil => exact ⟨rfl, rfl, rfl, rfl, rfl, rfl, rfl, rfl, fun _ => rfl, fun _ => rfl, rfl, rfl, fun _ => rfl, rfl, rfl, by simp [runtime, newStats]⟩
  | append_singleton acts act ih =>
    have step : runtime limit (acts ++ [act]) = record limit (runtime limit acts) act := by
      rw [runtime, List.foldl_append]
      rfl
    have recent : ∀ row, appendLeft limit row (runtime limit acts).recent = ((acts.map rowOf) ++ [row]).reverse.take limit :=
      fun row => by rw [ih.recent, appendLeft_take]
    rw [step]
    cases act with
    | request e =>
      have more : requests (acts ++ [.request e]) = requests acts ++ [e] := by
        rw [requests, List.filterMap_append]
        rfl
      rw [more]
      exact tallies_request ih e
    | reject row =>
      have more : requests (acts ++ [.reject row]) = requests acts := by
        rw [requests, List.filterMap_append]
        exact List.append_nil _
      rw [more]
      refine { ih with totalRejects := ?_, recent := ?_ }
      · have counted : ((acts ++ [Act.reject row]).filter isReject).length = (acts.filter isReject).length + 1 := by
          rw [List.filter_append, List.length_append]
          rfl
        rw [counted, record, ih.totalRejects]
        rfl
      · rw [List.map_append]
        exact recent row
    | probe row =>
      have more : requests (acts ++ [.probe row]) = requests acts := by
        rw [requests, List.filterMap_append]
        exact List.append_nil _
      rw [more]
      refine { ih with totalRejects := ?_, recent := ?_ }
      · rw [List.filter_append]
        simpa [record, isReject] using ih.totalRejects
      · rw [List.map_append]
        exact recent row

/-! ## Tables of tables -/

/-- What a table of tables holds under a key is the table of the key's events. -/
theorem lookup_nested {γ : Type} (outer : Event → String) (key : Event → String) (init : γ) (add : γ → Event → γ)
    (events : List Event) (k : String) :
    ((tally outer [] (fun t e => update init add (key e) e t) events).lookup k).getD [] =
      tally key init add (group outer k events) := by
  rw [lookup_tally]
  split
  · rfl
  · rename_i absent
    rw [group_of_notMem absent]
    rfl

theorem getD_tally (outer : Event → String) (add : Counter → Event → Counter) (events : List Event) (k : String) :
    ((tally outer Counter.zero add events).lookup k).getD Counter.zero = (group outer k events).foldl add Counter.zero := by
  rw [lookup_tally]
  split
  · rfl
  · rename_i absent
    rw [group_of_notMem absent]
    rfl

/-! ## Sums -/

/-- What a counter counts without rounding. -/
inductive Measure where
  | requests
  | errors
  | tokensIn
  | tokensOut
  | tokensTotal

namespace Measure

def of : Measure → Counter → Int
  | .requests, c => c.requests
  | .errors, c => c.errors
  | .tokensIn, c => c.tokensIn
  | .tokensOut, c => c.tokensOut
  | .tokensTotal, c => c.tokensTotal

def weight : Measure → Event → Int
  | .requests, _ => 1
  | .errors, e => if 400 ≤ e.request.status then 1 else 0
  | .tokensIn, e => e.request.tokensIn
  | .tokensOut, e => e.request.tokensOut
  | .tokensTotal, e => e.request.tokensTotal

/-- The total that stands beside the tables. -/
def total : Measure → Stats → Int
  | .requests, s => s.totalRequests
  | .errors, s => s.totalErrors
  | .tokensIn, s => s.totalTokensIn
  | .tokensOut, s => s.totalTokensOut
  | .tokensTotal, s => s.totalTokens

def sum (m : Measure) (table : Table) : Int := (table.map fun entry => m.of entry.2).sum

theorem of_zero (m : Measure) : m.of Counter.zero = 0 := by cases m <;> rfl

theorem of_count (m : Measure) (c : Counter) (e : Event) : m.of (count c e) = m.of c + m.weight e := by cases m <;> rfl

theorem of_countCost (m : Measure) (c : Counter) (e : Event) : m.of (countCost c e) = m.of c + m.weight e := by
  cases m <;> rfl

theorem total_eq {limit : Nat} {acts : List Act} {events : List Event} {s : Stats} (h : Tallies limit acts events s) (m : Measure) :
    m.total s = (events.map m.weight).sum := by
  cases m with
  | requests => exact h.totalRequests
  | errors => exact h.totalErrors
  | tokensIn => exact h.totalTokensIn
  | tokensOut => exact h.totalTokensOut
  | tokensTotal => exact h.totalTokens

end Measure

def statusSum (statuses : List (String × Int)) : Int := (statuses.map (·.2)).sum

theorem statusSum_tally (key : Event → String) (events : List Event) :
    statusSum (tally key 0 (fun n _ => n + 1) events) = (events.map Measure.requests.weight).sum :=
  sum_tally (fun n : Int => n) rfl (fun _ _ => rfl) key events

/-! ## The view of a consumer -/

def shown (selected : String) (keyFilter : Option String) (row : Row) : Bool :=
  row.caller = some selected && keyFilter.all fun digest => row.keySha256Prefix = some (shaPrefix digest)

/-- A request that is counted for the consumer, or for the key. -/
def ownEvent (selected : String) : Option String → Event → Bool
  | none, e => callerKey e = selected
  | some digest, e => e.digest = some digest

/-- What a consumer, or the holder of a key, has done. -/
def own (selected : String) (keyFilter : Option String) (act : Act) : Bool :=
  shown selected keyFilter (rowOf act) || (requestOf act).any (ownEvent selected keyFilter)

theorem requests_cons (e : Event) (acts : List Act) : requests (.request e :: acts) = e :: requests acts := rfl

/-- Requests of a kind that is kept are all kept. -/
theorem filter_own {p : Event → Bool} {keeps : Act → Bool} (kept : ∀ e, p e = true → keeps (.request e) = true) (acts : List Act) :
    (requests (acts.filter keeps)).filter p = (requests acts).filter p := by
  induction acts with
  | nil => rfl
  | cons act acts ih =>
    by_cases here : keeps act = true
    · rw [List.filter_cons_of_pos here]
      cases act with
      | request e =>
        rw [requests_cons, requests_cons, List.filter_cons, List.filter_cons, ih]
      | reject row => exact ih
      | probe row => exact ih
    · rw [List.filter_cons_of_neg here, ih]
      cases act with
      | request e =>
        have other : ¬ p e = true := fun holds => here (kept e holds)
        rw [requests_cons, List.filter_cons_of_neg other]
      | reject row => rfl
      | probe row => rfl

theorem group_own (selected : String) (acts : List Act) :
    group callerKey selected (requests (acts.filter (own selected none))) = group callerKey selected (requests acts) := by
  refine filter_own (fun e same => ?_) acts
  have counted : ownEvent selected none e = true := same
  rw [own, requestOf, Option.any_some, counted, Bool.or_true]

theorem group_keyed (selected digest : String) (acts : List Act) :
    group digestKey digest (keyed (requests (acts.filter (own selected (some digest))))) =
      group digestKey digest (keyed (requests acts)) := by
  have keyedGroup (events : List Event) :
      group digestKey digest (keyed events) = events.filter fun e => decide (digestKey e = digest) && e.digest.isSome := by
    rw [group, keyed, List.filter_filter]
  rw [keyedGroup, keyedGroup]
  refine filter_own (fun e same => ?_) acts
  obtain ⟨here, given⟩ := Bool.and_eq_true_iff.mp same
  obtain ⟨found, given⟩ := Option.isSome_iff_exists.mp given
  have counted : ownEvent selected (some digest) e = true := by
    have here : digestKey e = digest := of_decide_eq_true here
    rw [digestKey, given, Option.getD_some] at here
    rw [ownEvent, given, here, decide_eq_true rfl]
  rw [own, requestOf, Option.any_some, counted, Bool.or_true]

theorem prefix_of_filter_take {α : Type} (p : α → Bool) (n : Nat) (l : List α) : (l.take n).filter p <+: (l.filter p).take n := by
  induction l generalizing n with
  | nil => simp
  | cons x l ih =>
    cases n with
    | zero => simp
    | succ n =>
      rw [List.take_succ_cons]
      by_cases here : p x = true
      · rw [List.filter_cons_of_pos here, List.filter_cons_of_pos here, List.take_succ_cons]
        exact (List.prefix_cons_inj x).mpr (ih n)
      · rw [List.filter_cons_of_neg here, List.filter_cons_of_neg here]
        exact (ih n).trans (List.take_prefix_take_left (Nat.le_succ n))

/-! ## Main results -/

/-- After any requests, rejects and probes: the counters of every table add up to the totals; those
under one caller to the caller's counter; those under one key to the key's; the statuses to the
requests of all, of a caller or of a key; the keys' counters are of the events that went to the
ledger, and `recent` has the newest rows. -/
theorem counters_partition (limit : Nat) (acts : List Act) (m : Measure) :
    m.sum (runtime limit acts).byCaller = m.total (runtime limit acts) ∧
      (∀ d, m.sum ((runtime limit acts).byDetail d) = m.total (runtime limit acts)) ∧
      (∀ d caller, m.sum (((runtime limit acts).byCallerDetail d).lookup caller |>.getD []) =
        m.of (((runtime limit acts).byCaller.lookup caller).getD Counter.zero)) ∧
      (∀ d digest, m.sum (((runtime limit acts).byKeyDetail d).lookup digest |>.getD []) =
        m.of (((runtime limit acts).byKeySha256.lookup digest).getD Counter.zero)) ∧
      m.sum (runtime limit acts).byKeySha256 = ((runtime limit acts).appended.map m.weight).sum ∧
      statusSum (runtime limit acts).byStatus = (runtime limit acts).totalRequests ∧
      (∀ caller, statusSum (((runtime limit acts).byCallerStatus.lookup caller).getD []) =
        (((runtime limit acts).byCaller.lookup caller).getD Counter.zero).requests) ∧
      (∀ digest, statusSum (((runtime limit acts).byKeyStatus.lookup digest).getD []) =
        (((runtime limit acts).byKeySha256.lookup digest).getD Counter.zero).requests) ∧
      (runtime limit acts).totalRejects = (acts.filter isReject).length ∧
      (runtime limit acts).recent = (acts.map rowOf).reverse.take limit := by
  have h := tallies limit acts
  have grand : ∀ key, m.sum (tally key Counter.zero countCost (requests acts)) = m.total (runtime limit acts) := by
    intro key
    rw [Measure.sum, sum_tally _ m.of_zero m.of_countCost, m.total_eq h]
  have statuses : ∀ (outer : Event → String) (events : List Event) k,
      statusSum (((tally outer [] inStatuses events).lookup k).getD []) =
        (((tally outer Counter.zero countCost events).lookup k).getD Counter.zero).requests := by
    intro outer events k
    have nested := lookup_nested outer statusKey (0 : Int) (fun n _ => n + 1) events k
    change statusSum ((List.lookup k (tally outer [] (fun t e => update (0 : Int) (fun n _ => n + 1) (statusKey e) e t) _)).getD []) = _
    rw [nested, statusSum_tally, getD_tally]
    have counted := measure_foldl Measure.requests.of_countCost (group outer k events) Counter.zero
    rw [Measure.of_zero, zero_add] at counted
    exact counted.symm
  have under : ∀ (outer : Event → String) (events : List Event) k,
      m.of (((tally outer Counter.zero countCost events).lookup k).getD Counter.zero) = ((group outer k events).map m.weight).sum := by
    intro outer events k
    rw [getD_tally, measure_foldl m.of_countCost, m.of_zero, zero_add]
  refine ⟨?_, fun d => ?_, fun d caller => ?_, fun d digest => ?_, ?_, ?_, fun caller => ?_, fun digest => ?_, h.totalRejects,
    h.recent⟩
  · rw [h.byCaller, grand]
  · rw [h.byDetail, grand]
  · rw [h.byCallerDetail, h.byCaller, under]
    have nested := lookup_nested callerKey d.key Counter.zero countCost (requests acts) caller
    change m.sum ((List.lookup caller (tally callerKey [] (fun t e => update Counter.zero countCost (d.key e) e t) _)).getD []) = _
    rw [nested, Measure.sum, sum_tally _ m.of_zero m.of_countCost]
  · rw [h.byKeyDetail, h.byKeySha256, under]
    have nested := lookup_nested digestKey d.key Counter.zero count (keyed (requests acts)) digest
    change m.sum ((List.lookup digest (tally digestKey [] (fun t e => update Counter.zero count (d.key e) e t) _)).getD []) = _
    rw [nested, Measure.sum, sum_tally _ m.of_zero m.of_count]
  · rw [h.byKeySha256, h.appended, Measure.sum, sum_tally _ m.of_zero m.of_countCost]
  · rw [h.byStatus, statusSum_tally, ← Measure.requests.total_eq h]
    rfl
  · rw [h.byCallerStatus, h.byCaller, statuses]
  · rw [h.byKeyStatus, h.byKeySha256, statuses]

/-- A consumer's view of the running process, whatever the other consumers do: its counters are
those of a process that has had the consumer's, or the key's, own requests alone, and its
recent rows are the newest of the rows that this process would show. -/
theorem view_own (limit : Nat) (acts : List Act) (selected : String) (keyFilter : Option String) :
    ∃ recent, statsSnapshot (runtime limit acts) selected keyFilter =
        { statsSnapshot (runtime limit (acts.filter (own selected keyFilter))) selected keyFilter with recent := recent } ∧
      recent <+: (statsSnapshot (runtime limit (acts.filter (own selected keyFilter))) selected keyFilter).recent := by
  have all := tallies limit acts
  have few := tallies limit (acts.filter (own selected keyFilter))
  refine ⟨(statsSnapshot (runtime limit acts) selected keyFilter).recent, ?_, ?_⟩
  · cases keyFilter with
    | none =>
      have counter : ((runtime limit acts).byCaller.lookup selected).getD Counter.zero =
          ((runtime limit (acts.filter (own selected none))).byCaller.lookup selected).getD Counter.zero := by
        rw [all.byCaller, few.byCaller, getD_tally, getD_tally, group_own]
      have tables : ∀ d, ((runtime limit acts).byCallerDetail d |>.lookup selected).getD [] =
          ((runtime limit (acts.filter (own selected none))).byCallerDetail d |>.lookup selected).getD [] := by
        intro d
        rw [all.byCallerDetail, few.byCallerDetail]
        have nested := lookup_nested callerKey d.key Counter.zero countCost
        exact (nested _ _).trans ((congrArg _ (group_own selected acts).symm).trans (nested _ _).symm)
      have statuses : ((runtime limit acts).byCallerStatus.lookup selected).getD [] =
          ((runtime limit (acts.filter (own selected none))).byCallerStatus.lookup selected).getD [] := by
        rw [all.byCallerStatus, few.byCallerStatus]
        have nested := lookup_nested callerKey statusKey (0 : Int) (fun n _ => n + 1)
        exact (nested _ _).trans ((congrArg _ (group_own selected acts).symm).trans (nested _ _).symm)
      simp only [statsSnapshot, counter, tables, statuses]
    | some digest =>
      have counter : ((runtime limit acts).byKeySha256.lookup digest).getD Counter.zero =
          ((runtime limit (acts.filter (own selected (some digest)))).byKeySha256.lookup digest).getD Counter.zero := by
        rw [all.byKeySha256, few.byKeySha256, getD_tally, getD_tally, group_keyed]
      have tables : ∀ d, ((runtime limit acts).byKeyDetail d |>.lookup digest).getD [] =
          ((runtime limit (acts.filter (own selected (some digest)))).byKeyDetail d |>.lookup digest).getD [] := by
        intro d
        rw [all.byKeyDetail, few.byKeyDetail]
        have nested := lookup_nested digestKey d.key Counter.zero count
        exact (nested _ _).trans ((congrArg _ (group_keyed selected digest acts).symm).trans (nested _ _).symm)
      have statuses : ((runtime limit acts).byKeyStatus.lookup digest).getD [] =
          ((runtime limit (acts.filter (own selected (some digest)))).byKeyStatus.lookup digest).getD [] := by
        rw [all.byKeyStatus, few.byKeyStatus]
        have nested := lookup_nested digestKey statusKey (0 : Int) (fun n _ => n + 1)
        exact (nested _ _).trans ((congrArg _ (group_keyed selected digest acts).symm).trans (nested _ _).symm)
      simp only [statsSnapshot, counter, tables, statuses]
  · have shows : ∀ act, shown selected keyFilter (rowOf act) = true → own selected keyFilter act = true := by
      intro act holds
      rw [own, holds, Bool.true_or]
    have newest : ∀ acts : List Act, (statsSnapshot (runtime limit acts) selected keyFilter).recent =
        ((acts.reverse.take limit).map rowOf).filter (shown selected keyFilter) := by
      intro acts
      change (runtime limit acts).recent.filter (shown selected keyFilter) = _
      rw [(tallies limit acts).recent, ← List.map_reverse, ← List.map_take]
    have hidden : ∀ l : List Act, (l.map rowOf).filter (shown selected keyFilter) =
        ((l.filter (own selected keyFilter)).map rowOf).filter (shown selected keyFilter) := by
      intro l
      rw [List.filter_map, List.filter_map, List.filter_filter]
      refine congrArg _ (List.filter_congr fun act _ => ?_)
      by_cases holds : shown selected keyFilter (rowOf act) = true
      · simp [holds, shows act holds]
      · simp [holds]
    rw [newest, newest, hidden, ← List.filter_reverse]
    exact ((prefix_of_filter_take _ limit acts.reverse).map rowOf).filter _

end Unhardcoded.Guarantees.RuntimeCounters

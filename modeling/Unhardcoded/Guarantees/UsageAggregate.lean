import Mathlib.Algebra.BigOperators.Ring.List
import Mathlib.Algebra.Order.BigOperators.Group.List
import Mathlib.Tactic.FieldSimp
import Mathlib.Tactic.Linarith
import Mathlib.Tactic.Ring
import Unhardcoded.Source.UsageAggregate

/-!
# The two usage aggregates

The fold and the SQL path count and sum alike in every group. They part where the fold
rounds a running total and the query a sum, by the rounding errors of the costs
(`drift`), and where a group has no row from the epoch on.
-/

namespace Unhardcoded.Guarantees.UsageAggregate

open Effects Effects.GroupBy Python Source Source.UsageAggregate
open Source.CallLedger (Call)
open Source.FlowCost (nearest)

section Rounding

/-- By how much a total, which is odd or even, moves when `x` is added and the result rounded. -/
def move (odd : Bool) (x : ℚ) : ℤ := if odd then nearest (x + 1) - 1 else nearest x

/-- What a running total that is rounded after each amount has lost of their sum. -/
def drift : Bool → List ℚ → ℚ
  | _, [] => 0
  | odd, x :: xs => x - move odd x + drift (odd ^^ decide (move odd x % 2 = 1)) xs

theorem nearest_intCast (n : ℤ) : nearest n = n := by
  simp [nearest]

theorem nearest_add (n : ℤ) (x : ℚ) : nearest (n + x) = n + move (decide (n % 2 = 1)) x := by
  have floor : ⌊(n : ℚ) + x⌋ = n + ⌊x⌋ := Int.floor_intCast_add n x
  have shift : (n : ℚ) + x - ((n + ⌊x⌋ : ℤ) : ℚ) = x - ⌊x⌋ := by
    push_cast
    ring
  by_cases odd : n % 2 = 1
  · have floor' : ⌊x + 1⌋ = ⌊x⌋ + 1 := Int.floor_add_one x
    have shift' : x + 1 - ((⌊x⌋ + 1 : ℤ) : ℚ) = x - ⌊x⌋ := by
      push_cast
      ring
    simp only [move, odd, decide_true, if_true, nearest, floor, floor', shift, shift']
    split
    · omega
    · split <;> omega
  · have even : n % 2 = 0 := by omega
    simp only [move, odd, decide_false, Bool.false_eq_true, if_false, nearest, floor, shift]
    split
    · rfl
    · split <;> omega

/-- Whole amounts lose nothing. -/
theorem drift_whole {xs : List ℚ} (whole : ∀ x ∈ xs, ∃ n : ℤ, x = n) : ∀ odd, drift odd xs = 0 := by
  induction xs with
  | nil => exact fun _ => rfl
  | cons x xs ih =>
    intro odd
    obtain ⟨n, rfl⟩ := whole x List.mem_cons_self
    have stays : move odd n = n := by
      cases odd with
      | false => exact nearest_intCast n
      | true =>
        have : nearest ((n : ℚ) + 1) = n + 1 := by exact_mod_cast nearest_intCast (n + 1)
        simp only [move, if_true, this]
        omega
    rw [drift, stays, ih fun y mem => whole y (List.mem_cons_of_mem _ mem), sub_self, add_zero]

/-- The running total, in units of the last digit. -/
theorem foldl_nearest (xs : List ℚ) : ∀ n : ℤ,
    ((xs.foldl (fun (n : ℤ) x => nearest (n + x)) n : ℤ) : ℚ) = n + xs.sum - drift (decide (n % 2 = 1)) xs := by
  induction xs with
  | nil =>
    intro n
    simp [drift]
  | cons x xs ih =>
    intro n
    have parity : decide ((n + move (decide (n % 2 = 1)) x) % 2 = 1) =
        (decide (n % 2 = 1) ^^ decide (move (decide (n % 2 = 1)) x % 2 = 1)) := by
      set m := move (decide (n % 2 = 1)) x
      rcases Int.emod_two_eq_zero_or_one n with even | odd
      · rcases Int.emod_two_eq_zero_or_one m with even' | odd'
        · have : (n + m) % 2 = 0 := by omega
          simp [even, even', this]
        · have : (n + m) % 2 = 1 := by omega
          simp [even, odd', this]
      · rcases Int.emod_two_eq_zero_or_one m with even' | odd'
        · have : (n + m) % 2 = 1 := by omega
          simp [odd, even', this]
        · have : (n + m) % 2 = 0 := by omega
          simp [odd, odd', this]
    rw [List.foldl_cons, nearest_add, ih, parity, drift, List.sum_cons]
    push_cast
    ring

/-- `round(total + c, 6)` after each cost, in millionths. -/
theorem foldl_round (costs : List ℚ) : ∀ n : ℤ,
    costs.foldl (fun t c => FlowCost.round (t + c) 6) ((n : ℚ) / 10 ^ 6) =
      (((costs.map (· * 10 ^ 6)).foldl (fun (n : ℤ) x => nearest (n + x)) n : ℤ) : ℚ) / 10 ^ 6 := by
  induction costs with
  | nil =>
    intro n
    rfl
  | cons c costs ih =>
    intro n
    have scaled : ((n : ℚ) / 10 ^ 6 + c) * 10 ^ 6 = n + c * 10 ^ 6 := by
      field_simp
    rw [List.foldl_cons, List.map_cons, List.foldl_cons, FlowCost.round, scaled]
    exact ih _

theorem round_six (n : ℤ) : FlowCost.round ((n : ℚ) / 10 ^ 6) 6 = (n : ℚ) / 10 ^ 6 := by
  rw [FlowCost.round, div_mul_cancel₀ _ (by norm_num), nearest_intCast]

/-- The rounding errors of these amounts, in millionths, come to less than the rounding of their sum. -/
def Exact (costs : List ℚ) : Prop :=
  -(1 / 2) ≤ drift false (costs.map (· * 10 ^ 6)) ∧ drift false (costs.map (· * 10 ^ 6)) < 1 / 2

/-- A running total agrees with the rounded sum. -/
theorem running_eq_iff {costs : List ℚ} (positive : ∀ c ∈ costs, 0 ≤ c) :
    costs.foldl (fun t c => FlowCost.round (t + c) 6) 0 = FlowCost.round (numericRound costs.sum 6) 6 ↔ Exact costs := by
  have sum : 0 ≤ costs.sum := List.sum_nonneg positive
  have units : (costs.map (· * 10 ^ 6)).sum = costs.sum * 10 ^ 6 := by
    simpa using List.sum_map_mul_right costs id (10 ^ 6)
  have start : costs.foldl (fun t c => FlowCost.round (t + c) 6) 0 =
      (((costs.map (· * 10 ^ 6)).foldl (fun (n : ℤ) x => nearest (n + x)) 0 : ℤ) : ℚ) / 10 ^ 6 := by
    have := foldl_round costs 0
    simpa using this
  have total := foldl_nearest (costs.map (· * 10 ^ 6)) 0
  rw [units] at total
  set n : ℤ := (costs.map (· * 10 ^ 6)).foldl (fun (n : ℤ) x => nearest (n + x)) 0
  have total' : (n : ℚ) = costs.sum * 10 ^ 6 - drift false (costs.map (· * 10 ^ 6)) := by
    simpa using total
  rw [start, numericRound, if_pos sum, round_six, div_left_inj' (by norm_num), Int.cast_inj, eq_comm, Int.floor_eq_iff, Exact]
  generalize drift false (costs.map (· * 10 ^ 6)) = d at *
  constructor
  · rintro ⟨low, high⟩
    constructor <;> linarith
  · rintro ⟨low, high⟩
    constructor <;> linarith

end Rounding

section Counters

variable {rows : List Call}

/-- The costs of the priced rows, none below zero. -/
def costs (rows : List Call) : List ℚ := rows.filterMap fun c => c.costUsd.map (max 0)

theorem costs_concat (rows : List Call) (row : Call) :
    costs (rows ++ [row]) = costs rows ++ (row.costUsd.map (max 0)).toList := by
  rw [costs, List.filterMap_append]
  cases cost : row.costUsd <;> simp [costs, cost]

theorem costs_nonneg {c : ℚ} (mem : c ∈ costs rows) : 0 ≤ c := by
  obtain ⟨row, -, here⟩ := List.mem_filterMap.mp mem
  obtain ⟨cost, -, rfl⟩ := Option.map_eq_some_iff.mp here
  exact le_max_left 0 cost

theorem sum_clamped (rows : List Call) : (rows.map clamped).sum = (costs rows).sum := by
  induction rows with
  | nil => rfl
  | cons row rows ih =>
    rw [List.map_cons, List.sum_cons, ih]
    cases cost : row.costUsd with
    | none => simp [clamped, cost, costs]
    | some c => simp [clamped, cost, costs, max_comm]

theorem priced_eq (rows : List Call) : (rows.filter (·.costUsd.isSome)).length = (costs rows).length := by
  induction rows with
  | nil => rfl
  | cons row rows ih =>
    rw [costs, List.filterMap_cons, List.filter_cons]
    cases cost : row.costUsd with
    | none => exact ih
    | some c =>
      rw [costs] at ih
      simp [ih]

theorem rowTokens_eq (row : Call) : rowTokens row = tokensTotal row := by
  unfold rowTokens tokensTotal
  cases row.tokensTotal <;> simp

/-- The running total of the fold. -/
def running (costs : List ℚ) : ℚ := costs.foldl (fun t c => FlowCost.round (t + c) 6) 0

theorem running_concat (costs : List ℚ) (c : ℚ) : running (costs ++ [c]) = FlowCost.round (running costs + c) 6 := by
  rw [running, List.foldl_append]
  rfl

theorem nonzero_getD (n : Int) : (nonzero n).getD 0 = n := by
  unfold nonzero
  split
  · rfl
  · rename_i zero
    exact (not_ne_iff.mp zero).symm

theorem nonzero_inj {m n : Int} : nonzero m = nonzero n ↔ m = n := by
  constructor
  · intro same
    have := congrArg (·.getD 0) same
    simpa [nonzero_getD] using this
  · rintro rfl
    rfl

/-- What the fold leaves of some rows. -/
def folded (rows : List Call) : Counter where
  requests := rows.length
  errors := (rows.filter isError).length
  tokensIn := (rows.map (·.tokensIn.getD 0)).sum
  tokensOut := (rows.map (·.tokensOut.getD 0)).sum
  tokensTotal := (rows.map tokensTotal).sum
  tokensCached := (rows.map (·.tokensCached.getD 0)).sum
  latencyMsTotal := 0
  latencyMsMax := 0
  lastSeen := nonzero ((rows.map (·.ts)).foldl max 0)
  costUsd := if costs rows = [] then none else some (running (costs rows))

theorem costForEvent_nil (row : Call) : costForEvent [] row = row.costUsd.map (max 0) := by
  unfold costForEvent
  cases row.costUsd <;> rfl

/-- The running total after one more row. -/
theorem running_row (rows : List Call) (row : Call) : running (costs (rows ++ [row])) =
    match costForEvent [] row with
    | some cost => FlowCost.round (running (costs rows) + cost) 6
    | none => running (costs rows) := by
  rw [costs_concat, costForEvent_nil]
  cases row.costUsd with
  | none => simp
  | some c => exact running_concat _ _

theorem addCounter_folded (rows : List Call) (row : Call) : addCounter [] (folded rows) row = folded (rows ++ [row]) := by
  refine Counter.ext ?_ ?_ ?_ ?_ ?_ ?_ ?_ ?_ ?_ ?_
  · simp [addCounter, folded]
  · by_cases bad : 400 ≤ row.status.getD 0
    · simp [addCounter, folded, isError, bad]
    · simp [addCounter, folded, isError, bad]
  · simp [addCounter, folded]
  · simp [addCounter, folded]
  · simp [addCounter, folded, rowTokens_eq]
  · simp [addCounter, folded]
  · simp [addCounter, folded]
  · simp [addCounter, folded]
  · simp [addCounter, folded, nonzero_getD]
  · have before : (folded rows).costUsd.getD 0 = running (costs rows) := by
      by_cases none_ : costs rows = []
      · simp [folded, none_, running]
      · simp [folded, none_]
    have after := running_row rows row
    rw [costForEvent_nil] at after
    simp only [addCounter, costForEvent_nil, before]
    cases stamped : row.costUsd with
    | none =>
      have same : costs (rows ++ [row]) = costs rows := by rw [costs_concat, stamped]; exact List.append_nil _
      simp [folded, same]
    | some c =>
      have some_ : costs (rows ++ [row]) ≠ [] := by simp [costs_concat, stamped]
      rw [stamped] at after
      simp only [Option.map_some] at after ⊢
      simp [folded, some_, after]

theorem foldl_addCounter (rows : List Call) : rows.foldl (addCounter []) Counter.zero = folded rows := by
  induction rows using List.reverseRecOn with
  | nil => rfl
  | append_singleton rows row ih => rw [List.foldl_append, ih, List.foldl_cons, List.foldl_nil, addCounter_folded]

theorem foldl_addTotals (rows : List Call) : rows.foldl (addTotals []) Totals.zero =
    { requests := (folded rows).requests
      rejects := 0
      errors := (folded rows).errors
      tokensIn := (folded rows).tokensIn
      tokensOut := (folded rows).tokensOut
      tokensTotal := (folded rows).tokensTotal
      tokensCached := (folded rows).tokensCached
      costUsd := running (costs rows) } := by
  induction rows using List.reverseRecOn with
  | nil => rfl
  | append_singleton rows row ih =>
    have step := addCounter_folded rows row
    rw [List.foldl_append, ih, List.foldl_cons, List.foldl_nil]
    refine Totals.ext ?_ rfl ?_ ?_ ?_ ?_ ?_ (running_row rows row).symm
    · exact congrArg Counter.requests step
    · exact congrArg Counter.errors step
    · exact congrArg Counter.tokensIn step
    · exact congrArg Counter.tokensOut step
    · exact congrArg Counter.tokensTotal step
    · exact congrArg Counter.tokensCached step

end Counters

section Agreement

variable {rows : List Call}

theorem le_foldl_max (a : Int) (l : List Int) : ∀ b, a ≤ l.foldl max b ↔ a ≤ b ∨ ∃ x ∈ l, a ≤ x := by
  induction l with
  | nil =>
    intro b
    simp
  | cons x l ih =>
    intro b
    rw [List.foldl_cons, ih, le_max_iff]
    simp [or_assoc]

/-- The newest time of the fold starts from zero. -/
theorem lastSeen_eq_iff (some_ : rows ≠ []) :
    nonzero ((rows.map (·.ts)).foldl max 0) = (maximum (rows.map (·.ts))).bind nonzero ↔ ∃ row ∈ rows, 0 ≤ row.ts := by
  obtain ⟨row, rest, rfl⟩ := List.exists_cons_of_ne_nil some_
  have newest : ((row :: rest).map (·.ts)).foldl max 0 = max 0 ((rest.map (·.ts)).foldl max row.ts) := by
    rw [List.map_cons, List.foldl_cons]
    exact List.foldl_assoc
  have reached : 0 ≤ (rest.map (·.ts)).foldl max row.ts ↔ ∃ r ∈ row :: rest, 0 ≤ r.ts := by
    rw [le_foldl_max]
    simp
  rw [newest, List.map_cons, maximum, Option.bind_some, nonzero_inj, max_eq_right_iff, reached]

/-- The cost of the query's counter. -/
theorem costUsd_eq_iff (rows : List Call) :
    (folded rows).costUsd = (counterFromSql (counterOf rows)).costUsd ↔ Exact (costs rows) := by
  have sql : (counterFromSql (counterOf rows)).costUsd =
      if costs rows = [] then none else some (FlowCost.round (numericRound (costs rows).sum 6) 6) := by
    simp only [counterFromSql, counterOf, aggCounter, measures, priced_eq, sum_clamped]
    by_cases none_ : costs rows = []
    · simp [none_]
    · simp [none_]
  rw [sql, folded]
  dsimp only
  by_cases none_ : costs rows = []
  · simp only [none_, if_true, true_iff, Exact, List.map_nil, drift]
    norm_num
  · rw [if_neg none_, if_neg none_, Option.some.injEq]
    exact running_eq_iff fun c => costs_nonneg

/-- What a group needs for its two counters to agree. -/
def Fine (rows : List Call) : Prop := Exact (costs rows) ∧ ∃ row ∈ rows, 0 ≤ row.ts

theorem snapshot_eq_iff (some_ : rows ≠ []) :
    (rows.foldl (addCounter []) Counter.zero).snapshot = (counterFromSql (counterOf rows)).snapshot ↔ Fine rows := by
  rw [foldl_addCounter, Fine, ← costUsd_eq_iff, ← lastSeen_eq_iff some_]
  constructor
  · intro same
    exact ⟨congrArg Snapshot.costUsd same, congrArg Snapshot.lastSeen same⟩
  · rintro ⟨cost, last⟩
    have same : folded rows = counterFromSql (counterOf rows) :=
      Counter.ext rfl rfl rfl rfl rfl rfl rfl rfl last cost
    rw [same]

theorem bucket_eq_iff (key : Call → String) (rows : List Call) :
    bucket [] key rows = snap (groupBy key counterOf rows) ↔ ∀ k ∈ rows.map key, Fine (group key k rows) := by
  rw [bucket, snap, tally_eq_groupBy_iff]
  refine forall₂_congr fun k mem => snapshot_eq_iff ?_
  obtain ⟨row, within, here⟩ := List.mem_map.mp mem
  exact List.ne_nil_of_mem (List.mem_filter.mpr ⟨within, decide_eq_true here⟩)

theorem orElse_unknown (x : Option String) : orElse x "unknown" = orUnknown x := by
  unfold orElse orUnknown
  cases x with
  | none => rfl
  | some text => by_cases empty : text = "" <;> simp [empty]

theorem familyKey_eq : (fun row : Call => orElse row.modelFamily (orElse row.requestedModel "unknown")) = familyKey := by
  funext row
  rw [orElse_unknown]
  unfold orElse familyKey
  cases row.modelFamily with
  | none => rfl
  | some text => by_cases empty : text = "" <;> simp [empty]

theorem totals_eq_iff (date : Int → String) (rows : List Call) :
    (aggregateUsageRows [] rows).totals = (aggFromSql (usageAggregate date rows)).totals ↔ Exact (costs rows) := by
  have sum : (counterOf rows).costUsd = numericRound (costs rows).sum 6 := by
    simp only [counterOf, aggCounter, measures, sum_clamped]
  rw [← running_eq_iff fun c => costs_nonneg]
  change rows.foldl (addTotals []) Totals.zero = _ ↔ running (costs rows) = _
  rw [foldl_addTotals, ← sum]
  constructor
  · intro same
    exact congrArg Totals.costUsd same
  · intro cost
    exact Totals.ext rfl rfl rfl rfl rfl rfl rfl cost

theorem byStatus_eq (date : Int → String) (rows : List Call) :
    (aggregateUsageRows [] rows).byStatus = (aggFromSql (usageAggregate date rows)).byStatus := by
  have counts (l : List Call) : l.foldl (fun n _ => n + 1) 0 = (counterOf l).requests := by
    induction l using List.reverseRecOn with
    | nil => rfl
    | append_singleton l row ih =>
      rw [List.foldl_append, ih]
      simp [counterOf, aggCounter, measures]
  have agree := (tally_eq_groupBy_iff statusKey 0 (fun n _ => n + 1) (fun rows => (counterOf rows).requests) id id rows).mpr
    fun k _ => counts _
  have plain (d : List (String × Int)) : mapValues id d = d := List.map_id d
  rwa [plain, plain] at agree

/-- The condition: in the whole list, and in every group of a breakdown, rounding the costs one after the
other comes out where rounding their sum does; and every group has a row from the epoch on. -/
structure Agrees (rows : List Call) : Prop where
  total : Exact (costs rows)
  groups : ∀ key ∈ [callerKey, providerKey, familyKey, routeKey, servedKey], ∀ k ∈ rows.map key, Fine (group key k rows)

/-- The fold and the SQL path give the same aggregate under that condition, and only then. -/
theorem aggregates_agree_iff (date : Int → String) (rows : List Call) :
    aggregateUsageRows [] rows = aggFromSql (usageAggregate date rows) ↔ Agrees rows := by
  have caller : (fun row : Call => orElse row.caller "unknown") = callerKey := funext fun row => orElse_unknown row.caller
  have provider : (fun row : Call => orElse row.providerId "unknown") = providerKey :=
    funext fun row => orElse_unknown row.providerId
  have route : (fun row : Call => orElse row.requestedModel "unknown") = routeKey :=
    funext fun row => orElse_unknown row.requestedModel
  have served : (fun row : Call => orElse row.servedModelId "unknown") = servedKey :=
    funext fun row => orElse_unknown row.servedModelId
  have totals := totals_eq_iff date rows
  have status := byStatus_eq date rows
  simp only [aggregateUsageRows, aggFromSql, usageAggregate] at totals status
  simp only [aggregateUsageRows, aggFromSql, usageAggregate, Aggregate.mk.injEq, caller, provider, route, served,
    familyKey_eq, bucket_eq_iff, totals, status, and_true]
  constructor
  · rintro ⟨total, byCaller, byProvider, byFamily, byRoute, byServed⟩
    refine ⟨total, fun key mem => ?_⟩
    simp only [List.mem_cons, List.not_mem_nil, or_false] at mem
    rcases mem with rfl | rfl | rfl | rfl | rfl
    · exact byCaller
    · exact byProvider
    · exact byFamily
    · exact byRoute
    · exact byServed
  · rintro ⟨total, groups⟩
    exact ⟨total, groups _ (by simp), groups _ (by simp), groups _ (by simp), groups _ (by simp), groups _ (by simp)⟩

/-- Rows from the epoch on, with costs in whole millionths, agree. -/
theorem agrees_of_millionths {rows : List Call} (since : ∀ row ∈ rows, 0 ≤ row.ts)
    (whole : ∀ c ∈ costs rows, ∃ n : ℤ, c * 10 ^ 6 = n) : Agrees rows := by
  have exact_ {part : List Call} (within : ∀ row ∈ part, row ∈ rows) : Exact (costs part) := by
    have none_ : ∀ odd, drift odd ((costs part).map (· * 10 ^ 6)) = 0 := by
      refine drift_whole fun x mem => ?_
      obtain ⟨c, charged, rfl⟩ := List.mem_map.mp mem
      obtain ⟨row, has, cost⟩ := List.mem_filterMap.mp charged
      exact whole c (List.mem_filterMap.mpr ⟨row, within row has, cost⟩)
    rw [Exact, none_]
    norm_num
  refine ⟨exact_ fun row mem => mem, fun key _ k mem => ⟨exact_ fun row has => (List.mem_filter.mp has).1, ?_⟩⟩
  obtain ⟨row, has, here⟩ := List.mem_map.mp mem
  exact ⟨row, List.mem_filter.mpr ⟨has, decide_eq_true here⟩, since row has⟩

/-- A served call with a cost and nothing else. -/
def priced (cost : ℚ) : Call := ⟨1, 1800000000, none, some "acme", some "openai", some "gpt", none, none, some 200, none, none,
  none, none, some cost, none, false⟩

/-- Two calls at 0.4 millionths each: the fold rounds each away, the query counts a millionth. -/
theorem fold_loses_cost : ¬ ∀ (date : Int → String) (rows : List Call),
    aggregateUsageRows [] rows = aggFromSql (usageAggregate date rows) := by
  intro h
  have same := congrArg (·.totals.costUsd) (h (fun _ => "") [priced (4 / 10000000), priced (4 / 10000000)])
  revert same
  decide +kernel

end Agreement

end Unhardcoded.Guarantees.UsageAggregate

import Unhardcoded.Guarantees.AnalyticsCoverage

/-!
# Hourly analytics against the ledger

Where every hour has been rolled up after the last insert into it, the rows of
`analytics_hourly` are the groups of the calls, so the reads differ by their filters alone:
the hourly table is filtered by its keys, with their fallbacks, the ledger by its columns
and its retention.
-/

namespace Unhardcoded.Guarantees.Analytics

open Effects.GroupBy Effects.Machine Python Source Source.Analytics Source.UsageAggregate
open Unhardcoded.Source.CallLedger (Call)
open Unhardcoded.Guarantees.AnalyticsCoverage (has_iff dvd_start dvd_stop rollup_cases insertCall_cases)

section Hours

/-- No call of this hour's bucket is from before the epoch, where SQL's division goes up. -/
def Clear (hour : Int) (calls : List Call) : Prop := ∀ c ∈ calls, bucketOf c.ts = hour → 0 ≤ c.ts

theorem bucketOf_of_nonneg {ts : Int} (h : 0 ≤ ts) : bucketOf ts = ts / 3600 * 3600 := by
  rw [bucketOf, Int.tdiv_eq_ediv_of_nonneg h]

theorem dvd_bucketOf (ts : Int) : 3600 ∣ bucketOf ts := Dvd.intro_left _ rfl

theorem bucketOf_nonpos {ts : Int} (h : ts ≤ 0) : bucketOf ts ≤ 0 := by
  have opposite : (-ts).tdiv 3600 = -ts.tdiv 3600 := Int.neg_tdiv ts 3600
  have : 0 ≤ (-ts).tdiv 3600 := Int.tdiv_nonneg (by omega) (by decide)
  unfold bucketOf
  omega

theorem le_bucketOf {ts : Int} (h : ts ≤ 0) : ts ≤ bucketOf ts := by
  have opposite : (-ts).tdiv 3600 = -ts.tdiv 3600 := Int.neg_tdiv ts 3600
  have down : (-ts).tdiv 3600 = -ts / 3600 := Int.tdiv_eq_ediv_of_nonneg (by omega)
  unfold bucketOf
  omega

/-- From the epoch on, a window has a call if and only if it has its bucket. -/
theorem has_bucketOf {w : Window} {ts : Int} (h : 0 ≤ ts) : w.has ts = w.has (bucketOf ts) := by
  have starts := dvd_start w
  have stops := dvd_stop w
  rw [Bool.eq_iff_iff, has_iff, has_iff, bucketOf_of_nonneg h]
  omega

end Hours

section Table

variable {s t : Store} {w : Window} {acts : List Action} {hour : Int}

/-- The hour was rolled up after the last insert into it. -/
def Fresh (acts : List Action) (hour : Int) : Prop :=
  ∃ before w after, acts = before ++ .rollup w :: after ∧ w.has hour = true ∧
    ∀ c, .insertCall c ∈ after → ¬ (hour ≤ c.ts ∧ c.ts < hour + 3600)

theorem Fresh.of_concat {a : Action} (h : Fresh (acts ++ [a]) hour) :
    (∃ w, a = .rollup w ∧ w.has hour = true) ∨
      Fresh acts hour ∧ ∀ c, a = .insertCall c → ¬ (hour ≤ c.ts ∧ c.ts < hour + 3600) := by
  obtain ⟨before, w, after, split, has, quiet⟩ := h
  rcases List.eq_nil_or_concat after with rfl | ⟨rest, last, rfl⟩
  · obtain ⟨-, same⟩ := List.append_inj' split rfl
    exact Or.inl ⟨w, List.singleton_inj.mp same, has⟩
  · rw [List.concat_eq_append, ← List.cons_append, ← List.append_assoc] at split
    obtain ⟨earlier, same⟩ := List.append_inj' split rfl
    obtain rfl := List.singleton_inj.mp same
    refine Or.inr ⟨⟨before, w, rest, earlier, has, fun c mem => quiet c (by simp [mem])⟩, ?_⟩
    rintro c rfl
    exact quiet c (by simp)

/-- The table has, for this hour, the groups of the calls. -/
def Agrees (s : Store) (hour : Int) : Prop :=
  ∀ k : HourKey, k.bucketStart = hour → s.hourly.lookup k = (groupBy hourKey hourMeasures s.calls).lookup k

/-- A group of the calls that a window has. -/
theorem rolled_of_has (clear : Clear hour s.calls) (has : w.has hour = true) {k : HourKey} (here : k.bucketStart = hour) :
    (groupBy hourKey hourMeasures (s.calls.filter fun c => w.has c.ts)).lookup k =
      (groupBy hourKey hourMeasures s.calls).lookup k := by
  have within (c : Call) (mem : c ∈ s.calls) (same : hourKey c = k) : w.has c.ts = true := by
    have bucket : bucketOf c.ts = hour := by rw [← here, ← same]; rfl
    rw [has_bucketOf (clear c mem bucket), bucket, has]
  have keys : k ∈ (s.calls.filter fun c => w.has c.ts).map hourKey ↔ k ∈ s.calls.map hourKey := by
    simp only [List.mem_map, List.mem_filter]
    constructor
    · rintro ⟨c, ⟨mem, -⟩, same⟩
      exact ⟨c, mem, same⟩
    · rintro ⟨c, mem, same⟩
      exact ⟨c, ⟨mem, within c mem same⟩, same⟩
  have groups : group hourKey k (s.calls.filter fun c => w.has c.ts) = group hourKey k s.calls := by
    rw [group, group, List.filter_filter]
    refine List.filter_congr fun c mem => ?_
    by_cases same : hourKey c = k
    · rw [within c mem same, Bool.and_true]
    · rw [decide_eq_false same, Bool.false_and]
  rw [lookup_groupBy, lookup_groupBy, groups]
  simp only [keys]

/-- A window puts nothing under an hour it does not have. -/
theorem rolled_of_not_has (clear : Clear hour s.calls) (has : ¬ w.has hour = true) {k : HourKey}
    (here : k.bucketStart = hour) : (groupBy hourKey hourMeasures (s.calls.filter fun c => w.has c.ts)).lookup k = none := by
  rw [lookup_groupBy, if_neg]
  intro mem
  obtain ⟨c, within, same⟩ := List.mem_map.mp mem
  obtain ⟨mem, in_⟩ := List.mem_filter.mp within
  have bucket : bucketOf c.ts = hour := by rw [← here, ← same]; rfl
  rw [has_bucketOf (clear c mem bucket), bucket] at in_
  exact has in_

theorem lookup_rollup (h : s.rollupAnalytics w = some t) (k : HourKey) :
    t.hourly.lookup k = (if w.has k.bucketStart = true then none else s.hourly.lookup k).or
      ((groupBy hourKey hourMeasures (s.calls.filter fun c => w.has c.ts)).lookup k) := by
  obtain ⟨-, -, rfl⟩ := rollup_cases h
  have kept := lookup_filter_keys (fun k : HourKey => !w.has k.bucketStart) s.hourly k
  simp only [Bool.not_eq_true'] at kept
  rw [List.lookup_append, kept]
  by_cases has : w.has k.bucketStart = true
  · simp [has]
  · simp [has]

/-- What the table holds of an hour in a state of a run. -/
structure Kept (acts : List Action) (s : Store) (hour : Int) : Prop where
  agrees : Fresh acts hour → Agrees s hour
  /-- Its rows are of calls. -/
  called : ∀ k : HourKey, k.bucketStart = hour → (s.hourly.lookup k).isSome → ∃ c ∈ s.calls, hourKey c = k

theorem Kept.insertCall {c : Call} (kept : Kept acts s hour) (clear : Clear hour t.calls)
    (h : step s (.insertCall c) = some t) : Kept (acts ++ [.insertCall c]) t hour := by
  obtain rfl := insertCall_cases h
  constructor
  · intro fresh k here
    obtain ⟨w, same, -⟩ | ⟨fresh, quiet⟩ := fresh.of_concat
    · cases same
    · have other : hourKey c ≠ k := by
        rintro rfl
        have since := clear c (by simp) here
        have bucket : c.ts / 3600 * 3600 = hour := by rw [← bucketOf_of_nonneg since]; exact here
        exact quiet c rfl (by omega)
      rw [lookup_groupBy, group_concat, if_neg other, List.map_append, List.map_singleton]
      have before := kept.agrees fresh k here
      rw [lookup_groupBy] at before
      simpa [Ne.symm other] using before
  · intro k here found
    obtain ⟨c', mem, same⟩ := kept.called k here found
    exact ⟨c', List.mem_append_left _ mem, same⟩

theorem Kept.rollup (kept : Kept acts s hour) (clear : Clear hour s.calls) (h : step s (.rollup w) = some t) :
    Kept (acts ++ [.rollup w]) t hour := by
  have calls : t.calls = s.calls := by
    obtain ⟨-, -, rfl⟩ := rollup_cases h
    rfl
  constructor
  · intro fresh k here
    rw [calls, lookup_rollup h, here]
    by_cases has : w.has hour = true
    · rw [if_pos has, rolled_of_has clear has here]
      exact Option.none_or
    · rw [if_neg has, rolled_of_not_has clear has here, Option.or_none]
      obtain ⟨w', same, has'⟩ | ⟨fresh, -⟩ := fresh.of_concat
      · cases same
        exact absurd has' has
      · exact kept.agrees fresh k here
  · intro k here found
    rw [lookup_rollup h, here] at found
    rw [calls]
    by_cases has : w.has hour = true
    · rw [if_pos has, rolled_of_has clear has here, Option.none_or, lookup_groupBy] at found
      split at found
      · rename_i mem
        obtain ⟨c, mem, same⟩ := List.mem_map.mp mem
        exact ⟨c, mem, same⟩
      · cases found
    · rw [if_neg has, rolled_of_not_has clear has here, Option.or_none] at found
      exact kept.called k here found

/-- Along a run, the table keeps what it holds of an hour. -/
theorem kept_run (h : run step Store.empty acts = some s) (clear : Clear hour s.calls) : Kept acts s hour := by
  have along : Clear hour s.calls → Kept acts s hour := by
    apply run_history (I := fun acts s => Clear hour s.calls → Kept acts s hour) _ _ h
    · intro _
      constructor
      · rintro ⟨before, w, after, split, -⟩
        simp at split
      · intro k _ found
        cases found
    · intro before t a u ih stepped clear
      cases a with
      | insertCall c =>
        have earlier : Clear hour t.calls := by
          obtain rfl := insertCall_cases stepped
          intro c mem
          exact clear c (List.mem_append_left _ mem)
        exact (ih earlier).insertCall clear stepped
      | rollup w =>
        have same : u.calls = t.calls := by
          obtain ⟨-, -, rfl⟩ := rollup_cases stepped
          rfl
        rw [same] at clear
        exact (ih clear).rollup clear stepped
  exact along clear

theorem distinct_run (h : run step Store.empty acts = some s) : (s.hourly.map (·.1)).Nodup := by
  apply run_invariant (I := fun s => (s.hourly.map (·.1)).Nodup) _ _ h
  · exact List.nodup_nil
  · intro t a u distinct stepped
    cases a with
    | insertCall c =>
      obtain rfl := insertCall_cases stepped
      exact distinct
    | rollup w => exact (rollup_cases stepped).2.1

end Table

section Measures

theorem sum_parts {M : Type} [AddMonoid M] {w : List Call → M} (nil : w [] = 0) (append : ∀ l l', w (l ++ l') = w l + w l')
    (parts : List (List Call)) : (parts.map w).sum = w parts.flatten := by
  induction parts with
  | nil => exact nil.symm
  | cons part parts ih => rw [List.map_cons, List.sum_cons, ih, List.flatten_cons, append]

theorem maximum_eq_some_iff {l : List Int} {a : Int} : maximum l = some a ↔ a ∈ l ∧ ∀ b ∈ l, b ≤ a := by
  have same : maximum l = l.max? := by cases l <;> rfl
  rw [same, List.max?_eq_some_iff]

theorem maximum_perm {l l' : List Int} (h : l.Perm l') : maximum l = maximum l' := by
  ext a
  rw [maximum_eq_some_iff, maximum_eq_some_iff]
  simp only [h.mem_iff]

/-- The newest of the newest. -/
theorem maximum_parts (parts : List (List Int)) : maximum (parts.filterMap maximum) = maximum parts.flatten := by
  have reached {l : List Int} {b : Int} (mem : b ∈ l) : ∃ a, maximum l = some a ∧ b ≤ a := by
    obtain ⟨a, here⟩ : ∃ a, l.max? = some a := Option.isSome_iff_exists.mp (List.isSome_max?_of_mem mem)
    have same : maximum l = l.max? := by cases l <;> rfl
    exact ⟨a, same.trans here, (List.max?_eq_some_iff.mp here).2 b mem⟩
  ext a
  rw [maximum_eq_some_iff, maximum_eq_some_iff]
  simp only [List.mem_filterMap, List.mem_flatten]
  constructor
  · rintro ⟨⟨part, mem, here⟩, top⟩
    refine ⟨⟨part, mem, (maximum_eq_some_iff.mp here).1⟩, ?_⟩
    rintro b ⟨part', mem', within⟩
    obtain ⟨a', newest, le⟩ := reached within
    exact le.trans (top a' ⟨part', mem', newest⟩)
  · rintro ⟨⟨part, mem, within⟩, top⟩
    have newest : maximum part = some a := maximum_eq_some_iff.mpr ⟨within, fun b mem' => top b ⟨part, mem, mem'⟩⟩
    refine ⟨⟨part, mem, newest⟩, ?_⟩
    rintro b ⟨part', mem', here⟩
    exact top b ⟨part', mem', (maximum_eq_some_iff.mp here).1⟩

/-- The measures of the hours make up the measures of their calls. -/
theorem combined_parts (parts : List (List Call)) : combined (parts.map hourMeasures) = measures parts.flatten := by
  have newest : maximum ((parts.map hourMeasures).filterMap (·.lastSeen)) = maximum (parts.flatten.map (·.ts)) := by
    rw [List.map_flatten, ← maximum_parts, List.filterMap_map, List.filterMap_map]
    rfl
  have sums {M : Type} [AddMonoid M] (w : Measures → M) (nil : w (hourMeasures []) = 0)
      (append : ∀ l l', w (hourMeasures (l ++ l')) = w (hourMeasures l) + w (hourMeasures l')) :
      ((parts.map hourMeasures).map w).sum = w (hourMeasures parts.flatten) := by
    rw [List.map_map]
    exact sum_parts (w := fun l => w (hourMeasures l)) nil append parts
  unfold combined
  rw [newest, sums (·.requests), sums (·.errors), sums (·.tokensIn), sums (·.tokensOut), sums (·.tokensTotal),
    sums (·.tokensCached), sums (·.costUsd), sums (·.priced)]
  · rfl
  all_goals simp [hourMeasures, measures]

theorem measures_perm {l l' : List Call} (h : l.Perm l') : measures l = measures l' := by
  unfold measures
  rw [h.length_eq, (h.filter _).length_eq, (h.filter _).length_eq, (h.map _).sum_eq, (h.map _).sum_eq, (h.map _).sum_eq,
    (h.map _).sum_eq, (h.map _).sum_eq, maximum_perm (h.map _)]

theorem combined_perm {l l' : List Measures} (h : l.Perm l') : combined l = combined l' := by
  unfold combined
  rw [(h.map (·.requests)).sum_eq, (h.map (·.errors)).sum_eq, (h.map (·.tokensIn)).sum_eq, (h.map (·.tokensOut)).sum_eq,
    (h.map (·.tokensTotal)).sum_eq, (h.map (·.tokensCached)).sum_eq, (h.map (·.costUsd)).sum_eq,
    (h.map (·.priced)).sum_eq, maximum_perm (h.filterMap _)]

end Measures

section Reads

variable {s t : Store} {acts : List Action} {since : Int} {filters : Filters}

/-- Every hour from `since` to the newest call was rolled up after the last insert into it. -/
def Complete (acts : List Action) (s : Store) (since : Int) : Prop :=
  ∀ hour, 3600 ∣ hour → since ≤ hour → (∃ c ∈ s.calls, hour ≤ c.ts) → Fresh acts hour

/-- No call from before the epoch falls into a bucket from `since` on. -/
def FromEpoch (s : Store) (since : Int) : Prop := ∀ c ∈ s.calls, since ≤ bucketOf c.ts → 0 ≤ c.ts

theorem fromEpoch_of_pos (s : Store) (h : 0 < since) : FromEpoch s since := by
  intro c _ from_
  by_contra before
  have := bucketOf_nonpos (Int.le_of_not_le before)
  omega

theorem FromEpoch.clear (h : FromEpoch s since) {hour : Int} (from_ : since ≤ hour) : Clear hour s.calls := by
  rintro c mem rfl
  exact h c mem from_

theorem FromEpoch.since_le (h : FromEpoch s since) (aligned : 3600 ∣ since) {c : Call} (mem : c ∈ s.calls) :
    since ≤ bucketOf c.ts ↔ since ≤ c.ts := by
  by_cases before : c.ts ≤ 0
  · have up := le_bucketOf before
    have down := bucketOf_nonpos before
    have := h c mem
    omega
  · rw [bucketOf_of_nonneg (by omega)]
    omega

/-- From `since` on, the hourly table is the groups of the calls. -/
theorem table_perm (ran : run step Store.empty acts = some s) (complete : Complete acts s since)
    (epoch : FromEpoch s since) (keeps : HourKey → Bool) (from_ : ∀ k, keeps k = true → since ≤ k.bucketStart) :
    (s.hourly.filter fun row => keeps row.1).Perm
      ((groupBy hourKey hourMeasures s.calls).filter fun row => keeps row.1) := by
  have sub {d : List (HourKey × Measures)} (distinct : (d.map (·.1)).Nodup) :
      ((d.filter fun row => keeps row.1).map (·.1)).Nodup :=
    distinct.sublist (List.filter_sublist.map _)
  have distinct' : ((groupBy hourKey hourMeasures s.calls).map (·.1)).Nodup := by
    rw [keys_groupBy]
    exact List.nodup_dedup _
  refine perm_of_lookup (sub (distinct_run ran)) (sub distinct') fun k => ?_
  rw [lookup_filter_keys, lookup_filter_keys]
  by_cases kept : keeps k = true
  · have clear := epoch.clear (from_ k kept)
    have state : Kept acts s k.bucketStart := kept_run ran clear
    rw [if_pos kept, if_pos kept]
    by_cases some_ : ∃ c ∈ s.calls, bucketOf c.ts = k.bucketStart
    · obtain ⟨c, mem, here⟩ := some_
      have since_ := clear c mem here
      refine state.agrees (complete _ (here ▸ dvd_bucketOf c.ts) (from_ k kept) ⟨c, mem, ?_⟩) k rfl
      rw [← here, bucketOf_of_nonneg since_]
      omega
    · have none_ : s.hourly.lookup k = none := by
        by_contra found
        obtain ⟨c, mem, same⟩ := state.called k rfl (Option.isSome_iff_ne_none.mpr found)
        exact some_ ⟨c, mem, same ▸ rfl⟩
      rw [none_, lookup_groupBy, if_neg]
      intro mem
      obtain ⟨c, within, same⟩ := List.mem_map.mp mem
      exact some_ ⟨c, within, same ▸ rfl⟩
  · rw [if_neg kept, if_neg kept]

/-- Equal as Python values: the entries of a dictionary have no order. -/
structure Same (a b : SqlAggregate) : Prop where
  totals : a.totals = b.totals
  byCaller : a.byCaller.Perm b.byCaller
  byProvider : a.byProvider.Perm b.byProvider
  byModelFamily : a.byModelFamily.Perm b.byModelFamily
  byRoute : a.byRoute.Perm b.byRoute
  byServedModel : a.byServedModel.Perm b.byServedModel
  byStatus : a.byStatus.Perm b.byStatus
  byDay : a.byDay.Perm b.byDay

/-- The calls that the hourly read counts. -/
def counted (s : Store) (since : Int) (filters : Filters) : List Call :=
  s.calls.filter fun c => analyticsWhere since filters (hourKey c)

theorem since_le_of_where (aligned : 3600 ∣ since) {k : HourKey} (h : analyticsWhere since filters k = true) :
    since ≤ k.bucketStart := by
  have low : floorHour since ≤ k.bucketStart := by
    by_contra below
    simp [analyticsWhere, below] at h
  unfold floorHour at low
  omega

/-- The hourly read is the aggregate of the calls it counts. -/
theorem analytics_eq (date : Int → String) (ran : run step Store.empty acts = some s) (aligned : 3600 ∣ since)
    (complete : Complete acts s since) (epoch : FromEpoch s since) (filters : Filters) :
    Same (s.analyticsAggregate date since filters) (usageAggregate date (counted s since filters)) := by
  have table := table_perm ran complete epoch (analyticsWhere since filters) fun k => since_le_of_where aligned
  have merges (parts : List (List Call)) : aggCounter (combined (parts.map hourMeasures)) = counterOf parts.flatten := by
    rw [combined_parts, counterOf]
  have orderless (l l' : List Call) (h : l.Perm l') : counterOf l = counterOf l' := by
    rw [counterOf, counterOf, measures_perm h]
  have orderless' (l l' : List Measures) (h : l.Perm l') : aggCounter (combined l) = aggCounter (combined l') := by
    rw [combined_perm h]
  have by_ {κ : Type} [DecidableEq κ] (part : HourKey → κ) := regroup merges orderless orderless' _ table part
  have day : groupBy (fun c => dayKey date (bucketOf c.ts)) counterOf (counted s since filters) =
      groupBy (fun c => dayKey date c.ts) counterOf (counted s since filters) := by
    refine groupBy_congr (fun c mem => ?_) _
    obtain ⟨within, kept⟩ := List.mem_filter.mp mem
    have since_ := epoch.clear (since_le_of_where aligned kept) c within rfl
    have same : bucketOf c.ts / 86400 = c.ts / 86400 := by
      rw [bucketOf_of_nonneg since_]
      omega
    rw [dayKey, dayKey, same]
  constructor
  · have all := combine_groupBy hourKey (m := fun l => aggCounter (combined l)) merges orderless (analyticsWhere since filters) s.calls
    exact (orderless' _ _ (table.map _)).trans all
  · exact by_ (·.caller)
  · exact by_ (·.providerId)
  · exact by_ (·.modelFamily)
  · exact by_ (·.requestedModel)
  · exact by_ (·.servedModelId)
  · have requests := regroup (m := fun l => (aggCounter (combined l)).requests) (F := fun l => (counterOf l).requests)
      (fun parts => congrArg SqlCounter.requests (merges parts)) (fun l l' h => congrArg SqlCounter.requests (orderless l l' h))
      (fun l l' h => congrArg SqlCounter.requests (orderless' l l' h)) _ table (·.status)
    have named := requests.map fun entry : Int × Int => (toString entry.1, entry.2)
    have texts := groupBy_map toString_int_injective (fun c => (hourKey c).status) (fun l => (counterOf l).requests)
      (counted s since filters)
    exact named.trans (List.Perm.of_eq texts)
  · have days := by_ fun k => dayKey date k.bucketStart
    exact days.trans (List.Perm.of_eq day)

/-- What the ledger's columns match, the hourly keys match too. -/
theorem matching_of_column {value column : Option String} (h : ∀ text, value = some text → column = some text) :
    matching value (orUnknown column) = true := by
  cases value with
  | none => rfl
  | some text =>
    rw [h text rfl]
    by_cases empty : text = ""
    · simp [matching, empty]
    · simp [matching, orUnknown, empty]

theorem shaPrefix_ne_empty {sha : String} (h : sha ≠ "") : shaPrefix sha ≠ "" := by
  intro none_
  have taken : sha.toList.take 12 = [] := by
    rw [shaPrefix] at none_
    simpa using congrArg String.toList none_
  have : sha.toList = [] := by simpa using taken
  exact h (String.toList_eq_nil_iff.mp this)

theorem where_of_usageWhere {now days : Int} (epoch : FromEpoch s since) (aligned : 3600 ∣ since) {c : Call}
    (mem : c ∈ s.calls) (h : usageWhere now days (some since) none false filters c = true) :
    analyticsWhere since filters (hourKey c) = true := by
  simp only [usageWhere, Bool.and_eq_true, decide_eq_true_eq] at h
  obtain ⟨⟨⟨⟨⟨late, -⟩, caller⟩, sha⟩, provider⟩, family⟩ := h
  have from_ : floorHour since ≤ (hourKey c).bucketStart := by
    have := (epoch.since_le aligned mem).mpr (le_trans (le_max_left _ _) late)
    change floorHour since ≤ bucketOf c.ts
    unfold floorHour
    omega
  have callers : matching filters.caller (hourKey c).caller = true := by
    apply matching_of_column
    intro text given
    simpa [given] using caller
  have providers : matching filters.provider (hourKey c).providerId = true := by
    apply matching_of_column
    intro text given
    simpa [given] using provider
  have families : matching filters.modelFamily (hourKey c).modelFamily = true := by
    cases given : filters.modelFamily with
    | none => rfl
    | some text =>
      have column : c.modelFamily = some text := by simpa [given] using family
      by_cases empty : text = ""
      · simp [matching, empty]
      · simp [matching, hourKey, familyKey, column, empty]
  unfold analyticsWhere
  rw [decide_eq_true from_, callers, providers, families]
  cases given : filters.consumerSha with
  | none => rfl
  | some text =>
    have column : c.consumerSha = some text := by simpa [given] using sha
    by_cases empty : text = ""
    · simp [empty]
    · simp [hourKey, column, orUnknown, shaPrefix_ne_empty empty]

/-- The calls that the ledger's read counts. -/
def read (s : Store) (now days since : Int) (filters : Filters) : List Call :=
  s.calls.filter (usageWhere now days (some since) none false filters)

theorem read_eq {now days : Int} (epoch : FromEpoch s since) (aligned : 3600 ∣ since) :
    read s now days since filters = (counted s since filters).filter (usageWhere now days (some since) none false filters) := by
  rw [read, counted, List.filter_filter]
  refine List.filter_congr fun c mem => ?_
  cases taken : usageWhere now days (some since) none false filters c with
  | true => rw [where_of_usageWhere epoch aligned mem taken, Bool.true_and]
  | false => rw [Bool.false_and]

theorem Same.refl (a : SqlAggregate) : Same a a := ⟨rfl, .refl _, .refl _, .refl _, .refl _, .refl _, .refl _, .refl _⟩

theorem Same.symm {a b : SqlAggregate} (h : Same a b) : Same b a :=
  ⟨h.totals.symm, h.byCaller.symm, h.byProvider.symm, h.byModelFamily.symm, h.byRoute.symm, h.byServedModel.symm,
    h.byStatus.symm, h.byDay.symm⟩

theorem Same.trans {a b c : SqlAggregate} (h : Same a b) (h' : Same b c) : Same a c :=
  ⟨h.totals.trans h'.totals, h.byCaller.trans h'.byCaller, h.byProvider.trans h'.byProvider,
    h.byModelFamily.trans h'.byModelFamily, h.byRoute.trans h'.byRoute, h.byServedModel.trans h'.byServedModel,
    h.byStatus.trans h'.byStatus, h.byDay.trans h'.byDay⟩

/-- Rolling up the same window again leaves the tables as they are. -/
theorem rollup_again {w : Window} (h : s.rollupAnalytics w = some t) {u : Store} (again : t.rollupAnalytics w = some u) :
    u = t := by
  obtain ⟨-, -, rfl⟩ := rollup_cases h
  obtain ⟨-, distinct, rfl⟩ := rollup_cases again
  dsimp only at distinct ⊢
  set fresh := groupBy hourKey hourMeasures (s.calls.filter fun c => w.has c.ts)
  set outside : HourKey × Measures → Bool := fun row => !w.has row.1.bucketStart
  -- a group outside the window would be there twice
  have inside : fresh.filter outside = [] := by
    refine List.eq_nil_iff_forall_not_mem.mpr fun row mem => ?_
    rw [List.map_append] at distinct
    refine (List.nodup_append.mp distinct).2.2 row.1 ?_ row.1 (List.mem_map_of_mem (List.mem_filter.mp mem).1) rfl
    rw [List.filter_append]
    exact List.mem_map_of_mem (List.mem_append_right _ mem)
  have still : cover w (some (cover w s.covered)) = cover w s.covered := by
    cases s.covered with
    | none => simp [cover]
    | some interval => simp [cover]
  rw [List.filter_append, inside, List.filter_filter, List.append_nil, still]
  simp only [Bool.and_self]

/-- Where every hour since `since` is rolled up and no call from before the epoch is in them, the two reads
agree if and only if every call that the hourly read counts is one that the ledger's read counts; and
rolling up a window again never changes the tables. -/
theorem analytics_agree_iff (date : Int → String) (now days since : Int) (filters : Filters) (acts : List Action)
    {s : Store} (ran : run step Store.empty acts = some s) (aligned : 3600 ∣ since) (complete : Complete acts s since)
    (epoch : FromEpoch s since) :
    (Same (s.analyticsAggregate date since filters) (usageAggregate date (read s now days since filters)) ∧
      ∀ w t u, s.rollupAnalytics w = some t → t.rollupAnalytics w = some u → u = t) ↔
      ∀ c ∈ s.calls, analyticsWhere since filters (hourKey c) = true →
        usageWhere now days (some since) none false filters c = true := by
  have hourly := analytics_eq date ran aligned complete epoch filters
  have part : read s now days since filters = _ := read_eq epoch aligned
  constructor
  · rintro ⟨same, -⟩ c mem kept
    have requests := congrArg SqlCounter.requests (hourly.symm.trans same).totals
    have lengths : (counted s since filters).length = (read s now days since filters).length := Int.ofNat_inj.mp requests
    rw [part] at lengths
    exact List.length_filter_eq_length_iff.mp lengths.symm c (List.mem_filter.mpr ⟨mem, kept⟩)
  · intro covers
    have all : read s now days since filters = counted s since filters := by
      rw [part]
      refine List.filter_eq_self.mpr fun c mem => ?_
      obtain ⟨within, kept⟩ := List.mem_filter.mp mem
      exact covers c within kept
    rw [all]
    exact ⟨hourly, fun w t u first again => rollup_again first again⟩

theorem complete_of_last {w : Window} (has : ∀ hour, since ≤ hour → (∃ c ∈ s.calls, hour ≤ c.ts) → w.has hour = true) :
    Complete (acts ++ [.rollup w]) s since := by
  intro hour _ from_ some_
  refine ⟨acts, w, [], rfl, has hour from_ some_, ?_⟩
  intro c mem
  cases mem

section Hour

/-- A served call of the hour from 1800000000 on. -/
def served : Call := ⟨1, 1800000000, none, some "a", some "p", some "m", none, some "m", some 200, none, none, none, none,
  none, none, false⟩

/-- A failed call of that hour: no family was served. -/
def failed : Call := { served with modelFamily := none, status := some 503 }

def theHour : Window := ⟨1800000000, 1800003600⟩

/-- The tables after the call is put in and its hour rolled up. -/
def rolled (c : Call) : Store := ⟨[c], [(hourKey c, hourMeasures [c])], some (1800000000, 1800003600)⟩

theorem complete_rolled (c : Call) (h : c.ts = 1800000000) :
    Complete ([.insertCall c] ++ [.rollup theHour]) (rolled c) 1800000000 := by
  apply complete_of_last
  rintro hour from_ ⟨c', mem, le⟩
  obtain rfl := List.mem_singleton.mp mem
  rw [has_iff]
  have start : theHour.start = 1800000000 := by decide
  have stop : theHour.stop = 1800003600 := by decide
  omega

/-- One served call: both reads count it. -/
theorem analytics_agree_iff_served :
    Same ((rolled served).analyticsAggregate (fun _ => "") 1800000000 ⟨none, none, none, some "m"⟩)
        (usageAggregate (fun _ => "") (read (rolled served) 1800000000 90 1800000000 ⟨none, none, none, some "m"⟩)) ∧
      ∀ w t u, (rolled served).rollupAnalytics w = some t → t.rollupAnalytics w = some u → u = t :=
  (analytics_agree_iff _ _ _ _ _ _ (by decide +kernel) (by decide) (complete_rolled served rfl)
    (fromEpoch_of_pos _ (by decide))).mpr (by decide +kernel)

/-- The failed call counts for the model it asked for in the hourly read, not in the ledger's. -/
theorem analytics_counts_fallback : ¬ ∀ (date : Int → String) (now days since : Int) (filters : Filters) (acts : List Action)
    (s : Store), run step Store.empty acts = some s → 3600 ∣ since → Complete acts s since →
      Same (s.analyticsAggregate date since filters) (usageAggregate date (read s now days since filters)) := by
  intro h
  have same := (h (fun _ => "") 1800000000 90 1800000000 ⟨none, none, none, some "m"⟩ _ (rolled failed) (by decide +kernel)
    (by decide) (complete_rolled failed rfl)).totals
  have requests := congrArg SqlCounter.requests same
  revert requests
  decide +kernel

end Hour

end Reads

end Unhardcoded.Guarantees.Analytics

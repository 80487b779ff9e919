import Mathlib.Data.List.TakeWhile
import Unhardcoded.Source.PeerHealth

/-!
# The health of a route, from its observations

The fold of one route's rows, newest first, in closed form (`foldl_observe`): the
attributable failures before the newest success, the first of them, that success, and the
number of rows. A neutral row adds to that number only. The cooldown grows with the
failures and is over `maximum` after the last one.
-/

namespace Unhardcoded.Guarantees.PeerHealth
open Source.PeerHealth Effects.GroupBy Python

/-- A failure that counts for nothing: it describes the request. -/
def neutral (peer : Bool) (o : Observation) : Bool := !o.ok && !attributable peer o

/-- The failures that count, newest first, up to the newest success. -/
def failures (peer : Bool) (rows : List Observation) : List Observation :=
  (rows.takeWhile fun o => !o.ok).filter (attributable peer)

/-- What the rows of one route come to. -/
def summary (peer : Bool) (rows : List Observation) : HealthState where
  consecutiveFailures := (failures peer rows).length
  lastFailureAt := (failures peer rows).head?.map (·.ts)
  lastSuccessAt := (rows.find? (·.ok)).map (·.ts)
  latestErrorKind := (failures peer rows).head?.bind (·.kind)
  latestHttpStatus := (failures peer rows).head?.bind (·.httpStatus)
  sampleCount := rows.length

section Fold

variable (peer : Bool)

theorem failures_concat (rows : List Observation) (o : Observation) : failures peer (rows ++ [o]) =
    if rows.any (·.ok) || o.ok || !attributable peer o then failures peer rows else failures peer rows ++ [o] := by
  unfold failures
  rw [List.takeWhile_append]
  cases ended : rows.any (·.ok) with
  | true =>
    have cut : (rows.takeWhile fun o => !o.ok).length ≠ rows.length := by
      intro all
      obtain ⟨s, mem, success⟩ := List.any_eq_true.mp ended
      have whole : (rows.takeWhile fun o => !o.ok) <+: rows := List.takeWhile_prefix _
      rw [← whole.eq_of_length all] at mem
      have failed := List.all_eq_true.mp List.all_takeWhile s mem
      simp [success] at failed
    rw [if_neg cut]
    rfl
  | false =>
    have whole : (rows.takeWhile fun o => !o.ok) = rows := by
      refine List.takeWhile_eq_self_iff.mpr fun s mem => ?_
      simpa using List.any_eq_false.mp ended s mem
    rw [whole, if_pos rfl, List.filter_append]
    cases success : o.ok <;> cases counts : attributable peer o <;> simp [success, counts]

theorem find_concat (rows : List Observation) (o : Observation) : ((rows ++ [o]).find? (·.ok)).map (·.ts) =
    if rows.any (·.ok) then (rows.find? (·.ok)).map (·.ts) else if o.ok then some o.ts else none := by
  rw [List.find?_append]
  cases ended : rows.any (·.ok) with
  | true =>
    obtain ⟨s, mem, success⟩ := List.any_eq_true.mp ended
    cases found : rows.find? (·.ok) with
    | none => exact absurd success (by simpa using List.find?_eq_none.mp found s mem)
    | some first => rfl
  | false =>
    have none : rows.find? (·.ok) = none := List.find?_eq_none.mpr fun s mem => by
      simpa using List.any_eq_false.mp ended s mem
    rw [none]
    cases success : o.ok <;> simp [success]

/-- The loop over one route's rows, in closed form. -/
theorem foldl_observe (rows : List Observation) :
    rows.foldl (observe peer) Folding.new = ⟨summary peer rows, rows.any (·.ok)⟩ := by
  induction rows using List.reverseRecOn with
  | nil => rfl
  | append_singleton rows o ih =>
    rw [List.foldl_append, ih]
    change observe peer ⟨summary peer rows, rows.any (·.ok)⟩ o = _
    have found := find_concat rows o
    have counted := failures_concat peer rows o
    unfold summary observe
    rw [found, counted, List.length_append, List.length_singleton, List.any_append, List.any_cons, List.any_nil, Bool.or_false]
    cases ended : rows.any (·.ok) with
    | true => simp
    | false =>
      have noSuccess : rows.find? (·.ok) = none := List.find?_eq_none.mpr fun s mem => by
        simpa using List.any_eq_false.mp ended s mem
      cases success : o.ok with
      | true => simp
      | false =>
        cases counts : attributable peer o with
        | false => simp [noSuccess]
        | true =>
          cases earlier : failures peer rows with
          | nil => simp [noSuccess]
          | cons first rest => simp [noSuccess]

/-- What is no evidence: neutral rows, and nothing else. -/
theorem evidence_summary (rows : List Observation) : (summary peer rows).evidence = !rows.all (neutral peer) := by
  rw [Bool.eq_iff_iff]
  constructor
  · intro evidence
    rw [Bool.not_eq_true', List.all_eq_false]
    simp only [HealthState.evidence, summary, Bool.or_eq_true, Option.isSome_map] at evidence
    rcases evidence with counted | succeeded
    · have some_ : failures peer rows ≠ [] := by simpa using counted
      obtain ⟨o, mem⟩ := List.exists_mem_of_ne_nil _ some_
      obtain ⟨within, counts⟩ := List.mem_filter.mp mem
      exact ⟨o, (List.takeWhile_sublist _).subset within, by simp [neutral, counts]⟩
    · obtain ⟨o, found⟩ := Option.isSome_iff_exists.mp succeeded
      exact ⟨o, List.mem_of_find?_eq_some found, by simp [neutral, List.find?_some found]⟩
  · intro some_
    rw [Bool.not_eq_true', List.all_eq_false] at some_
    obtain ⟨o, mem, counts⟩ := some_
    simp only [HealthState.evidence, summary, Bool.or_eq_true, Option.isSome_map]
    cases ended : rows.find? (·.ok) with
    | some first => exact .inr rfl
    | none =>
      have noSuccess := List.find?_eq_none.mp ended
      have whole : (rows.takeWhile fun o => !o.ok) = rows :=
        List.takeWhile_eq_self_iff.mpr fun s within => by simpa using noSuccess s within
      have failed : o.ok = false := by simpa using noSuccess o mem
      have counted : o ∈ failures peer rows := by
        unfold failures
        rw [whole]
        exact List.mem_filter.mpr ⟨mem, by simpa [neutral, failed] using counts⟩
      have some_ : failures peer rows ≠ [] := List.ne_nil_of_mem counted
      exact .inl (by simpa using some_)

/-- A neutral row is one more sample, wherever it stands. -/
theorem summary_neutral {n : Observation} (h : neutral peer n = true) (before after : List Observation) :
    summary peer (before ++ n :: after) =
      { summary peer (before ++ after) with sampleCount := (before ++ after).length + 1 } := by
  simp only [neutral, Bool.and_eq_true, Bool.not_eq_true'] at h
  obtain ⟨failed, uncounted⟩ := h
  have same : failures peer (before ++ n :: after) = failures peer (before ++ after) := by
    unfold failures
    rw [List.takeWhile_append, List.takeWhile_append]
    split
    · simp [failed, uncounted]
    · rfl
  have found : (before ++ n :: after).find? (·.ok) = (before ++ after).find? (·.ok) := by
    rw [List.find?_append, List.find?_append, List.find?_cons, failed]
  unfold summary
  rw [same, found, List.length_append, List.length_append, List.length_cons, Nat.add_assoc]

end Fold

section Lookup

variable (providerId : String) (peer : Bool) (rows : List Observation) (key : HealthKey)

/-- The rows of one route, or of one peer. -/
def rowsOf : List Observation := group (healthKey providerId peer) key rows

/-- What the fold says of a route: nothing, or what its rows come to. -/
theorem lookup_foldHealthRows : (foldHealthRows rows providerId peer).lookup key =
    if (rowsOf providerId peer rows key).all (neutral peer) then none
    else some (summary peer (rowsOf providerId peer rows key)) := by
  have entry : (mapValues Folding.toHealthState (tally (healthKey providerId peer) Folding.new (observe peer) rows)).lookup key =
      if key ∈ rows.map (healthKey providerId peer) then some (summary peer (rowsOf providerId peer rows key)) else none := by
    rw [lookup_mapValues, lookup_tally]
    split
    · rw [foldl_observe]
      rfl
    · rfl
  have distinct : ((mapValues Folding.toHealthState
      (tally (healthKey providerId peer) Folding.new (observe peer) rows)).map (·.1)).Nodup := by
    rw [keys_mapValues]
    exact nodup_tally _ _ _ _
  refine Option.ext fun state => ?_
  unfold foldHealthRows
  rw [lookup_filter distinct, entry]
  have evidence := evidence_summary peer (rowsOf providerId peer rows key)
  by_cases seen : key ∈ rows.map (healthKey providerId peer)
  · rw [if_pos seen]
    cases silent : (rowsOf providerId peer rows key).all (neutral peer) with
    | true =>
      rw [silent] at evidence
      simp only [if_true, reduceCtorEq, iff_false, not_and]
      rintro same
      rw [← Option.some.inj same, evidence]
      decide
    | false =>
      rw [silent] at evidence
      simp only [Bool.false_eq_true, if_false, and_iff_left_iff_imp]
      rintro same
      rw [← Option.some.inj same, evidence]
      rfl
  · have none : rowsOf providerId peer rows key = [] := group_of_notMem seen
    rw [if_neg seen, none]
    simp

end Lookup

section Cooldown

/-- The longest a cooldown of this kind may last. -/
def maximum (state : HealthState) (peer : Bool) : Nat := (cooldownBounds state.latestErrorKind peer).2

theorem cooldownUntil_none {state : HealthState} (h : state.lastFailureAt = none) (peer : Bool) :
    cooldownUntil (some state) peer = 0 := by
  simp [cooldownUntil, h]

theorem cooldownUntil_some {state : HealthState} {t : Nat} (h : state.lastFailureAt = some t) (peer : Bool) :
    cooldownUntil (some state) peer = if state.consecutiveFailures = 0 then 0 else
      t + min (maximum state peer)
        ((cooldownBounds state.latestErrorKind peer).1 * 2 ^ min (state.consecutiveFailures - 1) 10) := by
  simp only [cooldownUntil, h]
  rfl

/-- More failures, the last one being the same: never a shorter cooldown. -/
theorem cooldownUntil_mono {s t : HealthState} (peer : Bool) (sameTime : s.lastFailureAt = t.lastFailureAt)
    (sameKind : s.latestErrorKind = t.latestErrorKind) (more : s.consecutiveFailures ≤ t.consecutiveFailures) :
    cooldownUntil (some s) peer ≤ cooldownUntil (some t) peer := by
  cases failed : s.lastFailureAt with
  | none => rw [cooldownUntil_none failed, cooldownUntil_none (sameTime ▸ failed)]
  | some failedAt =>
    rw [cooldownUntil_some failed, cooldownUntil_some (sameTime ▸ failed), maximum, maximum, ← sameKind]
    split
    · exact Nat.zero_le _
    · rw [if_neg (by omega)]
      have powers := Nat.pow_le_pow_right (show 0 < 2 by decide)
        (show min (s.consecutiveFailures - 1) 10 ≤ min (t.consecutiveFailures - 1) 10 by omega)
      exact Nat.add_le_add_left (min_le_min_left _ (Nat.mul_le_mul_left _ powers)) _

/-- It is over `maximum` after the last failure. -/
theorem cooldownUntil_le {state : HealthState} {t : Nat} (h : state.lastFailureAt = some t) (peer : Bool) :
    cooldownUntil (some state) peer ≤ t + maximum state peer := by
  rw [cooldownUntil_some h]
  split
  · exact Nat.zero_le _
  · exact Nat.add_le_add_left (min_le_left _ _) t

/-- Whatever is recorded, a route is eligible again from some time on. -/
theorem eligible_again (route peer : Option HealthState) :
    ∃ time, ∀ now, time ≤ now → coolingDown now route peer = false := by
  refine ⟨max (cooldownUntil route false) (cooldownUntil peer true), fun now late => ?_⟩
  have := le_trans (le_max_left _ _) late
  have := le_trans (le_max_right _ _) late
  simp only [coolingDown, Bool.or_eq_false_iff, decide_eq_false_iff_not, not_lt]
  omega

end Cooldown

/-- The table without its sample counts. -/
def evidenceOf (state : HealthState) : HealthState := { state with sampleCount := 0 }

/-- What the fold and the cooldown say of one route, or one peer, of the rows. -/
structure HealthLaws (providerId : String) (peer : Bool) (rows : List Observation) (key : HealthKey) : Prop where
  /-- The failures counted: those before the newest success that are attributable. -/
  counts : ∀ state ∈ (foldHealthRows rows providerId peer).lookup key, state.consecutiveFailures =
    ((rowsOf providerId peer rows key).takeWhile fun o => !o.ok).countP (attributable peer)
  /-- A neutral row changes nothing but the number of samples. -/
  silent : ∀ before n after, rows = before ++ n :: after → neutral peer n = true →
    ((foldHealthRows rows providerId peer).lookup key).map evidenceOf =
      ((foldHealthRows (before ++ after) providerId peer).lookup key).map evidenceOf
  absent : (foldHealthRows rows providerId peer).lookup key = none ↔
    ∀ o ∈ rowsOf providerId peer rows key, neutral peer o = true
  grows : ∀ state ∈ (foldHealthRows rows providerId peer).lookup key, ∀ more, state.consecutiveFailures ≤ more →
    cooldownUntil (some state) peer ≤ cooldownUntil (some { state with consecutiveFailures := more }) peer
  bounded : ∀ state ∈ (foldHealthRows rows providerId peer).lookup key, ∀ t ∈ state.lastFailureAt,
    cooldownUntil (some state) peer ≤ t + maximum state peer
  /-- A route that never failed is not cooling at all. -/
  unfailed : ∀ state ∈ (foldHealthRows rows providerId peer).lookup key, state.lastFailureAt = none →
    cooldownUntil (some state) peer = 0
  eligible : ∀ other, ∃ time, ∀ now, time ≤ now →
    coolingDown now ((foldHealthRows rows providerId peer).lookup key) other = false ∧
      coolingDown now other ((foldHealthRows rows providerId peer).lookup key) = false

theorem lookup_neutral (providerId : String) {peer : Bool} {n : Observation} (h : neutral peer n = true)
    (before after : List Observation) (key : HealthKey) :
    ((foldHealthRows (before ++ n :: after) providerId peer).lookup key).map evidenceOf =
      ((foldHealthRows (before ++ after) providerId peer).lookup key).map evidenceOf := by
  rw [lookup_foldHealthRows, lookup_foldHealthRows]
  have split : ∀ l r, rowsOf providerId peer (l ++ r) key = rowsOf providerId peer l key ++ rowsOf providerId peer r key :=
    fun l r => List.filter_append l r
  by_cases here : healthKey providerId peer n = key
  · have one : rowsOf providerId peer (n :: after) key = n :: rowsOf providerId peer after key := by
      rw [rowsOf, group, List.filter_cons, decide_eq_true here]
      rfl
    rw [split, split, one, summary_neutral peer h]
    have all : (rowsOf providerId peer before key ++ n :: rowsOf providerId peer after key).all (neutral peer) =
        (rowsOf providerId peer before key ++ rowsOf providerId peer after key).all (neutral peer) := by
      simp [h]
    rw [all]
    split_ifs
    · rfl
    · rfl
  · have none : rowsOf providerId peer (n :: after) key = rowsOf providerId peer after key := by
      rw [rowsOf, group, List.filter_cons, decide_eq_false here]
      rfl
    rw [split, split, none]

/-- For every list of rows and every route or peer in it. -/
theorem peer_health (providerId : String) (peer : Bool) (rows : List Observation) (key : HealthKey) :
    HealthLaws providerId peer rows key where
  counts := by
    intro state found
    rw [Option.mem_def, lookup_foldHealthRows] at found
    split at found
    · cases found
    · rw [← Option.some.inj found, summary, failures, List.countP_eq_length_filter]
  silent := by
    rintro before n after rfl h
    exact lookup_neutral providerId h before after key
  absent := by
    rw [lookup_foldHealthRows]
    split
    · rename_i all
      exact iff_of_true rfl (List.all_eq_true.mp all)
    · rename_i some_
      exact iff_of_false nofun fun all => some_ (List.all_eq_true.mpr all)
  grows := fun state _ more h => cooldownUntil_mono peer rfl rfl h
  bounded := fun state _ t failed => cooldownUntil_le failed peer
  unfailed := fun state _ none => cooldownUntil_none none peer
  eligible := by
    intro other
    obtain ⟨first, quiet⟩ := eligible_again ((foldHealthRows rows providerId peer).lookup key) other
    obtain ⟨second, done⟩ := eligible_again other ((foldHealthRows rows providerId peer).lookup key)
    refine ⟨max first second, fun now late => ⟨quiet now ?_, done now ?_⟩⟩
    · exact le_trans (le_max_left _ _) late
    · exact le_trans (le_max_right _ _) late

/-- A request the provider refused and a success: the refusal is counted as a sample. -/
theorem neutral_counted_as_sample : ¬ ∀ providerId peer before n after key, neutral peer n = true →
    (foldHealthRows (before ++ n :: after) providerId peer).lookup key =
      (foldHealthRows (before ++ after) providerId peer).lookup key := by
  intro all
  have same := all "antseed" true [] ⟨some "m", some "p", 2, false, some "bad_request", some 400⟩
    [⟨some "m", some "p", 1, true, none, none⟩] (.peer (some "p")) (by decide)
  revert same
  decide

end Unhardcoded.Guarantees.PeerHealth

import Unhardcoded.Source.Analytics

/-!
# The coverage of the hourly analytics

The recorded interval is the hull of the windows rolled up. It has no gap in any state of
a run if and only if each window met the interval recorded before it.
-/

namespace Unhardcoded.Guarantees.AnalyticsCoverage

open Effects.GroupBy Effects.Machine Source.Analytics

variable {s t : Store} {w : Window} {acts : List Action}

/-- All that a successful roll-up does. -/
theorem rollup_cases (h : s.rollupAnalytics w = some t) :
    w.start < w.stop ∧ (t.hourly.map (·.1)).Nodup ∧
      t = { s with
        hourly := (s.hourly.filter fun row => !w.has row.1.bucketStart) ++
          groupBy hourKey hourMeasures (s.calls.filter fun c => w.has c.ts)
        covered := some (cover w s.covered) } := by
  unfold Store.rollupAnalytics at h
  split at h
  · cases h
  · rename_i wide
    dsimp only at h
    split at h
    · rename_i distinct
      obtain rfl := Option.some.inj h
      exact ⟨by omega, distinct, rfl⟩
    · cases h

theorem covered_rollup (h : s.rollupAnalytics w = some t) : w.start < w.stop ∧ t.covered = some (cover w s.covered) := by
  obtain ⟨wide, -, rfl⟩ := rollup_cases h
  exact ⟨wide, rfl⟩

theorem insertCall_cases {c : Source.CallLedger.Call} (h : step s (.insertCall c) = some t) :
    t = { s with calls := s.calls ++ [c] } := (Option.some.inj h).symm

theorem has_iff {x : Int} : w.has x = true ↔ w.start ≤ x ∧ x < w.stop := by
  simp [Window.has]

theorem dvd_start (w : Window) : 3600 ∣ w.start := by
  unfold Window.start floorHour
  omega

theorem dvd_stop (w : Window) : 3600 ∣ w.stop := by
  unfold Window.stop ceilHour
  omega

/-- Every hour of the recorded interval was rolled up by one of the runs. -/
def Honest (acts : List Action) (s : Store) : Prop :=
  ∀ coveredFrom coveredUntil, s.covered = some (coveredFrom, coveredUntil) →
    ∀ hour, 3600 ∣ hour → coveredFrom ≤ hour → hour < coveredUntil → ∃ w, .rollup w ∈ acts ∧ w.has hour = true

/-- A window that meets the interval recorded so far. -/
def Meets (s : Store) : Action → Prop
  | .insertCall _ => True
  | .rollup w => ∀ coveredFrom coveredUntil, s.covered = some (coveredFrom, coveredUntil) →
      w.start ≤ coveredUntil ∧ coveredFrom ≤ w.stop

/-- What is recorded is an interval of whole hours about every window rolled up. -/
structure Hull (acts : List Action) (s : Store) : Prop where
  nothing : s.covered = none → ∀ w, .rollup w ∉ acts
  hours : ∀ coveredFrom coveredUntil, s.covered = some (coveredFrom, coveredUntil) →
    3600 ∣ coveredFrom ∧ 3600 ∣ coveredUntil ∧ coveredFrom < coveredUntil
  within : ∀ coveredFrom coveredUntil, s.covered = some (coveredFrom, coveredUntil) →
    ∀ w, .rollup w ∈ acts → coveredFrom ≤ w.start ∧ w.stop ≤ coveredUntil

theorem Hull.step {a : Action} (hull : Hull acts s) (h : step s a = some t) : Hull (acts ++ [a]) t := by
  cases a with
  | insertCall c =>
    obtain rfl := insertCall_cases h
    constructor
    · intro none_ w mem
      exact hull.nothing none_ w (by simpa using mem)
    · exact hull.hours
    · intro f u here w mem
      exact hull.within f u here w (by simpa using mem)
  | rollup w =>
    obtain ⟨wide, covered⟩ := covered_rollup h
    have starts := dvd_start w
    have stops := dvd_stop w
    constructor
    · intro none_
      rw [covered] at none_
      cases none_
    · intro f u here
      rw [covered] at here
      cases before : s.covered with
      | none =>
        simp only [before, cover, Option.some.injEq, Prod.mk.injEq] at here
        omega
      | some interval =>
        obtain ⟨f', u'⟩ := interval
        have hours := hull.hours f' u' before
        simp only [before, cover, Option.some.injEq, Prod.mk.injEq] at here
        omega
    · intro f u here v mem
      rw [covered] at here
      have either : .rollup v ∈ acts ∨ v = w := by simpa using mem
      cases before : s.covered with
      | none =>
        simp only [before, cover, Option.some.injEq, Prod.mk.injEq] at here
        rcases either with earlier | rfl
        · exact absurd earlier (hull.nothing before v)
        · omega
      | some interval =>
        obtain ⟨f', u'⟩ := interval
        simp only [before, cover, Option.some.injEq, Prod.mk.injEq] at here
        rcases either with earlier | rfl
        · have := hull.within f' u' before v earlier
          omega
        · omega

theorem hull_run (h : run step Store.empty acts = some s) : Hull acts s := by
  apply run_history (I := Hull) _ _ h
  · constructor
    · intro _ w mem
      cases mem
    · intro f u here
      cases here
    · intro f u here
      cases here
  · intro before t a u hull stepped
    exact hull.step stepped

/-- A row put into the ledger leaves the coverage as honest as it was. -/
theorem honest_insertCall {c : Source.CallLedger.Call} (h : step s (.insertCall c) = some t) :
    Honest (acts ++ [.insertCall c]) t ↔ Honest acts s := by
  obtain rfl := insertCall_cases h
  simp [Honest]

/-- A roll-up keeps the coverage honest if and only if its window meets it: else the hour next to
the nearer end was rolled up by no run. -/
theorem honest_rollup (hull : Hull acts s) (honest : Honest acts s) (h : step s (.rollup w) = some t) :
    Honest (acts ++ [.rollup w]) t ↔ Meets s (.rollup w) := by
  obtain ⟨wide, covered⟩ := covered_rollup h
  constructor
  · intro kept f u before
    obtain ⟨-, hours, proper⟩ := hull.hours f u before
    have rolled (hour : Int) (aligned : 3600 ∣ hour) (above : min f w.start ≤ hour) (below : hour < max u w.stop) :
        ∃ v, (.rollup v ∈ acts ∨ v = w) ∧ v.start ≤ hour ∧ hour < v.stop := by
      obtain ⟨v, mem, has⟩ := kept _ _ (by rw [covered, before]; rfl) hour aligned above below
      exact ⟨v, by simpa using mem, has_iff.mp has⟩
    constructor
    · by_contra apart
      obtain ⟨v, earlier | rfl, low, high⟩ := rolled u hours (by omega) (by omega)
      · have := (hull.within f u before v earlier).2
        omega
      · omega
    · by_contra apart
      obtain ⟨v, earlier | rfl, low, high⟩ := rolled w.stop (dvd_stop w) (by omega) (by omega)
      · have := (hull.within f u before v earlier).1
        omega
      · omega
  · intro meets f u here hour aligned above below
    by_cases has : w.has hour = true
    · exact ⟨w, by simp, has⟩
    · rw [has_iff] at has
      rw [covered] at here
      cases before : s.covered with
      | none =>
        simp only [before, cover, Option.some.injEq, Prod.mk.injEq] at here
        omega
      | some interval =>
        obtain ⟨f', u'⟩ := interval
        obtain ⟨joined, joined'⟩ := meets f' u' before
        simp only [before, cover, Option.some.injEq, Prod.mk.injEq] at here
        obtain ⟨v, mem, covers⟩ := honest f' u' before hour aligned (by omega) (by omega)
        exact ⟨v, List.mem_append_left _ mem, covers⟩

/-- The coverage is honest in every state of a run if and only if each roll-up's window met it. -/
theorem coverage_honest_iff (acts : List Action) {s : Store} (ran : run step Store.empty acts = some s) :
    (∀ before after t, acts = before ++ after → run step Store.empty before = some t → Honest before t) ↔
      Along step Meets Store.empty acts := by
  constructor
  · intro honest
    induction acts using List.reverseRecOn generalizing s with
    | nil => trivial
    | append_singleton first a ih =>
      obtain ⟨mid, before, last⟩ := run_concat.mp ran
      have earlier : ∀ early after t, first = early ++ after → run step Store.empty early = some t → Honest early t := by
        intro early after t split
        apply honest early (after ++ [a]) t
        rw [split, List.append_assoc]
      refine along_of_concat (ih before earlier) fun t here => ?_
      obtain rfl : mid = t := Option.some.inj (before.symm.trans here)
      cases a with
      | insertCall c => trivial
      | rollup w =>
        have then_ := honest (first ++ [.rollup w]) [] s (by simp) ran
        exact (honest_rollup (hull_run before) (earlier first [] mid (by simp) before) last).mp then_
  · intro along before after t split here
    subst split
    have start : Along step Meets Store.empty before := by
      clear ran here
      induction after using List.reverseRecOn with
      | nil => simpa using along
      | append_singleton rest a ih =>
        rw [← List.append_assoc] at along
        exact ih (along_concat along).1
    have kept : Hull before t ∧ Honest before t := by
      apply run_history_along (I := fun acts s => Hull acts s ∧ Honest acts s) _ _ start here
      · have nothing : run step Store.empty [] = some Store.empty := rfl
        refine ⟨hull_run nothing, fun f u none_ => ?_⟩
        cases none_
      · intro earlier mid a u both meets stepped
        refine ⟨both.1.step stepped, ?_⟩
        cases a with
        | insertCall c => exact (honest_insertCall stepped).mpr both.2
        | rollup w => exact (honest_rollup both.1 both.2 stepped).mpr meets
    exact kept.2

/-- Two adjoining hours. -/
theorem coverage_honest_iff_adjoining :
    (∀ before after t, [.rollup ⟨0, 3600⟩, .rollup ⟨3600, 7200⟩] = before ++ after →
      run step Store.empty before = some t → Honest before t) ↔
      Along step Meets Store.empty [.rollup ⟨0, 3600⟩, .rollup ⟨3600, 7200⟩] :=
  coverage_honest_iff [.rollup ⟨0, 3600⟩, .rollup ⟨3600, 7200⟩] (s := ⟨[], [], some (0, 7200)⟩) rfl

/-- The hour between two rolled up is recorded as covered. -/
theorem coverage_has_gap :
    ¬ ∀ acts s, run step Store.empty acts = some s → Honest acts s := by
  intro h
  obtain ⟨w, mem, has⟩ := h [.rollup ⟨0, 3600⟩, .rollup ⟨7200, 10800⟩] ⟨[], [], some (0, 10800)⟩ rfl 0 10800 rfl 3600
    (by decide) (by decide) (by decide)
  have either : w = ⟨0, 3600⟩ ∨ w = ⟨7200, 10800⟩ := by simpa using mem
  revert has
  rcases either with rfl | rfl
  · decide
  · decide

end Unhardcoded.Guarantees.AnalyticsCoverage

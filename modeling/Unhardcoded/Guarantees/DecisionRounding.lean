import Mathlib.Data.Rat.Cast.Lemmas
import Mathlib.Data.Real.Basic
import Mathlib.Tactic.FieldSimp
import Mathlib.Tactic.NormNum
import Mathlib.Tactic.Positivity
import Mathlib.Tactic.Ring
import Unhardcoded.Effects.BoxSum
import Unhardcoded.Source.DecisionAnswers

/-!
# Accepting rounded probabilities

A probability displayed with two decimals stands for the reals that round to it, cut to
[0, 1]. `probability_sum_valid` accepts a list of these exactly where some choice of such
reals adds up to 1, within its tolerance, or the displayed values do (`sumValid_iff`).
-/

namespace Unhardcoded.Guarantees.DecisionRounding
open Unhardcoded.Python Source.DecisionAnswers Effects

/-- A probability in [0, 1] with two decimals. -/
structure Displayed where
  hundredths : Nat
  le : hundredths ≤ 100

def Displayed.prob (p : Displayed) : ℚ := p.hundredths / 100

theorem Displayed.prob_mem (p : Displayed) : 0 ≤ p.prob ∧ p.prob ≤ 1 := by
  have le : (p.hundredths : ℚ) ≤ 100 := by exact_mod_cast p.le
  unfold Displayed.prob
  refine ⟨by positivity, ?_⟩
  linarith

theorem roundEven_natCast (n : Nat) : roundEven n = n := by
  simp [roundEven]

/-- A displayed probability is a whole number of hundredths. -/
theorem Displayed.rounds (p : Displayed) : ¬1 / 10 ^ 8 < |p.prob * 100 - roundEven (p.prob * 100)| := by
  have whole : p.prob * 100 = (p.hundredths : ℚ) := by
    unfold Displayed.prob
    ring
  rw [whole, roundEven_natCast]
  norm_num

theorem probabilities_floats (ps : List ℚ) (unit : ∀ p ∈ ps, 0 ≤ p ∧ p ≤ 1) :
    probabilities (ps.map fun p => .float (.fin p)) = .ok true := by
  induction ps with
  | nil => rfl
  | cons p ps ih =>
    have here : probability (.float (.fin p)) = .ok true := by
      rw [probability, numberWithin]
      simp [unit p List.mem_cons_self]
    rw [List.map_cons, probabilities, here]
    exact ih fun q mem => unit q (List.mem_cons_of_mem _ mem)

/-- The reals that a displayed probability stands for. -/
def Rounds (p : Displayed) (q : ℝ) : Prop := max 0 ((p.prob : ℝ) - 0.005) ≤ q ∧ q ≤ min 1 ((p.prob : ℝ) + 0.005)

def box (p : Displayed) : ℝ × ℝ := (max 0 ((p.prob : ℝ) - 0.005), min 1 ((p.prob : ℝ) + 0.005))

theorem box_nonempty (p : Displayed) : (box p).1 ≤ (box p).2 := by
  obtain ⟨low, high⟩ := p.prob_mem
  have low : (0 : ℝ) ≤ p.prob := by exact_mod_cast low
  have high : (p.prob : ℝ) ≤ 1 := by exact_mod_cast high
  refine max_le (le_min ?_ ?_) (le_min ?_ ?_) <;> linarith

theorem lowest_boxes (ps : List Displayed) :
    BoxSum.lowest (ps.map box) = (((ps.map Displayed.prob).map fun p => max 0 (p - HALF_STEP)).sum : ℚ) := by
  induction ps with
  | nil => simp [BoxSum.lowest]
  | cons p ps ih =>
    simp only [BoxSum.lowest, List.map_cons, List.sum_cons] at ih ⊢
    rw [ih, box]
    push_cast [HALF_STEP]
    norm_num

theorem highest_boxes (ps : List Displayed) :
    BoxSum.highest (ps.map box) = (((ps.map Displayed.prob).map fun p => min 1 (p + HALF_STEP)).sum : ℚ) := by
  induction ps with
  | nil => simp [BoxSum.highest]
  | cons p ps ih =>
    simp only [BoxSum.highest, List.map_cons, List.sum_cons] at ih ⊢
    rw [ih, box]
    push_cast [HALF_STEP]
    norm_num

/-- The two interval sums decide whether some choice of reals adds up to 1. -/
theorem interval_iff (ps : List Displayed) :
    (∃ qs : List ℝ, List.Forall₂ Rounds ps qs ∧ |qs.sum - 1| ≤ 1 / 10 ^ 12) ↔
      ((ps.map Displayed.prob).map fun p => max 0 (p - HALF_STEP)).sum ≤ 1 + 1 / 10 ^ 12 ∧
        1 - 1 / 10 ^ 12 ≤ ((ps.map Displayed.prob).map fun p => min 1 (p + HALF_STEP)).sum := by
  have window : ((1 - 1 / 10 ^ 12 : ℚ) : ℝ) ≤ ((1 + 1 / 10 ^ 12 : ℚ) : ℝ) := by norm_num
  have nonempty : ∀ b ∈ ps.map box, b.1 ≤ b.2 := by
    intro b mem
    obtain ⟨p, -, rfl⟩ := List.mem_map.mp mem
    exact box_nonempty p
  have overlap := BoxSum.exists_sum_iff nonempty window
  rw [lowest_boxes, highest_boxes, Rat.cast_le, Rat.cast_le] at overlap
  rw [← overlap]
  have near (qs : List ℝ) : |qs.sum - 1| ≤ 1 / 10 ^ 12 ↔
      ((1 - 1 / 10 ^ 12 : ℚ) : ℝ) ≤ qs.sum ∧ qs.sum ≤ ((1 + 1 / 10 ^ 12 : ℚ) : ℝ) := by
    rw [abs_le]
    push_cast
    constructor <;> rintro ⟨above, below⟩ <;> constructor <;> linarith
  simp only [near]
  constructor
  · rintro ⟨qs, inside, window⟩
    exact ⟨qs, List.forall₂_map_left_iff.mpr inside, window⟩
  · rintro ⟨qs, inside, window⟩
    have rounds : List.Forall₂ (fun p q => BoxSum.Inside (box p) q) ps qs := List.forall₂_map_left_iff.mp inside
    exact ⟨qs, rounds, window⟩

theorem rational_floats (ps : List ℚ) : (ps.map fun p => Value.float (.fin p)).map rational = ps := by
  rw [List.map_map]
  exact List.map_id ps

/-- The comparisons of values with two decimals. -/
theorem sumValid_displayed (ps : List Displayed) :
    sumValid (some 2) (ps.map Displayed.prob) = true ↔
      |(ps.map Displayed.prob).sum - 1| ≤ 1 / 10 ^ 6 ∨
        ((ps.map Displayed.prob).map fun p => max 0 (p - HALF_STEP)).sum ≤ 1 + 1 / 10 ^ 12 ∧
          1 - 1 / 10 ^ 12 ≤ ((ps.map Displayed.prob).map fun p => min 1 (p + HALF_STEP)).sum := by
  have whole : (ps.map Displayed.prob).any (fun p => 1 / 10 ^ 8 < |p * 100 - roundEven (p * 100)|) = false := by
    rw [List.any_eq_false]
    intro p mem
    obtain ⟨shown, -, rfl⟩ := List.mem_map.mp mem
    simpa using shown.rounds
  unfold sumValid
  by_cases plain : |(ps.map Displayed.prob).sum - 1| ≤ 1 / 10 ^ 6
  · rw [if_pos plain]
    exact ⟨fun _ => .inl plain, fun _ => rfl⟩
  · rw [if_neg plain, whole, if_neg (by simp), Bool.and_eq_true, decide_eq_true_eq, decide_eq_true_eq]
    exact ⟨.inr, fun either => either.resolve_left plain⟩

theorem sumValid_iff (ps : List Displayed) :
    probabilitySumValid (some 2) ((ps.map Displayed.prob).map fun p => .float (.fin p)) = .ok true ↔
      (∃ qs : List ℝ, List.Forall₂ Rounds ps qs ∧ |qs.sum - 1| ≤ 1 / 10 ^ 12) ∨
        |(ps.map Displayed.prob).sum - 1| ≤ 1 / 10 ^ 6 := by
  rw [interval_iff, or_comm]
  cases ps with
  | nil =>
    -- the empty list is refused, and its sum is 0
    constructor
    · intro accepted
      cases accepted
    · rintro (near | ⟨-, near⟩)
      · norm_num at near
      · norm_num at near
  | cons p ps =>
    rw [← sumValid_displayed]
    have unit : ∀ q ∈ (p :: ps).map Displayed.prob, 0 ≤ q ∧ q ≤ 1 := by
      intro q mem
      obtain ⟨shown, -, rfl⟩ := List.mem_map.mp mem
      exact shown.prob_mem
    have checked : probabilitySumValid (some 2) (((p :: ps).map Displayed.prob).map fun p => .float (.fin p)) =
        .ok (sumValid (some 2) ((p :: ps).map Displayed.prob)) := by
      unfold probabilitySumValid
      rw [probabilities_floats _ unit, rational_floats]
      rfl
    rw [checked, Except.ok.injEq]

end Unhardcoded.Guarantees.DecisionRounding

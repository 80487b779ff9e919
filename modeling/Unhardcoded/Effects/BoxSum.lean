import Mathlib.Algebra.BigOperators.Group.List.Basic
import Mathlib.Algebra.Order.BigOperators.Group.List
import Mathlib.Algebra.Order.Group.Defs
import Mathlib.Tactic.Abel

/-!
# Sums of a point from each box

Boxes are intervals of an ordered group. The sums of one point from each box are exactly
the interval between the sums of the ends (`sum_mem`, `exists_sum_eq`), so a window
contains one of these sums just when it overlaps that interval (`exists_sum_iff`).
-/

namespace Unhardcoded.Effects.BoxSum

variable {α : Type} [AddCommGroup α] [LinearOrder α] [IsOrderedAddMonoid α]

def Inside (box : α × α) (x : α) : Prop := box.1 ≤ x ∧ x ≤ box.2

def lowest (boxes : List (α × α)) : α := (boxes.map (·.1)).sum

def highest (boxes : List (α × α)) : α := (boxes.map (·.2)).sum

theorem sum_mem {boxes : List (α × α)} {xs : List α} (inside : List.Forall₂ Inside boxes xs) :
    lowest boxes ≤ xs.sum ∧ xs.sum ≤ highest boxes := by
  induction inside with
  | nil => exact ⟨le_refl _, le_refl _⟩
  | cons here rest ih =>
    simp only [lowest, highest, List.map_cons, List.sum_cons] at ih ⊢
    exact ⟨add_le_add here.1 ih.1, add_le_add here.2 ih.2⟩

theorem lowest_le_highest {boxes : List (α × α)} (nonempty : ∀ box ∈ boxes, box.1 ≤ box.2) :
    lowest boxes ≤ highest boxes := by
  induction boxes with
  | nil => exact le_refl _
  | cons box boxes ih =>
    have rest := ih fun b mem => nonempty b (List.mem_cons_of_mem _ mem)
    simp only [lowest, highest, List.map_cons, List.sum_cons] at rest ⊢
    exact add_le_add (nonempty box List.mem_cons_self) rest

/-- The first point takes what the others cannot reach. -/
theorem exists_sum_eq {boxes : List (α × α)} (nonempty : ∀ box ∈ boxes, box.1 ≤ box.2) {total : α}
    (low : lowest boxes ≤ total) (high : total ≤ highest boxes) :
    ∃ xs, List.Forall₂ Inside boxes xs ∧ xs.sum = total := by
  induction boxes generalizing total with
  | nil => exact ⟨[], .nil, le_antisymm low high⟩
  | cons box boxes ih =>
    have others : ∀ b ∈ boxes, b.1 ≤ b.2 := fun b mem => nonempty b (List.mem_cons_of_mem _ mem)
    have own : box.1 ≤ box.2 := nonempty box List.mem_cons_self
    have rest := lowest_le_highest others
    have split_low : lowest (box :: boxes) = box.1 + lowest boxes := by simp [lowest]
    have split_high : highest (box :: boxes) = box.2 + highest boxes := by simp [highest]
    rw [split_low] at low
    rw [split_high] at high
    let x := max box.1 (total - highest boxes)
    have inside : Inside box x := by
      refine ⟨le_max_left _ _, max_le own ?_⟩
      exact sub_le_iff_le_add.mpr high
    have enough : lowest boxes ≤ total - x := by
      rw [le_sub_comm]
      refine max_le ?_ ?_
      · exact le_sub_iff_add_le.mpr low
      · exact sub_le_sub_left rest total
    have bounded : total - x ≤ highest boxes := by
      rw [sub_le_comm]
      exact le_max_right _ _
    obtain ⟨xs, points, sum⟩ := ih others enough bounded
    refine ⟨x :: xs, .cons inside points, ?_⟩
    rw [List.sum_cons, sum]
    abel

theorem exists_sum_iff {boxes : List (α × α)} (nonempty : ∀ box ∈ boxes, box.1 ≤ box.2) {first last : α}
    (window : first ≤ last) :
    (∃ xs, List.Forall₂ Inside boxes xs ∧ first ≤ xs.sum ∧ xs.sum ≤ last) ↔
      lowest boxes ≤ last ∧ first ≤ highest boxes := by
  constructor
  · rintro ⟨xs, inside, above, below⟩
    obtain ⟨low, high⟩ := sum_mem inside
    exact ⟨le_trans low below, le_trans above high⟩
  · rintro ⟨low, high⟩
    obtain ⟨xs, inside, sum⟩ := exists_sum_eq nonempty (le_max_left (lowest boxes) first)
      (max_le (lowest_le_highest nonempty) high)
    refine ⟨xs, inside, ?_, ?_⟩
    · rw [sum]
      exact le_max_right _ _
    · rw [sum]
      exact max_le low window

end Unhardcoded.Effects.BoxSum

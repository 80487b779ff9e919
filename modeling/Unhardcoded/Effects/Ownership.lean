import Mathlib.Data.Set.Basic

/-!
# A table with several writers

Entries of one table are written by several parties, and what an entry says tells
whose it is. A party that reconciles its part with the keys it wants leaves the entries
of the others, and has one of its own for each wanted key the others left free
(`Reconciled`). So every wanted key is taken, and reconciling again with the same keys
exchanges entries of its own only (`Reconciled.again`).
-/

namespace Unhardcoded.Effects.Ownership

variable {K V : Type} {own : V → Prop} {wanted : Set K} {before after later : K → Option V}

structure Reconciled (own : V → Prop) (wanted : Set K) (before after : K → Option V) : Prop where
  others : ∀ k v, ¬ own v → (after k = some v ↔ before k = some v)
  mine : ∀ k, (∃ v, after k = some v ∧ own v) ↔ k ∈ wanted ∧ ∀ v, before k = some v → own v

/-- Every wanted key is taken. -/
theorem Reconciled.covered (h : Reconciled own wanted before after) {k : K} (want : k ∈ wanted) :
    ∃ v, after k = some v := by
  by_cases free : ∀ v, before k = some v → own v
  · obtain ⟨v, here, _⟩ := (h.mine k).mpr ⟨want, free⟩
    exact ⟨v, here⟩
  · simp only [not_forall] at free
    obtain ⟨v, taken, other⟩ := free
    exact ⟨v, (h.others k v other).mpr taken⟩

/-- An entry of its own stands at a wanted key. -/
theorem Reconciled.wanted_of_own (h : Reconciled own wanted before after) {k : K} {v : V} (here : after k = some v)
    (mine : own v) : k ∈ wanted :=
  ((h.mine k).mp ⟨v, here, mine⟩).1

theorem Reconciled.again (first : Reconciled own wanted before after) (second : Reconciled own wanted after later)
    (k : K) : later k = after k ∨ ∃ v w, after k = some v ∧ later k = some w ∧ own v ∧ own w := by
  cases here : after k with
  | none =>
    have unwanted : k ∉ wanted := by
      intro want
      obtain ⟨v, taken⟩ := first.covered want
      rw [here] at taken
      cases taken
    left
    cases there : later k with
    | none => rfl
    | some w =>
      by_cases mine : own w
      · exact absurd (second.wanted_of_own there mine) unwanted
      · rw [(second.others k w mine).mp there] at here
        cases here
  | some v =>
    by_cases mine : own v
    · right
      have free : ∀ u, after k = some u → own u := by
        intro u same
        rw [here] at same
        exact Option.some.inj same ▸ mine
      obtain ⟨w, there, own⟩ := (second.mine k).mpr ⟨first.wanted_of_own here mine, free⟩
      exact ⟨v, w, rfl, there, mine, own⟩
    · left
      exact (second.others k v mine).mpr here

end Unhardcoded.Effects.Ownership

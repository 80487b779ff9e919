import Mathlib.Data.List.MinMax
import Mathlib.Data.Prod.Lex
import Mathlib.Order.Nat

/-!
# First and last by a stamp

Rows with numbers that increase along the list, ordered by a stamp and then by the number:
the greatest is the last one with the greatest stamp (`latest_eq`), the least is the first one
with the least stamp (`earliest_eq`). So neither depends on what the numbers are.
-/

namespace Unhardcoded.Effects.Latest

variable {α β τ : Type} [LinearOrder τ]

/-- The greatest by stamp, then number. -/
def latest (stamp : α → τ) (number : α → Nat) (l : List α) : Option α := l.argmax fun a => toLex (stamp a, number a)

/-- The least by stamp, then number. -/
def earliest (stamp : α → τ) (number : α → Nat) (l : List α) : Option α := l.argmin fun a => toLex (stamp a, number a)

/-- The last one with the greatest stamp. -/
def lastOf (stamp : α → τ) (l : List α) : Option α := l.reverse.argmax stamp

/-- The first one with the least stamp. -/
def firstOf (stamp : α → τ) (l : List α) : Option α := l.argmin stamp

theorem argmax_map (f : α → β) (stamp : β → τ) (l : List α) : (l.map f).argmax stamp = (l.argmax (stamp ∘ f)).map f := by
  induction l using List.reverseRecOn with
  | nil => rfl
  | append_singleton l a ih =>
    rw [List.map_append, List.map_singleton, List.argmax_concat, List.argmax_concat, ih]
    cases l.argmax (stamp ∘ f) with
    | none => rfl
    | some c =>
      by_cases less : stamp (f c) < stamp (f a)
      · simp [less]
      · simp [less]

theorem lastOf_map (f : α → β) (stamp : β → τ) (l : List α) : lastOf stamp (l.map f) = (lastOf (stamp ∘ f) l).map f := by
  unfold lastOf
  rw [← List.map_reverse, argmax_map]

theorem firstOf_map (f : α → β) (stamp : β → τ) (l : List α) : firstOf stamp (l.map f) = (firstOf (stamp ∘ f) l).map f :=
  @argmax_map α β τᵒᵈ _ f stamp l

section Least

variable {stamp : α → τ} {l later : List α} {m : α}

/-- The least stays the least among fewer. -/
theorem firstOf_filter {p : α → Bool} (least : firstOf stamp l = some m) (kept : p m = true) : firstOf stamp (l.filter p) = some m := by
  unfold firstOf at least ⊢
  induction l using List.reverseRecOn generalizing m with
  | nil => cases least
  | append_singleton l a ih =>
    rw [List.argmin_concat] at least
    cases found : l.argmin stamp with
    | none =>
      rw [found] at least
      obtain rfl := Option.some.inj least
      rw [List.argmin_eq_none.mp found, List.nil_append, List.filter_singleton, kept]
      rfl
    | some c =>
      rw [found] at least
      rw [List.filter_append, List.filter_singleton]
      by_cases less : stamp a < stamp c
      · obtain rfl := Option.some.inj ((if_pos less).symm.trans least)
        rw [kept, cond_true, List.argmin_concat]
        cases inner : (l.filter p).argmin stamp with
        | none => rfl
        | some d =>
          have least : stamp c ≤ stamp d := List.le_of_mem_argmin (List.mem_of_mem_filter (List.argmin_mem inner)) found
          exact if_pos (less.trans_le least)
      · obtain rfl := Option.some.inj ((if_neg less).symm.trans least)
        have inner := ih found kept
        cases p a with
        | true => rw [cond_true, List.argmin_concat, inner]; exact if_neg less
        | false => rw [cond_false, List.append_nil, inner]

/-- The least stays the least where nothing smaller comes after it. -/
theorem firstOf_append (least : firstOf stamp l = some m) (after : ∀ b ∈ later, stamp m ≤ stamp b) : firstOf stamp (l ++ later) = some m := by
  unfold firstOf at least ⊢
  induction later using List.reverseRecOn with
  | nil => rw [List.append_nil, least]
  | append_singleton later b ih =>
    rw [← List.append_assoc, List.argmin_concat, ih fun b mem => after b (List.mem_append_left _ mem)]
    exact if_neg (not_lt.mpr (after b (List.mem_append_right _ (List.mem_singleton_self b))))

end Least

section Numbered

variable (stamp : α → τ) {number : α → Nat} {l : List α}

theorem latest_eq (increasing : l.Pairwise fun a b => number a < number b) : latest stamp number l = lastOf stamp l := by
  unfold latest lastOf
  induction l using List.reverseRecOn with
  | nil => rfl
  | append_singleton l a ih =>
    obtain ⟨before, _, last⟩ := List.pairwise_append.mp increasing
    rw [List.argmax_concat, ih before, List.reverse_append, List.reverse_singleton, List.singleton_append, List.argmax_cons]
    cases found : l.reverse.argmax stamp with
    | none => rfl
    | some c =>
      have smaller : number c < number a := last c (List.mem_reverse.mp (List.argmax_mem found)) a (List.mem_singleton_self a)
      have same : toLex (stamp c, number c) < toLex (stamp a, number a) ↔ ¬stamp a < stamp c := by
        rw [Prod.Lex.toLex_lt_toLex, not_lt]
        exact ⟨fun h => h.elim le_of_lt fun h => le_of_eq h.1, fun h => (lt_or_eq_of_le h).imp_right fun same => ⟨same, smaller⟩⟩
      by_cases less : stamp a < stamp c
      · simp [same, less]
      · simp [same, less]

theorem earliest_eq (increasing : l.Pairwise fun a b => number a < number b) : earliest stamp number l = firstOf stamp l := by
  unfold earliest firstOf
  induction l using List.reverseRecOn with
  | nil => rfl
  | append_singleton l a ih =>
    obtain ⟨before, _, last⟩ := List.pairwise_append.mp increasing
    rw [List.argmin_concat, List.argmin_concat, ih before]
    cases found : l.argmin stamp with
    | none => rfl
    | some c =>
      have smaller : number c < number a := last c (List.argmin_mem found) a (List.mem_singleton_self a)
      have same : toLex (stamp a, number a) < toLex (stamp c, number c) ↔ stamp a < stamp c := by
        rw [Prod.Lex.toLex_lt_toLex]
        exact ⟨fun h => h.elim id fun h => absurd h.2 (by omega), .inl⟩
      by_cases less : stamp a < stamp c
      · simp [same, less]
      · simp [same, less]

end Numbered

end Unhardcoded.Effects.Latest

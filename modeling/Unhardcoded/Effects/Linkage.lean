import Mathlib.Data.List.Basic

/-!
# References to what came earlier

A sequence of uses and results, each result with the key of the use it belongs to. Where a
sequence is put together of parts with at most one result each, its results are linked just
when each of them finds its use in an earlier part.
-/

namespace Unhardcoded.Effects

/-- A use under a key, or a result that refers to a use. -/
inductive Link (κ γ : Type) where
  | use (key : κ)
  | result (key : κ) (content : γ)

variable {κ γ α : Type}

/-- Each result refers to a use that stands earlier. -/
def Linked (links : List (Link κ γ)) : Prop :=
  ∀ before key content after, links = before ++ .result key content :: after → .use key ∈ before

/-- The contents of the results. -/
def contents (links : List (Link κ γ)) : List γ :=
  links.filterMap fun
    | .use _ => none
    | .result _ content => some content

theorem contents_append (first second : List (Link κ γ)) : contents (first ++ second) = contents first ++ contents second :=
  List.filterMap_append

/-- The part in which an element of a sequence stands. -/
theorem split_flatMap {parts : α → List (Link κ γ)} {items : List α} {before after : List (Link κ γ)} {x : Link κ γ}
    (h : items.flatMap parts = before ++ x :: after) :
    ∃ pre item post inside behind, items = pre ++ item :: post ∧ parts item = inside ++ x :: behind ∧
      before = pre.flatMap parts ++ inside := by
  induction items generalizing before with
  | nil => simp at h
  | cons item items ih =>
    rw [List.flatMap_cons] at h
    rcases List.append_eq_append_iff.mp h with ⟨middle, earlier, later⟩ | ⟨middle, earlier, later⟩
    · obtain ⟨pre, found, post, inside, behind, split, part, rest⟩ := ih later
      exact ⟨item :: pre, found, post, inside, behind, by rw [split, List.cons_append], part,
        by rw [earlier, rest, List.flatMap_cons, List.append_assoc]⟩
    · cases middle with
      | nil =>
        obtain ⟨pre, found, post, inside, behind, split, part, rest⟩ := @ih [] later.symm
        have inside_nil : pre.flatMap parts = [] ∧ inside = [] := List.append_eq_nil_iff.mp rest.symm
        refine ⟨item :: pre, found, post, inside, behind, by rw [split, List.cons_append], part, ?_⟩
        rw [List.append_nil] at earlier
        rw [List.flatMap_cons, inside_nil.1, inside_nil.2, List.append_nil, List.append_nil, earlier]
      | cons y middle =>
        rw [List.cons_append, List.cons.injEq] at later
        exact ⟨[], item, items, before, middle, rfl, by rw [earlier, later.1], rfl⟩

/-- Of uses alone, or one result alone. -/
def Simple (links : List (Link κ γ)) : Prop := (∀ link ∈ links, ∃ key, link = .use key) ∨ ∃ key content, links = [.result key content]

theorem linked_flatMap {parts : α → List (Link κ γ)} {items : List α} (simple : ∀ item ∈ items, Simple (parts item)) :
    Linked (items.flatMap parts) ↔
      ∀ pre item post, items = pre ++ item :: post → ∀ key content, .result key content ∈ parts item →
        ∃ earlier ∈ pre, .use key ∈ parts earlier := by
  constructor
  · intro linked pre item post split key content mem
    have whole : items.flatMap parts = pre.flatMap parts ++ .result key content :: post.flatMap parts := by
      rcases simple item (by rw [split]; exact List.mem_append_right _ List.mem_cons_self) with uses | ⟨key', content', single⟩
      · obtain ⟨key', impossible⟩ := uses _ mem
        cases impossible
      · rw [single] at mem
        rw [split, List.flatMap_append, List.flatMap_cons, single, List.mem_singleton.mp mem]
        rfl
    exact List.mem_flatMap.mp (linked _ _ _ _ whole)
  · intro each before key content after whole
    obtain ⟨pre, item, post, inside, behind, split, part, earlier⟩ := split_flatMap whole
    obtain ⟨item', mem, used⟩ := each pre item post split key content (by
      rw [part]
      exact List.mem_append_right _ List.mem_cons_self)
    rw [earlier]
    exact List.mem_append_left _ (List.mem_flatMap.mpr ⟨item', mem, used⟩)

end Unhardcoded.Effects

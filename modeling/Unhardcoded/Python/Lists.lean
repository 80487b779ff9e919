import Mathlib.Algebra.BigOperators.Group.List.Basic
import Mathlib.Algebra.GroupWithZero.Nat
import Mathlib.Algebra.Order.Group.Nat
import Mathlib.Data.List.Forall2
import Unhardcoded.Python.Json

/-!
# Lists that a loop builds

A loop that appends what it makes of each element, and raises where one raises, is `mapM`.
Also two lists that are related element by element, and the sum over a list of which one
entry is replaced.
-/

namespace Unhardcoded.Python

section Loops

variable {ε α β δ : Type}

theorem mem_mapM {f : α → Option β} {xs : List α} {ys : List β} (h : xs.mapM f = some ys) {y : β} (mem : y ∈ ys) :
    ∃ x ∈ xs, f x = some y := by
  induction xs generalizing ys with
  | nil =>
    rw [List.mapM_nil] at h
    cases h
    cases mem
  | cons x xs ih =>
    rw [List.mapM_cons] at h
    obtain ⟨first, made, h⟩ := Option.bind_eq_some_iff.mp h
    obtain ⟨rest, mades, h⟩ := Option.bind_eq_some_iff.mp h
    cases h
    rcases List.mem_cons.mp mem with rfl | later
    · exact ⟨x, List.mem_cons_self, made⟩
    · obtain ⟨other, within, same⟩ := ih mades later
      exact ⟨other, List.mem_cons_of_mem _ within, same⟩

/-- A loop of which no round raises, with a view of what it makes. -/
theorem mapM_image {f : α → Except ε β} {g : β → δ} {h : α → δ} {xs : List α}
    (each : ∀ x ∈ xs, ∃ y, f x = .ok y ∧ g y = h x) : ∃ ys, xs.mapM f = .ok ys ∧ ys.map g = xs.map h := by
  induction xs with
  | nil => exact ⟨[], rfl, rfl⟩
  | cons x xs ih =>
    obtain ⟨y, first, image⟩ := each x List.mem_cons_self
    obtain ⟨ys, rest, images⟩ := ih fun z mem => each z (List.mem_cons_of_mem _ mem)
    exact ⟨y :: ys, by rw [List.mapM_cons, first, rest]; rfl, by rw [List.map_cons, List.map_cons, image, images]⟩

theorem mapM_ok {f : α → Except ε β} {xs : List α} (each : ∀ x ∈ xs, ∃ y, f x = .ok y) : ∃ ys, xs.mapM f = .ok ys := by
  obtain ⟨ys, made, -⟩ := @mapM_image _ _ _ _ f (fun _ => ()) (fun _ => ()) xs fun x mem =>
    (each x mem).imp fun _ here => ⟨here, rfl⟩
  exact ⟨ys, made⟩

theorem forall₂_of_mapM {f : α → Except ε β} {xs : List α} {ys : List β} (made : xs.mapM f = .ok ys) :
    List.Forall₂ (fun x y => f x = .ok y) xs ys := by
  induction xs generalizing ys with
  | nil =>
    cases made
    exact .nil
  | cons x xs ih =>
    rw [List.mapM_cons] at made
    obtain ⟨y, first, made⟩ := ok_of_bind made
    obtain ⟨others, rest, made⟩ := ok_of_bind made
    cases made
    exact .cons first (ih rest)

/-- A view of what a loop has made that each round leaves alone. -/
theorem map_mapM {f : α → Except ε β} {g : β → δ} {h : α → δ} (each : ∀ x y, f x = .ok y → g y = h x) {xs : List α}
    {ys : List β} (made : xs.mapM f = .ok ys) : ys.map g = xs.map h := by
  have related := forall₂_of_mapM made
  clear made
  induction related with
  | nil => rfl
  | @cons x y _ _ first _ ih => rw [List.map_cons, List.map_cons, each x y first, ih]

end Loops

section Related

variable {α β : Type} {R : α → β → Prop} {a : α}

theorem forall₂_one {l : List β} (h : List.Forall₂ R [a] l) : ∃ b, l = [b] ∧ R a b := by
  cases h with
  | cons first rest =>
    cases rest
    exact ⟨_, rfl, first⟩

theorem forall₂_left {l : List α} {l' : List β} (h : List.Forall₂ R l l') (mem : a ∈ l) : ∃ b ∈ l', R a b := by
  induction h with
  | nil => cases mem
  | cons first rest ih =>
    rcases List.mem_cons.mp mem with rfl | later
    · exact ⟨_, List.mem_cons_self, first⟩
    · obtain ⟨b, within, related⟩ := ih later
      exact ⟨b, List.mem_cons_of_mem _ within, related⟩

end Related

/-- A sum over a list with one entry replaced. -/
theorem sum_map_set {α : Type} (value : α → Nat) (l : List α) {k : Nat} {a b : α} (at_k : l[k]? = some a) :
    ((l.set k b).map value).sum + value a = (l.map value).sum + value b := by
  induction l generalizing k with
  | nil => simp at at_k
  | cons head tail ih =>
    cases k with
    | zero =>
      simp only [List.getElem?_cons_zero, Option.some.injEq] at at_k
      simp only [List.set_cons_zero, List.map_cons, List.sum_cons, at_k]
      omega
    | succ k =>
      have rest := ih (by simpa using at_k)
      simp only [List.set_cons_succ, List.map_cons, List.sum_cons]
      omega

end Unhardcoded.Python

import Mathlib.Data.List.Sort
import Mathlib.Data.Prod.Lex
import Mathlib.Order.Nat

/-!
# Stable partitions

`prefer p` moves what satisfies `p` to the front and keeps the order otherwise. Nested,
the outermost partition decides first, so partitions of disjoint classes sort by the
first class that an element belongs to.
-/

namespace Unhardcoded.Effects.Prefer

variable {α β : Type}

/-- The stable partition with what satisfies `p` first. -/
def prefer (p : α → Bool) (l : List α) : List α := l.filter p ++ l.filter fun a => !p a

theorem prefer_perm (p : α → Bool) (l : List α) : (prefer p l).Perm l := List.filter_append_perm p l

theorem map_prefer (f : β → α) (p : α → Bool) (l : List β) : (prefer (p ∘ f) l).map f = prefer p (l.map f) := by
  unfold prefer
  rw [List.map_append, List.filter_map, List.filter_map]
  rfl

/-- Satisfying `p` comes first, and `R` decides between equals. -/
def First (p : α → Bool) (R : α → α → Prop) (a b : α) : Prop := (p a = true ∧ p b = false) ∨ (p a = p b ∧ R a b)

theorem prefer_pairwise {R : α → α → Prop} {l : List α} (p : α → Bool) (sorted : l.Pairwise R) :
    (prefer p l).Pairwise (First p R) := by
  refine List.pairwise_append.mpr ⟨?_, ?_, ?_⟩
  · refine (sorted.filter p).imp_of_mem fun {a b} memA memB related => .inr ⟨?_, related⟩
    rw [(List.mem_filter.mp memA).2, (List.mem_filter.mp memB).2]
  · refine (sorted.filter _).imp_of_mem fun {a b} memA memB related => .inr ⟨?_, related⟩
    have other := (List.mem_filter.mp memA).2
    have other' := (List.mem_filter.mp memB).2
    rw [Bool.not_eq_true'] at other other'
    rw [other, other']
  · intro a memA b memB
    have other := (List.mem_filter.mp memB).2
    rw [Bool.not_eq_true'] at other
    exact .inl ⟨(List.mem_filter.mp memA).2, other⟩

/-- Partitions, the first outermost. -/
def nest (ps : List (α → Bool)) (l : List α) : List α := ps.foldr prefer l

theorem nest_perm (ps : List (α → Bool)) (l : List α) : (nest ps l).Perm l := by
  induction ps with
  | nil => exact List.Perm.refl _
  | cons p ps ih => exact (prefer_perm p _).trans ih

theorem map_nest (f : β → α) (ps : List (α → Bool)) (l : List β) :
    (nest (ps.map (· ∘ f)) l).map f = nest ps (l.map f) := by
  induction ps with
  | nil => rfl
  | cons p ps ih =>
    rw [List.map_cons, nest, List.foldr_cons, map_prefer]
    exact congrArg (prefer p) ih

/-- The first class an element belongs to. -/
def classOf (ps : List (α → Bool)) (a : α) : Nat := ps.findIdx (· a)

/-- No element belongs to two classes. -/
def Disjoint (ps : List (α → Bool)) : Prop := ps.Pairwise fun p q => ∀ a, p a = true → q a = false

theorem classOf_eq_length {ps : List (α → Bool)} {a : α} (outside : ∀ p ∈ ps, p a = false) : classOf ps a = ps.length :=
  List.findIdx_eq_length.mpr outside

theorem nest_pairwise {R : α → α → Prop} {ps : List (α → Bool)} {l : List α} (disjoint : Disjoint ps) (sorted : l.Pairwise R) :
    (nest ps l).Pairwise fun a b => classOf ps a < classOf ps b ∨ (classOf ps a = classOf ps b ∧ R a b) := by
  induction ps with
  | nil => exact sorted.imp fun related => .inr ⟨rfl, related⟩
  | cons p ps ih =>
    obtain ⟨apart, disjoint⟩ := List.pairwise_cons.mp disjoint
    refine (prefer_pairwise p (ih disjoint)).imp ?_
    intro a b first
    simp only [classOf, List.findIdx_cons]
    rcases first with ⟨inside, outside⟩ | ⟨same, later⟩
    · simp [inside, outside]
    · cases inside : p a with
      | true =>
        -- both are in the first class, so in none of the others
        have none (c : α) (here : p c = true) : classOf ps c = ps.length :=
          classOf_eq_length fun q mem => apart q mem c here
        rw [none a inside, none b (same ▸ inside)] at later
        have related := later.resolve_left (lt_irrefl _)
        simp [← same, inside, related.2]
      | false =>
        have outside : p b = false := same ▸ inside
        simp only [outside, cond_false, Nat.add_lt_add_iff_right, Nat.add_right_cancel_iff]
        exact later

section Sorting

variable {κ : Type} [LinearOrder κ] (key : α → κ)

/-- The stable sort by a key, where the position breaks every tie. -/
def stableSort (l : List α) : List α :=
  ((l.zipIdx).mergeSort fun a b => decide (toLex (key a.1, a.2) ≤ toLex (key b.1, b.2))).map (·.1)

theorem pairwise_zipIdx (l : List α) (n : Nat) : (l.zipIdx n).Pairwise fun a b => a.2 < b.2 := by
  induction l generalizing n with
  | nil => exact .nil
  | cons a l ih =>
    rw [List.zipIdx_cons, List.pairwise_cons]
    refine ⟨fun entry mem => ?_, ih (n + 1)⟩
    have := List.le_snd_of_mem_zipIdx mem
    show n < entry.2
    omega

/-- A rearrangement of the numbered list that ascends by key and number is the stable sort. -/
theorem eq_stableSort {l : List α} {sorted : List (α × Nat)} (perm : sorted.Perm l.zipIdx)
    (ascending : sorted.Pairwise fun a b => toLex (key a.1, a.2) ≤ toLex (key b.1, b.2)) :
    sorted.map (·.1) = stableSort key l := by
  unfold stableSort
  congr 1
  refine List.Perm.eq_of_pairwise ?_ ascending ?_ (perm.trans (List.mergeSort_perm _ _).symm)
  · intro a b memA memB before after
    have same := Prod.mk.inj (toLex.injective (le_antisymm before after))
    have first := List.mem_zipIdx_iff_getElem?.mp (perm.mem_iff.mp memA)
    have second := List.mem_zipIdx_iff_getElem?.mp ((List.mergeSort_perm _ _).mem_iff.mp memB)
    rw [same.2, second] at first
    exact Prod.ext (Option.some.inj first).symm same.2
  · have sorted : (l.zipIdx.mergeSort fun a b => decide (toLex (key a.1, a.2) ≤ toLex (key b.1, b.2))).Pairwise
        fun a b => decide (toLex (key a.1, a.2) ≤ toLex (key b.1, b.2)) = true := by
      apply List.pairwise_mergeSort
      · intro a b c before after
        rw [decide_eq_true_eq] at before after ⊢
        exact before.trans after
      · intro a b
        rw [Bool.or_eq_true, decide_eq_true_eq, decide_eq_true_eq]
        exact le_total _ _
    exact sorted.imp fun before => of_decide_eq_true before

theorem disjoint_comp {ps : List (α → Bool)} (disjoint : Disjoint ps) (f : β → α) : Disjoint (ps.map (· ∘ f)) :=
  List.pairwise_map.mpr (disjoint.imp fun apart b => apart (f b))

theorem classOf_comp (ps : List (α → Bool)) (f : β → α) (b : β) : classOf (ps.map (· ∘ f)) b = classOf ps (f b) := by
  unfold classOf
  rw [List.findIdx_map]
  rfl

/-- A partition around partitions of disjoint classes sorts by the partition, then the class. -/
theorem prefer_nest_eq_stableSort (p : α → Bool) {ps : List (α → Bool)} (disjoint : Disjoint ps) (l : List α) :
    prefer p (nest ps l) = stableSort (fun a => toLex (!p a, classOf ps a)) l := by
  have numbered : prefer p (nest ps l) =
      (prefer (p ∘ Prod.fst) (nest (ps.map (· ∘ Prod.fst)) l.zipIdx)).map (·.1) := by
    rw [map_prefer, map_nest, List.zipIdx_map_fst]
  rw [numbered]
  apply eq_stableSort
  · exact (prefer_perm _ _).trans (nest_perm _ _)
  · have nested := nest_pairwise (disjoint_comp disjoint Prod.fst) (pairwise_zipIdx l 0)
    refine (prefer_pairwise (p ∘ Prod.fst) nested).imp ?_
    intro a b first
    simp only [Prod.Lex.toLex_le_toLex, Prod.Lex.toLex_lt_toLex]
    unfold First at first
    simp only [classOf_comp] at first
    rcases first with ⟨inside, outside⟩ | ⟨same, later⟩
    · have inside : p a.1 = true := inside
      have outside : p b.1 = false := outside
      simp [inside, outside]
    · have same : p a.1 = p b.1 := same
      rcases later with lower | ⟨equal, before⟩
      · simp [same, lower]
      · simp [same, equal, before.le]

end Sorting

end Unhardcoded.Effects.Prefer

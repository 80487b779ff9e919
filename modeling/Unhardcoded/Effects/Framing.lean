import Mathlib.Data.List.Basic

/-!
# Pieces between marks

A sequence is cut at a mark into its complete pieces and what follows the last mark. A
reader that gets the sequence in parts keeps that rest and puts the next part behind it:
it has seen the pieces of the whole, however the sequence was divided (`pieces_append`,
`rest_append`).
-/

namespace Unhardcoded.Effects.Framing

variable {α : Type} [DecidableEq α] {mark : α} {xs ys : List α}

/-- The pieces that a mark ends. -/
def pieces (mark : α) (xs : List α) : List (List α) := (xs.splitOn mark).dropLast

/-- What follows the last mark. -/
def rest (mark : α) (xs : List α) : List α := (xs.splitOn mark).getLastD []

section Laws

@[simp] theorem pieces_nil : pieces mark [] = [] := rfl

@[simp] theorem rest_nil : rest mark [] = [] := rfl

theorem pieces_mark (xs : List α) : pieces mark (mark :: xs) = [] :: pieces mark xs := by
  unfold pieces
  rw [List.splitOn_cons_eq_if_modifyHead, if_pos (beq_self_eq_true mark), List.dropLast_cons_of_ne_nil (List.splitOn_ne_nil _ _)]

theorem rest_mark (xs : List α) : rest mark (mark :: xs) = rest mark xs := by
  unfold rest
  rw [List.splitOn_cons_eq_if_modifyHead, if_pos (beq_self_eq_true mark)]
  cases split : xs.splitOn mark with
  | nil => exact absurd split (List.splitOn_ne_nil _ _)
  | cons piece others => rfl

/-- A symbol that is no mark opens the first piece. -/
theorem pieces_other {x : α} (other : x ≠ mark) (xs : List α) :
    pieces mark (x :: xs) = (pieces mark xs).modifyHead (x :: ·) := by
  unfold pieces
  rw [List.splitOn_cons_eq_if_modifyHead, if_neg (by simpa using other)]
  cases split : xs.splitOn mark with
  | nil => exact absurd split (List.splitOn_ne_nil _ _)
  | cons piece others => cases others <;> rfl

theorem rest_other {x : α} (other : x ≠ mark) (xs : List α) :
    rest mark (x :: xs) = if pieces mark xs = [] then x :: rest mark xs else rest mark xs := by
  unfold pieces rest
  rw [List.splitOn_cons_eq_if_modifyHead, if_neg (by simpa using other)]
  cases split : xs.splitOn mark with
  | nil => exact absurd split (List.splitOn_ne_nil _ _)
  | cons piece others => cases others <;> rfl

end Laws

section Parts

theorem rest_of_pieces_nil (none : pieces mark xs = []) : rest mark xs = xs := by
  induction xs with
  | nil => rfl
  | cons x xs ih =>
    by_cases same : x = mark
    · rw [same, pieces_mark] at none
      cases none
    · rw [pieces_other same, List.modifyHead_eq_nil_iff] at none
      rw [rest_other same, if_pos none, ih none]

/-- The pieces of two parts: the second is read behind the rest of the first. -/
theorem pieces_append (xs ys : List α) : pieces mark (xs ++ ys) = pieces mark xs ++ pieces mark (rest mark xs ++ ys) := by
  induction xs with
  | nil => rfl
  | cons x xs ih =>
    by_cases same : x = mark
    · rw [same, List.cons_append, pieces_mark, pieces_mark, rest_mark, ih]
      rfl
    · rw [List.cons_append, pieces_other same, pieces_other same, rest_other same, ih]
      by_cases none : pieces mark xs = []
      · rw [if_pos none, none, List.cons_append, pieces_other same]
        rfl
      · rw [if_neg none]
        cases found : pieces mark xs with
        | nil => exact absurd found none
        | cons piece others => rfl

theorem rest_append (xs ys : List α) : rest mark (xs ++ ys) = rest mark (rest mark xs ++ ys) := by
  induction xs with
  | nil => rfl
  | cons x xs ih =>
    by_cases same : x = mark
    · rw [same, List.cons_append, rest_mark, rest_mark, ih]
    · rw [rest_other same]
      by_cases none : pieces mark xs = []
      · rw [if_pos none, rest_of_pieces_nil none]
      · rw [if_neg none, List.cons_append, rest_other same, if_neg ?_, ih]
        rw [pieces_append]
        simp [none]

theorem pieces_rest (xs : List α) : pieces mark (rest mark xs) = [] := by
  have parts : pieces mark (xs ++ []) = pieces mark xs ++ pieces mark (rest mark xs ++ []) := pieces_append xs []
  rw [List.append_nil, List.append_nil] at parts
  exact List.self_eq_append_right.mp parts

end Parts

section Lines

/-- The pieces, and the rest where there is one. -/
def lines (mark : α) (xs : List α) : List (List α) :=
  pieces mark xs ++ if rest mark xs = [] then [] else [rest mark xs]

theorem lines_append (xs ys : List α) : lines mark (xs ++ ys) = pieces mark xs ++ lines mark (rest mark xs ++ ys) := by
  unfold lines
  rw [pieces_append, rest_append, List.append_assoc]

theorem lines_of_pieces_nil (none : pieces mark xs = []) : lines mark xs = if xs = [] then [] else [xs] := by
  unfold lines
  rw [none, rest_of_pieces_nil none, List.nil_append]

/-- A symbol that is no mark goes to the first line, or opens one. -/
theorem lines_other {x : α} (other : x ≠ mark) (xs : List α) :
    lines mark (x :: xs) = (x :: (lines mark xs).headD []) :: (lines mark xs).tail := by
  unfold lines
  rw [pieces_other other, rest_other other]
  cases pieces mark xs with
  | nil =>
    rw [if_pos rfl, if_neg (List.cons_ne_nil _ _)]
    cases rest mark xs <;> rfl
  | cons piece others => rfl

theorem not_mem_of_pieces_nil (none : pieces mark xs = []) : mark ∉ xs := by
  induction xs with
  | nil => exact List.not_mem_nil
  | cons x xs ih =>
    by_cases same : x = mark
    · rw [same, pieces_mark] at none
      cases none
    · rw [pieces_other same, List.modifyHead_eq_nil_iff] at none
      simp [Ne.symm same, ih none]

/-- What comes later goes on with the line that is open. -/
theorem exists_line_of_open (none : pieces mark xs = []) (nonempty : xs ≠ []) (ys : List α) :
    ∃ line ∈ lines mark (xs ++ ys), xs.length ≤ line.length := by
  have absent := not_mem_of_pieces_nil none
  have grown : lines mark (xs ++ ys) = (xs ++ (lines mark ys).headD []) :: (lines mark ys).tail := by
    clear none
    induction xs with
    | nil => exact absurd rfl nonempty
    | cons x xs ih =>
      obtain ⟨other, absent⟩ := not_or.mp (fun within => absent (List.mem_cons.mpr within))
      rw [List.cons_append, lines_other (Ne.symm other)]
      cases xs with
      | nil => rfl
      | cons y xs =>
        rw [ih (List.cons_ne_nil _ _) absent]
        rfl
  refine ⟨xs ++ (lines mark ys).headD [], grown ▸ List.mem_cons_self, ?_⟩
  rw [List.length_append]
  omega

end Lines

end Unhardcoded.Effects.Framing

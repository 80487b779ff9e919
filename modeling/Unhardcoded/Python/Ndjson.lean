import Mathlib.Data.List.Infix
import Unhardcoded.Python.JsonCompact
import Unhardcoded.Python.Lines

/-!
# Newline-delimited JSON

A value a line. Of what was written, a reader may have any part from the start: it then
holds whole lines, and at most one that is cut short, which is a prefix of a line.
-/

namespace Unhardcoded.Python

section Lines

/-- Each line with the line feed that ends it. -/
def ended (lines : List (List Char)) : List Char := lines.flatMap fun line => line ++ ['\n']

theorem ended_cons (line : List Char) (lines : List (List Char)) : ended (line :: lines) = line ++ '\n' :: ended lines := by
  simp [ended]

theorem ended_append (first later : List (List Char)) : ended (first ++ later) = ended first ++ ended later :=
  List.flatMap_append

/-- What stands behind the whole lines: nothing, or the start of the next one. -/
def Starts (part : List Char) (later : List (List Char)) : Prop :=
  part = [] ∨ ∃ line more, later = line :: more ∧ part <+: line

/-- Any part from the start is whole lines and the start of the next one. -/
theorem exists_of_prefix_ended {lines : List (List Char)} {text : List Char} (h : text <+: ended lines) :
    ∃ whole part later, lines = whole ++ later ∧ text = ended whole ++ part ∧ Starts part later := by
  induction lines generalizing text with
  | nil => exact ⟨[], text, [], rfl, by simp [ended], .inl (List.prefix_nil.mp h)⟩
  | cons line lines ih =>
    rw [ended_cons] at h
    by_cases within : text.length ≤ line.length
    · exact ⟨[], text, line :: lines, rfl, by simp [ended], .inr ⟨line, lines, rfl, (List.isPrefix_append_of_length within).mp h⟩⟩
    · have feed : line ++ ['\n'] <+: line ++ '\n' :: ended lines := by simp
      have longer : line ++ ['\n'] <+: text := by
        rcases List.prefix_or_prefix_of_prefix feed h with longer | shorter
        · exact longer
        · have most := shorter.length_le
          have same : text = line ++ ['\n'] := by
            refine shorter.eq_of_length ?_
            rw [List.length_append, List.length_singleton] at most ⊢
            omega
          rw [same]
      obtain ⟨tail, rfl⟩ := longer
      have rest : tail <+: ended lines := by
        rw [List.append_assoc, List.singleton_append, List.prefix_append_right_inj, List.cons_prefix_cons] at h
        exact h.2
      obtain ⟨whole, part, later, split, text, starts⟩ := ih rest
      exact ⟨line :: whole, part, later, by rw [split, List.cons_append], by rw [text, ended_cons]; simp, starts⟩

/-- The lines of a text: the whole ones, and the one that no line feed ends. -/
theorem splitFrom_ended {whole : List (List Char)} (plain : ∀ l ∈ whole, ∀ c ∈ l, isBreak c = false) {part : List Char}
    (rest : ∀ c ∈ part, isBreak c = false) :
    splitFrom [] false (ended whole ++ part) = whole ++ if part = [] then [] else [part] := by
  induction whole with
  | nil =>
    have lines := splitFrom_plain rest [] [] false
    rw [List.append_nil] at lines
    simp [ended, lines, splitFrom]
  | cons line whole ih =>
    rw [ended_cons, List.append_assoc, List.cons_append, splitFrom_line (plain line List.mem_cons_self),
      ih fun l mem => plain l (List.mem_cons_of_mem _ mem), List.cons_append]

end Lines

/-- A compact text is on one line. -/
theorem plain_compact {float : String → Json} {v : Json} (sound : v.Sound float) : ∀ c ∈ v.compact.toList, isBreak c = false := by
  intro c mem
  have within := List.all_eq_true.mp (compact_printable v sound) c mem
  simp only [printable, Bool.and_eq_true, decide_eq_true_eq] at within
  unfold isBreak
  simp only [Bool.or_eq_false_iff, Bool.and_eq_false_iff, decide_eq_false_iff_not]
  omega

end Unhardcoded.Python

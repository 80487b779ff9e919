import Unhardcoded.Source.BoundedLines

/-!
# Line framing does not depend on the chunks

The lines of a stream are the pieces that line feeds end and a last one that nothing ends.
Cut into whatever chunks, a stream within the caps gives all of them, and one that is over
a cap gives some first ones and then raises.
-/

namespace Unhardcoded.Guarantees.BoundedLines

open Unhardcoded.Python Unhardcoded.Source.BoundedLines
open Effects.Framing

/-- The lines of a whole stream, each decoded as a whole. -/
def streamLines (stream : List UInt8) : List String := (lines LF stream).map text

/-- The stream and its lines are within the caps. -/
def Fits (caps : Caps) (stream : List UInt8) : Prop :=
  stream.length ≤ caps.total ∧ ∀ line ∈ lines LF stream, line.length ≤ caps.line

section Loop

variable {caps : Caps}

/-- The same of what is to come, behind a line that is open. -/
def Within (caps : Caps) (buf : List UInt8) (total : Nat) (stream : List UInt8) : Prop :=
  total + stream.length ≤ caps.total ∧ ∀ line ∈ lines LF (buf ++ stream), line.length ≤ caps.line

/-- The checks of a chunk hold of every stream within the caps that begins with it. -/
theorem Within.passes {buf chunk later : List UInt8} {total : Nat} (within : Within caps buf total (chunk ++ later)) :
    ¬ caps.total < total + chunk.length ∧
      (caps.line < (rest LF (buf ++ chunk)).length || (pieces LF (buf ++ chunk)).any (caps.line < ·.length)) = false := by
  obtain ⟨short, each⟩ := within
  rw [List.length_append] at short
  rw [← List.append_assoc, lines_append] at each
  constructor
  · omega
  rw [Bool.or_eq_false_iff, decide_eq_false_iff_not, List.any_eq_false]
  constructor
  · intro long
    have nonempty : rest LF (buf ++ chunk) ≠ [] := by
      intro none
      rw [none, List.length_nil] at long
      omega
    obtain ⟨line, mem, le⟩ := exists_line_of_open (pieces_rest _) nonempty later
    have := each line (List.mem_append_right _ mem)
    omega
  · intro line mem
    have := each line (List.mem_append_left _ mem)
    simpa using this

/-- Behind a chunk that passed, the rest is within the caps just when the whole is. -/
theorem within_step {buf chunk later : List UInt8} {total : Nat}
    (passed : (caps.line < (rest LF (buf ++ chunk)).length || (pieces LF (buf ++ chunk)).any (caps.line < ·.length)) = false) :
    Within caps (rest LF (buf ++ chunk)) (total + chunk.length) later ↔ Within caps buf total (chunk ++ later) := by
  obtain ⟨-, each⟩ := Bool.or_eq_false_iff.mp passed
  rw [List.any_eq_false] at each
  unfold Within
  rw [List.length_append, ← Nat.add_assoc, ← List.append_assoc buf, lines_append (buf ++ chunk), List.forall_mem_append,
    and_congr_right_iff]
  intro _
  exact (and_iff_right fun line mem => by simpa using each line mem).symm

theorem readChunks_spec (chunks : List (List UInt8)) {buf : List UInt8} {total : Nat} (few : total ≤ caps.total)
    (short : buf.length ≤ caps.line) (opened : pieces LF buf = []) :
    (Within caps buf total chunks.flatten → readChunks caps buf total chunks = (streamLines (buf ++ chunks.flatten), none)) ∧
      (¬ Within caps buf total chunks.flatten →
        (∃ message, (readChunks caps buf total chunks).2 = some (responseTooLarge message)) ∧
          (readChunks caps buf total chunks).1 <+: streamLines (buf ++ chunks.flatten)) := by
  induction chunks generalizing buf total with
  | nil =>
    have whole : lines LF buf = if buf = [] then [] else [buf] := lines_of_pieces_nil opened
    constructor
    · intro _
      rw [readChunks, List.flatten_nil, List.append_nil, streamLines, whole]
      split <;> rfl
    · intro over_
      refine absurd ⟨few, ?_⟩ over_
      rw [List.flatten_nil, List.append_nil, whole]
      split
      · exact fun line mem => absurd mem List.not_mem_nil
      · exact fun line mem => List.mem_singleton.mp mem ▸ short
  | cons chunk chunks ih =>
    rw [List.flatten_cons]
    by_cases large : caps.total < total + chunk.length
    · have over_ : ¬ Within caps buf total (chunk ++ chunks.flatten) := fun within => within.passes.1 large
      refine ⟨fun within => absurd within over_, fun _ => ?_⟩
      rw [readChunks, if_pos large]
      exact ⟨⟨_, rfl⟩, List.nil_prefix⟩
    cases passed : (caps.line < (rest LF (buf ++ chunk)).length || (pieces LF (buf ++ chunk)).any (caps.line < ·.length)) with
    | true =>
      have over_ : ¬ Within caps buf total (chunk ++ chunks.flatten) := by
        intro within
        rw [within.passes.2] at passed
        cases passed
      refine ⟨fun within => absurd within over_, fun _ => ?_⟩
      rw [readChunks, if_neg large, if_pos passed]
      exact ⟨⟨_, rfl⟩, List.nil_prefix⟩
    | false =>
      have fits : (rest LF (buf ++ chunk)).length ≤ caps.line := by
        simpa using (Bool.or_eq_false_iff.mp passed).1
      obtain ⟨kept, raised⟩ := @ih (rest LF (buf ++ chunk)) _ (Nat.le_of_not_lt large) fits (pieces_rest _)
      rw [within_step passed] at kept raised
      have split : streamLines (buf ++ (chunk ++ chunks.flatten)) =
          (pieces LF (buf ++ chunk)).map text ++ streamLines (rest LF (buf ++ chunk) ++ chunks.flatten) := by
        unfold streamLines
        rw [← List.append_assoc, lines_append, List.map_append]
      rw [readChunks, if_neg large, if_neg (by rw [passed]; exact Bool.false_ne_true), split]
      constructor
      · intro within
        rw [kept within]
      · intro over_
        obtain ⟨ended, first⟩ := raised over_
        exact ⟨ended, (List.prefix_append_right_inj _).mpr first⟩

end Loop

/-- However the stream is cut: its lines, or some first ones and `ResponseTooLarge`. -/
theorem framing_independent (caps : Caps) (chunks : List (List UInt8)) :
    (Fits caps chunks.flatten → boundedLines caps chunks = (streamLines chunks.flatten, none)) ∧
      (¬ Fits caps chunks.flatten →
        (∃ message, (boundedLines caps chunks).2 = some (responseTooLarge message)) ∧
          (boundedLines caps chunks).1 <+: streamLines chunks.flatten) := by
  have spec := @readChunks_spec caps chunks [] 0 (Nat.zero_le _) (Nat.zero_le _) pieces_nil
  unfold Within at spec
  rwa [Nat.zero_add, List.nil_append] at spec

example : boundedLines ⟨64, 8⟩ [[0x61, 0xC3], [], [0xA9, 13, 10, 10, 0x62]] = (["a\u00E9", "", "b"], none) := by decide +kernel

end Unhardcoded.Guarantees.BoundedLines

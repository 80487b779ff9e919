import Mathlib.Data.List.DropRight
import Unhardcoded.Python.Json

/-!
# The lines of a text

`text.splitlines()`: a line ends at any of the line boundaries of Unicode, not only at a
line feed, and a carriage return takes the line feed behind it along.
-/

namespace Unhardcoded.Python

/-- A line boundary. -/
def isBreak (c : Char) : Bool :=
  let n := c.toNat
  (10 ≤ n && n ≤ 13) || (28 ≤ n && n ≤ 30) || n = 0x85 || n = 0x2028 || n = 0x2029

/-- The lines behind the part of one that was read; `cr` is true behind a carriage return. -/
def splitFrom (line : List Char) (cr : Bool) : List Char → List (List Char)
  | [] => if line = [] then [] else [line]
  | c :: cs =>
    if cr && c = '\n' then splitFrom line false cs
    else if isBreak c then line :: splitFrom [] (c = '\r') cs
    else splitFrom (line ++ [c]) false cs

/-- `text.splitlines()`. -/
def splitlines (text : String) : List String := (splitFrom [] false text.toList).map String.ofList

example : splitlines "a\r\n\nb\u2028c" = ["a", "", "b", "c"] := by decide +kernel

/-- A text on one line. -/
def OneLine (text : String) : Prop := ∀ c ∈ text.toList, isBreak c = false

/-- A property of characters that is checked on those of a text. -/
theorem forall_char {p : Char → Prop} [DecidablePred p] {cs : List Char} (h : cs.all (fun c => decide (p c)) = true) :
    ∀ c ∈ cs, p c := by
  intro c mem
  exact of_decide_eq_true (List.all_eq_true.mp h c mem)

instance (text : String) : Decidable (OneLine text) :=
  decidable_of_iff ((text.toList.all fun c => !isBreak c) = true) (by simp [OneLine])

section Laws

variable {line cs rest : List Char}

theorem splitFrom_plain (plain : ∀ c ∈ cs, isBreak c = false) (line rest : List Char) (cr : Bool) :
    splitFrom line cr (cs ++ rest) = splitFrom (line ++ cs) (cr && cs.isEmpty) rest := by
  induction cs generalizing line cr with
  | nil => simp
  | cons c cs ih =>
    have here := plain c List.mem_cons_self
    have noFeed : c ≠ '\n' := by
      rintro rfl
      exact absurd here (by decide)
    rw [List.cons_append, splitFrom, if_neg (by simp [noFeed]), if_neg (by simp [here]),
      ih (fun d mem => plain d (List.mem_cons_of_mem _ mem))]
    simp

/-- A line that a line feed ends. -/
theorem splitFrom_line (plain : ∀ c ∈ cs, isBreak c = false) (rest : List Char) :
    splitFrom [] false (cs ++ '\n' :: rest) = cs :: splitFrom [] false rest := by
  rw [splitFrom_plain plain, List.nil_append, Bool.false_and, splitFrom, if_neg (by simp), if_pos (by decide)]
  rfl

/-- Behind a line feed the lines are those of what follows it. -/
theorem splitFrom_append {cr : Bool} (opened : cr = true → line = []) (cs rest : List Char) :
    ∃ before, splitFrom line cr (cs ++ '\n' :: rest) = before ++ splitFrom [] false rest := by
  induction cs generalizing line cr with
  | nil =>
    rw [List.nil_append, splitFrom]
    cases cr with
    | false => exact ⟨[line], by rw [if_neg (by simp), if_pos (by decide)]; rfl⟩
    | true => exact ⟨[], by rw [if_pos (by simp), opened rfl]; rfl⟩
  | cons c cs ih =>
    rw [List.cons_append, splitFrom]
    split
    · exact ih (fun impossible => by cases impossible)
    · split
      · obtain ⟨before, split⟩ := @ih [] _ (fun _ => rfl)
        exact ⟨line :: before, by rw [split]; rfl⟩
      · exact ih (fun impossible => by cases impossible)

/-- No line has a boundary in it. -/
theorem splitFrom_members {cr : Bool} (plain : ∀ c ∈ line, isBreak c = false) (cs : List Char) :
    ∀ l ∈ splitFrom line cr cs, ∀ c ∈ l, isBreak c = false := by
  induction cs generalizing line cr with
  | nil =>
    intro l mem
    rw [splitFrom] at mem
    split at mem
    · cases mem
    · rw [List.mem_singleton.mp mem]
      exact plain
  | cons c cs ih =>
    intro l mem
    rw [splitFrom] at mem
    split at mem
    · exact ih plain l mem
    split at mem
    · rcases List.mem_cons.mp mem with rfl | later
      · exact plain
      · exact ih (by simp) l later
    · rename_i other
      refine ih (List.forall_mem_append.mpr ⟨plain, ?_⟩) l mem
      intro d here
      rw [List.mem_singleton.mp here]
      simpa using other

theorem splitlines_members {text l : String} (mem : l ∈ splitlines text) : OneLine l := by
  obtain ⟨cs, within, rfl⟩ := List.mem_map.mp mem
  unfold OneLine
  rw [String.toList_ofList]
  exact splitFrom_members (by simp) _ cs within

/-- Whole lines are read back. -/
theorem splitFrom_flatMap {lines : List (List Char)} (plain : ∀ l ∈ lines, ∀ c ∈ l, isBreak c = false) :
    splitFrom [] false (lines.flatMap fun l => l ++ ['\n']) = lines := by
  induction lines with
  | nil => rfl
  | cons l lines ih =>
    rw [List.flatMap_cons, List.append_assoc, List.singleton_append, splitFrom_line (plain l List.mem_cons_self),
      ih fun k mem => plain k (List.mem_cons_of_mem _ mem)]

end Laws

section Strip

/-- `text.strip(chars)`: the characters to drop go from both ends. -/
def stripBy (drop : Char → Bool) (cs : List Char) : List Char :=
  ((cs.dropWhile drop).reverse.dropWhile drop).reverse

/-- No character to drop stands at either end. -/
def Clear (drop : Char → Bool) (cs : List Char) : Prop :=
  (∀ c ∈ cs.head?, drop c = false) ∧ ∀ c ∈ cs.getLast?, drop c = false

variable {drop : Char → Bool}

theorem dropWhile_head {cs : List Char} (h : ∀ c ∈ cs.head?, drop c = false) : cs.dropWhile drop = cs := by
  cases cs with
  | nil => rfl
  | cons c cs => exact List.dropWhile_cons_of_neg (by simp [h c rfl])

theorem stripBy_clear {cs : List Char} (clear : Clear drop cs) : stripBy drop cs = cs := by
  unfold stripBy
  rw [dropWhile_head clear.1, dropWhile_head, List.reverse_reverse]
  intro c mem
  rw [List.head?_reverse] at mem
  exact clear.2 c mem

theorem clear_stripBy (drop : Char → Bool) (cs : List Char) : Clear drop (stripBy drop cs) := by
  have trailing : stripBy drop cs = (cs.dropWhile drop).rdropWhile drop := rfl
  rw [trailing]
  constructor
  · intro c mem
    obtain ⟨rest, split⟩ := List.rdropWhile_prefix drop (cs.dropWhile drop)
    have first : (cs.dropWhile drop).head? = some c := by
      rw [← split, List.head?_append, Option.mem_def.mp mem]
      rfl
    have := List.head?_dropWhile_not drop cs
    rw [first] at this
    exact this
  · intro c mem
    have last : ((cs.dropWhile drop).reverse.dropWhile drop).head? = some c := by
      rw [← List.getLast?_reverse]
      exact mem
    have := List.head?_dropWhile_not drop (cs.dropWhile drop).reverse
    rw [last] at this
    exact this

theorem stripBy_sublist (drop : Char → Bool) (cs : List Char) : (stripBy drop cs).Sublist cs :=
  (List.rdropWhile_prefix drop _).sublist.trans (List.dropWhile_sublist _)

/-- A character that is not dropped stays. -/
theorem stripBy_ne_nil {cs : List Char} {c : Char} (mem : c ∈ cs.head?) (keep : drop c = false) : stripBy drop cs ≠ [] := by
  have trailing : stripBy drop cs = (cs.dropWhile drop).rdropWhile drop := rfl
  rw [trailing, Ne, List.rdropWhile_eq_nil_iff, dropWhile_head fun d same => Option.mem_unique mem same ▸ keep]
  intro all
  rw [all c (List.mem_of_mem_head? mem)] at keep
  cases keep

/-- A text without spaces at its ends. -/
def Trimmed (cs : List Char) : Prop := (∀ c ∈ cs.head?, isSpace c = false) ∧ ∀ c ∈ cs.getLast?, isSpace c = false

instance (cs : List Char) : Decidable (Trimmed cs) :=
  decidable_of_iff ((cs.head?.all fun c => !isSpace c) = true ∧ (cs.getLast?.all fun c => !isSpace c) = true)
    (by simp [Trimmed, Option.all_eq_true])

theorem strip_trimmed {cs : List Char} (trimmed : Trimmed cs) : strip (String.ofList cs) = String.ofList cs := by
  unfold strip
  rw [String.toList_ofList]
  exact congrArg String.ofList (stripBy_clear trimmed)

theorem strip_space {c : Char} (h : isSpace c = true) (cs : List Char) : strip (String.ofList (c :: cs)) = strip (String.ofList cs) := by
  unfold strip
  rw [String.toList_ofList, String.toList_ofList, List.dropWhile_cons_of_pos h]

/-- A name, a space and a text, all of it on one line. -/
theorem trimmed_named {name cs : List Char} (named : Trimmed name) (opened : name ≠ []) (trimmed : Trimmed cs) (closed : cs ≠ []) :
    Trimmed (name ++ ' ' :: cs) := by
  constructor
  · rw [List.head?_append_of_ne_nil _ opened]
    exact named.1
  · rw [List.getLast?_append_of_ne_nil _ (List.cons_ne_nil _ _), List.getLast?_cons_of_ne_nil closed]
    exact trimmed.2

theorem trimmed_strip (text : String) : Trimmed (strip text).toList := by
  rw [strip, String.toList_ofList]
  exact clear_stripBy isSpace text.toList

/-- What is stripped is a part of the text. -/
theorem mem_of_mem_strip {text : String} {c : Char} (mem : c ∈ (strip text).toList) : c ∈ text.toList := by
  rw [strip, String.toList_ofList] at mem
  exact (stripBy_sublist isSpace text.toList).subset mem

end Strip

end Unhardcoded.Python

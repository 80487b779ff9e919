import Unhardcoded.Python.Dict

/-!
# Tables of stamped rows

A table keeps one row for each key. A `put` writes a value into the row of its key, a
`prune` drops the rows whose last value is stamped before a time. What a row holds is
folded from the values since its last drop; which rows are recent depends on the last
value of each key alone.
-/

namespace Unhardcoded.Effects

open Python

namespace Window

variable {κ α ρ : Type} [DecidableEq κ]

/-- A statement that commits against the table. -/
inductive Write (κ α : Type) where
  | put (key : κ) (value : α)
  | prune (cutoff : Int)
  deriving DecidableEq, Repr

/-- How a value goes into the row of its key, and the stamp of both. -/
structure Rule (α ρ : Type) where
  write : α → Option ρ → ρ
  stampOf : α → Int
  stamp : ρ → Int
  stamped : ∀ value row, stamp (write value row) = stampOf value

variable (rule : Rule α ρ)

def commit (table : List (κ × ρ)) : Write κ α → List (κ × ρ)
  | .put key value => insert key (rule.write value (table.lookup key)) table
  | .prune cutoff => table.filter fun row => cutoff ≤ rule.stamp row.2

def play (history : List (Write κ α)) : List (κ × ρ) := history.foldl (commit rule) []

/-- The rows stamped from a time on. -/
def recent (cutoff : Int) (table : List (κ × ρ)) : List (κ × ρ) := table.filter fun row => cutoff ≤ rule.stamp row.2

/-- The row that values make, one after another. -/
def rowOf (values : List α) : Option ρ := values.foldl (fun row value => some (rule.write value row)) none

/-- The values of a key since its row was last dropped. -/
def note (key : κ) (values : List α) : Write κ α → List α
  | .put other value => if other = key then values ++ [value] else values
  | .prune cutoff => if values.getLast?.any fun value => rule.stampOf value < cutoff then [] else values

def since (key : κ) (history : List (Write κ α)) : List α := history.foldl (note rule key) []

/-- Every value put for a key. -/
def puts (key : κ) : Write κ α → Option α
  | .put other value => if other = key then some value else none
  | .prune _ => none

theorem play_append (history : List (Write κ α)) (w : Write κ α) :
    play rule (history ++ [w]) = commit rule (play rule history) w := by
  simp only [play, List.foldl_append, List.foldl_cons, List.foldl_nil]

theorem since_append (key : κ) (history : List (Write κ α)) (w : Write κ α) :
    since rule key (history ++ [w]) = note rule key (since rule key history) w := by
  simp only [since, List.foldl_append, List.foldl_cons, List.foldl_nil]

theorem rowOf_append (values : List α) (value : α) :
    rowOf rule (values ++ [value]) = some (rule.write value (rowOf rule values)) := by
  simp only [rowOf, List.foldl_append, List.foldl_cons, List.foldl_nil]

theorem stamp_rowOf (values : List α) : (rowOf rule values).map rule.stamp = values.getLast?.map rule.stampOf := by
  induction values using List.reverseRecOn with
  | nil => rfl
  | append_singleton values value _ =>
    rw [rowOf_append, Option.map_some, rule.stamped, List.getLast?_concat, Option.map_some]

theorem nodup_play (history : List (Write κ α)) : ((play rule history).map (·.1)).Nodup := by
  induction history using List.reverseRecOn with
  | nil => exact List.nodup_nil
  | append_singleton history w ih =>
    rw [play_append]
    cases w with
    | put key value => exact nodup_insert ih _ _
    | prune cutoff => exact nodup_filter ih _

/-- The table and the values of each key are two accounts of one history. -/
theorem lookup_play (key : κ) (history : List (Write κ α)) :
    (play rule history).lookup key = rowOf rule (since rule key history) := by
  induction history using List.reverseRecOn with
  | nil => rfl
  | append_singleton history w ih =>
    rw [play_append, since_append]
    cases w with
    | put other value =>
      rw [commit, lookup_insert, note]
      by_cases same : key = other
      · subst same
        rw [if_pos rfl, if_pos rfl, rowOf_append, ih]
      · rw [if_neg same, if_neg (Ne.symm same), ih]
    | prune cutoff =>
      rw [commit, note]
      have stamps := stamp_rowOf rule (since rule key history)
      have dropped : (List.filter (fun row : κ × ρ => cutoff ≤ rule.stamp row.2) (play rule history)).lookup key =
          (rowOf rule (since rule key history)).filter fun row => cutoff ≤ rule.stamp row := by
        rw [← ih]
        refine Option.ext fun row => ?_
        rw [lookup_filter (nodup_play rule history), Option.filter_eq_some_iff]
      rw [dropped]
      cases held : rowOf rule (since rule key history) with
      | none =>
        rw [held, Option.map_none] at stamps
        have empty : (since rule key history).getLast? = none := by
          cases last : (since rule key history).getLast? with
          | none => rfl
          | some value => rw [last] at stamps; cases stamps
        rw [empty, Option.any_none, if_neg Bool.false_ne_true, held]
        rfl
      | some row =>
        rw [held, Option.map_some] at stamps
        obtain ⟨value, last, same⟩ := Option.map_eq_some_iff.mp stamps.symm
        rw [last, Option.any_some, same]
        by_cases kept : cutoff ≤ rule.stamp row
        · rw [if_neg (by simpa using kept), held, Option.filter_some, if_pos (by simpa using kept)]
        · rw [if_pos (by simpa using kept), Option.filter_some, if_neg (by simpa using kept)]
          rfl

theorem since_suffix (key : κ) (history : List (Write κ α)) : since rule key history <:+ history.filterMap (puts key) := by
  induction history using List.reverseRecOn with
  | nil => exact List.suffix_rfl
  | append_singleton history w ih =>
    rw [since_append, List.filterMap_append]
    cases w with
    | put other value =>
      rw [note]
      by_cases same : other = key
      · rw [if_pos same, List.filterMap_cons_some (b := value) (by rw [puts, if_pos same]), List.filterMap_nil]
        obtain ⟨before, split⟩ := ih
        exact ⟨before, by rw [← split, List.append_assoc]⟩
      · rw [if_neg same, List.filterMap_cons_none (by rw [puts, if_neg same]), List.filterMap_nil, List.append_nil]
        exact ih
    | prune cutoff =>
      rw [note, List.filterMap_cons_none (by rfl), List.filterMap_nil, List.append_nil]
      split
      · exact List.nil_suffix
      · exact ih

/-- A prune from before the cutoff of a read does not change what the read finds. -/
theorem last_since {cutoff : Int} {history : List (Write κ α)} (earlier : ∀ c, Write.prune c ∈ history → c ≤ cutoff) (key : κ)
    (value : α) :
    ((since rule key history).getLast? = some value ∧ cutoff ≤ rule.stampOf value) ↔
      ((history.filterMap (puts key)).getLast? = some value ∧ cutoff ≤ rule.stampOf value) := by
  induction history using List.reverseRecOn with
  | nil => rfl
  | append_singleton history w ih =>
    have ih := ih fun c mem => earlier c (List.mem_append_left _ mem)
    rw [since_append, List.filterMap_append]
    cases w with
    | put other value' =>
      rw [note]
      by_cases same : other = key
      · rw [if_pos same, List.filterMap_cons_some (b := value') (by rw [puts, if_pos same]), List.filterMap_nil,
          List.getLast?_concat, List.getLast?_concat]
      · rw [if_neg same, List.filterMap_cons_none (by rw [puts, if_neg same]), List.filterMap_nil, List.append_nil]
        exact ih
    | prune c =>
      have before : c ≤ cutoff := earlier c (List.mem_append_right _ List.mem_cons_self)
      rw [note, List.filterMap_cons_none (by rfl), List.filterMap_nil, List.append_nil, ← ih]
      split
      · rename_i dropped
        constructor
        · rintro ⟨found, -⟩
          cases found
        · rintro ⟨found, fresh⟩
          rw [found, Option.any_some] at dropped
          have := of_decide_eq_true dropped
          omega
      · exact Iff.rfl

/-- What a read finds: the rows of the keys whose last value is recent. -/
theorem mem_recent {cutoff : Int} {history : List (Write κ α)} (earlier : ∀ c, Write.prune c ∈ history → c ≤ cutoff) (key : κ)
    (row : ρ) :
    (key, row) ∈ recent rule cutoff (play rule history) ↔
      ∃ value, (history.filterMap (puts key)).getLast? = some value ∧ cutoff ≤ rule.stampOf value ∧
        rowOf rule (since rule key history) = some row := by
  rw [recent, List.mem_filter, ← lookup_eq_some_iff_mem (nodup_play rule history), lookup_play]
  constructor
  · rintro ⟨held, fresh⟩
    have stamps := stamp_rowOf rule (since rule key history)
    rw [held, Option.map_some] at stamps
    obtain ⟨value, last, same⟩ := Option.map_eq_some_iff.mp stamps.symm
    have fresh : cutoff ≤ rule.stampOf value := by
      rw [same]
      exact of_decide_eq_true fresh
    exact ⟨value, ((last_since rule earlier key value).mp ⟨last, fresh⟩).1, fresh, held⟩
  · rintro ⟨value, last, fresh, held⟩
    have last := ((last_since rule earlier key value).mpr ⟨last, fresh⟩).1
    have stamps := stamp_rowOf rule (since rule key history)
    rw [held, last, Option.map_some, Option.map_some, Option.some_inj] at stamps
    exact ⟨held, decide_eq_true (stamps ▸ fresh)⟩

end Window

end Unhardcoded.Effects

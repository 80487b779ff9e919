import Mathlib.Data.List.Range
import Unhardcoded.Source.Compaction

/-!
# The fragments of a conversation

`units` cuts the messages into consecutive fragments. A fragment is one message, with the
tool messages right after it where it proposes tool calls. So an assistant message and
the tool messages that follow it stay in one fragment.
-/

namespace Unhardcoded.Guarantees.Compaction

open Unhardcoded.Python
open Unhardcoded.Source.Compaction

/-- An assistant message with tool calls. -/
def isCall (m : Json) : Prop := m.field "role" = .str "assistant" ∧ (m.field "tool_calls").truthy = true

/-- The message at `j` is a tool message, and only tool messages are between it and the assistant message at `a`,
which has tool calls. -/
def Answers (messages : List Json) (a j : Nat) : Prop :=
  a < j ∧ (∃ c, messages[a]? = some c ∧ isCall c) ∧
    ∀ k, a < k → k ≤ j → ∃ m, messages[k]? = some m ∧ isTool m = true

/-- Every tool message follows its assistant message. -/
def Answered (messages : List Json) : Prop :=
  ∀ j m, messages[j]? = some m → isTool m = true → ∃ a, Answers messages a j

/-- The fragments `units` makes of the messages from an index on. -/
inductive Units (messages : List Json) : Nat → List Fragment → Prop where
  | nil {i : Nat} (ended : messages.drop i = []) : Units messages i []
  | cons {i : Nat} {message : Json} {rest : List Json} {fragments : List Fragment}
      (here : messages.drop i = message :: rest)
      (later : Units messages (i + 1 + (answers message rest).length) fragments) :
      Units messages i (⟨"fragment_" ++ toString i, i, i + 1 + (answers message rest).length,
        message :: answers message rest⟩ :: fragments)

section Units

variable {messages : List Json} {i : Nat} {fragments : List Fragment} {f : Fragment}

theorem isPrefix_answers (message : Json) (rest : List Json) : answers message rest <+: rest := by
  unfold answers
  split
  · exact List.takeWhile_prefix isTool
  · exact List.nil_prefix

theorem unitsFrom_units (rest : List Json) :
    ∀ i taken, messages.drop i = rest → taken ≤ rest.length → Units messages (i + taken) (unitsFrom i taken rest) := by
  induction rest with
  | nil =>
    intro i taken here le
    have none : taken = 0 := by simpa using le
    subst none
    exact .nil here
  | cons message rest ih =>
    intro i taken here le
    have next : messages.drop (i + 1) = rest := by
      rw [← List.drop_drop, here, List.drop_succ_cons, List.drop_zero]
    cases taken with
    | succ taken =>
      have later := ih (i + 1) taken next (by simpa using le)
      rw [Nat.add_right_comm] at later
      exact later
    | zero =>
      exact .cons here (ih (i + 1) _ next (isPrefix_answers message rest).length_le)

theorem units_spec (messages : List Json) : Units messages 0 (units messages) :=
  unitsFrom_units messages 0 0 (List.drop_zero ..) (Nat.zero_le _)

theorem Units.le_start (h : Units messages i fragments) (mem : f ∈ fragments) : i ≤ f.start := by
  induction h with
  | nil => cases mem
  | cons here later ih =>
    rcases List.mem_cons.mp mem with rfl | mem
    · exact le_refl _
    · have := ih mem
      omega

/-- What one fragment is. -/
structure IsUnit (messages : List Json) (f : Fragment) : Prop where
  id : f.id = "fragment_" ++ toString f.start
  nonempty : f.start < f.stop
  within : f.stop ≤ messages.length
  slice : f.messages = (messages.drop f.start).take (f.stop - f.start)
  tools : ∀ k, f.start < k → k < f.stop → ∃ m, messages[k]? = some m ∧ isTool m = true
  maximal : ∀ c m, messages[f.start]? = some c → (c.field "tool_calls").truthy = true → messages[f.stop]? = some m →
    isTool m = false

theorem isUnit_first {message : Json} {rest : List Json} (here : messages.drop i = message :: rest) :
    IsUnit messages ⟨"fragment_" ++ toString i, i, i + 1 + (answers message rest).length,
      message :: answers message rest⟩ := by
  have at_ (k : Nat) : messages[i + 1 + k]? = rest[k]? := by
    rw [← List.getElem?_drop, ← List.drop_drop, here, List.drop_succ_cons, List.drop_zero]
  have head : messages[i]? = some message := by
    have := congrArg (fun l => l[0]?) here
    simpa [List.getElem?_drop] using this
  obtain ⟨after, split⟩ := isPrefix_answers message rest
  have length : messages.length - i = rest.length + 1 := by
    have := congrArg List.length here
    simpa using this
  have fits : (answers message rest).length ≤ rest.length := (isPrefix_answers message rest).length_le
  refine ⟨rfl, by dsimp only; omega, by dsimp only; omega, ?_, fun k lo hi => ?_, fun c m first calls next => ?_⟩
  · have count : i + 1 + (answers message rest).length - i = (answers message rest).length + 1 := by omega
    dsimp only
    rw [here, count, List.take_succ_cons]
    congr 1
    exact List.prefix_iff_eq_take.mp (isPrefix_answers message rest)
  · obtain ⟨k, rfl⟩ : ∃ j, k = i + 1 + j := ⟨k - (i + 1), by dsimp only at lo; omega⟩
    have bound : k < (answers message rest).length := by dsimp only at hi; omega
    have tool : isTool (answers message rest)[k] = true := by
      have mem : (answers message rest)[k] ∈ answers message rest := List.getElem_mem bound
      have all : ∀ m ∈ answers message rest, isTool m = true := by
        unfold answers
        split
        · exact List.all_eq_true.mp List.all_takeWhile
        · intro m mem
          cases mem
      exact all _ mem
    refine ⟨(answers message rest)[k], ?_, tool⟩
    calc
      messages[i + 1 + k]? = (answers message rest ++ after)[k]? := by rw [at_, split]
      _ = _ := by rw [List.getElem?_append_left bound, List.getElem?_eq_getElem bound]
  · dsimp only at first next
    rw [head] at first
    obtain rfl := Option.some.inj first
    have taken : answers message rest = rest.takeWhile isTool := by rw [answers, if_pos calls]
    rw [at_, taken] at next
    have left : rest.drop (rest.takeWhile isTool).length = rest.dropWhile isTool := by
      conv => lhs; arg 2; rw [← List.takeWhile_append_dropWhile (p := isTool) (l := rest)]
      rw [List.drop_left]
    have head' : (rest.dropWhile isTool).head? = some m := by
      rw [← left, List.head?_drop, next]
    exact Bool.eq_false_iff.mpr fun tool => by
      have := List.head?_dropWhile_not isTool rest
      rw [head'] at this
      simp [tool] at this

theorem Units.isUnit (h : Units messages i fragments) (mem : f ∈ fragments) : IsUnit messages f := by
  induction h with
  | nil => cases mem
  | cons here later ih =>
    rcases List.mem_cons.mp mem with rfl | mem
    · exact isUnit_first here
    · exact ih mem

theorem mem_indices {j : Nat} (unit : IsUnit messages f) : j ∈ f.indices ↔ f.start ≤ j ∧ j < f.stop := by
  rw [Fragment.indices, List.mem_range'_1]
  have := unit.nonempty
  omega

/-- The fragments cover the indices from `i` on, in order. -/
theorem Units.flatMap_indices (h : Units messages i fragments) :
    fragments.flatMap Fragment.indices = List.range' i (messages.length - i) := by
  induction h with
  | nil ended =>
    rw [List.drop_eq_nil_iff] at ended
    rw [Nat.sub_eq_zero_of_le ended]
    rfl
  | @cons i message rest fragments here later ih =>
    have unit := isUnit_first here
    have within := unit.within
    dsimp only at within
    rw [List.flatMap_cons, ih, Fragment.indices]
    dsimp only
    set stop := i + 1 + (answers message rest).length
    have whole : messages.length - i = (stop - i) + (messages.length - stop) := by omega
    have next : stop = i + (stop - i) := by omega
    rw [whole]
    conv => lhs; arg 2; arg 1; rw [next]
    exact List.range'_append_1

theorem Units.flatMap_messages (h : Units messages i fragments) :
    fragments.flatMap Fragment.messages = messages.drop i := by
  induction h with
  | nil ended =>
    rw [ended]
    rfl
  | @cons i message rest fragments here later ih =>
    obtain ⟨after, split⟩ := isPrefix_answers message rest
    have left : messages.drop (i + 1 + (answers message rest).length) = after := by
      rw [← List.drop_drop, ← List.drop_drop, here, List.drop_succ_cons, List.drop_zero]
      conv => lhs; arg 2; rw [← split]
      exact List.drop_left
    rw [List.flatMap_cons, ih, here, left, List.cons_append, split]

/-- Two fragments that hold one index are the same. -/
theorem Units.unique (h : Units messages i fragments) {g : Fragment} (mem : f ∈ fragments) (mem' : g ∈ fragments) {j : Nat}
    (inside : j ∈ f.indices) (inside' : j ∈ g.indices) : f = g := by
  induction h with
  | nil => cases mem
  | cons here later ih =>
    have first := isUnit_first here
    rcases List.mem_cons.mp mem with rfl | rest
    · rcases List.mem_cons.mp mem' with rfl | rest'
      · rfl
      · have := later.le_start rest'
        have := (mem_indices (later.isUnit rest')).mp inside'
        have := (mem_indices first).mp inside
        dsimp only at this
        omega
    · rcases List.mem_cons.mp mem' with rfl | rest'
      · have := later.le_start rest
        have := (mem_indices (later.isUnit rest)).mp inside
        have := (mem_indices first).mp inside'
        dsimp only at this
        omega
      · exact ih rest rest'

theorem Units.nodup_ids (h : Units messages i fragments) : (fragments.map Fragment.id).Nodup := by
  induction h with
  | nil => exact List.nodup_nil
  | @cons i message rest fragments here later ih =>
    refine List.nodup_cons.mpr ⟨fun mem => ?_, ih⟩
    obtain ⟨f, within, same⟩ := List.mem_map.mp mem
    have digits : toString f.start = toString i := by
      rw [(later.isUnit within).id] at same
      exact String.append_right_inj _ |>.mp same
    have start : f.start = i := toString_injective digits
    have := later.le_start within
    omega

theorem Units.eq_of_id (h : Units messages i fragments) {g : Fragment} (mem : f ∈ fragments) (mem' : g ∈ fragments)
    (same : f.id = g.id) : f = g :=
  List.inj_on_of_nodup_map h.nodup_ids mem mem' same

theorem Units.exists_fragment (h : Units messages 0 fragments) {j : Nat} (bound : j < messages.length) :
    ∃ f ∈ fragments, j ∈ f.indices := by
  have : j ∈ fragments.flatMap Fragment.indices := by
    rw [h.flatMap_indices, List.mem_range'_1]
    omega
  exact List.mem_flatMap.mp this

theorem getElem?_messages (unit : IsUnit messages f) (k : Nat) :
    f.messages[k]? = if f.start + k < f.stop then messages[f.start + k]? else none := by
  rw [unit.slice, List.getElem?_take, List.getElem?_drop]
  have := unit.nonempty
  split
  · rw [if_pos (by omega)]
  · rw [if_neg (by omega)]

/-- A fragment holds the messages at its indices. -/
theorem IsUnit.map_messages (unit : IsUnit messages f) : f.messages.map some = f.indices.map (messages[·]?) := by
  have within := unit.within
  refine List.ext_getElem? fun k => ?_
  rw [List.getElem?_map, List.getElem?_map, getElem?_messages unit, Fragment.indices]
  by_cases inside : f.start + k < f.stop
  · rw [if_pos inside, List.getElem?_range' (by omega), Nat.one_mul, Option.map_some,
      List.getElem?_eq_getElem (by omega), Option.map_some]
  · rw [if_neg inside, List.getElem?_eq_none (by rw [List.length_range']; omega)]
    rfl

theorem IsUnit.indices_ne_nil (unit : IsUnit messages f) : f.indices ≠ [] := by
  have first : f.start ∈ f.indices := (mem_indices unit).mpr ⟨le_refl _, unit.nonempty⟩
  exact List.ne_nil_of_mem first

end Units

section Tools

variable {messages : List Json} {fragments : List Fragment} {f : Fragment}

theorem isCall.not_tool {c : Json} (call : isCall c) : isTool c = false := by
  rw [isTool, call.1]
  rfl

/-- A tool message and its assistant message are in one fragment. -/
theorem Units.answers_within (h : Units messages 0 fragments) (mem : f ∈ fragments) {a j : Nat} (inside : j ∈ f.indices)
    (answers : Answers messages a j) : a ∈ f.indices := by
  obtain ⟨before, ⟨c, at_a, call⟩, between⟩ := answers
  have bound : a < messages.length := (List.getElem?_eq_some_iff.mp at_a).1
  obtain ⟨g, within, holds⟩ := h.exists_fragment bound
  have unit := h.isUnit within
  have span := (mem_indices unit).mp holds
  -- the assistant message opens its fragment, which takes all tool messages after it
  have opens : g.start = a := by
    by_contra other
    obtain ⟨m, at_a', tool⟩ := unit.tools a (by omega) span.2
    rw [at_a] at at_a'
    rw [← Option.some.inj at_a', call.not_tool] at tool
    cases tool
  have reaches : j < g.stop := by
    by_contra short
    obtain ⟨m, next, tool⟩ := between g.stop (by omega) (by omega)
    rw [← opens] at at_a
    rw [unit.maximal c m at_a call.2 next] at tool
    cases tool
  have same : f = g := h.unique mem within inside ((mem_indices unit).mpr ⟨by omega, reaches⟩)
  rw [same]
  exact holds

theorem answered_nil : Answered [] := fun _ _ found => by cases found

theorem answered_singleton {m : Json} (h : isTool m = false) : Answered [m] := by
  intro j m' found tool
  cases j with
  | zero =>
    obtain rfl := Option.some.inj found
    rw [h] at tool
    cases tool
  | succ j => cases found

theorem Answers.append_right {xs : List Json} {a j : Nat} (h : Answers xs a j) (ys : List Json) : Answers (xs ++ ys) a j := by
  obtain ⟨before, ⟨c, at_a, call⟩, between⟩ := h
  refine ⟨before, ⟨c, ?_, call⟩, fun k lo hi => ?_⟩
  · rw [List.getElem?_append_left (List.getElem?_eq_some_iff.mp at_a).1, at_a]
  · obtain ⟨m, at_k, tool⟩ := between k lo hi
    exact ⟨m, by rw [List.getElem?_append_left (List.getElem?_eq_some_iff.mp at_k).1, at_k], tool⟩

theorem Answers.append_left {ys : List Json} {a j : Nat} (h : Answers ys a j) (xs : List Json) :
    Answers (xs ++ ys) (xs.length + a) (xs.length + j) := by
  obtain ⟨before, ⟨c, at_a, call⟩, between⟩ := h
  refine ⟨by omega, ⟨c, ?_, call⟩, fun k lo hi => ?_⟩
  · rw [List.getElem?_append_right (by omega), Nat.add_sub_cancel_left, at_a]
  · obtain ⟨m, at_k, tool⟩ := between (k - xs.length) (by omega) (by omega)
    exact ⟨m, by rw [List.getElem?_append_right (by omega), at_k], tool⟩

theorem Answered.append {xs ys : List Json} (h : Answered xs) (h' : Answered ys) : Answered (xs ++ ys) := by
  intro j m found tool
  by_cases left : j < xs.length
  · rw [List.getElem?_append_left left] at found
    obtain ⟨a, answers⟩ := h j m found tool
    exact ⟨a, answers.append_right ys⟩
  · rw [List.getElem?_append_right (by omega)] at found
    obtain ⟨a, answers⟩ := h' (j - xs.length) m found tool
    have := answers.append_left xs
    rw [Nat.add_sub_cancel' (by omega)] at this
    exact ⟨_, this⟩

theorem answered_flatten {pieces : List (List Json)} (h : ∀ piece ∈ pieces, Answered piece) : Answered pieces.flatten := by
  induction pieces with
  | nil => exact answered_nil
  | cons piece pieces ih =>
    rw [List.flatten_cons]
    exact (h piece List.mem_cons_self).append (ih fun other mem => h other (List.mem_cons_of_mem _ mem))

/-- Where every tool message follows its assistant message, so it does inside a fragment. -/
theorem Units.answered_fragment (h : Units messages 0 fragments) (all : Answered messages) (mem : f ∈ fragments) :
    Answered f.messages := by
  have unit := h.isUnit mem
  intro k m found tool
  rw [getElem?_messages unit] at found
  split at found
  · rename_i inside
    obtain ⟨a, answers⟩ := all _ m found tool
    have within := (mem_indices unit).mp (h.answers_within mem ((mem_indices unit).mpr ⟨by omega, inside⟩) answers)
    obtain ⟨before, ⟨c, at_a, call⟩, between⟩ := answers
    refine ⟨a - f.start, by omega, ⟨c, ?_, call⟩, fun l lo hi => ?_⟩
    · rw [getElem?_messages unit, if_pos (by omega), Nat.add_sub_cancel' within.1, at_a]
    · obtain ⟨m', at_l, tool'⟩ := between (f.start + l) (by omega) (by omega)
      exact ⟨m', by rw [getElem?_messages unit, if_pos (by omega), at_l], tool'⟩
  · cases found

end Tools

end Unhardcoded.Guarantees.Compaction

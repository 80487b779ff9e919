import Unhardcoded.Python.Dict
import Mathlib.Algebra.Order.Ring.Rat

/-!
# Caches under puts and drops

A cache is a dictionary of stamped values. A `put` writes the entry of its key, a `drop`
loses the entries of some keys: a cache that is cleared or bounded drops what it likes. So
an entry is the last put of its key, and no later drop was of its key (`mem_replay`). A read
finds an entry that is younger than the time to live (`get`).
-/

namespace Unhardcoded.Effects

open Python

/-- The last event that has `P`, with no `Q` behind it, seen from the end. -/
theorem split_last {ε : Type} {P Q : ε → Prop} {events : List ε} {event : ε} :
    (∃ before here later, events ++ [event] = before ++ here :: later ∧ P here ∧ ∀ e ∈ later, ¬ Q e) ↔
      P event ∨ (∃ before here later, events = before ++ here :: later ∧ P here ∧ ∀ e ∈ later, ¬ Q e) ∧ ¬ Q event := by
  constructor
  · rintro ⟨before, here, later, split, holds, quiet⟩
    cases later using List.reverseRecOn with
    | nil =>
      have last : event = here := (List.cons.inj (List.append_inj' split rfl).2).1
      exact .inl (last ▸ holds)
    | append_singleton later last =>
      rw [← List.cons_append, ← List.append_assoc] at split
      obtain ⟨same, final⟩ := List.append_inj' split rfl
      have final : event = last := (List.cons.inj final).1
      refine .inr ⟨⟨before, here, later, same, holds, fun e mem => quiet e (List.mem_append_left _ mem)⟩, ?_⟩
      rw [final]
      exact quiet last (List.mem_append_right _ List.mem_cons_self)
  · rintro (holds | ⟨⟨before, here, later, rfl, holds, quiet⟩, silent⟩)
    · exact ⟨events, event, [], rfl, holds, by simp⟩
    · refine ⟨before, here, later ++ [event], by simp, holds, fun e mem => ?_⟩
      rcases List.mem_append.mp mem with old | new
      · exact quiet e old
      · rw [List.mem_singleton.mp new]
        exact silent

namespace KeyedCache

variable {κ ν : Type} [DecidableEq κ]

inductive Change (κ ν : Type) where
  | put (key : κ) (time : ℚ) (value : ν)
  | drop (lost : κ → Bool)

/-- The entry of the key is not what it was. -/
def Change.Touches (key : κ) : Change κ ν → Prop
  | .put other _ _ => other = key
  | .drop lost => lost key = true

def commit (cache : List (κ × (ℚ × ν))) : Change κ ν → List (κ × (ℚ × ν))
  | .put key time value => insert key (time, value) cache
  | .drop lost => cache.filter fun entry => !lost entry.1

def replay (changes : List (Change κ ν)) : List (κ × (ℚ × ν)) := changes.foldl commit []

/-- `cache.get(key)`, if the entry is younger than the time to live. -/
def get (ttl now : ℚ) (cache : List (κ × (ℚ × ν))) (key : κ) : Option ν :=
  ((cache.lookup key).filter fun entry => now - entry.1 < ttl).map (·.2)

theorem replay_append (changes : List (Change κ ν)) (change : Change κ ν) :
    replay (changes ++ [change]) = commit (replay changes) change := by
  simp only [replay, List.foldl_append, List.foldl_cons, List.foldl_nil]

theorem nodup_replay (changes : List (Change κ ν)) : ((replay changes).map (·.1)).Nodup := by
  induction changes using List.reverseRecOn with
  | nil => exact List.nodup_nil
  | append_singleton changes change ih =>
    rw [replay_append]
    cases change with
    | put key time value => exact nodup_insert ih _ _
    | drop lost => exact nodup_filter ih _

/-- One change: what is in the cache was put by it, or was there and is not of a key that it touches. -/
theorem mem_commit {cache : List (κ × (ℚ × ν))} (distinct : (cache.map (·.1)).Nodup) (change : Change κ ν) (key : κ)
    (time : ℚ) (value : ν) :
    (key, (time, value)) ∈ commit cache change ↔
      change = .put key time value ∨ (key, (time, value)) ∈ cache ∧ ¬ change.Touches key := by
  cases change with
  | put other time' value' =>
    rw [commit, ← lookup_eq_some_iff_mem (nodup_insert distinct _ _), lookup_insert]
    by_cases same : key = other
    · subst same
      simp [Change.Touches, eq_comm]
    · rw [if_neg same, lookup_eq_some_iff_mem distinct]
      simp [Change.Touches, Ne.symm same]
  | drop lost => simp [commit, Change.Touches]

/-- An entry is the last put of its key, with no drop of the key behind it. -/
theorem mem_replay (changes : List (Change κ ν)) (key : κ) (time : ℚ) (value : ν) :
    (key, (time, value)) ∈ replay changes ↔
      ∃ before change later, changes = before ++ change :: later ∧ change = .put key time value ∧
        ∀ c ∈ later, ¬ c.Touches key := by
  induction changes using List.reverseRecOn with
  | nil => simp [replay]
  | append_singleton changes change ih =>
    rw [replay_append, mem_commit (nodup_replay changes), ih, split_last]

theorem get_eq_some {ttl now : ℚ} {changes : List (Change κ ν)} {key : κ} {value : ν} :
    get ttl now (replay changes) key = some value ↔ ∃ time, (key, (time, value)) ∈ replay changes ∧ now - time < ttl := by
  unfold get
  rw [Option.map_eq_some_iff]
  constructor
  · rintro ⟨⟨time, value⟩, found, rfl⟩
    obtain ⟨held, young⟩ := Option.filter_eq_some_iff.mp found
    exact ⟨time, mem_of_lookup held, by simpa using young⟩
  · rintro ⟨time, mem, young⟩
    refine ⟨(time, value), Option.filter_eq_some_iff.mpr ⟨?_, by simpa using young⟩, rfl⟩
    exact (lookup_eq_some_iff_mem (nodup_replay changes)).mpr mem

end KeyedCache

end Unhardcoded.Effects

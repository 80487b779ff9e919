import Mathlib.Data.List.Induction
import Unhardcoded.Python.Json

/-!
# Dictionaries as lists of entries

Rules of `lookup` and `insert`: a dictionary is the list of its entries in insertion
order, with distinct keys.
-/

namespace Unhardcoded.Python

variable {α β : Type} [DecidableEq α] {d : List (α × β)}

theorem lookup_insert_self (key : α) (value : β) (d : List (α × β)) :
    (insert key value d).lookup key = some value := by
  unfold insert
  split
  · rename_i found
    induction d with
    | nil => cases found
    | cons entry d ih =>
      by_cases same : key = entry.1
      · subst same
        rw [List.map_cons, if_pos rfl, List.lookup_cons_self]
      · rw [List.lookup_cons, beq_eq_false_iff_ne.mpr same] at found
        rw [List.map_cons, if_neg (Ne.symm same), List.lookup_cons, beq_eq_false_iff_ne.mpr same]
        exact ih found
  · rename_i absent
    rw [List.lookup_append, Option.not_isSome_iff_eq_none.mp absent, Option.none_or, List.lookup_cons_self]

theorem lookup_insert_of_ne {key other : α} (h : other ≠ key) (value : β) (d : List (α × β)) :
    (insert key value d).lookup other = d.lookup other := by
  unfold insert
  split
  · rename_i found
    clear found
    induction d with
    | nil => rfl
    | cons entry d ih =>
      rw [List.map_cons, List.lookup_cons, List.lookup_cons, ih]
      by_cases same : entry.1 = key
      · rw [if_pos same, same, beq_eq_false_iff_ne.mpr h]
      · rw [if_neg same]
  · rw [List.lookup_append, List.lookup_cons, beq_eq_false_iff_ne.mpr h, List.lookup_nil, Option.or_none]

theorem lookup_insert (key other : α) (value : β) (d : List (α × β)) :
    (insert key value d).lookup other = if other = key then some value else d.lookup other := by
  split
  · rename_i same
    rw [same, lookup_insert_self]
  · rename_i different
    exact lookup_insert_of_ne different value d

/-- `d.pop(key, None)`. -/
theorem lookup_erase (key other : α) (d : List (α × β)) :
    (d.filter fun entry => entry.1 ≠ key).lookup other = if other = key then none else d.lookup other := by
  induction d with
  | nil => simp
  | cons entry d ih =>
    rw [List.filter_cons]
    by_cases same : entry.1 = key
    · rw [if_neg (by simp [same]), ih]
      split
      · rfl
      · rename_i different
        rw [List.lookup_cons, beq_eq_false_iff_ne.mpr (same ▸ different)]
    · rw [if_pos (by simp [same]), List.lookup_cons, List.lookup_cons, ih]
      by_cases here : other = entry.1
      · subst here
        simp [same]
      · simp [beq_eq_false_iff_ne.mpr here]

theorem lookup_of_mem (distinct : (d.map (·.1)).Nodup) {key : α} {value : β} (mem : (key, value) ∈ d) :
    d.lookup key = some value := by
  induction d with
  | nil => cases mem
  | cons entry d ih =>
    rw [List.map_cons, List.nodup_cons] at distinct
    rcases List.mem_cons.mp mem with rfl | later
    · exact List.lookup_cons_self
    · have different : key ≠ entry.1 := fun same =>
        distinct.1 (same ▸ List.mem_map_of_mem (f := Prod.fst) later)
      rw [List.lookup_cons, beq_eq_false_iff_ne.mpr different]
      exact ih distinct.2 later

theorem lookup_eq_some_iff_mem (distinct : (d.map (·.1)).Nodup) {key : α} {value : β} :
    d.lookup key = some value ↔ (key, value) ∈ d :=
  ⟨mem_of_lookup, lookup_of_mem distinct⟩

/-- Dictionaries that differ in the order of their entries only. -/
theorem lookup_perm {d' : List (α × β)} (distinct : (d.map (·.1)).Nodup) (perm : d'.Perm d) (key : α) :
    d'.lookup key = d.lookup key := by
  have distinct' : (d'.map (·.1)).Nodup := (perm.map _).nodup_iff.mpr distinct
  refine Option.ext fun value => ?_
  rw [lookup_eq_some_iff_mem distinct', lookup_eq_some_iff_mem distinct, perm.mem_iff]

omit [DecidableEq α] in
theorem nodup_filter (distinct : (d.map (·.1)).Nodup) (keep : α × β → Bool) : ((d.filter keep).map (·.1)).Nodup :=
  (List.filter_sublist.map _).nodup distinct

theorem lookup_filter (distinct : (d.map (·.1)).Nodup) {keep : α × β → Bool} {key : α} {value : β} :
    (d.filter keep).lookup key = some value ↔ d.lookup key = some value ∧ keep (key, value) = true := by
  rw [lookup_eq_some_iff_mem distinct, lookup_eq_some_iff_mem (nodup_filter distinct keep), List.mem_filter]

/-- Entries taken by their key. -/
theorem lookup_filter_keys (keeps : α → Bool) (d : List (α × β)) (k : α) :
    (d.filter fun entry => keeps entry.1).lookup k = if keeps k then d.lookup k else none := by
  induction d with
  | nil => simp
  | cons entry d ih =>
    rw [List.filter_cons, List.lookup_cons]
    by_cases here : k = entry.1
    · subst here
      by_cases kept : keeps entry.1 = true
      · rw [if_pos kept, if_pos kept, List.lookup_cons, beq_self_eq_true]
      · rw [if_neg kept, ih, if_neg kept, if_neg kept]
    · rw [beq_eq_false_iff_ne.mpr here]
      by_cases kept : keeps entry.1 = true
      · rw [if_pos kept, List.lookup_cons, beq_eq_false_iff_ne.mpr here]
        exact ih
      · rw [if_neg kept]
        exact ih

theorem exists_lookup {key : α} (mem : key ∈ d.map (·.1)) : ∃ value, d.lookup key = some value := by
  obtain ⟨entry, within, rfl⟩ := List.mem_map.mp mem
  exact Option.isSome_iff_exists.mp (List.lookup_isSome_iff.mpr ⟨entry, within, beq_self_eq_true _⟩)

theorem keys_insert (key : α) (value : β) (d : List (α × β)) :
    (insert key value d).map (·.1) = if (d.lookup key).isSome then d.map (·.1) else d.map (·.1) ++ [key] := by
  unfold insert
  split
  · rw [List.map_map]
    refine List.map_congr_left fun entry _ => ?_
    by_cases same : entry.1 = key
    · rw [Function.comp_apply, if_pos same, same]
    · rw [Function.comp_apply, if_neg same]
  · rw [List.map_append]
    rfl

theorem mem_keys_insert {key other : α} {value : β} :
    other ∈ (insert key value d).map (·.1) ↔ other = key ∨ other ∈ d.map (·.1) := by
  rw [keys_insert]
  split
  · rename_i found
    constructor
    · exact .inr
    · rintro (rfl | mem)
      · obtain ⟨value, found⟩ := Option.isSome_iff_exists.mp found
        exact List.mem_map_of_mem (mem_of_lookup found)
      · exact mem
  · rw [List.mem_append, List.mem_singleton, or_comm]

theorem insert_of_absent {key : α} (h : d.lookup key = none) (value : β) : insert key value d = d ++ [(key, value)] := by
  rw [insert, h]
  rfl

/-- An entry written again. -/
theorem insert_of_lookup (distinct : (d.map (·.1)).Nodup) {key : α} {value : β} (h : d.lookup key = some value) :
    insert key value d = d := by
  rw [insert, h, Option.isSome_some, if_pos rfl]
  calc
    _ = d.map id := List.map_congr_left fun entry mem => ?_
    _ = d := List.map_id d
  by_cases same : entry.1 = key
  · rw [if_pos same]
    have here := lookup_of_mem distinct mem
    rw [same, h] at here
    rw [Option.some.inj here, ← same]
    rfl
  · exact if_neg same

theorem lookup_last {key : α} (h : d.lookup key = none) (value : β) : (d ++ [(key, value)]).lookup key = some value := by
  rw [List.lookup_append, h, Option.none_or, List.lookup_cons_self]

/-- The last entry written again. -/
theorem insert_last {key : α} (h : d.lookup key = none) (old value : β) :
    insert key value (d ++ [(key, old)]) = d ++ [(key, value)] := by
  rw [insert, lookup_last h, Option.isSome_some, if_pos rfl, List.map_append, List.map_cons, if_pos rfl, List.map_nil]
  congr 1
  calc
    _ = d.map id := List.map_congr_left fun entry mem => ?_
    _ = d := List.map_id d
  refine if_neg fun same => ?_
  obtain ⟨value, found⟩ := exists_lookup (List.mem_map_of_mem (f := Prod.fst) mem)
  rw [same, h] at found
  cases found

theorem nodup_insert (distinct : (d.map (·.1)).Nodup) (key : α) (value : β) :
    ((insert key value d).map (·.1)).Nodup := by
  rw [keys_insert]
  split
  · exact distinct
  · rename_i absent
    refine List.nodup_append.mpr ⟨distinct, List.nodup_singleton _, fun old mem new here same => absent ?_⟩
    rw [← List.mem_singleton.mp here, ← same]
    obtain ⟨value, found⟩ := exists_lookup mem
    rw [found]
    rfl

/-- A loop that writes one entry for each row. -/
theorem mem_foldl_insert {γ : Type} {key : γ → α} {value : γ → β} {rows : List γ} {entry : α × β}
    (h : entry ∈ rows.foldl (fun d row => insert (key row) (value row) d) d) :
    (∃ row ∈ rows, entry = (key row, value row)) ∨ entry ∈ d := by
  induction rows generalizing d with
  | nil => exact .inr h
  | cons row rows ih =>
    rcases ih h with ⟨other, mem, same⟩ | earlier
    · exact .inl ⟨other, List.mem_cons_of_mem _ mem, same⟩
    · rcases mem_insert earlier with same | kept
      · exact .inl ⟨row, List.mem_cons_self, same⟩
      · exact .inr kept.1

theorem lookup_foldl_insert {γ : Type} {key : γ → α} {value : γ → β} {rows : List γ} {other : α}
    (absent : ∀ row ∈ rows, other ≠ key row) :
    (rows.foldl (fun d row => insert (key row) (value row) d) d).lookup other = d.lookup other := by
  induction rows generalizing d with
  | nil => rfl
  | cons row rows ih =>
    rw [List.foldl_cons, ih fun row mem => absent row (List.mem_cons_of_mem _ mem)]
    exact lookup_insert_of_ne (absent row List.mem_cons_self) _ _

/-- `{**d, **e}` of a dictionary `e`. -/
theorem lookup_update {e : List (α × β)} (distinct : (e.map (·.1)).Nodup) (d : List (α × β)) (key : α) :
    (e.foldl (fun d entry => insert entry.1 entry.2 d) d).lookup key = (e.lookup key).or (d.lookup key) := by
  induction e generalizing d with
  | nil => rfl
  | cons entry e ih =>
    rw [List.map_cons, List.nodup_cons] at distinct
    rw [List.foldl_cons, ih distinct.2, lookup_insert, List.lookup_cons]
    by_cases same : key = entry.1
    · subst same
      have absent : e.lookup entry.1 = none := by
        refine Option.eq_none_iff_forall_ne_some.mpr fun value found => distinct.1 ?_
        exact List.mem_map.mpr ⟨_, mem_of_lookup found, rfl⟩
      rw [absent, if_pos rfl, beq_self_eq_true]
      rfl
    · rw [if_neg same, beq_eq_false_iff_ne.mpr same]

/-- A dictionary that is built from its entries. -/
theorem foldl_insert_nodup (distinct : (d.map (·.1)).Nodup) :
    d.foldl (fun d entry => insert entry.1 entry.2 d) [] = d := by
  induction d using List.reverseRecOn with
  | nil => rfl
  | append_singleton d entry ih =>
    rw [List.map_append, List.map_singleton, List.nodup_append] at distinct
    obtain ⟨distinct, -, apart⟩ := distinct
    have absent : d.lookup entry.1 = none := by
      rw [List.lookup_eq_none_iff]
      intro other mem
      have := apart other.1 (List.mem_map_of_mem mem) entry.1 (List.mem_singleton_self _)
      simpa using Ne.symm this
    rw [List.foldl_append, ih distinct, List.foldl_cons, List.foldl_nil, insert_of_absent absent]

/-- Numeric keys that were entered in increasing order. -/
theorem inKeyOrder_of_increasing {β : Type} {d : List (Key × β)} (numbers : List ℚ)
    (keys : d.map (·.1) = numbers.map .num) (increasing : numbers.Pairwise (· < ·)) : inKeyOrder d = .ok (d.map (·.2)) := by
  have ordered : sortedKeys (d.map (·.1)) = .ok (d.map (·.1)) := by
    have found : (numbers.map Key.num).filterMap Key.num? = numbers := by
      rw [List.filterMap_map]
      exact List.filterMap_some
    unfold sortedKeys
    dsimp only
    rw [keys, found, List.length_map, if_pos rfl, List.Pairwise.insertionSort_eq (increasing.imp le_of_lt)]
    split
    · rfl
    · rfl
  have distinct : (d.map (·.1)).Nodup := by
    rw [keys]
    exact (increasing.imp fun less => ne_of_lt less).map _ fun _ _ different same => different (Key.num.inj same)
  rw [inKeyOrder, ordered]
  refine congrArg Except.ok ?_
  rw [List.filterMap_map]
  calc
    _ = d.filterMap fun entry => some entry.2 := List.filterMap_congr fun entry mem => lookup_of_mem distinct mem
    _ = d.map (·.2) := congrFun List.filterMap_eq_map' d

end Unhardcoded.Python

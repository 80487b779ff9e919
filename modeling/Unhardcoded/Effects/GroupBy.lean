import Mathlib.Algebra.BigOperators.Group.List.Basic
import Mathlib.Algebra.GroupWithZero.Nat
import Mathlib.Data.List.Dedup
import Mathlib.Data.List.Induction
import Mathlib.Data.List.Sort
import Unhardcoded.Python.Dict

/-!
# Grouping rows by a key

`groupBy` takes the rows of each key together. A loop that adds each row to the
accumulator of its key leaves, under each key, the loop over its group (`lookup_tally`);
the groups make up the rows (`groups_perm`), so a table of groups can be grouped again by
part of their key (`regroup`). A dictionary listed by its keys is determined by its
lookups (`byKey_eq_iff`).
-/

namespace Unhardcoded.Effects.GroupBy

open Python

variable {α κ γ δ : Type} [DecidableEq κ]

/-- The rows of a key, in order. -/
def group (key : α → κ) (k : κ) (rows : List α) : List α := rows.filter fun r => key r = k

/-- `GROUP BY`. -/
def groupBy (key : α → κ) (f : List α → γ) (rows : List α) : List (κ × γ) :=
  (rows.map key).dedup.map fun k => (k, f (group key k rows))

/-- A loop over the rows into a dictionary of accumulators. -/
def tally (key : α → κ) (init : γ) (add : γ → α → γ) (rows : List α) : List (κ × γ) :=
  rows.foldl (fun d r => insert (key r) (add ((d.lookup (key r)).getD init) r) d) []

/-- The entries with their values changed. -/
def mapValues (f : γ → δ) (d : List (κ × γ)) : List (κ × δ) := d.map fun entry => (entry.1, f entry.2)

/-- The entries whose value gives another. -/
def pickValues (f : κ → γ → Option δ) (d : List (κ × γ)) : List (κ × δ) :=
  d.filterMap fun entry => (f entry.1 entry.2).map fun value => (entry.1, value)

section Lookup

variable {key : α → κ} {rows : List α}

theorem lookup_mapValues (f : γ → δ) (d : List (κ × γ)) (k : κ) : (mapValues f d).lookup k = (d.lookup k).map f := by
  induction d with
  | nil => rfl
  | cons entry d ih =>
    rw [mapValues, List.map_cons, List.lookup_cons, List.lookup_cons]
    split
    · rfl
    · exact ih

omit [DecidableEq κ] in
theorem keys_mapValues (f : γ → δ) (d : List (κ × γ)) : (mapValues f d).map (·.1) = d.map (·.1) := by
  rw [mapValues, List.map_map]
  rfl

omit [DecidableEq κ] in
theorem mem_pickValues {f : κ → γ → Option δ} {d : List (κ × γ)} {k : κ} {value : δ} :
    (k, value) ∈ pickValues f d ↔ ∃ old, (k, old) ∈ d ∧ f k old = some value := by
  rw [pickValues, List.mem_filterMap]
  constructor
  · rintro ⟨⟨k', old⟩, mem, same⟩
    obtain ⟨value', gives, pair⟩ := Option.map_eq_some_iff.mp same
    obtain ⟨rfl, rfl⟩ := Prod.mk.inj pair
    exact ⟨old, mem, gives⟩
  · rintro ⟨old, mem, gives⟩
    exact ⟨(k, old), mem, by rw [gives]; rfl⟩

omit [DecidableEq κ] in
theorem keys_pickValues (f : κ → γ → Option δ) (d : List (κ × γ)) :
    ((pickValues f d).map (·.1)).Sublist (d.map (·.1)) := by
  induction d with
  | nil => exact List.Sublist.slnil
  | cons entry d ih =>
    rw [pickValues, List.filterMap_cons, List.map_cons]
    split
    · exact ih.trans (List.sublist_cons_self _ _)
    · rename_i picked found
      obtain ⟨value, -, rfl⟩ := Option.map_eq_some_iff.mp found
      exact ih.cons_cons entry.1

theorem lookup_pickValues (f : κ → γ → Option δ) {d : List (κ × γ)} (distinct : (d.map (·.1)).Nodup) (k : κ) :
    (pickValues f d).lookup k = (d.lookup k).bind (f k) := by
  refine Option.ext fun value => ?_
  rw [lookup_eq_some_iff_mem ((keys_pickValues f d).nodup distinct), mem_pickValues, Option.bind_eq_some_iff]
  exact exists_congr fun old => and_congr_left fun _ => (lookup_eq_some_iff_mem distinct).symm

theorem keys_groupBy (key : α → κ) (f : List α → γ) (rows : List α) :
    (groupBy key f rows).map (·.1) = (rows.map key).dedup := by
  rw [groupBy, List.map_map]
  exact List.map_id _

theorem lookup_groupBy (key : α → κ) (f : List α → γ) (rows : List α) (k : κ) :
    (groupBy key f rows).lookup k = if k ∈ rows.map key then some (f (group key k rows)) else none := by
  split
  · rename_i mem
    refine lookup_of_mem ?_ (List.mem_map_of_mem (f := fun k => (k, f (group key k rows))) (List.mem_dedup.mpr mem))
    rw [keys_groupBy]
    exact List.nodup_dedup _
  · rename_i absent
    refine List.lookup_eq_none_iff.mpr fun entry mem => ?_
    obtain ⟨other, within, rfl⟩ := List.mem_map.mp mem
    refine bne_iff_ne.mpr ?_
    rintro rfl
    exact absent (List.mem_dedup.mp within)

theorem group_concat (key : α → κ) (k : κ) (rows : List α) (r : α) :
    group key k (rows ++ [r]) = if key r = k then group key k rows ++ [r] else group key k rows := by
  rw [group, List.filter_append, List.filter_singleton]
  by_cases here : key r = k
  · rw [if_pos here, decide_eq_true here]
    rfl
  · rw [if_neg here, decide_eq_false here]
    exact List.append_nil _

theorem group_of_notMem {k : κ} (h : k ∉ rows.map key) : group key k rows = [] := by
  refine List.filter_eq_nil_iff.mpr fun r mem => ?_
  have other : key r ≠ k := fun same => h (same ▸ List.mem_map_of_mem mem)
  simpa using other

theorem tally_concat (key : α → κ) (init : γ) (add : γ → α → γ) (rows : List α) (r : α) :
    tally key init add (rows ++ [r]) =
      insert (key r) (add (((tally key init add rows).lookup (key r)).getD init) r) (tally key init add rows) := by
  rw [tally, List.foldl_append]
  rfl

theorem lookup_tally (key : α → κ) (init : γ) (add : γ → α → γ) (rows : List α) (k : κ) :
    (tally key init add rows).lookup k =
      if k ∈ rows.map key then some ((group key k rows).foldl add init) else none := by
  induction rows using List.reverseRecOn generalizing k with
  | nil => rfl
  | append_singleton rows r ih =>
    have before : ((tally key init add rows).lookup (key r)).getD init = (group key (key r) rows).foldl add init := by
      rw [ih]
      split
      · rfl
      · rename_i absent
        rw [group_of_notMem absent]
        rfl
    rw [tally_concat, lookup_insert, before, group_concat, List.map_append, List.map_singleton]
    by_cases here : k = key r
    · subst here
      rw [if_pos rfl, if_pos (List.mem_append_right _ (List.mem_singleton_self _)), if_pos rfl, List.foldl_append]
      rfl
    · rw [if_neg here, ih, if_neg (Ne.symm here)]
      simp [here]

theorem nodup_tally (key : α → κ) (init : γ) (add : γ → α → γ) (rows : List α) :
    ((tally key init add rows).map (·.1)).Nodup := by
  induction rows using List.reverseRecOn with
  | nil => exact List.nodup_nil
  | append_singleton rows r ih =>
    rw [tally_concat]
    exact nodup_insert ih _ _

end Lookup

section Sorted

variable [LinearOrder κ] {d d' : List (κ × γ)}

/-- `sorted(d.items())`, for distinct keys. -/
def byKey (d : List (κ × γ)) : List (κ × γ) := d.insertionSort fun a b => a.1 ≤ b.1

omit [DecidableEq κ] in
theorem byKey_perm (d : List (κ × γ)) : (byKey d).Perm d := List.perm_insertionSort _ d

omit [LinearOrder κ] in
theorem perm_of_lookup (distinct : (d.map (·.1)).Nodup) (distinct' : (d'.map (·.1)).Nodup)
    (same : ∀ k, d.lookup k = d'.lookup k) : d.Perm d' := by
  refine (List.perm_ext_iff_of_nodup (List.Nodup.of_map _ distinct) (List.Nodup.of_map _ distinct')).mpr ?_
  rintro ⟨k, value⟩
  rw [← lookup_eq_some_iff_mem distinct, ← lookup_eq_some_iff_mem distinct', same]

theorem byKey_eq_of_perm (distinct : (d.map (·.1)).Nodup) (perm : d.Perm d') : byKey d = byKey d' := by
  have sorted (l : List (κ × γ)) : (byKey l).Pairwise fun a b => a.1 ≤ b.1 := by
    have : IsTrans (κ × γ) fun a b => a.1 ≤ b.1 := ⟨fun _ _ _ => le_trans⟩
    have : Std.Total fun a b : κ × γ => a.1 ≤ b.1 := ⟨fun a b => le_total a.1 b.1⟩
    exact List.pairwise_insertionSort _ l
  refine List.Perm.eq_of_pairwise ?_ (sorted d) (sorted d') (((byKey_perm d).trans perm).trans (byKey_perm d').symm)
  rintro ⟨k, value⟩ ⟨k', value'⟩ mem mem' le le'
  have keys : k = k' := le_antisymm le le'
  subst keys
  have here := lookup_of_mem distinct ((byKey_perm d).mem_iff.mp mem)
  have there := lookup_of_mem distinct (perm.mem_iff.mpr ((byKey_perm d').mem_iff.mp mem'))
  rw [here] at there
  rw [Option.some.inj there]

theorem byKey_eq_iff (distinct : (d.map (·.1)).Nodup) (distinct' : (d'.map (·.1)).Nodup) :
    byKey d = byKey d' ↔ ∀ k, d.lookup k = d'.lookup k := by
  constructor
  · intro same k
    have perm : d'.Perm d := ((byKey_perm d').symm.trans (by rw [← same])).trans (byKey_perm d)
    exact (lookup_perm distinct perm k).symm
  · intro same
    exact byKey_eq_of_perm distinct (perm_of_lookup distinct distinct' same)

omit [DecidableEq κ] in
theorem byKey_mapValues (f : γ → δ) (d : List (κ × γ)) : byKey (mapValues f d) = mapValues f (byKey d) := by
  refine (List.map_insertionSort (fun a b => a.1 ≤ b.1) (fun a b : κ × δ => a.1 ≤ b.1) (fun e => (e.1, f e.2)) d ?_).symm
  intro a _ b _
  exact Iff.rfl

/-- A loop into accumulators against a query of the groups, key by key. -/
theorem tally_eq_groupBy_iff {ε : Type} (key : α → κ) (init : γ) (add : γ → α → γ) (f : List α → δ) (g : γ → ε) (h : δ → ε)
    (rows : List α) :
    mapValues g (byKey (tally key init add rows)) = mapValues h (byKey (groupBy key f rows)) ↔
      ∀ k ∈ rows.map key, g ((group key k rows).foldl add init) = h (f (group key k rows)) := by
  have distinct : ((mapValues g (tally key init add rows)).map (·.1)).Nodup := by
    rw [keys_mapValues]
    exact nodup_tally key init add rows
  have distinct' : ((mapValues h (groupBy key f rows)).map (·.1)).Nodup := by
    rw [keys_mapValues, keys_groupBy]
    exact List.nodup_dedup _
  rw [← byKey_mapValues, ← byKey_mapValues, byKey_eq_iff distinct distinct']
  refine forall_congr' fun k => ?_
  rw [lookup_mapValues, lookup_mapValues, lookup_tally, lookup_groupBy]
  by_cases mem : k ∈ rows.map key
  · simp [mem]
  · simp [mem]

end Sorted

section Sums

variable {key : α → κ}

theorem sum_map_ite (l : List κ) (k : κ) (n : Nat) : (l.map fun x => if x = k then n else 0).sum = l.count k * n := by
  induction l with
  | nil => simp
  | cons x l ih =>
    rw [List.map_cons, List.sum_cons, ih, List.count_cons]
    by_cases here : x = k
    · rw [if_pos here, if_pos (by simpa using here), Nat.add_mul, Nat.one_mul, Nat.add_comm]
    · rw [if_neg here, if_neg (by simpa using here), Nat.add_zero, Nat.zero_add]

/-- The groups of some keys make up the rows that have them. -/
theorem groups_perm (key : α → κ) (keeps : κ → Bool) (rows : List α) :
    (((rows.map key).dedup.filter keeps).flatMap fun k => group key k rows).Perm (rows.filter fun r => keeps (key r)) := by
  classical
  refine List.perm_iff_count.mpr fun r => ?_
  have distinct : ((rows.map key).dedup.filter keeps).Nodup := (List.nodup_dedup _).filter _
  have share : ∀ k, (group key k rows).count r = if k = key r then rows.count r else 0 := by
    intro k
    split
    · rename_i here
      rw [group, List.count_filter (by simp [here])]
    · rename_i other
      refine List.count_eq_zero.mpr fun mem => other ?_
      simpa [eq_comm] using (List.mem_filter.mp mem).2
  have shares : ((rows.map key).dedup.filter keeps).map (List.count r ∘ fun k => group key k rows) =
      ((rows.map key).dedup.filter keeps).map fun k => if k = key r then rows.count r else 0 :=
    List.map_congr_left fun k _ => share k
  rw [List.count_flatMap, shares, sum_map_ite]
  by_cases kept : r ∈ rows ∧ keeps (key r) = true
  · have mem : key r ∈ (rows.map key).dedup.filter keeps :=
      List.mem_filter.mpr ⟨List.mem_dedup.mpr (List.mem_map_of_mem kept.1), kept.2⟩
    have whole : (rows.filter fun r => keeps (key r)).count r = rows.count r := List.count_filter (by exact kept.2)
    rw [List.count_eq_one_of_mem distinct mem, Nat.one_mul, whole]
  · have none : (rows.filter fun r => keeps (key r)).count r = 0 :=
      List.count_eq_zero.mpr fun mem => kept (List.mem_filter.mp mem)
    rw [none]
    by_cases there : r ∈ rows
    · have dropped : key r ∉ (rows.map key).dedup.filter keeps :=
        fun mem => kept ⟨there, (List.mem_filter.mp mem).2⟩
      rw [List.count_eq_zero.mpr dropped, Nat.zero_mul]
    · rw [List.count_eq_zero.mpr there, Nat.mul_zero]

end Sums

section Totals

variable {M : Type} [AddCommMonoid M]

theorem tally_perm (key : α → κ) (init : γ) (add : γ → α → γ) (rows : List α) :
    (tally key init add rows).Perm (groupBy key (fun rows => rows.foldl add init) rows) := by
  refine perm_of_lookup (nodup_tally key init add rows) ?_ fun k => ?_
  · rw [keys_groupBy]
    exact List.nodup_dedup _
  · rw [lookup_tally, lookup_groupBy]

omit [DecidableEq κ] in
theorem measure_foldl {measure : γ → M} {weight : α → M} {add : γ → α → γ}
    (adds : ∀ g a, measure (add g a) = measure g + weight a) (rows : List α) (g : γ) :
    measure (rows.foldl add g) = measure g + (rows.map weight).sum := by
  induction rows generalizing g with
  | nil => simp
  | cons r rows ih => rw [List.foldl_cons, ih, adds, List.map_cons, List.sum_cons, add_assoc]

/-- What the accumulators measure adds up to what the rows weigh, however they are grouped. -/
theorem sum_tally (measure : γ → M) {weight : α → M} {add : γ → α → γ} {init : γ} (empty : measure init = 0)
    (adds : ∀ g a, measure (add g a) = measure g + weight a) (key : α → κ) (rows : List α) :
    ((tally key init add rows).map fun entry => measure entry.2).sum = (rows.map weight).sum := by
  have groups := groups_perm key (fun _ => true) rows
  rw [List.filter_true, List.filter_true] at groups
  have each : ((rows.map key).dedup.map fun k => measure ((group key k rows).foldl add init)) =
      (rows.map key).dedup.map fun k => ((group key k rows).map weight).sum :=
    List.map_congr_left fun k _ => by rw [measure_foldl adds, empty, zero_add]
  calc
    _ = ((groupBy key (fun rows => rows.foldl add init) rows).map fun entry => measure entry.2).sum :=
      ((tally_perm key init add rows).map _).sum_eq
    _ = ((rows.map key).dedup.map fun k => ((group key k rows).map weight).sum).sum := by
      rw [groupBy, List.map_map, ← each]
      rfl
    _ = (((rows.map key).dedup.flatMap fun k => group key k rows).map weight).sum := by
      rw [List.flatMap_def, List.map_flatten, List.sum_flatten, List.map_map, List.map_map]
      rfl
    _ = (rows.map weight).sum := (groups.map weight).sum_eq

end Totals

section Regroup

variable {κ' δ : Type} [DecidableEq κ'] {key : α → κ} {f : List α → γ} {F : List α → δ} {m : List γ → δ}

theorem groupBy_congr {key' : α → κ} {rows : List α} (same : ∀ r ∈ rows, key r = key' r) (f : List α → γ) :
    groupBy key f rows = groupBy key' f rows := by
  have keys : rows.map key = rows.map key' := List.map_congr_left same
  have groups (k : κ) : group key k rows = group key' k rows :=
    List.filter_congr fun r mem => by rw [same r mem]
  rw [groupBy, groupBy, keys]
  exact List.map_congr_left fun k _ => by rw [groups]

theorem groupBy_map {rename : κ → κ'} (inj : Function.Injective rename) (key : α → κ) (f : List α → γ) (rows : List α) :
    (groupBy key f rows).map (fun entry => (rename entry.1, entry.2)) = groupBy (fun r => rename (key r)) f rows := by
  have keys : rows.map (fun r => rename (key r)) = (rows.map key).map rename := by rw [List.map_map]; rfl
  have groups (k : κ) : group (fun r => rename (key r)) (rename k) rows = group key k rows :=
    List.filter_congr fun r _ => by simp only [inj.eq_iff]
  rw [groupBy, groupBy, keys, List.dedup_map_of_injective inj, List.map_map, List.map_map]
  exact List.map_congr_left fun k _ => by rw [Function.comp, Function.comp, groups]

/-- What is put together from the groups of some keys is had from their rows. -/
theorem combine_groupBy (key : α → κ) (merges : ∀ parts : List (List α), m (parts.map f) = F parts.flatten)
    (orderless : ∀ l l' : List α, l.Perm l' → F l = F l') (keeps : κ → Bool) (rows : List α) :
    m (((groupBy key f rows).filter fun entry => keeps entry.1).map (·.2)) = F (rows.filter fun r => keeps (key r)) := by
  have groups : ((groupBy key f rows).filter fun entry => keeps entry.1).map (·.2) =
      (((rows.map key).dedup.filter keeps).map fun k => group key k rows).map f := by
    rw [groupBy, List.filter_map, List.map_map, List.map_map]
    rfl
  rw [groups, merges, ← List.flatMap_def]
  exact orderless _ _ (groups_perm key keeps rows)

/-- Grouping a table of groups by part of their key is grouping the rows by it. -/
theorem regroup (merges : ∀ parts : List (List α), m (parts.map f) = F parts.flatten)
    (orderless : ∀ l l' : List α, l.Perm l' → F l = F l') (orderless' : ∀ l l' : List γ, l.Perm l' → m l = m l')
    (keeps : κ → Bool) {table : List (κ × γ)} {rows : List α}
    (perm : table.Perm ((groupBy key f rows).filter fun entry => keeps entry.1)) (part : κ → κ') :
    (groupBy (fun entry => part entry.1) (fun entries => m (entries.map (·.2))) table).Perm
      (groupBy (fun r => part (key r)) F (rows.filter fun r => keeps (key r))) := by
  have distinct {β : Type} {key : β → κ'} {ε : Type} (f : List β → ε) (l : List β) : ((groupBy key f l).map (·.1)).Nodup := by
    rw [keys_groupBy]
    exact List.nodup_dedup _
  refine perm_of_lookup (distinct _ _) (distinct _ _) fun k => ?_
  have keys : k ∈ table.map (fun entry => part entry.1) ↔ k ∈ (rows.filter fun r => keeps (key r)).map fun r => part (key r) := by
    rw [(perm.map _).mem_iff]
    simp only [groupBy, List.mem_map, List.mem_filter, List.mem_dedup]
    constructor
    · rintro ⟨entry, ⟨⟨fine, ⟨r, mem, rfl⟩, rfl⟩, kept⟩, rfl⟩
      exact ⟨r, ⟨mem, kept⟩, rfl⟩
    · rintro ⟨r, ⟨mem, kept⟩, rfl⟩
      exact ⟨_, ⟨⟨key r, ⟨r, mem, rfl⟩, rfl⟩, kept⟩, rfl⟩
  have groups : m ((group (fun entry => part entry.1) k table).map (·.2)) =
      F (group (fun r => part (key r)) k (rows.filter fun r => keeps (key r))) := by
    have both : m (((groupBy key f rows).filter fun entry => keeps entry.1 && decide (part entry.1 = k)).map (·.2)) =
        F (rows.filter fun r => keeps (key r) && decide (part (key r) = k)) :=
      combine_groupBy key merges orderless (fun fine => keeps fine && decide (part fine = k)) rows
    have entries : ((group (fun entry => part entry.1) k table).map (·.2)).Perm
        (((groupBy key f rows).filter fun entry => keeps entry.1 && decide (part entry.1 = k)).map (·.2)) := by
      simpa only [group, List.filter_filter, Bool.and_comm] using
        (perm.filter fun entry => decide (part entry.1 = k)).map (·.2)
    rw [orderless' _ _ entries, both, group, List.filter_filter]
    simp only [Bool.and_comm]
  rw [lookup_groupBy, lookup_groupBy, groups]
  simp only [keys]

end Regroup

end Unhardcoded.Effects.GroupBy

import Unhardcoded.Source.DecisionProtocol
import Unhardcoded.Source.LuaMarshal

/-!
# What comes back from Lua

A value comes back equal if it has no empty list and no null in a list or a dictionary: a
null loses its place in the table, and an empty table is a dictionary. In the questions of
a valid payload no list is empty, so the nulls decide.
-/

namespace Unhardcoded.Guarantees.LuaMarshal

open Python Source.LuaMarshal

section Conditions

def isNull : Json → Bool
  | .null => true
  | _ => false

mutual

/-- A dictionary has one entry for a key, at every level. -/
def distinct : Json → Bool
  | .arr items => distinctItems items
  | .obj fields => (fields.map (·.1)).Nodup && distinctFields fields
  | _ => true

def distinctItems : List Json → Bool
  | [] => true
  | item :: items => distinct item && distinctItems items

def distinctFields : List (String × Json) → Bool
  | [] => true
  | (_, value) :: fields => distinct value && distinctFields fields

end

mutual

/-- No empty list, and no null below the top. -/
def carried : Json → Bool
  | .arr items => !items.isEmpty && carriedItems items
  | .obj fields => carriedFields fields
  | _ => true

def carriedItems : List Json → Bool
  | [] => true
  | item :: items => !isNull item && carried item && carriedItems items

def carriedFields : List (String × Json) → Bool
  | [] => true
  | (_, value) :: fields => !isNull value && carried value && carriedFields fields

end

/-- Criteria that are not null and have no null description. -/
def whole : Json → Bool
  | .null => false
  | .arr items => items.all fun item => !isNull item
  | .obj fields => fields.all fun entry => !isNull entry.2
  | _ => true

def described (question : Json) : Bool := (question.field? "criteria").all whole

theorem carriedItems_iff {items : List Json} :
    carriedItems items = true ↔ ∀ item ∈ items, isNull item = false ∧ carried item = true := by
  induction items with
  | nil => simp [carriedItems]
  | cons item items ih => simp [carriedItems, ih, and_assoc]

theorem carriedFields_iff {fields : List (String × Json)} :
    carriedFields fields = true ↔ ∀ entry ∈ fields, isNull entry.2 = false ∧ carried entry.2 = true := by
  induction fields with
  | nil => simp [carriedFields]
  | cons entry fields ih => simp [carriedFields, ih, and_assoc]

end Conditions

section Tables

variable {order : Order}

theorem toLuaItems_eq (items : List Json) : toLuaItems order items = items.map (toLua order) := by
  induction items with
  | nil => rfl
  | cons item items ih => rw [toLuaItems, ih, List.map_cons]

theorem toLuaFields_eq (fields : List (String × Json)) :
    toLuaFields order fields = fields.map fun entry => (.str entry.1, toLua order entry.2) := by
  induction fields with
  | nil => rfl
  | cons entry fields ih => rw [toLuaFields, ih, List.map_cons]

theorem toPyEntries_eq (entries : List (LuaKey × Lua)) : toPyEntries entries = entries.map fun entry => (entry.1, toPy entry.2) := by
  induction entries with
  | nil => rfl
  | cons entry entries ih => rw [toPyEntries, ih, List.map_cons]

theorem ofItems_eq (items : List Json) : ofItems items = items.map ofJson := by
  induction items with
  | nil => rfl
  | cons item items ih => rw [ofItems, ih, List.map_cons]

theorem ofFields_eq (fields : List (String × Json)) : ofFields fields = fields.map fun entry => (.str entry.1, ofJson entry.2) := by
  induction fields with
  | nil => rfl
  | cons entry fields ih => rw [ofFields, ih, List.map_cons]

theorem isNil_toLua (v : Json) : (toLua order v).isNil = isNull v := by
  cases v with
  | null => rfl
  | bool b => rfl
  | int n => rfl
  | float value repr => rfl
  | str text => rfl
  | arr items => rfl
  | obj fields => rfl

/-- Entries of new keys are stored one after the other, the nil ones not at all. -/
theorem foldl_setEntry {entries table : List (LuaKey × Lua)} (distinct : ((table ++ entries).map (·.1)).Nodup) :
    entries.foldl setEntry table = table ++ entries.filter fun entry => !entry.2.isNil := by
  induction entries generalizing table with
  | nil => simp
  | cons entry entries ih =>
    have absent : ∀ old ∈ table, old.1 ≠ entry.1 := by
      intro old mem same
      rw [List.map_append, List.nodup_append] at distinct
      exact distinct.2.2 old.1 (List.mem_map_of_mem mem) entry.1 (by simp) same
    have rest : ((table ++ entries).map (·.1)).Nodup := by
      refine List.Nodup.sublist (List.Sublist.map _ ?_) distinct
      exact List.Sublist.append_left (List.sublist_cons_self _ _) _
    rw [List.foldl_cons, setEntry, List.filter_cons]
    cases isNil : entry.2.isNil with
    | true =>
      have same : table.filter (fun old => old.1 ≠ entry.1) = table := by
        refine List.filter_eq_self.mpr fun old mem => ?_
        simpa using absent old mem
      simp only [if_true, same, Bool.not_true, Bool.false_eq_true, if_false]
      exact ih rest
    | false =>
      have new : table.lookup entry.1 = none := by
        refine List.lookup_eq_none_iff.mpr fun old mem => ?_
        simpa using fun same => absent old mem same.symm
      simp only [Bool.false_eq_true, if_false, Bool.not_false, if_true]
      rw [insert_of_absent new, ih]
      · simp
      · simpa using distinct

theorem tableFrom_eq {entries : List (LuaKey × Lua)} (distinct : (entries.map (·.1)).Nodup) :
    tableFrom entries = entries.filter fun entry => !entry.2.isNil := by
  unfold tableFrom
  rw [foldl_setEntry (by simpa using distinct), List.nil_append]

theorem keys_numbered {α : Type} (items : List α) : (numbered items).map (·.1) = indices items.length := by
  unfold numbered indices
  rw [List.map_map, ← List.zipIdx_map_snd 1 items, List.map_map]
  rfl

theorem nodup_indices (n : Nat) : (indices n).Nodup := by
  unfold indices
  refine List.Nodup.map (fun a b same => ?_) List.nodup_range'
  exact LuaKey.int.inj same

/-- The entries that come back from a table: those of the values that are not null. -/
theorem back_perm {pairs : List (LuaKey × Json)} (distinct : (pairs.map (·.1)).Nodup) :
    (toPyEntries (order.apply (tableFrom (pairs.map fun pair => (pair.1, toLua order pair.2))))).Perm
      ((pairs.filter fun pair => !isNull pair.2).map fun pair => (pair.1, toPy (toLua order pair.2))) := by
  rw [toPyEntries_eq, tableFrom_eq (by simpa [Function.comp_def] using distinct)]
  refine ((order.perm _).map _).trans (List.Perm.of_eq ?_)
  rw [List.filter_map, List.map_map]
  congr 1
  refine List.filter_congr fun pair _ => ?_
  simp [isNil_toLua]

theorem numbered_map {α β : Type} (f : α → β) (items : List α) :
    numbered (items.map f) = (numbered items).map fun pair => (pair.1, f pair.2) := by
  simp [numbered, List.zipIdx_map]

theorem mem_numbered {α : Type} {items : List α} {item : α} : (∃ key, (key, item) ∈ numbered items) ↔ item ∈ items := by
  constructor
  · rintro ⟨key, mem⟩
    obtain ⟨pair, within, same⟩ := List.mem_map.mp mem
    obtain ⟨_, rfl⟩ := Prod.mk.injEq .. ▸ same
    exact List.fst_mem_of_mem_zipIdx within
  · intro mem
    rw [← List.zipIdx_map_fst 1 items] at mem
    obtain ⟨pair, within, rfl⟩ := List.mem_map.mp mem
    exact ⟨.int pair.2, List.mem_map.mpr ⟨pair, within, rfl⟩⟩

end Tables

section Reading

variable {entries : List (LuaKey × Source.LuaMarshal.Value)}

theorem ofTable_dict (names : ∀ entry ∈ entries, entry.1.isInt = false) : ofTable entries = .dict entries := by
  cases entries with
  | nil => rfl
  | cons entry entries =>
    refine if_neg ?_
    simp [names entry List.mem_cons_self]

/-- The items of a table that is numbered from 1, in any order. -/
theorem ofTable_list {items : List Source.LuaMarshal.Value} (nonempty : items ≠ []) (perm : entries.Perm (numbered items)) :
    ofTable entries = .list items := by
  have keys : (entries.map (·.1)).Perm (indices items.length) := by
    rw [← keys_numbered]
    exact perm.map _
  have length : (entries.map (·.1)).length = items.length := by
    rw [keys.length_eq]
    simp [indices]
  have numbers : (!(entries.map (·.1)).isEmpty && (entries.map (·.1)).all LuaKey.isInt &&
      (entries.map (·.1)).all (indices items.length).contains && (indices items.length).all (entries.map (·.1)).contains) = true := by
    have some_ : (entries.map (·.1)).isEmpty = false := by
      rw [List.isEmpty_eq_false_iff, ← List.length_pos_iff, length]
      exact List.length_pos_iff.mpr nonempty
    simp only [some_, Bool.not_false, Bool.true_and, Bool.and_eq_true, List.all_eq_true, List.contains_iff_mem]
    refine ⟨⟨fun key mem => ?_, fun key mem => keys.mem_iff.mp mem⟩, fun key mem => keys.mem_iff.mpr mem⟩
    obtain ⟨n, _, rfl⟩ := List.mem_map.mp (keys.mem_iff.mp mem)
    rfl
  have distinct : ((numbered items).map (·.1)).Nodup := by
    rw [keys_numbered]
    exact nodup_indices _
  unfold ofTable
  simp only [length, numbers, if_true, Source.LuaMarshal.Value.list.injEq]
  calc
    _ = (indices items.length).map fun i => ((numbered items).lookup i).getD .none :=
        List.map_congr_left fun i _ => by rw [lookup_perm distinct perm]
    _ = (numbered items).map fun pair => ((numbered items).lookup pair.1).getD .none := by
        rw [← keys_numbered, List.map_map]
        rfl
    _ = (numbered items).map (·.2) :=
        List.map_congr_left fun pair mem => by rw [lookup_of_mem distinct mem, Option.getD_some]
    _ = items := by simp [numbered, List.map_map, Function.comp_def]

/-- A table that is read as a list of this length has as many entries. -/
theorem ofTable_length {others : List Source.LuaMarshal.Value} (same : equal (ofTable entries) (.list others) = true) :
    entries ≠ [] ∧ entries.length = others.length := by
  have lengths : ∀ vs ws : List Source.LuaMarshal.Value, equalItems vs ws = true → vs.length = ws.length := by
    intro vs
    induction vs with
    | nil =>
      intro ws same
      cases ws with
      | nil => rfl
      | cons w ws => cases same
    | cons v vs ih =>
      intro ws same
      cases ws with
      | nil => cases same
      | cons w ws =>
        rw [equalItems, Bool.and_eq_true] at same
        rw [List.length_cons, List.length_cons, ih ws same.2]
  simp only [ofTable] at same
  split at same
  · rename_i numbers
    simp only [equal] at same
    have length := lengths _ _ same
    constructor
    · rintro rfl
      simp at numbers
    · simpa [indices] using length
  · simp [equal, number?] at same

theorem equalItems_iff (f g : Json → Source.LuaMarshal.Value) (items : List Json) :
    equalItems (items.map f) (items.map g) = true ↔ ∀ item ∈ items, equal (f item) (g item) = true := by
  induction items with
  | nil => simp [equalItems]
  | cons item items ih => simp [equalItems, ih]

theorem equalEntries_iff (others : List (LuaKey × Source.LuaMarshal.Value)) :
    equalEntries entries others = true ↔ ∀ entry ∈ entries, ∃ w, others.lookup entry.1 = some w ∧ equal entry.2 w = true := by
  induction entries with
  | nil => simp [equalEntries]
  | cons entry entries ih =>
    rw [equalEntries, Bool.and_eq_true, ih, List.forall_mem_cons]
    refine and_congr_left fun _ => ?_
    cases others.lookup entry.1 with
    | none => simp
    | some w => simp

end Reading

section RoundTrip

variable {order : Order}

theorem length_of_no_null {pairs : List (LuaKey × Json)} :
    (pairs.filter fun pair => !isNull pair.2).length = pairs.length ↔ ∀ pair ∈ pairs, isNull pair.2 = false := by
  rw [List.length_filter_eq_length_iff]
  simp

/-- A list, given what becomes of its items. -/
theorem survives_arr {items : List Json}
    (children : ∀ item ∈ items, equal (toPy (toLua order item)) (ofJson item) = true ↔ carried item = true) :
    equal (toPy (toLua order (.arr items))) (ofJson (.arr items)) = true ↔ carried (.arr items) = true := by
  have keys : ((numbered items).map (·.1)).Nodup := by
    rw [keys_numbered]
    exact nodup_indices _
  have back : (toPyEntries (order.apply (tableFrom ((numbered items).map fun pair => (pair.1, toLua order pair.2))))).Perm _ :=
    back_perm keys
  rw [← numbered_map] at back
  rw [toLua, toLuaItems_eq, toPy, ofJson, ofItems_eq, carried, Bool.and_eq_true, carriedItems_iff]
  have numberedLength : (numbered items).length = items.length := by simp [numbered]
  constructor
  · intro same
    obtain ⟨nonempty, length⟩ := ofTable_length same
    rw [back.length_eq, List.length_map, List.length_map, ← numberedLength, length_of_no_null] at length
    have noNull : ∀ item ∈ items, isNull item = false := by
      intro item mem
      obtain ⟨key, within⟩ := mem_numbered.mpr mem
      exact length (key, item) within
    have some_ : items ≠ [] := by
      rintro rfl
      exact nonempty (List.length_eq_zero_iff.mp back.length_eq)
    rw [List.filter_eq_self.mpr (by simpa using length), ← numbered_map fun item => toPy (toLua order item)] at back
    rw [ofTable_list (by simpa using some_) back, equal, equalItems_iff] at same
    refine ⟨by simpa using some_, fun item mem => ⟨noNull item mem, ?_⟩⟩
    exact (children item mem).mp (same item mem)
  · rintro ⟨nonempty, whole⟩
    have noNull : ∀ pair ∈ numbered items, isNull pair.2 = false := by
      intro pair mem
      exact (whole pair.2 (mem_numbered.mp ⟨pair.1, mem⟩)).1
    rw [List.filter_eq_self.mpr (by simpa using noNull), ← numbered_map fun item => toPy (toLua order item)] at back
    rw [ofTable_list (by simpa using nonempty) back, equal, equalItems_iff]
    intro item mem
    exact (children item mem).mpr (whole item mem).2

theorem nodup_str {α : Type} {fields : List (String × Json)} (keys : (fields.map (·.1)).Nodup) (f : Json → α) :
    ((fields.map fun entry => (LuaKey.str entry.1, f entry.2)).map (·.1)).Nodup := by
  rw [List.map_map]
  have strings : ((fields.map (·.1)).map LuaKey.str).Nodup := keys.map fun a b same => LuaKey.str.inj same
  rw [List.map_map] at strings
  exact strings

theorem lookup_ofFields {fields : List (String × Json)} (keys : (fields.map (·.1)).Nodup) {entry : String × Json}
    (mem : entry ∈ fields) : (fields.map fun entry => (LuaKey.str entry.1, ofJson entry.2)).lookup (.str entry.1) = some (ofJson entry.2) := by
  exact lookup_of_mem (nodup_str keys ofJson) (List.mem_map.mpr ⟨entry, mem, rfl⟩)

/-- A dictionary, given what becomes of its values. -/
theorem survives_obj {fields : List (String × Json)} (keys : (fields.map (·.1)).Nodup)
    (children : ∀ entry ∈ fields, equal (toPy (toLua order entry.2)) (ofJson entry.2) = true ↔ carried entry.2 = true) :
    equal (toPy (toLua order (.obj fields))) (ofJson (.obj fields)) = true ↔ carried (.obj fields) = true := by
  let pairs := fields.map fun entry => (LuaKey.str entry.1, entry.2)
  have back := (back_perm (nodup_str keys id) : List.Perm (toPyEntries (order.apply (tableFrom (pairs.map fun pair => (pair.1, toLua order pair.2))))) _)
  have table : pairs.map (fun pair => (pair.1, toLua order pair.2)) = fields.map fun entry => (.str entry.1, toLua order entry.2) := by
    rw [List.map_map]
    rfl
  rw [table] at back
  rw [toLua, toLuaFields_eq, toPy, ofJson, ofFields_eq, carried, carriedFields_iff, ofTable_dict]
  · rw [equal, Bool.and_eq_true, decide_eq_true_eq, equalEntries_iff, back.length_eq, List.length_map, List.length_map]
    have pairsLength : pairs.length = fields.length := List.length_map _
    rw [← pairsLength, length_of_no_null]
    have values : (∀ pair ∈ pairs, isNull pair.2 = false) ↔ ∀ entry ∈ fields, isNull entry.2 = false :=
      List.forall_mem_map
    rw [values]
    constructor
    · rintro ⟨noNull, same⟩ entry mem
      refine ⟨noNull entry mem, (children entry mem).mp ?_⟩
      have stored : (LuaKey.str entry.1, toPy (toLua order entry.2)) ∈
          toPyEntries (order.apply (tableFrom (fields.map fun entry => (.str entry.1, toLua order entry.2)))) := by
        refine back.mem_iff.mpr (List.mem_map.mpr ⟨(.str entry.1, entry.2), List.mem_filter.mpr ⟨?_, ?_⟩, rfl⟩)
        · exact List.mem_map.mpr ⟨entry, mem, rfl⟩
        · simp [noNull entry mem]
      obtain ⟨w, found, equals⟩ := same _ stored
      rw [lookup_ofFields keys mem] at found
      exact Option.some.inj found ▸ equals
    · intro whole
      refine ⟨fun entry mem => (whole entry mem).1, fun stored mem => ?_⟩
      obtain ⟨pair, within, rfl⟩ := List.mem_map.mp (back.mem_iff.mp mem)
      obtain ⟨entry, here, rfl⟩ := List.mem_map.mp (List.mem_filter.mp within).1
      exact ⟨ofJson entry.2, lookup_ofFields keys here, (children entry here).mpr (whole entry here).2⟩
  · intro stored mem
    obtain ⟨pair, within, rfl⟩ := List.mem_map.mp (back.mem_iff.mp mem)
    obtain ⟨entry, _, rfl⟩ := List.mem_map.mp (List.mem_filter.mp within).1
    rfl

mutual

/-- The law of the round trip, for values of any nesting. -/
theorem survives_iff : ∀ v, distinct v = true → (equal (toPy (toLua order v)) (ofJson v) = true ↔ carried v = true)
  | .null, _ => by simp [toLua, toPy, ofJson, equal, carried]
  | .bool b, _ => by simp [toLua, toPy, ofJson, equal, carried, number?]
  | .int n, _ => by simp [toLua, toPy, ofJson, equal, carried, number?]
  | .float value repr, _ => by simp [toLua, toPy, ofJson, equal, carried, number?]
  | .str text, _ => by simp [toLua, toPy, ofJson, equal, carried]
  | .arr items, h => survives_arr (survives_items items h)
  | .obj fields, h => by
    rw [distinct, Bool.and_eq_true, decide_eq_true_eq] at h
    exact survives_obj h.1 (survives_fields fields h.2)

theorem survives_items : ∀ items, distinctItems items = true →
    ∀ item ∈ items, (equal (toPy (toLua order item)) (ofJson item) = true ↔ carried item = true)
  | [], _ => by simp
  | item :: items, h => by
    rw [distinctItems, Bool.and_eq_true] at h
    exact List.forall_mem_cons.mpr ⟨survives_iff item h.1, survives_items items h.2⟩

theorem survives_fields : ∀ fields, distinctFields fields = true →
    ∀ entry ∈ fields, (equal (toPy (toLua order entry.2)) (ofJson entry.2) = true ↔ carried entry.2 = true)
  | [], _ => by simp
  | (key, value) :: fields, h => by
    rw [distinctFields, Bool.and_eq_true] at h
    exact List.forall_mem_cons.mpr ⟨survives_iff value h.1, survives_fields fields h.2⟩

end

end RoundTrip

section Questions

open Source.DecisionProtocol

variable {order : Order}

/-- A valid description is lost or kept as it is. -/
theorem carried_of_description {v : Json} (h : description v = true) : carried v = true := by
  cases v with
  | null => rfl
  | str text => rfl
  | _ => cases h

/-- The criteria of a valid question, where they are not null. -/
theorem whole_iff {kind criteria : Json} {descriptions : List Json} (read : criteriaValues kind criteria = .ok descriptions)
    (valid : descriptions.all description = true) : whole criteria = true ↔ isNull criteria = false ∧ carried criteria = true := by
  cases criteria with
  | arr items =>
    have score : 2 ≤ items.length ∧ descriptions = items := by
      unfold criteriaValues at read
      split at read
      · obtain ⟨_, dict, _⟩ := ok_of_bind read
        have := of_require dict
        simp [Json.isObj] at this
      · obtain ⟨_, many, ok⟩ := ok_of_bind read
        have := of_require many
        simp only [Bool.and_eq_true, decide_eq_true_eq] at this
        exact ⟨this.1, (Except.ok.inj ok).symm⟩
      · obtain ⟨_, dict, _⟩ := ok_of_bind read
        have := of_require dict
        simp [Json.isObj] at this
      · cases read
    obtain ⟨many, rfl⟩ := score
    have nonempty : descriptions.isEmpty = false := by
      rw [List.isEmpty_eq_false_iff, ← List.length_pos_iff]
      omega
    rw [whole, carried, nonempty, Bool.not_false, Bool.true_and, carriedItems_iff, List.all_eq_true]
    constructor
    · intro named
      refine ⟨rfl, fun item mem => ⟨by simpa using named item mem, ?_⟩⟩
      exact carried_of_description (List.all_eq_true.mp valid item mem)
    · rintro ⟨_, kept⟩ item mem
      simp [(kept item mem).1]
  | obj entries =>
    have values : descriptions = entries.map (·.2) := by
      unfold criteriaValues at read
      split at read
      · obtain ⟨_, _, read⟩ := ok_of_bind read
        obtain ⟨_, _, read⟩ := ok_of_bind read
        exact (Except.ok.inj read).symm
      · cases read
      · obtain ⟨_, _, read⟩ := ok_of_bind read
        exact (Except.ok.inj read).symm
      · cases read
    subst values
    rw [whole, carried, carriedFields_iff, List.all_eq_true]
    constructor
    · intro named
      refine ⟨rfl, fun entry mem => ⟨by simpa using named entry mem, ?_⟩⟩
      exact carried_of_description (List.all_eq_true.mp valid entry.2 (List.mem_map_of_mem mem))
    · rintro ⟨_, kept⟩ entry mem
      simp [(kept entry mem).1]
  | null => simp [whole, isNull]
  | bool b => simp [whole, isNull, carried]
  | int n => simp [whole, isNull, carried]
  | float value repr => simp [whole, isNull, carried]
  | str text => simp [whole, isNull, carried]

/-- A valid question comes back if its criteria are whole. -/
theorem described_iff {name : String} {question : Json} {u : Unit} (valid : validateQuestion name question = .ok u)
    (dicts : distinct question = true) : described question = true ↔ isNull question = false ∧ carried question = true := by
  obtain ⟨_, dict, rest⟩ := ok_of_bind valid
  obtain ⟨_, names, rest⟩ := ok_of_bind rest
  obtain ⟨_, text, rest⟩ := ok_of_bind rest
  obtain ⟨descriptions, read, short⟩ := ok_of_bind rest
  have isObj := (Bool.and_eq_true _ _ ▸ of_require dict).2
  have known := of_require names
  have instructions := of_require text
  have descriptive := of_require short
  cases question with
  | obj entries =>
    rw [distinct, Bool.and_eq_true, decide_eq_true_eq] at dicts
    rw [carried, carriedFields_iff]
    constructor
    · intro asked
      refine ⟨rfl, fun entry mem => ?_⟩
      have here : entries.lookup entry.1 = some entry.2 := lookup_of_mem dicts.1 mem
      have field : ∀ key, entry.1 = key → (Json.obj entries).field key = entry.2 := by
        rintro key rfl
        simp [Json.field, Json.field?, here]
      have among := List.all_eq_true.mp known entry mem
      simp only [List.mem_cons, List.not_mem_nil, or_false, decide_eq_true_eq] at among
      rcases among with kind | text | criteria
      · -- the type is one of three texts
        rw [field "type" kind] at read
        cases type : entry.2 with
        | str text => exact ⟨rfl, rfl⟩
        | _ =>
          rw [type] at read
          cases read
      · rw [field "instructions" text] at instructions
        cases shape : entry.2 with
        | str text => exact ⟨rfl, rfl⟩
        | _ =>
          rw [shape] at instructions
          cases instructions
      · rw [field "criteria" criteria] at read
        refine (whole_iff read descriptive).mp ?_
        rw [criteria] at here
        simpa [described, Json.field?, here] using asked
    · rintro ⟨_, kept⟩
      cases found : entries.lookup "criteria" with
      | none => simp [described, Json.field?, found]
      | some criteria =>
        have same : (Json.obj entries).field "criteria" = criteria := by simp [Json.field, Json.field?, found]
        rw [same] at read
        simpa [described, Json.field?, found] using (whole_iff read descriptive).mpr (kept _ (mem_of_lookup found))
  | _ => cases isObj

theorem validateQuestions_of_mem {questions : List (String × Json)} {u : Unit} (valid : validateQuestions questions = .ok u)
    {entry : String × Json} (mem : entry ∈ questions) : ∃ u, validateQuestion entry.1 entry.2 = .ok u := by
  induction questions with
  | nil => cases mem
  | cons first questions ih =>
    obtain ⟨v, here, rest⟩ := ok_of_bind valid
    rcases List.mem_cons.mp mem with rfl | later
    · exact ⟨v, here⟩
    · exact ih rest later

theorem distinctFields_iff {fields : List (String × Json)} :
    distinctFields fields = true ↔ ∀ entry ∈ fields, distinct entry.2 = true := by
  induction fields with
  | nil => simp [distinctFields]
  | cons entry fields ih => simp [distinctFields, ih]

/-- The questions of a valid payload come back equal exactly if nothing in their criteria is null. -/
theorem questions_survive_iff (order : Order) {payload checked : Json} (accepted : validatePayload payload = .ok checked)
    (dicts : distinct (payload.field "questions") = true) :
    equal (nodeQuestions order (payload.field "questions")) (ofJson (payload.field "questions")) = true ↔
      ∀ entry ∈ fields (payload.field "questions"), described entry.2 = true := by
  obtain ⟨_, _, accepted⟩ := ok_of_bind accepted
  obtain ⟨_, _, accepted⟩ := ok_of_bind accepted
  obtain ⟨_, dict, accepted⟩ := ok_of_bind accepted
  obtain ⟨_, valid, _⟩ := ok_of_bind accepted
  have dict := of_require dict
  rw [nodeQuestions, survives_iff _ dicts]
  cases questions : payload.field "questions" with
  | obj entries =>
    rw [questions] at valid dicts
    rw [distinct, Bool.and_eq_true] at dicts
    rw [carried, carriedFields_iff]
    refine forall₂_congr fun entry mem => ?_
    obtain ⟨u, asked⟩ := validateQuestions_of_mem valid mem
    exact (described_iff asked (distinctFields_iff.mp dicts.2 entry mem)).symm
  | _ =>
    rw [questions] at dict
    cases dict

/-- Which team a ticket is for, with these criteria. -/
def ticket (criteria : Json) : Json :=
  .obj [("state", .str "The card was charged twice."), ("questions", .obj [("team", .obj [("type", .str "choice"),
    ("instructions", .str "Which team should handle this?"), ("criteria", criteria)])])]

/-- A table that gives its entries as they were written. -/
def asWritten : Order := ⟨id, fun _ => List.Perm.refl _⟩

theorem accepted_of_isOk {payload : Json} (h : (validatePayload payload).toBool = true) :
    ∃ checked, validatePayload payload = .ok checked := by
  cases accepted : validatePayload payload with
  | ok checked => exact ⟨checked, rfl⟩
  | error e =>
    rw [accepted] at h
    cases h

theorem questions_survive_ticket : equal (nodeQuestions asWritten
    ((ticket (.obj [("billing", .str "Payments"), ("technical", .str "Software")])).field "questions"))
    (ofJson ((ticket (.obj [("billing", .str "Payments"), ("technical", .str "Software")])).field "questions")) = true := by
  obtain ⟨checked, accepted⟩ : ∃ checked, validatePayload
      (ticket (.obj [("billing", .str "Payments"), ("technical", .str "Software")])) = .ok checked :=
    accepted_of_isOk (by decide +kernel)
  refine (questions_survive_iff asWritten accepted (by decide +kernel)).mpr fun entry mem => ?_
  obtain rfl := List.mem_singleton.mp mem
  rfl

/-- A choice without a description is not asked. -/
theorem null_choice_lost : ¬ ∀ (order : Order) (payload checked : Json), validatePayload payload = .ok checked →
    distinct (payload.field "questions") = true →
    equal (nodeQuestions order (payload.field "questions")) (ofJson (payload.field "questions")) = true := by
  intro survives
  obtain ⟨checked, accepted⟩ : ∃ checked,
      validatePayload (ticket (.obj [("billing", .null), ("technical", .str "Software")])) = .ok checked :=
    accepted_of_isOk (by decide +kernel)
  have same := survives asWritten _ checked accepted (by decide +kernel)
  have lost : equal (nodeQuestions asWritten ((ticket (.obj [("billing", .null), ("technical", .str "Software")])).field "questions"))
      (ofJson ((ticket (.obj [("billing", .null), ("technical", .str "Software")])).field "questions")) = false := by
    decide +kernel
  rw [lost] at same
  cases same

end Questions

end Unhardcoded.Guarantees.LuaMarshal

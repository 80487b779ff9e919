import Mathlib.Data.Finset.Sort
import Unhardcoded.Python.Dict
import Unhardcoded.Source.CodexAccounts

/-!
# Account names are file names

What `_safe_account_name` returns is a safe name (`safe_of_ok`), and safe names are what
it leaves as they are (`safeAccountName_safe`). A file `<name>.json` of a safe name is
neither reserved nor read under another name, so `reload` finds the accounts that were
saved, and the legacy account beside them (`reload_saved`).
-/

namespace Unhardcoded.Guarantees.CodexAccounts

open Unhardcoded.Python
open Unhardcoded.Source.CodexAccounts

section Names

/-- One to 64 characters of `[a-z0-9._-]`, a letter or a digit at both ends. -/
structure SafeName (name : String) : Prop where
  chars : ∀ c ∈ name.toList, isSlugChar c = true
  some : name.toList ≠ []
  short : name.toList.length ≤ 64
  first : ∀ c ∈ name.toList.head?, isAlnum c = true
  last : ∀ c ∈ name.toList.getLast?, isAlnum c = true

theorem mem_dashRuns {inRun : Bool} {cs : List Char} {c : Char} (mem : c ∈ dashRuns inRun cs) : isSlugChar c = true := by
  induction cs generalizing inRun with
  | nil => cases mem
  | cons d cs ih =>
    rw [dashRuns] at mem
    split at mem
    · rename_i kept
      rcases List.mem_cons.mp mem with rfl | later
      · exact kept
      · exact ih later
    · split at mem
      · exact ih mem
      · rcases List.mem_cons.mp mem with rfl | later
        · rfl
        · exact ih later

theorem dashRuns_slug {inRun : Bool} {cs : List Char} (slug : ∀ c ∈ cs, isSlugChar c = true) : dashRuns inRun cs = cs := by
  induction cs generalizing inRun with
  | nil => rfl
  | cons c cs ih =>
    rw [dashRuns, if_pos (slug c List.mem_cons_self), ih fun d mem => slug d (List.mem_cons_of_mem _ mem)]

theorem isAlnum_of_isSlugChar {c : Char} (slug : isSlugChar c = true) (plain : isMark c = false) : isAlnum c = true := by
  rw [isSlugChar, plain, Bool.or_false] at slug
  exact slug

/-- Letters and digits are no marks. -/
theorem isMark_of_isAlnum {c : Char} (alnum : isAlnum c = true) : isMark c = false := by
  rw [Bool.eq_false_iff]
  intro mark
  simp only [isMark, Bool.or_eq_true, decide_eq_true_eq] at mark
  rcases mark with (rfl | rfl) | rfl <;> revert alnum <;> decide

theorem isSlugChar_range {c : Char} (slug : isSlugChar c = true) :
    33 ≤ c.toNat ∧ c.toNat ≤ 122 ∧ ¬ (65 ≤ c.toNat ∧ c.toNat ≤ 90) := by
  simp only [isSlugChar, isAlnum, isMark, Bool.or_eq_true, Bool.and_eq_true, decide_eq_true_eq] at slug
  rcases slug with (letter | digit) | mark
  · have : 97 ≤ c.toNat ∧ c.toNat ≤ 122 := by simpa [Char.le_def, UInt32.le_iff_toNat_le] using letter
    omega
  · have : 48 ≤ c.toNat ∧ c.toNat ≤ 57 := by simpa [Char.le_def, UInt32.le_iff_toNat_le] using digit
    omega
  · rcases mark with (rfl | rfl) | rfl <;> decide

theorem isSpace_of_isSlugChar {c : Char} (slug : isSlugChar c = true) : isSpace c = false := by
  have range := isSlugChar_range slug
  simp only [isSpace, Bool.or_eq_false_iff, Bool.and_eq_false_iff, decide_eq_false_iff_not]
  omega

/-- What is left of slug characters between marks. -/
theorem safe_stripBy {cs : List Char} (slug : ∀ c ∈ cs, isSlugChar c = true) (some : stripBy isMark cs ≠ [])
    (short : (stripBy isMark cs).length ≤ 64) : SafeName (String.ofList (stripBy isMark cs)) := by
  have clear := clear_stripBy isMark cs
  have within : ∀ c ∈ stripBy isMark cs, isSlugChar c = true := fun c mem => slug c ((stripBy_sublist isMark cs).subset mem)
  constructor
  case chars => rwa [String.toList_ofList]
  case some => rwa [String.toList_ofList]
  case short => rwa [String.toList_ofList]
  case first =>
    rw [String.toList_ofList]
    intro c mem
    exact isAlnum_of_isSlugChar (within c (List.mem_of_mem_head? mem)) (clear.1 c mem)
  case last =>
    rw [String.toList_ofList]
    intro c mem
    exact isAlnum_of_isSlugChar (within c (List.mem_of_mem_getLast? mem)) (clear.2 c mem)

/-- The first character stands when the text is cut, so the cut leaves a name. -/
theorem stripBy_take_ne_nil {slug : List Char} {n : Nat} (clear : Clear isMark slug) (some : slug ≠ []) (room : 0 < n) :
    stripBy isMark (slug.take n) ≠ [] := by
  obtain ⟨c, rest, rfl⟩ := List.exists_cons_of_ne_nil some
  obtain ⟨m, rfl⟩ := Nat.exists_eq_succ_of_ne_zero (Nat.ne_of_gt room)
  rw [List.take_succ_cons]
  exact stripBy_ne_nil rfl (clear.1 c rfl)

variable {lower : String → String}

theorem safe_of_ok {raw name : String} (h : safeAccountName lower raw = .ok name) : SafeName name := by
  have slug : ∀ c ∈ dashRuns false (lower (strip raw)).toList, isSlugChar c = true := fun c mem => mem_dashRuns mem
  simp only [safeAccountName] at h
  generalize dashRuns false (lower (strip raw)).toList = cs at h slug
  split at h
  · cases h
  · rename_i some
    have whole : ∀ c ∈ stripBy isMark cs, isSlugChar c = true := fun c mem => slug c ((stripBy_sublist isMark cs).subset mem)
    split at h
    · obtain rfl := Except.ok.inj h
      apply safe_stripBy fun c mem => whole c (List.mem_of_mem_take mem)
      · exact stripBy_take_ne_nil (clear_stripBy isMark cs) some (by decide)
      · calc (stripBy isMark ((stripBy isMark cs).take 64)).length
            ≤ ((stripBy isMark cs).take 64).length := (stripBy_sublist isMark _).length_le
          _ ≤ 64 := List.length_take_le _ _
    · rename_i short
      obtain rfl := Except.ok.inj h
      exact safe_stripBy slug some (by omega)

theorem error_or_ok (lower : String → String) (raw : String) :
    safeAccountName lower raw = .error noAlnum ∨ ∃ name, safeAccountName lower raw = .ok name := by
  simp only [safeAccountName]
  split
  · exact .inl rfl
  · split
    · exact .inr ⟨_, rfl⟩
    · exact .inr ⟨_, rfl⟩

/-- A safe name goes through unchanged. -/
theorem safeAccountName_safe (plain : ∀ cs : List Char, (∀ c ∈ cs, isSlugChar c = true) →
    lower (String.ofList cs) = String.ofList cs) {name : String} (safe : SafeName name) :
    safeAccountName lower name = .ok name := by
  obtain ⟨cs, rfl⟩ : ∃ cs, name = String.ofList cs := ⟨name.toList, String.ofList_toList.symm⟩
  obtain ⟨chars, some, short, first, last⟩ := safe
  rw [String.toList_ofList] at chars some short first last
  have trimmed : Trimmed cs := by
    constructor
    · intro c mem
      exact isSpace_of_isSlugChar (chars c (List.mem_of_mem_head? mem))
    · intro c mem
      exact isSpace_of_isSlugChar (chars c (List.mem_of_mem_getLast? mem))
  have clear : Clear isMark cs := by
    constructor
    · intro c mem
      exact isMark_of_isAlnum (first c mem)
    · intro c mem
      exact isMark_of_isAlnum (last c mem)
  rw [safeAccountName, strip_trimmed trimmed, plain cs chars, String.toList_ofList, dashRuns_slug chars, stripBy_clear clear]
  rw [if_neg some, if_neg (by omega)]

/-- No file that begins with a safe name is reserved. -/
theorem SafeName.not_reserved {name : String} (safe : SafeName name) (ending : String) : isReserved (name ++ ending) = false := by
  obtain ⟨c, rest, chars⟩ := List.exists_cons_of_ne_nil safe.some
  rw [isReserved, String.toList_append, chars, Bool.eq_false_iff]
  intro here
  have same : '_' = c := by simpa using here
  have := safe.first c (by rw [chars]; rfl)
  rw [← same] at this
  revert this
  decide

/-- A safe name is one path component, and not hidden. -/
theorem SafeName.component {name : String} (safe : SafeName name) :
    '/' ∉ name.toList ∧ ∀ c ∈ name.toList.head?, c ≠ '.' := by
  constructor
  · intro mem
    have := safe.chars _ mem
    revert this
    decide
  · rintro c mem rfl
    have := safe.first _ mem
    revert this
    decide

end Names

section Reload

variable {found : List (String × Account)}

theorem mem_discover (files : List String) (name : String) :
    name ∈ (files.foldl discover found).map (·.1) ↔
      (∃ file ∈ files, isReserved file = false ∧ stem file = name) ∨ name ∈ found.map (·.1) := by
  induction files generalizing found with
  | nil => simp
  | cons file files ih =>
    rw [List.foldl_cons, ih, discover]
    cases reserved : isReserved file with
    | true => simp [reserved]
    | false =>
      rw [if_neg Bool.false_ne_true, mem_keys_insert]
      simp only [List.mem_cons, exists_eq_or_imp, reserved, true_and, or_assoc]
      rw [or_left_comm, eq_comm]

theorem distinct_discover (files : List String) (distinct : (found.map (·.1)).Nodup) :
    ((files.foldl discover found).map (·.1)).Nodup := by
  induction files generalizing found with
  | nil => exact distinct
  | cons file files ih =>
    apply ih
    unfold discover
    split
    · exact distinct
    · exact nodup_insert distinct _ _

theorem stem_json {name : String} (some : name.toList ≠ []) : stem (name ++ ".json") = name := by
  obtain ⟨c, before, chars⟩ := List.exists_cons_of_ne_nil (List.reverse_ne_nil_iff.mpr some)
  have text : (name ++ ".json").toList.reverse = 'n' :: 'o' :: 's' :: 'j' :: '.' :: c :: before := by
    rw [String.toList_append, List.reverse_append, chars]
    rfl
  rw [stem, text]
  show (if ['n', 'o', 's', 'j'] = [] then _ else String.ofList (c :: before).reverse) = name
  rw [if_neg (List.cons_ne_nil _ _), ← chars, List.reverse_reverse, String.ofList_toList]

/-- The directory holds the files of these accounts, and otherwise reserved files and files
of other kinds only. -/
structure Saved (names : Finset String) (files : List String) : Prop where
  written : ∀ name ∈ names, name ++ ".json" ∈ files
  only : ∀ file ∈ files, isJson file = true → isReserved file = false → ∃ name ∈ names, file = name ++ ".json"

/-- The saved names, and the legacy account's. -/
def listed (store : Store) (names : Finset String) : Finset String :=
  if store.legacy then Insert.insert "default" names else names

theorem mem_found {store : Store} {names : Finset String} (safe : ∀ name ∈ names, SafeName name)
    (saved : Saved names (store.files.getD [])) (name : String) :
    name ∈ store.found.map (·.1) ↔ name ∈ listed store names := by
  have scanned : name ∈ ((((store.files.getD []).filter isJson).insertionSort (· ≤ ·)).foldl discover []).map (·.1) ↔
      name ∈ names := by
    rw [mem_discover]
    simp only [List.mem_insertionSort, List.mem_filter, List.map_nil, List.not_mem_nil, or_false]
    constructor
    · rintro ⟨file, ⟨mem, json⟩, plain, rfl⟩
      obtain ⟨name, within, rfl⟩ := saved.only file mem json plain
      rwa [stem_json (safe name within).some]
    · intro within
      have name_safe := safe name within
      refine ⟨name ++ ".json", ⟨saved.written name within, ?_⟩, ?_, stem_json name_safe.some⟩
      · rw [isJson, List.isSuffixOf_iff_suffix, String.toList_append]
        exact List.suffix_append _ _
      · exact name_safe.not_reserved _
  simp only [Store.found, listed]
  cases legacy : store.legacy with
  | false => exact scanned
  | true =>
    rw [if_pos rfl, Finset.mem_insert, Bool.true_and, ← scanned]
    split
    · exact mem_keys_insert
    · rename_i taken
      constructor
      · exact .inr
      · rintro (rfl | mem)
        · rw [Option.isNone_iff_eq_none, ← Ne, Option.ne_none_iff_exists'] at taken
          obtain ⟨account, here⟩ := taken
          exact List.mem_map_of_mem (mem_of_lookup here)
        · exact mem

theorem distinct_found (store : Store) : (store.found.map (·.1)).Nodup := by
  have scanned := @distinct_discover [] (((store.files.getD []).filter isJson).insertionSort (· ≤ ·)) List.nodup_nil
  simp only [Store.found]
  split
  · exact nodup_insert scanned _ _
  · exact scanned

/-- `reload` finds the accounts that were saved under safe names, and the legacy account. -/
theorem reload_saved {store : Store} {names : Finset String} (safe : ∀ name ∈ names, SafeName name)
    (saved : Saved names (store.files.getD [])) : store.reload = (listed store names).sort (· ≤ ·) := by
  apply List.Perm.eq_of_pairwise' (List.pairwise_insertionSort _ _) (Finset.pairwise_sort _ _)
  have same : (store.found.map (·.1)).Perm ((listed store names).sort (· ≤ ·)) := by
    rw [List.perm_ext_iff_of_nodup (distinct_found store) (Finset.sort_nodup _ _)]
    intro name
    rw [Finset.mem_sort]
    exact mem_found safe saved name
  exact (List.perm_insertionSort _ _).trans same

/-- Every string has a safe name or none, a safe name is its own, and accounts saved under
safe names are found under them. -/
theorem account_names (lower : String → String) (plain : ∀ cs : List Char, (∀ c ∈ cs, isSlugChar c = true) →
      lower (String.ofList cs) = String.ofList cs) :
    (∀ raw, safeAccountName lower raw = .error noAlnum ∨ ∃ name, safeAccountName lower raw = .ok name ∧
      SafeName name ∧ '/' ∉ name.toList ∧ (∀ c ∈ name.toList.head?, c ≠ '.') ∧ isReserved name = false ∧
      safeAccountName lower name = .ok name) ∧
    ∀ (store : Store) (names : Finset String), (∀ name ∈ names, ∃ raw, safeAccountName lower raw = .ok name) →
      Saved names (store.files.getD []) → store.reload = (listed store names).sort (· ≤ ·) := by
  constructor
  · intro raw
    rcases error_or_ok lower raw with refused | ⟨name, ok⟩
    · exact .inl refused
    · have safe := safe_of_ok ok
      have plainly : isReserved name = false := by simpa using safe.not_reserved ""
      exact .inr ⟨name, ok, safe, safe.component.1, safe.component.2, plainly, safeAccountName_safe plain safe⟩
  · intro store names named saved
    apply reload_saved _ saved
    intro name mem
    obtain ⟨raw, ok⟩ := named name mem
    exact safe_of_ok ok

/-- ASCII lower case leaves slug characters. -/
theorem lower_slug {cs : List Char} (slug : ∀ c ∈ cs, isSlugChar c = true) :
    Python.lower (String.ofList cs) = String.ofList cs := by
  apply String.toList_injective
  rw [Python.lower, String.toList_map, String.toList_ofList]
  calc cs.map Char.toLower
      _ = cs.map id := List.map_congr_left fun c mem => ?_
      _ = cs := List.map_id cs
  have range := isSlugChar_range (slug c mem)
  have upper : ¬ (c.val ≥ 'A'.val ∧ c.val ≤ 'Z'.val) := by
    intro both
    have : 65 ≤ c.toNat ∧ c.toNat ≤ 90 := by simpa [UInt32.le_iff_toNat_le] using both
    omega
  exact dif_neg upper

theorem account_names_ascii :
    SafeName "team-one" ∧ safeAccountName Python.lower "team-one" = .ok "team-one" ∧
      Store.reload ⟨some ["team-one.json", "_selection.json"], false⟩ = ["team-one"] := by
  have named : safeAccountName Python.lower "Team One!" = .ok "team-one" := by decide +kernel
  obtain ⟨names, found⟩ := account_names Python.lower fun cs slug => lower_slug slug
  have saved : Saved {"team-one"} ["team-one.json", "_selection.json"] := by
    constructor
    · intro name mem
      obtain rfl := Finset.mem_singleton.mp mem
      decide
    · intro file mem _ plain
      rcases List.mem_pair.mp mem with rfl | rfl
      · exact ⟨"team-one", Finset.mem_singleton_self _, rfl⟩
      · cases plain
  rcases names "Team One!" with refused | ⟨name, ok, safe, -, -, -, again⟩
  · rw [named] at refused
    cases refused
  · obtain rfl := Except.ok.inj (ok.symm.trans named)
    refine ⟨safe, again, ?_⟩
    rw [found ⟨some ["team-one.json", "_selection.json"], false⟩ {"team-one"} (by simpa using ⟨_, named⟩) saved, listed,
      if_neg Bool.false_ne_true, Finset.sort_singleton]

/-- The legacy account is found although it was not saved. -/
theorem reload_legacy :
    (∃ raw, safeAccountName Python.lower raw = .ok "team") ∧ Saved {"team"} ["team.json"] ∧
      Store.reload ⟨some ["team.json"], true⟩ ≠ ["team"] := by
  refine ⟨⟨"Team", by decide +kernel⟩, ⟨?_, ?_⟩, by decide +kernel⟩
  · intro name mem
    obtain rfl := Finset.mem_singleton.mp mem
    decide
  · intro file mem _ _
    exact ⟨"team", Finset.mem_singleton_self _, List.mem_singleton.mp mem⟩

end Reload

end Unhardcoded.Guarantees.CodexAccounts

import Unhardcoded.Python.Dict
import Unhardcoded.Source.EnvSecrets

/-!
# What the env-secrets file gives back

Over calls whose values have no line boundary the lines of the file are a dictionary, and a
call is an assignment to it; the loader reads the dictionary back. A value with a boundary
that is no control character breaks its own line, and what stands behind the boundary is
read as a line of its own.
-/

namespace Unhardcoded.Guarantees.EnvSecrets

open Unhardcoded.Python Unhardcoded.Source.EnvSecrets

section Keys

/-- What the validator asks of a name. -/
structure Named (key : String) : Prop where
  chars : ∀ c ∈ key.toList, envChar c = true
  opened : key.toList ≠ []

theorem envChar_range {c : Char} (h : envChar c = true) : 48 ≤ c.toNat ∧ c.toNat ≤ 95 ∧ c ≠ '=' := by
  have cases3 : c.isUpper = true ∨ c.isDigit = true ∨ c = '_' := by simpa [envChar, or_assoc] using h
  have differs (low : 65 ≤ c.toNat ∨ c.toNat ≤ 57) : c ≠ '=' := by
    rintro rfl
    exact absurd low (by decide)
  rcases cases3 with upper | digit | rfl
  · have bounds : c.val ≥ 'A'.val ∧ c.val ≤ 'Z'.val := of_decide_eq_true upper
    have range : 65 ≤ c.toNat ∧ c.toNat ≤ 90 := by simpa [UInt32.le_iff_toNat_le] using bounds
    exact ⟨by omega, by omega, differs (.inl range.1)⟩
  · have range : 48 ≤ c.toNat ∧ c.toNat ≤ 57 := by simpa [Char.isDigit, UInt32.le_iff_toNat_le] using digit
    exact ⟨by omega, by omega, differs (.inr range.2)⟩
  · decide

theorem envChar_plain {c : Char} (h : envChar c = true) : isBreak c = false ∧ isSpace c = false := by
  obtain ⟨low, high, -⟩ := envChar_range h
  constructor
  · unfold isBreak
    simp only [Bool.or_eq_false_iff, Bool.and_eq_false_iff, decide_eq_false_iff_not]
    omega
  · unfold isSpace
    simp only [Bool.or_eq_false_iff, Bool.and_eq_false_iff, decide_eq_false_iff_not]
    omega

theorem named_of_authEnvRe {key : String} (h : authEnvRe key.toList = true) : Named key := by
  obtain ⟨suffix, among, found⟩ := List.any_eq_true.mp h
  obtain ⟨ends, stem⟩ := Bool.and_eq_true_iff.mp found
  obtain ⟨start, whole⟩ := List.isSuffixOf_iff_suffix.mp ends
  have before : key.toList.take (key.toList.length - suffix.toList.length) = start := by
    rw [← whole, List.length_append, Nat.add_sub_cancel, List.take_left]
  have inSuffix : ∀ c ∈ suffix.toList, envChar c = true := by
    rcases List.mem_pair.mp among with rfl | rfl
    · exact forall_char (by decide)
    · exact forall_char (by decide)
  rw [before] at stem
  cases start with
  | nil => cases stem
  | cons c cs =>
    have parts : (c.isUpper = true ∧ ∀ d ∈ cs, envChar d = true) ∧ cs.length ≤ 60 := by simpa [envStem] using stem
    obtain ⟨⟨upper, rest⟩, -⟩ := parts
    constructor
    · rw [← whole]
      refine List.forall_mem_append.mpr ⟨List.forall_mem_cons.mpr ⟨?_, rest⟩, inSuffix⟩
      rw [envChar, upper]
      rfl
    · rw [← whole]
      exact List.cons_ne_nil _ _

/-- A call that the validator finds no error in, with a stripped value. -/
structure Accepted (repr : String → String) (key value : String) : Prop where
  allowed : providerEnvError repr key value = none
  stripped : strip value = value

theorem accepted_key {repr : String → String} {key value : String} (h : Accepted repr key value) :
    Named key ∧ isForbiddenAuthEnv key = false := by
  have allowed := h.allowed
  unfold providerEnvError at allowed
  split at allowed
  · cases allowed
  · rename_i fine
    have both : authEnvRe key.toList = true ∧ isForbiddenAuthEnv key = false := by simpa using fine
    exact ⟨named_of_authEnvRe both.1, both.2⟩

theorem noEquals {key : String} (named : Named key) : ∀ c ∈ key.toList, decide (c ≠ '=') = true :=
  fun c mem => decide_eq_true (envChar_range (named.chars c mem)).2.2

end Keys

section Lines

/-- `f"{key}={value}"`. -/
def render (entry : String × String) : String := entry.1 ++ "=" ++ entry.2

theorem toList_render (entry : String × String) : (render entry).toList = entry.1.toList ++ '=' :: entry.2.toList := by
  unfold render
  rw [String.toList_append, String.toList_append, List.append_assoc]
  rfl

theorem takeWhile_render {entry : String × String} (named : Named entry.1) :
    (render entry).toList.takeWhile (· ≠ '=') = entry.1.toList := by
  rw [toList_render, List.takeWhile_append_of_pos (noEquals named), List.takeWhile_cons_of_neg (by simp), List.append_nil]

theorem dropWhile_render {entry : String × String} (named : Named entry.1) :
    (render entry).toList.dropWhile (· ≠ '=') = '=' :: entry.2.toList := by
  rw [toList_render, List.dropWhile_append_of_pos (noEquals named), List.dropWhile_cons_of_neg (by simp)]

/-- A rendered line begins with the name of its own key only. -/
theorem startsWith_render {key : String} (named : Named key) {entry : String × String} (named' : Named entry.1) :
    startsWith (render entry) (key ++ "=") = decide (entry.1 = key) := by
  have start : (key ++ "=").toList = key.toList ++ ['='] := String.toList_append
  unfold startsWith
  rw [start, Bool.eq_iff_iff, List.isPrefixOf_iff_prefix, decide_eq_true_iff]
  constructor
  · rintro ⟨rest, whole⟩
    have first : (key.toList ++ '=' :: rest).takeWhile (· ≠ '=') = key.toList := by
      rw [List.takeWhile_append_of_pos (noEquals named), List.takeWhile_cons_of_neg (by simp), List.append_nil]
    rw [List.append_assoc, List.singleton_append] at whole
    rw [whole, takeWhile_render named'] at first
    exact String.toList_inj.mp first
  · rintro rfl
    exact ⟨entry.2.toList, by rw [toList_render, List.append_assoc]; rfl⟩

theorem universal_plain {cs : List Char} (plain : ∀ c ∈ cs, c ≠ '\r') : universal cs = cs := by
  fun_induction universal cs with
  | case1 => rfl
  | case2 cs ih => exact absurd rfl (plain '\r' List.mem_cons_self)
  | case3 cs other ih => exact absurd rfl (plain '\r' List.mem_cons_self)
  | case4 c cs other other' ih => rw [ih fun d mem => plain d (List.mem_cons_of_mem _ mem)]

theorem toList_joined {lines : List String} (opened : lines ≠ []) :
    (String.intercalate "\n" lines ++ "\n").toList = (lines.map String.toList).flatMap fun l => l ++ ['\n'] := by
  induction lines with
  | nil => exact absurd rfl opened
  | cons line lines ih =>
    cases lines with
    | nil =>
      rw [String.intercalate_singleton, String.toList_append]
      simp
    | cons next lines =>
      rw [String.intercalate_cons_cons, String.append_assoc, String.toList_append, String.toList_append, ih (List.cons_ne_nil _ _)]
      simp

/-- The lines that are written are read back. -/
theorem readLines_joined {lines : List String} (opened : lines ≠ []) (plain : ∀ l ∈ lines, OneLine l) :
    readLines (String.intercalate "\n" lines ++ "\n") = lines := by
  have plain' : ∀ l ∈ lines.map String.toList, ∀ c ∈ l, isBreak c = false := by
    intro l mem
    obtain ⟨line, within, rfl⟩ := List.mem_map.mp mem
    exact plain line within
  have noReturn : ∀ c ∈ (lines.map String.toList).flatMap fun l => l ++ ['\n'], c ≠ '\r' := by
    intro c mem
    obtain ⟨l, within, here⟩ := List.mem_flatMap.mp mem
    rintro rfl
    rcases List.mem_append.mp here with inside | feed
    · exact absurd (plain' l within '\r' inside) (by decide)
    · exact absurd (List.mem_singleton.mp feed) (by decide)
  unfold readLines splitlines
  rw [toList_joined opened, universal_plain noReturn, String.toList_ofList, splitFrom_flatMap plain', List.map_map]
  simp

end Lines

section Writes

/-- The lines of the file are the entries of a dictionary. -/
structure Holds (file : Option String) (entries : Environ) : Prop where
  lines : (file.map readLines).getD [] = entries.map render
  named : ∀ e ∈ entries, Named e.1
  plain : ∀ e ∈ entries, OneLine e.2
  stripped : ∀ e ∈ entries, strip e.2 = e.2
  distinct : (entries.map (·.1)).Nodup

theorem oneLine_render {entry : String × String} (named : Named entry.1) (plain : OneLine entry.2) : OneLine (render entry) := by
  unfold OneLine
  rw [toList_render]
  refine List.forall_mem_append.mpr ⟨fun c mem => (envChar_plain (named.chars c mem)).1, ?_⟩
  exact List.forall_mem_cons.mpr ⟨by decide, plain⟩

/-- The loop replaces the line of the key. -/
theorem replaceLines_render {key : String} (named : Named key) (rendered : String) {entries : Environ}
    (names : ∀ e ∈ entries, Named e.1) :
    replaceLines key rendered (entries.map render) =
      (entries.map fun e => if e.1 = key then rendered else render e, entries.any fun e => e.1 = key) := by
  have run (out : List String) (replaced : Bool) :
      (entries.map render).foldl (fun (s : List String × Bool) line =>
        if startsWith line (key ++ "=") then (s.1 ++ [rendered], true) else (s.1 ++ [line], s.2)) (out, replaced) =
      (out ++ entries.map fun e => if e.1 = key then rendered else render e, replaced || entries.any fun e => e.1 = key) := by
    induction entries generalizing out replaced with
    | nil => simp
    | cons e entries ih =>
      rw [List.map_cons, List.foldl_cons, startsWith_render named (names e List.mem_cons_self)]
      by_cases same : e.1 = key
      · rw [if_pos (decide_eq_true same), ih fun d mem => names d (List.mem_cons_of_mem _ mem)]
        simp [same]
      · rw [if_neg (by simp [same]), ih fun d mem => names d (List.mem_cons_of_mem _ mem)]
        simp [same]
  exact run [] false

theorem lookup_isSome_iff (entries : Environ) (key : String) :
    (entries.lookup key).isSome = entries.any fun e => e.1 = key := by
  rw [Bool.eq_iff_iff, List.lookup_isSome_iff, List.any_eq_true]
  simp only [beq_iff_eq, decide_eq_true_eq]
  constructor
  · rintro ⟨e, mem, same⟩
    exact ⟨e, mem, same.symm⟩
  · rintro ⟨e, mem, same⟩
    exact ⟨e, mem, same.symm⟩

/-- A call is an assignment to the dictionary. -/
theorem upsert_step {repr : String → String} {file : Option String} {entries : Environ} (holds : Holds file entries)
    {key value : String} (accepted : Accepted repr key value) (plain : OneLine value) :
    ∃ text, upsertEnvLine repr file key value = .ok text ∧ Holds (some text) (insert key value entries) := by
  have named := (accepted_key accepted).1
  have entry (e : String × String) (mem : e ∈ insert key value entries) : Named e.1 ∧ OneLine e.2 ∧ strip e.2 = e.2 := by
    rcases mem_insert mem with rfl | old
    · exact ⟨named, plain, accepted.stripped⟩
    · exact ⟨holds.named e old.1, holds.plain e old.1, holds.stripped e old.1⟩
  have written : (if (replaceLines key (render (key, value)) (entries.map render)).2
        then (replaceLines key (render (key, value)) (entries.map render)).1
        else (replaceLines key (render (key, value)) (entries.map render)).1 ++ [render (key, value)]) =
      (insert key value entries).map render := by
    rw [replaceLines_render named _ holds.named, Python.insert, lookup_isSome_iff]
    by_cases present : (entries.any fun e => e.1 = key) = true
    · rw [if_pos present, if_pos present, List.map_map]
      refine List.map_congr_left fun e _ => ?_
      by_cases same : e.1 = key
      · rw [if_pos same, Function.comp_apply, if_pos same]
      · rw [if_neg same, Function.comp_apply, if_neg same]
    · rw [if_neg present, if_neg present, List.map_append]
      congr 1
      refine List.map_congr_left fun e mem => if_neg fun same => present ?_
      exact List.any_eq_true.mpr ⟨e, mem, decide_eq_true same⟩
  have nonempty : (insert key value entries).map render ≠ [] := by
    intro none
    have found := lookup_insert_self key value entries
    rw [List.map_eq_nil_iff.mp none] at found
    cases found
  refine ⟨String.intercalate "\n" ((insert key value entries).map render) ++ "\n", ?_, ?_⟩
  · unfold upsertEnvLine
    rw [accepted.allowed, holds.lines]
    simp only
    rw [← written]
    rfl
  · constructor
    case lines =>
      rw [Option.map_some, Option.getD_some, readLines_joined nonempty]
      intro l mem
      obtain ⟨e, within, rfl⟩ := List.mem_map.mp mem
      exact oneLine_render (entry e within).1 (entry e within).2.1
    case named => exact fun e mem => (entry e mem).1
    case plain => exact fun e mem => (entry e mem).2.1
    case stripped => exact fun e mem => (entry e mem).2.2
    case distinct => exact nodup_insert holds.distinct key value

/-- The dictionary of the calls. -/
def assigned (entries : Environ) (calls : List (String × String)) : Environ :=
  calls.foldl (fun d call => insert call.1 call.2 d) entries

theorem upserts_run {repr : String → String} {file : Option String} {entries : Environ} (holds : Holds file entries)
    {calls : List (String × String)} (accepted : ∀ call ∈ calls, Accepted repr call.1 call.2)
    (plain : ∀ call ∈ calls, OneLine call.2) :
    ∃ file', upserts repr file calls = .ok file' ∧ Holds file' (assigned entries calls) := by
  induction calls generalizing file entries with
  | nil => exact ⟨file, rfl, holds⟩
  | cons call calls ih =>
    obtain ⟨text, wrote, holds'⟩ := upsert_step holds (accepted call List.mem_cons_self) (plain call List.mem_cons_self)
    obtain ⟨file', run, last⟩ := ih holds' (fun c mem => accepted c (List.mem_cons_of_mem _ mem))
      fun c mem => plain c (List.mem_cons_of_mem _ mem)
    refine ⟨file', ?_, last⟩
    rw [upserts, wrote]
    exact run

/-- The last assignment to a key counts. -/
theorem lookup_assigned (entries : Environ) (calls : List (String × String)) (key : String) :
    (assigned entries calls).lookup key = (calls.reverse.lookup key).or (entries.lookup key) := by
  induction calls using List.reverseRecOn with
  | nil => rfl
  | append_singleton calls call ih =>
    unfold assigned at ih ⊢
    rw [List.foldl_append, List.foldl_cons, List.foldl_nil, List.reverse_append, List.reverse_singleton, List.singleton_append,
      List.lookup_cons, lookup_insert, ih]
    by_cases same : key = call.1
    · subst same
      rw [if_pos rfl, beq_self_eq_true]
      rfl
    · rw [if_neg same, beq_eq_false_iff_ne.mpr same]

end Writes

section Reads

/-- A line of an entry. -/
theorem loadLine_render {s : Loading} {entry : String × String} (named : Named entry.1) (stripped : strip entry.2 = entry.2) :
    loadLine s (render entry) =
      if (s.environ.lookup entry.1).isSome && isProtected entry.1 then s
      else ⟨s.loaded ++ [entry.1], insert entry.1 entry.2 s.environ⟩ := by
  obtain ⟨c, cs, key⟩ := List.exists_cons_of_ne_nil named.opened
  have first : envChar c = true := named.chars c (by rw [key]; exact List.mem_cons_self)
  have trimmed : Trimmed (render entry).toList := by
    rw [toList_render]
    constructor
    · rw [key]
      intro d mem
      rw [← Option.some.inj mem]
      exact (envChar_plain first).2
    · intro d mem
      rw [List.getLast?_append_of_ne_nil _ (List.cons_ne_nil _ _)] at mem
      cases value : entry.2.toList with
      | nil =>
        rw [value] at mem
        rw [← Option.some.inj mem]
        decide
      | cons v vs =>
        rw [value, List.getLast?_cons_cons, ← value, ← stripped] at mem
        exact (trimmed_strip entry.2).2 d mem
  have name : Trimmed entry.1.toList := by
    have inside (d : Char) (mem : d ∈ entry.1.toList) : isSpace d = false := (envChar_plain (named.chars d mem)).2
    exact ⟨fun d mem => inside d (List.mem_of_mem_head? mem), fun d mem => inside d (List.mem_of_mem_getLast? mem)⟩
  have noComment : ['#'].isPrefixOf (render entry).toList = false := by
    rw [toList_render, key, List.cons_append, List.isPrefixOf_cons_cons]
    have other : ('#' == c) = false := beq_eq_false_iff_ne.mpr fun same => by
      rw [← same] at first
      exact absurd first (by decide)
    rw [other]
    rfl
  have opened : (render entry).toList.isEmpty = false := by
    rw [toList_render, key]
    rfl
  have equals : (render entry).toList.contains '=' = true := by
    rw [toList_render]
    simp
  have text : strip (render entry) = render entry := by
    have := strip_trimmed trimmed
    rwa [String.ofList_toList] at this
  have key' : strip entry.1 = entry.1 := by
    have := strip_trimmed name
    rwa [String.ofList_toList] at this
  have keyed : decide (entry.1 = "") = false := decide_eq_false fun none => named.opened (by rw [none]; rfl)
  unfold loadLine
  simp only [text, noComment, opened, equals, takeWhile_render named, dropWhile_render named, key', List.drop_one, List.tail_cons,
    String.ofList_toList, keyed, Bool.not_true, Bool.or_false, Bool.false_or]
  rfl

/-- The loop over the lines of a dictionary, none of whose keys is guarded. -/
theorem load_entries {s : Loading} {entries : Environ} (named : ∀ e ∈ entries, Named e.1)
    (stripped : ∀ e ∈ entries, strip e.2 = e.2) (distinct : (entries.map (·.1)).Nodup)
    (free : ∀ e ∈ entries, ((s.environ.lookup e.1).isSome && isProtected e.1) = false) :
    (entries.map render).foldl loadLine s =
      ⟨s.loaded ++ entries.map (·.1), entries.foldl (fun d e => insert e.1 e.2 d) s.environ⟩ := by
  induction entries generalizing s with
  | nil => simp
  | cons e entries ih =>
    rw [List.map_cons, List.nodup_cons] at distinct
    have here := free e List.mem_cons_self
    rw [List.map_cons, List.foldl_cons, loadLine_render (named e List.mem_cons_self) (stripped e List.mem_cons_self),
      if_neg (by simp [here]), ih (fun d mem => named d (List.mem_cons_of_mem _ mem))
        (fun d mem => stripped d (List.mem_cons_of_mem _ mem)) distinct.2]
    · simp
    · intro d mem
      have other : d.1 ≠ e.1 := fun same => distinct.1 (same ▸ List.mem_map_of_mem mem)
      rw [lookup_insert_of_ne other]
      exact free d (List.mem_cons_of_mem _ mem)

/-- What is true of the loop on every file, from an environment. -/
structure Loads (environ : Environ) (s : Loading) : Prop where
  kept : ∀ key, (environ.lookup key).isSome → (s.environ.lookup key).isSome
  loaded : ∀ key ∈ s.loaded, ((environ.lookup key).isSome && isProtected key) = false ∧
    ∃ value, s.environ.lookup key = some value ∧ OneLine value

theorem loadLine_loads {environ : Environ} {s : Loading} (loads : Loads environ s) {raw : String} (plain : OneLine raw) :
    Loads environ (loadLine s raw) := by
  unfold loadLine
  extract_lets line key value
  split
  · exact loads
  split
  · exact loads
  rename_i accepted
  have valueLine : OneLine value := by
    intro c mem
    rw [String.toList_ofList] at mem
    exact plain c (mem_of_mem_strip ((List.dropWhile_sublist _).subset (List.mem_of_mem_drop mem)))
  constructor
  case kept =>
    intro other present
    rw [lookup_insert]
    split
    · rfl
    · exact loads.kept other present
  case loaded =>
    intro other mem
    rw [lookup_insert]
    rcases List.mem_append.mp mem with old | new
    · obtain ⟨unguarded, found⟩ := loads.loaded other old
      refine ⟨unguarded, ?_⟩
      split
      · exact ⟨value, rfl, valueLine⟩
      · exact found
    · have same := List.mem_singleton.mp new
      refine ⟨?_, value, if_pos same, valueLine⟩
      subst same
      cases guarded : (environ.lookup key).isSome && isProtected key with
      | false => rfl
      | true =>
        obtain ⟨present, protectedKey⟩ := Bool.and_eq_true_iff.mp guarded
        exact absurd (by simp [loads.kept key present, protectedKey]) accepted

theorem loadEnvSecrets_loads (file : Option String) (environ : Environ) : Loads environ (loadEnvSecrets file environ) := by
  have start : Loads environ ⟨[], environ⟩ := ⟨fun _ present => present, fun _ mem => absurd mem List.not_mem_nil⟩
  cases file with
  | none => exact start
  | some text =>
    have run (lines : List String) (plain : ∀ l ∈ lines, OneLine l) {s : Loading} (loads : Loads environ s) :
        Loads environ (lines.foldl loadLine s) := by
      induction lines generalizing s with
      | nil => exact loads
      | cons l lines ih =>
        exact ih (fun k mem => plain k (List.mem_cons_of_mem _ mem)) (loadLine_loads loads (plain l List.mem_cons_self))
    exact run _ (fun l mem => splitlines_members mem) start

end Reads

section RoundTrip

/-- After the calls, the loader sets each upserted key to its last value, and no other key. -/
def RoundTrips (repr : String → String) (file : Option String) (calls : List (String × String)) (environ : Environ) : Prop :=
  ∃ file', upserts repr file calls = .ok file' ∧
    (∀ key value, calls.reverse.lookup key = some value →
      key ∈ (loadEnvSecrets file' environ).loaded ∧ (loadEnvSecrets file' environ).environ.lookup key = some value) ∧
    ∀ key, calls.reverse.lookup key = none →
      key ∉ (loadEnvSecrets file' environ).loaded ∧ (loadEnvSecrets file' environ).environ.lookup key = environ.lookup key

/-- A name with URL in it that the environment has already, which the loader leaves alone. -/
def Guarded (environ : Environ) (key : String) : Prop := (environ.lookup key).isSome = true ∧ contains "URL" key = true

theorem guarded_iff {environ : Environ} {key : String} (allowed : isForbiddenAuthEnv key = false) :
    ((environ.lookup key).isSome && isProtected key) = false ↔ ¬Guarded environ key := by
  unfold isProtected Guarded
  rw [allowed, Bool.false_or, ← Bool.and_eq_true, Bool.not_eq_true]

theorem mem_of_assigned {calls : List (String × String)} {e : String × String} (mem : e ∈ assigned [] calls) : e ∈ calls := by
  rcases mem_foldl_insert mem with ⟨call, within, rfl⟩ | none
  · exact within
  · cases none

theorem roundTrips_of_plain {repr : String → String} {file : Option String} (empty : file.getD "" = "")
    {calls : List (String × String)} (accepted : ∀ call ∈ calls, Accepted repr call.1 call.2)
    (plain : ∀ call ∈ calls, OneLine call.2) {environ : Environ} (free : ∀ call ∈ calls, ¬Guarded environ call.1) :
    RoundTrips repr file calls environ := by
  have start : Holds file [] := by
    refine ⟨?_, by simp, by simp, by simp, List.nodup_nil⟩
    cases file with
    | none => rfl
    | some text =>
      rw [show text = "" from empty]
      rfl
  obtain ⟨file', run, holds⟩ := upserts_run start accepted plain
  have unguarded (e : String × String) (mem : e ∈ assigned [] calls) :
      ((environ.lookup e.1).isSome && isProtected e.1) = false :=
    (guarded_iff (accepted_key (accepted e (mem_of_assigned mem))).2).mpr (free e (mem_of_assigned mem))
  have read : loadEnvSecrets file' environ = ⟨(assigned [] calls).map (·.1), (assigned [] calls).foldl (fun d e => insert e.1 e.2 d) environ⟩ := by
    have lines := holds.lines
    have loop := @load_entries ⟨[], environ⟩ _ holds.named holds.stripped holds.distinct unguarded
    rw [← lines] at loop
    cases file' with
    | none => exact loop
    | some text => exact loop
  have final (key : String) := lookup_update holds.distinct environ key
  have last (key : String) : (assigned [] calls).lookup key = calls.reverse.lookup key := by
    rw [lookup_assigned]
    cases calls.reverse.lookup key with
    | none => rfl
    | some value => rfl
  refine ⟨file', run, fun key value found => ?_, fun key absent => ?_⟩
  · rw [read]
    rw [← last] at found
    exact ⟨List.mem_map_of_mem (mem_of_lookup found), by rw [final, found]; rfl⟩
  · rw [read]
    rw [← last] at absent
    refine ⟨fun mem => ?_, by rw [final, absent]; rfl⟩
    obtain ⟨value, found⟩ := exists_lookup mem
    rw [absent] at found
    cases found

/-- Starting from an empty file, the calls keep the round trip exactly where no value has a line boundary. -/
theorem envSecrets_roundTrip_iff {repr : String → String} {file : Option String} (empty : file.getD "" = "")
    {calls : List (String × String)} (accepted : ∀ call ∈ calls, Accepted repr call.1 call.2) (environ : Environ) :
    (∀ done, done <+: calls → RoundTrips repr file done environ) ↔
      ∀ call ∈ calls, OneLine call.2 ∧ ¬Guarded environ call.1 := by
  constructor
  · intro trips call mem
    obtain ⟨before, after, split⟩ := List.append_of_mem mem
    obtain ⟨file', -, upserted, -⟩ := trips (before ++ [call]) ⟨after, by rw [split, List.append_assoc]; rfl⟩
    have newest : (before ++ [call]).reverse.lookup call.1 = some call.2 := by
      rw [List.reverse_append, List.reverse_singleton, List.singleton_append, List.lookup_cons, beq_self_eq_true]
    obtain ⟨loaded, value⟩ := upserted call.1 call.2 newest
    obtain ⟨unguarded, text, found, line⟩ := (loadEnvSecrets_loads file' environ).loaded call.1 loaded
    rw [value] at found
    rw [Option.some.inj found]
    exact ⟨line, (guarded_iff (accepted_key (accepted call mem)).2).mp unguarded⟩
  · intro fine done within
    exact roundTrips_of_plain empty (fun call mem => accepted call (within.subset mem))
      (fun call mem => (fine call (within.subset mem)).1) fun call mem => (fine call (within.subset mem)).2

theorem envSecrets_roundTrip_two :
    (∀ done, done <+: [("X_API_KEY", "k"), ("X_API_KEY", "l=m")] →
        RoundTrips id none done [("DB_URL_TOKEN", "d"), ("X_API_KEY", "old")]) ↔
      ∀ call ∈ [("X_API_KEY", "k"), ("X_API_KEY", "l=m")],
        OneLine call.2 ∧ ¬Guarded [("DB_URL_TOKEN", "d"), ("X_API_KEY", "old")] call.1 := by
  refine envSecrets_roundTrip_iff rfl (fun call mem => ?_) _
  rcases List.mem_pair.mp mem with rfl | rfl
  · exact ⟨by decide +kernel, by decide +kernel⟩
  · exact ⟨by decide +kernel, by decide +kernel⟩

/-- A line separator passes the check for control characters, and the loader sets a key that nobody wrote. -/
theorem lineSeparator_injects :
    Accepted id "X_API_KEY" "a\u2028Y_API_KEY=b" ∧ ¬RoundTrips id (some "") [("X_API_KEY", "a\u2028Y_API_KEY=b")] [] := by
  refine ⟨⟨by decide +kernel, by decide +kernel⟩, ?_⟩
  rintro ⟨file', run, -, others⟩
  have wrote : upserts id (some "") [("X_API_KEY", "a\u2028Y_API_KEY=b")] = .ok (some "X_API_KEY=a\u2028Y_API_KEY=b\n") := by
    decide +kernel
  rw [wrote] at run
  have injected : "Y_API_KEY" ∈ (loadEnvSecrets (some "X_API_KEY=a\u2028Y_API_KEY=b\n") []).loaded := by decide +kernel
  cases run
  exact (others "Y_API_KEY" (by decide)).1 injected

end RoundTrip

end Unhardcoded.Guarantees.EnvSecrets

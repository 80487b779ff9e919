import Unhardcoded.Source.Settings

/-!
# Settings writes

Coercion is idempotent and lands in the knob's range (`coerce_fixed`), but it raises on an
infinity for an integer knob and on an integer past the doubles for a float knob
(`coerce_raises_iff`): `OverflowError` is not among what `_coerce` catches. What the table
and the process hold is always coerced (`clean_stateAfter`), so a read can only leave the
range through a default. A write is safe, whatever the store does, exactly where no
submitted value overflows and every default is in range (`write_safe_iff`).
-/

namespace Unhardcoded.Guarantees.Settings
open Unhardcoded.Python Source.Settings

variable (texts : Texts)

section Tokens

/-- Distinct stripped tokens. -/
def Tokens (out : List String) : Prop := out.Nodup ∧ ∀ s ∈ out, s ≠ "" ∧ strip s = s

theorem addToken_tokens {out : List String} (clean : Tokens out) {s : String} (stripped : strip s = s) :
    Tokens (addToken out s) := by
  unfold addToken
  by_cases fresh : s ≠ "" ∧ s ∉ out
  · rw [if_pos fresh]
    refine ⟨List.nodup_append.mpr ⟨clean.1, List.nodup_singleton s, ?_⟩, ?_⟩
    · intro a mem b here same
      rw [List.mem_singleton] at here
      subst here same
      exact fresh.2 mem
    · intro a mem
      rcases List.mem_append.mp mem with old | new
      · exact clean.2 a old
      · obtain rfl := List.mem_singleton.mp new
        exact ⟨fresh.1, stripped⟩
  · rw [if_neg fresh]
    exact clean

theorem foldl_tokens (items : List Value) (out : List String) (clean : Tokens out) :
    Tokens (items.foldl (fun out it => addToken out (strip (strOf texts it))) out) := by
  induction items generalizing out with
  | nil => exact clean
  | cons it items ih => exact ih _ (addToken_tokens clean (strip_strip _))

theorem tokens_clean (items : List Value) : Tokens (tokens texts items) :=
  foldl_tokens texts items [] ⟨List.nodup_nil, by simp⟩

theorem tokens_of_clean (more front : List String) (distinct : (front ++ more).Nodup)
    (clean : ∀ s ∈ more, s ≠ "" ∧ strip s = s) :
    (more.map Value.str).foldl (fun out it => addToken out (strip (strOf texts it))) front = front ++ more := by
  induction more generalizing front with
  | nil => simp
  | cons s more ih =>
    have fresh : s ∉ front := by
      intro mem
      rw [List.nodup_append] at distinct
      exact distinct.2.2 s mem s List.mem_cons_self rfl
    obtain ⟨nonempty, stripped⟩ := clean s List.mem_cons_self
    have added : addToken front (strip (strOf texts (.str s))) = front ++ [s] := by
      rw [strOf, stripped, addToken, if_pos ⟨nonempty, fresh⟩]
    rw [List.map_cons, List.foldl_cons, added, ih (front ++ [s]) (by simpa using distinct)
      fun s' mem => clean s' (List.mem_cons_of_mem _ mem), List.append_assoc, List.singleton_append]

/-- The tokens of a list of tokens are the list. -/
theorem tokens_tokens (items : List Value) : tokens texts ((tokens texts items).map .str) = tokens texts items := by
  obtain ⟨distinct, clean⟩ := tokens_clean texts items
  have same := tokens_of_clean texts (tokens texts items) [] distinct clean
  exact same

end Tokens

section Coerce

/-- A value that a knob may have. -/
def InRange (d : Knob) : Value → Prop
  | .int n => d.type ≠ .list ∧ d.admits n = true
  | .float x => d.type ≠ .list ∧ (Flt.fin d.min).le x = true ∧ x.le (.fin d.max) = true
  | .arr items => d.type = .list ∧ d.admits items.length = true ∧ ∀ item ∈ items, ∃ text, item = .str text
  | _ => False

/-- The values whose conversion raises `OverflowError`. -/
def Overflows (d : Knob) : Value → Prop
  | .float .posInf | .float .negInf => d.type = .int
  | .int n => d.type = .float ∧ Flt.tooLarge ≤ n.natAbs
  | _ => False

/-- What coercion returns is in range, and coerces to itself. -/
theorem coerce_fixed {d : Knob} {value c : Value} (h : coerce texts d value = .ok (some c)) :
    InRange d c ∧ coerce texts d c = .ok (some c) := by
  cases type : d.type with
  | list =>
    rw [coerce, type] at h
    obtain ⟨out, coerced, rfl⟩ := Option.map_eq_some_iff.mp (Except.ok.inj h)
    obtain ⟨items, -, cut⟩ := Option.bind_eq_some_iff.mp coerced
    dsimp only at cut
    split at cut
    · rename_i fits
      obtain rfl := Option.some.inj cut
      refine ⟨⟨type, by simpa using fits, by simp⟩, ?_⟩
      rw [coerce, type]
      dsimp only
      rw [coerceList, Option.bind_some, tokens_tokens, if_pos fits, Option.map_some]
    · cases cut
  | int =>
    rw [coerce, type] at h
    obtain ⟨v, converted, kept⟩ := ok_of_bind h
    obtain ⟨n, rfl, ranged⟩ := Option.bind_eq_some_iff.mp (Except.ok.inj kept)
    split at ranged
    · rename_i fits
      obtain rfl := Option.some.inj ranged
      refine ⟨⟨by rw [type]; decide, fits⟩, ?_⟩
      rw [coerce, type]
      simp [Value.toInt, guarded, fits, bind, Except.bind, pure, Except.pure]
    · cases ranged
  | float =>
    rw [coerce, type] at h
    obtain ⟨v, converted, kept⟩ := ok_of_bind h
    obtain ⟨x, rfl, ranged⟩ := Option.bind_eq_some_iff.mp (Except.ok.inj kept)
    split at ranged
    · rename_i fits
      obtain rfl := Option.some.inj ranged
      obtain ⟨low, high⟩ := (Bool.and_eq_true _ _).mp fits
      refine ⟨⟨by rw [type]; decide, low, high⟩, ?_⟩
      rw [coerce, type]
      simp [Value.toFloat, guarded, low, high, bind, Except.bind, pure, Except.pure]
    · cases ranged

theorem coerce_raises_iff (d : Knob) (value : Value) : (∃ raised, coerce texts d value = .error raised) ↔ Overflows d value := by
  cases type : d.type with
  | list =>
    rw [coerce, type]
    cases value with
    | float x => cases x <;> simp [Overflows, type]
    | _ => simp [Overflows, type]
  | int =>
    rw [coerce, type]
    cases value with
    | float x => cases x <;> simp [Overflows, type, Value.toInt, Flt.toInt, guarded, overflowError, bind, Except.bind, pure, Except.pure]
    | str text => cases read : texts.int text <;> simp [Overflows, Value.toInt, read, guarded, bind, Except.bind, pure, Except.pure]
    | _ => simp [Overflows, type, Value.toInt, guarded, bind, Except.bind, pure, Except.pure]
  | float =>
    rw [coerce, type]
    cases value with
    | int n =>
      by_cases fits : n.natAbs < Flt.tooLarge
      · simp [Overflows, type, Value.toFloat, Flt.ofInt, fits, not_le.mpr fits, guarded, bind, Except.bind, pure, Except.pure]
      · simp [Overflows, type, Value.toFloat, Flt.ofInt, fits, not_lt.mp fits, guarded, Flt.intTooLarge, overflowError, bind, Except.bind]
    | float x => cases x <;> simp [Overflows, type, Value.toFloat, guarded, bind, Except.bind, pure, Except.pure]
    | str text => cases read : texts.float text <;> simp [Overflows, Value.toFloat, read, guarded, bind, Except.bind, pure, Except.pure]
    | _ => simp [Overflows, Value.toFloat, guarded, bind, Except.bind, pure, Except.pure]

end Coerce

section State

variable (schema : Schema)

/-- Every value of a registered knob coerces to itself. -/
def Clean (dict : Dict) : Prop :=
  ∀ row ∈ dict, ∀ d, schema.lookup row.1 = some d → coerce texts d row.2 = .ok (some row.2)

theorem Clean.subset {dict part : Dict} (clean : Clean texts schema dict) (sub : ∀ row ∈ part, row ∈ dict) :
    Clean texts schema part := fun row mem => clean row (sub row mem)

theorem Clean.insert {dict : Dict} (clean : Clean texts schema dict) {key : String} {d : Knob} {value c : Value}
    (known : schema.lookup key = some d) (coerced : coerce texts d value = .ok (some c)) :
    Clean texts schema (Python.insert key c dict) := by
  intro row mem d' known'
  rcases mem_insert mem with rfl | old
  · obtain rfl := Option.some.inj (known.symm.trans known')
    exact (coerce_fixed texts coerced).2
  · exact clean row old.1 d' known'

/-- What a submitted value leaves under its key: nothing for `null`, and otherwise the
value coerced into the range of the knob. -/
def Written (new : Dict) (update : String × Value) : Prop :=
  ∃ d, schema.lookup update.1 = some d ∧
    if update.2.isNull then new.lookup update.1 = none
    else ∃ c, coerce texts d update.2 = .ok (some c) ∧ InRange d c ∧ new.lookup update.1 = some c

/-- One update that does not overflow: it writes its value or adds an error. -/
theorem validateOne_spec (done : Dict × List Refusal) (update : String × Value)
    (safe : ∀ d, schema.lookup update.1 = some d → ¬Overflows d update.2) :
    ∃ new errors, validateOne texts schema done update = .ok (new, errors) ∧
      (Clean texts schema done.1 → Clean texts schema new) ∧
      (∀ other, other ≠ update.1 → new.lookup other = done.1.lookup other) ∧
      (errors = done.2 ∧ Written texts schema new update ∨ ∃ refused, errors = done.2 ++ [refused]) := by
  unfold validateOne
  cases known : schema.lookup update.1 with
  | none => exact ⟨_, _, rfl, id, fun _ _ => rfl, .inr ⟨_, rfl⟩⟩
  | some d =>
    by_cases null : update.2.isNull
    · dsimp only
      rw [if_pos null]
      refine ⟨_, _, rfl, fun clean => clean.subset _ _ fun row mem => List.mem_of_mem_filter mem, ?_, .inl ⟨rfl, d, known, ?_⟩⟩
      · intro other different
        rw [lookup_erase, if_neg different]
      · rw [if_pos null, lookup_erase, if_pos rfl]
    · dsimp only
      rw [if_neg null]
      cases result : coerce texts d update.2 with
      | error raised => exact absurd ((coerce_raises_iff texts d update.2).mp ⟨raised, result⟩) (safe d known)
      | ok c =>
        cases c with
        | none => exact ⟨_, _, rfl, id, fun _ _ => rfl, .inr ⟨_, rfl⟩⟩
        | some c =>
          refine ⟨_, _, rfl, fun clean => clean.insert texts schema known result, ?_, .inl ⟨rfl, d, known, ?_⟩⟩
          · intro other different
            exact lookup_insert_of_ne different c done.1
          · rw [if_neg null]
            exact ⟨c, result, (coerce_fixed texts result).1, lookup_insert_self _ _ _⟩

theorem validate_spec (updates : Dict) (done : Dict × List Refusal)
    (safe : ∀ update ∈ updates, ∀ d, schema.lookup update.1 = some d → ¬Overflows d update.2) :
    ∃ new more, updates.foldlM (validateOne texts schema) done = .ok (new, done.2 ++ more) ∧
      (Clean texts schema done.1 → Clean texts schema new) ∧
      (∀ other, other ∉ updates.map (·.1) → new.lookup other = done.1.lookup other) ∧
      ((updates.map (·.1)).Nodup → more = [] → ∀ update ∈ updates, Written texts schema new update) := by
  induction updates generalizing done with
  | nil => exact ⟨done.1, [], by simp [pure, Except.pure], id, fun _ _ => rfl, fun _ _ update mem => by cases mem⟩
  | cons update updates ih =>
    obtain ⟨mid, errors, stepped, clean, frame, outcome⟩ :=
      validateOne_spec texts schema done update (safe update List.mem_cons_self)
    obtain ⟨new, more, folded, clean', frame', written⟩ :=
      ih (mid, errors) fun update mem => safe update (List.mem_cons_of_mem _ mem)
    have run : (update :: updates).foldlM (validateOne texts schema) done = .ok (new, errors ++ more) := by
      rw [List.foldlM_cons, stepped]
      exact folded
    have untouched : ∀ other, other ∉ (update :: updates).map (·.1) → new.lookup other = done.1.lookup other := by
      intro other absent
      rw [List.map_cons, List.mem_cons, not_or] at absent
      exact (frame' other absent.2).trans (frame other absent.1)
    rcases outcome with ⟨rfl, here⟩ | ⟨refused, rfl⟩
    · refine ⟨new, more, run, fun start => clean' (clean start), untouched, fun distinct none update' mem => ?_⟩
      rw [List.map_cons, List.nodup_cons] at distinct
      rcases List.mem_cons.mp mem with rfl | mem
      · unfold Written at here ⊢
        rw [frame' _ distinct.1]
        exact here
      · exact written distinct.2 none update' mem
    · exact ⟨new, refused :: more, by rw [run, List.append_assoc, List.singleton_append],
        fun start => clean' (clean start), untouched, fun _ none => by cases none⟩

theorem validate_raises (updates : Dict) (done : Dict × List Refusal) {update : String × Value} (mem : update ∈ updates)
    {d : Knob} (known : schema.lookup update.1 = some d) (overflows : Overflows d update.2) :
    ∃ raised, updates.foldlM (validateOne texts schema) done = .error raised := by
  induction updates generalizing done with
  | nil => cases mem
  | cons first updates ih =>
    rw [List.foldlM_cons]
    cases stepped : validateOne texts schema done first with
    | error raised => exact ⟨raised, rfl⟩
    | ok mid =>
      rcases List.mem_cons.mp mem with rfl | later
      · obtain ⟨raised, raises⟩ := (coerce_raises_iff texts d update.2).mpr overflows
        have value : update.2.isNull = false := by
          cases given : update.2 <;> simp_all [Overflows, Value.isNull]
        rw [validateOne, known] at stepped
        dsimp only at stepped
        rw [value, raises] at stepped
        cases stepped
      · exact ih mid later

/-- The table and the process hold clean values. -/
def CleanState (s : State) : Prop := Clean texts schema s.store ∧ Clean texts schema s.overrides

theorem clean_reload {s : State} (clean : Clean texts schema s.store) (readOk : Bool) :
    CleanState texts schema (reload schema readOk s) := by
  refine ⟨clean, ?_⟩
  cases readOk with
  | false => exact fun row mem => by cases mem
  | true => exact clean.subset texts schema fun row mem => List.mem_of_mem_filter mem

/-- A call that returns leaves clean values, and so does one that raises. -/
theorem clean_write {s : State} (clean : CleanState texts schema s) (updates : Dict) (faults : Faults) :
    CleanState texts schema (validateAndWrite texts schema s updates faults).1 := by
  have reloaded := clean_reload texts schema clean.1 faults.firstReadOk
  unfold validateAndWrite
  dsimp only
  cases validated : updates.foldlM (validateOne texts schema) ((reload schema faults.firstReadOk s).overrides, []) with
  | error raised => exact reloaded
  | ok result =>
    have safe : ∀ update ∈ updates, ∀ d, schema.lookup update.1 = some d → ¬Overflows d update.2 := by
      intro update mem d known overflows
      obtain ⟨raised, raises⟩ :=
        validate_raises texts schema updates ((reload schema faults.firstReadOk s).overrides, []) mem known overflows
      rw [validated] at raises
      cases raises
    obtain ⟨new, more, folded, kept, -⟩ :=
      validate_spec texts schema updates ((reload schema faults.firstReadOk s).overrides, []) safe
    obtain rfl : result = (new, [] ++ more) := Except.ok.inj (validated.symm.trans folded)
    dsimp only
    split
    · exact reloaded
    · split
      · exact reloaded
      · exact clean_reload texts schema (s := ⟨new, _⟩) (kept reloaded.2) faults.secondReadOk

theorem clean_stateAfter (calls : List Call) : CleanState texts schema (stateAfter texts schema calls) := by
  induction calls using List.reverseRecOn with
  | nil =>
    have none : Clean texts schema [] := fun row mem => by cases mem
    exact ⟨none, none⟩
  | append_singleton front call ih =>
    rw [stateAfter, List.foldl_concat]
    cases call with
    | write updates faults => exact clean_write texts schema ih updates faults
    | reload readOk => exact clean_reload texts schema ih.1 readOk

theorem get_spec {s : State} (clean : CleanState texts schema s) {key : String} {d : Knob}
    (known : schema.lookup key = some d) :
    ∃ v, get texts s key d = .ok v ∧ (v = d.default ∨ InRange d v) := by
  unfold Source.Settings.get
  split
  · exact ⟨d.default, rfl, .inl rfl⟩
  · exact ⟨d.default, rfl, .inl rfl⟩
  · rename_i ov _ found
    have coerced := clean.2 _ (mem_of_lookup found) d known
    rw [coerced]
    exact ⟨ov, rfl, .inr (coerce_fixed texts coerced).1⟩

end State

/-- The submitted values, as a JSON object: distinct keys. -/
abbrev Submitted := {updates : Dict // (updates.map (·.1)).Nodup}

/-- A call of `validate_and_write` that is atomic and safe whatever the store does. -/
structure WriteSafe (schema : Schema) (s : State) (updates : Dict) : Prop where
  settles : ∀ faults, ∃ new errors, (validateAndWrite texts schema s updates faults).2 = .ok (new, errors) ∧
    (errors ≠ [] ∧ (validateAndWrite texts schema s updates faults).1.store = s.store ∨
      errors = [] ∧ ∀ update ∈ updates, Written texts schema (validateAndWrite texts schema s updates faults).1.store update)
  reads : ∀ faults key d, schema.lookup key = some d →
    ∃ v, get texts (validateAndWrite texts schema s updates faults).1 key d = .ok v ∧ InRange d v
  idempotent : ∀ d value c, coerce texts d value = .ok (some c) → coerce texts d c = .ok (some c)

theorem settles_of_fits {schema : Schema} {s : State} (updates : Submitted) (faults : Faults)
    (fits : ∀ update ∈ updates.1, ∀ d, schema.lookup update.1 = some d → ¬Overflows d update.2) :
    ∃ new errors, (validateAndWrite texts schema s updates.1 faults).2 = .ok (new, errors) ∧
      (errors ≠ [] ∧ (validateAndWrite texts schema s updates.1 faults).1.store = s.store ∨
        errors = [] ∧ ∀ update ∈ updates.1, Written texts schema (validateAndWrite texts schema s updates.1 faults).1.store update) := by
  obtain ⟨new, more, folded, -, -, written⟩ :=
    validate_spec texts schema updates.1 ((reload schema faults.firstReadOk s).overrides, []) fits
  unfold validateAndWrite
  dsimp only
  rw [folded]
  dsimp only
  rw [List.nil_append]
  by_cases refused : more = []
  · rw [if_neg (not_not.mpr refused)]
    cases persisted : faults.writeOk with
    | false => exact ⟨[], _, rfl, .inl ⟨by simp, rfl⟩⟩
    | true => exact ⟨new, [], rfl, .inr ⟨rfl, written updates.2 refused⟩⟩
  · rw [if_pos refused]
    exact ⟨[], more, rfl, .inl ⟨refused, rfl⟩⟩

/-- Where no read returns, every knob has its default. -/
theorem overrides_of_unread (schema : Schema) (s : State) (updates : Dict) (writeOk : Bool) :
    (validateAndWrite texts schema s updates ⟨false, writeOk, false⟩).1.overrides = [] := by
  unfold validateAndWrite
  dsimp only
  cases updates.foldlM (validateOne texts schema) ((reload schema false s).overrides, []) with
  | error raised => rfl
  | ok result =>
    dsimp only
    split
    · rfl
    · split <;> rfl

theorem write_safe_iff (schema : Schema) (calls : List Call) (updates : Submitted) :
    WriteSafe texts schema (stateAfter texts schema calls) updates.1 ↔
      (∀ update ∈ updates.1, ∀ d, schema.lookup update.1 = some d → ¬Overflows d update.2) ∧
        ∀ key d, schema.lookup key = some d → InRange d d.default := by
  constructor
  · intro safe
    refine ⟨?_, ?_⟩
    · intro update mem d known overflows
      obtain ⟨new, errors, returned, -⟩ := safe.settles ⟨true, true, true⟩
      obtain ⟨raised, raises⟩ := validate_raises texts schema updates.1
        ((reload schema true (stateAfter texts schema calls)).overrides, []) mem known overflows
      rw [validateAndWrite] at returned
      dsimp only at returned
      rw [raises] at returned
      cases returned
    · intro key d known
      obtain ⟨v, read, ranged⟩ := safe.reads ⟨false, true, false⟩ key d known
      rw [Source.Settings.get, overrides_of_unread] at read
      obtain rfl : d.default = v := Except.ok.inj read
      exact ranged
  · rintro ⟨fits, defaults⟩
    refine ⟨fun faults => settles_of_fits texts updates faults fits, ?_, fun d value c coerced => (coerce_fixed texts coerced).2⟩
    intro faults key d known
    have clean := clean_write texts schema (clean_stateAfter texts schema calls) updates.1 faults
    obtain ⟨v, read, rfl | ranged⟩ := get_spec texts schema clean known
    · exact ⟨_, read, defaults key d known⟩
    · exact ⟨v, read, ranged⟩

/-- `compaction.at_tokens`, and `Infinity` submitted for it. -/
def compactionSchema : Schema := [("compaction.at_tokens", ⟨.int, .int 24000, 1000, 2000000⟩)]

def noTexts : Texts := { int := fun _ => none, float := fun _ => none, str := fun _ => "" }

theorem infinity_raises :
    ¬WriteSafe noTexts compactionSchema (stateAfter noTexts compactionSchema []) [("compaction.at_tokens", .float .posInf)] := by
  intro safe
  obtain ⟨new, errors, returned, -⟩ := safe.settles ⟨true, true, true⟩
  cases returned

end Unhardcoded.Guarantees.Settings

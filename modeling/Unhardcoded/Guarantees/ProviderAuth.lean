import Unhardcoded.Effects.Machine
import Unhardcoded.Effects.Ownership
import Unhardcoded.Python.Dict
import Unhardcoded.Source.ProviderAuth

/-!
# The credential check owns its part of the disabled set

The table of disabled providers has several writers. Each run of the synchronisation
reconciles the entries of the kind `auth_unconfigured` with the providers whose
credential is missing, and leaves every other entry and slot (`reconcile_reconciled`,
`syncState_synced`), in any state the host can be brought to (`run_sync`).
-/

namespace Unhardcoded.Guarantees.ProviderAuth

open Unhardcoded.Python
open Unhardcoded.Effects.Ownership
open Unhardcoded.Source.TenantHost (Env Provider)
open Unhardcoded.Source.ProviderAuth
open Unhardcoded.Effects.Machine (run run_invariant)

section Entries

/-- `None` is no entry. -/
def present : Option Json → Option Json
  | some .null => none
  | cur => cur

def entryOf (disabled : Disabled) (pid : String) : Option Json := present (disabled.lookup pid)

/-- What stands at a missing provider, from what stood there. -/
def restamp (now : Int) : Option Json → Json
  | none => .obj [("kind", .str authUnconfigured), ("at_ms", .int now)]
  | some cur => if unconfigured cur then stamp now cur else cur

theorem field?_stamp (now : Int) (cur : Json) {name : String} (other : name ≠ "at_ms") :
    (stamp now cur).field? name = cur.field? name := by
  cases cur with
  | obj fields => exact lookup_insert_of_ne other _ fields
  | _ => rfl

theorem unconfigured_stamp (now : Int) (cur : Json) : unconfigured (stamp now cur) = unconfigured cur := by
  have kind : (stamp now cur).field "kind" = cur.field "kind" := by
    unfold Json.field
    rw [field?_stamp now cur (by decide)]
  have dict : (stamp now cur).isObj = cur.isObj := by cases cur <;> rfl
  rw [unconfigured, kind, dict, unconfigured]

theorem unconfigured_restamp (now : Int) (cur : Option Json) :
    unconfigured (restamp now cur) = true ↔ ∀ v, cur = some v → unconfigured v = true := by
  cases cur with
  | none => simp [restamp, unconfigured, Json.isObj, Json.field, Json.field?]
  | some v =>
    simp only [restamp, Option.some.injEq, forall_eq']
    split
    · rw [unconfigured_stamp]
    · rfl

/-- An entry of another kind stays. -/
theorem restamp_eq_iff (now : Int) (cur : Option Json) {v : Json} (other : ¬ unconfigured v = true) :
    restamp now cur = v ↔ cur = some v := by
  constructor
  · intro same
    subst same
    rw [unconfigured_restamp] at other
    cases cur with
    | none => simp at other
    | some w =>
      have kept : ¬ unconfigured w = true := by simpa using other
      simp only [restamp, if_neg kept]
  · rintro rfl
    exact if_neg other

theorem present_restamp (now : Int) (cur : Option Json) :
    present (some (restamp now (present cur))) = some (restamp now (present cur)) := by
  have dict : ∀ v : Json, v ≠ .null → present (some v) = some v := by
    intro v some
    cases v <;> first | exact absurd rfl some | rfl
  apply dict
  cases here : present cur with
  | none => simp [restamp]
  | some v =>
    have some : v ≠ .null := by
      rintro rfl
      revert here
      unfold present
      split <;> simp_all
    simp only [restamp]
    split
    · cases v <;> simp_all [stamp]
    · exact some

theorem present_unless (cur : Json) :
    present (if unconfigured cur then none else some cur) =
      (present (some cur)).filter fun v => !unconfigured v := by
  cases cur with
  | obj fields =>
    cases mine : unconfigured (.obj fields) with
    | true => simp [present, Option.filter, mine]
    | false => simp [present, Option.filter, mine]
  | _ => rfl

end Entries

section Loops

variable {now : Int} {missing : Finset String} {acc : Disabled × Bool}

theorem mark_eq (now : Int) (acc : Disabled × Bool) (pid : String) :
    mark now acc pid = (insert pid (restamp now (entryOf acc.1 pid)) acc.1, true) ∨
      mark now acc pid = acc ∧ acc.1.lookup pid = some (restamp now (entryOf acc.1 pid)) := by
  unfold mark entryOf
  cases here : acc.1.lookup pid with
  | none => exact .inl rfl
  | some cur =>
    cases cur with
    | null => exact .inl rfl
    | obj fields =>
      simp only [Option.getD_some, present, restamp]
      split
      · exact .inl rfl
      · exact .inr ⟨rfl, rfl⟩
    | _ => exact .inr ⟨rfl, rfl⟩

theorem lookup_mark (now : Int) (acc : Disabled × Bool) (pid other : String) :
    (mark now acc pid).1.lookup other =
      if other = pid then some (restamp now (entryOf acc.1 pid)) else acc.1.lookup other := by
  rcases mark_eq now acc pid with wrote | ⟨kept, here⟩
  · rw [wrote, lookup_insert]
  · rw [kept]
    split
    · rename_i same
      rw [same, here]
    · rfl

theorem lookup_marks (now : Int) (acc : Disabled × Bool) {order : List String} (once : order.Nodup) (pid : String) :
    (order.foldl (mark now) acc).1.lookup pid =
      if pid ∈ order then some (restamp now (entryOf acc.1 pid)) else acc.1.lookup pid := by
  induction order generalizing acc with
  | nil => rfl
  | cons first order ih =>
    rw [List.nodup_cons] at once
    rw [List.foldl_cons, ih _ once.2, entryOf, lookup_mark]
    by_cases same : pid = first
    · subst same
      simp [once.1]
    · simp [same, entryOf]

theorem distinct_marks (now : Int) (order : List String) (distinct : (acc.1.map (·.1)).Nodup) :
    ((order.foldl (mark now) acc).1.map (·.1)).Nodup := by
  induction order generalizing acc with
  | nil => exact distinct
  | cons pid order ih =>
    apply ih
    rcases mark_eq now acc pid with wrote | ⟨kept, _⟩
    · rw [wrote]
      exact nodup_insert distinct _ _
    · rwa [kept]

/-- A loop that changed nothing left the table alone. -/
theorem marks_unchanged {order : List String} (h : (order.foldl (mark now) acc).2 = false) :
    order.foldl (mark now) acc = acc := by
  induction order using List.reverseRecOn with
  | nil => rfl
  | append_singleton order pid ih =>
    rw [List.foldl_append, List.foldl_cons, List.foldl_nil] at h ⊢
    rcases mark_eq now (order.foldl (mark now) acc) pid with wrote | ⟨kept, _⟩
    · rw [wrote] at h
      cases h
    · rw [kept] at h ⊢
      exact ih h

/-- An entry that the second loop deletes. -/
def stale (missing : Finset String) (entry : String × Json) : Bool := entry.1 ∉ missing && unconfigured entry.2

theorem sweep_eq (missing : Finset String) (acc : Disabled × Bool) (entry : String × Json) :
    sweep missing acc entry = if stale missing entry then (acc.1.filter (·.1 ≠ entry.1), true) else acc := by
  unfold sweep stale
  by_cases wanted : entry.1 ∈ missing
  · simp [wanted]
  · simp [wanted]

theorem lookup_sweeps (missing : Finset String) (acc : Disabled × Bool) (entries : Disabled) (pid : String) :
    (entries.foldl (sweep missing) acc).1.lookup pid =
      if entries.any fun entry => entry.1 = pid && stale missing entry then none else acc.1.lookup pid := by
  induction entries generalizing acc with
  | nil => rfl
  | cons entry entries ih =>
    rw [List.foldl_cons, ih, sweep_eq, List.any_cons]
    cases old : stale missing entry with
    | false => rw [Bool.and_false, Bool.false_or, if_neg Bool.false_ne_true]
    | true =>
      rw [if_pos rfl, lookup_erase, Bool.and_true]
      by_cases same : entry.1 = pid
      · rw [if_pos same.symm, decide_eq_true same, Bool.true_or, if_pos rfl, ite_self]
      · rw [if_neg (Ne.symm same), decide_eq_false same, Bool.false_or]

theorem distinct_sweeps (missing : Finset String) (entries : Disabled) (distinct : (acc.1.map (·.1)).Nodup) :
    ((entries.foldl (sweep missing) acc).1.map (·.1)).Nodup := by
  induction entries generalizing acc with
  | nil => exact distinct
  | cons entry entries ih =>
    apply ih
    rw [sweep_eq]
    split
    · exact nodup_filter distinct _
    · exact distinct

theorem sweeps_unchanged {entries : Disabled} (h : (entries.foldl (sweep missing) acc).2 = false) :
    entries.foldl (sweep missing) acc = acc := by
  induction entries using List.reverseRecOn with
  | nil => rfl
  | append_singleton entries entry ih =>
    rw [List.foldl_append, List.foldl_cons, List.foldl_nil, sweep_eq] at h ⊢
    split at h
    · cases h
    · rename_i fresh
      rw [if_neg fresh]
      exact ih h

variable {disabled : Disabled} {order : List String}

/-- The table after both loops: a missing provider has an entry, another provider none of
the kind. -/
theorem entryOf_reconcile (now : Int) (distinct : (disabled.map (·.1)).Nodup) (once : order.Nodup)
    (listed : order.toFinset = missing) (pid : String) :
    entryOf (reconcile missing order now disabled).1 pid =
      if pid ∈ missing then some (restamp now (entryOf disabled pid))
      else (entryOf disabled pid).filter fun cur => !unconfigured cur := by
  have first := lookup_marks now (disabled, false) once pid
  have keys : ((order.foldl (mark now) (disabled, false)).1.map (·.1)).Nodup := distinct_marks now order distinct
  have second := lookup_sweeps missing (order.foldl (mark now) (disabled, false))
    (order.foldl (mark now) (disabled, false)).1 pid
  have same : pid ∈ order ↔ pid ∈ missing := by rw [← listed, List.mem_toFinset]
  simp only [same] at first
  unfold reconcile
  by_cases wanted : pid ∈ missing
  · have spared : ((order.foldl (mark now) (disabled, false)).1.any fun entry =>
        entry.1 = pid && stale missing entry) = false := by
      rw [List.any_eq_false]
      intro entry _ both
      simp only [Bool.and_eq_true, decide_eq_true_eq, stale] at both
      exact both.2.1 (both.1 ▸ wanted)
    rw [if_pos wanted] at first ⊢
    rw [spared, first] at second
    rw [entryOf, second]
    exact present_restamp now (disabled.lookup pid)
  · rw [if_neg wanted] at first ⊢
    rw [entryOf, second, entryOf]
    cases here : disabled.lookup pid with
    | none =>
      rw [here] at first
      rw [first, ite_self]
      rfl
    | some cur =>
      rw [here] at first
      have removed : ((order.foldl (mark now) (disabled, false)).1.any fun entry =>
          entry.1 = pid && stale missing entry) = unconfigured cur := by
        apply Bool.eq_iff_iff.mpr
        simp only [List.any_eq_true, Bool.and_eq_true, decide_eq_true_eq, stale]
        constructor
        · rintro ⟨entry, mem, rfl, -, mine⟩
          have found := lookup_of_mem keys mem
          rw [first] at found
          exact Option.some.inj found ▸ mine
        · intro mine
          exact ⟨(pid, cur), mem_of_lookup first, rfl, by simpa using wanted, mine⟩
      rw [removed, first, present_unless]

theorem reconcile_unchanged (h : (reconcile missing order now disabled).2 = false) :
    (reconcile missing order now disabled).1 = disabled := by
  unfold reconcile at h ⊢
  have swept := sweeps_unchanged h
  rw [swept] at h ⊢
  rw [marks_unchanged h]

theorem distinct_reconcile (distinct : (disabled.map (·.1)).Nodup) :
    ((reconcile missing order now disabled).1.map (·.1)).Nodup :=
  distinct_sweeps missing _ (distinct_marks now order distinct)

/-- The two loops own the entries of the kind `auth_unconfigured`. -/
theorem reconcile_reconciled (distinct : (disabled.map (·.1)).Nodup) (once : order.Nodup)
    (listed : order.toFinset = missing) :
    Reconciled (unconfigured · = true) missing (entryOf disabled)
      (entryOf (reconcile missing order now disabled).1) where
  others := by
    intro pid v other
    rw [entryOf_reconcile now distinct once listed]
    split
    · rw [Option.some.injEq, restamp_eq_iff now _ other]
    · rw [Option.filter_eq_some_iff]
      exact and_iff_left (by simpa using other)
  mine := by
    intro pid
    rw [entryOf_reconcile now distinct once listed]
    rw [Finset.mem_coe]
    by_cases wanted : pid ∈ missing
    · rw [if_pos wanted, and_iff_right wanted, ← unconfigured_restamp now]
      simp only [Option.some.injEq, exists_eq_left']
    · rw [if_neg wanted]
      constructor
      · rintro ⟨v, found, mine⟩
        have kept := (Option.filter_eq_some_iff.mp found).2
        simp [mine] at kept
      · intro both
        exact absurd both.1 wanted

end Loops

section States

variable {state : Json}

/-- A dictionary whose `disabled_providers`, where there are any, are a dictionary. -/
structure Sound (state : Json) : Prop where
  dict : state.isObj = true
  table : (state.field "disabled_providers").dictish = true
  distinct : ((disabledProviders state).map (·.1)).Nodup

theorem setItem_spec (dict : state.isObj = true) (key : String) (value : Json) :
    ∃ after, setItem key value state = .ok after ∧ after.isObj = true ∧ after.field? key = some value ∧
      ∀ name ≠ key, after.field? name = state.field? name := by
  cases state with
  | obj fields =>
    refine ⟨.obj (insert key value fields), rfl, rfl, lookup_insert_self key value fields, ?_⟩
    intro name other
    exact lookup_insert_of_ne other value fields
  | _ => cases dict

theorem disabledProviders_of_field? {disabled : Disabled}
    (table : state.field? "disabled_providers" = some (.obj disabled)) : disabledProviders state = disabled := by
  rw [disabledProviders, Json.field, table]
  rfl

theorem sound_of_table {disabled : Disabled} (dict : state.isObj = true)
    (table : state.field? "disabled_providers" = some (.obj disabled)) (distinct : (disabled.map (·.1)).Nodup) :
    Sound state where
  dict := dict
  table := by
    rw [Json.field, table]
    simp [Json.dictish, Json.isObj]
  distinct := by rwa [disabledProviders_of_field? table]

/-- `dict(state.get("disabled_providers") or {})`. -/
theorem copy_disabled (sound : Sound state) :
    updateFields [] (state.field "disabled_providers").orDict = .ok (disabledProviders state) := by
  have distinct := sound.distinct
  have table := sound.table
  unfold disabledProviders at distinct ⊢
  cases slot : state.field "disabled_providers" with
  | obj disabled =>
    rw [slot] at distinct
    have whole : (Json.obj disabled).orDict = .obj disabled := by cases disabled <;> rfl
    rw [whole, updateFields, foldl_insert_nodup distinct]
  | _ =>
    rw [slot] at table
    simp only [Json.dictish, Json.isObj, Bool.or_false, Bool.not_eq_true'] at table
    rw [Json.orDict, Json.orElse, table]
    rfl

theorem syncState_eq (sound : Sound state) (missing : Finset String) (order : List String) (now : Int) :
    ∃ after, syncState missing order now state = .ok after ∧ Sound after ∧
      disabledProviders after = (reconcile missing order now (disabledProviders state)).1 ∧
      ∀ name ≠ "disabled_providers", after.field? name = state.field? name := by
  have whole : state.orDict = state := by
    have dict := sound.dict
    cases state with
    | obj fields => cases fields <;> rfl
    | _ => cases dict
  have copied : syncState missing order now state =
      if (reconcile missing order now (disabledProviders state)).2 then
        setItem "disabled_providers" (.obj (reconcile missing order now (disabledProviders state)).1) state
      else .ok state := by
    simp only [syncState, whole, Json.get_of_isObj sound.dict, bind, Except.bind, copy_disabled sound]
    rfl
  rw [copied]
  cases changed : (reconcile missing order now (disabledProviders state)).2 with
  | true =>
    obtain ⟨after, wrote, dict, table, rest⟩ :=
      setItem_spec sound.dict "disabled_providers" (.obj (reconcile missing order now (disabledProviders state)).1)
    refine ⟨after, wrote, sound_of_table dict table (distinct_reconcile sound.distinct), ?_, rest⟩
    exact disabledProviders_of_field? table
  | false => exact ⟨state, rfl, sound, (reconcile_unchanged changed).symm, fun _ _ => rfl⟩

/-- The entry of a provider in `disabled_providers`. -/
def disableEntry (state : Json) (pid : String) : Option Json := entryOf (disabledProviders state) pid

/-- What one run of the synchronisation does to the state. -/
structure Synced (missing : Finset String) (before after : Json) : Prop where
  covered : ∀ pid ∈ missing, ∃ cur, disableEntry after pid = some cur
  own : ∀ pid, (∃ cur, disableEntry after pid = some cur ∧ unconfigured cur = true) ↔
    pid ∈ missing ∧ ∀ cur, disableEntry before pid = some cur → unconfigured cur = true
  others : ∀ pid cur, ¬ unconfigured cur = true →
    (disableEntry after pid = some cur ↔ disableEntry before pid = some cur)
  slots : ∀ name ≠ "disabled_providers", after.field? name = before.field? name

/-- Two states that differ in the times of `auth_unconfigured` entries only. -/
structure SameButTimes (before after : Json) : Prop where
  entries : ∀ pid, disableEntry after pid = disableEntry before pid ∨
    ∃ old new, disableEntry before pid = some old ∧ disableEntry after pid = some new ∧
      unconfigured old = true ∧ unconfigured new = true ∧ ∀ name ≠ "at_ms", new.field? name = old.field? name
  slots : ∀ name ≠ "disabled_providers", after.field? name = before.field? name

variable {missing : Finset String} {order : List String} {now : Int} {after : Json}

theorem syncState_reconciled (sound : Sound state) (once : order.Nodup) (listed : order.toFinset = missing)
    (ran : syncState missing order now state = .ok after) :
    Sound after ∧ Reconciled (unconfigured · = true) missing (disableEntry state) (disableEntry after) ∧
      ∀ name ≠ "disabled_providers", after.field? name = state.field? name := by
  obtain ⟨result, same, kept, table, slots⟩ := syncState_eq sound missing order now
  obtain rfl := Except.ok.inj (ran.symm.trans same)
  refine ⟨kept, ?_, slots⟩
  unfold disableEntry
  rw [table]
  exact reconcile_reconciled sound.distinct once listed

theorem syncState_synced (sound : Sound state) (once : order.Nodup) (listed : order.toFinset = missing)
    (ran : syncState missing order now state = .ok after) : Synced missing state after := by
  obtain ⟨_, part, slots⟩ := syncState_reconciled sound once listed ran
  exact ⟨fun _ want => part.covered want, part.mine, part.others, slots⟩

/-- An entry of its own that is written again keeps all but its time. -/
theorem restamp_own (now : Int) {old : Json} (own : unconfigured old = true) {name : String} (other : name ≠ "at_ms") :
    (restamp now (some old)).field? name = old.field? name := by
  rw [restamp, if_pos own]
  exact field?_stamp now old other

theorem syncState_again {order' : List String} {now' : Int} {later : Json} (sound : Sound state) (once : order.Nodup)
    (listed : order.toFinset = missing) (once' : order'.Nodup) (listed' : order'.toFinset = missing)
    (ran : syncState missing order now state = .ok after)
    (again : syncState missing order' now' after = .ok later) : SameButTimes after later := by
  obtain ⟨kept, first, _⟩ := syncState_reconciled sound once listed ran
  obtain ⟨_, second, slots⟩ := syncState_reconciled kept once' listed' again
  refine ⟨fun pid => ?_, slots⟩
  rcases first.again second pid with same | ⟨old, new, here, there, own, own'⟩
  · exact .inl same
  · refine .inr ⟨old, new, here, there, own, own', fun name other => ?_⟩
    obtain ⟨result, same, _, table, _⟩ := syncState_eq kept missing order' now'
    obtain rfl := Except.ok.inj (again.symm.trans same)
    have written := entryOf_reconcile now' kept.distinct once' listed' pid
    have want : pid ∈ missing := first.wanted_of_own here own
    rw [if_pos want, ← table, ← disableEntry, there, ← disableEntry, here] at written
    rw [Option.some.inj written]
    exact restamp_own now' own other

end States

section Runs

variable {host : Host}

/-- What every step keeps. -/
structure Kept (providers : List (String × Option Provider)) (host : Host) : Prop where
  providers : host.providers = providers
  sound : Sound host.state

theorem writeDisabled_sound {disabled : Disabled} {state after : Json} (sound : Sound state)
    (distinct : (disabled.map (·.1)).Nodup) (wrote : writeDisabled disabled state = some after) : Sound after := by
  obtain ⟨result, same, dict, table, _⟩ := setItem_spec sound.dict "disabled_providers" (.obj disabled)
  rw [writeDisabled, same] at wrote
  obtain rfl := Option.some.inj wrote
  exact sound_of_table dict table distinct

theorem setItem_sound {name : String} {value state after : Json} (other : name ≠ "disabled_providers")
    (sound : Sound state) (wrote : setItem name value state = .ok after) : Sound after := by
  obtain ⟨result, same, dict, _, rest⟩ := setItem_spec sound.dict name value
  obtain rfl := Except.ok.inj (wrote.symm.trans same)
  have table : after.field "disabled_providers" = state.field "disabled_providers" := by
    rw [Json.field, Json.field, rest _ (Ne.symm other)]
  have distinct := sound.distinct
  refine ⟨dict, by rw [table]; exact sound.table, ?_⟩
  rwa [disabledProviders, table, ← disabledProviders]

theorem ok_of_toOption {α : Type} {x : Except Raised α} {a : α} (h : x.toOption = some a) : x = .ok a := by
  cases x with
  | error e => cases h
  | ok b => exact congrArg Except.ok (Option.some.inj h)

theorem step_kept {providers : List (String × Option Provider)} (host : Host) (act : Act) (next : Host)
    (kept : Kept providers host) (stepped : host.step act = some next) : Kept providers next := by
  obtain ⟨same, sound⟩ := kept
  cases act with
  | environment env =>
    obtain rfl := Option.some.inj stepped
    exact ⟨same, sound⟩
  | allow allowed =>
    obtain rfl := Option.some.inj stepped
    exact ⟨same, sound⟩
  | disable pid entry =>
    obtain ⟨state, wrote, rfl⟩ := Option.map_eq_some_iff.mp stepped
    exact ⟨same, writeDisabled_sound sound (nodup_insert sound.distinct pid entry) wrote⟩
  | enable pid =>
    obtain ⟨state, wrote, rfl⟩ := Option.map_eq_some_iff.mp stepped
    exact ⟨same, writeDisabled_sound sound (nodup_filter sound.distinct _) wrote⟩
  | slot name value =>
    rw [Host.step] at stepped
    split at stepped
    · cases stepped
    · rename_i other
      obtain ⟨state, wrote, rfl⟩ := Option.map_eq_some_iff.mp stepped
      exact ⟨same, setItem_sound other sound (ok_of_toOption wrote)⟩
  | sync order now =>
    rw [Host.step] at stepped
    split at stepped
    · obtain ⟨state, ran, rfl⟩ := Option.map_eq_some_iff.mp stepped
      have ran := ok_of_toOption ran
      rw [Host.syncProviderAuthState] at ran
      split at ran
      · obtain rfl := Except.ok.inj ran
        exact ⟨same, sound⟩
      · obtain ⟨after, ran', kept, _⟩ := syncState_eq sound host.missing order now
        obtain rfl := Except.ok.inj (ran.symm.trans ran')
        exact ⟨same, kept⟩
    · cases stepped

/-- A run of the synchronisation takes place, whatever the order of the missing providers. -/
theorem sync_step (host : Host) (nonempty : host.providers ≠ []) (sound : Sound host.state) {order : List String} (once : order.Nodup)
    (listed : order.toFinset = host.missing) (now : Int) :
    ∃ state, host.step (.sync order now) = some { host with state := state } ∧
      syncState host.missing order now host.state = .ok state := by
  obtain ⟨state, ran, _⟩ := syncState_eq sound host.missing order now
  refine ⟨state, ?_, ran⟩
  have listing : host.providers.isEmpty = false := by simpa using nonempty
  rw [Host.step, if_pos ⟨once, listed⟩, Host.syncProviderAuthState, listing, if_neg Bool.false_ne_true, ran]
  rfl

/-- In every state a host can be brought to, the synchronisation takes exactly its part of
the disabled set, and a second one right away changes times only. -/
theorem run_sync {start : Host} (providers : start.providers ≠ []) (sound : Sound start.state) {acts : List Act}
    (reached : run Host.step start acts = some host) {order : List String} (once : order.Nodup)
    (listed : order.toFinset = host.missing) (now : Int) :
    ∃ after, host.step (.sync order now) = some after ∧ Synced host.missing host.state after.state ∧
      ∀ (order' : List String) (now' : Int), order'.Nodup → order'.toFinset = host.missing →
        ∃ later, after.step (.sync order' now') = some later ∧ SameButTimes after.state later.state := by
  have kept : Kept start.providers host := run_invariant ⟨rfl, sound⟩ step_kept reached
  have nonempty : host.providers ≠ [] := by rwa [kept.providers]
  obtain ⟨state, stepped, ran⟩ := sync_step host nonempty kept.sound once listed now
  refine ⟨_, stepped, syncState_synced kept.sound once listed ran, fun order' now' once' listed' => ?_⟩
  have sound' := (syncState_reconciled kept.sound once listed ran).1
  obtain ⟨state', stepped', again⟩ := sync_step { host with state := state } nonempty sound' once' listed' now'
  exact ⟨_, stepped', syncState_again kept.sound once listed once' listed' ran again⟩

/-- Two providers with a key in the environment, and an entry that is no dictionary. -/
def keyed : Host where
  providers := [("openai", some ⟨"", none, some "OPENAI_API_KEY", none, none, none, none⟩), ("note", none),
    ("mistral", some ⟨"", none, none, some ⟨some "bearer", some "MISTRAL_API_KEY"⟩, none, none, none⟩)]
  env := []
  allowed := none
  state := .obj [("ema_metrics", .obj [])]

/-- The core has disabled one of them when their keys are missing. -/
theorem keyed_sync :
    ∃ after, (Host.step { keyed with
        state := .obj [("ema_metrics", .obj []),
          ("disabled_providers", .obj [("openai", .obj [("kind", .str "auth_error")])])] }
        (.sync ["mistral", "openai"] 5)) = some after ∧
      (∃ cur, disableEntry after.state "mistral" = some cur ∧ unconfigured cur = true) ∧
      disableEntry after.state "openai" = some (.obj [("kind", .str "auth_error")]) := by
  have sound : Sound keyed.state := ⟨rfl, rfl, List.nodup_nil⟩
  have reached : run Host.step keyed [.disable "openai" (.obj [("kind", .str "auth_error")])] = some { keyed with
      state := .obj [("ema_metrics", .obj []),
        ("disabled_providers", .obj [("openai", .obj [("kind", .str "auth_error")])])] } := rfl
  obtain ⟨after, stepped, synced, _⟩ := run_sync (by decide) sound reached (show ["mistral", "openai"].Nodup by decide)
    (by decide) 5
  refine ⟨after, stepped, (synced.own "mistral").mpr ⟨by decide, ?_⟩, (synced.others "openai" _ (by decide)).mpr rfl⟩
  intro cur found
  cases found

end Runs

end Unhardcoded.Guarantees.ProviderAuth

import Mathlib.Tactic.Linarith
import Unhardcoded.Source.SnapshotCache

/-!
# Snapshots are computed once while they last

No two calls compute one key at a time (`alone`). A call begins to compute only where what the
cache held for the key has outlived its time, or was dropped (`RecordOk`); and what a call
returns was computed for its key, by the call itself or so recently that it was put within
the time to live (`Origin`). A call that is not done can go on, or waits for the lock of a
call that can (`snapshots_safe`).
-/

namespace Unhardcoded.Guarantees.SnapshotCache

open Effects Effects.KeyedCache Source.SnapshotCache

variable {κ ν : Type} [DecidableEq κ] {config : Config κ} {s t : State κ ν}

/-! ## The log -/

def changeOf : Record κ ν → Option (Change κ (Option ν))
  | .changed change => some change
  | _ => none

/-- What the log says of the cache. -/
def changes (log : List (Record κ ν)) : List (Change κ (Option ν)) := log.filterMap changeOf

/-- The value was computed for the key: by the call, or it was put less than a time to live before the call. -/
def Origin (config : Config κ) (log : List (Record κ ν)) (call : Nat) (key : κ) (since now : ℚ) (value : Option ν) : Prop :=
  ∃ other done, .computed other key done value ∈ log ∧ done ≤ now ∧
    (other = call ∧ since ≤ done ∨
      ∃ time, .changed (.put key time value) ∈ log ∧ done ≤ time ∧ time ≤ now ∧ since < time + config.ttl)

/-- What a record needs of the log before it. -/
def RecordOk (config : Config κ) (before : List (Record κ ν)) : Record κ ν → Prop
  | .began _ key now => ∀ time value, (key, (time, some value)) ∈ replay (changes before) → time + config.ttl ≤ now
  | .computed call key now _ => ∃ began, .began call key began ∈ before ∧ began ≤ now
  | .changed (.put key time value) => 0 < config.ttl ∧
      (config.direct key = false → ∃ call done, .computed call key done value ∈ before ∧ done ≤ time)
  | .changed (.drop _) => True
  | .returned call key since now value => Origin config before call key since now value

/-- What is cached was put. -/
theorem put_of_cached {log : List (Record κ ν)} {key : κ} {time : ℚ} {value : Option ν}
    (mem : (key, (time, value)) ∈ replay (changes log)) : Record.changed (.put key time value) ∈ log := by
  obtain ⟨before, change, later, split, rfl, -⟩ := (mem_replay _ _ _ _).mp mem
  have put : Change.put key time value ∈ changes log := by
    rw [split]
    exact List.mem_append_right _ List.mem_cons_self
  obtain ⟨record, mem, same⟩ := List.mem_filterMap.mp put
  cases record with
  | changed c => exact Option.some.inj same ▸ mem
  | began => cases same
  | computed => cases same
  | returned => cases same

def LogOk (config : Config κ) (log : List (Record κ ν)) : Prop :=
  ∀ before record later, log = before ++ record :: later → RecordOk config before record

theorem LogOk.snoc {log : List (Record κ ν)} (h : LogOk config log) {record : Record κ ν} (ok : RecordOk config log record) :
    LogOk config (log ++ [record]) := by
  intro before here later split
  cases later using List.reverseRecOn with
  | nil =>
    obtain ⟨rfl, last⟩ := List.append_inj' split rfl
    exact (List.cons.inj last).1 ▸ ok
  | append_singleton later last =>
    rw [← List.cons_append, ← List.append_assoc] at split
    exact h before here later (List.append_inj' split rfl).1

theorem LogOk.mem {log : List (Record κ ν)} (h : LogOk config log) {record : Record κ ν} (mem : record ∈ log) :
    ∃ before, (∀ r ∈ before, r ∈ log) ∧ RecordOk config before record := by
  obtain ⟨before, later, rfl⟩ := List.append_of_mem mem
  exact ⟨before, fun r here => List.mem_append_left _ here, h before record later rfl⟩

omit [DecidableEq κ] in
theorem Origin.mono {log log' : List (Record κ ν)} (grows : ∀ r ∈ log, r ∈ log') {call : Nat} {key : κ} {since now now' : ℚ}
    (later : now ≤ now') {value : Option ν} (h : Origin config log call key since now value) :
    Origin config log' call key since now' value := by
  obtain ⟨other, done, computed, early, own | ⟨time, put, order, stamped, fresh⟩⟩ := h
  · exact ⟨other, done, grows _ computed, early.trans later, .inl own⟩
  · exact ⟨other, done, grows _ computed, early.trans later, .inr ⟨time, grows _ put, order, stamped.trans later, fresh⟩⟩

/-! ## Phases -/

/-- The key of the compute lock that a call holds. -/
def inside : Phase κ ν → Option κ
  | .locked key _ => some key
  | .computing key _ => some key
  | .storing key _ _ => some key
  | .leaving key _ _ => some key
  | _ => none

/-- What a call has done, as the log has it. -/
def PhaseOk (config : Config κ) (log : List (Record κ ν)) (now : ℚ) (call : Nat) : Phase κ ν → Prop
  | .entered key since => config.direct key = false ∧ since ≤ now
  | .waiting key since => config.direct key = false ∧ since ≤ now
  | .locked key since => config.direct key = false ∧ since ≤ now
  | .computing key since => config.direct key = false ∧ ∃ began, .began call key began ∈ log ∧ since ≤ began ∧ began ≤ now
  | .storing key since value => config.direct key = false ∧
      ∃ done, .computed call key done value ∈ log ∧ since ≤ done ∧ done ≤ now
  | .leaving key since value => Origin config log call key since now value
  | .returned _ => True
  | .raised => True

omit [DecidableEq κ] in
theorem PhaseOk.mono {log log' : List (Record κ ν)} (grows : ∀ r ∈ log, r ∈ log') {now now' : ℚ} (later : now ≤ now')
    {call : Nat} {phase : Phase κ ν} (h : PhaseOk config log now call phase) : PhaseOk config log' now' call phase := by
  cases phase with
  | entered => exact ⟨h.1, h.2.trans later⟩
  | waiting => exact ⟨h.1, h.2.trans later⟩
  | locked => exact ⟨h.1, h.2.trans later⟩
  | computing =>
    obtain ⟨own, began, mem, order, early⟩ := h
    exact ⟨own, began, grows _ mem, order, early.trans later⟩
  | storing =>
    obtain ⟨own, done, mem, order, early⟩ := h
    exact ⟨own, done, grows _ mem, order, early.trans later⟩
  | leaving => exact Origin.mono grows later h
  | returned => trivial
  | raised => trivial

structure Standing (config : Config κ) (s : State κ ν) : Prop where
  cache : s.cache = replay (changes s.log)
  log : LogOk config s.log
  stamped : ∀ key time value, .changed (.put key time value) ∈ s.log → time ≤ s.clock
  phases : ∀ call phase, s.phase call = some phase → PhaseOk config s.log s.clock call phase

/-- The holder of a key's lock is the call that stands inside it. -/
def Locked (s : State κ ν) : Prop := ∀ key call, s.holder key = some call ↔ (s.phase call).bind inside = some key

/-! ## The parts of a step -/

theorem Standing.note (h : Standing config s) (record : Record κ ν) (ok : RecordOk config s.log record)
    (plain : changeOf record = none) : Standing config (s.note record) where
  cache := by
    have same : changes (s.log ++ [record]) = changes s.log := by
      rw [changes, List.filterMap_append, List.filterMap_cons_none plain, List.filterMap_nil, List.append_nil]
      rfl
    rw [State.note, same]
    exact h.cache
  log := h.log.snoc ok
  stamped := by
    intro key time value mem
    rcases List.mem_append.mp mem with old | new
    · exact h.stamped key time value old
    · rw [← List.mem_singleton.mp new] at plain
      cases plain
  phases := fun call phase here => (h.phases call phase here).mono (fun _ => List.mem_append_left _) le_rfl

theorem Standing.change (h : Standing config s) {c : Change κ (Option ν)} (ok : RecordOk config s.log (.changed c))
    (stamp : ∀ key time value, c = .put key time value → time ≤ s.clock) : Standing config (s.change c) where
  cache := by
    have same : changes (s.log ++ [.changed c]) = changes s.log ++ [c] := by
      rw [changes, List.filterMap_append]
      rfl
    change commit s.cache c = replay (changes (s.log ++ [.changed c]))
    rw [same, replay_append, h.cache]
  log := h.log.snoc ok
  stamped := by
    intro key time value mem
    rcases List.mem_append.mp mem with old | new
    · exact h.stamped key time value old
    · exact stamp key time value (Record.changed.inj (List.mem_singleton.mp new)).symm
  phases := fun call phase here => (h.phases call phase here).mono (fun _ => List.mem_append_left _) le_rfl

theorem Standing.clear (h : Standing config s) : Standing config s.clear := h.change trivial fun _ _ _ same => by cases same

theorem Standing.put (h : Standing config s) (key : κ) (value : Option ν)
    (computed : config.direct key = false → ∃ call done, .computed call key done value ∈ s.log ∧ done ≤ s.clock) :
    Standing config (s.put config key value) := by
  unfold State.put
  split
  · exact h
  · rename_i lives
    have positive : 0 < config.ttl := not_le.mp lives
    have room : Standing config (if 256 < s.cache.length then s.clear else s) := by
      split
      · exact h.clear
      · exact h
    have clock : (if 256 < s.cache.length then s.clear else s).clock = s.clock := by
      split <;> rfl
    have grows : ∀ r ∈ s.log, r ∈ (if 256 < s.cache.length then s.clear else s).log := by
      intro r mem
      split
      · exact List.mem_append_left _ mem
      · exact mem
    refine room.change ⟨positive, fun own => ?_⟩ fun _ _ _ same => ?_
    · obtain ⟨call, done, mem, early⟩ := computed own
      exact ⟨call, done, grows _ mem, early⟩
    · cases same
      exact clock.ge

theorem Standing.move (h : Standing config s) {call : Nat} {phase : Phase κ ν} (ok : PhaseOk config s.log s.clock call phase) :
    Standing config (s.move call phase) where
  cache := h.cache
  log := h.log
  stamped := h.stamped
  phases := by
    intro c p here
    change (if c = call then some phase else s.phase c) = some p at here
    split at here
    · rename_i same
      subst same
      cases here
      exact ok
    · exact h.phases c p here

theorem Standing.lock (h : Standing config s) (key : κ) (holder : Option Nat) : Standing config (s.lock key holder) :=
  ⟨h.cache, h.log, h.stamped, h.phases⟩

/-- A hit is what the key's last put left, and it is younger than the time to live. -/
theorem Standing.hit (h : Standing config s) {key : κ} {value : ν} (found : s.get config key = some value) :
    ∃ time, (key, (time, some value)) ∈ replay (changes s.log) ∧ s.clock - time < config.ttl := by
  unfold State.get at found
  split at found
  · cases found
  · have found : KeyedCache.get config.ttl s.clock s.cache key = some (some value) := by
      cases held : KeyedCache.get config.ttl s.clock s.cache key with
      | none => rw [held] at found; cases found
      | some v => rw [held] at found; exact congrArg some found
    rw [h.cache] at found
    exact get_eq_some.mp found

/-- A miss: what is there for the key is older, or a `None`. -/
theorem Standing.miss (h : Standing config s) {key : κ} (missed : s.get config key = none) :
    ∀ time value, (key, (time, some value)) ∈ replay (changes s.log) → time + config.ttl ≤ s.clock := by
  intro time value mem
  unfold State.get at missed
  split at missed
  · rename_i off
    -- no time to live: nothing is ever put
    obtain ⟨_, -, positive, -⟩ := h.log.mem (put_of_cached mem)
    exact absurd positive (not_lt.mpr off)
  · by_contra young
    have held : KeyedCache.get config.ttl s.clock (replay (changes s.log)) key = some (some value) :=
      get_eq_some.mpr ⟨time, mem, by linarith [not_le.mp young]⟩
    rw [← h.cache] at held
    rw [held] at missed
    cases missed

/-- What a hit of a computed key returns has its origin. -/
theorem Standing.origin (h : Standing config s) {key : κ} {value : ν} (own : config.direct key = false) {since : ℚ}
    (early : since ≤ s.clock) (found : s.get config key = some value) (call : Nat) :
    Origin config s.log call key since s.clock (some value) := by
  obtain ⟨time, mem, young⟩ := h.hit found
  have put := put_of_cached mem
  obtain ⟨earlier, inLog, -, computed⟩ := h.log.mem put
  obtain ⟨other, done, mem, order⟩ := computed own
  have stamp := h.stamped _ _ _ put
  exact ⟨other, done, inLog _ mem, order.trans stamp, .inr ⟨time, put, order, stamp, by linarith⟩⟩

/-! ## Steps -/

omit [DecidableEq κ] in
/-- A call moves on without taking or leaving a lock. -/
theorem Locked.move (h : Locked s) {call : Nat} {old new : Phase κ ν} (here : s.phase call = some old)
    (stays : inside new = inside old) : Locked (s.move call new) := by
  intro key c
  rw [show (s.move call new).holder key = s.holder key from rfl, h key c]
  change _ ↔ (if c = call then some new else s.phase c).bind inside = some key
  by_cases same : c = call
  · subst same
    rw [if_pos rfl, here, Option.bind_some, Option.bind_some, stays]
  · rw [if_neg same]

omit [DecidableEq κ] in
theorem Locked.enter (h : Locked s) {call : Nat} {new : Phase κ ν} (fresh : s.phase call = none)
    (outside : inside new = none) : Locked (s.move call new) := by
  intro key c
  rw [show (s.move call new).holder key = s.holder key from rfl, h key c]
  change _ ↔ (if c = call then some new else s.phase c).bind inside = some key
  by_cases same : c = call
  · subst same
    rw [if_pos rfl, fresh, Option.bind_some, outside, Option.bind_none]
  · rw [if_neg same]

theorem Locked.acquire (h : Locked s) {call : Nat} {old new : Phase κ ν} {key : κ} (here : s.phase call = some old)
    (outside : inside old = none) (free : s.holder key = none) (gets : inside new = some key) :
    Locked ((s.lock key (some call)).move call new) := by
  intro k c
  change (if k = key then some call else s.holder k) = some c ↔ (if c = call then some new else s.phase c).bind inside = some k
  by_cases own : c = call
  · subst own
    rw [if_pos rfl, Option.bind_some, gets]
    by_cases same : k = key
    · simp [same]
    · have elsewhere := h k c
      rw [here, Option.bind_some, outside] at elsewhere
      rw [if_neg same, elsewhere]
      simp [Ne.symm same]
  · rw [if_neg own, ← h k c]
    by_cases same : k = key
    · subst same
      rw [if_pos rfl, free]
      simp [Ne.symm own]
    · rw [if_neg same]

theorem Locked.release (h : Locked s) {call : Nat} {old new : Phase κ ν} {key : κ} (here : s.phase call = some old)
    (held : inside old = some key) (outside : inside new = none) : Locked ((s.lock key none).move call new) := by
  have owner : s.holder key = some call := (h key call).mpr (by rw [here, Option.bind_some, held])
  intro k c
  change (if k = key then none else s.holder k) = some c ↔ (if c = call then some new else s.phase c).bind inside = some k
  by_cases same : k = key
  · subst same
    rw [if_pos rfl]
    by_cases own : c = call
    · simp [own, outside]
    · rw [if_neg own, ← h k c, owner]
      simp [Ne.symm own]
  · rw [if_neg same, h k c]
    by_cases own : c = call
    · subst own
      rw [if_pos rfl, Option.bind_some, outside, here, Option.bind_some, held]
      simp [Ne.symm same]
    · rw [if_neg own]

theorem locked_put (h : Locked s) (key : κ) (value : Option ν) : Locked (s.put config key value) := by
  have same : (s.put config key value).holder = s.holder ∧ (s.put config key value).phase = s.phase := by
    unfold State.put
    split
    · exact ⟨rfl, rfl⟩
    · split <;> exact ⟨rfl, rfl⟩
  intro k c
  rw [same.1, same.2]
  exact h k c

theorem put_clock (config : Config κ) (s : State κ ν) (key : κ) (value : Option ν) :
    (s.put config key value).clock = s.clock ∧ (s.put config key value).phase = s.phase ∧
      (∀ r ∈ s.log, r ∈ (s.put config key value).log) ∧
      (0 < config.ttl → .changed (.put key s.clock value) ∈ (s.put config key value).log) := by
  unfold State.put
  split
  · rename_i off
    exact ⟨rfl, rfl, fun _ mem => mem, fun on => absurd on (not_lt.mpr off)⟩
  · split
    · exact ⟨rfl, rfl, fun _ mem => List.mem_append_left _ (List.mem_append_left _ mem),
        fun _ => List.mem_append_right _ List.mem_cons_self⟩
    · exact ⟨rfl, rfl, fun _ mem => List.mem_append_left _ mem, fun _ => List.mem_append_right _ List.mem_cons_self⟩

/-- One step of one call, or of the clock, or of a view that fills the cache. -/
theorem step_standing (h : Standing config s ∧ Locked s) {act : Act κ ν} (stepped : State.step config s act = some t) :
    Standing config t ∧ Locked t := by
  obtain ⟨st, lk⟩ := h
  cases act with
  | call call key =>
    simp only [State.step] at stepped
    split at stepped
    · rename_i fresh
      split at stepped
      · cases stepped
      · rename_i own
        cases stepped
        exact ⟨st.move ⟨Bool.eq_false_iff.mpr own, le_rfl⟩, lk.enter fresh rfl⟩
    · cases stepped
  | look call =>
    simp only [State.step] at stepped
    split at stepped
    · rename_i key since here
      obtain ⟨own, early⟩ := st.phases call _ here
      split at stepped
      · rename_i value found
        cases stepped
        have origin := st.origin own early found call
        exact ⟨(st.note (.returned call key since s.clock (some value)) origin rfl).move trivial, Locked.move lk here rfl⟩
      · cases stepped
        exact ⟨st.move ⟨own, early⟩, lk.move here rfl⟩
    · cases stepped
  | acquire call =>
    simp only [State.step] at stepped
    split at stepped
    · rename_i key since here
      have waited := st.phases call _ here
      split at stepped
      · rename_i free
        cases stepped
        exact ⟨(st.lock key _).move waited, lk.acquire here rfl (Option.isNone_iff_eq_none.mp free) rfl⟩
      · cases stepped
    · cases stepped
  | lookAgain call =>
    simp only [State.step] at stepped
    split at stepped
    · rename_i key since here
      obtain ⟨own, early⟩ := st.phases call _ here
      split at stepped
      · rename_i value found
        cases stepped
        exact ⟨st.move (st.origin own early found call), lk.move here rfl⟩
      · rename_i missed
        cases stepped
        refine ⟨(st.note (.began call key s.clock) (st.miss missed) rfl).move ⟨own, s.clock, ?_, early, le_rfl⟩, Locked.move lk here rfl⟩
        exact List.mem_append_right _ List.mem_cons_self
    · cases stepped
  | computed call result =>
    simp only [State.step] at stepped
    split at stepped
    · rename_i key since here
      obtain ⟨own, began, mem, order, early⟩ := st.phases call _ here
      cases result with
      | some value =>
        cases stepped
        refine ⟨(st.note (.computed call key s.clock value) ⟨began, mem, early⟩ rfl).move ⟨own, s.clock, ?_, order.trans early, le_rfl⟩, Locked.move lk here rfl⟩
        exact List.mem_append_right _ List.mem_cons_self
      | none =>
        cases stepped
        exact ⟨(st.lock key _).move trivial, lk.release here rfl rfl⟩
    · cases stepped
  | store call =>
    simp only [State.step] at stepped
    split at stepped
    · rename_i key since value here
      obtain ⟨own, done, mem, order, early⟩ := st.phases call _ here
      obtain ⟨clock, phases, grows, -⟩ := put_clock config s key value
      have there : (s.put config key value).phase call = some (.storing key since value) := by rw [phases, here]
      cases stepped
      refine ⟨(st.put key value fun _ => ⟨call, done, mem, early⟩).move ?_, (locked_put lk key value).move there rfl⟩
      exact ⟨call, done, grows _ mem, clock ▸ early, .inl ⟨rfl, order⟩⟩
    · cases stepped
  | leave call =>
    simp only [State.step] at stepped
    split at stepped
    · rename_i key since value here
      have origin := st.phases call _ here
      cases stepped
      exact ⟨((st.lock key none).note (.returned call key since s.clock value) origin rfl).move trivial, lk.release here rfl rfl⟩
    · cases stepped
  | fill key value =>
    simp only [State.step] at stepped
    split at stepped
    · rename_i direct
      cases stepped
      exact ⟨st.put key value fun own => absurd direct (by simp [own]), locked_put lk key value⟩
    · cases stepped
  | clear =>
    cases stepped
    exact ⟨st.clear, lk⟩
  | tick elapsed =>
    simp only [State.step] at stepped
    split at stepped
    · rename_i forward
      cases stepped
      have later : s.clock ≤ s.clock + elapsed := by linarith
      refine ⟨⟨st.cache, st.log, ?_, ?_⟩, lk⟩
      · intro key time value mem
        exact (st.stamped key time value mem).trans later
      · intro call phase here
        exact (st.phases call phase here).mono (fun _ mem => mem) later
    · cases stepped

theorem standing_start (now : ℚ) : Standing config (State.start now : State κ ν) ∧ Locked (State.start now : State κ ν) := by
  refine ⟨⟨rfl, ?_, ?_, ?_⟩, ?_⟩
  · intro before record later split
    exact absurd split (by simp [State.start])
  · intro key time value mem
    cases mem
  · intro call phase here
    cases here
  · intro key call
    simp [State.start]

theorem standing_run {now : ℚ} {acts : List (Act κ ν)} (ran : runCache config now acts = some s) :
    Standing config s ∧ Locked s :=
  Machine.run_invariant (I := fun s => Standing config s ∧ Locked s) (standing_start now)
    (fun _ _ _ h stepped => step_standing h stepped) ran

/-! ## Main results -/

/-- A call computes its key. -/
def Computes (s : State κ ν) (call : Nat) (key : κ) : Prop := ∃ since, s.phase call = some (.computing key since)

/-- A call that has neither returned nor raised. -/
def Unfinished (s : State κ ν) (call : Nat) : Prop :=
  ∃ phase, s.phase call = some phase ∧ phase ≠ .raised ∧ ∀ value, phase ≠ .returned value

/-- The call can take a step of its own, whatever `compute` gives. -/
def CanStep (config : Config κ) (s : State κ ν) (call : Nat) : Prop :=
  ∀ result, ∃ act ∈ [.look call, .acquire call, .lookAgain call, .computed call result, .store call, .leave call],
    (State.step config s act).isSome = true

/-- A call inside its lock can go on. -/
theorem canStep_inside {call : Nat} {key : κ} (held : (s.phase call).bind inside = some key) : CanStep config s call := by
  obtain ⟨phase, here, held⟩ := Option.bind_eq_some_iff.mp held
  intro result
  cases phase with
  | locked key since =>
    refine ⟨.lookAgain call, by simp, ?_⟩
    simp only [State.step, here]
    split <;> rfl
  | computing key since =>
    refine ⟨.computed call result, by simp, ?_⟩
    simp only [State.step, here]
    split <;> rfl
  | storing key since value => exact ⟨.store call, by simp, by simp [State.step, here]⟩
  | leaving key since value => exact ⟨.leave call, by simp, by simp [State.step, here]⟩
  | entered => cases held
  | waiting => cases held
  | returned => cases held
  | raised => cases held

/-- A call that is not done can go on, or waits for one that can. -/
theorem canStep_or_waits (locked : Locked s) {call : Nat} (unfinished : Unfinished s call) :
    CanStep config s call ∨ ∃ key since holder, s.phase call = some (.waiting key since) ∧ s.holder key = some holder ∧
      CanStep config s holder := by
  obtain ⟨phase, here, noRaise, noReturn⟩ := unfinished
  cases phase with
  | entered key since =>
    refine .inl fun result => ⟨.look call, by simp, ?_⟩
    simp only [State.step, here]
    split <;> rfl
  | waiting key since =>
    cases held : s.holder key with
    | none => exact .inl fun result => ⟨.acquire call, by simp, by simp [State.step, here, held]⟩
    | some holder => exact .inr ⟨key, since, holder, here, held, canStep_inside ((locked key holder).mp held)⟩
  | locked key since => exact .inl (canStep_inside (show (s.phase call).bind inside = some key by rw [here]; rfl))
  | computing key since => exact .inl (canStep_inside (show (s.phase call).bind inside = some key by rw [here]; rfl))
  | storing key since value => exact .inl (canStep_inside (show (s.phase call).bind inside = some key by rw [here]; rfl))
  | leaving key since value => exact .inl (canStep_inside (show (s.phase call).bind inside = some key by rw [here]; rfl))
  | returned value => exact absurd rfl (noReturn value)
  | raised => exact absurd rfl noRaise

theorem cached_of_log {before later : List (Record κ ν)} {key : κ} {time : ℚ} {value : Option ν}
    (kept : ∀ c, .changed c ∈ later → ¬ c.Touches key) :
    (key, (time, value)) ∈ replay (changes (before ++ .changed (.put key time value) :: later)) := by
  refine (mem_replay _ _ _ _).mpr ⟨changes before, .put key time value, changes later, ?_, rfl, ?_⟩
  · rw [changes, List.filterMap_append]
    rfl
  · intro c mem
    obtain ⟨record, inLater, same⟩ := List.mem_filterMap.mp mem
    cases record with
    | changed c' => exact Option.some.inj same ▸ kept c' inLater
    | began => cases same
    | computed => cases same
    | returned => cases same

/-- In every interleaving of the calls of one process:
no two calls compute one key at a time; between a put of a value and the next time the key is
computed the time to live has passed, or the cache was cleared or the key was put again; what a
call returns was computed for its own key, by a computation that had begun, and either by the
call itself or put less than a time to live before the call; and no call is stuck. -/
theorem snapshots_safe {now : ℚ} {acts : List (Act κ ν)} (ran : runCache config now acts = some s) :
    (∀ key i j, Computes s i key → Computes s j key → i = j) ∧
      (∀ first key time value between call began rest,
        s.log = first ++ .changed (.put key time (some value)) :: between ++ .began call key began :: rest →
        (∀ c, .changed c ∈ between → ¬ c.Touches key) → time + config.ttl ≤ began) ∧
      (∀ call key since now value, .returned call key since now value ∈ s.log →
        Origin config s.log call key since now value) ∧
      (∀ call key done value, .computed call key done value ∈ s.log → ∃ began, .began call key began ∈ s.log ∧ began ≤ done) ∧
      ∀ call, Unfinished s call → CanStep config s call ∨ ∃ key since holder,
        s.phase call = some (.waiting key since) ∧ s.holder key = some holder ∧ CanStep config s holder := by
  obtain ⟨st, locked⟩ := standing_run ran
  refine ⟨?_, ?_, ?_, ?_, fun call => canStep_or_waits locked⟩
  · rintro key i j ⟨since, first⟩ ⟨since', second⟩
    have one : s.holder key = some i := (locked key i).mpr (by rw [first]; rfl)
    have two : s.holder key = some j := (locked key j).mpr (by rw [second]; rfl)
    exact Option.some.inj (one.symm.trans two)
  · intro first key time value between call began rest split kept
    exact st.log _ _ _ split time value (cached_of_log kept)
  · intro call key since now value mem
    obtain ⟨before, inLog, origin⟩ := st.log.mem mem
    exact Origin.mono inLog le_rfl origin
  · intro call key done value mem
    obtain ⟨before, inLog, began, first, order⟩ := st.log.mem mem
    exact ⟨began, inLog _ first, order⟩

/-- Two viewers of one page: the second waits for the first, and keeps what it found when the cache is cleared. -/
def twoViewers : List (Act String Nat) :=
  [.call 0 "stats", .look 0, .acquire 0, .lookAgain 0, .call 1 "stats", .look 1, .computed 0 (some (some 7)), .tick 3,
    .store 0, .leave 0, .acquire 1, .lookAgain 1, .clear, .leave 1]

def twelveSeconds : Config String := ⟨12, fun _ => false⟩

/-- The second viewer got the first one's value. -/
def isShared : Record String Nat → Bool
  | .returned call key since now value => call = 1 && key = "stats" && since = 0 && now = 3 && value = some 7
  | _ => false

theorem snapshots_safe_shared :
    ∃ s, runCache twelveSeconds 0 twoViewers = some s ∧ Origin twelveSeconds s.log 1 "stats" 0 3 (some 7) := by
  have reached : ((runCache twelveSeconds 0 twoViewers).any fun s => s.log.any isShared) = true := by decide +kernel
  obtain ⟨s, ran, shared⟩ := (Option.any_eq_true _ _).mp reached
  obtain ⟨record, mem, same⟩ := List.any_eq_true.mp shared
  refine ⟨s, ran, (snapshots_safe ran).2.2.1 _ _ _ _ _ ?_⟩
  cases record with
  | returned call key since now value =>
    simp only [isShared, Bool.and_eq_true, decide_eq_true_eq] at same
    obtain ⟨⟨⟨⟨rfl, rfl⟩, rfl⟩, rfl⟩, rfl⟩ := same
    exact mem
  | began => cases same
  | computed => cases same
  | changed => cases same

end Unhardcoded.Guarantees.SnapshotCache

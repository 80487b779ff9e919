import Mathlib.Tactic.Linarith
import Unhardcoded.Source.OpenrouterCatalog

/-!
# The catalogue is fetched seldom and served fresh

The lock keeps the fetches apart, and what a call returns is the newest catalogue, which was
fresh enough when the call got the lock. A fetch that fails with an exception leaves its time
in `failed_at`; one that the time limit strikes does not, and the next call fetches at once.
The runs in which no fetch is struck are throttled (`Quiet`).
-/

namespace Unhardcoded.Guarantees.OpenrouterCatalog

open Unhardcoded.Effects Unhardcoded.Source.OpenrouterCatalog

variable {V : Type}

section Property

/-- The call holds the lock: it fetches, or closes the client after that. -/
def holds : Option (Phase V) → Bool
  | some (.fetching _ _) => true
  | some (.closing _ _) => true
  | _ => false

/-- The newest catalogue of a log, and when its fetch ended. -/
def latest : List (Mark V) → Option (V × ℚ)
  | [] => none
  | .ended t (some value) :: _ => some (value, t)
  | _ :: older => latest older

/-- A fetch begins only where there is no catalogue or it is old, and what is returned is the
newest catalogue, fresh enough when the lock was got. -/
def Fresh : List (Mark V) → Prop
  | [] => True
  | .began start :: older =>
    (∀ value t, latest older = some (value, t) → OPENROUTER_CATALOG_TTL_S ≤ start - t) ∧ Fresh older
  | .ended _ _ :: older => Fresh older
  | .returned value obtained :: older =>
    (∃ t, latest older = some (value, t) ∧ obtained - t < OPENROUTER_CATALOG_STALE_S) ∧ Fresh older

/-- A fetch begins no sooner than the retry time after one that brought no catalogue. -/
def Throttled (log : List (Mark V)) : Prop :=
  log.Pairwise fun later earlier => ∀ start t, later = .began start → earlier = .ended t none →
    t + OPENROUTER_CATALOG_RETRY_S ≤ start

/-- What the snapshot promises. -/
structure Bounded (s : CatalogState V) : Prop where
  alone : ∀ id id', holds (s.phase id) = true → holds (s.phase id') = true → id = id'
  throttled : Throttled s.log
  fresh : Fresh s.log
  told : ∀ id value, s.phase id = some (.ended (.returned value)) → ∃ obtained, .returned value obtained ∈ s.log

end Property

section Lock

variable {s t : CatalogState V} {id : Nat} {phase : Phase V}

/-- Who holds the lock has taken it, and is alone. -/
structure Locked (s : CatalogState V) : Prop where
  taken : ∀ id, holds (s.phase id) = true → s.locked = true
  alone : ∀ id id', holds (s.phase id) = true → holds (s.phase id') = true → id = id'

theorem put_same (phases : t.phase = (s.put id phase).phase) : t.phase id = some phase := by
  rw [phases, CatalogState.put]
  exact if_pos rfl

theorem put_other (phases : t.phase = (s.put id phase).phase) {other : Nat} (ne : other ≠ id) : t.phase other = s.phase other := by
  rw [phases, CatalogState.put]
  exact if_neg ne

/-- A call that takes no lock it has not got. -/
theorem Locked.keep (h : Locked s) (phases : t.phase = (s.put id phase).phase) (locked : t.locked = s.locked)
    (held : holds (some phase) = true → holds (s.phase id) = true) : Locked t := by
  have old (other : Nat) (here : holds (t.phase other) = true) : holds (s.phase other) = true := by
    by_cases same : other = id
    · subst same
      rw [put_same phases] at here
      exact held here
    · rwa [put_other phases same] at here
  exact ⟨fun other here => locked ▸ h.taken other (old other here),
    fun other other' here here' => h.alone other other' (old other here) (old other' here')⟩

/-- The holder gives the lock back. -/
theorem Locked.release (h : Locked s) (phases : t.phase = (s.put id phase).phase) (held : holds (s.phase id) = true)
    (gone : holds (some phase) = false) : Locked t := by
  have none (other : Nat) : holds (t.phase other) = false := by
    by_cases same : other = id
    · subst same
      rw [put_same phases, gone]
    · rw [put_other phases same]
      by_contra here
      exact same (h.alone other id (by simpa using here) held)
  exact ⟨fun other here => by simp [none] at here, fun other _ here => by simp [none] at here⟩

/-- A call gets the lock that is free. -/
theorem Locked.take (h : Locked s) (phases : t.phase = (s.put id phase).phase) (free : s.locked = false)
    (locked : t.locked = true) : Locked t := by
  have own (other : Nat) (here : holds (t.phase other) = true) : other = id := by
    by_contra ne
    rw [put_other phases ne] at here
    have := h.taken other here
    rw [free] at this
    cases this
  exact ⟨fun _ _ => locked, fun other other' here here' => (own other here).trans (own other' here').symm⟩

end Lock

section Sound

variable {s t : CatalogState V} {id : Nat} {phase : Phase V}

/-- What a call knows where it stands. -/
def Known (s : CatalogState V) : Phase V → Prop
  | .fetching obtained stale =>
    obtained ≤ s.now ∧ (stale = true → obtained - s.snapshot.fetchedAt < OPENROUTER_CATALOG_STALE_S)
  | .closing obtained (.failed (some value)) =>
    obtained ≤ s.now ∧ s.snapshot.value = some value ∧ obtained - s.snapshot.fetchedAt < OPENROUTER_CATALOG_STALE_S
  | .closing obtained _ => obtained ≤ s.now
  | _ => True

structure Sound (s : CatalogState V) : Prop where
  lock : Locked s
  shown : latest s.log = s.snapshot.value.map fun value => (value, s.snapshot.fetchedAt)
  known : ∀ id phase, s.phase id = some phase → Known s phase
  fresh : Fresh s.log
  past : ∀ at_ value, .ended at_ value ∈ s.log → at_ ≤ s.now
  told : ∀ id value, s.phase id = some (.ended (.returned value)) → ∃ obtained, .returned value obtained ∈ s.log

theorem known_of_idle (idle : holds (some phase) = false) : Known s phase := by
  cases phase with
  | waiting => trivial
  | fetching obtained stale => cases idle
  | closing obtained ending => cases idle
  | ended outcome => trivial

theorem Known.mono (h : Known s phase) (now : s.now ≤ t.now) (value : t.snapshot.value = s.snapshot.value)
    (fetchedAt : t.snapshot.fetchedAt = s.snapshot.fetchedAt) : Known t phase := by
  unfold Known at h ⊢
  rw [value, fetchedAt]
  split at h
  · exact ⟨h.1.trans now, h.2⟩
  · exact ⟨h.1.trans now, h.2⟩
  · exact le_trans h now
  · trivial

theorem Known.obtained {obtained : ℚ} (h : Known s phase)
    (here : (∃ stale, phase = .fetching obtained stale) ∨ ∃ ending, phase = .closing obtained ending) : obtained ≤ s.now := by
  rcases here with ⟨stale, rfl⟩ | ⟨ending, rfl⟩
  · exact h.1
  · unfold Known at h
    split at h
    · cases ‹_ = _›
    · rename_i same
      cases same
      exact h.1
    · rename_i same
      cases same
      exact h
    · rename_i other
      exact absurd rfl (other _ _)

/-- One call moves, and the catalogue stays. -/
structure Moves (s t : CatalogState V) (id : Nat) (phase : Phase V) : Prop where
  phases : t.phase = (s.put id phase).phase
  now : t.now = s.now
  value : t.snapshot.value = s.snapshot.value
  fetchedAt : t.snapshot.fetchedAt = s.snapshot.fetchedAt

/-- What may be logged while the catalogue stays. -/
def Allowed (s : CatalogState V) : Option (Mark V) → Prop
  | none => True
  | some (.began start) => ∀ value, s.snapshot.value = some value → OPENROUTER_CATALOG_TTL_S ≤ start - s.snapshot.fetchedAt
  | some (.ended at_ value) => at_ = s.now ∧ value = none
  | some (.returned value obtained) =>
    s.snapshot.value = some value ∧ obtained - s.snapshot.fetchedAt < OPENROUTER_CATALOG_STALE_S

theorem Sound.moves (h : Sound s) (mark : Option (Mark V)) (moves : Moves s t id phase) (lock : Locked t) (known : Known t phase)
    (log : t.log = mark.toList ++ s.log) (allowed : Allowed s mark)
    (tells : ∀ value, phase = .ended (.returned value) → ∃ obtained, mark = some (.returned value obtained)) : Sound t where
  lock := lock
  shown := by
    rw [moves.value, moves.fetchedAt, ← h.shown, log]
    cases mark with
    | none => rfl
    | some mark =>
      cases mark with
      | began start => rfl
      | ended at_ value =>
        obtain ⟨-, rfl⟩ := allowed
        rfl
      | returned value obtained => rfl
  known := by
    intro other phase' here
    by_cases same : other = id
    · subst same
      rw [put_same moves.phases] at here
      obtain rfl := Option.some.inj here
      exact known
    · rw [put_other moves.phases same] at here
      exact (h.known other phase' here).mono moves.now.ge moves.value moves.fetchedAt
  fresh := by
    rw [log]
    cases mark with
    | none => exact h.fresh
    | some mark =>
      cases mark with
      | began start =>
        refine ⟨fun value t here => ?_, h.fresh⟩
        have here : latest s.log = some (value, t) := here
        rw [h.shown, Option.map_eq_some_iff] at here
        obtain ⟨value', there, same⟩ := here
        obtain ⟨rfl, rfl⟩ := Prod.mk.inj same
        exact allowed value' there
      | ended at_ value =>
        exact h.fresh
      | returned value obtained =>
        have shown : latest s.log = some (value, s.snapshot.fetchedAt) := by
          rw [h.shown, allowed.1]
          rfl
        exact ⟨⟨s.snapshot.fetchedAt, shown, allowed.2⟩, h.fresh⟩
  past := by
    intro at_ value mem
    rw [moves.now]
    rw [log] at mem
    rcases List.mem_append.mp mem with new | old
    · cases mark with
      | none => cases new
      | some mark =>
        rw [Option.toList_some, List.mem_singleton] at new
        subst new
        exact allowed.1.le
    · exact h.past at_ value old
  told := by
    intro other value here
    rw [log]
    by_cases same : other = id
    · subst same
      rw [put_same moves.phases] at here
      obtain ⟨obtained, rfl⟩ := tells value (Option.some.inj here)
      exact ⟨obtained, List.mem_append_left _ (by simp)⟩
    · rw [put_other moves.phases same] at here
      obtain ⟨obtained, mem⟩ := h.told other value here
      exact ⟨obtained, List.mem_append_right _ mem⟩

/-- Getting the lock: an answer, a refusal or a fetch. -/
theorem sound_enter (h : Sound s) (free : s.locked = false) : Sound (s.enter id) := by
  have keep {t : CatalogState V} {phase : Phase V} (phases : t.phase = (s.put id phase).phase) (locked : t.locked = s.locked)
      (idle : holds (some phase) = false) : Locked t :=
    h.lock.keep phases locked fun here => by rw [idle] at here; cases here
  have refused : Sound (s.put id (.ended .raised)) :=
    h.moves none ⟨rfl, rfl, rfl, rfl⟩ (keep rfl rfl rfl) trivial rfl trivial (fun _ same => by cases same)
  unfold CatalogState.enter
  cases value : s.snapshot.value with
  | none =>
    dsimp only
    split
    · exact refused
    · refine h.moves (some (.began s.now)) ⟨rfl, rfl, rfl, rfl⟩ (h.lock.take rfl free rfl) ⟨le_rfl, fun same => by cases same⟩
        rfl (fun value' there => ?_) (fun _ same => by cases same)
      rw [value] at there
      cases there
  | some v =>
    dsimp only
    split_ifs with young failed stale
    · refine h.moves (some (.returned v s.now)) ⟨rfl, rfl, rfl, rfl⟩ (keep rfl rfl rfl) trivial rfl ⟨value, ?_⟩
        (fun _ same => ⟨_, by cases same; rfl⟩)
      refine young.trans ?_
      norm_num [OPENROUTER_CATALOG_TTL_S, OPENROUTER_CATALOG_STALE_S]
    · exact h.moves (some (.returned v s.now)) ⟨rfl, rfl, rfl, rfl⟩ (keep rfl rfl rfl) trivial rfl ⟨value, stale⟩
        (fun _ same => ⟨_, by cases same; rfl⟩)
    · exact refused
    · refine h.moves (some (.began s.now)) ⟨rfl, rfl, rfl, rfl⟩ (h.lock.take rfl free rfl)
        ⟨le_rfl, fun same => of_decide_eq_true same⟩ rfl (fun _ _ => not_lt.mp young) (fun _ same => by cases same)

/-- The fetch fails with an exception. -/
theorem sound_fail {obtained : ℚ} {stale : Bool} (h : Sound s) (here : s.phase id = some (.fetching obtained stale)) :
    Sound (s.fail id obtained stale) := by
  obtain ⟨past, young⟩ : obtained ≤ s.now ∧ (stale = true → _) := h.known id _ here
  refine h.moves (some (.ended s.now none)) ⟨rfl, rfl, rfl, rfl⟩ (h.lock.keep rfl rfl fun _ => by rw [here]; rfl) ?_ rfl ⟨rfl, rfl⟩
    (fun _ same => by cases same)
  cases stale with
  | false => exact past
  | true =>
    rw [if_pos rfl]
    cases value : s.snapshot.value with
    | none => exact past
    | some v => exact ⟨past, value, young rfl⟩

/-- A call that holds the lock ends, with the catalogue as it was. -/
theorem sound_release {outcome : Outcome V} (h : Sound s) (held : holds (s.phase id) = true) (mark : Option (Mark V))
    (moves : Moves s t id (.ended outcome)) (log : t.log = mark.toList ++ s.log) (allowed : Allowed s mark)
    (tells : ∀ value, outcome = .returned value → ∃ obtained, mark = some (.returned value obtained)) : Sound t :=
  h.moves mark moves (h.lock.release moves.phases held rfl) trivial log allowed fun value same =>
    tells value (Phase.ended.inj same)

theorem sound_abandon {obtained : ℚ} {ending : Ending V} {outcome : Outcome V} (h : Sound s)
    (here : s.phase id = some (.closing obtained ending)) (cut : ∀ value, outcome ≠ .returned value) :
    Sound (s.abandon id ending outcome) := by
  have held : holds (s.phase id) = true := by rw [here]; rfl
  cases ending with
  | fetched value =>
    exact sound_release h held (some (.ended s.now none)) ⟨rfl, rfl, rfl, rfl⟩ rfl ⟨rfl, rfl⟩ fun value same => absurd same (cut value)
  | failed kept => exact sound_release h held none ⟨rfl, rfl, rfl, rfl⟩ rfl trivial fun value same => absurd same (cut value)
  | cancelled => exact sound_release h held none ⟨rfl, rfl, rfl, rfl⟩ rfl trivial fun value same => absurd same (cut value)

/-- A new catalogue is kept and returned. -/
theorem sound_fetched {obtained : ℚ} {value : V} (h : Sound s) (here : s.phase id = some (.closing obtained (.fetched value))) :
    Sound (s.finish id obtained (.fetched value)) := by
  have held : holds (s.phase id) = true := by rw [here]; rfl
  have past : obtained ≤ s.now := h.known id _ here
  have phases : (s.finish id obtained (.fetched value)).phase = (s.put id (.ended (.returned value))).phase := rfl
  refine ⟨h.lock.release phases held rfl, rfl, fun other phase there => ?_, ⟨⟨s.now, rfl, ?_⟩, h.fresh⟩, fun at_ v mem => ?_,
    fun other v there => ?_⟩
  · by_cases same : other = id
    · subst same
      rw [put_same phases] at there
      obtain rfl := Option.some.inj there
      trivial
    · -- nobody else holds the lock
      rw [put_other phases same] at there
      refine known_of_idle ?_
      by_contra holding
      rw [← there, Bool.not_eq_false] at holding
      exact same (h.lock.alone other id holding held)
  · unfold OPENROUTER_CATALOG_STALE_S
    linarith
  · rcases List.mem_cons.mp mem with new | mem
    · cases new
    · rcases List.mem_cons.mp mem with new | old
      · cases new
        exact le_rfl
      · exact h.past at_ v old
  · by_cases same : other = id
    · subst same
      rw [put_same phases] at there
      cases there
      exact ⟨obtained, List.mem_cons_self⟩
    · rw [put_other phases same] at there
      obtain ⟨obtained', mem⟩ := h.told other v there
      exact ⟨obtained', List.mem_cons_of_mem _ (List.mem_cons_of_mem _ mem)⟩

theorem sound_finish {obtained : ℚ} {ending : Ending V} (h : Sound s) (here : s.phase id = some (.closing obtained ending)) :
    Sound (s.finish id obtained ending) := by
  have held : holds (s.phase id) = true := by rw [here]; rfl
  cases ending with
  | fetched value => exact sound_fetched h here
  | failed kept =>
    cases kept with
    | none => exact sound_release h held none ⟨rfl, rfl, rfl, rfl⟩ rfl trivial fun value same => by cases same
    | some value =>
      obtain ⟨-, kept, young⟩ : obtained ≤ s.now ∧ s.snapshot.value = some value ∧ _ := h.known id _ here
      exact sound_release h held (some (.returned value obtained)) ⟨rfl, rfl, rfl, rfl⟩ rfl ⟨kept, young⟩
        fun value same => ⟨_, by cases same; rfl⟩
  | cancelled => exact sound_release h held none ⟨rfl, rfl, rfl, rfl⟩ rfl trivial fun value same => by cases same

theorem sound_tick {elapsed : ℚ} (h : Sound s) (forward : 0 ≤ elapsed) : Sound { s with now := s.now + elapsed } := by
  have later : s.now ≤ s.now + elapsed := le_add_of_nonneg_right forward
  exact ⟨⟨h.lock.taken, h.lock.alone⟩, h.shown, fun id phase here => (h.known id phase here).mono later rfl rfl, h.fresh,
    fun at_ value mem => (h.past at_ value mem).trans later, h.told⟩

theorem sound_strike (h : Sound s) (stepped : s.step (.strike id) = some t) : Sound t := by
  simp only [CatalogState.step] at stepped
  split at stepped
  · split at stepped
    · rename_i waits
      obtain rfl := Option.some.inj stepped
      exact h.moves none ⟨rfl, rfl, rfl, rfl⟩ (h.lock.keep rfl rfl fun held => by cases held) trivial rfl trivial
        fun value same => by cases same
    · rename_i obtained stale fetches
      obtain rfl := Option.some.inj stepped
      exact h.moves (some (.ended s.now none)) ⟨rfl, rfl, rfl, rfl⟩ (h.lock.keep rfl rfl fun _ => by rw [fetches]; rfl)
        (h.known id _ fetches).1 rfl ⟨rfl, rfl⟩ fun value same => by cases same
    · cases stepped
    · rename_i obtained ending _ closes
      obtain rfl := Option.some.inj stepped
      exact sound_abandon h closes fun value same => by cases same
    · cases stepped
  · cases stepped

theorem sound_step {act : CatalogAct V} (h : Sound s) (stepped : s.step act = some t) : Sound t := by
  cases act with
  | call id =>
    simp only [CatalogState.step] at stepped
    split at stepped
    · obtain rfl := Option.some.inj stepped
      exact h.moves none ⟨rfl, rfl, rfl, rfl⟩ (h.lock.keep rfl rfl fun held => by cases held) trivial rfl trivial
        fun value same => by cases same
    · cases stepped
  | obtain id =>
    simp only [CatalogState.step] at stepped
    split at stepped
    · split at stepped
      · cases stepped
      · rename_i free
        obtain rfl := Option.some.inj stepped
        exact sound_enter h (by simpa using free)
    · cases stepped
  | fetched id value =>
    simp only [CatalogState.step] at stepped
    split at stepped
    · rename_i obtained stale fetches
      obtain rfl := Option.some.inj stepped
      exact h.moves none ⟨rfl, rfl, rfl, rfl⟩ (h.lock.keep rfl rfl fun _ => by rw [fetches]; rfl) (h.known id _ fetches).1
        rfl trivial fun value same => by cases same
    · cases stepped
  | failed id =>
    simp only [CatalogState.step] at stepped
    split at stepped
    · rename_i obtained stale fetches
      obtain rfl := Option.some.inj stepped
      exact sound_fail h fetches
    · cases stepped
  | strike id => exact sound_strike h stepped
  | closed id returns =>
    simp only [CatalogState.step] at stepped
    split at stepped
    · rename_i obtained ending closes
      obtain rfl := Option.some.inj stepped
      split
      · exact sound_finish h closes
      · exact sound_abandon h closes fun value same => by cases same
    · cases stepped
  | tick elapsed =>
    simp only [CatalogState.step] at stepped
    split at stepped
    · rename_i forward
      obtain rfl := Option.some.inj stepped
      exact sound_tick h forward
    · cases stepped

theorem sound_start (now : ℚ) : Sound (.start now : CatalogState V) where
  lock := ⟨fun _ held => (by cases held), fun _ _ held => (by cases held)⟩
  shown := rfl
  known _ _ here := by cases here
  fresh := trivial
  past _ _ mem := by cases mem
  told _ _ here := by cases here

end Sound

section Quiet

variable {s t : CatalogState V} {id : Nat} {phase : Phase V}

/-- No fetch is struck, and closing the client after one neither raises nor is struck. -/
def spares (s : CatalogState V) : CatalogAct V → Bool
  | .strike id => match s.phase id with
    | some (.fetching _ _) => false
    | some (.closing _ (.fetched _)) => false
    | _ => true
  | .closed id false => match s.phase id with
    | some (.closing _ (.fetched _)) => false
    | _ => true
  | _ => true

/-- The phases of a fetch that may still bring a catalogue. -/
def Pending (obtained : ℚ) : Phase V → Prop
  | .fetching since _ => since = obtained
  | .closing since (.fetched _) => since = obtained
  | _ => False

/-- Every fetch without a catalogue has left its time, or lies back for the retry time. -/
structure Quiet (s : CatalogState V) : Prop where
  stamped : ∀ at_, .ended at_ none ∈ s.log →
    (∃ failedAt, s.snapshot.failedAt = some failedAt ∧ at_ ≤ failedAt) ∨ at_ + OPENROUTER_CATALOG_RETRY_S ≤ s.now
  waited : ∀ id phase obtained, s.phase id = some phase → Pending obtained phase →
    ∀ at_, .ended at_ none ∈ s.log → at_ + OPENROUTER_CATALOG_RETRY_S ≤ obtained
  throttled : Throttled s.log

theorem holds_of_pending {obtained : ℚ} (pending : Pending obtained phase) : holds (some phase) = true := by
  cases phase with
  | fetching since stale => rfl
  | closing since ending => rfl
  | waiting => cases pending
  | ended outcome => cases pending

/-- A move that logs at most what it returns, and begins and ends no fetch. -/
theorem Quiet.keep (h : Quiet s) (returns : List (V × ℚ)) (phases : t.phase = (s.put id phase).phase) (now : t.now = s.now)
    (failedAt : t.snapshot.failedAt = s.snapshot.failedAt)
    (log : t.log = returns.map (fun entry => .returned entry.1 entry.2) ++ s.log)
    (pending : ∀ obtained, Pending obtained phase → ∃ before, s.phase id = some before ∧ Pending obtained before) : Quiet t := by
  have old {at_ : ℚ} (mem : .ended at_ none ∈ t.log) : .ended at_ none ∈ s.log := by
    rw [log] at mem
    rcases List.mem_append.mp mem with new | old
    · obtain ⟨entry, -, same⟩ := List.mem_map.mp new
      cases same
    · exact old
  constructor
  · intro at_ mem
    rw [failedAt, now]
    exact h.stamped at_ (old mem)
  · intro other phase' obtained here waits at_ mem
    by_cases same : other = id
    · subst same
      rw [put_same phases] at here
      obtain rfl := Option.some.inj here
      obtain ⟨before, there, waits⟩ := pending obtained waits
      exact h.waited other before obtained there waits at_ (old mem)
    · rw [put_other phases same] at here
      exact h.waited other phase' obtained here waits at_ (old mem)
  · rw [log]
    refine List.pairwise_append.mpr ⟨?_, h.throttled, ?_⟩
    · refine List.pairwise_map.mpr (List.pairwise_of_forall fun a b start at_ same => ?_)
      cases same
    · intro mark mem earlier _ start at_ same
      obtain ⟨entry, -, rfl⟩ := List.mem_map.mp mem
      cases same

/-- Nothing pends where the holder of the lock does not. -/
theorem no_pending (lock : Locked s) (held : holds (s.phase id) = true) (phases : t.phase = (s.put id phase).phase)
    (own : ∀ obtained, ¬Pending obtained phase) {other : Nat} {phase' : Phase V} {obtained : ℚ}
    (here : t.phase other = some phase') : ¬Pending obtained phase' := by
  intro pending
  by_cases same : other = id
  · subst same
    rw [put_same phases] at here
    obtain rfl := Option.some.inj here
    exact own obtained pending
  · rw [put_other phases same] at here
    exact same (lock.alone other id (by rw [here]; exact holds_of_pending pending) held)

/-- Where no failure is recent, the retry time is over. -/
theorem Quiet.lapsed (h : Quiet s) (calm : s.recentlyFailed = false) {at_ : ℚ} (mem : .ended at_ none ∈ s.log) :
    at_ + OPENROUTER_CATALOG_RETRY_S ≤ s.now := by
  rcases h.stamped at_ mem with ⟨failedAt, stamp, before⟩ | elapsed
  · unfold CatalogState.recentlyFailed at calm
    rw [stamp, Option.any_some, decide_eq_false_iff_not, not_lt] at calm
    linarith
  · exact elapsed

/-- A fetch begins. -/
theorem Quiet.began {stale : Bool} (h : Quiet s) (calm : s.recentlyFailed = false)
    (phases : t.phase = (s.put id (.fetching s.now stale)).phase) (now : t.now = s.now)
    (failedAt : t.snapshot.failedAt = s.snapshot.failedAt) (log : t.log = .began s.now :: s.log) : Quiet t := by
  have old {at_ : ℚ} (mem : .ended at_ none ∈ t.log) : .ended at_ none ∈ s.log := by
    rw [log] at mem
    rcases List.mem_cons.mp mem with new | old
    · cases new
    · exact old
  constructor
  · intro at_ mem
    rw [failedAt, now]
    exact h.stamped at_ (old mem)
  · intro other phase obtained here waits at_ mem
    by_cases same : other = id
    · subst same
      rw [put_same phases] at here
      obtain rfl := Option.some.inj here
      obtain rfl : s.now = obtained := waits
      exact h.lapsed calm (old mem)
    · rw [put_other phases same] at here
      exact h.waited other phase obtained here waits at_ (old mem)
  · rw [log]
    refine List.pairwise_cons.mpr ⟨fun earlier mem start at_ began ended => ?_, h.throttled⟩
    cases began
    subst ended
    exact h.lapsed calm mem

theorem quiet_enter (h : Quiet s) : Quiet (s.enter id) := by
  have keep {t : CatalogState V} {phase : Phase V} (returns : List (V × ℚ)) (idle : holds (some phase) = false)
      (phases : t.phase = (s.put id phase).phase) (now : t.now = s.now) (failedAt : t.snapshot.failedAt = s.snapshot.failedAt)
      (log : t.log = returns.map (fun entry => .returned entry.1 entry.2) ++ s.log) : Quiet t := by
    refine h.keep returns phases now failedAt log fun obtained pending => ?_
    rw [holds_of_pending pending] at idle
    cases idle
  have refused : Quiet (s.put id (.ended .raised)) := keep [] rfl rfl rfl rfl rfl
  unfold CatalogState.enter
  cases s.snapshot.value with
  | none =>
    dsimp only
    split_ifs with failed
    · exact refused
    · exact h.began (by simpa using failed) rfl rfl rfl rfl
  | some value =>
    dsimp only
    split_ifs with young failed stale
    · exact keep [(value, s.now)] rfl rfl rfl rfl rfl
    · exact keep [(value, s.now)] rfl rfl rfl rfl rfl
    · exact refused
    · exact h.began (by simpa using failed) rfl rfl rfl rfl

/-- A failed fetch leaves its time. -/
theorem quiet_fail {obtained : ℚ} {stale : Bool} (h : Quiet s) (sound : Sound s) (here : s.phase id = some (.fetching obtained stale)) :
    Quiet (s.fail id obtained stale) := by
  have held : holds (s.phase id) = true := by rw [here]; rfl
  constructor
  · intro at_ mem
    refine .inl ⟨s.now, rfl, ?_⟩
    rcases List.mem_cons.mp mem with new | old
    · cases new
      exact le_rfl
    · exact sound.past at_ none old
  · intro other phase obtained' there pending
    have own (since : ℚ) : ¬Pending since (Phase.closing obtained (.failed (if stale then s.snapshot.value else none))) := fun pending => pending
    exact absurd pending (no_pending sound.lock held rfl own there)
  · refine List.pairwise_cons.mpr ⟨fun earlier mem start at_ began => ?_, h.throttled⟩
    cases began

theorem quiet_abandon {ending : Ending V} {outcome : Outcome V} (h : Quiet s)
    (spared : ∀ value, ending ≠ .fetched value) : Quiet (s.abandon id ending outcome) := by
  cases ending with
  | fetched value => exact absurd rfl (spared value)
  | failed kept => exact h.keep [] rfl rfl rfl rfl fun obtained pending => by cases pending
  | cancelled => exact h.keep [] rfl rfl rfl rfl fun obtained pending => by cases pending

/-- A new catalogue clears the failure, and every earlier one lies back for the retry time. -/
theorem quiet_finish {obtained : ℚ} {ending : Ending V} (h : Quiet s) (sound : Sound s)
    (here : s.phase id = some (.closing obtained ending)) : Quiet (s.finish id obtained ending) := by
  have held : holds (s.phase id) = true := by rw [here]; rfl
  cases ending with
  | fetched value =>
    have past : obtained ≤ s.now := sound.known id _ here
    constructor
    · intro at_ mem
      right
      have old : .ended at_ none ∈ s.log := by
        rcases List.mem_cons.mp mem with new | mem
        · cases new
        · rcases List.mem_cons.mp mem with new | old
          · cases new
          · exact old
      exact (h.waited id _ obtained here rfl at_ old).trans past
    · intro other phase obtained' there pending
      have own (since : ℚ) : ¬Pending since (Phase.ended (.returned value)) := fun pending => pending
      exact absurd pending (no_pending sound.lock held rfl own there)
    · refine List.pairwise_cons.mpr ⟨fun earlier mem start at_ began => ?_,
        List.pairwise_cons.mpr ⟨fun earlier mem start at_ began => ?_, h.throttled⟩⟩
      · cases began
      · cases began
  | failed kept =>
    cases kept with
    | none => exact h.keep [] rfl rfl rfl rfl fun obtained pending => by cases pending
    | some value => exact h.keep [(value, obtained)] rfl rfl rfl rfl fun obtained pending => by cases pending
  | cancelled => exact h.keep [] rfl rfl rfl rfl fun obtained pending => by cases pending

theorem quiet_step {act : CatalogAct V} (h : Quiet s) (sound : Sound s) (spared : spares s act = true)
    (stepped : s.step act = some t) : Quiet t := by
  cases act with
  | call id =>
    simp only [CatalogState.step] at stepped
    split at stepped
    · obtain rfl := Option.some.inj stepped
      exact h.keep [] rfl rfl rfl rfl fun obtained pending => by cases pending
    · cases stepped
  | obtain id =>
    simp only [CatalogState.step] at stepped
    split at stepped
    · split at stepped
      · cases stepped
      · obtain rfl := Option.some.inj stepped
        exact quiet_enter h
    · cases stepped
  | fetched id value =>
    simp only [CatalogState.step] at stepped
    split at stepped
    · rename_i obtained stale fetches
      obtain rfl := Option.some.inj stepped
      exact h.keep [] rfl rfl rfl rfl fun since pending => ⟨_, fetches, pending⟩
    · cases stepped
  | failed id =>
    simp only [CatalogState.step] at stepped
    split at stepped
    · rename_i obtained stale fetches
      obtain rfl := Option.some.inj stepped
      exact quiet_fail h sound fetches
    · cases stepped
  | strike id =>
    simp only [CatalogState.step] at stepped
    split at stepped
    · split at stepped
      · obtain rfl := Option.some.inj stepped
        exact h.keep [] rfl rfl rfl rfl fun obtained pending => by cases pending
      · rename_i fetches
        rw [spares, fetches] at spared
        cases spared
      · cases stepped
      · rename_i obtained ending _ closes
        obtain rfl := Option.some.inj stepped
        refine quiet_abandon h fun value same => ?_
        subst same
        rw [spares, closes] at spared
        cases spared
      · cases stepped
    · cases stepped
  | closed id returns =>
    simp only [CatalogState.step] at stepped
    split at stepped
    · rename_i obtained ending closes
      obtain rfl := Option.some.inj stepped
      cases returns with
      | true => exact quiet_finish h sound closes
      | false =>
        refine quiet_abandon h fun value same => ?_
        subst same
        rw [spares, closes] at spared
        cases spared
    · cases stepped
  | tick elapsed =>
    simp only [CatalogState.step] at stepped
    split at stepped
    · rename_i forward
      obtain rfl := Option.some.inj stepped
      refine ⟨fun at_ mem => (h.stamped at_ mem).imp_right fun elapsed => elapsed.trans (le_add_of_nonneg_right forward), h.waited,
        h.throttled⟩
    · cases stepped

theorem quiet_start (now : ℚ) : Quiet (.start now : CatalogState V) where
  stamped _ mem := by cases mem
  waited _ _ _ here := by cases here
  throttled := List.Pairwise.nil

end Quiet

section Runs

variable {now : ℚ} {acts : List (CatalogAct V)} {s : CatalogState V}

theorem sound_run (ran : runCatalog now acts = some s) : Sound s :=
  Machine.run_invariant (sound_start now) (fun _ _ _ sound stepped => sound_step sound stepped) ran

/-- In a run in which no fetch is struck and every successful one closes its client, the catalogue
is fetched by one call at a time, no sooner than the retry time after a failure, and only when it
is old; what is returned is the newest one, fresh when the lock was got. -/
theorem catalog_bounded (spared : Machine.Along CatalogState.step (fun s act => spares s act = true) (.start now) acts)
    (ran : runCatalog now acts = some s) : Bounded s := by
  have both : Sound s ∧ Quiet s := by
    refine Machine.run_along (I := fun u => Sound u ∧ Quiet u) ⟨sound_start now, quiet_start now⟩ ?_ spared ran
    intro t act u invariant spared stepped
    exact ⟨sound_step invariant.1 stepped, quiet_step invariant.2 invariant.1 spared stepped⟩
  exact ⟨both.1.lock.alone, both.2.throttled, both.1.fresh, both.1.told⟩

/-- A fetch fails with an exception, and a call a minute later fetches a catalogue. -/
def recoveredActs : List (CatalogAct Nat) :=
  [.call 0, .obtain 0, .tick 15, .failed 0, .closed 0 true, .tick 60, .call 1, .obtain 1, .fetched 1 7, .closed 1 true]

theorem catalog_bounded_recovered : ∃ s, runCatalog 0 recoveredActs = some s ∧
    s.snapshot.value = some 7 ∧ Bounded s := by
  have ends : (runCatalog 0 recoveredActs).map (·.snapshot.value) = some (some 7) := by decide +kernel
  obtain ⟨s, ran, value⟩ := Option.map_eq_some_iff.mp ends
  have spared : Machine.Along CatalogState.step (fun s act => spares s act = true) (.start 0) recoveredActs := by
    decide +kernel
  exact ⟨s, ran, value, catalog_bounded spared ran⟩

/-- The time limit strikes a fetch, and the next call fetches at once. -/
def struckActs : List (CatalogAct Nat) :=
  [.call 0, .obtain 0, .tick 35, .strike 0, .closed 0 true, .call 1, .obtain 1]

theorem struck_refetched : ¬ ∀ (now : ℚ) (acts : List (CatalogAct Nat)) (s : CatalogState Nat),
    runCatalog now acts = some s → Bounded s := by
  intro all
  have ends : (runCatalog 0 struckActs).map (·.log) = some [.began 35, .ended 35 none, .began 0] := by decide +kernel
  obtain ⟨s, ran, log⟩ := Option.map_eq_some_iff.mp ends
  have throttled := (all 0 struckActs s ran).throttled
  rw [log] at throttled
  have late := (List.pairwise_cons.mp throttled).1 (.ended 35 none) List.mem_cons_self 35 35 rfl rfl
  norm_num [OPENROUTER_CATALOG_RETRY_S] at late

end Runs

end Unhardcoded.Guarantees.OpenrouterCatalog

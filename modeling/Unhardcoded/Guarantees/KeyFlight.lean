import Unhardcoded.Source.KeyFlight

/-!
# What the calls of a lookup end with

A lookup in flight has its leader and the followers that await its future, and no call
waits without one (`Flights`). So every end of the leader wakes its followers. They get
the leader's exception, also where it is the leader's own cancellation; a call that was
not cancelled ends with `CancelledError` only behind such an end (`spares`).
-/

namespace Unhardcoded.Guarantees.KeyFlight

open Effects Python Source Source.KeyCache Source.KeyFlight

/-- What single flight promises each call, after these events. -/
structure Isolated (config : Config) (acts : List FlightAct) (s : FlightState) : Prop where
  outcomes : ∀ call digest outcome, s.phase call = some (.ended digest outcome) → call ∉ s.cancelled →
    (∃ result, outcome = .returned result) ∨ ∃ leader e, outcome = .raised e ∧
      .fetched leader (.raised e) ∈ acts ∧ s.phase leader = some (.ended digest (.raised e))
  /-- An entry in flight has a leader that has not ended. -/
  removed : ∀ digest lookup, s.store.inflight digest = some lookup →
    ∃ leader, lookup.calls.head? = some leader ∧ s.phase leader = some (.leading digest)
  /-- Whatever ends the leader wakes its followers. -/
  wakes : ∀ call digest, s.phase call = some (.following digest) →
    ∃ leader, s.phase leader = some (.leading digest) ∧ ∀ fetch, s.possible leader fetch = true →
      ∃ t outcome, s.step config (.fetched leader fetch) = some t ∧ t.phase call = some (.woken digest outcome)
  resumes : ∀ call digest outcome, s.phase call = some (.woken digest outcome) →
    ∃ t outcome', s.step config (.resume call) = some t ∧ t.phase call = some (.ended digest outcome')

/-- A lookup that ends with its leader's cancellation has no follower that was not cancelled. -/
def spares (s : FlightState) : FlightAct → Bool
  | .fetched call .cancelled => match s.phase call with
    | some (.leading digest) => (s.store.inflight digest).all fun lookup => lookup.calls.tail.all (· ∈ s.cancelled)
    | _ => true
  | _ => true

section Effects

variable {config : Config} {s t : FlightState}

theorem inflight_evictIfFull (store : CacheState) : (store.evictIfFull config).inflight = store.inflight := by
  unfold CacheState.evictIfFull
  split <;> rfl

theorem inflight_finish (store : CacheState) (digest : String) (lookup : Lookup) (reply : Reply) :
    (store.finish config digest lookup reply).inflight = (store.setLookup digest none).inflight := by
  unfold CacheState.finish
  dsimp only
  split
  · exact inflight_evictIfFull (store.setLookup digest none)
  · split <;> rfl

/-- What the future is completed with. -/
def outcomeOf (config : Config) (now : ℚ) (lookup : Lookup) : Fetch → Outcome
  | .reply reply => .returned (FlightState.result config now lookup reply)
  | .raised e => .raised e
  | .cancelled => .cancelled

/-- The end of a lookup: its entry goes, its leader ends and its followers wake. -/
theorem fetched_effects (config : Config) (s : FlightState) (digest : String) (lookup : Lookup) (call : Nat) (fetch : Fetch) :
    (s.fetched config digest lookup call fetch).store.inflight = (s.store.setLookup digest none).inflight ∧
    (s.fetched config digest lookup call fetch).cancelled = s.cancelled ∧
    (s.fetched config digest lookup call fetch).phase = fun c =>
      if c = call then some (.ended digest (outcomeOf config s.store.now lookup fetch))
      else if c ∈ lookup.calls.tail then some (.woken digest (outcomeOf config s.store.now lookup fetch))
      else s.phase c := by
  cases fetch with
  | reply reply => exact ⟨inflight_finish _ _ _ _, rfl, rfl⟩
  | raised e => exact ⟨rfl, rfl, rfl⟩
  | cancelled => exact ⟨rfl, rfl, rfl⟩

/-- Where a call stands once `resolve_key` has returned or waits. -/
inductive Entered (s : FlightState) (call : Nat) (digest : String) (t : FlightState) : Prop where
  | answered (result : Option ResolvedKey) (lookups : t.store.inflight = s.store.inflight)
      (phase : t.phase = (s.put call (.ended digest (.returned result))).phase)
  | follows (lookup : Lookup) (pending : s.store.inflight digest = some lookup)
      (lookups : t.store.inflight =
        (s.store.setLookup digest (some { lookup with calls := lookup.calls ++ [call] })).inflight)
      (phase : t.phase = (s.put call (.following digest)).phase)
  | leads (lookup : Lookup) (free : s.store.inflight digest = none) (alone : lookup.calls = [call])
      (lookups : t.store.inflight = (s.store.setLookup digest (some lookup)).inflight)
      (phase : t.phase = (s.put call (.leading digest)).phase)

theorem resolveKey_entered (config : Config) (s : FlightState) (call : Nat) (digest : String) :
    Entered s call digest (s.resolveKey config call digest) := by
  unfold FlightState.resolveKey
  dsimp only
  split
  · rename_i on
    split
    · rename_i entry young
      refine .answered (some entry) ?_ rfl
      simp only [FlightState.put, CacheState.resolveKey, on, if_true, young, CacheState.answer]
    · rename_i stale
      split
      · rename_i lookup pending
        refine .follows lookup pending ?_ rfl
        simp only [FlightState.put, CacheState.resolveKey, on, if_true, stale, pending]
      · rename_i free
        refine .leads ⟨s.store.now, s.store.cache.lookup digest, [call]⟩ free rfl ?_ rfl
        simp only [FlightState.put, CacheState.resolveKey, on, if_true, stale, free]
  · rename_i off
    refine .answered none ?_ rfl
    simp only [FlightState.put, CacheState.resolveKey, off, Bool.false_eq_true, if_false, CacheState.answer]

theorem resolveKey_cancelled (config : Config) (s : FlightState) (call : Nat) (digest : String) :
    (s.resolveKey config call digest).cancelled = s.cancelled := by
  unfold FlightState.resolveKey
  dsimp only
  split
  · split
    · rfl
    · split <;> rfl
  · rfl

end Effects

section Runs

variable {config : Config} {s t : FlightState} {call : Nat} {digest : String}

/-- The calls of the lookup in flight for a digest, the leader first. -/
def callsOf (s : FlightState) (digest : String) : List Nat := (s.store.inflight digest).elim [] Lookup.calls

/-- A lookup in flight is its leader and its followers, and these are the calls that wait. -/
structure Flights (s : FlightState) : Prop where
  leads : ∀ call digest, s.phase call = some (.leading digest) ↔ (callsOf s digest).head? = some call
  follows : ∀ call digest, s.phase call = some (.following digest) ↔ call ∈ (callsOf s digest).tail
  nodup : ∀ digest, (callsOf s digest).tail.Nodup
  led : ∀ digest lookup, s.store.inflight digest = some lookup → lookup.calls ≠ []

/-- A phase in which a call waits for no lookup. -/
def idle : Option Phase → Bool
  | some (.leading _) => false
  | some (.following _) => false
  | _ => true

theorem callsOf_congr (lookups : t.store.inflight = s.store.inflight) (digest : String) :
    callsOf t digest = callsOf s digest := by
  rw [callsOf, callsOf, lookups]

theorem callsOf_setLookup {lookup? : Option Lookup} (lookups : t.store.inflight = (s.store.setLookup digest lookup?).inflight)
    (d : String) : callsOf t d = if d = digest then lookup?.elim [] Lookup.calls else callsOf s d := by
  rw [callsOf, lookups]
  by_cases same : d = digest
  · simp [CacheState.setLookup, same]
  · simp [CacheState.setLookup, same, callsOf]

theorem flights_empty (now : ℚ) : Flights (.empty now) where
  leads _ _ := by simp [FlightState.empty, CacheState.empty, callsOf]
  follows _ _ := by simp [FlightState.empty, CacheState.empty, callsOf]
  nodup _ := by simp [FlightState.empty, CacheState.empty, callsOf]
  led _ _ here := by cases here

/-- A call that waits for no lookup moves on to another such phase. -/
theorem Flights.settled (h : Flights s) {phase : Phase} (before : idle (s.phase call) = true) (after : idle phase = true)
    (lookups : t.store.inflight = s.store.inflight) (phases : t.phase = (s.put call phase).phase) : Flights t := by
  have waiting {p : Phase} (waits : idle (some p) = false) (c : Nat) : t.phase c = some p ↔ s.phase c = some p := by
    rw [phases, FlightState.put]
    by_cases same : c = call
    · subst same
      simp only [if_true, Option.some.injEq]
      constructor
      · rintro rfl
        rw [after] at waits
        cases waits
      · intro here
        rw [here, waits] at before
        cases before
    · simp only [same, if_false]
  refine ⟨fun c d => ?_, fun c d => ?_, fun d => ?_, fun d lookup here => ?_⟩
  · rw [waiting rfl, callsOf_congr lookups]
    exact h.leads c d
  · rw [waiting rfl, callsOf_congr lookups]
    exact h.follows c d
  · rw [callsOf_congr lookups]
    exact h.nodup d
  · rw [lookups] at here
    exact h.led d lookup here

theorem Flights.fresh (h : Flights s) (new : s.phase call = none) (d : String) : call ∉ callsOf s d := by
  intro mem
  cases calls : callsOf s d with
  | nil =>
    rw [calls] at mem
    cases mem
  | cons leader followers =>
    rw [calls] at mem
    rcases List.mem_cons.mp mem with rfl | follows
    · have leads := (h.leads call d).mpr (by rw [calls]; rfl)
      rw [new] at leads
      cases leads
    · have waits := (h.follows call d).mpr (by rw [calls]; exact follows)
      rw [new] at waits
      cases waits

/-- A new call follows a lookup, or leads one. -/
theorem Flights.join (h : Flights s) (new : s.phase call = none) {lookup : Lookup}
    (calls : lookup.calls = callsOf s digest ++ [call])
    (lookups : t.store.inflight = (s.store.setLookup digest (some lookup)).inflight)
    (phases : t.phase = (s.put call (if callsOf s digest = [] then .leading digest else .following digest)).phase) :
    Flights t := by
  have calls' (d : String) : callsOf t d = if d = digest then callsOf s digest ++ [call] else callsOf s d := by
    rw [callsOf_setLookup lookups, Option.elim_some, calls]
  have head (c : Nat) (d : String) : (callsOf t d).head? = some c ↔
      c = call ∧ d = digest ∧ callsOf s digest = [] ∨ c ≠ call ∧ (callsOf s d).head? = some c := by
    have fresh := h.fresh new d
    rw [calls']
    by_cases here : d = digest
    · subst here
      cases old : callsOf s d with
      | nil => simp [eq_comm]
      | cons leader followers =>
        rw [old] at fresh
        have other : call ≠ leader := fun same => fresh (same ▸ List.mem_cons_self)
        simp only [if_true, List.cons_append, List.head?_cons, Option.some.injEq]
        constructor
        · rintro rfl
          exact .inr ⟨other.symm, rfl⟩
        · rintro (⟨-, -, none⟩ | ⟨-, same⟩)
          · cases none
          · exact same
    · simp only [here, if_false, false_and, and_false, false_or]
      constructor
      · intro first
        refine ⟨?_, first⟩
        rintro rfl
        exact fresh (List.mem_of_head? first)
      · exact fun both => both.2
  have tail (c : Nat) (d : String) : c ∈ (callsOf t d).tail ↔
      c = call ∧ d = digest ∧ callsOf s digest ≠ [] ∨ c ≠ call ∧ c ∈ (callsOf s d).tail := by
    have fresh := h.fresh new d
    rw [calls']
    by_cases here : d = digest
    · subst here
      cases old : callsOf s d with
      | nil => simp
      | cons leader followers =>
        rw [old] at fresh
        simp only [if_true, List.cons_append, List.tail_cons, List.mem_append, List.mem_singleton]
        constructor
        · rintro (mem | rfl)
          · exact .inr ⟨fun same => fresh (same ▸ List.mem_cons_of_mem _ mem), mem⟩
          · exact .inl (by simp)
        · rintro (⟨rfl, -, -⟩ | ⟨-, mem⟩)
          · exact .inr rfl
          · exact .inl mem
    · simp only [here, if_false, false_and, and_false, false_or]
      constructor
      · intro mem
        refine ⟨?_, mem⟩
        rintro rfl
        exact fresh (List.mem_of_mem_tail mem)
      · exact fun both => both.2
  refine ⟨fun c d => ?_, fun c d => ?_, fun d => ?_, fun d other here => ?_⟩
  · rw [head, ← h.leads, phases, FlightState.put]
    by_cases same : c = call
    · subst same
      by_cases first : callsOf s digest = []
      · simp [first, eq_comm]
      · simp [first]
    · simp [same]
  · rw [tail, ← h.follows, phases, FlightState.put]
    by_cases same : c = call
    · subst same
      by_cases first : callsOf s digest = []
      · simp [first]
      · simp [first, eq_comm]
    · simp [same]
  · rw [calls']
    split
    · have fresh := h.fresh new digest
      have distinct := h.nodup digest
      cases old : callsOf s digest with
      | nil => simp
      | cons leader followers =>
        rw [old] at fresh distinct
        rw [List.cons_append, List.tail_cons, ← List.concat_eq_append, List.nodup_concat]
        exact ⟨fun mem => fresh (List.mem_cons_of_mem _ mem), distinct⟩
    · exact h.nodup d
  · have last : callsOf t d = other.calls := by rw [callsOf, here, Option.elim_some]
    rw [← last, calls']
    split
    · simp
    · rename_i elsewhere
      have same : s.store.inflight d = some other := by
        rw [lookups] at here
        simpa [CacheState.setLookup, elsewhere] using here
      rw [callsOf, same, Option.elim_some]
      exact h.led d other same

/-- The lookup of a digest ends. -/
theorem Flights.fetch (h : Flights s) (leads : s.phase call = some (.leading digest)) {outcome : Outcome}
    (lookups : t.store.inflight = (s.store.setLookup digest none).inflight)
    (phases : t.phase = fun c =>
      if c = call then some (.ended digest outcome)
      else if c ∈ (callsOf s digest).tail then some (.woken digest outcome)
      else s.phase c) : Flights t := by
  have calls (d : String) : callsOf t d = if d = digest then [] else callsOf s d := callsOf_setLookup lookups d
  refine ⟨fun c d => ?_, fun c d => ?_, fun d => ?_, fun d other here => ?_⟩
  · rw [calls, phases]
    by_cases same : d = digest
    · subst same
      have first := (h.leads call d).mp leads
      simp only [if_true, List.head?_nil, reduceCtorEq, iff_false]
      split
      · simp
      · rename_i other
        split
        · simp
        · intro leads'
          have first' := (h.leads c d).mp leads'
          rw [first] at first'
          exact other (Option.some.inj first').symm
    · rw [if_neg same, ← h.leads]
      dsimp only
      split
      · rename_i here
        rw [here, leads]
        simp [Ne.symm same]
      · split
        · rename_i mem
          rw [(h.follows c digest).mpr mem]
          simp
        · rfl
  · rw [calls, phases]
    by_cases same : d = digest
    · subst same
      simp only [if_true, List.tail_nil, List.not_mem_nil, iff_false]
      split
      · simp
      · split
        · simp
        · rename_i absent
          exact fun follows => absent ((h.follows c d).mp follows)
    · rw [if_neg same, ← h.follows]
      dsimp only
      split
      · rename_i here
        rw [here, leads]
        simp
      · split
        · rename_i mem
          rw [(h.follows c digest).mpr mem]
          simp [Ne.symm same]
        · rfl
  · rw [calls]
    split
    · exact List.nodup_nil
    · exact h.nodup d
  · rw [lookups] at here
    by_cases same : d = digest
    · simp [CacheState.setLookup, same] at here
    · simp only [CacheState.setLookup, same, if_false] at here
      exact h.led d other here

/-- A cancelled follower leaves its lookup. -/
theorem Flights.leave (h : Flights s) (follows : s.phase call = some (.following digest)) {lookup : Lookup} {outcome : Outcome}
    (here : s.store.inflight digest = some lookup)
    (lookups : t.store.inflight =
      (s.store.setLookup digest (some { lookup with calls := lookup.calls.erase call })).inflight)
    (phases : t.phase = (s.put call (.ended digest outcome)).phase) : Flights t := by
  have old : callsOf s digest = lookup.calls := by rw [callsOf, here, Option.elim_some]
  obtain ⟨leader, followers, listed⟩ := List.exists_cons_of_ne_nil (h.led digest lookup here)
  have leads : s.phase leader = some (.leading digest) := (h.leads leader digest).mpr (by rw [old, listed]; rfl)
  have other : leader ≠ call := by
    rintro rfl
    rw [follows] at leads
    cases leads
  have left : lookup.calls.erase call = leader :: followers.erase call := by
    rw [listed, List.erase_cons_tail (by simpa using other)]
  have distinct : followers.Nodup := by
    have := h.nodup digest
    rwa [old, listed] at this
  have calls (d : String) : callsOf t d = if d = digest then leader :: followers.erase call else callsOf s d := by
    rw [callsOf_setLookup lookups, Option.elim_some, left]
  refine ⟨fun c d => ?_, fun c d => ?_, fun d => ?_, fun d other here => ?_⟩
  · have head : (callsOf t d).head? = (callsOf s d).head? := by
      rw [calls]
      split
      · rename_i same
        rw [same, old, listed]
        rfl
      · rfl
    rw [head, ← h.leads, phases, FlightState.put]
    by_cases same : c = call
    · simp [same, follows]
    · simp [same]
  · have tail : c ∈ (callsOf t d).tail ↔ c ≠ call ∧ c ∈ (callsOf s d).tail := by
      rw [calls]
      split
      · rename_i same
        rw [same, old, listed, List.tail_cons, List.tail_cons]
        exact distinct.mem_erase_iff
      · rename_i elsewhere
        refine ⟨fun mem => ⟨?_, mem⟩, fun both => both.2⟩
        rintro rfl
        have waits := (h.follows c d).mpr mem
        rw [follows] at waits
        exact elsewhere (by simpa using waits.symm)
    rw [tail, ← h.follows, phases, FlightState.put]
    by_cases same : c = call
    · simp [same]
    · simp [same]
  · rw [calls]
    split
    · exact distinct.erase call
    · exact h.nodup d
  · have last : callsOf t d = other.calls := by rw [callsOf, here, Option.elim_some]
    rw [← last, calls]
    split
    · exact List.cons_ne_nil _ _
    · rename_i elsewhere
      rw [lookups] at here
      simp only [CacheState.setLookup, elsewhere, if_false] at here
      rw [callsOf, here, Option.elim_some]
      exact h.led d other here

/-- Nothing moves a call that has ended. -/
def Keeps (s t : FlightState) : Prop :=
  ∀ call digest outcome, s.phase call = some (.ended digest outcome) → t.phase call = some (.ended digest outcome)

theorem keeps_put {phase : Phase} (open_ : ∀ digest outcome, s.phase call ≠ some (.ended digest outcome))
    (phases : t.phase = (s.put call phase).phase) : Keeps s t := by
  intro c d outcome ended
  rw [phases, FlightState.put]
  dsimp only
  rw [if_neg, ended]
  rintro rfl
  exact open_ d outcome ended

/-- An outcome that is no cancellation: a result, or what the request of a lookup raised. -/
def Fair (acts : List FlightAct) (s : FlightState) (digest : String) (outcome : Outcome) : Prop :=
  (∃ result, outcome = .returned result) ∨ ∃ leader e, outcome = .raised e ∧
    .fetched leader (.raised e) ∈ acts ∧ s.phase leader = some (.ended digest (.raised e))

theorem Fair.step {acts : List FlightAct} {outcome : Outcome} (h : Fair acts s digest outcome) (act : FlightAct)
    (keeps : Keeps s t) : Fair (acts ++ [act]) t digest outcome := by
  rcases h with returned | ⟨leader, e, same, mem, ended⟩
  · exact .inl returned
  · exact .inr ⟨leader, e, same, List.mem_append_left _ mem, keeps leader digest (.raised e) ended⟩

theorem fair_outcomeOf {acts : List FlightAct} {leader : Nat} {fetch : Fetch} {now : ℚ} {lookup : Lookup}
    (mem : .fetched leader fetch ∈ acts)
    (ended : s.phase leader = some (.ended digest (outcomeOf config now lookup fetch)))
    (other : outcomeOf config now lookup fetch ≠ .cancelled) : Fair acts s digest (outcomeOf config now lookup fetch) := by
  cases fetch with
  | reply reply => exact .inl ⟨_, rfl⟩
  | raised e => exact .inr ⟨leader, e, rfl, mem, ended⟩
  | cancelled => exact absurd rfl other

structure Sound (acts : List FlightAct) (s : FlightState) : Prop where
  flights : Flights s
  woken : ∀ call digest outcome, s.phase call = some (.woken digest outcome) → call ∉ s.cancelled →
    Fair acts s digest outcome
  ended : ∀ call digest outcome, s.phase call = some (.ended digest outcome) → call ∉ s.cancelled →
    Fair acts s digest outcome

/-- The other calls stay as they are when one changes its phase. -/
theorem Sound.put {acts : List FlightAct} {act : FlightAct} (h : Sound acts s) {phase : Phase} (flights : Flights t)
    (open_ : ∀ digest outcome, s.phase call ≠ some (.ended digest outcome))
    (phases : t.phase = (s.put call phase).phase) (cancelled : t.cancelled = s.cancelled)
    (fair : ∀ digest outcome, phase = .woken digest outcome ∨ phase = .ended digest outcome → call ∉ s.cancelled →
      Keeps s t → Fair (acts ++ [act]) t digest outcome) : Sound (acts ++ [act]) t := by
  have keeps : Keeps s t := keeps_put open_ phases
  have here (c : Nat) : t.phase c = if c = call then some phase else s.phase c := by rw [phases, FlightState.put]
  refine ⟨flights, fun c d outcome at_c free => ?_, fun c d outcome at_c free => ?_⟩
  · rw [here] at at_c
    rw [cancelled] at free
    split at at_c
    · rename_i same
      exact fair d outcome (.inl (Option.some.inj at_c)) (same ▸ free) keeps
    · exact (h.woken c d outcome at_c free).step act keeps
  · rw [here] at at_c
    rw [cancelled] at free
    split at at_c
    · rename_i same
      exact fair d outcome (.inr (Option.some.inj at_c)) (same ▸ free) keeps
    · exact (h.ended c d outcome at_c free).step act keeps

theorem sound_resolveKey {acts : List FlightAct} (h : Sound acts s) (new : s.phase call = none) (digest : String) :
    Sound (acts ++ [.resolveKey call digest]) (s.resolveKey config call digest) := by
  have cancelled := resolveKey_cancelled config s call digest
  have open_ : ∀ digest outcome, s.phase call ≠ some (.ended digest outcome) := by simp [new]
  cases resolveKey_entered config s call digest with
  | answered result lookups phase =>
    refine h.put (h.flights.settled (by rw [new]; rfl) rfl lookups phase) open_ phase cancelled ?_
    rintro d outcome (same | same) _ _
    · cases same
    · cases same
      exact .inl ⟨result, rfl⟩
  | follows lookup pending lookups phase =>
    have old : callsOf s digest = lookup.calls := by rw [callsOf, pending, Option.elim_some]
    have some_ : callsOf s digest ≠ [] := old ▸ h.flights.led digest lookup pending
    refine h.put (h.flights.join new (by rw [old]) lookups (by rw [phase, if_neg some_])) open_ phase cancelled ?_
    rintro d outcome (same | same) _ _ <;> cases same
  | leads lookup free alone lookups phase =>
    have none_ : callsOf s digest = [] := by rw [callsOf, free, Option.elim_none]
    refine h.put (h.flights.join new (by rw [none_, alone]; rfl) lookups (by rw [phase, if_pos none_])) open_ phase
      cancelled ?_
    rintro d outcome (same | same) _ _ <;> cases same

theorem keeps_fetched (h : Flights s) (leads : s.phase call = some (.leading digest)) {lookup : Lookup}
    (here : s.store.inflight digest = some lookup) (fetch : Fetch) :
    Keeps s (s.fetched config digest lookup call fetch) := by
  intro c d outcome ended
  obtain ⟨-, -, phases⟩ := fetched_effects config s digest lookup call fetch
  rw [phases]
  dsimp only
  rw [if_neg, if_neg, ended]
  · intro mem
    have waits := (h.follows c digest).mpr (by rw [callsOf, here, Option.elim_some]; exact mem)
    rw [ended] at waits
    cases waits
  · rintro rfl
    rw [ended] at leads
    cases leads

/-- A lookup that spares its followers ends with a cancellation for cancelled calls only. -/
theorem not_cancelled_of_spares {lookup : Lookup} {fetch : Fetch} {now : ℚ} {c : Nat}
    (leads : s.phase call = some (.leading digest)) (here : s.store.inflight digest = some lookup)
    (possible : s.possible call fetch = true) (spared : spares s (.fetched call fetch) = true)
    (waits : c = call ∨ c ∈ lookup.calls.tail) (free : c ∉ s.cancelled) :
    outcomeOf config now lookup fetch ≠ .cancelled := by
  intro gone
  cases fetch with
  | reply reply => cases gone
  | raised e => cases gone
  | cancelled =>
    rcases waits with rfl | mem
    · have asked : c ∈ s.cancelled := by simpa [FlightState.possible] using possible
      exact free asked
    · have all : ∀ c ∈ lookup.calls.tail, c ∈ s.cancelled := by simpa [spares, leads, here] using spared
      exact free (all c mem)

theorem sound_fetched {acts : List FlightAct} (h : Sound acts s) (leads : s.phase call = some (.leading digest))
    {lookup : Lookup} (here : s.store.inflight digest = some lookup) {fetch : Fetch}
    (possible : s.possible call fetch = true) (spared : spares s (.fetched call fetch) = true) :
    Sound (acts ++ [.fetched call fetch]) (s.fetched config digest lookup call fetch) := by
  obtain ⟨lookups, cancelled, phases⟩ := fetched_effects config s digest lookup call fetch
  have old : callsOf s digest = lookup.calls := by rw [callsOf, here, Option.elim_some]
  have keeps : Keeps s (s.fetched config digest lookup call fetch) := keeps_fetched h.flights leads here fetch
  have last : .fetched call fetch ∈ acts ++ [.fetched call fetch] := List.mem_append_right _ List.mem_cons_self
  have ended : (s.fetched config digest lookup call fetch).phase call =
      some (.ended digest (outcomeOf config s.store.now lookup fetch)) := by
    rw [phases]
    exact if_pos rfl
  refine ⟨h.flights.fetch leads lookups (by rw [phases, old]), fun c d outcome at_c free => ?_,
    fun c d outcome at_c free => ?_⟩
  · rw [phases] at at_c
    rw [cancelled] at free
    dsimp only at at_c
    split at at_c
    · cases at_c
    · split at at_c
      · rename_i follows
        cases at_c
        exact fair_outcomeOf last ended (not_cancelled_of_spares leads here possible spared (.inr follows) free)
      · exact (h.woken c d outcome at_c free).step _ keeps
  · rw [phases] at at_c
    rw [cancelled] at free
    dsimp only at at_c
    split at at_c
    · rename_i same
      cases at_c
      exact fair_outcomeOf last ended (not_cancelled_of_spares leads here possible spared (.inl same) free)
    · split at at_c
      · cases at_c
      · exact (h.ended c d outcome at_c free).step _ keeps

theorem sound_resume {acts : List FlightAct} (h : Sound acts s) (stepped : s.step config (.resume call) = some t) :
    Sound (acts ++ [.resume call]) t := by
  simp only [FlightState.step] at stepped
  split at stepped
  · rename_i digest follows
    split at stepped
    · rename_i lookup here
      split at stepped
      · rename_i asked
        cases stepped
        refine h.put (h.flights.leave follows here rfl rfl) (by simp [follows]) rfl rfl ?_
        intro d outcome _ free
        exact absurd asked free
      · cases stepped
    · cases stepped
  · rename_i digest outcome woken
    cases stepped
    refine h.put (h.flights.settled (by rw [woken]; rfl) rfl rfl rfl) (by simp [woken]) rfl rfl ?_
    rintro d outcome' (same | same) free keeps
    · cases same
    · rw [if_neg free] at same
      cases same
      exact (h.woken call digest outcome woken free).step _ keeps
  · cases stepped

theorem sound_step {acts : List FlightAct} {act : FlightAct} (h : Sound acts s) (spared : spares s act = true)
    (stepped : s.step config act = some t) : Sound (acts ++ [act]) t := by
  cases act with
  | resolveKey call digest =>
    simp only [FlightState.step] at stepped
    split at stepped
    · rename_i new
      cases stepped
      exact sound_resolveKey h new digest
    · cases stepped
  | cancel call =>
    have more : t = { s with cancelled := call :: s.cancelled } := by
      simp only [FlightState.step] at stepped
      split at stepped
      · cases stepped
      · cases stepped
      · exact (Option.some.inj stepped).symm
    subst more
    have keeps : Keeps s { s with cancelled := call :: s.cancelled } := fun _ _ _ ended => ended
    refine ⟨⟨h.flights.leads, h.flights.follows, h.flights.nodup, h.flights.led⟩, fun c d outcome at_c free => ?_,
      fun c d outcome at_c free => ?_⟩
    · exact (h.woken c d outcome at_c fun mem => free (List.mem_cons_of_mem _ mem)).step _ keeps
    · exact (h.ended c d outcome at_c fun mem => free (List.mem_cons_of_mem _ mem)).step _ keeps
  | fetched call fetch =>
    simp only [FlightState.step] at stepped
    split at stepped
    · rename_i digest leads
      split at stepped
      · rename_i lookup here
        split at stepped
        · rename_i possible
          cases stepped
          exact sound_fetched h leads here possible spared
        · cases stepped
      · cases stepped
    · cases stepped
  | resume call => exact sound_resume h stepped
  | tick elapsed =>
    simp only [FlightState.step] at stepped
    split at stepped
    · cases stepped
      exact ⟨⟨h.flights.leads, h.flights.follows, h.flights.nodup, h.flights.led⟩,
        fun c d outcome at_c free => (h.woken c d outcome at_c free).step _ fun _ _ _ ended => ended,
        fun c d outcome at_c free => (h.ended c d outcome at_c free).step _ fun _ _ _ ended => ended⟩
    · cases stepped

theorem sound_empty (now : ℚ) : Sound [] (.empty now) where
  flights := flights_empty now
  woken _ _ _ here := by cases here
  ended _ _ _ here := by cases here

theorem Flights.leader (h : Flights s) {lookup : Lookup} (here : s.store.inflight digest = some lookup) :
    ∃ leader, lookup.calls.head? = some leader ∧ s.phase leader = some (.leading digest) := by
  have old : callsOf s digest = lookup.calls := by rw [callsOf, here, Option.elim_some]
  obtain ⟨leader, followers, listed⟩ := List.exists_cons_of_ne_nil (h.led digest lookup here)
  have first : lookup.calls.head? = some leader := by rw [listed, List.head?_cons]
  exact ⟨leader, first, (h.leads leader digest).mpr (by rw [old, first])⟩

theorem Flights.wakes (h : Flights s) (follows : s.phase call = some (.following digest)) :
    ∃ leader, s.phase leader = some (.leading digest) ∧ ∀ fetch, s.possible leader fetch = true →
      ∃ t outcome, s.step config (.fetched leader fetch) = some t ∧ t.phase call = some (.woken digest outcome) := by
  have mem := (h.follows call digest).mp follows
  cases here : s.store.inflight digest with
  | none =>
    rw [callsOf, here] at mem
    cases mem
  | some lookup =>
    rw [callsOf, here, Option.elim_some] at mem
    obtain ⟨leader, -, leads⟩ := h.leader here
    have other : call ≠ leader := by
      rintro rfl
      rw [follows] at leads
      cases leads
    refine ⟨leader, leads, fun fetch possible => ?_⟩
    obtain ⟨-, -, phases⟩ := fetched_effects config s digest lookup leader fetch
    refine ⟨s.fetched config digest lookup leader fetch, outcomeOf config s.store.now lookup fetch, ?_, ?_⟩
    · simp only [FlightState.step, leads, here, possible, if_true]
    · rw [phases]
      dsimp only
      rw [if_neg other, if_pos mem]

/-- In a run in which no lookup ends with its leader's cancellation while a call that was not cancelled
follows it, every call that was not cancelled returns or raises what a request raised. Entries in flight
are removed, and no follower is left waiting. -/
theorem single_flight_isolated {now : ℚ} {acts : List FlightAct} {s : FlightState}
    (spared : Machine.Along (FlightState.step config) (fun s act => spares s act = true) (.empty now) acts)
    (ran : runFlight config now acts = some s) : Isolated config acts s := by
  have sound : Sound acts s :=
    Machine.run_history_along (sound_empty now) (fun _ _ _ _ before spared => sound_step before spared) spared ran
  refine ⟨sound.ended, fun digest lookup here => sound.flights.leader here, fun call digest => sound.flights.wakes, ?_⟩
  intro call digest outcome woken
  refine ⟨s.put call (.ended digest (if call ∈ s.cancelled then .cancelled else outcome)),
    if call ∈ s.cancelled then .cancelled else outcome, ?_, if_pos rfl⟩
  simp only [FlightState.step, woken]

def flightConfig : Config := ⟨true, 60, 15, 300, fun _ => "", fun _ => none⟩

/-- Two calls share a lookup; the follower is cancelled, then the control plane is unreachable. -/
def sharedActs : List FlightAct :=
  [.resolveKey 0 "d", .resolveKey 1 "d", .resolveKey 2 "d", .cancel 1, .resume 1, .fetched 0 (.reply .transportError), .resume 2]

theorem single_flight_isolated_shared : ∃ s, runFlight flightConfig 0 sharedActs = some s ∧
    s.phase 2 = some (.ended "d" (.returned none)) ∧ Isolated flightConfig sharedActs s := by
  have ends : (runFlight flightConfig 0 sharedActs).map (·.phase 2) = some (some (.ended "d" (.returned none))) := by
    decide +kernel
  obtain ⟨s, ran, phase⟩ := Option.map_eq_some_iff.mp ends
  have spared : Machine.Along (FlightState.step flightConfig) (fun s act => spares s act = true) (.empty 0) sharedActs := by
    decide +kernel
  exact ⟨s, ran, phase, single_flight_isolated spared ran⟩

/-- The leader is cancelled, and so is the call that follows it. -/
def abandonedActs : List FlightAct :=
  [.resolveKey 0 "d", .resolveKey 1 "d", .cancel 0, .fetched 0 .cancelled, .resume 1]

/-- The follower, which nobody cancelled, ends with `CancelledError`. -/
theorem follower_cancelled : ¬ ∀ (config : Config) (now : ℚ) (acts : List FlightAct) (s : FlightState),
    runFlight config now acts = some s → Isolated config acts s := by
  intro h
  have ends : (runFlight flightConfig 0 abandonedActs).map (fun s => (s.phase 1, s.cancelled)) =
      some (some (.ended "d" .cancelled), [0]) := by
    decide +kernel
  obtain ⟨s, ran, seen⟩ := Option.map_eq_some_iff.mp ends
  obtain ⟨phase, cancelled⟩ := Prod.mk.inj seen
  have free : 1 ∉ s.cancelled := by
    rw [cancelled]
    decide
  rcases (h flightConfig 0 abandonedActs s ran).outcomes 1 "d" .cancelled phase free with ⟨result, same⟩ | ⟨leader, e, same, -⟩
  · cases same
  · cases same

end Runs

end Unhardcoded.Guarantees.KeyFlight

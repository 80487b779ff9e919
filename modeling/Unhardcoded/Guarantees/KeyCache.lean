import Mathlib.Tactic.Linarith
import Unhardcoded.Source.KeyCache

/-!
# What the key cache answers

Cache entries and the entries that lookups fall back to are always the last
definitive answer for their digest (`Sound`): only a lookup of the digest writes one,
and there is one at a time. So a call that answers active has an active last answer
behind it. How old that may be is checked against the time the lookup began; the
bound of time to live and grace holds, for the calls of a failed lookup, exactly as
long as the lookup ends within it (`inGrace`).
-/

namespace Unhardcoded.Guarantees.KeyCache
open Effects Python Source Source.KeyCache

def definitiveOf (digest : String) : Event → Option ResolvedKey
  | .definitive d entry => if d = digest then some entry else none
  | .answered _ => none

/-- The last definitive answer for a digest. -/
def lastDefinitive (events : List Event) (digest : String) : Option ResolvedKey :=
  (events.filterMap (definitiveOf digest)).getLast?

/-- What a call may answer, given the last definitive answer for its digest. -/
structure Allowed (config : Config) (last : Option ResolvedKey) (a : Answered) : Prop where
  active : ∀ entry, a.result = some entry → entry.active = true →
    ∃ answer, last = some answer ∧ answer.active = true ∧
      (a.time - answer.fetchedAt ≤ config.resolveTtlS ∨
        a.unreachable = true ∧ a.time - answer.fetchedAt ≤ config.resolveTtlS + config.resolveStaleGraceS)
  inactive : ∀ entry, a.result = some entry → entry.active = false →
    a.time - entry.fetchedAt ≤ config.negativeTtlS

/-- Every call so far answered what it may. -/
def Kept (config : Config) (events : List Event) : Prop :=
  ∀ before a after, events = before ++ .answered a :: after → Allowed config (lastDefinitive before a.digest) a

section Events

variable {config : Config} {events : List Event}

theorem lastDefinitive_append (events more : List Event) (digest : String) :
    lastDefinitive (events ++ more) digest = (lastDefinitive more digest).or (lastDefinitive events digest) := by
  simp [lastDefinitive, List.filterMap_append, List.getLast?_append]

theorem lastDefinitive_concat (events : List Event) (digest d : String) (entry : ResolvedKey) :
    lastDefinitive (events ++ [.definitive d entry]) digest =
      if d = digest then some entry else lastDefinitive events digest := by
  rw [lastDefinitive_append]
  by_cases same : d = digest
  · simp [lastDefinitive, definitiveOf, same]
  · simp [lastDefinitive, definitiveOf, same]

theorem lastDefinitive_answers (answers : List Answered) (digest : String) :
    lastDefinitive (answers.map .answered) digest = none := by
  simp [lastDefinitive, List.filterMap_map, Function.comp_def, definitiveOf]

theorem kept_nil : Kept config [] := by
  intro before a after split_at
  simp at split_at

theorem Kept.concat {event : Event} (h : Kept config events)
    (new : ∀ a, event = .answered a → Allowed config (lastDefinitive events a.digest) a) :
    Kept config (events ++ [event]) := by
  intro before a after split_at
  rcases List.eq_nil_or_concat after with rfl | ⟨rest, last, rfl⟩
  · obtain ⟨rfl, here⟩ := List.append_inj' split_at rfl
    exact new a (List.singleton_inj.mp here)
  · rw [List.concat_eq_append, ← List.cons_append, ← List.append_assoc] at split_at
    exact h before a rest (List.append_inj' split_at rfl).1

/-- Answers add nothing to the definitive ones, so each is judged by those before them all. -/
theorem Kept.answers {answers : List Answered} (h : Kept config events)
    (allowed : ∀ a ∈ answers, Allowed config (lastDefinitive events a.digest) a) :
    Kept config (events ++ answers.map .answered) := by
  induction answers using List.reverseRecOn with
  | nil => simpa using h
  | append_singleton front a ih =>
    have earlier := ih fun a mem => allowed a (List.mem_append_left _ mem)
    rw [List.map_append, ← List.append_assoc]
    refine earlier.concat ?_
    rintro _ ⟨⟩
    rw [lastDefinitive_append, lastDefinitive_answers, Option.none_or]
    exact allowed a (List.mem_append_right _ (List.mem_singleton_self a))

end Events

section Runs

variable {config : Config}

/-- Whatever is cached, or held by a lookup, is the last definitive answer for its digest. -/
structure Sound (config : Config) (s : CacheState) : Prop where
  cached : ∀ entry ∈ s.cache, lastDefinitive s.events entry.1 = some entry.2
  pending : ∀ digest lookup, s.inflight digest = some lookup →
    ∀ entry, lookup.cached = some entry → lastDefinitive s.events digest = some entry
  kept : Kept config s.events

/-- A failed lookup that falls back to a stale entry ends while the entry is within the grace. -/
def inGrace (config : Config) (s : CacheState) : CacheAct → Bool
  | .reply digest reply =>
    match s.inflight digest with
    | none => true
    | some lookup =>
      (fetchResolve config s.now reply).isSome ||
        (CacheState.staleGrace config lookup).all fun entry =>
          s.now - entry.fetchedAt ≤ config.resolveTtlS + config.resolveStaleGraceS
  | _ => true

theorem sound_empty (now : ℚ) : Sound config (.empty now) where
  cached _ mem := by cases mem
  pending _ _ here := by cases here
  kept := kept_nil

theorem sound_answer {s : CacheState} (h : Sound config s) {digest : String} {calls : List Nat}
    {result : Option ResolvedKey} {unreachable : Bool}
    (allowed : ∀ call, Allowed config (lastDefinitive s.events digest) ⟨call, digest, result, unreachable, s.now⟩) :
    Sound config (s.answer digest calls result unreachable) := by
  have events : (s.answer digest calls result unreachable).events =
      s.events ++ (calls.map fun call => (⟨call, digest, result, unreachable, s.now⟩ : Answered)).map .answered := by
    simp [CacheState.answer]
  have last (d : String) :
      lastDefinitive (s.answer digest calls result unreachable).events d = lastDefinitive s.events d := by
    rw [events, lastDefinitive_append, lastDefinitive_answers, Option.none_or]
  refine ⟨?_, ?_, ?_⟩
  · intro entry mem
    rw [last]
    exact h.cached entry mem
  · intro d lookup here entry held
    rw [last]
    exact h.pending d lookup here entry held
  · rw [events]
    refine h.kept.answers fun a mem => ?_
    obtain ⟨call, -, rfl⟩ := List.mem_map.mp mem
    exact allowed call

theorem sound_setLookup {s : CacheState} (h : Sound config s) (digest : String) {lookup? : Option Lookup}
    (held : ∀ lookup, lookup? = some lookup → ∀ entry, lookup.cached = some entry →
      lastDefinitive s.events digest = some entry) : Sound config (s.setLookup digest lookup?) := by
  refine ⟨h.cached, ?_, h.kept⟩
  intro d lookup here entry cached
  by_cases same : d = digest
  · subst same
    have set : (s.setLookup d lookup?).inflight d = lookup? := if_pos rfl
    exact held lookup (set.symm.trans here) entry cached
  · have left : (s.setLookup digest lookup?).inflight d = s.inflight d := if_neg same
    exact h.pending d lookup (left.symm.trans here) entry cached

theorem sound_shrink {s : CacheState} (h : Sound config s) {cache : List (String × ResolvedKey)}
    (fewer : cache ⊆ s.cache) : Sound config { s with cache := cache } :=
  ⟨fun entry mem => h.cached entry (fewer mem), h.pending, h.kept⟩

theorem sound_evict {s : CacheState} (h : Sound config s) : Sound config (s.evictIfFull config) := by
  unfold CacheState.evictIfFull
  split
  · exact h
  · dsimp only
    split
    · exact sound_shrink h (List.nil_subset _)
    · exact sound_shrink h List.filter_sublist.subset

/-- A definitive answer replaces the entry of its digest, which has no other lookup. -/
theorem sound_definitive {s : CacheState} (h : Sound config s) {digest : String} (entry : ResolvedKey)
    (ended : s.inflight digest = none) :
    Sound config { s with
      cache := Python.insert digest entry s.cache
      events := s.events ++ [.definitive digest entry] } := by
  refine ⟨?_, ?_, ?_⟩
  · intro held mem
    dsimp only
    rw [lastDefinitive_concat]
    rcases mem_insert mem with rfl | ⟨mem, other⟩
    · exact if_pos rfl
    · rw [if_neg (Ne.symm other)]
      exact h.cached held mem
  · intro d lookup here held cached
    dsimp only at here ⊢
    have other : digest ≠ d := by
      rintro rfl
      rw [ended] at here
      cases here
    rw [lastDefinitive_concat, if_neg other]
    exact h.pending d lookup here held cached
  · refine h.kept.concat ?_
    rintro a ⟨⟩

theorem allowed_none (last : Option ResolvedKey) (call : Nat) (digest : String) (unreachable : Bool) (time : ℚ) :
    Allowed config last ⟨call, digest, none, unreachable, time⟩ where
  active _ h := by cases h
  inactive _ h := by cases h

/-- The answer of an entry that is the last definitive one and not past its own time to live. -/
theorem allowed_fresh {entry : ResolvedKey} {time : ℚ} (young : time - entry.fetchedAt ≤ entryTtl config entry)
    (call : Nat) (digest : String) : Allowed config (some entry) ⟨call, digest, some entry, false, time⟩ where
  active e same active := by
    obtain rfl := Option.some.inj same
    rw [entryTtl, if_pos active] at young
    exact ⟨entry, rfl, active, .inl young⟩
  inactive e same inactive := by
    obtain rfl := Option.some.inj same
    rwa [entryTtl, inactive, if_neg Bool.false_ne_true] at young

theorem fetchedAt_of_fetchResolve {now : ℚ} {reply : Reply} {entry : ResolvedKey}
    (h : fetchResolve config now reply = some entry) : entry.fetchedAt = now := by
  cases reply with
  | transportError => cases h
  | response statusCode body =>
    simp only [fetchResolve] at h
    split at h
    · cases h
    · split at h
      · obtain rfl := Option.some.inj h
        rfl
      · obtain rfl := Option.some.inj h
        rfl

theorem sound_resolveKey {s : CacheState} (h : Sound config s) (call : Nat) (digest : String) :
    Sound config (s.resolveKey config call digest) := by
  unfold CacheState.resolveKey
  have last (entry : ResolvedKey) (found : s.cache.lookup digest = some entry) :
      lastDefinitive s.events digest = some entry := h.cached _ (mem_of_lookup found)
  split
  · dsimp only
    split
    · rename_i entry young
      obtain ⟨found, young⟩ := Option.filter_eq_some_iff.mp young
      refine sound_answer h fun call => ?_
      rw [last entry found]
      exact allowed_fresh (by simpa using young) call digest
    · split
      · rename_i pending here
        refine sound_setLookup h digest ?_
        rintro _ ⟨⟩ entry held
        exact h.pending digest pending here entry held
      · refine sound_setLookup h digest ?_
        rintro _ ⟨⟩ entry held
        exact last entry held
  · exact sound_answer h fun call => allowed_none _ _ _ _ _

theorem sound_finish {s : CacheState} (h : Sound config s) (ttl : 0 ≤ config.resolveTtlS)
    (negative : 0 ≤ config.negativeTtlS) {digest : String} {lookup : Lookup} {reply : Reply}
    (here : s.inflight digest = some lookup) (within : inGrace config s (.reply digest reply) = true) :
    Sound config (s.finish config digest lookup reply) := by
  have ended : Sound config (s.setLookup digest none) := sound_setLookup h digest (by rintro _ ⟨⟩)
  have off : ((s.setLookup digest none).evictIfFull config).inflight digest = none := by
    unfold CacheState.evictIfFull
    split
    · exact if_pos rfl
    · exact if_pos rfl
  unfold CacheState.finish
  dsimp only
  rw [show (s.setLookup digest none).now = s.now from rfl]
  split
  · rename_i fresh fetched
    have now_same : ((s.setLookup digest none).evictIfFull config).now = s.now := by
      unfold CacheState.evictIfFull
      split
      · rfl
      · rfl
    refine sound_answer (sound_definitive (sound_evict ended) fresh off) fun call => ?_
    dsimp only
    rw [lastDefinitive_concat, if_pos rfl, now_same]
    have received := fetchedAt_of_fetchResolve fetched
    have young : s.now - fresh.fetchedAt ≤ entryTtl config fresh := by
      rw [received, sub_self]
      unfold entryTtl
      split
      · exact ttl
      · exact negative
    exact allowed_fresh young call digest
  · rename_i failed
    split
    · rename_i entry stale
      refine sound_answer ended fun call => ?_
      obtain ⟨held, usable⟩ := Option.filter_eq_some_iff.mp stale
      obtain ⟨active, -⟩ : entry.active = true ∧ _ := by simpa using usable
      have recent : s.now - entry.fetchedAt ≤ config.resolveTtlS + config.resolveStaleGraceS := by
        simpa [inGrace, here, failed, stale] using within
      have last : lastDefinitive (s.setLookup digest none).events digest = some entry :=
        h.pending digest lookup here entry held
      rw [last]
      refine ⟨?_, ?_⟩
      · intro e same _
        exact ⟨entry, rfl, active, .inr ⟨rfl, recent⟩⟩
      · intro e same inactive
        obtain rfl := Option.some.inj same
        rw [active] at inactive
        cases inactive
    · exact sound_answer (sound_shrink ended List.filter_sublist.subset) fun call => allowed_none _ _ _ _ _

theorem sound_step {s t : CacheState} {act : CacheAct} (ttl : 0 ≤ config.resolveTtlS)
    (negative : 0 ≤ config.negativeTtlS) (h : Sound config s) (within : inGrace config s act = true)
    (stepped : s.step config act = some t) : Sound config t := by
  cases act with
  | resolveKey call digest =>
    cases stepped
    exact sound_resolveKey h call digest
  | reply digest reply =>
    obtain ⟨lookup, here, rfl⟩ := Option.map_eq_some_iff.mp stepped
    exact sound_finish h ttl negative here within
  | abort digest =>
    obtain ⟨lookup, here, rfl⟩ := Option.map_eq_some_iff.mp stepped
    exact sound_setLookup h digest (by rintro _ ⟨⟩)
  | leave digest call =>
    obtain ⟨lookup, here, left⟩ := Option.bind_eq_some_iff.mp stepped
    split at left
    · cases left
      refine sound_setLookup h digest ?_
      rintro _ ⟨⟩ entry held
      exact h.pending digest lookup here entry held
    · cases left
  | tick elapsed =>
    simp only [CacheState.step] at stepped
    split at stepped
    · cases stepped
      exact ⟨h.cached, h.pending, h.kept⟩
    · cases stepped

/-- An active last answer that is not the earlier inactive one has come since. -/
theorem active_since {before mid : List Event} {digest : String} {gone answer : ResolvedKey}
    (inactive : gone.active = false) (active : answer.active = true)
    (last : lastDefinitive (before ++ .definitive digest gone :: mid) digest = some answer) :
    .definitive digest answer ∈ mid := by
  rw [List.append_cons, lastDefinitive_append, lastDefinitive_concat, if_pos rfl] at last
  cases later : lastDefinitive mid digest with
  | none =>
    rw [later, Option.none_or] at last
    obtain rfl := Option.some.inj last
    rw [active] at inactive
    cases inactive
  | some entry =>
    rw [later] at last
    obtain rfl := Option.some.inj last
    obtain ⟨event, mem, here⟩ := List.mem_filterMap.mp (List.mem_of_getLast? later)
    cases event with
    | definitive d e =>
      simp only [definitiveOf, Option.ite_none_right_eq_some, Option.some.injEq] at here
      obtain ⟨rfl, rfl⟩ := here
      exact mem
    | answered a => cases here

/-- In a run whose failed lookups end within the grace of the entry they fall back to,
with times to live that are not negative: each call answers only what it may, and
after a definitive inactive answer a call answers active only once another
definitive answer was active. -/
theorem key_cache_kept {now : ℚ} {acts : List CacheAct} {s : CacheState} (ttl : 0 ≤ config.resolveTtlS)
    (negative : 0 ≤ config.negativeTtlS)
    (within : Machine.Along (CacheState.step config) (fun s act => inGrace config s act = true) (.empty now) acts)
    (ran : runCache config now acts = some s) :
    (∀ before a after, s.events = before ++ .answered a :: after →
      Allowed config (lastDefinitive before a.digest) a) ∧
    (∀ before digest gone mid a after,
      s.events = before ++ .definitive digest gone :: mid ++ .answered a :: after → gone.active = false →
        a.digest = digest → (∃ entry, a.result = some entry ∧ entry.active = true) →
          ∃ answer, .definitive digest answer ∈ mid ∧ answer.active = true) := by
  have kept := (Machine.run_along (sound_empty now) (fun _ _ _ => sound_step ttl negative) within ran).kept
  refine ⟨kept, ?_⟩
  rintro before digest gone mid a after split_at inactive rfl ⟨entry, result, active⟩
  obtain ⟨answer, last, answer_active, -⟩ := (kept _ a after split_at).active entry result active
  exact ⟨answer, active_since inactive answer_active last, answer_active⟩

/-- The defaults of the module. -/
def sampleConfig : Config := ⟨true, 60, 15, 300, fun _ => "", fun _ => none⟩

def sampleBody : Json := .obj [("active", .bool true), ("consumer", .str "acme"), ("tenant_id", .int 7)]

def sampleKey (fetchedAt : ℚ) : ResolvedKey :=
  ⟨true, some "acme", some 7, none, none, fetchedAt, 1, none, none⟩

/-- A key is resolved; after `age` seconds a call looks it up again and another shares
the lookup, which finds the control plane unreachable three seconds later. -/
def staleActs (age : ℚ) : List CacheAct :=
  [.resolveKey 0 "d", .reply "d" (.response 200 (some sampleBody)), .tick age, .resolveKey 1 "d", .tick 2,
    .resolveKey 2 "d", .tick 1, .reply "d" .transportError]

def staleEvents (age : ℚ) : List Event :=
  [.definitive "d" (sampleKey 0), .answered ⟨0, "d", some (sampleKey 0), false, 0⟩,
    .answered ⟨1, "d", some (sampleKey 0), true, age + 3⟩, .answered ⟨2, "d", some (sampleKey 0), true, age + 3⟩]

theorem key_cache_kept_sample : ∃ s, runCache sampleConfig 0 (staleActs 100) = some s ∧ s.events = staleEvents 100 ∧
    ∀ before a after, s.events = before ++ .answered a :: after →
      Allowed sampleConfig (lastDefinitive before a.digest) a := by
  have ends : (runCache sampleConfig 0 (staleActs 100)).map (·.events) = some (staleEvents 100) := by
    decide +kernel
  obtain ⟨s, ran, events⟩ := Option.map_eq_some_iff.mp ends
  have within : Machine.Along (CacheState.step sampleConfig) (fun s act => inGrace sampleConfig s act = true)
      (.empty 0) (staleActs 100) := by
    decide +kernel
  exact ⟨s, ran, events, (key_cache_kept (by decide +kernel) (by decide +kernel) within ran).1⟩

/-- The lookup begins within the grace and ends after it, and both calls answer active. -/
theorem served_past_grace : ¬ ∀ (config : Config) (now : ℚ) (acts : List CacheAct) (s : CacheState),
    0 ≤ config.resolveTtlS → 0 ≤ config.negativeTtlS → runCache config now acts = some s →
      ∀ before a after, s.events = before ++ .answered a :: after →
        Allowed config (lastDefinitive before a.digest) a := by
  intro h
  have ends : (runCache sampleConfig 0 (staleActs 359)).map (·.events) = some (staleEvents 359) := by
    decide +kernel
  obtain ⟨s, ran, events⟩ := Option.map_eq_some_iff.mp ends
  have allowed := h sampleConfig 0 _ s (by decide +kernel) (by decide +kernel) ran
    [.definitive "d" (sampleKey 0), .answered ⟨0, "d", some (sampleKey 0), false, 0⟩]
    ⟨1, "d", some (sampleKey 0), true, 362⟩ [.answered ⟨2, "d", some (sampleKey 0), true, 362⟩]
    (events.trans (by decide +kernel))
  obtain ⟨answer, last, -, young⟩ := allowed.active (sampleKey 0) rfl rfl
  have stale : some (sampleKey 0) = some answer := last
  obtain rfl := Option.some.inj stale
  revert young
  decide +kernel

end Runs

end Unhardcoded.Guarantees.KeyCache

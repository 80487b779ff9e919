import Unhardcoded.Effects.GroupBy
import Unhardcoded.Source.RouterDriver

/-!
# Whatever the engine asks for, calls go where the catalog says

The engine's replies are arbitrary. A request that goes out carries the endpoint and the
credential names of its catalog row (`pinned_prepared`), at most 32 go out in a run, and
each answer leaves at most one observation, in order (`driver_safe`). On a tenant's host an
observation is about a provider the operator shares, at the operator's row and, where the
operator has one, under the operator's credential (`evidence_operators`).
-/

namespace Unhardcoded.Guarantees.RouterDriver
open Source Source.RouterDriver Python

/-! ## One call -/

/-- The request is its own catalog row's, if it has one. -/
def Pinned (host : Host) (request : Fields) : Prop :=
  ∀ provider, host.row request = some provider →
    (∀ key ∈ pinnedKeys, value request key = provider.field key) ∧ value request "base_url" = endpoint provider request

theorem value_insert (d : Fields) (key other : String) (v : Json) :
    value (insert key v d) other = if other = key then v else value d other := by
  rw [value, lookup_insert]
  split
  · rfl
  · rfl

/-- Writing another field than `provider_id` leaves a request with its row. -/
theorem row_insert (host : Host) {key : String} (other : "provider_id" ≠ key) (d : Fields) (v : Json) :
    host.row (insert key v d) = host.row d := by
  rw [Host.row, Host.row, value_insert, if_neg other]

theorem endpoint_insert (provider : Json) {key : String} (other : "offer" ≠ key) (d : Fields) (v : Json) :
    endpoint provider (insert key v d) = endpoint provider d := by
  rw [endpoint, endpoint, value_insert, if_neg other]

/-- A field that is neither pinned nor read by the pin. -/
def Free (key : String) : Prop := key ∉ pinnedKeys ∧ "provider_id" ≠ key ∧ "offer" ≠ key ∧ "base_url" ≠ key

theorem pinned_insert {host : Host} {d : Fields} (pinned : Pinned host d) {key : String} (free : Free key) (v : Json) :
    Pinned host (insert key v d) := by
  obtain ⟨unpinned, notId, notOffer, notUrl⟩ := free
  intro provider row
  rw [row_insert host notId] at row
  obtain ⟨keys, url⟩ := pinned provider row
  constructor
  · intro other mem
    have differ : other ≠ key := fun same => unpinned (same ▸ mem)
    rw [value_insert, if_neg differ, keys other mem]
  · rw [value_insert, if_neg notUrl, endpoint_insert provider notOffer, url]

theorem row_pins (host : Host) (provider : Json) (request : Fields) :
    host.row (pinnedKeys.foldl (fun d key => insert key (provider.field key) d) request) = host.row request := by
  simp only [pinnedKeys, List.foldl_cons, List.foldl_nil]
  rw [row_insert host (by decide), row_insert host (by decide), row_insert host (by decide), row_insert host (by decide)]

theorem value_pins (provider : Json) (request : Fields) {key : String} (mem : key ∈ pinnedKeys) :
    value (pinnedKeys.foldl (fun d key => insert key (provider.field key) d) request) key = provider.field key := by
  simp only [pinnedKeys, List.mem_cons, List.not_mem_nil, or_false] at mem
  rcases mem with rfl | rfl | rfl | rfl <;>
    simp only [pinnedKeys, List.foldl_cons, List.foldl_nil, value_insert, if_true] <;> rfl

theorem pinned_pinRoute (host : Host) (request : Fields) : Pinned host (host.pinRoute request) := by
  intro provider row
  unfold Host.pinRoute at row ⊢
  cases found : host.row request with
  | none =>
    rw [found] at row
    rw [found] at row
    cases row
  | some own =>
    rw [found] at row
    dsimp only at row ⊢
    rw [row_insert host (by decide), row_pins, found, Option.some_inj] at row
    subst row
    constructor
    · intro key mem
      have notUrl : key ≠ "base_url" := fun same => absurd (same ▸ mem) (by decide)
      rw [value_insert, if_neg notUrl, value_pins own request mem]
    · rw [value_insert, if_pos rfl, endpoint_insert own (by decide)]

theorem free_decision : Free "decision" := ⟨by decide, by decide, by decide, by decide⟩

theorem free_deadline : Free "first_token_timeout_ms" := ⟨by decide, by decide, by decide, by decide⟩

theorem pinned_prepared {float : String → Json} {host : Host} {contract request prepared : Fields}
    (h : host.prepared float contract request = .ok prepared) : Pinned host prepared := by
  have pinned := pinned_pinRoute host request
  unfold Host.prepared at h
  cases decoded : decodeDecision float (host.pinRoute request) with
  | error e =>
    rw [decoded] at h
    cases h
  | ok d =>
    rw [decoded] at h
    cases h
    have decoded : Pinned host d := by
      unfold decodeDecision at decoded
      split at decoded
      · split at decoded
        · split at decoded
          · cases decoded
            exact pinned_insert pinned free_decision _
          · cases decoded
        · cases decoded
      · cases decoded
        exact pinned
    unfold withDeadline
    dsimp only
    split
    · exact pinned_insert decoded free_deadline _
    · exact decoded

/-! ## A run -/

/-- What `recorded` leaves of an answered call. -/
def record (host : Host) (call : (Fields × Fields) × Int) : Option Observation :=
  match host.recorded call.2 call.1.1 call.1.2 with
  | .ok observation => observation
  | .error _ => none

/-- An entry of a diagnostic: a known field with a short text, a bounded number or a flag. -/
def Bounded (entry : String × Json) : Prop :=
  (entry.1 ∈ textFields ∧ ∃ text : String, text.toList.length ≤ 160 ∧ entry.2 = .str text) ∨
    (entry.1 ∈ numberFields ∧ boundedNumber entry.2 = some entry.2) ∨ entry.1 = "requested_reasoning_enabled"

/-- The invariant of a run. -/
structure Sound (host : Host) (s : State) : Prop where
  attempts : s.sent.length ≤ s.attempt
  capped : s.sent.length ≤ maxProviderAttempts
  pinned : ∀ request ∈ s.sent, Pinned host request
  answered : s.answered.map (·.1) <+: s.sent
  observed : ∃ stamps : List Int, stamps.length = s.answered.length ∧
    s.observed = (s.answered.zip stamps).filterMap (record host)
  diagnosed : s.diagnostics.length ≤ s.answered.length
  bounded : ∀ d ∈ s.diagnostics, ∀ entry ∈ d, Bounded entry

theorem bounded_pick_text (keys : List String) (within : keys ⊆ textFields) (d : Fields) :
    ∀ entry ∈ pick boundedText keys d, Bounded entry := by
  intro entry mem
  obtain ⟨key, inKeys, kept⟩ := List.mem_filterMap.mp mem
  obtain ⟨v, bounded, rfl⟩ := Option.map_eq_some_iff.mp kept
  unfold boundedText at bounded
  split at bounded
  · cases bounded
    refine .inl ⟨within inKeys, _, ?_, rfl⟩
    rw [String.toList_ofList]
    exact List.length_take_le _ _
  · cases bounded

theorem boundedNumber_self {v w : Json} (h : boundedNumber v = some w) : boundedNumber w = some w := by
  unfold boundedNumber at h
  split at h
  · split at h
    · cases h
      rename_i within
      rw [boundedNumber, if_pos within]
    · cases h
  · split at h
    · cases h
      rename_i within
      rw [boundedNumber, if_pos within]
    · cases h
  · cases h

theorem bounded_pick_number (d : Fields) : ∀ entry ∈ pick boundedNumber numberFields d, Bounded entry := by
  intro entry mem
  obtain ⟨key, inKeys, kept⟩ := List.mem_filterMap.mp mem
  obtain ⟨v, bounded, rfl⟩ := Option.map_eq_some_iff.mp kept
  exact .inr (.inl ⟨inKeys, boundedNumber_self bounded⟩)

theorem bounded_pick_flag (d : Fields) :
    ∀ entry ∈ pick boundedFlag ["requested_reasoning_enabled"] d, Bounded entry := by
  intro entry mem
  obtain ⟨key, inKeys, kept⟩ := List.mem_filterMap.mp mem
  obtain ⟨v, -, rfl⟩ := Option.map_eq_some_iff.mp kept
  exact .inr (.inr (List.mem_singleton.mp inKeys))

theorem bounded_diagnostics (v : Json) : ∀ entry ∈ boundedDiagnostics v, Bounded entry := by
  intro entry mem
  unfold boundedDiagnostics at mem
  split at mem
  · rename_i d
    rcases List.mem_append.mp mem with front | flags
    · rcases List.mem_append.mp front with texts | numbers
      · exact bounded_pick_text textFields (List.Subset.refl _) d entry texts
      · exact bounded_pick_number d entry numbers
    · exact bounded_pick_flag d entry flags
  · cases mem

theorem bounded_diagnosed {attempt : Nat} {request result d : Fields} (h : diagnosed attempt request result = some d) :
    ∀ entry ∈ d, Bounded entry := by
  unfold diagnosed at h
  dsimp only at h
  split at h
  · cases h
  · cases h
    intro entry mem
    rcases @mem_foldl_insert _ _ _ _ _ Prod.fst Prod.snd _ _ mem with ⟨row, within, rfl⟩ | own
    · exact bounded_diagnostics _ row within
    · exact bounded_diagnostics _ entry own

theorem length_addDiagnostic (diagnostics : List Fields) (d : Option Fields) :
    (addDiagnostic diagnostics d).length ≤ diagnostics.length + 1 := by
  unfold addDiagnostic
  split
  · split
    · rw [List.length_append, List.length_singleton]
    · omega
  · omega

theorem mem_addDiagnostic {diagnostics : List Fields} {d : Option Fields} {added : Fields}
    (mem : added ∈ addDiagnostic diagnostics d) : added ∈ diagnostics ∨ d = some added := by
  unfold addDiagnostic at mem
  split at mem
  · split at mem
    · rcases List.mem_append.mp mem with old | new
      · exact .inl old
      · exact .inr (congrArg some (List.mem_singleton.mp new).symm)
    · exact .inl mem
  · exact .inl mem

theorem sound_start (host : Host) : Sound host State.start where
  attempts := Nat.le_refl 0
  capped := Nat.zero_le _
  pinned := by simp [State.start]
  answered := List.prefix_rfl
  observed := ⟨[], rfl, rfl⟩
  diagnosed := Nat.le_refl 0
  bounded := by simp [State.start]

/-- One more answered call adds what is recorded of it. -/
theorem observed_append {host : Host} {answered : List (Fields × Fields)} {observed : List Observation}
    (so : ∃ stamps : List Int, stamps.length = answered.length ∧ observed = (answered.zip stamps).filterMap (record host))
    (call : Fields × Fields) (nowMs : Int) :
    ∃ stamps : List Int, stamps.length = (answered ++ [call]).length ∧
      observed ++ (record host (call, nowMs)).toList = ((answered ++ [call]).zip stamps).filterMap (record host) := by
  obtain ⟨stamps, same, rfl⟩ := so
  refine ⟨stamps ++ [nowMs], by simp [same], ?_⟩
  rw [List.zip_append same.symm, List.filterMap_append]
  cases row : record host (call, nowMs) with
  | none => rw [List.zip_cons_cons, List.filterMap_cons_none row]; rfl
  | some o => rw [List.zip_cons_cons, List.filterMap_cons_some row]; rfl

section Run

variable (float : String → Json) (host : Host) (contract : Fields)

/-- A call keeps the invariant, and where it does not raise it is answered. -/
theorem sound_callTurn {s : State} (sound : Sound host s) (complete : s.answered.map (·.1) = s.sent)
    (attempt : s.sent.length + 1 ≤ s.attempt) (within : s.attempt ≤ maxProviderAttempts) (request : Fields)
    (answer : Except Raised Fields) (nowMs : Int) {s' : State} {raised : Option Raised}
    (turn : callTurn float host contract s request answer nowMs = (s', raised)) :
    Sound host s' ∧ (raised = none → s'.answered.map (·.1) = s'.sent) := by
  unfold callTurn at turn
  cases prepared : host.prepared float contract request with
  | error e =>
    rw [prepared] at turn
    cases turn
    exact ⟨sound, fun h => by cases h⟩
  | ok request' =>
    rw [prepared] at turn
    have pinned : ∀ r ∈ s.sent ++ [request'], Pinned host r := by
      intro r mem
      rcases List.mem_append.mp mem with old | new
      · exact sound.pinned r old
      · rw [List.mem_singleton.mp new]
        exact pinned_prepared prepared
    have length : (s.sent ++ [request']).length = s.sent.length + 1 := by
      rw [List.length_append, List.length_singleton]
    cases answer with
    | error e =>
      cases turn
      refine ⟨⟨by dsimp only; omega, by dsimp only; omega, pinned, ?_, sound.observed, sound.diagnosed, sound.bounded⟩,
        fun h => by cases h⟩
      exact sound.answered.trans (List.prefix_append _ _)
    | ok result =>
      have same : (s.answered ++ [(request', result)]).map (·.1) = s.sent ++ [request'] := by
        rw [List.map_append, complete, List.map_singleton]
      have longer : (s.answered ++ [(request', result)]).length = s.answered.length + 1 := by
        rw [List.length_append, List.length_singleton]
      have rows := observed_append sound.observed (request', result) nowMs
      have diagnosed := sound.diagnosed
      dsimp only at turn
      cases recorded : host.recorded nowMs request' result with
      | error e =>
        rw [record, recorded, Option.toList_none, List.append_nil] at rows
        rw [recorded] at turn
        cases turn
        exact ⟨⟨by dsimp only; omega, by dsimp only; omega, pinned, same ▸ List.prefix_rfl, rows, by dsimp only; omega,
          sound.bounded⟩, fun h => by cases h⟩
      | ok observation =>
        rw [record, recorded] at rows
        rw [recorded] at turn
        cases turn
        refine ⟨⟨by dsimp only; omega, by dsimp only; omega, pinned, same ▸ List.prefix_rfl, rows, ?_, ?_⟩, fun _ => same⟩
        · have := length_addDiagnostic s.diagnostics (RouterDriver.diagnosed s.attempt request' result)
          dsimp only
          omega
        · intro d mem
          rcases mem_addDiagnostic mem with old | new
          · exact sound.bounded d old
          · exact bounded_diagnosed new

/-- A run keeps the invariant, and every request of one that does not raise has been answered. -/
theorem sound_execute (turns : List Turn) {s : State} (sound : Sound host s) (complete : s.answered.map (·.1) = s.sent) :
    Sound host (execute float host contract s turns).1 ∧
      ((∃ e, (execute float host contract s turns).2 = .raised e) ∨
        (execute float host contract s turns).1.answered.map (·.1) = (execute float host contract s turns).1.sent) := by
  induction turns generalizing s with
  | nil => exact ⟨sound, .inr complete⟩
  | cons turn rest ih =>
    rw [execute]
    cases turn.reply with
    | raised e => exact ⟨sound, .inl ⟨e, rfl⟩⟩
    | done result =>
      dsimp only
      cases withDiagnostics s.diagnostics result with
      | ok result => exact ⟨sound, .inr complete⟩
      | error e => exact ⟨sound, .inl ⟨e, rfl⟩⟩
    | bad status => exact ⟨sound, .inr complete⟩
    | wait => exact ih sound complete
    | call request =>
      have counted : Sound host { s with attempt := s.attempt + 1 } :=
        ⟨Nat.le_succ_of_le sound.attempts, sound.capped, sound.pinned, sound.answered, sound.observed, sound.diagnosed,
          sound.bounded⟩
      dsimp only
      split
      · exact ⟨counted, .inr complete⟩
      · rename_i within
        have attempts := sound.attempts
        cases called : callTurn float host contract { s with attempt := s.attempt + 1 } request turn.answer turn.nowMs with
        | mk s' raised =>
          obtain ⟨kept, answered⟩ := sound_callTurn float host contract counted complete (by dsimp only; omega)
            (by dsimp only at within ⊢; omega) request turn.answer turn.nowMs called
          cases raised with
          | some e => exact ⟨kept, .inl ⟨e, rfl⟩⟩
          | none => exact ih kept (answered rfl)

/-- Whatever the engine replies and the hooks answer: every request that goes out carries the
endpoint and the credential names of its catalog row, at most 32 go out, each answer leaves
what is recorded of it and nothing else is observed, the diagnostics are bounded, and a run
that does not raise leaves no request unanswered. -/
theorem driver_safe (turns : List Turn) :
    Sound host (execute float host contract State.start turns).1 ∧
      ((∃ e, (execute float host contract State.start turns).2 = .raised e) ∨
        (execute float host contract State.start turns).1.answered.map (·.1) =
          (execute float host contract State.start turns).1.sent) :=
  sound_execute float host contract turns (sound_start host) rfl

end Run

/-! ## A tenant's evidence -/

section Tenant

open TenantHost

/-- The names that the connections of a tenant write into its environment. -/
def connectionNames : List String :=
  ["AWS_ACCESS_KEY_ID", "AWS_SECRET_ACCESS_KEY", "AWS_SESSION_TOKEN", "BEDROCK_REGION", "ANTSEED_BYO_URL", "ANTSEED_BYO_TOKEN"]

variable (net : Net) (host : TenantHost.Host) (env : Env)

theorem grant_managed (scope : Scoped) (entry : String × Provider) :
    (grant net host env scope entry).managed ⊆ scope.managed := by
  unfold grant
  split
  · exact Finset.Subset.refl _
  · split
    · exact Finset.erase_subset _ _
    · split <;> exact Finset.Subset.refl _

theorem grants_managed (catalog : Catalog) (scope : Scoped) :
    (catalog.foldl (grant net host env) scope).managed ⊆ scope.managed := by
  induction catalog generalizing scope with
  | nil => exact Finset.Subset.refl _
  | cons entry rest ih => exact (ih _).trans (grant_managed net host env scope entry)

/-- A granted secret is the operator's value of its name, so another grant of it changes nothing. -/
theorem grant_keeps {scope : Scoped} {key secret : String} (operators : nonempty (host.env.lookup key) = some secret)
    (held : scope.env.lookup key = some secret) (entry : String × Provider) :
    (grant net host env scope entry).env.lookup key = some secret := by
  unfold grant
  split
  · exact held
  · rename_i other _
    split
    · exact held
    · split
      · rename_i secret' _ granted
        dsimp only
        rw [lookup_insert]
        split
        · rename_i same
          rw [same, granted] at operators
          exact operators
        · exact held
      · exact held

theorem grants_keep {key secret : String} (operators : nonempty (host.env.lookup key) = some secret) (catalog : Catalog)
    {scope : Scoped} (held : scope.env.lookup key = some secret) :
    (catalog.foldl (grant net host env) scope).env.lookup key = some secret := by
  induction catalog generalizing scope with
  | nil => exact held
  | cons entry rest ih => exact ih (grant_keeps net host env operators held entry)

/-- A provider that is still managed after its own grant has got the operator's secret. -/
theorem grant_shares {scope : Scoped} {entry : String × Provider} {key secret : String} (named : entry.2.secret = some key)
    (operators : nonempty (host.env.lookup key) = some secret)
    (managed : entry.1 ∈ (grant net host env scope entry).managed) :
    (grant net host env scope entry).env.lookup key = some secret := by
  unfold grant at managed ⊢
  rw [named] at managed ⊢
  dsimp only at managed ⊢
  split at managed
  · exact absurd rfl (Finset.mem_erase.mp managed).1
  · rename_i foreign
    rw [if_neg foreign]
    have before : entry.1 ∈ scope.managed := by
      split at managed <;> exact managed
    rw [operators, decide_eq_true before]
    exact lookup_insert_self _ _ _

theorem grants_share {catalog : Catalog} {entry : String × Provider} (mem : entry ∈ catalog) {key secret : String}
    (named : entry.2.secret = some key) (operators : nonempty (host.env.lookup key) = some secret) {scope : Scoped}
    (managed : entry.1 ∈ (catalog.foldl (grant net host env) scope).managed) :
    (catalog.foldl (grant net host env) scope).env.lookup key = some secret := by
  induction catalog generalizing scope with
  | nil => cases mem
  | cons first rest ih =>
    rcases List.mem_cons.mp mem with rfl | later
    · have own := grant_shares net host env named operators (grants_managed net host env rest _ managed)
      exact grants_keep net host env operators rest own
    · exact ih later managed

/-- A name that the operator has no value of is written by no turn of the loop. -/
theorem grant_leaves {key : String} (unset : nonempty (host.env.lookup key) = none) (scope : Scoped) (entry : String × Provider) :
    (grant net host env scope entry).env.lookup key = scope.env.lookup key := by
  unfold grant
  split
  · rfl
  · split
    · rfl
    · split
      · rename_i granted
        dsimp only
        rw [lookup_insert, if_neg]
        rintro rfl
        rw [granted] at unset
        cases unset
      · rfl

theorem grants_leave {key : String} (unset : nonempty (host.env.lookup key) = none) (catalog : Catalog) (scope : Scoped) :
    (catalog.foldl (grant net host env) scope).env.lookup key = scope.env.lookup key := by
  induction catalog generalizing scope with
  | nil => rfl
  | cons entry rest ih => exact (ih _).trans (grant_leaves net host env unset scope entry)

/-- Of a provider that is still managed the tenant has no secret, or it is local to the operator. -/
theorem grants_foreign {catalog : Catalog} {entry : String × Provider} (mem : entry ∈ catalog) {key : String}
    (named : entry.2.secret = some key) {scope : Scoped}
    (managed : entry.1 ∈ (catalog.foldl (grant net host env) scope).managed) :
    nonempty (env.lookup key) = none ∨ net.operatorLocal entry.2.baseUrl = true := by
  induction catalog generalizing scope with
  | nil => cases mem
  | cons first rest ih =>
    rcases List.mem_cons.mp mem with rfl | later
    · have own := grants_managed net host env rest _ managed
      unfold grant at own
      rw [named] at own
      dsimp only at own
      split at own
      · exact absurd rfl (Finset.mem_erase.mp own).1
      · rename_i foreign
        simpa [imp_iff_not_or] using foreign
    · exact ih later managed

theorem lookup_map_same {f : String × Provider → String × Provider} (keys : ∀ entry, (f entry).1 = entry.1) {d : Catalog}
    {pid : String} {p : Provider} (found : d.lookup pid = some p) (same : f (pid, p) = (pid, p)) :
    (d.map f).lookup pid = some p := by
  induction d with
  | nil => cases found
  | cons entry d ih =>
    rw [List.map_cons, List.lookup_cons, keys]
    rw [List.lookup_cons] at found
    split at found
    · rename_i here
      cases found
      have here : pid = entry.1 := eq_of_beq here
      subst here
      rw [show f entry = entry from same]
    · exact ih found

theorem lookup_update_absent {env entries : Env} {key : String} (absent : ∀ entry ∈ entries, key ≠ entry.1) :
    (update env entries).lookup key = env.lookup key :=
  @lookup_foldl_insert _ _ _ _ _ Prod.fst Prod.snd _ _ absent

/-- A provider that a connection does not make the tenant's own keeps its row, and a name that no
connection writes its value. -/
theorem configureAws_keeps (aws : Aws) {catalog : Catalog} {env : Env} {pid : String} {p : Provider}
    (found : catalog.lookup pid = some p) (foreign : pid ∉ (configureAws aws catalog env).byo) :
    (configureAws aws catalog env).catalog.lookup pid = some p ∧
      ∀ key ∉ connectionNames, (configureAws aws catalog env).env.lookup key = env.lookup key := by
  have plain : p.apiKind ≠ some "bedrock" := by
    intro bedrock
    refine foreign (List.mem_toFinset.mpr (List.mem_map.mpr ⟨(pid, p), List.mem_filter.mpr ⟨mem_of_lookup found, ?_⟩, rfl⟩))
    exact decide_eq_true bedrock
  constructor
  · refine lookup_map_same (fun entry => ?_) found ?_
    · split <;> rfl
    · rw [if_neg plain]
  · intro key unwritten
    refine lookup_update_absent fun entry mem same => unwritten ?_
    simp only [List.mem_cons, List.not_mem_nil, or_false] at mem
    rcases mem with rfl | rfl | rfl | rfl <;> simp [same, connectionNames]

theorem configureBuyer_keeps (buyer : Buyer) {configured : Configured} {pid : String} {p : Provider}
    (found : configured.catalog.lookup pid = some p) (foreign : pid ∉ (configureBuyer buyer configured).byo) :
    pid ∉ configured.byo ∧ (configureBuyer buyer configured).catalog.lookup pid = some p ∧
      ∀ key ∉ connectionNames, (configureBuyer buyer configured).env.lookup key = configured.env.lookup key := by
  unfold configureBuyer at foreign ⊢
  split
  · rename_i present
    rw [if_pos present, Finset.mem_insert, not_or] at foreign
    refine ⟨foreign.2, ?_, ?_⟩
    · refine lookup_map_same (fun entry => ?_) found ?_
      · split <;> rfl
      · rw [if_neg foreign.1]
    · intro key unwritten
      refine lookup_update_absent fun entry mem same => unwritten ?_
      simp only [List.mem_cons, List.not_mem_nil, or_false] at mem
      rcases mem with rfl | rfl <;> simp [same, connectionNames]
  · rename_i absent
    rw [if_neg absent] at foreign
    exact ⟨foreign, found, fun _ _ => rfl⟩

theorem byo_buyer (buyer : Buyer) (configured : Configured) : configured.byo ⊆ (configureBuyer buyer configured).byo := by
  unfold configureBuyer
  split
  · exact Finset.subset_insert _ _
  · exact Finset.Subset.refl _

theorem configure_keeps (connections : Connections) {catalog : Catalog} {env : Env} {pid : String} {p : Provider}
    (found : catalog.lookup pid = some p) (foreign : pid ∉ (configure catalog env connections).byo) :
    (configure catalog env connections).catalog.lookup pid = some p ∧
      ∀ key ∉ connectionNames, (configure catalog env connections).env.lookup key = env.lookup key := by
  unfold configure at foreign ⊢
  cases paid : connections.account with
  | none =>
    cases complete : connections.gateway with
    | none => exact ⟨found, fun _ _ => rfl⟩
    | some buyer =>
      rw [paid, complete] at foreign
      exact (configureBuyer_keeps buyer found foreign).2
  | some aws =>
    cases complete : connections.gateway with
    | none =>
      rw [paid, complete] at foreign
      exact configureAws_keeps aws found foreign
    | some buyer =>
      rw [paid, complete] at foreign
      have plain : pid ∉ (configureAws aws catalog env).byo := fun own => foreign (byo_buyer buyer _ own)
      obtain ⟨row, names⟩ := configureAws_keeps aws found plain
      obtain ⟨-, row', names'⟩ := configureBuyer_keeps buyer row foreign
      exact ⟨row', fun key unwritten => (names' key unwritten).trans (names key unwritten)⟩

theorem folded {ts : Int} {request result : Fields} {o : Observation}
    (h : foldRouteOutcome ts request result = .ok (some o)) :
    (value request "provider_id").truthy = true ∧ o.providerId = value request "provider_id" ∧
      (o.errorKind = .null ∨ o.errorKind = value result "error_kind") := by
  unfold foldRouteOutcome at h
  obtain ⟨family, -, h⟩ := ok_of_bind h
  dsimp only at h
  split at h
  · rename_i named
    obtain ⟨peer, -, h⟩ := ok_of_bind h
    obtain ⟨calls, -, h⟩ := ok_of_bind h
    cases h
    refine ⟨(Bool.and_eq_true _ _ ▸ named).2, rfl, ?_⟩
    dsimp only
    split
    · exact .inl rfl
    · exact .inr rfl
  · cases h

/-- An observation has the provider of its call, which a tenant's host manages, and no error of a credential. -/
theorem recorded_managed {driver : RouterDriver.Host} {managed : Finset String} (tenant : driver.tenant = some managed) {ts : Int}
    {request result : Fields} {o : Observation} (recorded : driver.recorded ts request result = .ok (some o)) :
    ∃ pid, value request "provider_id" = .str pid ∧ pid ∈ managed ∧ pid ≠ "" ∧ o.providerId = .str pid ∧
      ∀ kind ∈ credentialErrors, o.errorKind ≠ .str kind := by
  unfold Host.recorded at recorded
  split at recorded
  · rename_i evident
    obtain ⟨named, provider, error⟩ := folded recorded
    unfold Host.evidence at evident
    rw [tenant] at evident
    dsimp only at evident
    rw [Bool.and_eq_true, Bool.and_eq_true] at evident
    obtain ⟨⟨within, -⟩, harmless⟩ := evident
    unfold manages at within
    split at within
    · rename_i pid isId
      rw [isId] at named provider
      refine ⟨pid, isId, of_decide_eq_true within, of_decide_eq_true named, provider, ?_⟩
      intro kind mem same
      rcases error with none | own
      · rw [none] at same
        cases same
      · rw [own] at same
        rw [same, Bool.not_eq_true', List.any_eq_false] at harmless
        exact harmless kind mem (decide_eq_true rfl)
    · cases within
  · cases recorded

/-- Whatever the engine replies in a tenant's run: an observation is of an answered call to a
provider that the operator shares with the tenant. The call went out at the operator's own row
of it; under the name of its secret the run has the operator's value, or, where the operator
has none, at most the tenant's own for an endpoint on the operator's network; and its outcome
is no error of a credential. -/
theorem evidence_operators (float : String → Json) (contract : Fields) (process : Env) (tenant : Tenant) (managed : List String)
    (connections : Connections) (turns : List Turn) :
    let child := forTenant net host process tenant env managed connections
    let s := (execute float (tenantHost child) contract State.start turns).1
    ∀ o ∈ s.observed, ∃ call ∈ s.answered, ∃ pid p, o.providerId = .str pid ∧ value call.1 "provider_id" = .str pid ∧
      pid ∈ managed ∧ pid ∈ sharedProviderIds process host.catalog ∧ host.catalog.lookup pid = some p ∧
      (∀ key ∈ pinnedKeys, value call.1 key = (rowOf p).field key) ∧ value call.1 "base_url" = endpoint (rowOf p) call.1 ∧
      (∀ key, p.secret = some key → key ∉ connectionNames →
        (∀ secret, nonempty (host.env.lookup key) = some secret → child.env.lookup key = some secret) ∧
        (nonempty (host.env.lookup key) = none → key ≠ "SAAS_TENANT_SCOPE" → net.operatorLocal p.baseUrl = false →
          nonempty (child.env.lookup key) = none)) ∧
      ∀ kind ∈ credentialErrors, o.errorKind ≠ .str kind := by
  intro child s o mem
  have sound : Sound (tenantHost child) s :=
    (sound_execute float (tenantHost child) contract turns (sound_start (tenantHost child)) rfl).1
  obtain ⟨stamps, -, observed⟩ := sound.observed
  rw [observed] at mem
  obtain ⟨⟨call, ts⟩, inZip, row⟩ := List.mem_filterMap.mp mem
  have answered : call ∈ s.answered := (List.of_mem_zip inZip).1
  have recorded : (tenantHost child).recorded ts call.1 call.2 = .ok (some o) := by
    unfold record at row
    split at row
    · rename_i observation recorded
      rw [recorded, row]
    · cases row
  obtain ⟨pid, isId, within, named, provider, errors⟩ := recorded_managed rfl recorded
  -- what is managed at the end was given, and no connection made it the tenant's own
  obtain ⟨remains, foreign⟩ := Finset.mem_sdiff.mp within
  have given := Finset.mem_inter.mp (grants_managed net host env host.catalog _ remains)
  have listed : pid ∈ host.catalog.map (·.1) := by
    have shared := List.mem_toFinset.mp given.2
    exact of_decide_eq_true (List.mem_filter.mp shared).2
  obtain ⟨p, found⟩ := exists_lookup listed
  obtain ⟨kept, names⟩ := configure_keeps connections found foreign
  have pinned := sound.pinned call.1 (sound.answered.subset (List.mem_map_of_mem answered))
  have ofRow : (tenantHost child).row call.1 = some (rowOf p) := by
    unfold Host.row
    rw [isId]
    dsimp only
    rw [if_neg named]
    have mapped := Effects.GroupBy.lookup_mapValues rowOf child.catalog pid
    rw [show child.catalog.lookup pid = some p from kept] at mapped
    exact mapped
  obtain ⟨keys, url⟩ := pinned _ ofRow
  refine ⟨call, answered, pid, p, provider, isId, List.mem_toFinset.mp given.1, given.2, found, keys, url, ?_, errors⟩
  intro key named unwritten
  refine ⟨fun secret operators => ?_, fun unset plain remote => ?_⟩
  · exact (names key unwritten).trans (grants_share net host env (mem_of_lookup found) named operators remains)
  · have tenants : nonempty (env.lookup key) = none := by
      rcases grants_foreign net host env (mem_of_lookup found) named remains with bare | near
      · exact bare
      · rw [remote] at near
        cases near
    have same : child.env.lookup key = env.lookup key :=
      (names key unwritten).trans ((grants_leave net host env unset host.catalog _).trans (lookup_insert_of_ne plain _ _))
    rw [same]
    exact tenants

/-- Every host name is a public one. -/
def publicNet : Net := ⟨fun _ => some ("https", some "api.acme.com"), fun _ => none⟩

def acme : Provider := ⟨"https://api.acme.com", none, some "ACME_KEY", none, none, none, none⟩

def operatorsEnv : Env := [("SAAS_SHARED_PROVIDERS", "acme"), ("ACME_KEY", "operator")]

def operatorsHost : TenantHost.Host := ⟨operatorsEnv, [("acme", acme)]⟩

def tenantsChild : Child := forTenant publicNet operatorsHost operatorsEnv ⟨7, none, none⟩ [] ["acme"] ⟨none, none⟩

/-- Two answered calls, of which the second ends with an error of the credential. -/
def twoCalls : List Turn :=
  [⟨.call [("provider_id", .str "acme"), ("model_family", .str "m")], .ok [("ok", .bool true)], 5⟩,
    ⟨.call [("provider_id", .str "acme"), ("model_family", .str "m")], .ok [("error_kind", .str "auth_error")], 6⟩]

theorem evidence_operators_shared : ∃ o, (execute (fun _ => .null) (tenantHost tenantsChild) [] State.start twoCalls).1.observed = [o] ∧
    o.ok = true ∧ o.providerId = .str "acme" ∧ tenantsChild.env.lookup "ACME_KEY" = some "operator" := by
  have single : ((execute (fun _ => .null) (tenantHost tenantsChild) [] State.start twoCalls).1.observed).map (·.ok) = [true] := by
    decide +kernel
  obtain ⟨o, observed, ok⟩ := List.map_eq_singleton_iff.mp single
  obtain ⟨_, _, pid, p, named, _, managed, _, found, _, _, secrets, _⟩ := evidence_operators publicNet operatorsHost []
    (fun _ => .null) [] operatorsEnv ⟨7, none, none⟩ ["acme"] ⟨none, none⟩ twoCalls o (observed ▸ List.mem_singleton_self o)
  obtain rfl : pid = "acme" := List.mem_singleton.mp managed
  obtain rfl : acme = p := Option.some.inj found
  exact ⟨o, observed, ok, named, (secrets "ACME_KEY" rfl (by decide)).1 "operator" rfl⟩

end Tenant

end Unhardcoded.Guarantees.RouterDriver

import Unhardcoded.Guarantees.DecisionAnswers
import Unhardcoded.Python.Dict
import Unhardcoded.Python.Lists
import Unhardcoded.Source.PolicySelection

/-!
# Policy selection stays legal

Whatever the provider answers and however the engine's answers change between two calls, a
contract that is returned runs a policy of the revalidated configuration which the engine
accepted in the last recheck. A policy other than `general` takes an active rollout and a
valid answer of sufficient certainty over the legal policies.
-/

namespace Unhardcoded.Guarantees.PolicySelection

open Unhardcoded.Python Unhardcoded.Source Unhardcoded.Source.AutoPolicies Unhardcoded.Source.PolicySelection
open DecisionAnswers (require rational)
open FlowRouting (item)
open Guarantees.DecisionAnswers (require_ok validateAnswer_sound)

section Property

/-- What a returned contract goes back to. -/
structure Origin (setting : Setting) (rank : Nat → Fields → Except Raised Bool) (contract execution : Fields) where
  config : Value
  limits : Fields
  request : Fields
  mode : String
  percent : Int
  legal : List String
  configured : item (.obj execution) "automatic" = .ok config
  revalidated : validateConfig setting.normalize config = .ok limits
  constrained : constrainRequest contract limits = .ok request
  rolled : rollout setting.enabled execution = .ok (mode, percent)
  ranked : legalPolicies rank request 0 (config.field "policies").fields = .ok legal

variable {setting : Setting} {rank : Nat → Fields → Except Raised Bool} {contract execution : Fields}

def Origin.policies (origin : Origin setting rank contract execution) : Fields := (origin.config.field "policies").fields

def Origin.active (origin : Origin setting rank contract execution) : Bool :=
  isActive setting origin.mode origin.percent origin.config origin.request

/-- Off, in shadow, or outside the sample. -/
def Origin.Idle (origin : Origin setting rank contract execution) : Prop :=
  origin.mode = "off" ∨ origin.mode = "shadow" ∨ origin.mode = "sampled" ∧ origin.percent ≤
    setting.cohort (setting.configHash origin.config)
      ((PolicySelection.get origin.request "session").orElse (.str setting.decisionId))

/-- The provider saw the legal policies and gave a valid and certain answer for this one. -/
structure Answered (setting : Setting) (decide : DecisionRequest → PolicySelection.Reply) (config : Value) (request : Fields)
    (legal : List String) (selected : String) (asked : DecisionRequest) (attributes : Fields) (answer : DecisionAnswers.Answer) :
    Prop where
  made : requestOf setting request config (config.field "policies").fields legal = .ok asked
  shown : asked.choices.map (·.1) = legal
  replied : decide asked = .result attributes
  valid : answerOf setting attributes legal = .ok answer
  chosen : answer.selected = selected
  known : answer.confidence.isNull = false
  confident : rational (config.field "min_confidence") ≤ rational answer.confidence
  entropy : ∃ entropy, answer.entropy = some entropy ∧ entropy ≤ rational (config.field "max_normalized_entropy")

/-- The engine accepted a contract in the last recheck, the first from this call on. -/
def LastAccepted (rank : Nat → Fields → Except Raised Bool) (call : Nat) (returned : Fields) : Prop :=
  rank call returned = .ok true ∨ (∃ refused, rank call refused = .ok false) ∧ rank (call + 1) returned = .ok true

/-- No pin, and the limits on tokens and time. -/
structure Constrained (limits returned : Fields) : Prop where
  unpinned : ∃ requirements, returned.lookup "requirements" = some (.obj requirements) ∧ requirements.lookup "pin" = none
  tokens : ∃ maximum n, limits.lookup "max_output_tokens" = some (.int maximum) ∧
    returned.lookup "max_tokens" = some (.int n) ∧ n ≤ maximum
  timeout : returned.lookup "timeout_ms" = some (milliseconds limits "timeout_seconds")
  firstToken : returned.lookup "first_token_timeout_ms" = some (milliseconds limits "timeout_seconds")

/-- The policy under a name is legal for a contract that is returned. -/
structure Legal (origin : Origin setting rank contract execution) (decide : DecisionRequest → PolicySelection.Reply)
    (selected : String) (returned : Fields) : Prop where
  built : ∃ policy, origin.policies.lookup selected = some policy ∧ withPolicy origin.request policy = .ok returned
  accepted : LastAccepted rank origin.policies.length returned
  chosen : selected ≠ "general" → origin.active = true ∧ selected ∈ origin.legal ∧ ∃ asked attributes answer,
    Answered setting decide origin.config origin.request origin.legal selected asked attributes answer
  constrained : Constrained origin.limits returned

end Property

section Steps

theorem item_obj {fields : Fields} {name : String} {value : Value} :
    item (.obj fields) name = .ok value ↔ fields.lookup name = some value := by
  unfold item
  rw [show (Value.obj fields).fields = fields from rfl]
  cases fields.lookup name with
  | none => simp
  | some found => simp

theorem withPolicy_ok {contract : Fields} {policy : Value} {returned : Fields} (h : withPolicy contract policy = .ok returned) :
    ∃ ir, returned = insert "policy_ir" ir contract := by
  obtain ⟨ir, -, h⟩ := ok_of_bind h
  exact ⟨ir, (Except.ok.inj h).symm⟩

variable {rank : Nat → Fields → Except Raised Bool}

/-- What the recheck settles on. -/
theorem recheck_ok {contract policies trace trace' : Fields} {call : Nat} {selected final : String}
    (h : recheck rank contract policies call selected trace = .ok (final, trace')) :
    ∃ policy returned, policies.lookup final = some policy ∧ withPolicy contract policy = .ok returned ∧
      LastAccepted rank call returned ∧ (final ≠ "general" → final = selected) := by
  obtain ⟨proposed, found, h⟩ := ok_of_bind h
  obtain ⟨request, built, h⟩ := ok_of_bind h
  obtain ⟨accepted, ranked, h⟩ := ok_of_bind h
  cases accepted with
  | true =>
    obtain ⟨rfl, -⟩ := Prod.mk.inj (Except.ok.inj h)
    exact ⟨proposed, request, item_obj.mp found, built, .inl ranked, fun _ => rfl⟩
  | false =>
    obtain ⟨general, found', h⟩ := ok_of_bind h
    obtain ⟨request', built', h⟩ := ok_of_bind h
    obtain ⟨accepted', ranked', h⟩ := ok_of_bind h
    cases accepted' with
    | true =>
      obtain ⟨rfl, -⟩ := Prod.mk.inj (Except.ok.inj h)
      exact ⟨general, request', item_obj.mp found', built', .inr ⟨⟨request, ranked⟩, ranked'⟩, fun other => absurd rfl other⟩
    | false => cases h

end Steps

section Provider

theorem requestOf_choices {setting : Setting} {contract policies : Fields} {config : Value} {legal : List String}
    {asked : DecisionRequest} (h : requestOf setting contract config policies legal = .ok asked) :
    asked.choices.map (·.1) = legal := by
  obtain ⟨state, -, h⟩ := ok_of_bind h
  obtain ⟨choices, described, h⟩ := ok_of_bind h
  cases h
  refine (map_mapM (h := id) ?_ described).trans (List.map_id _)
  intro name entry h
  obtain ⟨policy, -, h⟩ := ok_of_bind h
  obtain ⟨description, -, h⟩ := ok_of_bind h
  cases h
  rfl

theorem answerOf_mem {setting : Setting} {attributes : Fields} {legal : List String} {answer : DecisionAnswers.Answer}
    (h : answerOf setting attributes legal = .ok answer) : answer.selected ∈ legal := by
  obtain ⟨selected, -, h⟩ := ok_of_bind h
  obtain ⟨probabilities, -, h⟩ := ok_of_bind h
  obtain ⟨confidence, -, h⟩ := ok_of_bind h
  obtain ⟨model, -, h⟩ := ok_of_bind h
  exact (validateAnswer_sound _ _ _ h).1

theorem certain_iff {config : Value} {answer : DecisionAnswers.Answer} :
    certain config answer = true ↔ answer.confidence.isNull = false ∧
      rational (config.field "min_confidence") ≤ rational answer.confidence ∧
      ∃ entropy, answer.entropy = some entropy ∧ entropy ≤ rational (config.field "max_normalized_entropy") := by
  unfold certain
  cases answer.entropy with
  | none => simp
  | some entropy => simp [and_assoc]

theorem attempt_ok {α : Type} {trace : Fields} {x : Except Raised α} {a : α} : attempt trace x = .ok a ↔ x = .ok a := by
  unfold attempt
  cases x with
  | error e => simp
  | ok b => simp

variable {setting : Setting} {config : Value} {active : Bool} {legal : List String}

/-- A reply that leads away from the fallback. -/
theorem readReply_ok {trace ended : Fields} {reply : PolicySelection.Reply} {selected : String}
    (h : readReply setting config active legal trace reply = .ok (selected, ended)) (other : selected ≠ "general") :
    active = true ∧ ∃ attributes answer, reply = .result attributes ∧ answerOf setting attributes legal = .ok answer ∧
      answer.selected = selected ∧ certain config answer = true := by
  cases reply with
  | decisionError reason costUsd attempts => cases h
  | timeout => cases h
  | raised e => cases h
  | result attributes =>
    obtain ⟨costUsd, -, h⟩ := ok_of_bind h
    obtain ⟨attempts, -, h⟩ := ok_of_bind h
    obtain ⟨answer, valid, h⟩ := ok_of_bind h
    obtain ⟨more, -, h⟩ := ok_of_bind h
    split at h
    · exact absurd (Prod.mk.inj (Except.ok.inj h)).1.symm other
    · rename_i sure
      have chosen := (Prod.mk.inj (Except.ok.inj h)).1
      cases active with
      | false => exact absurd chosen.symm other
      | true => exact ⟨rfl, attributes, answer, rfl, attempt_ok.mp valid, chosen, by simpa using sure⟩

variable {decide : DecisionRequest → PolicySelection.Reply} {contract : Fields}

theorem consult_ok {trace ended : Fields} {selected : String}
    (h : consult setting decide contract config active legal trace = .ok (selected, ended)) (other : selected ≠ "general") :
    active = true ∧ selected ∈ legal ∧ ∃ asked attributes answer,
      Answered setting decide config contract legal selected asked attributes answer := by
  unfold consult at h
  dsimp only at h
  split at h
  · rename_i tried
    cases h
    obtain ⟨asked, made, read⟩ := ok_of_bind tried
    obtain ⟨on, attributes, answer, replied, valid, chosen, sure⟩ := readReply_ok read other
    obtain ⟨known, confident, entropy⟩ := certain_iff.mp sure
    have made := attempt_ok.mp made
    exact ⟨on, chosen ▸ answerOf_mem valid, asked, attributes, answer,
      ⟨made, requestOf_choices made, replied, valid, chosen, known, confident, entropy⟩⟩
  · rename_i failed trace' _
    obtain ⟨left, handled, h⟩ := ok_of_bind h
    cases h
    cases kept : handle trace' failed with
    | error e =>
      rw [kept] at handled
      cases handled
    | ok trace'' =>
      rw [kept] at handled
      cases handled
      exact absurd rfl other

/-- The choice leaves `general` for a certain answer of an active rollout only. -/
theorem choose_ok {mode : String} {trace ended : Fields} {selected : String} (fallback : "general" ∈ legal)
    (h : choose setting decide contract config mode active legal trace = .ok (selected, ended)) (other : selected ≠ "general") :
    active = true ∧ selected ∈ legal ∧ ∃ asked attributes answer,
      Answered setting decide config contract legal selected asked attributes answer := by
  unfold choose at h
  split at h
  · cases h
    exact absurd rfl other
  · split at h
    · rename_i single
      obtain ⟨name, rfl⟩ := List.length_eq_one_iff.mp single
      cases h
      exact absurd (List.mem_singleton.mp fallback).symm other
    · exact consult_ok h other

end Provider

section Limits

/-- The limit on tokens of a validated configuration is an integer. -/
theorem validateConstraints_maximum {value : Value} {limits : Fields} (h : validateConstraints value = .ok limits) :
    ∃ maximum, limits.lookup "max_output_tokens" = some (.int maximum) := by
  obtain ⟨_, -, h⟩ := ok_of_bind h
  obtain ⟨_, -, h⟩ := ok_of_bind h
  obtain ⟨_, -, h⟩ := ok_of_bind h
  obtain ⟨_, -, h⟩ := ok_of_bind h
  obtain ⟨_, -, h⟩ := ok_of_bind h
  obtain ⟨_, -, h⟩ := ok_of_bind h
  obtain ⟨_, counted, h⟩ := ok_of_bind h
  obtain ⟨_, -, h⟩ := ok_of_bind h
  obtain ⟨_, -, h⟩ := ok_of_bind h
  obtain ⟨_, -, h⟩ := ok_of_bind h
  cases h
  have counted := require_ok.mp counted
  unfold AutoPolicies.read at counted
  cases found : (merge defaults value.fields).lookup "max_output_tokens" with
  | none =>
    rw [found] at counted
    cases counted
  | some limit =>
    rw [found] at counted
    cases limit with
    | int maximum => exact ⟨maximum, rfl⟩
    | _ => cases counted

theorem validateConfig_maximum {normalize : Value → Except Raised Value} {config : Value} {limits : Fields}
    (h : validateConfig normalize config = .ok limits) : ∃ maximum, limits.lookup "max_output_tokens" = some (.int maximum) := by
  obtain ⟨_, -, h⟩ := ok_of_bind h
  obtain ⟨_, -, h⟩ := ok_of_bind h
  obtain ⟨_, -, h⟩ := ok_of_bind h
  obtain ⟨_, -, h⟩ := ok_of_bind h
  obtain ⟨_, -, h⟩ := ok_of_bind h
  obtain ⟨_, -, h⟩ := ok_of_bind h
  obtain ⟨_, -, h⟩ := ok_of_bind h
  obtain ⟨limits', validated, h⟩ := ok_of_bind h
  obtain ⟨_, -, h⟩ := ok_of_bind h
  obtain ⟨bundle, -, h⟩ := ok_of_bind h
  obtain ⟨_, -, h⟩ := ok_of_bind h
  cases h
  exact validateConstraints_maximum validated

/-- The limit on tokens that a request is given. -/
theorem limited_le {maximum : Int} (supplied : Value) :
    ∃ n, (match Value.int maximum, supplied with
      | .int maximum, .int supplied => if 0 < supplied then .int (min maximum supplied) else .int maximum
      | maximum, _ => maximum) = Value.int n ∧ n ≤ maximum := by
  cases supplied with
  | int supplied =>
    by_cases positive : 0 < supplied
    · exact ⟨min maximum supplied, if_pos positive, min_le_left _ _⟩
    · exact ⟨maximum, if_neg positive, le_refl _⟩
  | _ => exact ⟨maximum, rfl, le_refl _⟩

theorem constrainRequest_constrained {contract limits request : Fields} {maximum : Int}
    (limit : limits.lookup "max_output_tokens" = some (.int maximum)) (h : constrainRequest contract limits = .ok request) :
    Constrained limits request := by
  obtain ⟨required, -, h⟩ := ok_of_bind h
  obtain ⟨needs, -, h⟩ := ok_of_bind h
  obtain ⟨messages, -, h⟩ := ok_of_bind h
  obtain ⟨format, -, h⟩ := ok_of_bind h
  have maximum_eq : AutoPolicies.read limits "max_output_tokens" = .int maximum := by
    unfold AutoPolicies.read
    rw [limit]
    rfl
  rw [maximum_eq] at h
  obtain rfl := Except.ok.inj h
  constructor
  case unpinned =>
    refine ⟨_, ((lookup_insert_of_ne (by decide) _ _).trans (lookup_insert_of_ne (by decide) _ _)).trans
      ((lookup_insert_of_ne (by decide) _ _).trans (lookup_insert_self _ _ _)), ?_⟩
    rw [lookup_insert_of_ne (by decide), lookup_erase, if_pos rfl]
  case tokens =>
    obtain ⟨n, limited, le⟩ := @limited_le maximum _
    refine ⟨maximum, n, limit, ?_, le⟩
    rw [lookup_insert_of_ne (by decide), lookup_insert_of_ne (by decide), lookup_insert_self]
    exact congrArg some limited
  case timeout => rw [lookup_insert_of_ne (by decide), lookup_insert_self]
  case firstToken => rw [lookup_insert_self]

theorem Constrained.withPolicy {limits request returned : Fields} {policy : Value} (constrained : Constrained limits request)
    (h : PolicySelection.withPolicy request policy = .ok returned) : Constrained limits returned := by
  obtain ⟨ir, rfl⟩ := withPolicy_ok h
  obtain ⟨⟨requirements, required, unpinned⟩, ⟨maximum, n, limit, tokens, le⟩, timeout, firstToken⟩ := constrained
  refine ⟨⟨requirements, ?_, unpinned⟩, ⟨maximum, n, limit, ?_, le⟩, ?_, ?_⟩
  · rw [lookup_insert_of_ne (by decide), required]
  · rw [lookup_insert_of_ne (by decide), tokens]
  · rw [lookup_insert_of_ne (by decide), timeout]
  · rw [lookup_insert_of_ne (by decide), firstToken]

end Limits

section Run

variable {setting : Setting} {rank : Nat → Fields → Except Raised Bool} {decide : DecisionRequest → PolicySelection.Reply}
  {contract execution : Fields}

/-- A contract that is returned, taken apart along the run. -/
theorem selectPolicy_ok {trace trace' returned : Fields}
    (h : selectPolicy rank setting decide contract execution trace = .ok (returned, trace')) :
    ∃ origin : Origin setting rank contract execution, ∃ selected, Legal origin decide selected returned := by
  obtain ⟨config, configured, h⟩ := ok_of_bind h
  obtain ⟨limits, revalidated, h⟩ := ok_of_bind h
  obtain ⟨request, constrained, h⟩ := ok_of_bind h
  obtain ⟨⟨mode, percent⟩, rolled, h⟩ := ok_of_bind h
  obtain ⟨legal, ranked, h⟩ := ok_of_bind h
  obtain ⟨_, fallback, h⟩ := ok_of_bind h
  obtain ⟨⟨selected, trace₁⟩, chosen, h⟩ := ok_of_bind h
  obtain ⟨⟨final, trace₂⟩, rechecked, h⟩ := ok_of_bind h
  obtain ⟨policy, found, h⟩ := ok_of_bind h
  obtain ⟨identity, -, h⟩ := ok_of_bind h
  obtain ⟨_, -, h⟩ := ok_of_bind h
  obtain ⟨returned', built, h⟩ := ok_of_bind h
  cases h
  obtain ⟨policy', accepted, found', built', last, kept⟩ := recheck_ok rechecked
  have same : policy' = policy := Option.some.inj (found'.symm.trans (item_obj.mp found))
  subst same
  have same : accepted = returned := Except.ok.inj (built'.symm.trans built)
  subst same
  obtain ⟨maximum, limit⟩ := validateConfig_maximum revalidated
  refine ⟨⟨config, limits, request, mode, percent, legal, configured, revalidated, constrained, rolled, ranked⟩, final,
    ⟨policy', found', built'⟩, last, fun other => ?_, (constrainRequest_constrained limit constrained).withPolicy built'⟩
  have same := kept other
  subst same
  exact choose_ok (of_decide_eq_true (require_ok.mp fallback)) chosen other

theorem Origin.Idle.inactive {origin : Origin setting rank contract execution} (idle : origin.Idle) : origin.active = false := by
  unfold Origin.active isActive
  rcases idle with off | shadow | ⟨sampled, outside⟩
  · rw [off]
    rfl
  · rw [shadow]
    rfl
  · rw [sampled, decide_eq_false (by decide : ¬ "sampled" = "active"), decide_eq_false (not_lt.mpr outside)]
    rfl

/-- The parts of a run before the choice are those of every run of the request. -/
theorem Origin.unique (origin origin' : Origin setting rank contract execution) : origin = origin' := by
  obtain ⟨config, limits, request, mode, percent, legal, configured, revalidated, constrained, rolled, ranked⟩ := origin
  obtain ⟨config', limits', request', mode', percent', legal', configured', revalidated', constrained', rolled', ranked'⟩ :=
    origin'
  obtain rfl : config = config' := Except.ok.inj (configured.symm.trans configured')
  obtain rfl : limits = limits' := Except.ok.inj (revalidated.symm.trans revalidated')
  obtain rfl : request = request' := Except.ok.inj (constrained.symm.trans constrained')
  obtain ⟨rfl, rfl⟩ := Prod.mk.inj (Except.ok.inj (rolled.symm.trans rolled'))
  obtain rfl : legal = legal' := Except.ok.inj (ranked.symm.trans ranked')
  rfl

/-- Where the rollout is not active, the policy is the fallback. -/
theorem Legal.fallback {origin : Origin setting rank contract execution} {selected : String} {returned : Fields}
    (legal : Legal origin decide selected returned) (inactive : origin.active = false) : selected = "general" := by
  by_contra other
  rw [(legal.chosen other).1] at inactive
  cases inactive

/-- The policy of a returned contract is legal, and without an active rollout the provider has no say in it. -/
theorem selection_stays_legal {trace trace' returned : Fields}
    (returns : selectPolicy rank setting decide contract execution trace = .ok (returned, trace')) :
    ∃ origin : Origin setting rank contract execution, ∃ selected, Legal origin decide selected returned ∧
      (origin.Idle → ∀ (decide' : DecisionRequest → PolicySelection.Reply) (given ended returned' : Fields),
        selectPolicy rank setting decide' contract execution given = .ok (returned', ended) → returned' = returned) := by
  obtain ⟨origin, selected, legal⟩ := selectPolicy_ok returns
  refine ⟨origin, selected, legal, fun idle decide' given ended returned' returns' => ?_⟩
  obtain ⟨origin', selected', legal'⟩ := selectPolicy_ok returns'
  obtain rfl := origin.unique origin'
  obtain rfl := legal.fallback idle.inactive
  obtain rfl := legal'.fallback idle.inactive
  obtain ⟨policy, found, built⟩ := legal.built
  obtain ⟨policy', found', built'⟩ := legal'.built
  obtain rfl : policy = policy' := Option.some.inj (found.symm.trans found')
  exact Except.ok.inj (built'.symm.trans built)

end Run

section Desk

/-- A normal form that keeps the term. -/
def plain (ir : Value) : Except Raised Value :=
  .ok (.obj [("policy_ir", ir), ("policy_id", .str "p"), ("version", .int 1), ("fingerprint", .str "f")])

/-- The logarithms of one and two as doubles. -/
def desk : Setting :=
  ⟨plain, true, "d", fun _ => "h", fun _ _ => 42, fun q => if q = 2 then 6243314768165359 / 2 ^ 53 else q - 1, fun _ => some 2, 7⟩

def deskPolicies : Fields :=
  match buildBundle plain ["general", "conversation"] (.obj []) with
  | .ok bundle => bundle
  | .error _ => []

def deskExecution : Fields :=
  [("automatic", .obj [("version", .int 1), ("catalog_version", .str "auto/v1"), ("fallback", .str "general"),
      ("provider", .str "openrouter"), ("model", .str "typesafe/jev-1.13"), ("instruction_version", .str "workload/v1"),
      ("allow_decision_content", .bool true), ("use_case", .str "Support"), ("min_confidence", number (1 / 2)),
      ("max_normalized_entropy", number (1 / 2)), ("decision_timeout_ms", .int 1500), ("constraints", .obj []),
      ("policies", .obj deskPolicies)]),
    ("automatic_mode", .str "active")]

def deskRequest : Fields :=
  [("messages", .arr [.obj [("role", .str "user"), ("content", .str "Hi")]]), ("max_tokens", .int 9000),
    ("requirements", .obj [("pin", .str "a|m")])]

def deskReply : PolicySelection.Reply :=
  .result [("selected_id", .str "conversation"), ("probabilities", .obj [("general", .int 0), ("conversation", .int 1)]),
    ("confidence", number (9 / 10)), ("model", .str "jev-1.13"), ("provider", .str "openrouter"),
    ("cost_usd", number (1 / 1000)), ("attempts", .int 1)]

/-- A certain answer that is taken. -/
theorem selection_stays_legal_desk :
    ∃ returned trace, selectPolicy (fun _ _ => .ok true) desk (fun _ => deskReply) deskRequest deskExecution [] =
        .ok (returned, trace) ∧ (PolicySelection.get trace "selected_id").isText "conversation" = true ∧
      ∃ origin : Origin desk (fun _ _ => .ok true) deskRequest deskExecution, ∃ selected,
        Legal origin (fun _ => deskReply) selected returned := by
  have taken : (match selectPolicy (fun _ _ => .ok true) desk (fun _ => deskReply) deskRequest deskExecution [] with
      | .ok (_, trace) => (PolicySelection.get trace "selected_id").isText "conversation"
      | .error _ => false) = true := by
    decide +kernel
  cases run : selectPolicy (fun _ _ => .ok true) desk (fun _ => deskReply) deskRequest deskExecution [] with
  | error e =>
    rw [run] at taken
    cases taken
  | ok result =>
    obtain ⟨returned, trace⟩ := result
    rw [run] at taken
    obtain ⟨origin, selected, legal, -⟩ := selection_stays_legal run
    exact ⟨returned, trace, rfl, taken, origin, selected, legal⟩

end Desk

end Unhardcoded.Guarantees.PolicySelection

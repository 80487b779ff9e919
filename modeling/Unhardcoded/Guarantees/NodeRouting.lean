import Unhardcoded.Guarantees.DecisionAnswers
import Unhardcoded.Guarantees.RoutingState
import Unhardcoded.Source.FlowRouting

/-!
# Which policy a flow node runs

A routing call ends in the policy of a declared choice, whatever the call returned. It is
the policy of the choice that a valid and confident answer names, unless reading the
result fails first: the trace wants `probabilities`, which an answer may leave out, and
the cost and the model of a call are worked out before its decision is looked at
(`Readable`).
-/

namespace Unhardcoded.Guarantees.NodeRouting

open Unhardcoded.Python Unhardcoded.Source Unhardcoded.Source.DecisionAnswers Unhardcoded.Source.FlowRouting
open Body (exec_bind exec_modify exec_raise lift_ok lift_error raise_bind)
open Guarantees.DecisionAnswers (get_ok require_ok choiceOf_ok sameKeys_iff)

/-- A routing specification names one of its choices as the fallback. -/
structure Declared where
  routing : Routing
  fallback : Choice
  declared : routing.choices.lookup routing.fallback = some fallback

variable (log : ℚ → ℚ) (decimals : String → Option Nat)

section Decided

/-- The answer to the routing question in a result. -/
def answerOf (decision : Decision) : Value := decision.answers.field "route"

/-- The decision of a result. -/
def decisionOf (result : Value) : Value := (result.field "response").orDict.field "decision"

/-- The call returned in time with a valid and confident answer that names a choice. -/
structure Decided (routing : Routing) (payload : Json) (outcome : Outcome) (result answer : Value) (choice : String) : Prop where
  sendable : DecisionProtocol.validatePayload payload = .ok payload
  returned : outcome = .returned result
  succeeded : (result.field "ok").truthy = true
  valid : ∃ decision, validateResponse log decimals routing.questions (decisionOf result) = .ok decision ∧
    answerOf decision = answer
  known : (answer.field "confidence").isNull = false
  confident : routing.minConfidence ≤ rational (answer.field "confidence")
  named : answer.field "choice" = .str choice

/-- What is read besides the decision is there: the cost can be worked out, the chosen model
is a dictionary or nothing, and the answer has its probabilities. -/
structure Readable (result answer : Value) : Prop where
  cost : ∃ cost, resultCost result = .ok cost
  chosen : (result.field "chosen").orDict.isObj = true
  probabilities : (answer.fields.lookup "probabilities").isSome = true

end Decided

section Valid

theorem isNull_of_isObj {v : Value} (h : v.isObj = true) : v.isNull = false := by
  cases v with
  | obj fields => rfl
  | _ => cases h

theorem lookup_of_field {v found : Value} {key : String} (present : found.isNull = false) (h : v.field key = found) :
    v.fields.lookup key = some found := by
  unfold Value.field at h
  cases entry : v.fields.lookup key with
  | none =>
    rw [entry] at h
    subst h
    cases present
  | some value =>
    rw [entry] at h
    exact congrArg some h

theorem choice_of_validateAnswer {decimals : Option Nat} {choices : List String} {answer : Value} {valid : Answer}
    (h : validateAnswer log decimals choices answer = .ok valid) :
    answer.isObj = true ∧ valid.selected ∈ choices ∧ answer.field "choice" = .str valid.selected := by
  unfold validateAnswer at h
  obtain ⟨_, shape, h⟩ := ok_of_bind h
  obtain ⟨selected, chosen, h⟩ := ok_of_bind h
  obtain ⟨_, -, h⟩ := ok_of_bind h
  obtain ⟨_, -, h⟩ := ok_of_bind h
  obtain ⟨_, -, h⟩ := ok_of_bind h
  cases h
  obtain ⟨mem, text⟩ := (choiceOf_ok choices).mp chosen
  rw [require_ok, Bool.and_eq_true] at shape
  exact ⟨shape.1, mem, text⟩

theorem ok_of_asValueError {α : Type} {x : Except Raised α} {a : α} (h : asValueError x = .ok a) : x = .ok a := by
  unfold asValueError at h
  split at h
  · cases h
  · exact h

/-- The routing question. -/
def questionOf (routing : Routing) : Json :=
  .obj [("type", .str "choice"), ("instructions", .str routing.instructions),
    ("criteria", .obj (routing.choices.map fun entry => (entry.1, entry.2.description)))]

theorem type_questionOf (routing : Routing) : (questionOf routing).field "type" = .str "choice" := rfl

theorem names_questionOf (routing : Routing) :
    DecisionProtocol.names ((questionOf routing).field "criteria") = routing.choices.map (·.1) := by
  have criteria : (questionOf routing).field "criteria" =
      .obj (routing.choices.map fun entry => (entry.1, entry.2.description)) := rfl
  rw [criteria, DecisionProtocol.names, DecisionProtocol.fields, List.map_map]
  rfl

/-- An answer that is valid for the routing question names a choice. -/
theorem choice_of_validateReply {routing : Routing} {decimals : Option Nat} {answer : Value}
    (h : validateReply log decimals (questionOf routing) answer = .ok ()) :
    answer.isObj = true ∧ ∃ choice, (routing.choices.lookup choice).isSome = true ∧ answer.field "choice" = .str choice := by
  unfold validateReply at h
  obtain ⟨_, -, h⟩ := ok_of_bind h
  obtain ⟨_, -, h⟩ := ok_of_bind h
  obtain ⟨_, -, h⟩ := ok_of_bind h
  unfold validateKind at h
  rw [type_questionOf, names_questionOf] at h
  have checked : (asValueError (validateAnswer log decimals (routing.choices.map (·.1)) answer)).map (fun _ => ()) = .ok () := h
  cases result : asValueError (validateAnswer log decimals (routing.choices.map (·.1)) answer) with
  | error e =>
    rw [result] at checked
    cases checked
  | ok valid =>
    obtain ⟨isObj, mem, text⟩ := choice_of_validateAnswer log (ok_of_asValueError result)
    obtain ⟨entry, within, same⟩ := List.mem_map.mp mem
    refine ⟨isObj, valid.selected, ?_, text⟩
    rw [List.lookup_isSome_iff]
    exact ⟨entry, within, by simp [same]⟩

/-- A valid decision answers the routing question, with one of the choices. -/
theorem answer_of_valid {routing : Routing} {data : Value} {decision : Decision}
    (h : validateResponse log decimals routing.questions data = .ok decision) :
    decision.answers.fields.lookup "route" = some (answerOf decision) ∧ (answerOf decision).isObj = true ∧
      ∃ choice, (routing.choices.lookup choice).isSome = true ∧ (answerOf decision).field "choice" = .str choice := by
  unfold validateResponse at h
  obtain ⟨model, -, h⟩ := ok_of_bind h
  obtain ⟨_, -, h⟩ := ok_of_bind h
  obtain ⟨_, replies, h⟩ := ok_of_bind h
  obtain ⟨_, -, h⟩ := ok_of_bind h
  cases h
  obtain ⟨_, reply, -⟩ := ok_of_bind replies
  obtain ⟨isObj, choice⟩ := choice_of_validateReply log reply
  exact ⟨lookup_of_field (isNull_of_isObj isObj) rfl, isObj, choice⟩

end Valid

section Run

/-- The selection of a trace is that of another. -/
def Same (s t : Trace) : Prop := t.selected = s.selected ∧ t.fallbackUsed = s.fallbackUsed

theorem handle_same (t : Trace) (e : Raised) : Same t (t.handle e) := by
  unfold Trace.handle
  split_ifs <;> exact ⟨rfl, rfl⟩

theorem dicts_of_resultCost {result : Value} {cost : Option Operand} (h : resultCost result = .ok cost) :
    result.isObj = true ∧ (result.field "response").orDict.isObj = true := by
  unfold resultCost at h
  obtain ⟨response, found, h⟩ := ok_of_bind h
  obtain ⟨chosen, -, h⟩ := ok_of_bind h
  obtain ⟨reported, got, -⟩ := ok_of_bind h
  obtain ⟨isObj, rfl⟩ := get_ok.mp found
  exact ⟨isObj, (get_ok.mp got).1⟩

/-- What is read of a result before its decision can be read. -/
def Costed (result : Value) : Prop :=
  (∃ cost, resultCost result = .ok cost) ∧ (result.field "chosen").orDict.isObj = true

/-- Reading the rest of a result leaves the selection alone. -/
theorem readResult_cases (result : Value) (s : Trace) :
    (Costed result ∧ ∃ t, Same s t ∧ (readResult result).exec s = (.ok (), t)) ∨
      (¬Costed result ∧ ∃ e t, Same s t ∧ (readResult result).exec s = (.error e, t)) := by
  unfold readResult Costed
  cases cost : resultCost result with
  | error e => exact .inr ⟨by simp, .raised e, s, ⟨rfl, rfl⟩, by simp⟩
  | ok cost =>
    obtain ⟨isObj, response⟩ := dicts_of_resultCost cost
    have get (key : String) : result.get key = .ok (result.field key) := get_ok.mpr ⟨isObj, rfl⟩
    have tokens (key : String) : (result.field "response").orDict.get key = .ok ((result.field "response").orDict.field key) :=
      get_ok.mpr ⟨response, rfl⟩
    cases chosen : (result.field "chosen").orDict.isObj with
    | true =>
      have model : (result.field "chosen").orDict.get "served_model_id" = .ok _ := get_ok.mpr ⟨chosen, rfl⟩
      refine .inl ⟨⟨⟨_, rfl⟩, rfl⟩, ?_⟩
      simp only [lift_ok, pure_bind, exec_bind, exec_modify, get, tokens, model]
      refine ⟨_, ?_, rfl⟩
      exact ⟨rfl, rfl⟩
    | false =>
      have model : (result.field "chosen").orDict.get "served_model_id" = .error .attributeError := by
        simp [Value.get, chosen]
      refine .inr ⟨by simp, ?_⟩
      simp only [lift_ok, lift_error, pure_bind, raise_bind, exec_bind, exec_modify, exec_raise, get, tokens, model]
      refine ⟨_, _, ?_, rfl⟩
      exact ⟨rfl, rfl⟩

/-- An answer that is confident enough. -/
def Sure (routing : Routing) (answer : Value) : Prop :=
  (answer.field "confidence").isNull = false ∧ routing.minConfidence ≤ rational (answer.field "confidence")

/-- Reading a valid decision selects its choice if the answer is confident and has its
probabilities, and otherwise leaves the selection alone. -/
theorem readDecision_cases {routing : Routing} {result : Value} {decision : Decision} {choice : String}
    (valid : validateResponse log decimals routing.questions (decisionOf result) = .ok decision)
    (named : (answerOf decision).field "choice" = .str choice) (s : Trace) :
    ((Sure routing (answerOf decision) ∧ ((answerOf decision).fields.lookup "probabilities").isSome = true) ∧
        ∃ t, t.selected = .str choice ∧ t.fallbackUsed = false ∧ (readDecision log decimals routing result).exec s = (.ok (), t)) ∨
      (¬(Sure routing (answerOf decision) ∧ ((answerOf decision).fields.lookup "probabilities").isSome = true) ∧
        Same s ((readDecision log decimals routing result).exec s).2) := by
  obtain ⟨route, isObj, -⟩ := answer_of_valid log decimals valid
  have answer : item decision.answers "route" = .ok (answerOf decision) := by rw [item, route]
  have get : (answerOf decision).get "confidence" = .ok ((answerOf decision).field "confidence") := get_ok.mpr ⟨isObj, rfl⟩
  have proposed : item (answerOf decision) "choice" = .ok (.str choice) := by rw [item, lookup_of_field rfl named]
  unfold decisionOf at valid
  unfold readDecision
  cases probabilities : (answerOf decision).fields.lookup "probabilities" with
  | none =>
    have missing : item (answerOf decision) "probabilities" = .error (.other "KeyError" "probabilities") := by
      rw [item, probabilities]
    refine .inr ⟨by simp, ?_⟩
    simp only [valid, answer, get, proposed, missing, lift_ok, lift_error, pure_bind, raise_bind, exec_raise]
    exact ⟨rfl, rfl⟩
  | some p =>
    have found : item (answerOf decision) "probabilities" = .ok p := by rw [item, probabilities]
    simp only [valid, answer, get, proposed, found, lift_ok, pure_bind, exec_bind, exec_modify]
    by_cases sure : Sure routing (answerOf decision)
    · have confident : ¬(((answerOf decision).field "confidence").isNull ||
          decide (rational ((answerOf decision).field "confidence") < routing.minConfidence)) = true := by
        simp [sure.1, sure.2]
      rw [if_neg confident]
      exact .inl ⟨⟨sure, rfl⟩, _, rfl, rfl, rfl⟩
    · have uncertain : (((answerOf decision).field "confidence").isNull ||
          decide (rational ((answerOf decision).field "confidence") < routing.minConfidence)) = true := by
        unfold Sure at sure
        rw [not_and_or, Bool.not_eq_false, not_le] at sure
        simpa using sure
      rw [if_pos uncertain]
      exact .inr ⟨fun both => sure both.1, rfl, rfl⟩

theorem payload_of_valid {payload p : Json} (h : DecisionProtocol.validatePayload payload = .ok p) : p = payload := by
  unfold DecisionProtocol.validatePayload at h
  obtain ⟨_, -, h⟩ := ok_of_bind h
  obtain ⟨_, -, h⟩ := ok_of_bind h
  obtain ⟨_, -, h⟩ := ok_of_bind h
  obtain ⟨_, -, h⟩ := ok_of_bind h
  obtain ⟨_, -, h⟩ := ok_of_bind h
  exact (Except.ok.inj h).symm

/-- The body of the `try` statement selects what was decided if the rest can be read, and
otherwise leaves the fallback in place. -/
theorem follow_cases (routing : Routing) (payload : Json) (outcome : Outcome) (s : Trace) :
    (∃ result answer choice, Decided log decimals routing payload outcome result answer choice ∧ Readable result answer ∧
        ∃ t, t.selected = .str choice ∧ t.fallbackUsed = false ∧ (follow log decimals routing payload outcome).exec s = (.ok (), t)) ∨
      ((∀ result answer choice, Decided log decimals routing payload outcome result answer choice → ¬Readable result answer) ∧
        Same s ((follow log decimals routing payload outcome).exec s).2) := by
  unfold follow
  cases sendable : DecisionProtocol.validatePayload payload with
  | error e =>
    refine .inr ⟨fun result answer choice decided => ?_, rfl, rfl⟩
    have := decided.sendable
    rw [sendable] at this
    cases this
  | ok p =>
    obtain rfl := payload_of_valid sendable
    simp only [lift_ok, pure_bind]
    cases outcome with
    | raised e => exact .inr ⟨fun result answer choice decided => (nomatch decided.returned), rfl, rfl⟩
    | returned result =>
      have same {result' answer : Value} {choice : String}
          (decided : Decided log decimals routing p (.returned result) result' answer choice) : result' = result :=
        (Outcome.returned.inj decided.returned).symm
      dsimp only
      rcases readResult_cases result s with ⟨costed, t, kept, ran⟩ | ⟨costless, e, t, kept, ran⟩
      · rw [exec_bind, ran]
        dsimp only
        cases succeeded : (result.field "ok").truthy with
        | false =>
          refine .inr ⟨fun result' answer choice decided => ?_, kept⟩
          have := decided.succeeded
          rw [same decided, succeeded] at this
          cases this
        | true =>
          rw [if_pos rfl]
          cases valid : validateResponse log decimals routing.questions (decisionOf result) with
          | error e =>
            refine .inr ⟨fun result' answer choice decided => ?_, ?_⟩
            · obtain ⟨decision, ok, -⟩ := decided.valid
              rw [same decided, valid] at ok
              cases ok
            · unfold readDecision
              unfold decisionOf at valid
              rw [valid]
              exact kept
          | ok decision =>
            obtain ⟨-, -, choice, -, named⟩ := answer_of_valid log decimals valid
            rcases readDecision_cases log decimals valid named t with ⟨⟨sure, present⟩, t', selected, unused, ran'⟩ | ⟨unsure, kept'⟩
            · refine .inl ⟨result, answerOf decision, choice,
                ⟨sendable, rfl, succeeded, ⟨decision, valid, rfl⟩, sure.1, sure.2, named⟩,
                ⟨costed.1, costed.2, present⟩, t', selected, unused, ran'⟩
            · refine .inr ⟨fun result' answer choice' decided readable => ?_, kept'.1.trans kept.1, kept'.2.trans kept.2⟩
              obtain ⟨decision', ok, rfl⟩ := decided.valid
              rw [same decided, valid] at ok
              obtain rfl := Except.ok.inj ok
              exact unsure ⟨⟨decided.known, decided.confident⟩, readable.probabilities⟩
      · rw [Body.exec_bind_error ran]
        refine .inr ⟨fun result' answer choice decided readable => costless ?_, kept⟩
        rw [← same decided]
        exact ⟨readable.cost, readable.chosen⟩

/-- The trace after the `try` statement. -/
theorem traceOf_cases (routing : Routing) (payload : Json) (outcome : Outcome) :
    (∃ result answer choice, Decided log decimals routing payload outcome result answer choice ∧ Readable result answer ∧
        (traceOf log decimals routing payload outcome).selected = .str choice ∧
        (traceOf log decimals routing payload outcome).fallbackUsed = false) ∨
      ((∀ result answer choice, Decided log decimals routing payload outcome result answer choice → ¬Readable result answer) ∧
        (traceOf log decimals routing payload outcome).selected = .str routing.fallback ∧
        (traceOf log decimals routing payload outcome).fallbackUsed = true) := by
  unfold traceOf
  rcases follow_cases log decimals routing payload outcome (.start routing.fallback) with
    ⟨result, answer, choice, decided, readable, t, selected, unused, ran⟩ | ⟨undecided, kept⟩
  · rw [ran]
    exact .inl ⟨result, answer, choice, decided, readable, selected, unused⟩
  · refine .inr ⟨undecided, ?_⟩
    revert kept
    cases (follow log decimals routing payload outcome).exec (.start routing.fallback) with
    | mk ended t =>
      intro kept
      cases ended with
      | ok value => exact kept
      | error exit =>
        cases exit with
        | raised e =>
          have handled := handle_same t e
          exact ⟨handled.1.trans kept.1, handled.2.trans kept.2⟩
        | returned value => cases value

end Run

section Honours

/-- The policy of the choice that was decided is returned, and the fallback's where nothing
was decided; the trace tells the two apart. -/
structure Honours (declared : Declared) (messages : List Json) (prompt : String) (outcome : Outcome) : Prop where
  decided : ∀ result answer choice,
    Decided log decimals declared.routing (declared.routing.payload messages prompt) outcome result answer choice →
    ∃ named trace, declared.routing.choices.lookup choice = some named ∧ trace.fallbackUsed = false ∧
      selectNodePolicy log decimals declared.routing messages prompt outcome = .ok (named.policy, trace)
  otherwise : (∀ result answer choice,
      ¬Decided log decimals declared.routing (declared.routing.payload messages prompt) outcome result answer choice) →
    ∃ trace, trace.fallbackUsed = true ∧
      selectNodePolicy log decimals declared.routing messages prompt outcome = .ok (declared.fallback.policy, trace)

theorem decided_declared {routing : Routing} {payload : Json} {outcome : Outcome} {result answer : Value} {choice : String}
    (decided : Decided log decimals routing payload outcome result answer choice) :
    ∃ named, routing.choices.lookup choice = some named := by
  obtain ⟨decision, valid, rfl⟩ := decided.valid
  obtain ⟨-, -, choice', found, named⟩ := answer_of_valid log decimals valid
  rw [decided.named] at named
  obtain rfl := Value.str.inj named
  exact Option.isSome_iff_exists.mp found

theorem decided_unique {routing : Routing} {payload : Json} {outcome : Outcome} {result result' answer answer' : Value}
    {choice choice' : String} (decided : Decided log decimals routing payload outcome result answer choice)
    (decided' : Decided log decimals routing payload outcome result' answer' choice') :
    result = result' ∧ answer = answer' ∧ choice = choice' := by
  have same := decided.returned.symm.trans decided'.returned
  obtain rfl := Outcome.returned.inj same
  obtain ⟨decision, valid, rfl⟩ := decided.valid
  obtain ⟨decision', valid', rfl⟩ := decided'.valid
  rw [valid] at valid'
  obtain rfl := Except.ok.inj valid'
  exact ⟨rfl, rfl, Value.str.inj (decided.named.symm.trans decided'.named)⟩

theorem select_of_selected (declared : Declared) (messages : List Json) (prompt : String) (outcome : Outcome) {name : String}
    {choice : Choice} (found : declared.routing.choices.lookup name = some choice)
    (selected : (traceOf log decimals declared.routing (declared.routing.payload messages prompt) outcome).selected = .str name) :
    selectNodePolicy log decimals declared.routing messages prompt outcome =
      .ok (choice.policy, traceOf log decimals declared.routing (declared.routing.payload messages prompt) outcome) := by
  unfold selectNodePolicy
  simp only [selected, Routing.policyOf, found]
  rfl

/-- Every call returns the policy of a declared choice. -/
theorem select_declared (declared : Declared) (messages : List Json) (prompt : String) (outcome : Outcome) :
    ∃ name choice trace, declared.routing.choices.lookup name = some choice ∧
      selectNodePolicy log decimals declared.routing messages prompt outcome = .ok (choice.policy, trace) := by
  rcases traceOf_cases log decimals declared.routing (declared.routing.payload messages prompt) outcome with
    ⟨_, _, name, decided, -, selected, -⟩ | ⟨-, selected, -⟩
  · obtain ⟨choice, found⟩ := decided_declared log decimals decided
    exact ⟨name, choice, _, found, select_of_selected log decimals declared messages prompt outcome found selected⟩
  · exact ⟨_, _, _, declared.declared, select_of_selected log decimals declared messages prompt outcome declared.declared selected⟩

/-- The decision is honoured exactly when what is read beside a decided answer can be read. -/
theorem honours_iff (declared : Declared) (messages : List Json) (prompt : String) (outcome : Outcome) :
    Honours log decimals declared messages prompt outcome ↔
      ∀ result answer choice,
        Decided log decimals declared.routing (declared.routing.payload messages prompt) outcome result answer choice →
        Readable result answer := by
  rcases traceOf_cases log decimals declared.routing (declared.routing.payload messages prompt) outcome with
    ⟨result, answer, name, decided, readable, selected, unused⟩ | ⟨unreadable, selected, used⟩
  · refine ⟨fun _ result' answer' name' decided' => ?_, fun _ => ⟨fun result' answer' name' decided' => ?_, fun none => ?_⟩⟩
    · obtain ⟨rfl, rfl, -⟩ := decided_unique log decimals decided decided'
      exact readable
    · obtain ⟨-, -, rfl⟩ := decided_unique log decimals decided decided'
      obtain ⟨choice, found⟩ := decided_declared log decimals decided
      exact ⟨choice, _, found, unused, select_of_selected log decimals declared messages prompt outcome found selected⟩
    · exact absurd decided (none result answer name)
  · have fallback := select_of_selected log decimals declared messages prompt outcome declared.declared selected
    refine ⟨fun honours result answer name decided => ?_, fun readable => ⟨fun result answer name decided => ?_, fun _ => ?_⟩⟩
    · obtain ⟨choice, trace, -, unused, ran⟩ := honours.decided result answer name decided
      rw [fallback] at ran
      obtain ⟨-, rfl⟩ := Prod.mk.inj (Except.ok.inj ran)
      rw [used] at unused
      cases unused
    · exact absurd (readable result answer name decided) (unreadable result answer name decided)
    · exact ⟨_, used, fallback⟩

/-- An answer for the deep choice, with a confidence and without probabilities. -/
def bareAnswer : Value :=
  .obj [("type", .str "choice"), ("choice", .str "deep"), ("confidence", .float (.fin 1))]

def bareResult : Value :=
  .obj [("ok", .bool true), ("response", .obj [("decision",
    .obj [("model", .str "jev-1"), ("answers", .obj [("route", bareAnswer)])])])]

/-- A valid and confident answer that leaves out its probabilities ends in the fallback. -/
theorem bare_answer_dropped :
    ¬Honours (fun q => q) (fun _ => none) ⟨RoutingState.terse.routing, ⟨.null, .null⟩, rfl⟩ [] "hi" (.returned bareResult) := by
  rw [honours_iff]
  intro readable
  have sendable : DecisionProtocol.validatePayload (RoutingState.terse.routing.payload [] "hi") = .ok _ :=
    (RoutingState.validatePayload_iff RoutingState.terse [] "hi").mpr (by decide +kernel)
  have valid : validateResponse (fun q => q) (fun _ => none) RoutingState.terse.routing.questions (decisionOf bareResult) =
      .ok ⟨"jev-1", .obj [("route", bareAnswer)], .obj []⟩ := rfl
  have confident : (1 / 2 : ℚ) ≤ rational (bareAnswer.field "confidence") := by
    have : rational (bareAnswer.field "confidence") = 1 := rfl
    norm_num [this]
  have absent := (readable bareResult bareAnswer "deep" ⟨sendable, rfl, rfl, ⟨_, valid, rfl⟩, rfl, confident, rfl⟩).probabilities
  cases absent

end Honours

end Unhardcoded.Guarantees.NodeRouting

import Unhardcoded.Source.FlowData

/-!
# Decision payloads and answers

`decision_protocol.py` with `validate_answer` of `decision_providers`: what a decision
request may ask, and which answers are valid for it. The sums and comparisons of the
probabilities of a distribution are floating point; they are fields of `Floats`.
-/

namespace Unhardcoded.Source.DecisionProtocol

open Unhardcoded.Python
open Unhardcoded.Source.FlowData (Fields has bytes valueError)

def MAX_REQUEST_BYTES : Nat := 32000

def refuse {α : Type} (message : String) : Except Raised α := .error (valueError message)

/-- `if not condition: raise ValueError(message)`. -/
def require (condition : Bool) (message : String) : Except Raised Unit :=
  if condition then .ok () else refuse message

theorem of_require {condition : Bool} {message : String} {u : Unit} (h : require condition message = .ok u) :
    condition = true := by
  unfold require at h
  split at h
  · assumption
  · cases h

/-- `set(fields) == names`. -/
def keysAre (fields : Fields) (names : List String) : Bool :=
  fields.all (fun entry => entry.1 ∈ names) && names.all (has fields)

section Payload

/-- `v is None`, or a text of at most 2000 characters. -/
def description : Json → Bool
  | .null => true
  | .str text => text.length ≤ 2000
  | _ => false

def values (fields : Fields) : List Json := fields.map (·.2)

/-- The entries of a dictionary. -/
def fields : Json → Fields
  | .obj fields => fields
  | _ => []

/-- `isinstance(v, str) and 1 <= len(v) <= limit`. -/
def textWithin (limit : Nat) : Json → Bool
  | .str text => 1 ≤ text.length && text.length ≤ limit
  | _ => false

/-- The descriptions of the criteria of a question. -/
def criteriaValues (kind criteria : Json) : Except Raised (List Json) := do
  match kind with
  | .str "choice" =>
    require (criteria.isObj && 1 ≤ (fields criteria).length && (fields criteria).length ≤ 32)
      "Choice questions need 1–32 criteria."
    require ((fields criteria).all fun entry => textWithin 64 (.str entry.1)) "Invalid choice name."
    pure (values (fields criteria))
  | .str "score" => match criteria with
    | .arr items =>
      require (2 ≤ items.length && items.length ≤ 32) "Score questions need 2–32 ordered criteria."
      pure items
    | _ => refuse "Score questions need 2–32 ordered criteria."
  | .str "noul" => match criteria with
    | .null => pure []
    | _ =>
      require (criteria.isObj && keysAre (fields criteria) ["true", "false"]) "Noul criteria must describe true and false."
      pure (values (fields criteria))
  | _ => refuse "Supported question types: choice, score, noul."

def validateQuestion (name : String) (question : Json) : Except Raised Unit := do
  require (textWithin 64 (.str name) && question.isObj) "Invalid question."
  require ((fields question).all fun entry => entry.1 ∈ ["type", "instructions", "criteria"]) "Unsupported question field."
  require (textWithin 2000 (question.field "instructions")) "Each question needs instructions (1–2000 characters)."
  let descriptions ← criteriaValues (question.field "type") (question.field "criteria")
  require (descriptions.all description) "Invalid criterion description."

def validateQuestions : Fields → Except Raised Unit
  | [] => pure ()
  | (name, question) :: questions => do
    validateQuestion name question
    validateQuestions questions

/-- `isinstance(v, (str, dict, list))`. -/
def isState : Json → Bool
  | .str _ => true
  | .obj _ => true
  | .arr _ => true
  | _ => false

/-- A request that is valid is returned. -/
def validatePayload (payload : Json) : Except Raised Json := do
  require (payload.isObj && keysAre (fields payload) ["state", "questions"]) "Provide state and questions."
  require (isState (payload.field "state")) "state must be text, an object or an array."
  let questions := payload.field "questions"
  require (questions.isObj && 1 ≤ (fields questions).length && (fields questions).length ≤ 32)
    "Provide between 1 and 32 questions."
  validateQuestions (fields questions)
  require (bytes payload.dumps ≤ MAX_REQUEST_BYTES) "Decision request exceeds 32000 bytes."
  pure payload

end Payload

section Response

structure Floats where
  /-- `probability_sum_valid(values, ..)` of numbers from 0 to 1, at the precision of a model. -/
  sumValid : String → List Json → Bool
  /-- `p + 1e-9 < max(values)`. -/
  below : Json → List Json → Bool

/-- A number that is no `bool`. -/
def number? : Json → Option ℚ
  | .int n => some n
  | .float value _ => some value
  | _ => none

def probability (v : Json) : Bool := (number? v).any fun q => 0 ≤ q ∧ q ≤ 1

/-- `v is None or p(v)`. -/
def optional (p : Json → Bool) : Json → Bool
  | .null => true
  | v => p v

/-- A distribution over names. -/
def distributionOver (floats : Floats) (model : String) (names : List String) (distribution : Json) : Bool :=
  distribution.isObj && keysAre (fields distribution) names && (values (fields distribution)).all probability &&
    floats.sumValid model (values (fields distribution))

/-- `validate_answer`: the choice of a valid answer. -/
def validateAnswer (floats : Floats) (model : String) (answer : Json) (choices : List String) : Except Raised String := do
  let message := "Invalid choice answer."
  require (answer.isObj && (answer.field "type").isText "choice") message
  require (answer.field "choice").isStr message
  let selected ← (answer.field "choice").text
  require (selected ∈ choices) message
  require (optional probability (answer.field "confidence")) message
  require (optional (fun distribution => distributionOver floats model choices distribution &&
    !floats.below (distribution.field selected) (values (fields distribution))) (answer.field "probabilities")) message
  pure selected

/-- `list(criteria)`. -/
def names (criteria : Json) : List String := (fields criteria).map (·.1)

def validateScore (floats : Floats) (model : String) (answer : Json) (criteria : List Json) : Except Raised Unit := do
  require ((number? (answer.field "score")).any fun score => 0 ≤ score ∧ score ≤ (criteria.length : ℚ) - 1) "Invalid score."
  require (optional (distributionOver floats model ((List.range criteria.length).map toString))
    (answer.field "probabilities")) "Invalid score distribution."

/-- The answer to a question of a valid payload. -/
def validateReply (floats : Floats) (model : String) (question answer : Json) : Except Raised Unit := do
  let kind := question.field "type"
  require (answer.isObj && FlowData.equal (answer.field "type") kind) "Invalid answer type."
  require (optional probability (answer.field "confidence")) "Invalid confidence."
  match kind with
  | .str "choice" => (validateAnswer floats model answer (names (question.field "criteria"))).map fun _ => ()
  | .str "noul" => require (probability (answer.field "noul")) "Invalid noul answer."
  | _ => validateScore floats model answer (question.field "criteria").elems

def validateReplies (floats : Floats) (model : String) (answers : Fields) : Fields → Except Raised Unit
  | [] => pure ()
  | (name, question) :: questions => do
    validateReply floats model question ((answers.lookup name).getD .null)
    validateReplies floats model answers questions

/-- The token counts and the cost of a usage. -/
def validateUsage (usage : Json) : Except Raised Unit := do
  require usage.isObj "Invalid usage."
  require (["input_tokens", "output_tokens", "total_tokens"].all fun key => match usage.field? key with
    | some (.int n) => 0 ≤ n
    | some _ => false
    | none => true) "Invalid token usage."
  require (optional (fun cost => (number? cost).any fun q => 0 ≤ q) (usage.field "cost")) "Invalid cost."

/-- A text that is not empty. -/
def named : Json → Bool
  | .str text => !text.isEmpty
  | _ => false

/-- The answers to the questions of a payload, with the model and the usage. -/
def validateResponse (floats : Floats) (data : Json) (questions : Fields) : Except Raised Json := do
  require (data.isObj && named (data.field "model")) "Missing decision model."
  let model ← (data.field "model").text
  let answers := data.field "answers"
  require (answers.isObj && keysAre (fields answers) (questions.map (·.1))) "Missing or unexpected answers."
  validateReplies floats model (fields answers) questions
  validateUsage (data.field "usage").orDict
  pure (.obj [("model", .str model), ("answers", answers), ("usage", (data.field "usage").orDict)])

end Response

end Unhardcoded.Source.DecisionProtocol

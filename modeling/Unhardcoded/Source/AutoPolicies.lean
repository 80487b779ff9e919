import Unhardcoded.Source.DecisionAnswers
import Unhardcoded.Source.FlowRouting

/-!
# The automatic policy catalogue

Source: auto_policies.py. Constraints and policies are dictionaries of JSON values and a
term is an array. `normalize` is `host.normalize_policy(.., admit=True)`.
-/

namespace Unhardcoded.Source.AutoPolicies

open Unhardcoded.Python DecisionAnswers
open FlowData (valueError)
open FlowRouting (item)

abbrev Fields := List (String × Value)

def CATALOG_VERSION : String := "auto/v1"

structure Spec where
  id : String
  description : String
  example_ : String
  quality : ℚ
  context : Int
  capability : Option String

def SPECS : List Spec :=
  [⟨"general", "General assistance or an ambiguous task; the conservative fallback.", "Help me plan my day",
      35 / 100, 0, none⟩,
    ⟨"conversation", "Short conversational replies and routine customer support.",
      "Write a friendly reply to this customer", 15 / 100, 0, none⟩,
    ⟨"classification", "Assign labels, detect sentiment or categorize text.",
      "Classify these tickets by department", 1 / 10, 0, none⟩,
    ⟨"extraction", "Extract fields into a JSON object or a structured schema.",
      "Extract the invoice date and total as JSON", 25 / 100, 0, some "supports_json_mode"⟩,
    ⟨"translation", "Translate or localize supplied text faithfully.", "Translate this paragraph into Spanish",
      3 / 10, 0, none⟩,
    ⟨"summarization", "Condense supplied material without researching new facts.",
      "Summarize this meeting transcript", 3 / 10, 0, none⟩,
    ⟨"long-document", "Compare or synthesize extensive documents with long context.",
      "Compare these three lengthy reports", 55 / 100, 128000, none⟩,
    ⟨"coding", "Write, explain or review code without running tools.", "Explain why this SQL query is slow",
      65 / 100, 0, none⟩,
    ⟨"coding-agent", "Repository work, debugging or code changes using tools.",
      "Inspect the repository, fix the bug and run tests", 75 / 100, 32000, some "supports_tools"⟩,
    ⟨"reasoning", "Difficult multi-step analysis, mathematical proofs or tradeoffs.",
      "Prove this claim and examine counterexamples", 85 / 100, 0, none⟩,
    ⟨"creative-writing", "Original narrative, persuasive copy or creative ideation.",
      "Write the opening scene of a mystery", 1 / 2, 0, none⟩,
    ⟨"vision", "Interpret an image supplied with the request.", "Describe the chart in this image",
      1 / 2, 0, some "supports_vision"⟩]

/-- The entry of `catalog()` for a policy. -/
def Spec.entry (spec : Spec) : Fields :=
  [("id", .str spec.id), ("version", .str CATALOG_VERSION), ("description", .str spec.description),
    ("examples", .arr [.str spec.example_])]

/-- `{**d, **e}`. -/
def merge (d e : Fields) : Fields := e.foldl (fun d entry => insert entry.1 entry.2 d) d

section Constraints

def number (q : ℚ) : Value := .float (.fin q)

def defaults : Fields :=
  [("max_price_in", number 5), ("max_price_out", number 25), ("reliability_floor", number (4 / 5)), ("timeout_seconds", .int 8),
    ("max_output_tokens", .int 2048), ("priority", .str "cost"), ("required_capabilities", .arr []), ("allowed_models", .arr [])]

/-- `out[name]`, where the defaults have the name. -/
def read (out : Fields) (name : String) : Value := (out.lookup name).getD .null

/-- `type(v) is int and 1 <= v <= high`. -/
def countWithin (high : Int) : Value → Bool
  | .int n => 1 ≤ n && n ≤ high
  | _ => false

/-- `provider|model`. -/
def isModel : Value → Bool
  | .str m => m.length ≤ 240 && m.toList.count '|' = 1 && m.toList.head? ≠ some '|' && m.toList.getLast? ≠ some '|'
  | _ => false

def isCapability (v : Value) : Bool :=
  v.isText "supports_tools" || v.isText "supports_json_mode" || v.isText "supports_vision"

/-- A list of at most so many values that pass a check. -/
def listWithin (limit : Nat) (check : Value → Bool) : Value → Bool
  | .arr items => items.length ≤ limit && items.all check
  | _ => false

/-- One number of the constraints. -/
def checkNumber (out : Fields) (name : String) (low high : ℚ) : Except Raised Unit := do
  require (← numberWithin (fun q => low ≤ q ∧ q ≤ high) (read out name)) (valueError ("Invalid " ++ name))

def checkCount (out : Fields) (name : String) (high : Int) : Except Raised Unit :=
  require (countWithin high (read out name)) (valueError ("Invalid " ++ name))

/-- `validate_constraints`. -/
def validateConstraints (value : Value) : Except Raised Fields := do
  require value.isObj (valueError "Routing limits must be an object")
  require (value.fields.all fun entry => (defaults.lookup entry.1).isSome) (valueError "Unknown routing limit")
  let out := merge defaults value.fields
  checkNumber out "max_price_in" 0 1000
  checkNumber out "max_price_out" 0 1000
  checkNumber out "reliability_floor" 0 1
  checkCount out "timeout_seconds" 20
  checkCount out "max_output_tokens" 32768
  let priority := read out "priority"
  require (priority.isText "cost" || priority.isText "speed" || priority.isText "quality") (valueError "Unknown priority")
  require (listWithin 3 isCapability (read out "required_capabilities")) (valueError "Unsupported capability")
  require (listWithin 100 isModel (read out "allowed_models")) (valueError "Invalid model restrictions")
  pure out

end Constraints

section Compile

def term (head : String) (args : List Value) : Value := .arr (.str head :: args)

def texts : Value → List String
  | .arr items => items.filterMap fun
    | .str text => some text
    | _ => none
  | _ => []

/-- `sorted(set(names))`. -/
def sortedNames (names : List String) : List String := names.dedup.mergeSort fun a b => decide (a ≤ b)

/-- `m.split("|")`. -/
def sides (m : String) : String × String :=
  (String.ofList (m.toList.takeWhile (· ≠ '|')), String.ofList ((m.toList.dropWhile (· ≠ '|')).drop 1))

/-- The gates of a policy. -/
def gates (spec : Spec) (limits : Fields) : Value :=
  let base := [term "meets_req" [], term "not" [term "is" [.str "disabled"]],
    term "cmp" [.str "success_rate", .str "ge", read limits "reliability_floor"],
    term "cmp" [.str "price_in", .str "le", read limits "max_price_in"],
    term "cmp" [.str "price_out", .str "le", read limits "max_price_out"]]
  let context := if spec.context ≠ 0 then [term "cmp" [.str "context", .str "ge", .int spec.context]] else []
  let capabilities := (sortedNames (texts (read limits "required_capabilities") ++ spec.capability.toList)).map fun cap =>
    term "has_cap" [.str cap]
  let models := (texts (read limits "allowed_models")).map fun m =>
    term "and" [term "provider_eq" [.str (sides m).1], term "family_eq" [.str (sides m).2]]
  term "and" (base ++ context ++ capabilities ++ if models.isEmpty then [] else [term "or" models])

/-- The score of a policy. -/
def score (spec : Spec) (limits : Fields) : Value :=
  let scale (weight : ℚ) (base : Value) := term "scale" [number weight, base]
  let field (name : String) := term "field" [.str name]
  let cost := term "neg" [term "normalize" [term "add" [scale (4 / 5) (field "price_in"), scale (1 / 5) (field "price_out")]]]
  let quality := if (read limits "priority").isText "quality" then max spec.quality (3 / 4) else spec.quality
  let score := term "add" [scale quality (term "normalize" [field "bench_intelligence"]), scale (1 - quality) cost]
  if (read limits "priority").isText "speed" then
    term "add" [scale (1 / 2) score, scale (1 / 2) (term "neg" [term "normalize" [field "latency_ms"]])]
  else score

/-- `limits[name] * 1000`. -/
def milliseconds (limits : Fields) (name : String) : Value :=
  match read limits name with
  | .int n => .int (n * 1000)
  | v => v

/-- The failure plan of every policy. -/
def failure : Value :=
  let action (name : String) : Value := .obj [("action", .str name)]
  ["timeout", "server_error", "network_error", "rate_limit", "auth_error", "payment_required", "model_unavailable",
    "context_overflow"].foldl (fun plan reason => term "override" [plan, .str reason, action "next_candidate"])
    (term "always" [action "abort"])

/-- `compile_policy`. -/
def compilePolicy (policyId : String) (constraints : Value) : Except Raised Value :=
  match SPECS.find? fun spec => spec.id = policyId with
  | none => .error (valueError "Unknown automatic policy")
  | some spec => do
    let limits ← validateConstraints constraints
    pure (term "policy" [gates spec limits, score spec limits,
      term "prefer" [term "not" [term "is" [.str "breaker_open"]], term "argmax" []],
      term "set_param" [.str "timeout_ms", milliseconds limits "timeout_seconds"], failure])

end Compile

section Bundle

variable (normalize : Value → Except Raised Value)

/-- One policy of a bundle. -/
def bundled (constraints : Value) (policyId : String) : Except Raised (String × Value) := do
  let compiled ← compilePolicy policyId constraints
  let normal ← normalize compiled
  let ir ← item normal "policy_ir"
  let identity ← item normal "policy_id"
  let version ← item normal "version"
  let fingerprint ← item normal "fingerprint"
  let description := ((SPECS.find? fun spec => spec.id = policyId).map Spec.entry).getD []
  pure (policyId, .obj (merge description
    [("policy_ir", ir), ("policy_id", identity), ("engine_version", version), ("fingerprint", fingerprint)]))

/-- `build_bundle`. -/
def buildBundle (policyIds : List String) (constraints : Value) : Except Raised Fields := do
  require (policyIds ≠ [] && policyIds.length ≤ SPECS.length && policyIds.Nodup && "general" ∈ policyIds)
    (valueError "Choose distinct policies including the general fallback")
  policyIds.mapM (bundled normalize constraints)

end Bundle

end Unhardcoded.Source.AutoPolicies

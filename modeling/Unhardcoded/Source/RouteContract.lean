import Mathlib.Data.Rat.Defs
import Unhardcoded.Python.Dict
import Unhardcoded.Source.FlowData

/-!
# Published routes

What the control plane publishes and what a request of a tenant may choose of it:
`_validate_scope`, `_positive_int_or_none`, `_parse_key_limits` and the checks of `resolve_route`
in control_plane_client.py, and `apply_contract` of route_contract.py. A reply is the JSON value of
its body. A budget is exact: `float` of a decimal text is its value.
-/

namespace Unhardcoded.Source.RouteContract

open Python
open FlowData (number?)

/-! ## The control plane's reply -/

structure Scope where
  project : Nat
  environment : Nat
  project_pos : 0 < project
  environment_pos : 0 < environment

/-- `v is None`. -/
def isNone : Json → Bool
  | .null => true
  | _ => false

/-- `type(v) is int`, and its value. -/
def int? : Json → Option Int
  | .int n => some n
  | _ => none

/-- `_validate_scope`. -/
def validateScope (data : Json) (tenant : Nat) (scope : Scope) : Bool :=
  data.isObj && int? (data.field "scope_version") = some 2 && int? (data.field "tenant_id") = some (tenant : Int) &&
    int? (data.field "project_id") = some (scope.project : Int) && int? (data.field "environment_id") = some (scope.environment : Int)

def digits (low high : Nat) (cs : List Char) : Bool := low ≤ cs.length && cs.length ≤ high && cs.all Char.isDigit

/-- `_SUBJECT_RE.fullmatch`. -/
def isSubject (text : String) : Bool := match text.toList with
  | kind :: ':' :: first :: rest => (kind = 'g' || kind = 'k') && first.isDigit && first ≠ '0' && digits 0 17 rest
  | _ => false

/-- `_BUDGET_RE.fullmatch`, and `float` of the text. -/
def budgetText (text : String) : Option ℚ :=
  let whole := text.toList.takeWhile Char.isDigit
  if digits 1 12 whole then
    match text.toList.dropWhile Char.isDigit with
    | [] => some (Nat.ofDigitChars 10 whole 0)
    | '.' :: fraction =>
      if digits 1 12 fraction then some ((Nat.ofDigitChars 10 (whole ++ fraction) 0 : ℚ) / 10 ^ fraction.length) else none
    | _ => none
  else none

structure KeyIdentity where
  id : Int
  subject : String
  labels : List (String × Json)

structure KeyLimits where
  monthlyBudgetUsd : Option ℚ
  ratePerMin : Option Int
  burst : Option Int

/-- `_positive_int_or_none`; `none` is a `ValueError`. -/
def positiveIntOrNone : Json → Option (Option Int)
  | .null => some none
  | .int n => if 0 < n then some (some n) else none
  | _ => none

/-- The `monthly_budget_usd` of limits, checked. -/
def monthlyBudget : Json → Option (Option ℚ)
  | .null => some none
  | .str text => match budgetText text with
    | some budget => if 0 < budget then some (some budget) else none
    | none => none
  | .int n => if 0 < n then some (some n) else none
  | .float value _ => if 0 < value then some (some value) else none
  | _ => none

/-- `len(labels) > 32 or any(..)` does not hold. -/
def labelsOk (labels : List (String × Json)) : Bool :=
  labels.length ≤ 32 && labels.all fun entry => entry.1 ≠ "" && entry.1.length ≤ 64 && match entry.2 with
    | .str text => text.length ≤ 256
    | _ => false

/-- The `key` of a route: a dictionary, its id, subject and labels checked. -/
def keyIdentity (key : Json) : Option KeyIdentity :=
  if key.isObj then do
    let id ← (int? (key.field "id")).filter (0 < ·)
    let subject ← match key.field "subject" with
      | .str text => if isSubject text then some text else none
      | _ => none
    let labels ← match key.field "labels" with
      | .null => some []
      | .obj labels => if labelsOk labels then some labels else none
      | _ => none
    some ⟨id, subject, labels⟩
  else none

/-- The `limits` of a route. -/
def keyLimits (limits : Json) : Option KeyLimits :=
  if isNone limits || limits.isObj then do
    let budget ← monthlyBudget (limits.field "monthly_budget_usd")
    let rate ← positiveIntOrNone (limits.field "rate_per_min")
    let burst ← positiveIntOrNone (limits.field "burst")
    some ⟨budget, rate, burst⟩
  else none

/-- `_parse_key_limits`; `none` is a `ValueError`. -/
def parseKeyLimits (data : Json) : Option (Option (KeyIdentity × KeyLimits)) :=
  if isNone (data.field "key") && isNone (data.field "limits") then some none
  else do
    let key ← keyIdentity (data.field "key")
    let limits ← keyLimits (data.field "limits")
    some (some (key, limits))

/-- A published route that `resolve_route` accepted. -/
structure Published where
  fields : List (String × Json)
  limits : Option (KeyIdentity × KeyLimits)

def isArr : Json → Bool
  | .arr _ => true
  | _ => false

/-- `isinstance(v, str) and len(v) == 64`. -/
def isPolicyId : Json → Bool
  | .str text => text.length = 64
  | _ => false

/-- `isinstance(v, int) and v > 0`. -/
def isRevision : Json → Bool
  | .int n => 0 < n
  | .bool b => b
  | _ => false

/-- The checks of `resolve_route` on a reply; `none` is a `RouteUnavailable`. -/
def resolveRoute (tenant : Nat) (scope : Option Scope) (data : Json) : Option Published :=
  match data with
  | .obj fields =>
    if scope.all (validateScope data tenant) && isArr (data.field "policy_ir") && isPolicyId (data.field "policy_id") &&
        isRevision (data.field "revision") && ((data.field? "execution").getD (.obj [])).isObj then
      (parseKeyLimits data).map (Published.mk fields)
    else none
  | _ => none

/-! ## The contract of a request -/

inductive ContractError where
  | preferenceNotAllowed (message : String)
  /-- Another exception, which no handler catches. -/
  | raised (error : Raised)

def hex64 (cs : List Char) : Bool := cs.length = 64 && cs.all fun c => c.isDigit || ('a' ≤ c && c ≤ 'f')

/-- `re.fullmatch(r'[0-9a-f]{64}', str(v))`. -/
def isDigest : Json → Bool
  | .str text => hex64 text.toList
  | .int n => hex64 (toString n).toList
  | _ => false

/-- `preference in variants`, for a text. -/
def within (variants : Json) (preference : String) : Except ContractError Bool :=
  match variants with
  | .obj fields => .ok (fields.lookup preference).isSome
  | .arr items => .ok (items.any (·.isText preference))
  | .str text => .ok (contains preference text)
  | _ => .error (.raised .typeError)

def notAuthorized : ContractError := .preferenceNotAllowed "This preference is not authorized by the published contract."

/-- A variant's policy and id, where they are well formed. -/
def variantPolicy (variant : Json) : Except ContractError (Json × Json) :=
  if variant.isObj && isArr (variant.field "policy_ir") && isDigest ((variant.field? "policy_id").getD (.str "")) then
    .ok (variant.field "policy_ir", variant.field "policy_id")
  else .error (.preferenceNotAllowed "The published preference is unavailable. Republish the contract.")

/-- The policy that the preference of a request selects, and its id. -/
def selectVariant (published : Json) : Json → Except ContractError (Json × Json)
  | .null => .ok (published.field "policy_ir", published.field "policy_id")
  | .str name =>
    let variants := (published.field "preferences").orElse (.obj [])
    match within variants name with
    | .error e => .error e
    | .ok false => .error notAuthorized
    | .ok true => match variants with
      | .obj fields => variantPolicy ((fields.lookup name).getD .null)
      | _ => .error (.raised .typeError)
  | _ => .error notAuthorized

/-- The keys that a caller cannot set. -/
def strippedFields : List String := ["policy_ir", "flow_ir", "timeout_ms", "first_token_timeout_ms", "task_policies", "_auto_contract"]

/-- `{key: d[key] for key in keys if key in d}`. -/
def picked (keys : List String) (fields : List (String × Json)) : List (String × Json) :=
  keys.filterMap fun key => (fields.lookup key).map fun value => (key, value)

/-- `d.update(entries)`. -/
def update (fields entries : List (String × Json)) : List (String × Json) :=
  entries.foldl (fun d entry => insert entry.1 entry.2 d) fields

/-- The selected policy, its id and the preference's name. -/
structure Selected where
  policyIr : Json
  policyId : Json
  routingPreference : String

/-- The published `execution`, which `resolve_route` found to be a dictionary. -/
def executionOf (published : Json) : List (String × Json) := match (published.field "execution").orElse (.obj []) with
  | .obj fields => fields
  | _ => []

/-- The payload without what the route decides, and with what it decides. -/
def contractPayload (payload execution : List (String × Json)) (policyIr : Json) : List (String × Json) :=
  let stripped := payload.filter fun entry => entry.1 ≠ "routing_preference" && !strippedFields.contains entry.1
  let withAuto := if (execution.lookup "automatic").isSome then
      insert "_auto_contract" (.obj (picked ["automatic", "automatic_mode", "automatic_sample_percent"] execution)) stripped
    else stripped
  insert "policy_ir" policyIr (update withAuto (picked ["timeout_ms", "first_token_timeout_ms"] execution))

/-- `apply_contract`. -/
def applyContract (payload : List (String × Json)) (published : Json) : Except ContractError (List (String × Json) × Selected) :=
  let preference := (payload.lookup "routing_preference").getD .null
  match selectVariant published preference with
  | .error e => .error e
  | .ok (policyIr, policyId) =>
    if ((executionOf published).lookup "automatic").isSome && !isNone preference then
      .error (.preferenceNotAllowed "Automatic routes choose their own authorized policy.")
    else
      .ok (contractPayload payload (executionOf published) policyIr, ⟨policyIr, policyId, match preference with
        | .str name => name
        | _ => "default"⟩)

end Unhardcoded.Source.RouteContract

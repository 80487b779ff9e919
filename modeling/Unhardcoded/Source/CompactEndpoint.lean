import Unhardcoded.Source.Compaction

/-!
# The compaction endpoint

Source: `compact` of shim.py without a decision policy (the branch with one is in
`Compaction`) and `_render_messages`. A message is a dictionary. The call of the
summarizer is the host's; what its answer costs (`usage`, `x_router`) is left out, as is
the error body of a policy that is not admitted. Formatting a value that is no string
into the text is a parameter.
-/

namespace Unhardcoded.Source.CompactEndpoint

open Unhardcoded.Python
open Unhardcoded.Source.Compaction (isTool)

def sealSystem : String :=
  "Summarize the conversation below, preserving decisions, open threads, file paths, and key identifiers. Be dense and concrete."

def sealPrefix : String := "[Earlier conversation, sealed summary]\n"

/-- `_DEFAULT_COMPACT_POLICY`. -/
def defaultCompactPolicy : Json :=
  let op (name : String) (args : List Json) : Json := .arr (.str name :: args)
  op "policy" [op "and" [op "meets_req" [], op "not" [op "is" [.str "disabled"]]],
    op "neg" [op "normalize" [op "field" [.str "price_in"]]],
    op "argmax" [], op "id" [], op "always" [.obj [("action", .str "next_candidate")]]]

/-- `CompactRequest`; `none` is a null. -/
structure Request where
  messages : List Json
  keepRecent : Int
  policyIr : Option (List Json)
  maxTokens : Option Int

/-- What the host is asked to execute. -/
structure Contract where
  messages : List Json
  policyIr : Json
  maxTokens : Int

/-- How `execute_async` comes back. -/
inductive Execution where
  /-- An exception that says the policy is not admitted. -/
  | notAdmitted
  | raised (error : Raised)
  | result (res : Json)

inductive Reply where
  | invalidPolicy
  /-- `{"messages", "compacted"}`; `costed` once the summarizer was called. -/
  | body (messages : List Json) (compacted costed : Bool)

section Render

variable (format : Json → String)

/-- The content of a message as the summarizer reads it: of a list its text parts only. -/
def renderContent : Json → Except Raised String
  | .arr parts => do
    let texts ← (parts.filter Json.isObj).mapM fun p => ((p.field? "text").getD (.str "")).text
    pure (" ".intercalate texts)
  | .str text => pure text
  | content => pure (format content)

/-- `{m.get('role', '?')}` in an f-string. -/
def renderRole (m : Json) : String :=
  match (m.field? "role").getD (.str "?") with
  | .str role => role
  | role => format role

def renderMessage (m : Json) : Except Raised String := do
  let content ← renderContent format (m.field "content")
  pure (renderRole format m ++ ": " ++ content)

/-- `_render_messages`. -/
def renderMessages (msgs : List Json) : Except Raised String := do
  let lines ← msgs.mapM (renderMessage format)
  pure ("\n".intercalate lines)

end Render

section Seam

variable (req : Request)

/-- `max(1, req.keep_recent)`. -/
def keep : Nat := (max 1 req.keepRecent).toNat

/-- A leading system message. -/
def frozen : List Json := (req.messages.take 1).filter fun m => (m.field "role").isText "system"

/-- The last messages, before the orphans are dropped from them. -/
def tail : List Json := req.messages.drop (req.messages.length - keep req)

/-- `aged`. -/
def aged : List Json := (req.messages.take (req.messages.length - keep req)).drop (frozen req).length

/-- `recent`, the tool turns at the seam dropped. -/
def recent : List Json := (tail req).dropWhile isTool

end Seam

/-- `((res.get("response") or {}).get("text") or "").strip()`. -/
def summaryText (res : Json) : Except Raised String := do
  let text ← (← res.get "response").orDict.get "text"
  match text.orElse (.str "") with
  | .str text => pure (strip text)
  | _ => .error .attributeError

/-- The contract of the seal. -/
def contract (req : Request) (conversation : String) : Contract where
  messages := [.obj [("role", .str "system"), ("content", .str sealSystem)],
    .obj [("role", .str "user"), ("content", .str conversation)]]
  policyIr := match req.policyIr with
    | none | some [] => defaultCompactPolicy
    | some ir => .arr ir
  maxTokens := match req.maxTokens with
    | none | some 0 => 512
    | some n => n

/-- The message that stands for the aged ones. -/
def sealedMessage (summary : String) : Json :=
  .obj [("role", .str "system"), ("content", .str (sealPrefix ++ summary))]

/-- `compact`, for a host. -/
def compact (format : Json → String) (execute : Contract → Execution) (req : Request) : Except Raised Reply := do
  if req.messages.length - (frozen req).length ≤ keep req then
    return .body req.messages false false
  if aged req = [] then
    return .body req.messages false false
  let conversation ← renderMessages format (aged req)
  match execute (contract req conversation) with
  | .notAdmitted => return .invalidPolicy
  | .raised error => .error error
  | .result res =>
    let summary ← summaryText res
    if summary = "" then
      return .body req.messages false true
    return .body (frozen req ++ [sealedMessage summary] ++ recent req) true true

end Unhardcoded.Source.CompactEndpoint

import Unhardcoded.Python.Json

/-!
# Chat messages and Responses items

Source: `_content_to_text` and `_messages_to_input` of codex_backend.py, `_part_text` and
`input_to_messages` of responses_api.py. `str` is `str()` of a value that is no text.
-/

namespace Unhardcoded.Source.ChatInput

open Unhardcoded.Python

variable (str : Json → String)

/-- A content value as text; `part` is what a dictionary among its parts gives. -/
def flatten (part : Json → Json) : Json → Except Raised String
  | .null => .ok ""
  | .str text => .ok text
  | .arr parts => join (parts.map fun p => if p.isObj then part p else .str (str p))
  | content => .ok (str content)

section Items

/-- `_content_to_text`. -/
def contentToText (content : Json) : Except Raised String :=
  flatten str (fun p => ((p.field "text").orElse (p.field "content")).orElse (.str "")) content

/-- The item of a tool call. -/
def functionCall (tc : Json) : Except Raised Json := do
  let fn := (← tc.get "function").orDict
  let name ← fn.get "name"
  let arguments ← fn.get "arguments"
  return .obj [("type", .str "function_call"), ("call_id", (tc.field "id").orElse (.str "")), ("name", name.orElse (.str "")),
    ("arguments", arguments.orElse (.str "\x7b\x7d"))]

/-- The items of a message. -/
def itemsOf (m : Json) : Except Raised (List Json) := do
  let role := (← m.get "role").orElse (.str "user")
  let toolCalls := m.field "tool_calls"
  let content := m.field "content"
  if role.isText "tool" then
    let output ← contentToText str content
    return [.obj [("type", .str "function_call_output"),
      ("call_id", ((m.field "tool_call_id").orElse (m.field "call_id")).orElse (.str "")), ("output", .str output)]]
  else if role.isText "assistant" && toolCalls.truthy then
    let text ← contentToText str content
    let calls ← (← toolCalls.iter).mapM functionCall
    return (if text = "" then [] else [.obj [("role", .str "assistant"), ("content", .str text)]]) ++ calls
  else
    let text ← contentToText str content
    return [.obj [("role", role), ("content", .str text)]]

/-- `_messages_to_input`. -/
def messagesToInput (messages : Json) : Except Raised (List Json) := do
  let items ← (← messages.iterOr).mapM (itemsOf str)
  return items.flatten

end Items

section Messages

/-- `_part_text`. -/
def partText (content : Json) : Except Raised String := flatten str (fun p => (p.field "text").orElse (.str "")) content

/-- `prev.setdefault("tool_calls", []).append(tc)`. -/
def appendCall (prev tc : Json) : Except Raised Json :=
  match prev, prev.field? "tool_calls" with
  | .obj fields, none => .ok (.obj (insert "tool_calls" (.arr [tc]) fields))
  | .obj fields, some (.arr calls) => .ok (.obj (insert "tool_calls" (.arr (calls ++ [tc])) fields))
  | _, _ => .error .attributeError

/-- One item of the loop. -/
def readItem (messages : List Json) (it : Json) : Except Raised (List Json) :=
  if !it.isObj then .ok messages
  else if (it.field "type").isText "function_call" then
    let tc := Json.obj [("id", (it.field "call_id").orElse (.str "")), ("type", .str "function"),
      ("function", .obj [("name", (it.field "name").orElse (.str "")),
        ("arguments", (it.field "arguments").orElse (.str "\x7b\x7d"))])]
    match messages.getLast? with
    | some prev =>
      if (prev.field "role").isText "assistant" then do
        let prev ← appendCall prev tc
        return messages.dropLast ++ [prev]
      else .ok (messages ++ [.obj [("role", .str "assistant"), ("content", .null), ("tool_calls", .arr [tc])]])
    | none => .ok (messages ++ [.obj [("role", .str "assistant"), ("content", .null), ("tool_calls", .arr [tc])]])
  else if (it.field "type").isText "function_call_output" then do
    let content ← partText str (it.field "output")
    return messages ++ [.obj [("role", .str "tool"), ("tool_call_id", (it.field "call_id").orElse (.str "")),
      ("content", .str content)]]
  else if (it.field "type").isText "reasoning" then .ok messages
  else
    match it.field "role" with
    | .null => .ok messages
    | role => do
      let content ← partText str (it.field "content")
      return messages ++ [.obj [("role", if role.isText "developer" then .str "system" else role), ("content", .str content)]]

/-- `input_to_messages`. -/
def inputToMessages (input instructions : Json) : Except Raised (List Json) :=
  let messages := if instructions.truthy then [Json.obj [("role", .str "system"), ("content", instructions)]] else []
  let items := match input with
    | .str text => [Json.obj [("role", .str "user"), ("content", .str text)]]
    | .arr items => items
    | _ => []
  items.foldlM (readItem str) messages

end Messages

end Unhardcoded.Source.ChatInput

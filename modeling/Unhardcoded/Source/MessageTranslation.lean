import Unhardcoded.Python.JsonText

/-!
# Chat messages for the providers

Source: `text_from_content` and `json_args` of provider_adapters/common.py and the message
translators of anthropic.py, google.py and bedrock.py. `float` is `float()` of the text of
a number. A translator makes at most one message of each message, or a part of the system
prompt.
-/

namespace Unhardcoded.Source.MessageTranslation

open Unhardcoded.Python

/-- `text_from_content`. -/
def textFromContent : Json → Except Raised String
  | .str content => .ok content
  | .arr content =>
    join ((content.filter fun part => part.isObj && (part.field "type" = .null || (part.field "type").isText "text")).map
      fun part => (part.field? "text").getD (.str ""))
  | _ => .ok ""

/-- What a translator makes of a message. -/
inductive Emitted where
  | system (text : String)
  | message (m : Json)
  | nothing

/-- `if text: system_parts.append(text)`. -/
def systemPart (text : String) : Emitted := if text = "" then .nothing else .system text

def Emitted.message? : Emitted → Option Json
  | .message m => some m
  | _ => none

def Emitted.system? : Emitted → Option String
  | .system text => some text
  | _ => none

/-- The loop of a translator: the messages, and the parts of the system prompt. -/
def translate (each : Json → Except Raised Emitted) (messages : Json) : Except Raised (List Json × List String) := do
  let emitted ← (← messages.iterOr).mapM each
  return (emitted.filterMap Emitted.message?, emitted.filterMap Emitted.system?)

/-- `tc.get("function") or {}`. -/
def functionOf (tc : Json) : Except Raised Json := do
  return (← tc.get "function").orDict

section Arguments

variable (float : String → Json)

/-- `json.loads`, where it is a dictionary. -/
def loadsDict (text : String) : Option Json := (loads float text).filter Json.isObj

/-- `json_args`. -/
def jsonArgs (arguments : Json) : Json :=
  match arguments with
  | .obj fields => .obj fields
  | .str text => (loadsDict float text).getD (.obj [])
  | _ => .obj []

end Arguments

section Anthropic

variable (float : String → Json)

/-- The block of a tool call. -/
def toolUse (tc : Json) : Except Raised Json := do
  let fn ← functionOf tc
  let name ← fn.get "name"
  return .obj [("type", .str "tool_use"), ("id", tc.field "id"), ("name", name.orElse (.str "")),
    ("input", jsonArgs float (fn.field "arguments"))]

def anthropicMessage (msg : Json) : Except Raised Emitted := do
  let role ← msg.get "role"
  let text ← textFromContent (msg.field "content")
  if role.isText "system" then return systemPart text
  else if role.isText "tool" then
    return .message (.obj [("role", .str "user"), ("content", .arr [.obj [("type", .str "tool_result"),
      ("tool_use_id", msg.field "tool_call_id"), ("content", .str text)]])])
  else if role.isText "assistant" then
    let uses ← (← (msg.field "tool_calls").iterOr).mapM (toolUse float)
    -- a text alone keeps the plain-string shape
    if uses.isEmpty then
      return if text = "" then .nothing else .message (.obj [("role", .str "assistant"), ("content", .str text)])
    else
      return .message (.obj [("role", .str "assistant"), ("content",
        .arr ((if text = "" then [] else [.obj [("type", .str "text"), ("text", .str text)]]) ++ uses))])
  else if role.isText "user" then
    return if text = "" then .nothing else .message (.obj [("role", .str "user"), ("content", .str text)])
  else return .nothing

/-- `_openai_messages_to_anthropic`. -/
def openaiMessagesToAnthropic (messages : Json) : Except Raised (List Json × List String) :=
  translate (anthropicMessage float) messages

end Anthropic

section Gemini

variable (float : String → Json)

/-- `out[tid] = name`, where both are there. -/
def rememberName (out : List (Key × Json)) (tc : Json) : Except Raised (List (Key × Json)) := do
  let tid ← tc.get "id"
  let name ← (← functionOf tc).get "name"
  if tid.truthy && name.truthy then return insert (← tid.key) name out
  else return out

/-- `_tool_name_by_id`. -/
def toolNameById (messages : List Json) : Except Raised (List (Key × Json)) :=
  messages.foldlM (fun out msg => do
    let calls ← (← msg.get "tool_calls").iterOr
    calls.foldlM rememberName out) []

/-- `_tool_response_payload`. -/
def toolResponsePayload (text : String) : Json := (loadsDict float text).getD (.obj [("result", .str text)])

/-- The part of a tool call. -/
def functionCallPart (tc : Json) : Except Raised Json := do
  let fn ← functionOf tc
  let name ← fn.get "name"
  return .obj [("functionCall", .obj [("name", name.orElse (.str "")), ("args", jsonArgs float (fn.field "arguments"))])]

def geminiMessage (nameById : List (Key × Json)) (msg : Json) : Except Raised Emitted := do
  let role ← msg.get "role"
  let text ← textFromContent (msg.field "content")
  if role.isText "system" then return systemPart text
  else if role.isText "tool" then
    let known := (nameById.lookup (← (msg.field "tool_call_id").key)).getD .null
    return .message (.obj [("role", .str "user"), ("parts", .arr [.obj [("functionResponse", .obj [
      ("name", (known.orElse (msg.field "name")).orElse (.str "tool")), ("response", toolResponsePayload float text)])]])])
  else if role.isText "assistant" then
    let calls ← (← (msg.field "tool_calls").iterOr).mapM (functionCallPart float)
    let parts := (if text = "" then [] else [.obj [("text", .str text)]]) ++ calls
    return if parts.isEmpty then .nothing else .message (.obj [("role", .str "model"), ("parts", .arr parts)])
  else
    return if text = "" then .nothing
      else .message (.obj [("role", .str "user"), ("parts", .arr [.obj [("text", .str text)]])])

/-- `_openai_messages_to_gemini`. -/
def openaiMessagesToGemini (messages : Json) : Except Raised (List Json × List String) := do
  let nameById ← toolNameById (← messages.iterOr)
  translate (geminiMessage float nameById) messages

end Gemini

section Bedrock

variable (float : String → Json)

/-- The block of a tool call, none for one without a name. -/
def toolUseBlock (tc : Json) : Except Raised (Option Json) := do
  let fn ← functionOf tc
  let name ← fn.get "name"
  if name.truthy then
    return some (.obj [("toolUse", .obj [("toolUseId", (tc.field "id").orElse name), ("name", name),
      ("input", jsonArgs float (fn.field "arguments"))])])
  else return none

def bedrockMessage (msg : Json) : Except Raised Emitted := do
  let role ← msg.get "role"
  let text ← textFromContent (msg.field "content")
  if role.isText "system" then return systemPart text
  else if role.isText "tool" then
    let toolUseId := (msg.field "tool_call_id").orElse (msg.field "id")
    return if toolUseId.truthy then
        .message (.obj [("role", .str "user"), ("content", .arr [.obj [("toolResult", .obj [("toolUseId", toolUseId),
          ("content", .arr [.obj [("text", .str text)]])])]])])
      else .nothing
  else if role.isText "assistant" then
    let blocks ← (← (msg.field "tool_calls").iterOr).mapM (toolUseBlock float)
    let content := (if text = "" then [] else [.obj [("text", .str text)]]) ++ blocks.reduceOption
    return if content.isEmpty then .nothing else .message (.obj [("role", .str "assistant"), ("content", .arr content)])
  else
    return if text = "" then .nothing
      else .message (.obj [("role", .str "user"), ("content", .arr [.obj [("text", .str text)]])])

/-- `_openai_messages_to_bedrock`. -/
def openaiMessagesToBedrock (messages : Json) : Except Raised (List Json × List String) :=
  translate (bedrockMessage float) messages

end Bedrock

end Unhardcoded.Source.MessageTranslation

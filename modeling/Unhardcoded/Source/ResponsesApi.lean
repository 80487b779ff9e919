import Unhardcoded.Source.CodexBackend

/-!
# The Responses API of the gateway: results out

Source: `result_to_responses_object` and `responses_sse_events` of responses_api.py.
A frame keeps the value whose dump it sends; `json.loads` reads that value back, and
a dump has no line break. The identifiers of `_new_id` are parameters.
-/

namespace Unhardcoded.Source

open Python

namespace ResponsesApi

open Adapters (Line)

/-- What `_new_id` returns: `fc` and `call` by the position of the tool call. -/
structure Ids where
  response : String
  message : String
  fc : Nat → String
  call : Nat → String

section Object

variable (ids : Ids)

def messageItem (text : Json) : Json :=
  .obj [("type", .str "message"), ("id", .str ids.message), ("role", .str "assistant"),
    ("status", .str "completed"),
    ("content", .arr [.obj [("type", .str "output_text"), ("text", text), ("annotations", .arr [])]])]

/-- The item of the tool call at a position. -/
def functionCallItem (position : Nat) (tc : Json) : Except Raised Json := do
  let fn ← tc.get "function"
  let fn := fn.orDict
  let id ← tc.get "id"
  let name ← fn.get "name"
  let arguments ← fn.get "arguments"
  pure (.obj [("type", .str "function_call"), ("id", .str (ids.fc position)),
    ("call_id", id.orElse (.str (ids.call position))), ("name", name.orElse (.str "")),
    ("arguments", arguments.orElse (.str "\x7b\x7d")), ("status", .str "completed")])

def functionCallItems : Nat → List Json → Except Raised (List Json)
  | _, [] => pure []
  | position, tc :: calls => do
    let item ← functionCallItem ids position tc
    let items ← functionCallItems (position + 1) calls
    pure (item :: items)

/-- `v is not None`. -/
def present : Json → Bool
  | .null => false
  | _ => true

/-- A field of the usage, under a condition. -/
def countIf (condition : Bool) (key : String) (value : Json) : List (String × Json) :=
  if condition then [(key, value)] else []

/-- `usage` of a response dict. -/
def usage (resp : Json) : List (String × Json) :=
  countIf (present (resp.field "tokens_in")) "input_tokens" (resp.field "tokens_in") ++
    countIf (present (resp.field "tokens_out")) "output_tokens" (resp.field "tokens_out") ++
    countIf (present (resp.field "tokens_total")) "total_tokens" (resp.field "tokens_total") ++
    countIf (resp.field "tokens_cached").truthy "input_tokens_details"
      (.obj [("cached_tokens", resp.field "tokens_cached")]) ++
    countIf (present (resp.field "tokens_reasoning")) "output_tokens_details"
      (.obj [("reasoning_tokens", resp.field "tokens_reasoning")])

/-- `resp.get("raw_model") or chosen.get("served_model_id") or requested_model`. -/
def model (resp chosen : Json) (requestedModel : String) : Except Raised Json :=
  if (resp.field "raw_model").truthy then pure (resp.field "raw_model")
  else (chosen.get "served_model_id").map (·.orElse (.str requestedModel))

def resultToResponsesObject (requestedModel : String) (createdAt : Int) (result : Json) : Except Raised Json := do
  let resp := (← result.get "response").orDict
  let chosen := (← result.get "chosen").orDict
  let text := (← resp.get "text").orElse (.str "")
  let toolCalls := resp.field "tool_calls"
  let finish := (resp.field "finish_reason").orElse (.str "stop")
  let model ← model resp chosen requestedModel
  let reasoning ← (resp.field "reasoning_items").iterOr
  let calls ← functionCallItems ids 0 (← toolCalls.iterOr)
  let output := reasoning ++ (if text.truthy then [messageItem ids text] else []) ++ calls
  let fields := [("id", .str ids.response), ("object", .str "response"), ("created_at", .int createdAt),
    ("status", .str (if finish.isText "length" then "incomplete" else "completed")), ("model", model),
    ("output", .arr output)]
  pure (.obj (if (usage resp).isEmpty then fields else fields ++ [("usage", .obj (usage resp))]))

end Object

/-- A frame of `_sse`: its event name and the value it dumps. -/
structure Frame where
  event : String
  data : Json

/-- The lines of a frame: `event: ..`, `data: ..` and the empty one. -/
def Frame.lines (frame : Frame) : List Line := [⟨false, .absent⟩, ⟨false, .event frame.data⟩, ⟨false, .absent⟩]

section Events

/-- The generator: `seq` and the frames so far. -/
abbrev Emitter := StateT (Int × List Frame) (Except Raised)

/-- `_emit`. -/
def emit (event : String) (data : List (String × Json)) : Emitter Unit :=
  modify fun (seq, frames) =>
    (seq + 1, frames ++ [⟨event, .obj (("type", .str event) :: ("sequence_number", .int seq) :: data)⟩])

/-- `{**item, key: value}`. -/
def override (item : Json) (key : String) (value : Json) : Except Raised Json :=
  match item with
  | .obj fields => pure (.obj (insert key value fields))
  | _ => throw .typeError

/-- `item["id"]`. -/
def itemId (item : Json) : Except Raised Json :=
  match item.field? "id" with
  | some id => pure id
  | none => throw (.other "KeyError" "'id'")

def emitPart (outIndex : Nat) (item : Json) (summaryIndex : Nat) (part : Json) : Emitter Unit := do
  let id ← itemId item
  let position : List (String × Json) :=
    [("item_id", id), ("output_index", .int outIndex), ("summary_index", .int summaryIndex)]
  let text ← part.getD "text" (.str "")
  emit "response.reasoning_summary_part.added" (position ++ [("part", ← override part "text" (.str ""))])
  if text.truthy then
    emit "response.reasoning_summary_text.delta" (position ++ [("delta", text)])
  emit "response.reasoning_summary_text.done" (position ++ [("text", text)])
  emit "response.reasoning_summary_part.done" (position ++ [("part", part)])

def emitParts (outIndex : Nat) (item : Json) : Nat → List Json → Emitter Unit
  | _, [] => pure ()
  | summaryIndex, part :: parts => do
    emitPart outIndex item summaryIndex part
    emitParts outIndex item (summaryIndex + 1) parts

def itemDone (outIndex : Nat) (item : Json) : Emitter Unit :=
  emit "response.output_item.done" [("output_index", .int outIndex), ("item", item)]

def itemAdded (outIndex : Nat) (item : Json) (key : String) (value : Json) : Emitter Unit := do
  emit "response.output_item.added" [("output_index", .int outIndex), ("item", ← override item key value)]

def emitReasoning (outIndex : Nat) (item : Json) : Emitter Unit := do
  itemAdded outIndex item "summary" (.arr [])
  emitParts outIndex item 0 (← (item.field "summary").iterOr)
  itemDone outIndex item

def emitMessage (outIndex : Nat) (item : Json) : Emitter Unit := do
  let text ← (← ((item.field "content").orElse (.arr [.obj []])).first).getD "text" (.str "")
  itemAdded outIndex item "content" (.arr [])
  let id ← itemId item
  let position : List (String × Json) :=
    [("item_id", id), ("output_index", .int outIndex), ("content_index", .int 0)]
  emit "response.output_text.delta" (position ++ [("delta", text)])
  emit "response.output_text.done" (position ++ [("text", text)])
  itemDone outIndex item

def emitFunctionCall (outIndex : Nat) (item : Json) : Emitter Unit := do
  let args := (item.field "arguments").orElse (.str "")
  itemAdded outIndex item "arguments" (.str "")
  let id ← itemId item
  let position : List (String × Json) := [("item_id", id), ("output_index", .int outIndex)]
  emit "response.function_call_arguments.delta" (position ++ [("delta", args)])
  emit "response.function_call_arguments.done" (position ++ [("arguments", args)])
  itemDone outIndex item

def emitItem (outIndex : Nat) (item : Json) : Emitter Unit := do
  let type ← item.get "type"
  match type with
  | .str "reasoning" => emitReasoning outIndex item
  | .str "message" => emitMessage outIndex item
  | .str "function_call" => emitFunctionCall outIndex item
  | _ => pure ()

def emitItems : Nat → List Json → Emitter Unit
  | _, [] => pure ()
  | outIndex, item :: items => do
    emitItem outIndex item
    emitItems (outIndex + 1) items

/-- The frames, of an object whose events do not raise. -/
def responsesSseEvents (obj : Json) (startSeq : Int) : Except Raised (List Frame) := do
  let emitted : Emitter Unit := do
    emitItems 0 (← (← obj.get "output").iterOr)
    emit "response.completed" [("response", obj)]
  let (_, _, frames) ← emitted.run (startSeq, [])
  pure frames

end Events

end ResponsesApi

end Unhardcoded.Source
